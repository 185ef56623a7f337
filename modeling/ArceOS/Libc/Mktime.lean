import ArceOS.Libc.Malloc

/-!
# `mktime`

`mktime` of `axlibc/src/mktime.rs`: broken-down time to seconds since the Unix epoch. It
counts days from `1970-01-01` by two loops, over whole years and over the months of the
year, forwards for a date from `1970` on and backwards for one before it, and adds the time
of day. It reads `*t` and never writes it, so the model takes the `tm` by value.

The `c_int` fields are integers, as is the `i64` arithmetic: with `tm_year + 1900` in
`c_int`, no value the function computes leaves `i64`. Rust's `%` is `Int.tmod`. An index of
`MONTH_DAYS` out of its bounds is a panic.

The specification is the proleptic Gregorian calendar, counted in closed form:
`leapsBefore` numbers the leap years before a year, so `epochDays` is the signed number of
days from `1970-01-01` to a date, with no loop.

## Main results

- `yearsDown_eq`, `yearsUp_eq`, `monthsDown_eq`, `monthsUp_eq`: what each loop adds;
- `mktime_eq_epoch_seconds`: for a month in `0..11`, `mktime` returns
  `86400 * epochDays + 3600 * tm_hour + 60 * tm_min + tm_sec`, for years before, at and
  after `1970`; the day of the month and the time of day need no bound.
-/

namespace ArceOS.Libc

/-! ## §1 The calendar -/

/-- The Gregorian leap-year rule. -/
def IsLeap (y : Int) : Prop := y % 4 = 0 ∧ (y % 100 ≠ 0 ∨ y % 400 = 0)

instance (y : Int) : Decidable (IsLeap y) := inferInstanceAs (Decidable (_ ∧ _))

/-- The number of days of the year `y`. -/
def yearLength (y : Int) : Int := if IsLeap y then 366 else 365

/-- The lengths of the twelve months of a year. -/
def monthLengths (leap : Bool) : List Int :=
  [31, if leap then 29 else 28, 31, 30, 31, 30, 31, 31, 30, 31, 30, 31]

/-- The leap years before `y`, counted from a fixed origin: `leapsBefore b - leapsBefore a`
    is the number of leap years in `[a, b)`. -/
def leapsBefore (y : Int) : Int := (y - 1) / 4 - (y - 1) / 100 + (y - 1) / 400

/-- The signed number of days from `1970-01-01` to day `mday` of month `mon` (from `0`)
    of year `y`. -/
def epochDays (y : Int) (mon : Nat) (mday : Int) : Int :=
  365 * (y - 1970) + (leapsBefore y - leapsBefore 1970) +
    ((monthLengths (decide (IsLeap y))).take mon).sum + (mday - 1)

theorem leapsBefore_succ (y : Int) :
    leapsBefore (y + 1) = leapsBefore y + if IsLeap y then 1 else 0 := by
  unfold leapsBefore
  by_cases h : IsLeap y
  · rw [if_pos h]
    unfold IsLeap at h
    omega
  · rw [if_neg h]
    unfold IsLeap at h
    omega

theorem sum_monthLengths (y : Int) : (monthLengths (decide (IsLeap y))).sum = yearLength y := by
  unfold yearLength
  by_cases h : IsLeap y <;> simp [monthLengths, h]

/-! ## §2 The source -/

/-- `struct tm`, the fields `mktime` and `strftime` read. -/
structure Tm where
  tmSec : Int
  tmMin : Int
  tmHour : Int
  tmMday : Int
  tmMon : Int
  tmYear : Int
  tmWday : Int
  tmYday : Int
  deriving DecidableEq, Repr

/-- `MONTH_DAYS`: the non-leap row, then the leap row. -/
def MONTH_DAYS : List (List Int) :=
  [[31, 28, 31, 30, 31, 30, 31, 31, 30, 31, 30, 31],
   [31, 29, 31, 30, 31, 30, 31, 31, 30, 31, 30, 31]]

/-- `leap_year`. -/
def leapYear (year : Int) : Bool :=
  year.tmod 4 == 0 && (year.tmod 100 != 0 || year.tmod 400 == 0)

/-- `MONTH_DAYS[leap][month as usize]`; a negative `month` becomes a huge index. -/
def monthDays (leap : Nat) (month : Int) : Except Fault Int :=
  if month < 0 then .error (.panic "index out of bounds")
  else
    match (MONTH_DAYS[leap]?).bind (·[month.toNat]?) with
    | some d => .ok d
    | none => .error (.panic "index out of bounds")

/-- `while year > 1970 { year -= 1; day += if leap_year(year) { 366 } else { 365 }; }` -/
def yearsDown (year day : Int) : Int :=
  if year > 1970 then yearsDown (year - 1) (day + if leapYear (year - 1) then 366 else 365)
  else day
termination_by (year - 1970).toNat
decreasing_by omega

/-- `while year < 1969 { year += 1; day += if leap_year(year) { 366 } else { 365 }; }` -/
def yearsUp (year day : Int) : Int :=
  if year < 1969 then yearsUp (year + 1) (day + if leapYear (year + 1) then 366 else 365)
  else day
termination_by (1969 - year).toNat
decreasing_by omega

/-- `while month > 0 { month -= 1; day += MONTH_DAYS[leap][month as usize] as i64; }` -/
def monthsDown (leap : Nat) (month day : Int) : Except Fault Int :=
  if month > 0 then
    match monthDays leap (month - 1) with
    | .error e => .error e
    | .ok d => monthsDown leap (month - 1) (day + d)
  else .ok day
termination_by month.toNat
decreasing_by omega

/-- `while month < 11 { month += 1; day += MONTH_DAYS[leap][month as usize] as i64; }` -/
def monthsUp (leap : Nat) (month day : Int) : Except Fault Int :=
  if month < 11 then
    match monthDays leap (month + 1) with
    | .error e => .error e
    | .ok d => monthsUp leap (month + 1) (day + d)
  else .ok day
termination_by (11 - month).toNat
decreasing_by omega

/-- `mktime`. -/
def mktime (t : Tm) : Except Fault Int :=
  let year := t.tmYear + 1900
  let day := t.tmMday - 1
  let leap := if leapYear year then 1 else 0
  let secs := t.tmHour * (60 * 60) + t.tmMin * 60 + t.tmSec
  if year < 1970 then
    match monthDays (if leapYear year then 1 else 0) t.tmMon with
    | .error e => .error e
    | .ok d =>
      match monthsUp leap t.tmMon (yearsUp year (d - day)) with
      | .error e => .error e
      | .ok day => .ok (-(day * (60 * 60 * 24) - secs))
  else
    match monthsDown leap t.tmMon (yearsDown year day) with
    | .error e => .error e
    | .ok day => .ok (day * (60 * 60 * 24) + secs)

/-! ## §3 The loops -/

theorem tmod_eq_zero_iff (y k : Int) : y.tmod k = 0 ↔ y % k = 0 := by
  rw [← Int.dvd_iff_tmod_eq_zero, Int.dvd_iff_emod_eq_zero]

theorem leapYear_eq (y : Int) : leapYear y = decide (IsLeap y) := by
  rw [Bool.eq_iff_iff, decide_eq_true_iff]
  simp [leapYear, IsLeap, tmod_eq_zero_iff]

/-- The days the loops add for year `y`, against the closed count. -/
theorem yearDays_eq (y : Int) :
    (if leapYear y then 366 else 365 : Int) = 365 + (leapsBefore (y + 1) - leapsBefore y) := by
  rw [leapsBefore_succ, leapYear_eq]
  by_cases h : IsLeap y <;> simp only [h, decide_true, decide_false, if_true, if_false,
    Bool.false_eq_true] <;> omega

/-- Counting down from `year` adds the days of the years `1970` to `year - 1`. -/
theorem yearsDown_eq {year : Int} (h : 1970 ≤ year) (day : Int) :
    yearsDown year day = day + 365 * (year - 1970) + (leapsBefore year - leapsBefore 1970) := by
  -- the loop runs `year - 1970` times
  obtain ⟨n, rfl⟩ : ∃ n : Nat, year = 1970 + n := ⟨(year - 1970).toNat, by omega⟩
  induction n generalizing day with
  | zero =>
    rw [yearsDown, if_neg (by omega)]
    push_cast
    ring
  | succ n ih =>
    rw [yearsDown, if_pos (by omega), show (1970 : Int) + (n + 1 : Nat) - 1 = 1970 + n by omega,
      ih _ (by omega), yearDays_eq, show (1970 : Int) + n + 1 = 1970 + (n + 1 : Nat) by omega]
    push_cast
    ring

/-- Counting up from `year` adds the days of the years `year + 1` to `1969`. -/
theorem yearsUp_eq {year : Int} (h : year ≤ 1969) (day : Int) :
    yearsUp year day =
      day + 365 * (1969 - year) + (leapsBefore 1970 - leapsBefore (year + 1)) := by
  -- the loop runs `1969 - year` times
  obtain ⟨n, rfl⟩ : ∃ n : Nat, year = 1969 - n := ⟨(1969 - year).toNat, by omega⟩
  induction n generalizing day with
  | zero =>
    rw [yearsUp, if_neg (by omega)]
    push_cast
    ring
  | succ n ih =>
    rw [yearsUp, if_pos (by omega), show (1969 : Int) - (n + 1 : Nat) + 1 = 1969 - n by omega,
      ih _ (by omega), yearDays_eq]
    push_cast
    ring

theorem MONTH_DAYS_row (b : Bool) : MONTH_DAYS[if b then 1 else 0]? = some (monthLengths b) := by
  cases b <;> rfl

theorem length_monthLengths (b : Bool) : (monthLengths b).length = 12 := rfl

/-- A month of `0..11` indexes the row of its year. -/
theorem monthDays_of_lt (b : Bool) {month : Int} (h0 : 0 ≤ month) (h : month < 12) :
    monthDays (if b then 1 else 0) month = .ok ((monthLengths b).getD month.toNat 0) := by
  have hlen : month.toNat < (monthLengths b).length := by
    rw [length_monthLengths]
    omega
  simp [monthDays, MONTH_DAYS_row, not_lt.mpr h0, List.getElem?_eq_getElem hlen]

/-- Counting down from `month` adds the months before it. -/
theorem monthsDown_eq (b : Bool) {month : Int} (h0 : 0 ≤ month) (h12 : month ≤ 12) (day : Int) :
    monthsDown (if b then 1 else 0) month day =
      .ok (day + ((monthLengths b).take month.toNat).sum) := by
  obtain ⟨n, rfl⟩ := Int.eq_ofNat_of_zero_le h0
  induction n generalizing day with
  | zero =>
    rw [monthsDown, if_neg (by omega)]
    simp
  | succ n ih =>
    have hn : n < (monthLengths b).length := by
      rw [length_monthLengths]
      omega
    rw [monthsDown, if_pos (by omega), show ((n + 1 : Nat) : Int) - 1 = n by omega,
      monthDays_of_lt b (by omega) (by omega)]
    dsimp only
    rw [ih _ (by omega) (by omega), Int.toNat_natCast, Int.toNat_natCast,
      List.sum_take_succ _ _ hn, List.getD_eq_getElem _ _ hn]
    congr 1
    ring

/-- Counting up from `month` adds the months after it. -/
theorem monthsUp_eq (b : Bool) {month : Int} (h0 : -1 ≤ month) (h11 : month ≤ 11) (day : Int) :
    monthsUp (if b then 1 else 0) month day =
      .ok (day + ((monthLengths b).drop (month + 1).toNat).sum) := by
  obtain ⟨n, hn⟩ : ∃ n : Nat, month = 11 - n := ⟨(11 - month).toNat, by omega⟩
  subst hn
  induction n generalizing day with
  | zero =>
    rw [monthsUp, if_neg (by omega)]
    simp [monthLengths]
  | succ n ih =>
    have hlen : (11 - n : Int).toNat < (monthLengths b).length := by
      rw [length_monthLengths]
      omega
    rw [monthsUp, if_pos (by omega), show (11 : Int) - (n + 1 : Nat) + 1 = 11 - n by omega,
      monthDays_of_lt b (by omega) (by omega)]
    dsimp only
    rw [ih _ (by omega) (by omega), List.drop_eq_getElem_cons hlen, List.sum_cons,
      List.getD_eq_getElem _ _ hlen,
      show (11 - (n : Int) + 1).toNat = (11 - n : Int).toNat + 1 by omega]
    congr 1
    ring

theorem yearLength_eq (y : Int) : yearLength y = 365 + (leapsBefore (y + 1) - leapsBefore y) := by
  rw [leapsBefore_succ]
  unfold yearLength
  split_ifs <;> ring

/-- The months before `m`, month `m`, and the months after it make up the year. -/
theorem sum_take_add_getD_add_sum_drop (l : List Int) {m : Nat} (hm : m < l.length) :
    (l.take m).sum + l.getD m 0 + (l.drop (m + 1)).sum = l.sum := by
  rw [← List.sum_take_add_sum_drop l m, List.drop_eq_getElem_cons hm, List.sum_cons,
    List.getD_eq_getElem _ _ hm]
  ring

/-! ## §4 `mktime` -/

/-- For a month in `0..11`, `mktime` returns the seconds from the epoch of the proleptic
    Gregorian calendar, for years before, at and after `1970` alike, and any day and time of
    day. -/
theorem mktime_eq_epoch_seconds (t : Tm) (hmon : 0 ≤ t.tmMon ∧ t.tmMon ≤ 11) :
    mktime t = .ok (86400 * epochDays (t.tmYear + 1900) t.tmMon.toNat t.tmMday +
      3600 * t.tmHour + 60 * t.tmMin + t.tmSec) := by
  obtain ⟨h0, h11⟩ := hmon
  unfold mktime
  simp only [leapYear_eq]
  by_cases hy : t.tmYear + 1900 < 1970
  · -- before `1970` the loops count the days from the date to the epoch, backwards
    rw [if_pos hy, monthDays_of_lt _ h0 (by omega)]
    dsimp only
    rw [monthsUp_eq _ (by omega) h11, yearsUp_eq (by omega)]
    dsimp only
    have hlen : t.tmMon.toNat < (monthLengths (decide (IsLeap (t.tmYear + 1900)))).length := by
      rw [length_monthLengths]
      omega
    have hyear := sum_take_add_getD_add_sum_drop _ hlen
    rw [sum_monthLengths, yearLength_eq] at hyear
    rw [show (t.tmMon + 1).toNat = t.tmMon.toNat + 1 by omega]
    unfold epochDays
    congr 1
    linarith
  · -- from `1970` on they count the days from the epoch to the date
    rw [if_neg hy, yearsDown_eq (by omega), monthsDown_eq _ h0 (by omega)]
    unfold epochDays
    dsimp only
    congr 1
    ring

/-- `2000-01-01 00:00:00`. -/
theorem mktime_first_day_of_2000 :
    (0 ≤ (0 : Int) ∧ (0 : Int) ≤ 11) ∧
    mktime ⟨0, 0, 0, 1, 0, 100, 6, 0⟩ =
      .ok (86400 * epochDays (100 + 1900) (0 : Int).toNat 1 + 3600 * 0 + 60 * 0 + 0) :=
  ⟨by decide, mktime_eq_epoch_seconds ⟨0, 0, 0, 1, 0, 100, 6, 0⟩ (by decide)⟩

example : epochDays 2000 0 1 = 10957 := by decide
example : epochDays 1969 11 31 = -1 := by decide

end ArceOS.Libc
