import Mathlib

/-!
# The `strtol` Family of `axlibc`

`c/stdlib.c` carries four integer parsers in the FreeBSD style: `strtol`, `strtoul`,
`strtoll` and `strtoull`. Their bodies differ only in the bound the overflow test
compares against, the value stored on overflow and the return type, so the model is one
function `strtoCore` with those three as parameters, and each C function is `strtoCore`
at its own values.

A C string is the list of its bytes before the NUL; reading past the list reads the NUL.
The `ctype.h` macros the parsers call are modelled as written, with their arithmetic on
`unsigned`, and characterised once.

The abstract side is the C subject sequence: `digitRun` is the digit sequence a string
starts with in a base, and `digitsValue` its value. Against it:

## Main results

- `digitValue_toNat`: the loop's macro chain reads `0`–`9`, `a`–`z` and `A`–`Z` as the
  digits 0 to 35, and nothing else;
- `cutoff_test_iff`: the `cutoff`/`cutlim` test is the exact overflow test
  `M < acc * base + d`;
- `digitLoop_spec`: the loop consumes the digit run and holds its value, or records an
  overflow exactly when that value exceeds the bound;
- `strtoCore_eq`: the outcome of every call with a valid base, from the digit run after
  the white space, the sign and the base prefix;
- `strtol_value`, `strtoul_value`: the values saturate to the type's range, and a
  negative `strtoul` is negated modulo `2 ^ 64`;
- `strtoCore_of_hex_prefix_without_digits`: a `0x` that no hex digit follows is consumed
  all the same, and `*endptr` then falls back to `nptr` rather than to the `x`.
-/

namespace ArceOS.Libc

/-! ## §1 `ctype.h` -/

/-- `isspace(a)`: `a == ' ' || (unsigned)a - '\t' < 5`. -/
def isspace (a : UInt8) : Bool := a.toUInt32 == 32 || a.toUInt32 - 9 < 5

/-- `isdigit(a)`: `(unsigned)(a) - '0' < 10`. -/
def isdigit (a : UInt8) : Bool := a.toUInt32 - 48 < 10

/-- `isalpha(a)`: `((unsigned)(a) | 32) - 'a' < 26`; the `| 32` folds upper case onto
    lower case. -/
def isalpha (a : UInt8) : Bool := (a.toUInt32 ||| 32) - 97 < 26

/-- `isupper(a)`: `(unsigned)(a) - 'A' < 26`. -/
def isupper (a : UInt8) : Bool := a.toUInt32 - 65 < 26

/-- `isascii(a)`: `!(a & ~0x7f)`. -/
def isascii (a : UInt8) : Bool := (a.toUInt32 &&& ~~~0x7f) == 0

theorem isspace_iff {c : UInt8} :
    isspace c = true ↔ c.toNat = 32 ∨ 9 ≤ c.toNat ∧ c.toNat < 14 := by
  have hc := c.toNat_lt
  simp [isspace, UInt32.lt_iff_toNat_lt, UInt32.toNat_sub, ← UInt32.toNat_inj]
  omega

theorem isdigit_iff {c : UInt8} : isdigit c = true ↔ 48 ≤ c.toNat ∧ c.toNat < 58 := by
  have hc := c.toNat_lt
  simp [isdigit, UInt32.lt_iff_toNat_lt, UInt32.toNat_sub]
  omega

theorem isupper_iff {c : UInt8} : isupper c = true ↔ 65 ≤ c.toNat ∧ c.toNat < 91 := by
  have hc := c.toNat_lt
  simp [isupper, UInt32.lt_iff_toNat_lt, UInt32.toNat_sub]
  omega

-- The two bit-mask macros are checked over all 256 bytes.
set_option maxRecDepth 4000 in
theorem isalpha_iff {c : UInt8} :
    isalpha c = true ↔ 65 ≤ c.toNat ∧ c.toNat < 91 ∨ 97 ≤ c.toNat ∧ c.toNat < 123 := by
  revert c
  decide

set_option maxRecDepth 4000 in
theorem isascii_iff {c : UInt8} : isascii c = true ↔ c.toNat < 128 := by
  revert c
  decide

/-! ## §2 The subject sequence -/

/-- The value of `c` as a digit of a base up to 36: `0`–`9`, then `A`–`Z` or `a`–`z`
    for 10 to 35. -/
def digitOf (c : UInt8) : Option Nat :=
  if 48 ≤ c.toNat ∧ c.toNat < 58 then some (c.toNat - 48)
  else if 65 ≤ c.toNat ∧ c.toNat < 91 then some (c.toNat - 55)
  else if 97 ≤ c.toNat ∧ c.toNat < 123 then some (c.toNat - 87)
  else none

/-- The digit sequence, in base `base`, that `s` starts with, as digit values. -/
def digitRun (base : Nat) : List UInt8 → List Nat
  | [] => []
  | c :: cs =>
    match digitOf c with
    | some d => if d < base then d :: digitRun base cs else []
    | none => []

/-- The value of the digits `ds`, most significant first, written after `acc`. -/
def digitsValue (base acc : Nat) (ds : List Nat) : Nat :=
  ds.foldl (fun a d => a * base + d) acc

theorem digitRun_cons_of_digit {base d : Nat} {c : UInt8} (cs : List UInt8)
    (hc : digitOf c = some d) (hd : d < base) :
    digitRun base (c :: cs) = d :: digitRun base cs := by
  simp [digitRun, hc, hd]

theorem digitRun_cons_of_stop {base : Nat} {c : UInt8} (cs : List UInt8)
    (hc : ∀ d, digitOf c = some d → base ≤ d) : digitRun base (c :: cs) = [] := by
  cases h : digitOf c with
  | none => simp [digitRun, h]
  | some d => simp [digitRun, h, Nat.not_lt.mpr (hc d h)]

@[simp] theorem digitsValue_nil (base acc : Nat) : digitsValue base acc [] = acc := rfl

@[simp] theorem digitsValue_cons (base acc d : Nat) (ds : List Nat) :
    digitsValue base acc (d :: ds) = digitsValue base (acc * base + d) ds := rfl

/-- Appending digits never lowers the value, in a base of at least one. -/
theorem le_digitsValue {base : Nat} (hb : 0 < base) (acc : Nat) (ds : List Nat) :
    acc ≤ digitsValue base acc ds := by
  induction ds generalizing acc with
  | nil => exact Nat.le_refl acc
  | cons d ds ih =>
    have hmul : acc ≤ acc * base := Nat.le_mul_of_pos_right acc hb
    calc acc ≤ acc * base + d := Nat.le_add_right_of_le hmul
      _ ≤ digitsValue base (acc * base + d) ds := ih _

/-! ## §3 The source -/

/-- The error codes the parsers store in `errno`. -/
inductive Errno
  | EINVAL
  | ERANGE
deriving DecidableEq, Repr

/-- What a call leaves: the value returned, `*endptr - nptr`, and the `errno` it sets. -/
structure StrtoResult (α : Type) where
  value : α
  endOff : Nat
  errno : Option Errno
deriving DecidableEq, Repr

/-- `*p` for `p = nptr + i`, in the NUL-terminated string holding the bytes `s`. -/
def byteAt (s : List UInt8) (i : Nat) : UInt8 := s.getD i 0

/-- The `do c = *s++; while (isspace(c))` loop: the index of the first `c` it keeps. -/
def skipSpaces : List UInt8 → Nat
  | [] => 0
  | c :: cs => if isspace c then skipSpaces cs + 1 else 0

/-- The sign test on `c = nptr[i]`: `neg`, and the index of the next `c`. -/
def readSign (nptr : List UInt8) (i : Nat) : Bool × Nat :=
  if byteAt nptr i = 45 then (true, i + 1)
  else if byteAt nptr i = 43 then (false, i + 1)
  else (false, i)

/-- The `0x` look-ahead and the base-0 choice on `c = nptr[i]`: the base the loop runs in
    and the index of its first `c`. After the look-ahead the base is 16, so the base-0
    choice only applies when the look-ahead did not fire. -/
def readBase (nptr : List UInt8) (base : Int) (i : Nat) : Nat × Nat :=
  if (base = 0 ∨ base = 16) ∧ byteAt nptr i = 48 ∧
      (byteAt nptr (i + 1) = 120 ∨ byteAt nptr (i + 1) = 88) then (16, i + 2)
  else if base = 0 then (if byteAt nptr i = 48 then 8 else 10, i)
  else (base.toNat, i)

/-- The loop body's reading of `c` before the base test: `c - '0'` for a decimal digit,
    `c - ('A' - 10)` or `c - ('a' - 10)` for a letter, a break for anything else. -/
def digitValue (c : UInt8) : Option UInt8 :=
  if !isascii c then none
  else if isdigit c then some (c - 48)
  else if isalpha c then some (c - if isupper c then 55 else 87)
  else none

/-- The rest of the loop body on the state `(acc, any)`: record an overflow in `any`, or
    take the digit into `acc`. -/
def accumulate (base cutoff cutlim : Nat) (st : Nat × Int) (d : Nat) : Nat × Int :=
  if st.2 < 0 ∨ cutoff < st.1 ∨ (st.1 = cutoff ∧ cutlim < d) then (st.1, -1)
  else (st.1 * base + d, 1)

/-- The loop `for (acc = 0, any = 0;; c = *s++)` over the bytes from the first `c` on
    (the list ends where the NUL is): the final `(acc, any)`, and how many bytes it
    took, so that `s - 1` is that many bytes past the first `c`. -/
def digitLoop (base cutoff cutlim : Nat) : List UInt8 → Nat × Int → (Nat × Int) × Nat
  | [], st => (st, 0)
  | c :: cs, st =>
    match digitValue c with
    | none => (st, 0)
    | some d =>
      if base ≤ d.toNat then (st, 0)
      else
        let r := digitLoop base cutoff cutlim cs (accumulate base cutoff cutlim st d.toNat)
        (r.1, r.2 + 1)

/-- `(unsigned long)v` on a 64-bit target. -/
def toUnsigned (v : Int) : Nat := (v % 2 ^ 64).toNat

/-- `(long)b` for the bits `b` of an `unsigned long`. -/
def toSigned (b : Nat) : Int := if b < 2 ^ 63 then b else b - 2 ^ 64

/-- The body the four parsers share. `limit neg` is the bound of the overflow test
    (`cutoff` and `cutlim` are its quotient and remainder by the base), `saturated neg`
    the accumulator stored on overflow, and `ret` the conversion of the `unsigned`
    accumulator to the return type. -/
def strtoCore {α : Type} (limit saturated : Bool → Nat) (ret : Nat → α)
    (nptr : List UInt8) (base : Int) : StrtoResult α :=
  if base < 0 ∨ base = 1 ∨ 36 < base then ⟨ret 0, 0, some .EINVAL⟩
  else
    let (neg, i) := readSign nptr (skipSpaces nptr)
    let (qbase, i) := readBase nptr base i
    let ((acc, any), n) :=
      digitLoop qbase (limit neg / qbase) (limit neg % qbase) (nptr.drop i) (0, 0)
    if any < 0 then ⟨ret (saturated neg), i + n, some .ERANGE⟩
    else ⟨ret (if neg then toUnsigned (-acc) else acc), if any = 0 then 0 else i + n, none⟩

/-- `LONG_MAX`, `LONG_MIN` and `ULONG_MAX` for the 64-bit `long` of ArceOS's targets. -/
def LONG_MAX : Int := 2 ^ 63 - 1
def LONG_MIN : Int := -2 ^ 63
def ULONG_MAX : Nat := 2 ^ 64 - 1

/-- `LLONG_MAX`, `LLONG_MIN` and `ULLONG_MAX`; `long long` is 64 bits wide as well. -/
def LLONG_MAX : Int := 2 ^ 63 - 1
def LLONG_MIN : Int := -2 ^ 63
def ULLONG_MAX : Nat := 2 ^ 64 - 1

/-- `strtol`: the bound is `LONG_MAX`, or for a negative number
    `(unsigned long)LONG_MAX - (unsigned long)(LONG_MIN + LONG_MAX)`; an overflow stores
    `LONG_MIN` or `LONG_MAX`. -/
def strtol (nptr : List UInt8) (base : Int) : StrtoResult Int :=
  strtoCore
    (fun neg => if neg then toUnsigned (LONG_MAX - toUnsigned (LONG_MIN + LONG_MAX))
      else toUnsigned LONG_MAX)
    (fun neg => toUnsigned (if neg then LONG_MIN else LONG_MAX)) toSigned nptr base

/-- `strtoul`: the bound is `ULONG_MAX` and an overflow stores `ULONG_MAX`. -/
def strtoul (nptr : List UInt8) (base : Int) : StrtoResult Nat :=
  strtoCore (fun _ => ULONG_MAX) (fun _ => ULONG_MAX) id nptr base

/-- `strtoll`: `strtol` with the `long long` limits. -/
def strtoll (nptr : List UInt8) (base : Int) : StrtoResult Int :=
  strtoCore
    (fun neg => if neg then toUnsigned (LLONG_MAX - toUnsigned (LLONG_MIN + LLONG_MAX))
      else toUnsigned LLONG_MAX)
    (fun neg => toUnsigned (if neg then LLONG_MIN else LLONG_MAX)) toSigned nptr base

/-- `strtoull`: `strtoul` with `ULLONG_MAX`. -/
def strtoull (nptr : List UInt8) (base : Int) : StrtoResult Nat :=
  strtoCore (fun _ => ULLONG_MAX) (fun _ => ULLONG_MAX) id nptr base

@[simp] theorem byteAt_cons_zero (c : UInt8) (cs : List UInt8) : byteAt (c :: cs) 0 = c := rfl

@[simp] theorem byteAt_cons_succ (c : UInt8) (cs : List UInt8) (k : Nat) :
    byteAt (c :: cs) (k + 1) = byteAt cs k := rfl

@[simp] theorem toUnsigned_zero : toUnsigned 0 = 0 := rfl

/-! ## §4 Reading digits -/

/-- The loop's macro chain decodes exactly the digits `digitOf` names. -/
theorem digitValue_toNat (c : UInt8) : (digitValue c).map UInt8.toNat = digitOf c := by
  have hc := c.toNat_lt
  -- `c - k` does not wrap in the branches that subtract
  have hsub : ∀ k : UInt8, k.toNat ≤ c.toNat → (c - k).toNat = c.toNat - k.toNat :=
    fun k hk => UInt8.toNat_sub_of_le c k (UInt8.le_iff_toNat_le.mpr hk)
  have ha : isascii c = decide (c.toNat < 128) :=
    Bool.eq_iff_iff.mpr (by simpa using isascii_iff)
  have hd : isdigit c = decide (48 ≤ c.toNat ∧ c.toNat < 58) :=
    Bool.eq_iff_iff.mpr (by simpa using isdigit_iff)
  have hl : isalpha c = decide (65 ≤ c.toNat ∧ c.toNat < 91 ∨ 97 ≤ c.toNat ∧ c.toNat < 123) :=
    Bool.eq_iff_iff.mpr (by simpa using isalpha_iff)
  have hu : isupper c = decide (65 ≤ c.toNat ∧ c.toNat < 91) :=
    Bool.eq_iff_iff.mpr (by simpa using isupper_iff)
  simp only [digitValue, digitOf, ha, hd, hl, hu]
  clear ha hd hl hu
  -- the two decoders test the classes in another order; on each class they subtract the
  -- same offset, and a byte of no class is refused by both
  split_ifs <;> simp at * <;> first | omega | (rw [hsub] <;> simp; omega)

/-- Each byte is a digit below the base or a byte the loop stops at. -/
theorem digit_or_stop (b : Nat) (c : UInt8) :
    (∃ d, digitOf c = some d ∧ d < b) ∨ ∀ d, digitOf c = some d → b ≤ d := by
  by_cases h : ∃ d, digitOf c = some d ∧ d < b
  · exact Or.inl h
  · exact Or.inr fun d hd => Nat.not_lt.mp fun hlt => h ⟨d, hd, hlt⟩

theorem digitLoop_cons_of_digit {b co cl d : Nat} {c : UInt8} (cs : List UInt8)
    (st : Nat × Int) (hc : digitOf c = some d) (hd : d < b) :
    digitLoop b co cl (c :: cs) st =
      ((digitLoop b co cl cs (accumulate b co cl st d)).1,
        (digitLoop b co cl cs (accumulate b co cl st d)).2 + 1) := by
  have hv := digitValue_toNat c
  rw [hc] at hv
  obtain ⟨d', hd', rfl⟩ := Option.map_eq_some_iff.mp hv
  simp [digitLoop, hd', Nat.not_le.mpr hd]

theorem digitLoop_cons_of_stop {b co cl : Nat} {c : UInt8} (cs : List UInt8)
    (st : Nat × Int) (hc : ∀ d, digitOf c = some d → b ≤ d) :
    digitLoop b co cl (c :: cs) st = (st, 0) := by
  have hv := digitValue_toNat c
  cases h : digitValue c with
  | none => simp [digitLoop, h]
  | some d =>
    rw [h] at hv
    simp [digitLoop, h, hc d.toNat hv.symm]

/-- The loop takes exactly the digit run, whatever state it starts in. -/
theorem digitLoop_count (b co cl : Nat) (cs : List UInt8) (st : Nat × Int) :
    (digitLoop b co cl cs st).2 = (digitRun b cs).length := by
  induction cs generalizing st with
  | nil => rfl
  | cons c cs ih =>
    rcases digit_or_stop b c with ⟨d, hc, hd⟩ | hstop
    · rw [digitLoop_cons_of_digit cs st hc hd, digitRun_cons_of_digit cs hc hd,
        List.length_cons, ih]
    · rw [digitLoop_cons_of_stop cs st hstop, digitRun_cons_of_stop cs hstop]
      rfl

/-- Once `any` has recorded an overflow, it stays recorded. -/
theorem digitLoop_overflow (b co cl : Nat) (cs : List UInt8) (acc : Nat) :
    (digitLoop b co cl cs (acc, -1)).1.2 = -1 := by
  induction cs generalizing acc with
  | nil => rfl
  | cons c cs ih =>
    rcases digit_or_stop b c with ⟨d, hc, hd⟩ | hstop
    · have hst : accumulate b co cl (acc, -1) d = (acc, -1) := by simp [accumulate]
      rw [digitLoop_cons_of_digit cs _ hc hd, hst]
      exact ih acc
    · rw [digitLoop_cons_of_stop cs _ hstop]

/-! ## §5 The overflow test -/

section Bound

variable {b M : Nat}

/-- The test `acc > cutoff || (acc == cutoff && c > cutlim)`, with `cutoff = M / b` and
    `cutlim = M % b`, is the exact test for `acc * b + d` to exceed `M`. -/
theorem cutoff_test_iff {d acc : Nat} (hb : 0 < b) (hd : d < b) :
    (M / b < acc ∨ (acc = M / b ∧ M % b < d)) ↔ M < acc * b + d := by
  have hM : M / b * b + M % b = M := Nat.div_add_mod' M b
  rcases Nat.lt_trichotomy acc (M / b) with hlt | rfl | hgt
  · -- below the cutoff even the largest digit keeps `acc * b + d` within `M`
    have hle : acc * b + b ≤ M / b * b := by
      rw [← Nat.succ_mul]
      exact Nat.mul_le_mul_right b hlt
    constructor
    · rintro (h | ⟨h, -⟩) <;> omega
    · intro h
      omega
  · constructor
    · rintro (h | ⟨-, h⟩) <;> omega
    · intro h
      exact Or.inr ⟨rfl, by omega⟩
  · -- above the cutoff `acc * b` alone exceeds `M`
    have hle : M / b * b + b ≤ acc * b := by
      rw [← Nat.succ_mul]
      exact Nat.mul_le_mul_right b hgt
    have hmod := Nat.mod_lt M hb
    exact ⟨fun _ => by omega, fun _ => Or.inl hgt⟩

/-- The loop body from a state without overflow, its test read as `M < acc * b + d`. -/
theorem accumulate_of_nonneg {d acc : Nat} {any : Int} (hb : 0 < b) (hd : d < b)
    (hany : 0 ≤ any) :
    accumulate b (M / b) (M % b) (acc, any) d =
      if M < acc * b + d then (acc, -1) else (acc * b + d, 1) := by
  simp only [accumulate, ← cutoff_test_iff hb hd, Int.not_lt.mpr hany, false_or]

/-- The loop from a state within the bound `M`: `any` ends negative exactly when the value
    of the digit run exceeds `M`, and otherwise the state holds that value. -/
theorem digitLoop_spec (hb : 0 < b) (cs : List UInt8) {acc : Nat} {any : Int}
    (hany : 0 ≤ any) (hacc : acc ≤ M) :
    ((digitLoop b (M / b) (M % b) cs (acc, any)).1.2 < 0 ↔
        M < digitsValue b acc (digitRun b cs)) ∧
      (digitsValue b acc (digitRun b cs) ≤ M →
        (digitLoop b (M / b) (M % b) cs (acc, any)).1 =
          (digitsValue b acc (digitRun b cs), if digitRun b cs = [] then any else 1)) := by
  induction cs generalizing acc any with
  | nil =>
    simp only [digitLoop, digitRun, digitsValue_nil, if_true]
    exact ⟨by omega, fun _ => trivial⟩
  | cons c cs ih =>
    rcases digit_or_stop b c with ⟨d, hc, hd⟩ | hstop
    · rw [digitLoop_cons_of_digit cs _ hc hd, digitRun_cons_of_digit cs hc hd,
        digitsValue_cons, accumulate_of_nonneg hb hd hany]
      have hle := le_digitsValue hb (acc * b + d) (digitRun b cs)
      by_cases hover : M < acc * b + d
      · -- the cutoff test fires: `any` turns to -1 and stays there
        rw [if_pos hover, digitLoop_overflow]
        exact ⟨iff_of_true (by decide) (by omega), fun h => absurd h (by omega)⟩
      · rw [if_neg hover]
        obtain ⟨ih1, ih2⟩ := ih (by decide : (0 : Int) ≤ 1) (Nat.le_of_not_lt hover)
        refine ⟨ih1, fun h => ?_⟩
        rw [ih2 h]
        simp
    · rw [digitLoop_cons_of_stop cs _ hstop, digitRun_cons_of_stop cs hstop]
      simp only [digitsValue_nil, if_true]
      exact ⟨by omega, fun _ => trivial⟩

end Bound

/-! ## §6 White space, sign and base prefix -/

/-- The white space skipped is the longest run of spaces the string starts with. -/
theorem skipSpaces_spec (s : List UInt8) :
    (∀ k < skipSpaces s, isspace (byteAt s k) = true) ∧
      isspace (byteAt s (skipSpaces s)) = false := by
  induction s with
  | nil => exact ⟨fun k hk => absurd hk (Nat.not_lt_zero k), by decide⟩
  | cons c cs ih =>
    cases hc : isspace c with
    | false => simp [skipSpaces, hc]
    | true =>
      obtain ⟨ih1, ih2⟩ := ih
      simp only [skipSpaces, hc, if_true, byteAt_cons_succ]
      refine ⟨fun k hk => ?_, ih2⟩
      cases k with
      | zero => exact hc
      | succ k => exact ih1 k (Nat.lt_of_succ_lt_succ hk)

theorem readBase_pos (nptr : List UInt8) {base : Int} (i : Nat)
    (hbase : base = 0 ∨ 2 ≤ base ∧ base ≤ 36) : 0 < (readBase nptr base i).1 := by
  unfold readBase
  split_ifs <;> omega

theorem readBase_of_hex (nptr : List UInt8) {base : Int} {i : Nat}
    (hbase : base = 0 ∨ base = 16) (h0 : byteAt nptr i = 48)
    (hx : byteAt nptr (i + 1) = 120 ∨ byteAt nptr (i + 1) = 88) :
    readBase nptr base i = (16, i + 2) :=
  if_pos ⟨hbase, h0, hx⟩

/-- Every call with a valid base, from the digit run after the white space, the sign and
    the base prefix: no digit gives 0 with `*endptr = nptr`; a run whose value exceeds
    the bound saturates and sets `ERANGE`; any other run is taken, negated after a `-`. -/
theorem strtoCore_eq {α : Type} (limit saturated : Bool → Nat) (ret : Nat → α)
    (nptr : List UInt8) {base : Int} {neg : Bool} {i b j : Nat}
    (hbase : base = 0 ∨ 2 ≤ base ∧ base ≤ 36)
    (hs : readSign nptr (skipSpaces nptr) = (neg, i)) (hr : readBase nptr base i = (b, j)) :
    strtoCore limit saturated ret nptr base =
      if digitRun b (nptr.drop j) = [] then ⟨ret 0, 0, none⟩
      else if limit neg < digitsValue b 0 (digitRun b (nptr.drop j)) then
        ⟨ret (saturated neg), j + (digitRun b (nptr.drop j)).length, some .ERANGE⟩
      else
        ⟨ret (if neg then toUnsigned (-(digitsValue b 0 (digitRun b (nptr.drop j)) : Int))
          else digitsValue b 0 (digitRun b (nptr.drop j))),
          j + (digitRun b (nptr.drop j)).length, none⟩ := by
  have hb : 0 < b := by simpa [hr] using readBase_pos nptr i hbase
  have hvalid : ¬ (base < 0 ∨ base = 1 ∨ 36 < base) := by omega
  obtain ⟨hover, hval⟩ := digitLoop_spec (M := limit neg) hb (nptr.drop j)
    (le_refl (0 : Int)) (Nat.zero_le _)
  have hcount := digitLoop_count b (limit neg / b) (limit neg % b) (nptr.drop j) (0, 0)
  simp only [strtoCore, if_neg hvalid, hs, hr]
  rcases hloop : digitLoop b (limit neg / b) (limit neg % b) (nptr.drop j) (0, 0) with
    ⟨⟨acc, any⟩, n⟩
  rw [hloop] at hover hval hcount
  simp only at hover hval hcount ⊢
  subst hcount
  by_cases hds : digitRun b (nptr.drop j) = []
  · -- no digit: the value is 0, within every bound, and `any` stays 0
    have hv : digitsValue b 0 (digitRun b (nptr.drop j)) = 0 := by rw [hds]; rfl
    obtain ⟨rfl, rfl⟩ := Prod.mk.inj (hval (by omega))
    simp [hds]
  · by_cases hlim : limit neg < digitsValue b 0 (digitRun b (nptr.drop j))
    · rw [if_pos (hover.mpr hlim), if_neg hds, if_pos hlim]
    · obtain ⟨rfl, rfl⟩ := Prod.mk.inj (hval (Nat.le_of_not_lt hlim))
      simp [hds, hlim]

/-! ## §7 The four parsers -/

theorem toSigned_of_lt {b : Nat} (h : b < 2 ^ 63) : toSigned b = b := if_pos h

theorem toSigned_toUnsigned {v : Int} (h1 : -2 ^ 63 ≤ v) (h2 : v < 2 ^ 63) :
    toSigned (toUnsigned v) = v := by
  unfold toSigned toUnsigned
  split_ifs <;> omega

/-- `strtol` saturates: a digit run of value `w` after the sign gives `±w` clamped to
    `[LONG_MIN, LONG_MAX]`, with `ERANGE` set exactly when the clamp bites. -/
theorem strtol_value (nptr : List UInt8) {base : Int} {neg : Bool} {i b j : Nat}
    (hbase : base = 0 ∨ 2 ≤ base ∧ base ≤ 36)
    (hs : readSign nptr (skipSpaces nptr) = (neg, i)) (hr : readBase nptr base i = (b, j))
    (hds : digitRun b (nptr.drop j) ≠ []) :
    let w : Int := digitsValue b 0 (digitRun b (nptr.drop j))
    let v : Int := if neg then -w else w
    (strtol nptr base).value = max LONG_MIN (min LONG_MAX v) ∧
      ((strtol nptr base).errno = some .ERANGE ↔ v < LONG_MIN ∨ LONG_MAX < v) := by
  intro w v
  rw [strtol, strtoCore_eq _ _ _ nptr hbase hs hr, if_neg hds]
  have hlo : LONG_MIN = -2 ^ 63 := rfl
  have hhi : LONG_MAX = 2 ^ 63 - 1 := rfl
  cases neg with
  | false =>
    have hlim : toUnsigned LONG_MAX = 2 ^ 63 - 1 := rfl
    simp only [v, hlim, Bool.false_eq_true, if_false]
    split_ifs with hover
    · -- too large: `LONG_MAX`
      have hw : LONG_MAX < w := by simp only [w, hhi]; omega
      dsimp only
      rw [toSigned_of_lt (by decide)]
      exact ⟨by omega, iff_of_true rfl (Or.inr hw)⟩
    · have hw : w ≤ LONG_MAX := by simp only [w, hhi]; omega
      dsimp only
      rw [toSigned_of_lt (by omega)]
      exact ⟨by omega, iff_of_false (by simp) (by omega)⟩
  | true =>
    -- the bound `LONG_MAX - (LONG_MIN + LONG_MAX)` is `2 ^ 63`, the magnitude of `LONG_MIN`
    have hlim : toUnsigned (LONG_MAX - toUnsigned (LONG_MIN + LONG_MAX)) = 2 ^ 63 := rfl
    simp only [v, hlim, if_true]
    split_ifs with hover
    · -- too small: `LONG_MIN`
      have hw : -w < LONG_MIN := by simp only [w, hlo]; omega
      dsimp only
      rw [toSigned_toUnsigned (by decide) (by decide)]
      exact ⟨by omega, iff_of_true rfl (Or.inl hw)⟩
    · have hw : LONG_MIN ≤ -w := by simp only [w, hlo]; omega
      dsimp only
      rw [toSigned_toUnsigned (by omega) (by omega)]
      exact ⟨by omega, iff_of_false (by simp) (by omega)⟩

example : strtol [32, 45, 49, 50, 120] 10 = ⟨-12, 4, none⟩ := by decide

example : strtol [57, 50, 50, 51, 51, 55, 50, 48, 51, 54, 56, 53, 52, 55, 55, 53, 56, 48, 56] 10 =
    ⟨LONG_MAX, 19, some .ERANGE⟩ := by decide +kernel

/-- `strtoul` saturates to `ULONG_MAX`, and negates the value after a `-` modulo `2 ^ 64`. -/
theorem strtoul_value (nptr : List UInt8) {base : Int} {neg : Bool} {i b j : Nat}
    (hbase : base = 0 ∨ 2 ≤ base ∧ base ≤ 36)
    (hs : readSign nptr (skipSpaces nptr) = (neg, i)) (hr : readBase nptr base i = (b, j))
    (hds : digitRun b (nptr.drop j) ≠ []) :
    let w := digitsValue b 0 (digitRun b (nptr.drop j))
    (strtoul nptr base).value =
        (if ULONG_MAX < w then ULONG_MAX else if neg then toUnsigned (-(w : Int)) else w) ∧
      ((strtoul nptr base).errno = some .ERANGE ↔ ULONG_MAX < w) := by
  dsimp only
  rw [strtoul, strtoCore_eq _ _ _ nptr hbase hs hr, if_neg hds]
  by_cases hover : ULONG_MAX < digitsValue b 0 (digitRun b (nptr.drop j))
  · simp only [if_pos hover]
    exact ⟨rfl, iff_of_true trivial hover⟩
  · simp only [if_neg hover]
    exact ⟨rfl, iff_of_false (by simp) hover⟩

example : strtoul [45, 49] 10 = ⟨ULONG_MAX, 2, none⟩ := by decide

/-- `long long` and `long` have the same width, so `strtoll` is `strtol`. -/
theorem strtoll_eq_strtol : strtoll = strtol := rfl

/-- `strtoull` is `strtoul` for the same reason. -/
theorem strtoull_eq_strtoul : strtoull = strtoul := rfl

/-! ## §8 The `0x` look-ahead -/

/-- A `0x` that no hex digit follows is consumed all the same; the loop then takes no
    digit, and `*endptr` falls back to `nptr`, where the C subject sequence is the `0`. -/
theorem strtoCore_of_hex_prefix_without_digits {α : Type} (limit saturated : Bool → Nat)
    (ret : Nat → α) (nptr : List UInt8) {base : Int} {neg : Bool} {i : Nat}
    (hbase : base = 0 ∨ base = 16) (hs : readSign nptr (skipSpaces nptr) = (neg, i))
    (h0 : byteAt nptr i = 48) (hx : byteAt nptr (i + 1) = 120 ∨ byteAt nptr (i + 1) = 88)
    (hnone : digitRun 16 (nptr.drop (i + 2)) = []) :
    strtoCore limit saturated ret nptr base = ⟨ret 0, 0, none⟩ := by
  have hvalid : base = 0 ∨ 2 ≤ base ∧ base ≤ 36 := by omega
  rw [strtoCore_eq limit saturated ret nptr hvalid hs (readBase_of_hex nptr hbase h0 hx),
    if_pos hnone]

example : strtol [48, 120, 49, 102] 0 = ⟨31, 4, none⟩ := by decide

/-- `"0xg"` in base 16 or 0, for `strtol` and `strtoul`: the value is 0 and `*endptr` is
    `nptr` itself (offset 0), not the `x` that ends the subject sequence `"0"` (offset 1). -/
theorem strto_0xg_end_at_nptr :
    strtol [48, 120, 103] 16 = ⟨0, 0, none⟩ ∧ strtol [48, 120, 103] 0 = ⟨0, 0, none⟩ ∧
      strtoul [48, 120, 103] 16 = ⟨0, 0, none⟩ ∧ strtoul [48, 120, 103] 0 = ⟨0, 0, none⟩ := by
  refine ⟨?_, ?_, ?_, ?_⟩ <;>
    exact strtoCore_of_hex_prefix_without_digits _ _ _ _ (by decide) rfl rfl (Or.inl rfl) rfl

end ArceOS.Libc
