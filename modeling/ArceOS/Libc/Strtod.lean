import ArceOS.Libc.Strtol

/-!
# `strtod` and `strtof` of `axlibc`

`strtod.rs` implements both parsers with one macro, `strto_float_impl!`, instantiated at
`c_double` and `c_float`. The model is one function `strtoFloat`, generic in the float
type: its arithmetic (`+`, `*`, `/`, negation, the literals `0.0` and `1.0`) comes from the
type's instances, and the `as` casts from integers are the parameter `ofNat`. The
scanner's positions and the integer arithmetic of the exponent (a `u32` accumulator and
`u128::pow`) are modelled exactly, with a flag recording whether any of that arithmetic
left its type.

## Main results

- `intLoop_count`, `fracLoop_count`, `expLoop_count`: each digit loop takes exactly the
  run of digits of its radix;
- `expLoop_overflow_iff`: the `u32` exponent accumulator overflows exactly when the
  exponent's value reaches `2 ^ 32`;
- `readExponent_overflow_iff`: an exponent part overflows an integer type exactly when
  its value is at least 39 (radix 10) or 128 (radix 16);
- `le_strtoFloat_endOff`: `*endptr` never falls back before the sign, even when no digit
  follows it.
-/

namespace ArceOS.Libc.Strtod

open ArceOS.Libc

/-! ## §1 Bytes -/

/-- `isspace` of `strtod.rs`: space, `\t`, `\n`, `\r`, `\v` and `\f`. -/
def isspace (c : UInt8) : Bool :=
  c == 32 || c == 9 || c == 10 || c == 13 || c == 0x0b || c == 0x0c

/-- `(c as char).to_digit(radix)`, as documented: `0`–`9`, then `a`–`z` or `A`–`Z` for 10
    to 35, when below the radix. -/
def toDigit (c : UInt8) (radix : Nat) : Option Nat :=
  match digitOf c with
  | some d => if d < radix then some d else none
  | none => none

/-- `while isspace(*s as c_int) { s = s.offset(1) }`: how many bytes it skips. -/
def leadingSpaces : List UInt8 → Nat
  | [] => 0
  | c :: cs => if isspace c then leadingSpaces cs + 1 else 0

/-! ## §2 The scanner -/

section Scanner

variable {F : Type} [Add F] [Mul F] [Div F] [Neg F] [OfNat F 0] [OfNat F 1]

/-- What a call leaves: the value returned, `*endptr - s`, and whether the exponent's
    integer arithmetic (`u32` or `u128`) overflowed on the way. -/
structure StrtodResult (F : Type) where
  value : F
  endOff : Nat
  intOverflow : Bool

/-- The integer-part loop `result *= radix; result += digit; s = s.offset(1)`: the result
    and how many bytes it took (the list ends where the NUL is). -/
def intLoop (ofNat : Nat → F) (radix : Nat) : List UInt8 → F → F × Nat
  | [], r => (r, 0)
  | c :: cs, r =>
    match toDigit c radix with
    | some d =>
      let p := intLoop ofNat radix cs (r * ofNat radix + ofNat d)
      (p.1, p.2 + 1)
    | none => (r, 0)

/-- The fraction loop `i *= radix; result += digit / i; s = s.offset(1)`. -/
def fracLoop (ofNat : Nat → F) (radix : Nat) : List UInt8 → F → F → F × Nat
  | [], r, _ => (r, 0)
  | c :: cs, r, i =>
    match toDigit c radix with
    | some d =>
      let p := fracLoop ofNat radix cs (r + ofNat d / (i * ofNat radix)) (i * ofNat radix)
      (p.1, p.2 + 1)
    | none => (r, 0)

/-- The exponent loop `exponent_value *= 10; exponent_value += digit` on a `u32`, which
    wraps: the final value, whether either operation left `u32`, and how many bytes it
    took. -/
def expLoop : List UInt8 → UInt32 → Bool → UInt32 × Bool × Nat
  | [], v, ov => (v, ov, 0)
  | c :: cs, v, ov =>
    match toDigit c 10 with
    | some d =>
      let p := expLoop cs (v * 10 + d.toUInt32)
        (ov || decide (2 ^ 32 ≤ v.toNat * 10) || decide (2 ^ 32 ≤ (v * 10).toNat + d))
      (p.1, p.2.1, p.2.2 + 1)
    | none => (v, ov, 0)

/-- `u128::pow` as documented: the power modulo `2 ^ 128`, and whether it overflowed. -/
def u128Pow (base e : Nat) : Nat × Bool := (base ^ e % 2 ^ 128, decide (2 ^ 128 ≤ base ^ e))

/-- The sign of the exponent at byte `i + 1`, after the `e` or `p` at `i`: whether it is
    positive, and the index of the first exponent digit. -/
def readExpSign (s : List UInt8) (i : Nat) : Bool × Nat :=
  if byteAt s (i + 1) = 45 then (false, i + 2)
  else if byteAt s (i + 1) = 43 then (true, i + 2)
  else (true, i + 1)

/-- Whether byte `i` starts an exponent: `e`/`E` in radix 10, `p`/`P` in radix 16. -/
def isExpMarker (s : List UInt8) (radix i : Nat) : Prop :=
  ((byteAt s i = 101 ∨ byteAt s i = 69) ∧ radix = 10) ∨
    ((byteAt s i = 112 ∨ byteAt s i = 80) ∧ radix = 16)

instance (s : List UInt8) (radix i : Nat) : Decidable (isExpMarker s radix i) :=
  inferInstanceAs (Decidable (_ ∨ _))

/-- The exponent part at byte `i`, after the mantissa: the factor it contributes, where
    `s` ends up, and whether its integer arithmetic overflowed. An `e` or `p` with no
    decimal digit after its sign rolls `s` back to `i`. The radix is 10 or 16 here, so
    `unreachable!()` is the `else` of `exponent_base`. -/
def readExponent (ofNat : Nat → F) (s : List UInt8) (radix i : Nat) : Option F × Nat × Bool :=
  if isExpMarker s radix i then
    let (pos, j) := readExpSign s i
    if (toDigit (byteAt s j) 10).isSome then
      let (e, ov, n) := expLoop (s.drop j) 0 false
      let (p, pov) := u128Pow (if radix = 10 then 10 else 2) e.toNat
      (some (if pos then ofNat p else 1 / ofNat p), j + n, ov || pov)
    else (none, i, false)
  else (none, i, false)

/-- The fraction at byte `i`: after a `.`, the fraction loop from the next byte, with
    `i = 1.0`. -/
def readFraction (ofNat : Nat → F) (s : List UInt8) (radix i : Nat) (result : F) : F × Nat :=
  if byteAt s i = 46 then
    let p := fracLoop ofNat radix (s.drop (i + 1)) result 1
    (p.1, i + 1 + p.2)
  else (result, i)

/-- `strto_float_impl!` on the bytes `s` of a NUL-terminated string. -/
def strtoFloat (ofNat : Nat → F) (s : List UInt8) : StrtodResult F :=
  -- the sign test is the one `strtol` makes: `-1.0` after a `-`, `1.0` otherwise
  let (neg, i) := readSign s (leadingSpaces s)
  -- only a lower-case `x` is taken as the hex prefix
  let (radix, i) := if byteAt s i = 48 ∧ byteAt s (i + 1) = 120 then (16, i + 2) else (10, i)
  let (result, n) := intLoop ofNat radix (s.drop i) 0
  let (result, i) := readFraction ofNat s radix (i + n) result
  let (exponent, i, ov) := readExponent ofNat s radix i
  let sign : F := if neg then -1 else 1
  ⟨match exponent with
    | some e => sign * result * e
    | none => sign * result, i, ov⟩

end Scanner

/-- `strtod`: the macro at `c_double`. -/
def strtod (s : List UInt8) : StrtodResult Float := strtoFloat Float.ofNat s

/-- `strtof`: the macro at `c_float`. -/
def strtof (s : List UInt8) : StrtodResult Float32 := strtoFloat Float32.ofNat s

/-! ## §3 The digit loops -/

theorem toDigit_of_digit {c : UInt8} {radix d : Nat} (hc : digitOf c = some d)
    (hd : d < radix) : toDigit c radix = some d := by
  simp [toDigit, hc, hd]

theorem toDigit_of_stop {c : UInt8} {radix : Nat} (hc : ∀ d, digitOf c = some d → radix ≤ d) :
    toDigit c radix = none := by
  unfold toDigit
  cases h : digitOf c with
  | none => rfl
  | some d => simp [Nat.not_lt.mpr (hc d h)]

section Loops

variable {F : Type} [Add F] [Mul F] (ofNat : Nat → F)

/-- The integer-part loop takes exactly the digit run of its radix. -/
theorem intLoop_count (radix : Nat) (cs : List UInt8) (r : F) :
    (intLoop ofNat radix cs r).2 = (digitRun radix cs).length := by
  induction cs generalizing r with
  | nil => rfl
  | cons c cs ih =>
    rcases digit_or_stop radix c with ⟨d, hc, hd⟩ | hstop
    · simp only [intLoop, toDigit_of_digit hc hd, digitRun_cons_of_digit cs hc hd,
        List.length_cons, ih]
    · simp only [intLoop, toDigit_of_stop hstop, digitRun_cons_of_stop cs hstop,
        List.length_nil]

/-- So does the fraction loop. -/
theorem fracLoop_count [Div F] (radix : Nat) (cs : List UInt8) (r i : F) :
    (fracLoop ofNat radix cs r i).2 = (digitRun radix cs).length := by
  induction cs generalizing r i with
  | nil => rfl
  | cons c cs ih =>
    rcases digit_or_stop radix c with ⟨d, hc, hd⟩ | hstop
    · simp only [fracLoop, toDigit_of_digit hc hd, digitRun_cons_of_digit cs hc hd,
        List.length_cons, ih]
    · simp only [fracLoop, toDigit_of_stop hstop, digitRun_cons_of_stop cs hstop,
        List.length_nil]

end Loops

/-- The exponent loop takes exactly the decimal digit run. -/
theorem expLoop_count (cs : List UInt8) (v : UInt32) (ov : Bool) :
    (expLoop cs v ov).2.2 = (digitRun 10 cs).length := by
  induction cs generalizing v ov with
  | nil => rfl
  | cons c cs ih =>
    rcases digit_or_stop 10 c with ⟨d, hc, hd⟩ | hstop
    · simp only [expLoop, toDigit_of_digit hc hd, digitRun_cons_of_digit cs hc hd,
        List.length_cons, ih]
    · simp only [expLoop, toDigit_of_stop hstop, digitRun_cons_of_stop cs hstop,
        List.length_nil]

/-- Once set, the overflow flag stays set. -/
theorem expLoop_sticky (cs : List UInt8) (v : UInt32) : (expLoop cs v true).2.1 = true := by
  induction cs generalizing v with
  | nil => rfl
  | cons c cs ih =>
    rcases digit_or_stop 10 c with ⟨d, hc, hd⟩ | hstop
    · simp only [expLoop, toDigit_of_digit hc hd, Bool.true_or, ih]
    · simp only [expLoop, toDigit_of_stop hstop]

/-- One step of the `u32` accumulator: its two overflow tests together are the test on the
    exact `v * 10 + d`, and without overflow the accumulator holds that value. -/
theorem expStep {v : UInt32} {d : Nat} (hd : d < 10) :
    (decide (2 ^ 32 ≤ v.toNat * 10) || decide (2 ^ 32 ≤ (v * 10).toNat + d)) =
        decide (2 ^ 32 ≤ v.toNat * 10 + d) ∧
      (v.toNat * 10 + d < 2 ^ 32 → (v * 10 + d.toUInt32).toNat = v.toNat * 10 + d) := by
  have hv := v.toNat_lt
  have h10 : (10 : UInt32).toNat = 10 := rfl
  constructor
  · rw [Bool.eq_iff_iff]
    simp only [Bool.or_eq_true, decide_eq_true_eq, UInt32.toNat_mul, h10]
    omega
  · intro h
    simp [UInt32.toNat_add, UInt32.toNat_mul, h10]
    omega

/-- From an exact accumulator the flag ends set exactly when the exponent's value reaches
    `2 ^ 32`; below that the accumulator holds the value. -/
theorem expLoop_overflow_iff (cs : List UInt8) (v : UInt32) :
    ((expLoop cs v false).2.1 = true ↔ 2 ^ 32 ≤ digitsValue 10 v.toNat (digitRun 10 cs)) ∧
      (digitsValue 10 v.toNat (digitRun 10 cs) < 2 ^ 32 →
        (expLoop cs v false).1.toNat = digitsValue 10 v.toNat (digitRun 10 cs)) := by
  induction cs generalizing v with
  | nil =>
    have hv := v.toNat_lt
    simp only [expLoop, digitRun, digitsValue_nil]
    exact ⟨by simp; omega, fun _ => trivial⟩
  | cons c cs ih =>
    rcases digit_or_stop 10 c with ⟨d, hc, hd⟩ | hstop
    · obtain ⟨hflag, hval⟩ := expStep (v := v) hd
      simp only [expLoop, toDigit_of_digit hc hd, digitRun_cons_of_digit cs hc hd,
        digitsValue_cons, Bool.false_or, hflag]
      by_cases hover : 2 ^ 32 ≤ v.toNat * 10 + d
      · -- the step overflows, and the flag stays set
        have hle := le_digitsValue (by decide : 0 < 10) (v.toNat * 10 + d) (digitRun 10 cs)
        simp only [hover, decide_true, expLoop_sticky]
        exact ⟨iff_of_true trivial (by omega), fun h => absurd h (by omega)⟩
      · have hnext := hval (by omega)
        simp only [hover, decide_false]
        rw [← hnext]
        exact ih _
    · simp only [expLoop, toDigit_of_stop hstop, digitRun_cons_of_stop cs hstop,
        digitsValue_nil]
      have hv := v.toNat_lt
      exact ⟨by simp; omega, fun _ => trivial⟩

/-! ## §4 The exponent and the end position -/

/-- `u128::pow` at the exponent base overflows exactly from the exponent 39 in radix 10
    (`10 ^ 38 < 2 ^ 128 ≤ 10 ^ 39`) and from 128 in radix 16. -/
theorem u128_pow_overflow_iff (radix E : Nat) :
    2 ^ 128 ≤ (if radix = 10 then 10 else 2) ^ E ↔ (if radix = 10 then 39 else 128) ≤ E := by
  by_cases h10 : radix = 10
  · simp only [h10, if_true]
    constructor
    · intro h
      by_contra hlt
      have hle : 10 ^ E ≤ 10 ^ 38 := Nat.pow_le_pow_right (by decide) (by omega)
      exact absurd (h.trans hle) (by decide)
    · intro h
      calc 2 ^ 128 ≤ 10 ^ 39 := by decide
        _ ≤ 10 ^ E := Nat.pow_le_pow_right (by decide) h
  · simp only [h10, if_false]
    exact Nat.pow_le_pow_iff_right (by decide)

theorem le_readExpSign_snd (s : List UInt8) (i : Nat) : i + 1 ≤ (readExpSign s i).2 := by
  unfold readExpSign
  split_ifs <;> simp

section Exponent

variable {F : Type} [Div F] [OfNat F 1] (ofNat : Nat → F)

/-- With a digit after the exponent marker and its sign, the exponent part overflows an
    integer type exactly when its exact value is at least 39 (radix 10) or 128 (radix
    16): from `2 ^ 32` on the `u32` accumulator overflows, and below that `u128::pow`
    overflows exactly from those bounds. -/
theorem readExponent_overflow_iff (s : List UInt8) {radix i j : Nat} {pos : Bool}
    (hm : isExpMarker s radix i) (hsign : readExpSign s i = (pos, j))
    (hdig : (toDigit (byteAt s j) 10).isSome) :
    (readExponent ofNat s radix i).2.2 = true ↔
      (if radix = 10 then 39 else 128) ≤ digitsValue 10 0 (digitRun 10 (s.drop j)) := by
  obtain ⟨hflag, hval⟩ := expLoop_overflow_iff (s.drop j) 0
  rw [UInt32.toNat_zero] at hflag hval
  rw [← u128_pow_overflow_iff]
  simp only [readExponent, if_pos hm, hsign, if_pos hdig]
  rcases hloop : expLoop (s.drop j) 0 false with ⟨e, ov, n⟩
  rw [hloop] at hflag hval
  simp only [u128Pow, Bool.or_eq_true, decide_eq_true_eq] at hflag hval ⊢
  have hbase : 2 ≤ (if radix = 10 then 10 else 2) := by split_ifs <;> decide
  by_cases hbig : 2 ^ 32 ≤ digitsValue 10 0 (digitRun 10 (s.drop j))
  · -- the `u32` overflows, and the exact power is past `2 ^ 128` as well
    have hpow : 2 ^ 128 ≤
        (if radix = 10 then 10 else 2) ^ digitsValue 10 0 (digitRun 10 (s.drop j)) :=
      calc 2 ^ 128 ≤ 2 ^ digitsValue 10 0 (digitRun 10 (s.drop j)) :=
            Nat.pow_le_pow_right (by decide) (by omega)
        _ ≤ _ := Nat.pow_le_pow_left hbase _
    exact iff_of_true (Or.inl (hflag.mpr hbig)) hpow
  · have hov : ov = false := Bool.eq_false_iff.mpr fun h => hbig (hflag.mp h)
    rw [hval (by omega), hov]
    simp

/-- Where the exponent part leaves `s`: back at `i`, or past the exponent's digits. -/
theorem readExponent_snd (s : List UInt8) (radix i : Nat) :
    (readExponent ofNat s radix i).2.1 = i ∨
      (readExponent ofNat s radix i).2.1 =
        (readExpSign s i).2 + (digitRun 10 (s.drop (readExpSign s i).2)).length := by
  rcases hsign : readExpSign s i with ⟨pos, j⟩
  unfold readExponent
  rw [hsign]
  by_cases hm : isExpMarker s radix i
  · by_cases hd : (toDigit (byteAt s j) 10).isSome = true
    · -- an exponent with digits: `s` ends after them
      right
      have hc := expLoop_count (s.drop j) 0 false
      rcases hloop : expLoop (s.drop j) 0 false with ⟨e, ov, n⟩
      simp only [if_pos hm, if_pos hd, hloop, u128Pow] at hc ⊢
      rw [hc]
    · left
      simp only [if_pos hm, if_neg hd]
  · left
    simp only [if_neg hm]

end Exponent

theorem le_readFraction_snd {F : Type} [Add F] [Mul F] [Div F] [OfNat F 1] (ofNat : Nat → F)
    (s : List UInt8) (radix i : Nat) (r : F) : i ≤ (readFraction ofNat s radix i r).2 := by
  unfold readFraction
  split_ifs
  · exact Nat.le_add_right_of_le (Nat.le_succ i)
  · exact Nat.le_refl i

/-- `*endptr` never falls back before the byte after the white space and the sign: each
    stage of the scanner only moves on, and the exponent's rollback goes back to the end
    of the mantissa only. -/
theorem le_strtoFloat_endOff {F : Type} [Add F] [Mul F] [Div F] [Neg F] [OfNat F 0]
    [OfNat F 1] (ofNat : Nat → F) (s : List UInt8) :
    (readSign s (leadingSpaces s)).2 ≤ (strtoFloat ofNat s).endOff := by
  rcases hs : readSign s (leadingSpaces s) with ⟨neg, i⟩
  simp only [strtoFloat, hs]
  set rb := if byteAt s i = 48 ∧ byteAt s (i + 1) = 120 then (16, i + 2) else (10, i) with hrb
  set fr := readFraction ofNat s rb.1 (rb.2 + (intLoop ofNat rb.1 (s.drop rb.2) 0).2)
    (intLoop ofNat rb.1 (s.drop rb.2) 0).1
  have hj := le_readExpSign_snd s fr.2
  calc i ≤ rb.2 := by rw [hrb]; split_ifs <;> simp
    _ ≤ rb.2 + (intLoop ofNat rb.1 (s.drop rb.2) 0).2 := Nat.le_add_right _ _
    _ ≤ fr.2 := le_readFraction_snd ofNat s _ _ _
    _ ≤ (readExponent ofNat s rb.1 fr.2).2.1 := by
      rcases readExponent_snd ofNat s rb.1 fr.2 with h | h <;> omega

/-- `"-"` leaves `*endptr` after the sign, though no digit follows and the subject
    sequence is empty; `"0X1"` stops after the `0`, since only a lower-case `x` makes a
    hex prefix; and `"1e39"` takes `10u128.pow(39)`, which overflows `u128`. -/
theorem strtod_end_and_overflow_diverge :
    (strtod [45]).endOff = 1 ∧ (strtod [48, 88, 49]).endOff = 1 ∧
      (strtod [49, 101, 51, 57]).intOverflow = true :=
  ⟨rfl, rfl, rfl⟩

end ArceOS.Libc.Strtod
