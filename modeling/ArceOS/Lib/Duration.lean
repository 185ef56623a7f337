import Mathlib

/-!
# Durations

`core::time::Duration`: whole seconds in a `u64` and the nanoseconds below a second, the
structure's fields carrying both bounds. Every duration is a number of nanoseconds below
`2 ^ 64 * 10 ^ 9` (`toNanos`), and a number of nanoseconds below that bound is a duration
(`ofNanos?`). Rust's `Duration::new`, `checked_add` and `checked_sub` are, as documented,
the sum and difference of these numbers when the result is a duration: `none` here where
they overflow. The operators `+` and `-` panic where these give `none`; the panic belongs
to the program that uses them.

## Main results

- `ofNanos?_toNanos`, `toNanos_of_ofNanos?`: the two views agree;
- `ofNanos?_eq_none_iff`: which numbers of nanoseconds overflow;
- `new?_of_lt`: `Duration::new` with nanoseconds below a second builds the duration itself;
- `checkedAdd_eq_none_iff`: a sum overflows exactly when it reaches `2 ^ 64` seconds.
-/

namespace ArceOS.Lib

/-- `NANOS_PER_SEC`. -/
def NANOS_PER_SEC : Nat := 1000000000

/-- `core::time::Duration`: `secs` is a `u64`, and `nanos` is below a second. -/
@[ext]
structure Duration where
  secs : Nat
  nanos : Nat
  secs_lt : secs < 2 ^ 64
  nanos_lt : nanos < NANOS_PER_SEC
  deriving DecidableEq, Repr

namespace Duration

/-- `Duration::ZERO`. -/
def zero : Duration := ⟨0, 0, by decide, by decide⟩

/-- `NANOS_PER_SEC` is positive: zero nanoseconds are less than a second. -/
theorem nanosPerSec_pos : 0 < NANOS_PER_SEC := by decide

/-- The length in nanoseconds. -/
def toNanos (d : Duration) : Nat := d.secs * NANOS_PER_SEC + d.nanos

/-- The duration of `n` nanoseconds, when its seconds fit in a `u64`. -/
def ofNanos? (n : Nat) : Option Duration :=
  if h : n / NANOS_PER_SEC < 2 ^ 64 then
    some ⟨n / NANOS_PER_SEC, n % NANOS_PER_SEC, h, Nat.mod_lt _ (by decide)⟩
  else none

/-- `Duration::new(secs, nanos)`: the nanoseconds past a second carry into the seconds;
    `none` where that overflows, the panic `overflow in Duration::new`. -/
def new? (secs nanos : Nat) : Option Duration := ofNanos? (secs * NANOS_PER_SEC + nanos)

/-- `Duration::checked_add`. -/
def checkedAdd (a b : Duration) : Option Duration := ofNanos? (a.toNanos + b.toNanos)

/-- `Duration::checked_sub`. -/
def checkedSub (a b : Duration) : Option Duration :=
  if b.toNanos ≤ a.toNanos then ofNanos? (a.toNanos - b.toNanos) else none

/-- `Duration::as_secs`. -/
def asSecs (d : Duration) : Nat := d.secs

/-- `Duration::subsec_nanos`. -/
def subsecNanos (d : Duration) : Nat := d.nanos

/-- `Duration::subsec_micros`. -/
def subsecMicros (d : Duration) : Nat := d.nanos / 1000

/-! ## Nanoseconds -/

theorem toNanos_lt (d : Duration) : d.toNanos < 2 ^ 64 * NANOS_PER_SEC := by
  have hs := d.secs_lt
  have hn := d.nanos_lt
  unfold toNanos NANOS_PER_SEC at *
  omega

/-- A duration is its length. -/
theorem toNanos_injective : Function.Injective toNanos := by
  intro a b h
  have ha := a.nanos_lt
  have hb := b.nanos_lt
  unfold toNanos NANOS_PER_SEC at *
  ext <;> omega

theorem ofNanos?_eq_none_iff {n : Nat} : ofNanos? n = none ↔ 2 ^ 64 * NANOS_PER_SEC ≤ n := by
  unfold ofNanos?
  split_ifs with h
  · simp only [false_iff, Nat.not_le]
    unfold NANOS_PER_SEC at *
    omega
  · simp only [true_iff]
    unfold NANOS_PER_SEC at *
    omega

theorem toNanos_of_ofNanos? {n : Nat} {d : Duration} (h : ofNanos? n = some d) :
    d.toNanos = n := by
  unfold ofNanos? at h
  split_ifs at h
  cases h
  exact Nat.div_add_mod' n NANOS_PER_SEC

theorem ofNanos?_toNanos (d : Duration) : ofNanos? d.toNanos = some d := by
  cases h : ofNanos? d.toNanos with
  | none =>
    have := d.toNanos_lt
    rw [ofNanos?_eq_none_iff] at h
    omega
  | some d' => rw [toNanos_injective (toNanos_of_ofNanos? h)]

/-- Nanoseconds below `2 ^ 64` seconds make a duration. -/
theorem ofNanos?_of_lt {n : Nat} (h : n < 2 ^ 64 * NANOS_PER_SEC) :
    ∃ d, ofNanos? n = some d ∧ d.toNanos = n := by
  cases hd : ofNanos? n with
  | none =>
    rw [ofNanos?_eq_none_iff] at hd
    omega
  | some d => exact ⟨d, rfl, toNanos_of_ofNanos? hd⟩

/-! ## The operations -/

/-- With nanoseconds below a second there is nothing to carry. -/
theorem new?_of_lt {secs nanos : Nat} (hs : secs < 2 ^ 64) (hn : nanos < NANOS_PER_SEC) :
    new? secs nanos = some ⟨secs, nanos, hs, hn⟩ := by
  have hlen : (⟨secs, nanos, hs, hn⟩ : Duration).toNanos = secs * NANOS_PER_SEC + nanos := rfl
  rw [new?, ← hlen, ofNanos?_toNanos]

theorem checkedAdd_eq_none_iff {a b : Duration} :
    a.checkedAdd b = none ↔ 2 ^ 64 * NANOS_PER_SEC ≤ a.toNanos + b.toNanos :=
  ofNanos?_eq_none_iff

theorem toNanos_of_checkedAdd {a b c : Duration} (h : a.checkedAdd b = some c) :
    c.toNanos = a.toNanos + b.toNanos :=
  toNanos_of_ofNanos? h

end Duration

end ArceOS.Lib
