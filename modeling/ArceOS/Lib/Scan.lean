import Mathlib

/-!
# Bounded Probes Over Iterates

A loop that tests `x`, `next x`, `next (next x)`, … for at most `n` values and stops at
the first one a predicate accepts, leaving its cursor on the value after the last one it
tested. The ephemeral-port search of `axnet` is such a loop over the port range, with
`next` the cyclic successor.

## Main results

- `scan_eq_some_iff`: the loop finds `y` exactly when `y` is the first accepted value
  among the first `n` iterates;
- `scan_eq_none_iff`: it finds nothing exactly when none of them is accepted;
- `scan_snd_of_eq_some`, `scan_snd_of_eq_none`: after finding `y`, the cursor is on
  `next y`; after finding nothing, `n` iterates on.
-/

namespace ArceOS.Lib

variable {α : Type*} (next : α → α) (p : α → Bool)

/-- Test at most `n` iterates of `next` from `x`, in order, for the first that `p`
    accepts: that value if there is one, and the cursor after the last test. -/
def scan : Nat → α → Option α × α
  | 0, x => (none, x)
  | n + 1, x => if p x then (some x, next x) else scan n (next x)

@[simp] theorem scan_zero (x : α) : scan next p 0 x = (none, x) := rfl

theorem scan_succ_of_pos {n : Nat} {x : α} (h : p x = true) :
    scan next p (n + 1) x = (some x, next x) := by
  simp [scan, h]

theorem scan_succ_of_neg {n : Nat} {x : α} (h : p x = false) :
    scan next p (n + 1) x = scan next p n (next x) := by
  simp [scan, h]

/-- The loop finds `y` exactly when `y` is the `k`-th iterate for some `k < n`, accepted,
    with every earlier iterate refused. -/
theorem scan_eq_some_iff {n : Nat} {x y : α} :
    (scan next p n x).1 = some y ↔
      ∃ k < n, next^[k] x = y ∧ p y = true ∧ ∀ j < k, p (next^[j] x) = false := by
  induction n generalizing x with
  | zero => simp
  | succ n ih =>
    cases hx : p x with
    | true =>
      -- the first test succeeds, so `k = 0`
      rw [scan_succ_of_pos next p hx]
      constructor
      · rintro ⟨⟩
        exact ⟨0, Nat.succ_pos n, rfl, hx, fun j hj => absurd hj (Nat.not_lt_zero j)⟩
      · rintro ⟨k, -, rfl, -, hfirst⟩
        cases k with
        | zero => rfl
        | succ k =>
          have h0 : p x = false := hfirst 0 (Nat.succ_pos k)
          rw [hx] at h0
          cases h0
    | false =>
      -- the search goes on from `next x`, one iterate later
      rw [scan_succ_of_neg next p hx, ih]
      constructor
      · rintro ⟨k, hk, rfl, hy, hfirst⟩
        refine ⟨k + 1, Nat.succ_lt_succ hk, Function.iterate_succ_apply next k x, hy, ?_⟩
        intro j hj
        cases j with
        | zero => exact hx
        | succ j =>
          rw [Function.iterate_succ_apply]
          exact hfirst j (Nat.lt_of_succ_lt_succ hj)
      · rintro ⟨k, hk, rfl, hy, hfirst⟩
        cases k with
        | zero =>
          have h0 : p x = true := hy
          rw [hx] at h0
          cases h0
        | succ k =>
          refine ⟨k, Nat.lt_of_succ_lt_succ hk, (Function.iterate_succ_apply next k x).symm, hy,
            fun j hj => ?_⟩
          rw [← Function.iterate_succ_apply]
          exact hfirst (j + 1) (Nat.succ_lt_succ hj)

/-- The loop finds nothing exactly when none of the first `n` iterates is accepted. -/
theorem scan_eq_none_iff {n : Nat} {x : α} :
    (scan next p n x).1 = none ↔ ∀ k < n, p (next^[k] x) = false := by
  induction n generalizing x with
  | zero => simp
  | succ n ih =>
    cases hx : p x with
    | true =>
      rw [scan_succ_of_pos next p hx]
      simp only [reduceCtorEq, false_iff, not_forall, Bool.not_eq_false]
      exact ⟨0, Nat.succ_pos n, hx⟩
    | false =>
      rw [scan_succ_of_neg next p hx, ih]
      constructor
      · intro h k hk
        cases k with
        | zero => exact hx
        | succ k =>
          rw [Function.iterate_succ_apply]
          exact h k (Nat.lt_of_succ_lt_succ hk)
      · intro h k hk
        rw [← Function.iterate_succ_apply]
        exact h (k + 1) (Nat.succ_lt_succ hk)

/-- After finding `y`, the cursor is on the value after `y`. -/
theorem scan_snd_of_eq_some {n : Nat} {x y : α} (h : (scan next p n x).1 = some y) :
    (scan next p n x).2 = next y := by
  induction n generalizing x with
  | zero => cases h
  | succ n ih =>
    cases hx : p x with
    | true =>
      rw [scan_succ_of_pos next p hx] at h ⊢
      cases h
      rfl
    | false =>
      rw [scan_succ_of_neg next p hx] at h ⊢
      exact ih h

/-- After finding nothing, the cursor is `n` iterates on. -/
theorem scan_snd_of_eq_none {n : Nat} {x : α} (h : (scan next p n x).1 = none) :
    (scan next p n x).2 = next^[n] x := by
  induction n generalizing x with
  | zero => rfl
  | succ n ih =>
    cases hx : p x with
    | true =>
      rw [scan_succ_of_pos next p hx] at h
      cases h
    | false =>
      rw [scan_succ_of_neg next p hx] at h ⊢
      rw [ih h, Function.iterate_succ_apply]

end ArceOS.Lib
