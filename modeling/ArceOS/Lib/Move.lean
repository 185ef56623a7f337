import Mathlib.Logic.Function.Basic
import ArceOS.Lib.ByteStore

/-!
# Filling and Copying Within a Store

`memset`, `memcpy` and `memmove` are loops that store one value at a time into the
store they read from. The loops here are those loops over any store `Nat → α`:
`fill` stores one value at consecutive addresses, `copyUp` copies a range lowest address
first and `copyDown` highest address first.

A fill always writes its range. A copy reads each source address once; it is a move of
the range (`writeRange f d (readRange f s n)`, the old source values written over the
destination) exactly when it never reads an address it has already written. For
`copyUp` that is when the destination does not start strictly inside the source, for
`copyDown` when the source does not start strictly inside the destination.

## Main definitions

- `fill`, `copyUp`, `copyDown`: the three loops.

## Main results

- `fill_apply`, `fill_eq_writeRange`: a fill writes its range;
- `move_apply`: the move of a range, address by address;
- `copyUp_eq_move`, `copyDown_eq_move`: each copy loop moves under its condition;
- `writeRange_cons`, `readRange_succ`: a range is its first address and the rest.
-/

namespace ArceOS.Lib.Move

open ArceOS.Lib.ByteStore

variable {α : Type*}

/-! ## §1 The loops -/

/-- Store `v` at the `n` addresses from `d`, lowest first: `for (; n; n--, d++) *d = v;`. -/
def fill (f : Nat → α) (d : Nat) (v : α) : Nat → Nat → α
  | 0 => f
  | n + 1 => fill (Function.update f d v) (d + 1) v n

/-- Copy `n` values from `s` to `d`, lowest address first: `for (; n; n--) *d++ = *s++;`. -/
def copyUp (f : Nat → α) (d s : Nat) : Nat → Nat → α
  | 0 => f
  | n + 1 => copyUp (Function.update f d (f s)) (d + 1) (s + 1) n

/-- Copy `n` values from `s` to `d`, highest address first: `while (n) n--, d[n] = s[n];`. -/
def copyDown (f : Nat → α) (d s : Nat) : Nat → Nat → α
  | 0 => f
  | n + 1 => copyDown (Function.update f (d + n) (f (s + n))) d s n

/-! ## §2 Ranges by their first address -/

theorem writeRange_cons (f : Nat → α) (p : Nat) (b : α) (bs : List α) :
    writeRange f p (b :: bs) = writeRange (Function.update f p b) (p + 1) bs := by
  have hone : writeRange f p [b] = Function.update f p b := by
    funext j
    by_cases hj : j = p
    · subst hj
      rw [writeRange_of_mem (Nat.le_refl _) (by simp), Function.update_self]
      simp
    · rw [Function.update_of_ne hj]
      rcases Nat.lt_or_gt_of_ne hj with h | h
      · exact writeRange_of_lt h
      · exact writeRange_of_ge (by simp; omega)
  rw [← List.singleton_append, writeRange_append, hone, List.length_singleton]

theorem readRange_succ (f : Nat → α) (p n : Nat) :
    readRange f p (n + 1) = f p :: readRange f (p + 1) n := by
  rw [Nat.add_comm, readRange_add]
  rfl

/-- The move of `n` values from `s` to `d`, address by address. -/
theorem move_apply (f : Nat → α) (d s n j : Nat) :
    writeRange f d (readRange f s n) j = if d ≤ j ∧ j < d + n then f (s + (j - d)) else f j := by
  split_ifs with h
  · rw [writeRange_of_mem h.1 (by simp; omega), getElem_readRange]
  · by_cases hj : j < d
    · exact writeRange_of_lt hj
    · exact writeRange_of_ge (by simp; omega)

/-! ## §3 Filling -/

theorem fill_apply (f : Nat → α) (d : Nat) (v : α) (n j : Nat) :
    fill f d v n j = if d ≤ j ∧ j < d + n then v else f j := by
  induction n generalizing f d with
  | zero => rw [fill, if_neg (by omega)]
  | succ n ih =>
    rw [fill, ih, Function.update_apply]
    -- the first store is the one address the rest of the loop leaves alone
    split_ifs <;> first | rfl | omega

theorem fill_eq_writeRange (f : Nat → α) (d : Nat) (v : α) (n : Nat) :
    fill f d v n = writeRange f d (List.replicate n v) := by
  funext j
  rw [fill_apply]
  split_ifs with h
  · rw [writeRange_of_mem h.1 (by simp; omega), List.getElem_replicate]
  · by_cases hj : j < d
    · exact (writeRange_of_lt hj).symm
    · exact (writeRange_of_ge (by simp; omega)).symm

/-! ## §4 Copying -/

/-- Copying up reads each source address before any store reaches it unless the
    destination starts strictly inside the source. -/
theorem copyUp_apply {d s n : Nat} (h : d ≤ s ∨ s + n ≤ d) (f : Nat → α) (j : Nat) :
    copyUp f d s n j = if d ≤ j ∧ j < d + n then f (s + (j - d)) else f j := by
  induction n generalizing f d s with
  | zero => rw [copyUp, if_neg (by omega)]
  | succ n ih =>
    rw [copyUp, ih (by omega)]
    by_cases hj : d + 1 ≤ j ∧ j < d + 1 + n
    · -- a later address: its source is not `d`, the one address stored so far
      rw [if_pos hj, if_pos (by omega), Function.update_of_ne (by omega)]
      congr 1
      omega
    · rw [if_neg hj]
      by_cases hjd : j = d
      · subst hjd
        rw [Function.update_self, if_pos (by omega), Nat.sub_self, Nat.add_zero]
      · rw [Function.update_of_ne hjd, if_neg (by omega)]

/-- Copying down reads each source address before any store reaches it unless the
    source starts strictly inside the destination. -/
theorem copyDown_apply {d s n : Nat} (h : s ≤ d ∨ d + n ≤ s) (f : Nat → α) (j : Nat) :
    copyDown f d s n j = if d ≤ j ∧ j < d + n then f (s + (j - d)) else f j := by
  induction n generalizing f with
  | zero => rw [copyDown, if_neg (by omega)]
  | succ n ih =>
    rw [copyDown, ih (by omega)]
    by_cases hj : d ≤ j ∧ j < d + n
    · -- a lower address: its source is not `d + n`, the one address stored so far
      rw [if_pos hj, if_pos (by omega), Function.update_of_ne (by omega)]
    · rw [if_neg hj]
      by_cases hjd : j = d + n
      · subst hjd
        rw [Function.update_self, if_pos (by omega), Nat.add_sub_cancel_left]
      · rw [Function.update_of_ne hjd, if_neg (by omega)]

theorem copyUp_eq_move {d s n : Nat} (h : d ≤ s ∨ s + n ≤ d) (f : Nat → α) :
    copyUp f d s n = writeRange f d (readRange f s n) := by
  funext j
  rw [copyUp_apply h, move_apply]

theorem copyDown_eq_move {d s n : Nat} (h : s ≤ d ∨ d + n ≤ s) (f : Nat → α) :
    copyDown f d s n = writeRange f d (readRange f s n) := by
  funext j
  rw [copyDown_apply h, move_apply]

end ArceOS.Lib.Move
