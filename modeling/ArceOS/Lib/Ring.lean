import Mathlib

/-!
# Circular Windows

A ring of `n` slots is a function `Fin n → α`. A circular buffer keeps its
contents in the `k` slots that follow a head slot, wrapping from the last slot
to slot `0`; `window arr head k` reads them in order.

The lemmas here say how a window changes when a value is stored just past its
end (it grows by that value) and when its head moves on by one slot (it loses
its first value). They are all that a FIFO queue stored in a ring needs.
-/

namespace ArceOS.Lib.Ring

variable {α : Type*} {n : Nat}

/-! ## §1 Slots -/

/-- The slot `i` places after `head`, wrapping at `n`. -/
def idx (head : Fin n) (i : Nat) : Fin n :=
  ⟨(head.val + i) % n, Nat.mod_lt _ head.pos⟩

@[simp] theorem idx_val (head : Fin n) (i : Nat) : (idx head i).val = (head.val + i) % n := rfl

@[simp] theorem idx_zero (head : Fin n) : idx head 0 = head := by
  ext
  simp [Nat.mod_eq_of_lt head.isLt]

/-- Moving `i` slots and then `j` slots is moving `i + j` slots. -/
theorem idx_idx (head : Fin n) (i j : Nat) : idx (idx head i) j = idx head (i + j) := by
  ext
  simp only [idx_val, Nat.mod_add_mod, Nat.add_assoc]

/-- Going once round the ring comes back to the start. -/
@[simp] theorem idx_self (head : Fin n) : idx head n = head := by
  ext
  simp [Nat.mod_eq_of_lt head.isLt]

/-- Within one turn of the ring, distinct distances give distinct slots. -/
theorem idx_inj {head : Fin n} {i j : Nat} (hi : i < n) (hj : j < n)
    (h : idx head i = idx head j) : i = j := by
  have hv := congrArg Fin.val h
  simp only [idx_val] at hv
  have hh := head.isLt
  -- both sums lie below `2 * n`, so the remainders differ unless the sums agree
  rcases Nat.lt_or_ge (head.val + i) n with h₁ | h₁ <;>
    rcases Nat.lt_or_ge (head.val + j) n with h₂ | h₂
  · rw [Nat.mod_eq_of_lt h₁, Nat.mod_eq_of_lt h₂] at hv; omega
  · rw [Nat.mod_eq_of_lt h₁, Nat.mod_eq_sub_mod h₂, Nat.mod_eq_of_lt (by omega)] at hv; omega
  · rw [Nat.mod_eq_sub_mod h₁, Nat.mod_eq_of_lt (by omega), Nat.mod_eq_of_lt h₂] at hv; omega
  · rw [Nat.mod_eq_sub_mod h₁, Nat.mod_eq_of_lt (by omega), Nat.mod_eq_sub_mod h₂,
      Nat.mod_eq_of_lt (by omega)] at hv; omega

/-- A slot strictly within one turn of `head` is not `head` itself. -/
theorem idx_ne_self {head : Fin n} {i : Nat} (h₀ : 0 < i) (hi : i < n) : idx head i ≠ head := by
  intro h
  have := @idx_inj _ head i 0 hi head.pos (by rw [h, idx_zero])
  omega

/-! ## §2 Windows -/

/-- The `k` values of `arr` read from `head` onwards around the ring. -/
def window (arr : Fin n → α) (head : Fin n) (k : Nat) : List α :=
  (List.range k).map fun i => arr (idx head i)

@[simp] theorem length_window (arr : Fin n → α) (head : Fin n) (k : Nat) :
    (window arr head k).length = k := by
  simp [window]

@[simp] theorem window_zero (arr : Fin n → α) (head : Fin n) : window arr head 0 = [] := rfl

/-- A window one longer ends with the slot just past the shorter one. -/
theorem window_succ (arr : Fin n → α) (head : Fin n) (k : Nat) :
    window arr head (k + 1) = window arr head k ++ [arr (idx head k)] := by
  simp [window, List.range_succ]

/-- A window starts with the value at its head. -/
theorem window_succ' (arr : Fin n → α) (head : Fin n) (k : Nat) :
    window arr head (k + 1) = arr head :: window arr (idx head 1) k := by
  simp only [window, List.range_succ_eq_map, List.map_cons, List.map_map, idx_zero]
  congr 1
  apply List.map_congr_left
  intro i _
  simp [idx_idx, Nat.add_comm]

/-- Storing a value in the slot just past a window that is shorter than the ring
    leaves the window unchanged. -/
theorem window_update_idx (arr : Fin n → α) (head : Fin n) {k : Nat} (hk : k < n) (b : α) :
    window (Function.update arr (idx head k) b) head k = window arr head k := by
  apply List.map_congr_left
  intro i hi
  have hik : i < k := List.mem_range.mp hi
  rw [Function.update_of_ne]
  intro h
  have := idx_inj (by omega) hk h
  omega

end ArceOS.Lib.Ring
