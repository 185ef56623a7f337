import Mathlib

/-!
# Slot Vectors and Double-Ended Queues

Two containers as the modelled code uses them.

A slot vector keeps values in numbered slots, each empty or full: adding puts the value
in the first empty slot, or in a new slot at the end, and hands out that slot's index;
removing empties a slot. This is how `smoltcp`'s `SocketSet` hands out socket handles.
The index `add` returns is never that of a full slot (`get_firstFree`), and `add` and
`remove` change no other slot.

`swapRemoveFront` is `VecDeque::swap_remove_front` on a deque kept as a list, front
first: the element at an index is taken out and the front element moved into its place.
The rest is a permutation of the deque without that element (`perm_of_swapRemoveFront`).
-/

namespace ArceOS.Lib

variable {α : Type}

/-! ## §1 Slot vectors -/

namespace Slots

/-- The value in slot `i`, `none` for an empty slot or one past the end. -/
def get (l : List (Option α)) (i : Nat) : Option α := (l[i]?).join

/-- The index of the first empty slot, or the length when every slot is full. -/
def firstFree : List (Option α) → Nat
  | [] => 0
  | none :: _ => 0
  | some _ :: l => firstFree l + 1

/-- Put `a` in the first empty slot, or in a new slot at the end; that slot's index. -/
def add (l : List (Option α)) (a : α) : Nat × List (Option α) :=
  let i := firstFree l
  (i, if i < l.length then l.set i (some a) else l ++ [some a])

/-- Empty slot `i`, `none` when it holds nothing. -/
def remove (l : List (Option α)) (i : Nat) : Option (List (Option α)) :=
  match get l i with
  | none => none
  | some _ => some (l.set i none)

theorem firstFree_le (l : List (Option α)) : firstFree l ≤ l.length := by
  induction l with
  | nil => exact Nat.le_refl 0
  | cons o l ih =>
    cases o with
    | none => exact Nat.zero_le _
    | some _ => simp only [firstFree, List.length_cons]; omega

/-- The first empty slot is empty. -/
theorem get_firstFree (l : List (Option α)) : get l (firstFree l) = none := by
  induction l with
  | nil => rfl
  | cons o l ih =>
    cases o with
    | none => rfl
    | some _ => simpa [get, firstFree] using ih

/-- A full slot lies inside the list. -/
theorem lt_length_of_isSome {l : List (Option α)} {i : Nat} (h : (get l i).isSome = true) :
    i < l.length := by
  by_contra hge
  simp [get, List.getElem?_eq_none (Nat.le_of_not_lt hge)] at h

theorem get_set_self {l : List (Option α)} {i : Nat} (h : i < l.length) (o : Option α) :
    get (l.set i o) i = o := by
  simp [get, h]

theorem get_set_of_ne (l : List (Option α)) {i j : Nat} (h : i ≠ j) (o : Option α) :
    get (l.set i o) j = get l j := by
  simp [get, h]

@[simp] theorem get_add_self (l : List (Option α)) (a : α) :
    get (add l a).2 (add l a).1 = some a := by
  simp only [add]
  split_ifs with h
  · exact get_set_self h _
  · have hle := firstFree_le l
    have hi : firstFree l = l.length := by omega
    simp [get, hi]

/-- Adding changes no other slot. -/
theorem get_add_of_ne (l : List (Option α)) (a : α) {j : Nat} (h : j ≠ (add l a).1) :
    get (add l a).2 j = get l j := by
  simp only [add] at h ⊢
  split_ifs with hlt
  · exact get_set_of_ne l (Ne.symm h) _
  · have hi : firstFree l = l.length := Nat.le_antisymm (firstFree_le l) (Nat.le_of_not_lt hlt)
    rw [hi] at h
    rcases Nat.lt_or_gt_of_ne h with hj | hj
    · simp [get, List.getElem?_append_left hj]
    · have hl : (l ++ [some a]).length ≤ j := by
        rw [List.length_append, List.length_singleton]
        exact hj
      simp [get, List.getElem?_eq_none hl, List.getElem?_eq_none (Nat.le_of_lt hj)]

/-- The index `add` hands out held nothing. -/
theorem get_add_fst (l : List (Option α)) (a : α) : get l (add l a).1 = none :=
  get_firstFree l

theorem remove_eq_some_iff {l l' : List (Option α)} {i : Nat} :
    remove l i = some l' ↔ (get l i).isSome ∧ l' = l.set i none := by
  unfold remove
  cases get l i <;> simp [eq_comm]

theorem get_remove_self {l l' : List (Option α)} {i : Nat} (h : remove l i = some l') :
    get l' i = none := by
  obtain ⟨hs, rfl⟩ := remove_eq_some_iff.mp h
  exact get_set_self (lt_length_of_isSome hs) none

/-- Removing changes no other slot. -/
theorem get_remove_of_ne {l l' : List (Option α)} {i j : Nat} (h : remove l i = some l')
    (hne : i ≠ j) : get l' j = get l j := by
  obtain ⟨-, rfl⟩ := remove_eq_some_iff.mp h
  exact get_set_of_ne l hne none

end Slots

/-! ## §2 `VecDeque::swap_remove_front` -/

/-- `swap_remove_front(idx)`: the element at `idx` is swapped with the front one and the
    front popped; `none` when `idx` is out of bounds. -/
def swapRemoveFront : List α → Nat → Option (α × List α)
  | [], _ => none
  | a :: rest, 0 => some (a, rest)
  | a :: rest, i + 1 =>
    match rest[i]? with
    | none => none
    | some b => some (b, rest.set i a)

/-- Setting an element is putting it in front of the list without the old one, up to
    order. -/
theorem set_perm_cons_eraseIdx (l : List α) {i : Nat} (hi : i < l.length) (a : α) :
    List.Perm (l.set i a) (a :: l.eraseIdx i) := by
  rw [List.set_eq_take_append_cons_drop, if_pos hi, List.eraseIdx_eq_take_drop_succ]
  exact List.perm_middle

/-- The element taken is the one at `idx`, and the deque left holds the others. -/
theorem perm_of_swapRemoveFront {q q' : List α} {idx : Nat} {b : α}
    (h : swapRemoveFront q idx = some (b, q')) : q[idx]? = some b ∧ List.Perm q' (q.eraseIdx idx) := by
  match q, idx with
  | [], _ => simp [swapRemoveFront] at h
  | a :: rest, 0 =>
    simp only [swapRemoveFront, Option.some.injEq, Prod.mk.injEq] at h
    obtain ⟨rfl, rfl⟩ := h
    exact ⟨rfl, List.Perm.refl _⟩
  | a :: rest, i + 1 =>
    simp only [swapRemoveFront] at h
    split at h
    · cases h
    · rename_i b' hb
      simp only [Option.some.injEq, Prod.mk.injEq] at h
      obtain ⟨rfl, rfl⟩ := h
      have hi : i < rest.length := (List.getElem?_eq_some_iff.mp hb).1
      refine ⟨hb, ?_⟩
      rw [List.eraseIdx_cons_succ]
      exact set_perm_cons_eraseIdx rest hi a

theorem swapRemoveFront_of_lt {q : List α} {idx : Nat} (h : idx < q.length) :
    ∃ q', swapRemoveFront q idx = some (q[idx], q') := by
  match q, idx with
  | [], _ => simp at h
  | a :: rest, 0 => exact ⟨rest, rfl⟩
  | a :: rest, i + 1 =>
    have hi : i < rest.length := by simpa using h
    exact ⟨rest.set i a, by simp [swapRemoveFront, List.getElem?_eq_getElem hi]⟩

end ArceOS.Lib
