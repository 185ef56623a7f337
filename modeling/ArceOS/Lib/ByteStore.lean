import Mathlib

/-!
# Stores Addressed by Position

A store maps each address to a value; a range of it is read as a list and a list
is written over a range. The lemmas below say how reads and writes of adjacent
ranges compose, which is what a driver that moves data in pieces (blocks, pages,
sectors) needs to be shown equal to one move of the whole range.

## Main definitions

- `readRange`: the values at `len` consecutive addresses;
- `writeRange`: the store with a list written from an address.

## Main results

- `readRange_add`, `writeRange_append`: ranges split at any point;
- `readRange_writeRange_self`, `writeRange_of_lt`, `writeRange_of_ge`: a write is
  read back and changes nothing outside its range;
- `writeRange_splice`: rewriting a range with its own old values around a new
  middle part is writing the middle part alone;
- `update_writeRange_update`: a terminator stored at the end of a range and then
  overwritten by the range's extension leaves no trace.
-/

namespace ArceOS.Lib.ByteStore

variable {α : Type*}

/-- The `len` values of `f` from address `p`. -/
def readRange (f : Nat → α) (p len : Nat) : List α := (List.range len).map fun i => f (p + i)

/-- `f` with the values `bs` written from address `p`. -/
def writeRange (f : Nat → α) (p : Nat) (bs : List α) : Nat → α :=
  fun j => if p ≤ j then bs[j - p]?.getD (f j) else f j

variable {f g : Nat → α} {p : Nat}

@[simp] theorem length_readRange (f : Nat → α) (p len : Nat) : (readRange f p len).length = len := by
  simp [readRange]

@[simp] theorem readRange_zero (f : Nat → α) (p : Nat) : readRange f p 0 = [] := rfl

theorem getElem_readRange {len i : Nat} (h : i < (readRange f p len).length) :
    (readRange f p len)[i] = f (p + i) := by
  simp [readRange]

theorem readRange_add (f : Nat → α) (p a b : Nat) :
    readRange f p (a + b) = readRange f p a ++ readRange f (p + a) b := by
  simp only [readRange, List.range_add, List.map_append, List.map_map]
  congr 1
  apply List.map_congr_left
  intro i _
  simp [Nat.add_assoc]

theorem readRange_congr {len : Nat} (h : ∀ i < len, f (p + i) = g (p + i)) :
    readRange f p len = readRange g p len := by
  apply List.map_congr_left
  intro i hi
  exact h i (List.mem_range.mp hi)

theorem take_readRange (f : Nat → α) (p len k : Nat) :
    (readRange f p len).take k = readRange f p (min k len) := by
  apply List.ext_getElem
  · simp
  · intro i h₁ h₂
    simp [getElem_readRange]

theorem drop_readRange (f : Nat → α) (p len k : Nat) :
    (readRange f p len).drop k = readRange f (p + k) (len - k) := by
  apply List.ext_getElem
  · simp
  · intro i h₁ h₂
    simp [getElem_readRange, Nat.add_assoc]

@[simp] theorem writeRange_nil (f : Nat → α) (p : Nat) : writeRange f p [] = f := by
  funext j
  unfold writeRange
  split <;> rfl

/-- Below the range a write changes nothing. -/
theorem writeRange_of_lt {bs : List α} {j : Nat} (h : j < p) : writeRange f p bs j = f j := by
  simp [writeRange, Nat.not_le.mpr h]

/-- Above the range a write changes nothing. -/
theorem writeRange_of_ge {bs : List α} {j : Nat} (h : p + bs.length ≤ j) :
    writeRange f p bs j = f j := by
  unfold writeRange
  split
  · rw [List.getElem?_eq_none (by omega), Option.getD_none]
  · rfl

theorem writeRange_of_mem {bs : List α} {j : Nat} (h₁ : p ≤ j) (h₂ : j - p < bs.length) :
    writeRange f p bs j = bs[j - p] := by
  simp [writeRange, h₁, List.getElem?_eq_getElem h₂]

theorem readRange_writeRange_self (f : Nat → α) (p : Nat) (bs : List α) :
    readRange (writeRange f p bs) p bs.length = bs := by
  apply List.ext_getElem
  · simp
  · intro i h₁ h₂
    rw [getElem_readRange, writeRange_of_mem (by omega) (by simp at h₁; omega)]
    simp

/-- Writing a store's own values changes nothing. -/
theorem writeRange_readRange (f : Nat → α) (p len : Nat) : writeRange f p (readRange f p len) = f := by
  funext j
  by_cases h₁ : p ≤ j
  · by_cases h₂ : j < p + len
    · rw [writeRange_of_mem h₁ (by simp; omega), getElem_readRange]
      congr 1
      omega
    · exact writeRange_of_ge (by simp; omega)
  · exact writeRange_of_lt (by omega)

theorem writeRange_append (f : Nat → α) (p : Nat) (as bs : List α) :
    writeRange f p (as ++ bs) = writeRange (writeRange f p as) (p + as.length) bs := by
  funext j
  by_cases h₁ : j < p
  · rw [writeRange_of_lt h₁, writeRange_of_lt (by omega), writeRange_of_lt h₁]
  by_cases h₂ : j < p + as.length
  · -- inside `as`
    rw [writeRange_of_mem (by omega) (by simp; omega), writeRange_of_lt h₂,
      writeRange_of_mem (by omega) (by omega), List.getElem_append_left]
  by_cases h₃ : j < p + as.length + bs.length
  · -- inside `bs`
    rw [writeRange_of_mem (by omega) (by simp; omega),
      writeRange_of_mem (by omega) (by omega), List.getElem_append_right (by omega)]
    congr 1
    omega
  · rw [writeRange_of_ge (by simp; omega), writeRange_of_ge (by omega), writeRange_of_ge (by omega)]

theorem readRange_writeRange_of_le {bs : List α} {q len : Nat} (h : p + bs.length ≤ q) :
    readRange (writeRange f p bs) q len = readRange f q len :=
  readRange_congr fun _ _ => writeRange_of_ge (by omega)

theorem readRange_writeRange_of_add_le {bs : List α} {q len : Nat} (h : q + len ≤ p) :
    readRange (writeRange f p bs) q len = readRange f q len :=
  readRange_congr fun _ _ => writeRange_of_lt (by omega)

/-- A range read apart from a range written keeps its values. -/
theorem readRange_writeRange_of_disjoint {bs : List α} {q len : Nat}
    (h : q + len ≤ p ∨ p + bs.length ≤ q) :
    readRange (writeRange f p bs) q len = readRange f q len := by
  rcases h with h | h
  · exact readRange_writeRange_of_add_le h
  · exact readRange_writeRange_of_le h

/-- Rewriting `len` values from `p` with the old values around the new values `bs`,
    which start `s` after `p`, writes `bs` alone. -/
theorem writeRange_splice (f : Nat → α) (p s : Nat) (bs : List α) (r : Nat) :
    writeRange f p (readRange f p s ++ bs ++ readRange f (p + s + bs.length) r) =
      writeRange f (p + s) bs := by
  -- the values after the new part are still the old ones once it is written
  have hrest : readRange f (p + s + bs.length) r =
      readRange (writeRange f (p + s) bs) (p + s + bs.length) r :=
    (readRange_writeRange_of_le (Nat.le_refl _)).symm
  rw [writeRange_append, writeRange_append, writeRange_readRange, List.length_append,
    length_readRange, ← Nat.add_assoc, hrest, writeRange_readRange]

/-- A value stored at the start of a range leaves no trace once the range is written and
    the same value is stored after it: the range overwrites it, or, for an empty range,
    the second store does. -/
theorem update_writeRange_update (f : Nat → α) (q : Nat) (v : α) (bs : List α) :
    Function.update (writeRange (Function.update f q v) q bs) (q + bs.length) v =
      Function.update (writeRange f q bs) (q + bs.length) v := by
  funext j
  by_cases hj : j = q + bs.length
  · subst hj
    simp
  rw [Function.update_of_ne hj, Function.update_of_ne hj]
  by_cases hlt : j < q
  · rw [writeRange_of_lt hlt, writeRange_of_lt hlt, Function.update_of_ne (by omega)]
  by_cases hin : j < q + bs.length
  · rw [writeRange_of_mem (by omega) (by omega), writeRange_of_mem (by omega) (by omega)]
  · rw [writeRange_of_ge (by omega), writeRange_of_ge (by omega),
      Function.update_of_ne (by omega)]

end ArceOS.Lib.ByteStore
