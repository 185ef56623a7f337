import Mathlib

/-!
# Tables of Objects under Small Ids

A table of capacity `cap` keeps values under the ids `0, …, cap - 1`, each free or
assigned, and hands out ids itself: `add` assigns the first free id, `addAt` a chosen one
when it is free, and `remove` frees an id and gives its value back. No id at or past the
capacity is ever assigned; the structure carries that as a field.

## Main results

- `firstFree_eq_some_iff`, `firstFree_eq_none_iff`: the id `add` hands out is the least
  free one, and there is none exactly when every id below the capacity is assigned.
- `add_eq_some_iff`, `add_eq_none_iff`, `addAt_eq_some_iff`, `addAt_eq_none_iff`,
  `remove_eq_some_iff`, `remove_eq_none_iff`: each operation inverted, the guard of each
  outcome and the table it leaves.
- `erase_insert`: assigning a free id and freeing it again gives the table back.
- `Extends`: the order in which a table only gains values; `add` and `addAt` extend.
-/

namespace ArceOS.Lib

/-- A table of values of `α` under the ids below `cap`. -/
@[ext]
structure IdTable (α : Type) (cap : Nat) where
  /-- The value under each id, `none` where the id is free. -/
  slot : Nat → Option α
  /-- No id at or past the capacity holds a value. -/
  bounded : ∀ id, cap ≤ id → slot id = none

namespace IdTable

variable {α : Type} {cap : Nat}

/-! ## §1 Operations -/

/-- The table with every id free. -/
def empty : IdTable α cap := ⟨fun _ => none, fun _ _ => rfl⟩

theorem bounded_update_some (t : IdTable α cap) {id : Nat} (hid : id < cap) (a : α) :
    ∀ j, cap ≤ j → Function.update t.slot id (some a) j = none := by
  intro j hj
  rw [Function.update_of_ne (by omega), t.bounded j hj]

theorem bounded_update_none (t : IdTable α cap) (id : Nat) :
    ∀ j, cap ≤ j → Function.update t.slot id none j = none := by
  intro j hj
  by_cases h : j = id
  · rw [h, Function.update_self]
  · rw [Function.update_of_ne h, t.bounded j hj]

/-- Put `a` under the id `id`, below the capacity. -/
def insert (t : IdTable α cap) (id : Nat) (hid : id < cap) (a : α) : IdTable α cap :=
  ⟨Function.update t.slot id (some a), bounded_update_some t hid a⟩

/-- Free the id `id`. -/
def erase (t : IdTable α cap) (id : Nat) : IdTable α cap :=
  ⟨Function.update t.slot id none, bounded_update_none t id⟩

/-- `is_assigned`: the id is below the capacity and holds a value. -/
def isAssigned (t : IdTable α cap) (id : Nat) : Bool :=
  decide (id < cap) && (t.slot id).isSome

/-- `get`: the value under an assigned id. -/
def get (t : IdTable α cap) (id : Nat) : Option α :=
  if t.isAssigned id then t.slot id else none

/-- The first free id below the capacity, scanning up from `0`. -/
def firstFree (t : IdTable α cap) : Option Nat :=
  (List.range cap).find? fun id => (t.slot id).isNone

/-- `add`: assign the first free id, or `none` when every id is taken. -/
def add (t : IdTable α cap) (a : α) : Option (Nat × IdTable α cap) :=
  t.firstFree.bind fun id => if h : id < cap then some (id, t.insert id h a) else none

/-- `add_at`: assign the id `id`, or `none` when it is past the capacity or taken. -/
def addAt (t : IdTable α cap) (id : Nat) (a : α) : Option (Nat × IdTable α cap) :=
  if h : cap ≤ id then none
  else if t.isAssigned id then none
  else some (id, t.insert id (Nat.lt_of_not_le h) a)

/-- `remove`: free an assigned id and give its value back. -/
def remove (t : IdTable α cap) (id : Nat) : Option (α × IdTable α cap) :=
  match t.get id with
  | some a => some (a, t.erase id)
  | none => none

/-! ## §2 Slots -/

variable {t : IdTable α cap} {id j : Nat}

@[simp] theorem slot_empty : (empty : IdTable α cap).slot id = none := rfl

@[simp] theorem slot_insert_self (hid : id < cap) (a : α) :
    (t.insert id hid a).slot id = some a := by
  simp [insert]

@[simp] theorem slot_insert_of_ne (hid : id < cap) (a : α) (h : j ≠ id) :
    (t.insert id hid a).slot j = t.slot j := by
  simp [insert, h]

@[simp] theorem slot_erase_self : (t.erase id).slot id = none := by
  simp [erase]

@[simp] theorem slot_erase_of_ne (h : j ≠ id) : (t.erase id).slot j = t.slot j := by
  simp [erase, h]

/-- An id holding a value lies below the capacity. -/
theorem lt_of_slot_isSome (h : (t.slot id).isSome) : id < cap := by
  by_contra hge
  rw [t.bounded id (Nat.le_of_not_lt hge)] at h
  exact absurd h (by simp)

/-- The bound in `is_assigned` is implied by the value. -/
@[simp] theorem isAssigned_eq : t.isAssigned id = (t.slot id).isSome := by
  cases h : (t.slot id).isSome
  · simp [isAssigned, h]
  · simp [isAssigned, h, lt_of_slot_isSome h]

@[simp] theorem get_eq : t.get id = t.slot id := by
  unfold get
  cases h : t.slot id <;> simp [h]

/-- Freeing an id that was just assigned, when it was free, gives the table back. -/
theorem erase_insert (hid : id < cap) (a : α) (hfree : t.slot id = none) :
    (t.insert id hid a).erase id = t := by
  ext1
  funext j
  by_cases h : j = id
  · rw [h, slot_erase_self, hfree]
  · rw [slot_erase_of_ne h, slot_insert_of_ne hid a h]

/-! ## §3 The first free id -/

/-- `firstFree` is the least free id below the capacity. -/
theorem firstFree_eq_some_iff :
    t.firstFree = some id ↔ id < cap ∧ t.slot id = none ∧ ∀ j < id, (t.slot j).isSome := by
  simp only [firstFree, List.find?_range_eq_some, Option.isNone_iff_eq_none, List.mem_range,
    Bool.not_eq_true', Option.isNone_eq_false_iff]
  exact and_left_comm

/-- `firstFree` finds nothing exactly when the table is full. -/
theorem firstFree_eq_none_iff : t.firstFree = none ↔ ∀ id < cap, (t.slot id).isSome := by
  simp only [firstFree, List.find?_range_eq_none, Bool.not_eq_true', Option.isNone_eq_false_iff]

theorem lt_of_firstFree (h : t.firstFree = some id) : id < cap :=
  (firstFree_eq_some_iff.mp h).1

/-! ## §4 The operations inverted -/

/-- `add` assigns the first free id. -/
theorem add_eq_some_iff {a : α} {t' : IdTable α cap} :
    t.add a = some (id, t') ↔
      ∃ h : t.firstFree = some id, t' = t.insert id (lt_of_firstFree h) a := by
  unfold add
  constructor
  · intro hadd
    obtain ⟨id', hfree, hsome⟩ := Option.bind_eq_some_iff.mp hadd
    have hlt := lt_of_firstFree hfree
    rw [dif_pos hlt, Option.some.injEq, Prod.mk.injEq] at hsome
    obtain ⟨rfl, rfl⟩ := hsome
    exact ⟨hfree, rfl⟩
  · rintro ⟨hfree, rfl⟩
    rw [hfree, Option.bind_some, dif_pos (lt_of_firstFree hfree)]

/-- `add` fails exactly when every id below the capacity is assigned. -/
theorem add_eq_none_iff {a : α} : t.add a = none ↔ ∀ id < cap, (t.slot id).isSome := by
  rw [← firstFree_eq_none_iff]
  unfold add
  cases hfree : t.firstFree with
  | none => simp
  | some id => simp [lt_of_firstFree hfree]

/-- `add_at` assigns the id it is given, when that id is free and below the capacity. -/
theorem addAt_eq_some_iff {a : α} {id' : Nat} {t' : IdTable α cap} :
    t.addAt id a = some (id', t') ↔
      ∃ h : id < cap, t.slot id = none ∧ id' = id ∧ t' = t.insert id h a := by
  unfold addAt
  by_cases hcap : cap ≤ id
  · simp only [dif_pos hcap, reduceCtorEq, false_iff, not_exists]
    intro h
    omega
  · rw [dif_neg hcap, isAssigned_eq]
    cases hs : t.slot id with
    | some b => simp
    | none =>
      simp only [Option.isSome_none, Bool.false_eq_true, if_false, Option.some.injEq,
        Prod.mk.injEq, true_and]
      constructor
      · rintro ⟨rfl, rfl⟩
        exact ⟨Nat.lt_of_not_le hcap, rfl, rfl⟩
      · rintro ⟨_, rfl, rfl⟩
        exact ⟨rfl, rfl⟩

/-- `add_at` fails exactly when the id is past the capacity or taken. -/
theorem addAt_eq_none_iff {a : α} : t.addAt id a = none ↔ cap ≤ id ∨ (t.slot id).isSome := by
  unfold addAt
  by_cases hcap : cap ≤ id
  · simp [hcap]
  · rw [dif_neg hcap, isAssigned_eq]
    cases t.slot id <;> simp [hcap]

/-- `remove` frees an assigned id and gives back its value. -/
theorem remove_eq_some_iff {a : α} {t' : IdTable α cap} :
    t.remove id = some (a, t') ↔ t.slot id = some a ∧ t' = t.erase id := by
  unfold remove
  rw [get_eq]
  cases t.slot id with
  | none => simp
  | some b => simp [eq_comm]

/-- `remove` fails exactly on a free id. -/
theorem remove_eq_none_iff : t.remove id = none ↔ t.slot id = none := by
  unfold remove
  rw [get_eq]
  cases t.slot id <;> simp

/-- After the first free id is assigned, the next first free id lies above it. -/
theorem lt_of_firstFree_insert {id' : Nat} {a : α} (h : t.firstFree = some id)
    (h' : (t.insert id (lt_of_firstFree h) a).firstFree = some id') : id < id' := by
  obtain ⟨-, hfree, hbelow⟩ := firstFree_eq_some_iff.mp h
  obtain ⟨-, hfree', -⟩ := firstFree_eq_some_iff.mp h'
  have hne : id' ≠ id := by
    rintro rfl
    rw [slot_insert_self] at hfree'
    exact absurd hfree' (by simp)
  -- an id below `id` holds a value, and keeps it
  by_contra hle
  have hlt : id' < id := by omega
  have hsome := hbelow id' hlt
  rw [slot_insert_of_ne _ a hne] at hfree'
  rw [hfree'] at hsome
  exact absurd hsome (by simp)

/-! ## §5 Extension -/

/-- `t'` keeps every value `t` holds: it differs from `t` only at ids `t` had free. -/
def Extends (t t' : IdTable α cap) : Prop :=
  ∀ id a, t.slot id = some a → t'.slot id = some a

theorem Extends.refl (t : IdTable α cap) : Extends t t := fun _ _ h => h

theorem Extends.trans {t₁ t₂ t₃ : IdTable α cap} (h₁ : Extends t₁ t₂) (h₂ : Extends t₂ t₃) :
    Extends t₁ t₃ :=
  fun id a h => h₂ id a (h₁ id a h)

/-- Assigning a free id extends the table. -/
theorem extends_insert (hid : id < cap) (a : α) (hfree : t.slot id = none) :
    Extends t (t.insert id hid a) := by
  intro j b hj
  have hne : j ≠ id := by
    rintro rfl
    rw [hfree] at hj
    exact absurd hj (by simp)
  rw [slot_insert_of_ne hid a hne, hj]

theorem extends_of_add {a : α} {t' : IdTable α cap} (h : t.add a = some (id, t')) :
    Extends t t' := by
  obtain ⟨hfree, rfl⟩ := add_eq_some_iff.mp h
  exact extends_insert _ a (firstFree_eq_some_iff.mp hfree).2.1

theorem extends_of_addAt {a : α} {id' : Nat} {t' : IdTable α cap}
    (h : t.addAt id a = some (id', t')) : Extends t t' := by
  obtain ⟨hid, hfree, -, rfl⟩ := addAt_eq_some_iff.mp h
  exact extends_insert hid a hfree

end IdTable

end ArceOS.Lib
