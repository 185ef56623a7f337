import Mathlib

/-!
# Ordered Maps

A finite map kept as an association list in increasing key order, each key at
most once, the way a `BTreeMap` presents its entries. Insertion places a new key
before the first larger one, or overwrites the entry of an equal key. The
structure carries the distinctness of its keys as a field.

The lemmas are the usual ones for reading a map after a write (`get?_insert`,
`get?_erase`) and for emptiness; none of them needs the keys to be ordered.
-/

namespace ArceOS.Lib

/-- A finite map whose entries have pairwise distinct keys. -/
structure OrdMap (κ ν : Type*) where
  entries : List (κ × ν)
  nodup : (entries.map Prod.fst).Nodup

namespace OrdMap

variable {κ ν : Type*} [DecidableEq κ]

/-! ## §1 Operations on entry lists -/

/-- The value of the first entry for `k`. -/
def getList (k : κ) : List (κ × ν) → Option ν
  | [] => none
  | e :: es => if e.1 = k then some e.2 else getList k es

/-- Put the new key `k` before the first larger key. -/
def insertNew [LT κ] [DecidableLT κ] (k : κ) (v : ν) : List (κ × ν) → List (κ × ν)
  | [] => [(k, v)]
  | e :: es => if k < e.1 then (k, v) :: e :: es else e :: insertNew k v es

/-- Overwrite the value of the entry for `k`, or insert `k` in order when absent. -/
def insertList [LT κ] [DecidableLT κ] (k : κ) (v : ν) (es : List (κ × ν)) : List (κ × ν) :=
  if es.any (fun e => e.1 = k) then es.map (fun e => if e.1 = k then (k, v) else e)
  else insertNew k v es

theorem keys_replace (k : κ) (v : ν) (es : List (κ × ν)) :
    (es.map fun e => if e.1 = k then (k, v) else e).map Prod.fst = es.map Prod.fst := by
  simp only [List.map_map]
  apply List.map_congr_left
  intro e _
  by_cases h : e.1 = k <;> simp [h]

theorem getList_replace_self {k : κ} (v : ν) {es : List (κ × ν)}
    (h : es.any (fun e => e.1 = k) = true) :
    getList k (es.map fun e => if e.1 = k then (k, v) else e) = some v := by
  induction es with
  | nil => simp at h
  | cons e es ih =>
    by_cases he : e.1 = k
    · simp [getList, he]
    · simp only [List.any_cons, he, decide_false, Bool.false_or] at h
      simp [getList, he, ih h]

theorem getList_replace_ne {k k' : κ} (h : k' ≠ k) (v : ν) (es : List (κ × ν)) :
    getList k' (es.map fun e => if e.1 = k then (k, v) else e) = getList k' es := by
  induction es with
  | nil => rfl
  | cons e es ih =>
    by_cases he : e.1 = k
    · have : e.1 ≠ k' := he ▸ Ne.symm h
      simp [getList, he, Ne.symm h, ih]
    · simp [getList, he, ih]

section Lists

variable [LT κ] [DecidableLT κ]

omit [DecidableEq κ] in
theorem keys_insertNew (k : κ) (v : ν) (es : List (κ × ν)) :
    List.Perm ((insertNew k v es).map Prod.fst) (k :: es.map Prod.fst) := by
  induction es with
  | nil => simp [insertNew]
  | cons e es ih =>
    simp only [insertNew]
    split
    · simp
    · simp only [List.map_cons]
      exact (ih.cons e.1).trans (List.Perm.swap k e.1 _)

theorem nodup_insertList (k : κ) (v : ν) (es : List (κ × ν))
    (h : (es.map Prod.fst).Nodup) : ((insertList k v es).map Prod.fst).Nodup := by
  unfold insertList
  split
  · rwa [keys_replace]
  · rename_i habs
    rw [(keys_insertNew k v es).nodup_iff, List.nodup_cons]
    refine ⟨?_, h⟩
    simpa using habs

theorem getList_insertNew_self {k : κ} (v : ν) {es : List (κ × ν)} (h : ∀ e ∈ es, e.1 ≠ k) :
    getList k (insertNew k v es) = some v := by
  induction es with
  | nil => simp [insertNew, getList]
  | cons e es ih =>
    simp only [insertNew]
    split
    · simp [getList]
    · simp only [List.mem_cons, forall_eq_or_imp] at h
      simp [getList, h.1, ih h.2]

theorem getList_insertNew_ne {k k' : κ} (h : k' ≠ k) (v : ν) (es : List (κ × ν)) :
    getList k' (insertNew k v es) = getList k' es := by
  induction es with
  | nil => simp [insertNew, getList, Ne.symm h]
  | cons e es ih =>
    simp only [insertNew]
    split <;> simp [getList, Ne.symm h, ih]

theorem getList_insertList_self (k : κ) (v : ν) (es : List (κ × ν)) :
    getList k (insertList k v es) = some v := by
  unfold insertList
  split
  · exact getList_replace_self v ‹_›
  · rename_i habs
    refine getList_insertNew_self v fun e he hek => habs ?_
    exact List.any_eq_true.mpr ⟨e, he, by simpa using hek⟩

theorem getList_insertList_ne {k k' : κ} (h : k' ≠ k) (v : ν) (es : List (κ × ν)) :
    getList k' (insertList k v es) = getList k' es := by
  unfold insertList
  split
  · exact getList_replace_ne h v es
  · exact getList_insertNew_ne h v es

end Lists

theorem getList_filter_self (k : κ) (es : List (κ × ν)) :
    getList k (es.filter fun e => e.1 ≠ k) = none := by
  induction es with
  | nil => rfl
  | cons e es ih =>
    by_cases he : e.1 = k
    · rw [List.filter_cons_of_neg (by simpa using he)]
      exact ih
    · rw [List.filter_cons_of_pos (by simpa using he)]
      simp only [getList, if_neg he]
      exact ih

theorem getList_filter_ne {k k' : κ} (h : k' ≠ k) (es : List (κ × ν)) :
    getList k' (es.filter fun e => e.1 ≠ k) = getList k' es := by
  induction es with
  | nil => rfl
  | cons e es ih =>
    by_cases he : e.1 = k
    · have : e.1 ≠ k' := he ▸ Ne.symm h
      rw [List.filter_cons_of_neg (by simpa using he)]
      simp only [getList, if_neg this]
      exact ih
    · rw [List.filter_cons_of_pos (by simpa using he)]
      simp only [getList]
      split
      · rfl
      · exact ih

/-- In a list with distinct keys, an entry's key reads back the entry's value. -/
theorem getList_of_mem {k : κ} {v : ν} {es : List (κ × ν)} (hnd : (es.map Prod.fst).Nodup)
    (h : (k, v) ∈ es) : getList k es = some v := by
  induction es with
  | nil => simp at h
  | cons e es ih =>
    simp only [List.map_cons, List.nodup_cons] at hnd
    simp only [getList]
    rcases List.mem_cons.mp h with rfl | h
    · simp
    · -- `k` is a key of the tail, so it is not the head's key
      have hne : e.1 ≠ k := fun he => hnd.1 (by rw [he]; exact List.mem_map_of_mem (f := Prod.fst) h)
      rw [if_neg hne]
      exact ih hnd.2 h

/-! ## §2 Maps -/

/-- The empty map. -/
def empty : OrdMap κ ν := ⟨[], List.nodup_nil⟩

/-- `BTreeMap::get`. -/
def get? (m : OrdMap κ ν) (k : κ) : Option ν := getList k m.entries

/-- `BTreeMap::contains_key`. -/
def contains (m : OrdMap κ ν) (k : κ) : Bool := (m.get? k).isSome

/-- `BTreeMap::is_empty`. -/
def isEmpty (m : OrdMap κ ν) : Bool := m.entries.isEmpty

/-- `BTreeMap::insert`. -/
def insert [LT κ] [DecidableLT κ] (m : OrdMap κ ν) (k : κ) (v : ν) : OrdMap κ ν :=
  ⟨insertList k v m.entries, nodup_insertList k v m.entries m.nodup⟩

/-- `BTreeMap::remove`. -/
def erase (m : OrdMap κ ν) (k : κ) : OrdMap κ ν :=
  ⟨m.entries.filter (fun e => e.1 ≠ k), by
    have := m.nodup.filter (fun x => x ≠ k)
    rwa [List.filter_map] at this⟩

@[simp] theorem get?_empty (k : κ) : (empty : OrdMap κ ν).get? k = none := rfl

@[simp] theorem get?_insert_self [LT κ] [DecidableLT κ] (m : OrdMap κ ν) (k : κ) (v : ν) :
    (m.insert k v).get? k = some v :=
  getList_insertList_self k v m.entries

theorem get?_insert_ne [LT κ] [DecidableLT κ] (m : OrdMap κ ν) {k k' : κ} (h : k' ≠ k) (v : ν) :
    (m.insert k v).get? k' = m.get? k' :=
  getList_insertList_ne h v m.entries

@[simp] theorem get?_erase_self (m : OrdMap κ ν) (k : κ) : (m.erase k).get? k = none :=
  getList_filter_self k m.entries

theorem get?_erase_ne (m : OrdMap κ ν) {k k' : κ} (h : k' ≠ k) :
    (m.erase k).get? k' = m.get? k' :=
  getList_filter_ne h m.entries

theorem get?_of_mem (m : OrdMap κ ν) {k : κ} {v : ν} (h : (k, v) ∈ m.entries) :
    m.get? k = some v :=
  getList_of_mem m.nodup h

@[simp] theorem contains_iff (m : OrdMap κ ν) (k : κ) :
    m.contains k = true ↔ ∃ v, m.get? k = some v := by
  simp [contains, Option.isSome_iff_exists]

/-- A map is empty exactly when no key has a value. -/
theorem isEmpty_iff (m : OrdMap κ ν) : m.isEmpty = true ↔ ∀ k, m.get? k = none := by
  obtain ⟨es, _⟩ := m
  simp only [isEmpty, get?]
  cases es with
  | nil => simp [getList]
  | cons e es =>
    simp only [List.isEmpty_cons, Bool.false_eq_true, false_iff, not_forall]
    exact ⟨e.1, by simp [getList]⟩

omit [DecidableEq κ] in
@[simp] theorem isEmpty_empty : (empty : OrdMap κ ν).isEmpty = true := rfl

/-! ## §3 Key order

A `BTreeMap` iterates its entries in increasing key order. Insertion keeps that order
when `<` is a strict total order on the keys, and removal always does. -/

section Order

variable [LT κ] [DecidableLT κ]

/-- The keys are in increasing order. -/
def Sorted (m : OrdMap κ ν) : Prop := (m.entries.map Prod.fst).Pairwise (· < ·)

omit [DecidableEq κ] in
theorem pairwise_insertNew (htrans : ∀ a b c : κ, a < b → b < c → a < c)
    (htotal : ∀ a b : κ, ¬a < b → a ≠ b → b < a) (k : κ) (v : ν) {es : List (κ × ν)}
    (hs : (es.map Prod.fst).Pairwise (· < ·)) (hk : ∀ e ∈ es, e.1 ≠ k) :
    ((insertNew k v es).map Prod.fst).Pairwise (· < ·) := by
  induction es with
  | nil => simp [insertNew]
  | cons e es ih =>
    rw [List.map_cons, List.pairwise_cons] at hs
    simp only [insertNew]
    split
    · -- `k` goes first: it is below `e`, hence below every later key
      rename_i hlt
      rw [List.map_cons, List.map_cons, List.pairwise_cons, List.pairwise_cons]
      refine ⟨?_, hs⟩
      intro x hx
      rcases List.mem_cons.mp hx with rfl | hx
      · exact hlt
      · exact htrans _ _ _ hlt (hs.1 x hx)
    · -- `k` goes after `e`, which is below it
      rename_i hnlt
      have hek : e.1 < k := htotal k e.1 hnlt (hk e List.mem_cons_self).symm
      rw [List.map_cons, List.pairwise_cons]
      refine ⟨?_, ih hs.2 fun e' he' => hk e' (List.mem_cons_of_mem e he')⟩
      intro x hx
      rcases List.mem_cons.mp ((keys_insertNew k v es).mem_iff.mp hx) with rfl | hx
      · exact hek
      · exact hs.1 x hx

omit [DecidableEq κ] [DecidableLT κ] in
theorem sorted_empty : (empty : OrdMap κ ν).Sorted := List.Pairwise.nil

theorem sorted_insert (htrans : ∀ a b c : κ, a < b → b < c → a < c)
    (htotal : ∀ a b : κ, ¬a < b → a ≠ b → b < a) {m : OrdMap κ ν} (hs : m.Sorted)
    (k : κ) (v : ν) : (m.insert k v).Sorted := by
  unfold Sorted insert insertList
  split
  · rwa [keys_replace]
  · rename_i habs
    refine pairwise_insertNew htrans htotal k v hs fun e he hek => habs ?_
    exact List.any_eq_true.mpr ⟨e, he, by simpa using hek⟩

omit [DecidableLT κ] in
theorem sorted_erase {m : OrdMap κ ν} (hs : m.Sorted) (k : κ) : (m.erase k).Sorted :=
  hs.sublist ((List.filter_sublist).map Prod.fst)

end Order

end OrdMap

end ArceOS.Lib
