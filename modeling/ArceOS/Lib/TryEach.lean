import Mathlib

/-!
# Keyed Loops That Stop at the First Failure

A loop over a list of keys of a map whose body reads the value at the key, writes a new
one back, and may fail; the loop stops after the first failing step, keeping every write
made so far, that step's included. A page table's `map_region`, `unmap_region` and
`protect_region` are such loops over page numbers.

## Main results

- `tryEach_of_not_mem`: a key the loop does not visit keeps its value;
- `tryEach_eq_ok_iff`: over distinct keys, the loop succeeds exactly when every step
  succeeds on the original value;
- `tryEach_of_mem`: after a successful loop over distinct keys, each key holds what its
  step wrote;
- `tryEach_cases`: after any loop over distinct keys, each key holds its old value or what
  its step wrote.
-/

namespace ArceOS.Lib

variable {α β ε : Type*} [DecidableEq α]

/-- Run `f` at each key of `xs` in turn, on the value there, writing back what it
    returns; stop after the first step that fails. -/
def tryEach (f : α → β → β × Except ε Unit) :
    (α → β) → List α → (α → β) × Except ε Unit
  | s, [] => (s, .ok ())
  | s, a :: as =>
    match (f a (s a)).2 with
    | .error e => (Function.update s a (f a (s a)).1, .error e)
    | .ok () => tryEach f (Function.update s a (f a (s a)).1) as

variable (f : α → β → β × Except ε Unit)

@[simp] theorem tryEach_nil (s : α → β) : tryEach f s [] = (s, .ok ()) := rfl

theorem tryEach_cons_of_ok (s : α → β) (a : α) (as : List α) (h : (f a (s a)).2 = .ok ()) :
    tryEach f s (a :: as) = tryEach f (Function.update s a (f a (s a)).1) as := by
  simp only [tryEach, h]

theorem tryEach_cons_of_error (s : α → β) (a : α) (as : List α) {e : ε}
    (h : (f a (s a)).2 = .error e) :
    tryEach f s (a :: as) = (Function.update s a (f a (s a)).1, .error e) := by
  simp only [tryEach, h]

/-- A key the loop does not visit keeps its value. -/
theorem tryEach_of_not_mem (s : α → β) (xs : List α) {k : α} (hk : k ∉ xs) :
    (tryEach f s xs).1 k = s k := by
  induction xs generalizing s with
  | nil => rfl
  | cons a as ih =>
    have hka : k ≠ a := fun h => hk (h ▸ List.mem_cons_self)
    have hkas : k ∉ as := fun h => hk (List.mem_cons_of_mem a h)
    cases hr : (f a (s a)).2 with
    | error e =>
      rw [tryEach_cons_of_error f s a as hr]
      exact Function.update_of_ne hka _ _
    | ok u =>
      rw [tryEach_cons_of_ok f s a as hr, ih _ hkas]
      exact Function.update_of_ne hka _ _

/-- Over distinct keys the loop succeeds exactly when every step succeeds on the value
    the key held before the loop. -/
theorem tryEach_eq_ok_iff (s : α → β) {xs : List α} (hnd : xs.Nodup) :
    (tryEach f s xs).2 = .ok () ↔ ∀ a ∈ xs, (f a (s a)).2 = .ok () := by
  induction xs generalizing s with
  | nil => exact ⟨fun _ _ h => (nomatch h), fun _ => rfl⟩
  | cons a as ih =>
    obtain ⟨ha, hnd⟩ := List.nodup_cons.mp hnd
    -- the keys after `a` still hold their old values when their steps run
    have hsame : ∀ b ∈ as, Function.update s a (f a (s a)).1 b = s b :=
      fun b hb => Function.update_of_ne (show b ≠ a from fun h => ha (h ▸ hb)) _ _
    cases hr : (f a (s a)).2 with
    | error e =>
      rw [tryEach_cons_of_error f s a as hr]
      exact ⟨fun h => (nomatch h), fun h => absurd (h a List.mem_cons_self) (by rw [hr]; simp)⟩
    | ok u =>
      rw [tryEach_cons_of_ok f s a as hr, ih _ hnd, List.forall_mem_cons]
      constructor
      · intro h
        exact ⟨hr, fun b hb => hsame b hb ▸ h b hb⟩
      · rintro ⟨-, h⟩ b hb
        rw [hsame b hb]
        exact h b hb

/-- After a successful loop over distinct keys, each key holds what its step wrote. -/
theorem tryEach_of_mem (s : α → β) {xs : List α} (hnd : xs.Nodup)
    (hok : (tryEach f s xs).2 = .ok ()) {k : α} (hk : k ∈ xs) :
    (tryEach f s xs).1 k = (f k (s k)).1 := by
  induction xs generalizing s with
  | nil => cases hk
  | cons a as ih =>
    obtain ⟨ha, hnd⟩ := List.nodup_cons.mp hnd
    cases hr : (f a (s a)).2 with
    | error e =>
      rw [tryEach_cons_of_error f s a as hr] at hok
      cases hok
    | ok u =>
      rw [tryEach_cons_of_ok f s a as hr] at hok ⊢
      rcases List.mem_cons.mp hk with rfl | hk
      · rw [tryEach_of_not_mem f _ as ha, Function.update_self]
      · have hka : k ≠ a := fun h => ha (h ▸ hk)
        rw [ih _ hnd hok hk, Function.update_of_ne hka]

/-- After any loop over distinct keys, each key holds its old value, or what its step
    wrote from it. -/
theorem tryEach_cases (s : α → β) {xs : List α} (hnd : xs.Nodup) (k : α) :
    (tryEach f s xs).1 k = s k ∨ (k ∈ xs ∧ (tryEach f s xs).1 k = (f k (s k)).1) := by
  induction xs generalizing s with
  | nil => exact .inl rfl
  | cons a as ih =>
    obtain ⟨ha, hnd⟩ := List.nodup_cons.mp hnd
    by_cases hka : k = a
    · subst hka
      -- the head is written once, and no later step visits it
      right
      refine ⟨List.mem_cons_self, ?_⟩
      cases hr : (f k (s k)).2 with
      | error e =>
        rw [tryEach_cons_of_error f s k as hr]
        exact Function.update_self _ _ _
      | ok u =>
        rw [tryEach_cons_of_ok f s k as hr, tryEach_of_not_mem f _ as ha]
        exact Function.update_self _ _ _
    · cases hr : (f a (s a)).2 with
      | error e =>
        rw [tryEach_cons_of_error f s a as hr]
        exact .inl (Function.update_of_ne hka _ _)
      | ok u =>
        rw [tryEach_cons_of_ok f s a as hr]
        rcases ih (Function.update s a (f a (s a)).1) hnd with h | ⟨hk, h⟩
        · rw [h, Function.update_of_ne hka]
          exact .inl rfl
        · rw [h, Function.update_of_ne hka]
          exact .inr ⟨List.mem_cons_of_mem a hk, rfl⟩

end ArceOS.Lib
