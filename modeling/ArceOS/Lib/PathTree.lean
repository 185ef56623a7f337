import Mathlib

/-!
# Hierarchical Namespaces

A namespace is a map from name paths (lists of names, `[]` is the root) to the
kind of the entry there. A path is resolved component by component: a component
stays where it is, goes up to the container, or goes down into a name. Every
step starts at a directory; going up from the root fails.

The lexical reading of the same components ignores the namespace: it cancels
each name against a following `up`. The two agree when every `up` is taken at a
directory other than the root (`walk_eq_ok_iff`), except that a walk ending at a
file must not take a further `stay` there.

## Main definitions

- `NameTree`, `Closed`: a namespace, and its closure under prefixes;
- `walk`: resolution of components in a namespace;
- `lexWalk`, `upOk`: the lexical reading, and the condition on each `up`.

## Main results

- `walk_eq_ok_iff`: under `upOk`, a walk succeeds exactly at the lexical position,
  when that position exists and is a directory or is reached by a name;
- `walk_names`: a walk over names only succeeds exactly at existing entries.
-/

namespace ArceOS.Lib.PathTree

/-- The two kinds of entry. -/
inductive Kind where
  | file
  | dir
  deriving DecidableEq, Repr

/-- A path component: stay, go up, or go down into a name. -/
inductive Comp (α : Type*) where
  | stay
  | up
  | name (a : α)
  deriving DecidableEq, Repr

/-- A namespace: the kind of the entry at each name path. -/
abbrev NameTree (α : Type*) := List α → Option Kind

/-- The ways resolution fails. -/
inductive WalkError where
  | notFound
  | notADirectory
  deriving DecidableEq, Repr

variable {α : Type*}

/-- The container of every entry is a directory. -/
def Closed (T : NameTree α) : Prop := ∀ q a, T (q ++ [a]) ≠ none → T q = some .dir

/-- Resolve the components `cs` from the position `q`. -/
def walk (T : NameTree α) : List α → List (Comp α) → Except WalkError (List α)
  | q, [] => .ok q
  | q, c :: cs =>
    match T q with
    | some .dir =>
      match c with
      | .stay => walk T q cs
      | .up => if q.isEmpty then .error .notFound else walk T q.dropLast cs
      | .name a => if T (q ++ [a]) = none then .error .notFound else walk T (q ++ [a]) cs
    | some .file => .error .notADirectory
    | none => .error .notFound

/-- One component read lexically. -/
def lexStep (q : List α) : Comp α → List α
  | .stay => q
  | .up => q.dropLast
  | .name a => q ++ [a]

/-- The components read lexically from `q`. -/
def lexWalk (q : List α) (cs : List (Comp α)) : List α := cs.foldl lexStep q

/-- Every `up` of `cs`, read lexically from `q`, is taken at a directory other
    than the root. -/
def upOk (T : NameTree α) : List α → List (Comp α) → Bool
  | _, [] => true
  | q, c :: cs =>
    (match c with
      | .up => !q.isEmpty && T q == some .dir
      | _ => true) && upOk T (lexStep q c) cs

/-- The last component goes down into a name. -/
def endsInName (cs : List (Comp α)) : Bool :=
  match cs.getLast? with
  | some (.name _) => true
  | _ => false

section Lemmas

variable {T : NameTree α}

@[simp] theorem lexWalk_nil (q : List α) : lexWalk q [] = q := rfl

@[simp] theorem lexWalk_cons (q : List α) (c : Comp α) (cs : List (Comp α)) :
    lexWalk q (c :: cs) = lexWalk (lexStep q c) cs := rfl

@[simp] theorem lexStep_stay (q : List α) : lexStep q .stay = q := rfl

@[simp] theorem lexStep_up (q : List α) : lexStep q .up = q.dropLast := rfl

@[simp] theorem lexStep_name (q : List α) (a : α) : lexStep q (.name a) = q ++ [a] := rfl

@[simp] theorem endsInName_singleton (c : Comp α) :
    endsInName [c] = match c with | .name _ => true | _ => false := by
  cases c <;> rfl

@[simp] theorem upOk_nil (q : List α) : upOk T q [] = true := rfl

theorem upOk_cons {q : List α} {c : Comp α} {cs : List (Comp α)} :
    upOk T q (c :: cs) = true ↔
      (c = .up → q ≠ [] ∧ T q = some .dir) ∧ upOk T (lexStep q c) cs = true := by
  cases c <;> simp [upOk]

theorem endsInName_cons_cons (c c' : Comp α) (cs : List (Comp α)) :
    endsInName (c :: c' :: cs) = endsInName (c' :: cs) := by
  simp [endsInName, List.getLast?_cons_cons]

@[simp] theorem walk_nil (q : List α) : walk T q [] = .ok q := rfl

theorem walk_cons_file {q : List α} (hq : T q = some .file) (c : Comp α) (cs : List (Comp α)) :
    walk T q (c :: cs) = .error .notADirectory := by
  simp [walk, hq]

theorem walk_stay {q : List α} (hq : T q = some .dir) (cs : List (Comp α)) :
    walk T q (.stay :: cs) = walk T q cs := by
  simp [walk, hq]

theorem walk_up {q : List α} (hq : T q = some .dir) (h₀ : q ≠ []) (cs : List (Comp α)) :
    walk T q (.up :: cs) = walk T q.dropLast cs := by
  simp [walk, hq, h₀]

theorem walk_up_nil (hq : T [] = some .dir) (cs : List (Comp α)) :
    walk T [] (.up :: cs) = .error .notFound := by
  simp [walk, hq]

theorem walk_name {q : List α} {a : α} (hq : T q = some .dir) (ha : T (q ++ [a]) ≠ none)
    (cs : List (Comp α)) : walk T q (.name a :: cs) = walk T (q ++ [a]) cs := by
  simp [walk, hq, ha]

theorem walk_name_none {q : List α} {a : α} (hq : T q = some .dir) (ha : T (q ++ [a]) = none)
    (cs : List (Comp α)) : walk T q (.name a :: cs) = .error .notFound := by
  simp [walk, hq, ha]

/-- In a closed namespace the container of a non-root position that exists is a
    directory. -/
theorem Closed.dropLast_dir (hT : Closed T) {q : List α} (h₀ : q ≠ []) (hq : T q ≠ none) :
    T q.dropLast = some .dir := by
  apply hT q.dropLast (q.getLast h₀)
  rwa [List.dropLast_concat_getLast h₀]

/-- A walk from an entry ends at an entry. -/
theorem walk_ne_none (hT : Closed T) :
    ∀ {q r : List α} {cs : List (Comp α)}, T q ≠ none → walk T q cs = .ok r → T r ≠ none
  | q, r, [], hq, hw => by cases hw; exact hq
  | q, r, c :: cs, hq, hw => by
    rcases hk : T q with _ | _ | _
    · exact absurd hk hq
    · rw [walk_cons_file hk] at hw; cases hw
    · cases c with
      | stay => rw [walk_stay hk] at hw; exact walk_ne_none hT hq hw
      | up =>
        by_cases h₀ : q = []
        · subst h₀; rw [walk_up_nil hk] at hw; cases hw
        · -- the container of an entry is an entry
          rw [walk_up hk h₀] at hw
          refine walk_ne_none hT ?_ hw
          simp [hT.dropLast_dir h₀ hq]
      | name a =>
        by_cases ha : T (q ++ [a]) = none
        · rw [walk_name_none hk ha] at hw; cases hw
        · rw [walk_name hk ha] at hw; exact walk_ne_none hT ha hw

/-- Below a missing position nothing exists, whatever the components. -/
theorem lexWalk_none (hT : Closed T) :
    ∀ {q : List α} {cs : List (Comp α)}, T q = none → upOk T q cs = true →
      T (lexWalk q cs) = none
  | _, [], hq, _ => hq
  | q, c :: cs, hq, hup => by
    obtain ⟨hc, hup⟩ := upOk_cons.mp hup
    rw [lexWalk_cons]
    refine lexWalk_none hT ?_ hup
    cases c with
    | stay => exact hq
    | up => simp [hq] at hc
    | name a =>
      -- a name below a missing position is missing: the container would be a directory
      by_contra h
      rw [hT q a h] at hq
      cases hq

/-- From a file only `stay` keeps the walk at an entry, and then the last
    component is no name. -/
theorem lexWalk_file (hT : Closed T) :
    ∀ {q : List α} {cs : List (Comp α)}, T q = some .file → upOk T q cs = true →
      (lexWalk q cs = q ∧ endsInName cs = false) ∨ T (lexWalk q cs) = none
  | _, [], _, _ => .inl ⟨rfl, rfl⟩
  | q, c :: cs, hq, hup => by
    obtain ⟨hc, hup⟩ := upOk_cons.mp hup
    cases c with
    | stay =>
      rcases lexWalk_file hT hq hup with ⟨h, he⟩ | h
      · left
        refine ⟨h, ?_⟩
        cases cs with
        | nil => rfl
        | cons c' cs => rw [endsInName_cons_cons]; exact he
      · exact .inr h
    | up => simp [hq] at hc
    | name a =>
      have ha : T (q ++ [a]) = none := by
        by_contra h
        rw [hT q a h] at hq
        cases hq
      rw [lexWalk_cons]
      exact .inr (lexWalk_none hT ha hup)

/-- **The lexical normalisation law.** When every `up` is taken at a directory
    other than the root, a walk from an existing position succeeds exactly at
    the lexical position, provided that position exists and is a directory or
    the last component is a name. -/
theorem walk_eq_ok_iff (hT : Closed T) :
    ∀ {q r : List α} {cs : List (Comp α)}, T q ≠ none → upOk T q cs = true →
      (walk T q cs = .ok r ↔
        r = lexWalk q cs ∧ T r ≠ none ∧ (cs = [] ∨ T r = some .dir ∨ endsInName cs = true))
  | q, r, [], hq, _ => by
    simp only [walk_nil, Except.ok.injEq, lexWalk_nil, true_or, and_true]
    constructor
    · rintro rfl; exact ⟨rfl, hq⟩
    · rintro ⟨rfl, -⟩; rfl
  | q, r, c :: cs, hq, hup => by
    obtain ⟨hc, hup'⟩ := upOk_cons.mp hup
    rcases hk : T q with _ | _ | _
    · exact absurd hk hq
    · -- from a file every walk fails, and no lexical position qualifies
      rw [walk_cons_file hk]
      simp only [reduceCtorEq, false_iff, List.cons_ne_nil, false_or, lexWalk_cons]
      rintro ⟨rfl, hr, hd⟩
      rcases lexWalk_file hT hk hup with ⟨he, hn⟩ | he
      · rw [lexWalk_cons] at he
        rw [he, hk] at hd
        simp [hn] at hd
      · exact hr he
    · cases c with
      | stay =>
        have ih := walk_eq_ok_iff hT (r := r) hq hup'
        rw [walk_stay hk, ih]
        cases cs with
        | nil =>
          simp only [lexWalk_nil, lexWalk_cons, lexStep_stay, List.cons_ne_nil, endsInName_singleton]
          -- a last `stay` succeeds at a directory only
          constructor
          · rintro ⟨rfl, hr, -⟩; exact ⟨rfl, hr, .inr (.inl hk)⟩
          · rintro ⟨rfl, hr, -⟩; exact ⟨rfl, hr, .inl trivial⟩
        | cons c' cs => simp [endsInName_cons_cons]
      | up =>
        have h₀ := (hc rfl).1
        have hd := hT.dropLast_dir h₀ hq
        simp only [lexStep_up] at hup'
        have ih := walk_eq_ok_iff hT (r := r) (by simp [hd]) hup'
        rw [walk_up hk h₀, ih]
        cases cs with
        | nil =>
          simp only [lexWalk_nil, lexWalk_cons, lexStep_up, List.cons_ne_nil, endsInName_singleton]
          constructor
          · rintro ⟨rfl, hr, -⟩; exact ⟨rfl, hr, .inr (.inl hd)⟩
          · rintro ⟨rfl, hr, -⟩; exact ⟨rfl, hr, .inl trivial⟩
        | cons c' cs => simp [endsInName_cons_cons]
      | name a =>
        by_cases ha : T (q ++ [a]) = none
        · -- a missing name: the walk fails, and the lexical position is missing too
          rw [walk_name_none hk ha]
          simp only [reduceCtorEq, false_iff, lexWalk_cons, lexStep_name]
          rintro ⟨rfl, hr, -⟩
          exact hr (lexWalk_none hT ha hup')
        · simp only [lexStep_name] at hup'
          have ih := walk_eq_ok_iff hT (r := r) ha hup'
          rw [walk_name hk ha, ih]
          cases cs with
          | nil => simp
          | cons c' cs => simp [endsInName_cons_cons]

@[simp] theorem upOk_names (q : List α) (ns : List α) : upOk T q (ns.map .name) = true := by
  induction ns generalizing q with
  | nil => rfl
  | cons a ns ih => simp [upOk, ih]

@[simp] theorem lexWalk_names (q : List α) (ns : List α) : lexWalk q (ns.map .name) = q ++ ns := by
  induction ns generalizing q with
  | nil => simp
  | cons a ns ih => simp [lexStep, ih]

theorem endsInName_names {ns : List α} (h : ns ≠ []) : endsInName (ns.map .name) = true := by
  induction ns with
  | nil => exact absurd rfl h
  | cons a ns ih =>
    cases ns with
    | nil => rfl
    | cons b ns => rw [List.map_cons, List.map_cons, endsInName_cons_cons]; exact ih (by simp)

/-- Names only: no `up` to check, and the walk ends at the entry named. -/
theorem walk_names (hT : Closed T) {q r : List α} (hq : T q ≠ none) (ns : List α) :
    walk T q (ns.map .name) = .ok r ↔ r = q ++ ns ∧ T r ≠ none := by
  rw [walk_eq_ok_iff hT hq (upOk_names q ns), lexWalk_names]
  constructor
  · rintro ⟨h, h', -⟩; exact ⟨h, h'⟩
  · rintro ⟨h, h'⟩
    refine ⟨h, h', ?_⟩
    rcases ns.eq_nil_or_concat with rfl | ⟨-, -, rfl⟩
    · exact .inl rfl
    · exact .inr (.inr (endsInName_names (by simp)))

end Lemmas

end ArceOS.Lib.PathTree
