import Mathlib

/-!
# String Slices as Lists

The `&str` operations that path handling code uses, over a list of characters
(or of any values with decidable equality): trimming a character at either end,
stripping a prefix, and testing prefixes and suffixes. Each definition follows
the documented behaviour of the Rust method it is named after.
-/

namespace ArceOS.Lib.Str

variable {α : Type*}

section Slices

variable [DecidableEq α]

/-- `trim_start_matches(c)`: drop every leading `c`. -/
def trimStartMatches (c : α) (s : List α) : List α := s.dropWhile (· = c)

/-- `trim_end_matches(c)`: drop every trailing `c`. -/
def trimEndMatches (c : α) (s : List α) : List α := (s.reverse.dropWhile (· = c)).reverse

/-- `trim_matches(c)`: drop every leading and every trailing `c`. -/
def trimMatches (c : α) (s : List α) : List α := trimEndMatches c (trimStartMatches c s)

/-- `starts_with(p)`. -/
def startsWith (s p : List α) : Bool := p.isPrefixOf s

/-- `ends_with(p)`. -/
def endsWith (s p : List α) : Bool := p.reverse.isPrefixOf s.reverse

/-- `strip_prefix(p)`: what follows `p`, when `s` starts with `p`. -/
def stripPrefix (s p : List α) : Option (List α) :=
  if p.isPrefixOf s then some (s.drop p.length) else none

theorem length_trimStartMatches_le (c : α) (s : List α) :
    (trimStartMatches c s).length ≤ s.length :=
  List.length_dropWhile_le _ s

theorem length_trimMatches_le (c : α) (s : List α) : (trimMatches c s).length ≤ s.length := by
  simp only [trimMatches, trimEndMatches, List.length_reverse]
  calc (List.dropWhile (· = c) (trimStartMatches c s).reverse).length
      ≤ (trimStartMatches c s).reverse.length := List.length_dropWhile_le _ _
    _ = (trimStartMatches c s).length := List.length_reverse
    _ ≤ s.length := length_trimStartMatches_le c s

/-- After trimming, the slice does not start with the trimmed character. -/
theorem trimStartMatches_head {c : α} {s : List α} {x : α} {xs : List α}
    (h : trimStartMatches c s = x :: xs) : x ≠ c := by
  have := List.head?_dropWhile_not (fun y => decide (y = c)) s
  unfold trimStartMatches at h
  simpa [h] using this

theorem length_stripPrefix {s p r : List α} (h : stripPrefix s p = some r) :
    r.length = s.length - p.length := by
  unfold stripPrefix at h
  split at h
  · simp only [Option.some.injEq] at h
    rw [← h, List.length_drop]
  · cases h

theorem trimStartMatches_cons_self (c : α) (s : List α) :
    trimStartMatches c (c :: s) = trimStartMatches c s := by
  simp [trimStartMatches]

theorem trimStartMatches_idem (c : α) (s : List α) :
    trimStartMatches c (trimStartMatches c s) = trimStartMatches c s :=
  List.dropWhile_idempotent _ s

theorem trimMatches_trimStartMatches (c : α) (s : List α) :
    trimMatches c (trimStartMatches c s) = trimMatches c s := by
  rw [trimMatches, trimMatches, trimStartMatches_idem]

theorem trimStartMatches_of_head? {c : α} {s : List α} (hh : s.head? ≠ some c) :
    trimStartMatches c s = s := by
  cases s with
  | nil => rfl
  | cons x s => simpa [trimStartMatches] using hh

/-- A slice that neither starts nor ends with `c` is its own trim. -/
theorem trimMatches_of_ends {c : α} {s : List α} (hh : s.head? ≠ some c)
    (hl : s.getLast? ≠ some c) : trimMatches c s = s := by
  have hend : (s.reverse.dropWhile (· = c)) = s.reverse := by
    cases hr : s.reverse with
    | nil => rfl
    | cons x s' =>
      have hx : s.getLast? = some x := by rw [← List.head?_reverse, hr]; rfl
      simp only [List.dropWhile_cons, decide_eq_true_eq]
      rw [if_neg (fun h : x = c => hl (h ▸ hx))]
  rw [trimMatches, trimStartMatches_of_head? hh, trimEndMatches, hend, List.reverse_reverse]

end Slices

/-! ### Slices joined by a separator

A path with no empty component is its components joined by `/`, none of which
holds a `/`. The lemmas below read such a join back: its ends, its prefixes made
of whole components, and what follows them. -/

section Join

/-- The parts `ns` are non-empty and free of the separator `c`. -/
def Segments (c : α) (ns : List (List α)) : Prop := ∀ a ∈ ns, a ≠ [] ∧ c ∉ a

theorem intercalate_append {c : α} {ms rs : List (List α)} (hm : ms ≠ []) (hr : rs ≠ []) :
    [c].intercalate (ms ++ rs) = [c].intercalate ms ++ c :: [c].intercalate rs := by
  induction ms with
  | nil => contradiction
  | cons a ms ih =>
    cases ms with
    | nil => simp [List.intercalate_cons_of_ne_nil hr]
    | cons b ms =>
      have ih' := ih (List.cons_ne_nil _ _)
      simp only [List.cons_append, List.intercalate_cons_cons] at ih' ⊢
      rw [ih']
      simp

theorem head?_intercalate {c : α} {ns : List (List α)} (hns : Segments c ns) :
    ([c].intercalate ns).head? ≠ some c := by
  cases ns with
  | nil => simp
  | cons a ns =>
    obtain ⟨ha, hca⟩ := hns a List.mem_cons_self
    obtain ⟨x, a, rfl⟩ := List.exists_cons_of_ne_nil ha
    rw [List.intercalate_cons_cons_left]
    simp only [List.head?_cons, ne_eq, Option.some.injEq]
    rintro rfl
    exact hca (by simp)

theorem getLast?_intercalate {c : α} {ns : List (List α)} (hns : Segments c ns) :
    ([c].intercalate ns).getLast? ≠ some c := by
  rcases List.eq_nil_or_concat ns with rfl | ⟨ms, z, rfl⟩
  · simp
  · rw [List.concat_eq_append] at hns ⊢
    obtain ⟨hz, hcz⟩ := hns z (by simp)
    -- the join ends with its last part
    have hsuffix : z <:+ [c].intercalate (ms ++ [z]) := by
      by_cases hm : ms = []
      · subst hm
        simp
      · rw [intercalate_append hm (List.cons_ne_nil _ _)]
        exact ⟨[c].intercalate ms ++ [c], by simp⟩
    obtain ⟨t, ht⟩ := hsuffix
    obtain ⟨x, hx⟩ := Option.ne_none_iff_exists'.mp (mt List.getLast?_eq_none_iff.mp hz)
    rw [← ht, List.getLast?_append, hx, Option.some_or]
    intro h
    obtain rfl : x = c := Option.some.inj h
    exact hcz (List.mem_of_getLast? hx)

/-- A join of non-empty parts, at least one, is not empty. -/
theorem length_intercalate_pos {c : α} {ns : List (List α)} (hns : Segments c ns) (h : ns ≠ []) :
    0 < ([c].intercalate ns).length := by
  obtain ⟨a, ns, rfl⟩ := List.exists_cons_of_ne_nil h
  obtain ⟨x, a, rfl⟩ := List.exists_cons_of_ne_nil (hns a List.mem_cons_self).1
  simp

/-- Cutting a join right after a prefix of whole parts leaves the separator and
    the join of the other parts. -/
theorem drop_intercalate_append (c : α) {ms : List (List α)} (hm : ms ≠ []) (rs : List (List α)) :
    ([c].intercalate (ms ++ rs)).drop ([c].intercalate ms).length =
      if rs = [] then [] else c :: [c].intercalate rs := by
  by_cases hr : rs = []
  · subst hr
    simp
  · rw [if_neg hr, intercalate_append hm hr, List.drop_left]

theorem length_intercalate_lt_append {c : α} (ms : List (List α)) {rs : List (List α)}
    (hrs : Segments c rs) (hr : rs ≠ []) :
    ([c].intercalate ms).length < ([c].intercalate (ms ++ rs)).length := by
  by_cases hm : ms = []
  · subst hm
    simpa using length_intercalate_pos hrs hr
  · rw [intercalate_append hm hr]
    simp

/-- Among prefixes of whole parts of one join, the longer join has more parts. -/
theorem length_intercalate_le_iff {c : α} {ms ms' ns : List (List α)} (hns : Segments c ns)
    (h : ms <+: ns) (h' : ms' <+: ns) :
    ([c].intercalate ms).length ≤ ([c].intercalate ms').length ↔ ms.length ≤ ms'.length := by
  have hseg : ∀ {ks rs : List (List α)}, ks ++ rs <+: ns → Segments c rs := fun hk a ha =>
    hns a (hk.subset (List.mem_append_right _ ha))
  constructor
  · intro hle
    by_contra hlt
    obtain ⟨rs, rfl⟩ := List.prefix_of_prefix_length_le h' h (by omega)
    have hr : rs ≠ [] := by rintro rfl; simp at hlt
    have := length_intercalate_lt_append ms' (hseg h) hr
    omega
  · intro hle
    obtain ⟨rs, rfl⟩ := List.prefix_of_prefix_length_le h h' hle
    by_cases hr : rs = []
    · subst hr
      simp
    · exact Nat.le_of_lt (length_intercalate_lt_append ms (hseg h') hr)

/-- A join that starts with `x` and the separator starts with the part `[x]`. -/
theorem head_of_prefix_intercalate {c x : α} {ns : List (List α)} (hns : Segments c ns)
    (h : [x, c] <+: [c].intercalate ns) : ns.head? = some [x] := by
  cases ns with
  | nil => simp at h
  | cons a ns =>
    obtain ⟨ha, hca⟩ := hns a List.mem_cons_self
    obtain ⟨y, a, rfl⟩ := List.exists_cons_of_ne_nil ha
    rw [List.intercalate_cons_cons_left, List.cons_prefix_cons] at h
    obtain ⟨rfl, h⟩ := h
    cases a with
    | cons z a =>
      rw [List.intercalate_cons_cons_left, List.cons_prefix_cons] at h
      exact absurd (h.1 ▸ List.mem_cons_of_mem _ List.mem_cons_self) hca
    | nil =>
      cases ns with
      | nil => simp at h
      | cons b ns => rfl

variable [DecidableEq α]

theorem trimMatches_cons_intercalate {c : α} {ns : List (List α)} (hns : Segments c ns) :
    trimMatches c (c :: [c].intercalate ns) = [c].intercalate ns := by
  rw [trimMatches, trimStartMatches_cons_self, ← trimMatches]
  exact trimMatches_of_ends (head?_intercalate hns) (getLast?_intercalate hns)

theorem startsWith_intercalate_append (c : α) (ms rs : List (List α)) :
    startsWith ([c].intercalate (ms ++ rs)) ([c].intercalate ms) = true := by
  rw [startsWith, List.isPrefixOf_iff_prefix]
  by_cases hm : ms = []
  · subst hm
    exact List.nil_prefix
  by_cases hr : rs = []
  · subst hr
    simp
  · rw [intercalate_append hm hr]
    exact List.prefix_append _ _

end Join

end ArceOS.Lib.Str
