import Mathlib

/-!
# Periods, Self-Maximal Words and Maximal Suffixes

Words are lists over a linear order, compared lexicographically: the first letter where
two words differ decides, and a proper prefix comes first. A period `q` of a word is a
shift that maps each letter onto an equal one. A word is self-maximal when none of its
suffixes is greater than it, and the maximal suffix of `x` starts at `ℓ` when no suffix
of `x` is greater than the one from `ℓ`.

These are the facts behind Duval's incremental computation of a maximal suffix. The
word read so far from the candidate start is self-maximal with a least period `p`, and
the next letter `b` is compared with the letter `p` places back, `a`:

- `b = a` keeps the word self-maximal with the same least period;
- `b < a` keeps it self-maximal, and its least period becomes its whole length;
- `b > a` makes the suffix from the last full period greater than every suffix that
  starts before it.

Comparisons are stated with `<` only: Mathlib's order on lists and the core one agree on
it, so the lemmas of both apply.

## Main results

- `SelfMax.le_of_hasPeriod`: in a self-maximal word, the letter a least period back
  from the end is at most the letter any longer period back;
- `SelfMax.append_of_le`, `IsMinPeriod.append_of_eq`, `IsMinPeriod.append_of_lt`: the
  cases `b = a` and `b < a`;
- `SelfMax.drop_lt_drop_of_lt`: the case `b > a`;
- `isMaxSuffix_of_selfMax`: a self-maximal suffix greater than every earlier one is the
  maximal suffix.
-/

namespace ArceOS.Lib.Words

variable {α : Type*}

/-! ## Section 1: Periods -/

/-- `q` is a period of `x`: the letter at `i` recurs at `i + q`. -/
def HasPeriod (x : List α) (q : ℕ) : Prop :=
  ∀ i, i + q < x.length → x[i]? = x[i + q]?

/-- `p` is the least positive period of `x`. -/
structure IsMinPeriod (x : List α) (p : ℕ) : Prop where
  pos : 0 < p
  period : HasPeriod x p
  least : ∀ r, 0 < r → r < p → ¬ HasPeriod x r

theorem hasPeriod_of_length_le {x : List α} {q : ℕ} (h : x.length ≤ q) : HasPeriod x q :=
  fun _ hi => absurd hi (by omega)

/-- A period repeats: the letter at `i` recurs at `i + c * q`. -/
theorem HasPeriod.getElem?_add_mul {x : List α} {q : ℕ} (hx : HasPeriod x q) (i : ℕ) :
    ∀ c, i + c * q < x.length → x[i]? = x[i + c * q]?
  | 0, _ => by simp
  | c + 1, h => by
    have hstep : i + (c + 1) * q = i + c * q + q := by rw [Nat.succ_mul, Nat.add_assoc]
    rw [hstep] at h ⊢
    rw [hx.getElem?_add_mul i c (by omega), hx _ h]

theorem HasPeriod.drop {x : List α} {q : ℕ} (hx : HasPeriod x q) (d : ℕ) :
    HasPeriod (x.drop d) q := by
  intro i hi
  rw [List.length_drop] at hi
  rw [List.getElem?_drop, List.getElem?_drop, hx (d + i) (by omega), Nat.add_assoc]

theorem HasPeriod.take {x : List α} {q : ℕ} (hx : HasPeriod x q) (n : ℕ) :
    HasPeriod (x.take n) q := by
  intro i hi
  rw [List.length_take] at hi
  rw [List.getElem?_take_of_lt (by omega), List.getElem?_take_of_lt (by omega),
    hx i (by omega)]

/-- A prefix agrees with the word at each of its letters. -/
theorem getElem?_eq_of_prefix {a b : List α} (h : a <+: b) {i : ℕ} (hi : i < a.length) :
    a[i]? = b[i]? := by
  rw [List.prefix_iff_getElem?.mp h i hi, List.getElem?_eq_getElem hi]

/-- A word has a period when its suffix from the period is a prefix of it. -/
theorem hasPeriod_of_prefix {x : List α} {q : ℕ} (h : x.drop q <+: x) : HasPeriod x q := by
  intro i hi
  have hlt : i < (x.drop q).length := by rw [List.length_drop]; omega
  rw [← getElem?_eq_of_prefix h hlt, List.getElem?_drop, Nat.add_comm]

theorem HasPeriod.of_append {w v : List α} {q : ℕ} (h : HasPeriod (w ++ v) q) :
    HasPeriod w q := by
  have := h.take w.length
  rwa [List.take_left' rfl] at this

theorem hasPeriod_map_iff {β : Type*} {f : α → β} (hf : Function.Injective f) {x : List α}
    {q : ℕ} : HasPeriod (x.map f) q ↔ HasPeriod x q := by
  simp only [HasPeriod, List.length_map, List.getElem?_map,
    Option.map_injective hf |>.eq_iff]

theorem IsMinPeriod.map_iff {β : Type*} {f : α → β} (hf : Function.Injective f) {x : List α}
    {p : ℕ} : IsMinPeriod (x.map f) p ↔ IsMinPeriod x p := by
  constructor
  · rintro ⟨hpos, hper, hleast⟩
    exact ⟨hpos, (hasPeriod_map_iff hf).mp hper,
      fun r hr hrp h => hleast r hr hrp ((hasPeriod_map_iff hf).mpr h)⟩
  · rintro ⟨hpos, hper, hleast⟩
    exact ⟨hpos, (hasPeriod_map_iff hf).mpr hper,
      fun r hr hrp h => hleast r hr hrp ((hasPeriod_map_iff hf).mp h)⟩

/-- The length of a nonempty word is one of its periods, so its least one is shorter. -/
theorem IsMinPeriod.le_length {x : List α} {p : ℕ} (h : IsMinPeriod x p)
    (hx : 0 < x.length) : p ≤ x.length :=
  Nat.le_of_not_lt fun hlt => h.least _ hx hlt (hasPeriod_of_length_le le_rfl)

/-- A single letter has least period one. -/
theorem isMinPeriod_singleton (a : α) : IsMinPeriod [a] 1 :=
  ⟨Nat.one_pos, hasPeriod_of_length_le le_rfl, fun _ hr hr1 => absurd hr1 (by omega)⟩

/-- Appending the letter a period back keeps the least period. -/
theorem IsMinPeriod.append_of_eq {w : List α} {p : ℕ} (h : IsMinPeriod w p)
    (hpw : p ≤ w.length) {b : α} (hb : w[w.length - p]? = some b) :
    IsMinPeriod (w ++ [b]) p := by
  refine ⟨h.pos, fun i hi => ?_, fun r hr hrp hper => h.least r hr hrp ?_⟩
  · have hpos := h.pos
    rw [List.length_append, List.length_singleton] at hi
    rw [List.getElem?_append_left (by omega)]
    rcases Nat.lt_or_ge (i + p) w.length with hlt | hge
    · rw [List.getElem?_append_left hlt, h.period i hlt]
    · -- the new last letter, `b`, is the letter `p` places back
      have hi' : i = w.length - p := by omega
      rw [hi', hb, List.getElem?_append_right (by omega)]
      simp [show w.length - p + p - w.length = 0 by omega]
  · exact hper.of_append

/-! ## Section 2: Comparing words letter by letter -/

/-- Two words that agree before `d` and differ at `d` compare as their letters at `d`. -/
theorem lt_of_agree [LT α] {a b : List α} {d : ℕ} (hagree : ∀ e < d, a[e]? = b[e]?)
    {u v : α} (ha : a[d]? = some u) (hb : b[d]? = some v) (huv : u < v) : a < b := by
  obtain ⟨hda, rfl⟩ := List.getElem?_eq_some_iff.mp ha
  obtain ⟨hdb, rfl⟩ := List.getElem?_eq_some_iff.mp hb
  refine List.lt_iff_exists.mpr (Or.inr ⟨d, hda, hdb, fun j hj => ?_, huv⟩)
  have := hagree j hj
  rwa [List.getElem?_eq_getElem (by omega), List.getElem?_eq_getElem (by omega),
    Option.some_inj] at this

/-- A word that agrees with a longer one on all its letters is a proper prefix of it. -/
theorem lt_of_agree_of_length_lt [LT α] {a b : List α}
    (hagree : ∀ e < a.length, a[e]? = b[e]?) (hlen : a.length < b.length) : a < b := by
  refine List.lt_iff_exists.mpr (Or.inl ⟨List.ext_getElem? fun e => ?_, hlen⟩)
  rw [List.getElem?_take]
  split_ifs with he
  · exact hagree e he
  · exact List.getElem?_eq_none (by omega)

/-- What `¬ a < b` says letter by letter: `b` is a prefix of `a`, or `b` is smaller at the
    first letter where the two differ. -/
theorem agree_or_lt_of_not_lt [LinearOrder α] {a b : List α} (h : ¬ a < b) :
    (∀ e < b.length, b[e]? = a[e]?) ∨
      ∃ d : ℕ, ∃ u v : α, (∀ e < d, b[e]? = a[e]?) ∧ b[d]? = some u ∧ a[d]? = some v ∧ u < v := by
  rcases List.le_iff_exists.mp h with hpre | ⟨d, hdb, hda, hbefore, hlt⟩
  · left
    intro e he
    rw [hpre, List.getElem?_take_of_lt he]
  · refine Or.inr ⟨d, b[d], a[d], fun e he => ?_, List.getElem?_eq_getElem hdb,
      List.getElem?_eq_getElem hda, hlt⟩
    rw [List.getElem?_eq_getElem (by omega), List.getElem?_eq_getElem (by omega),
      hbefore e he]

/-- A common prefix does not change how two words compare. -/
theorem lt_of_append_left_lt [LinearOrder α] {s a b : List α} (h : s ++ a < s ++ b) :
    a < b := by
  induction s with
  | nil => exact h
  | cons c s ih => exact ih (List.cons_lt_cons_self.mp h)

open OrderDual in
/-- A word smaller than `b` neither in the order of the letters nor in the reversed one
    has `b` as a prefix. -/
theorem prefix_of_not_lt_of_not_lt_dual [LinearOrder α] :
    ∀ {a b : List α}, ¬ a < b → ¬ a.map toDual < b.map toDual → b <+: a
  | _, [], _, _ => List.nil_prefix
  | [], c :: b, h, _ => absurd (List.nil_lt_cons c b) h
  | c :: a, d :: b, h₁, h₂ => by
    rw [List.cons_lt_cons_iff, not_or, not_and] at h₁
    rw [List.map_cons, List.map_cons, List.cons_lt_cons_iff, not_or, not_and] at h₂
    -- the first letters are equal, as neither order puts one below the other
    have hcd : c = d :=
      le_antisymm (not_lt.mp fun h => h₂.1 (toDual_lt_toDual.mpr h)) (not_lt.mp h₁.1)
    subst hcd
    exact (List.prefix_cons_inj c).mpr (prefix_of_not_lt_of_not_lt_dual (h₁.2 rfl) (h₂.2 rfl))

/-- A strictly monotone map of the letters keeps the order of words. -/
theorem map_lt_map_iff [LinearOrder α] {β : Type*} [LinearOrder β] {f : α → β}
    (hf : StrictMono f) {a b : List α} : a.map f < b.map f ↔ a < b := by
  refine ⟨fun h => ?_, List.map_lt fun _ _ h => hf h⟩
  rcases lt_trichotomy a b with hab | rfl | hba
  · exact hab
  · exact absurd h (lt_irrefl _)
  · exact absurd h (lt_asymm (List.map_lt (fun _ _ h => hf h) hba))

/-! ## Section 3: Self-maximal words -/

variable [LinearOrder α]

/-- No suffix of `w` is greater than `w`. -/
def SelfMax (w : List α) : Prop := ∀ t, ¬ w < w.drop t

theorem selfMax_singleton (a : α) : SelfMax [a] := by
  intro t
  cases t with
  | zero => exact lt_irrefl _
  | succ t => simp

/-- In a self-maximal word, the letter a period `p` back from the end is at most the
    letter a longer period `r` back: otherwise the suffix from `r - p` would be greater. -/
theorem SelfMax.le_of_hasPeriod {w : List α} (hw : SelfMax w) {p r : ℕ} (hp : HasPeriod w p)
    (hr : HasPeriod w r) (hpr : p ≤ r) (hrw : r ≤ w.length) {a c : α}
    (ha : w[w.length - p]? = some a) (hc : w[w.length - r]? = some c) : a ≤ c := by
  by_contra hlt
  rw [not_le] at hlt
  apply hw (r - p)
  refine lt_of_agree (d := w.length - r) (fun e he => ?_) hc ?_ hlt
  · rw [List.getElem?_drop]
    calc w[e]? = w[e + r]? := hr e (by omega)
      _ = w[r - p + e + p]? := by congr 1; omega
      _ = w[r - p + e]? := (hp _ (by omega)).symm
  · rw [List.getElem?_drop, show r - p + (w.length - r) = w.length - p by omega, ha]

section Extend

variable {w : List α} {p : ℕ} {a b : α}

/-- Extending a self-maximal word with a letter `b` at most the letter `a` a least period
    back: each proper suffix of the extension is smaller than it. -/
theorem SelfMax.drop_append_lt (hw : SelfMax w) (hmin : IsMinPeriod w p)
    (ha : w[w.length - p]? = some a) (hb : b ≤ a) {t : ℕ} (ht : 0 < t) (htw : t ≤ w.length) :
    w.drop t ++ [b] < w ++ [b] := by
  have hleft : ∀ e < w.length - t, (w.drop t ++ [b])[e]? = (w.drop t)[e]? := fun e he =>
    List.getElem?_append_left (by rw [List.length_drop]; omega)
  rcases agree_or_lt_of_not_lt (hw t) with hborder | ⟨d, u, v, hbefore, hu, hv, huv⟩
  · -- `w.drop t` is a prefix of `w`: `t` is a period, no shorter than `p`
    have hagree : ∀ e < w.length - t, (w.drop t ++ [b])[e]? = (w ++ [b])[e]? := fun e he => by
      rw [hleft e he, hborder e (by rw [List.length_drop]; omega),
        List.getElem?_append_left (by omega)]
    have hper : HasPeriod w t := fun i hi => by
      have := hborder i (by rw [List.length_drop]; omega)
      rw [List.getElem?_drop] at this
      rw [← this, Nat.add_comm]
    have hpt : p ≤ t := Nat.le_of_not_lt fun h => hmin.least t ht h hper
    obtain ⟨c, hc⟩ : ∃ c, w[w.length - t]? = some c :=
      ⟨_, List.getElem?_eq_getElem (by omega)⟩
    have hbc : b ≤ c := hb.trans (hw.le_of_hasPeriod hmin.period hper hpt htw ha hc)
    have hend : (w.drop t ++ [b])[w.length - t]? = some b := by
      rw [List.getElem?_append_right (by rw [List.length_drop]), List.length_drop, Nat.sub_self]
      rfl
    rcases hbc.lt_or_eq with hbc | rfl
    · -- the extensions first differ at the end of the border
      exact lt_of_agree (d := w.length - t) hagree hend
        (by rw [List.getElem?_append_left (by omega), hc]) hbc
    · -- the extended border is a proper prefix
      refine lt_of_agree_of_length_lt (fun e he => ?_) (by simp; omega)
      rw [List.length_append, List.length_drop, List.length_singleton] at he
      rcases Nat.lt_or_ge e (w.length - t) with he' | he'
      · exact hagree e he'
      · rw [show e = w.length - t by omega, hend, List.getElem?_append_left (by omega), hc]
  · -- the first difference of `w.drop t` from `w` is below, and stays below after `b`
    have hd : d < (w.drop t).length := (List.getElem?_eq_some_iff.mp hu).1
    have hdw : d < w.length := (List.getElem?_eq_some_iff.mp hv).1
    refine lt_of_agree (d := d) (fun e he => ?_) ?_ ?_ huv
    · rw [hleft e (by rw [List.length_drop] at hd; omega), hbefore e he,
        List.getElem?_append_left (by omega)]
    · rw [List.getElem?_append_left hd, hu]
    · rw [List.getElem?_append_left hdw, hv]

/-- `b = a` or `b < a`: the extension is self-maximal. -/
theorem SelfMax.append_of_le (hw : SelfMax w) (hmin : IsMinPeriod w p)
    (ha : w[w.length - p]? = some a) (hb : b ≤ a) : SelfMax (w ++ [b]) := by
  intro t
  rcases Nat.eq_zero_or_pos t with rfl | ht
  · exact lt_irrefl _
  rcases Nat.lt_or_ge w.length t with hwt | htw
  · rw [List.drop_eq_nil_of_le (by simp; omega)]
    exact List.not_lt_nil _
  · rw [List.drop_append_of_le_length htw]
    exact lt_asymm (hw.drop_append_lt hmin ha hb ht htw)

/-- `b < a`: the extension has no period shorter than itself, since `b` would then be the
    letter that period back, which is at least `a`. -/
theorem IsMinPeriod.append_of_lt (hw : SelfMax w) (hmin : IsMinPeriod w p)
    (ha : w[w.length - p]? = some a) (hb : b < a) :
    IsMinPeriod (w ++ [b]) (w.length + 1) := by
  refine ⟨Nat.succ_pos _, hasPeriod_of_length_le (by simp), fun r hr hrw hper => ?_⟩
  have hperw : HasPeriod w r := hper.of_append
  have hpr : p ≤ r := Nat.le_of_not_lt fun h => hmin.least r hr h hperw
  have hc : w[w.length - r]? = some b := by
    have := hper (w.length - r) (by simp; omega)
    rwa [List.getElem?_append_left (by omega), show w.length - r + r = w.length by omega,
      List.getElem?_append_right le_rfl, Nat.sub_self] at this
  exact absurd (hw.le_of_hasPeriod hmin.period hperw hpr (by omega) ha hc) (not_le.mpr hb)

end Extend

/-- `b > a`, where `a` is the letter a period `p` back and the word is `m` periods and
    `k - 1` letters long: the suffix from the last full period, which reads those `k - 1`
    letters and then `b`, is greater than every suffix that starts before it. -/
theorem SelfMax.drop_lt_drop_of_lt {w : List α} (hw : SelfMax w) {p : ℕ} (hp : HasPeriod w p)
    {m k : ℕ} (hlen : w.length = m * p + (k - 1)) {a b : α} (ha : w[k - 1]? = some a)
    (hab : a < b) (rest : List α) {t : ℕ} (ht : t < m * p) :
    (w ++ b :: rest).drop t < (w ++ b :: rest).drop (m * p) := by
  have hlast : ∀ e < k - 1, ((w ++ b :: rest).drop (m * p))[e]? = w[e]? := fun e he => by
    rw [List.getElem?_drop, List.getElem?_append_left (by omega), Nat.add_comm,
      hp.getElem?_add_mul e m (by omega)]
  have hb : ((w ++ b :: rest).drop (m * p))[k - 1]? = some b := by
    rw [List.getElem?_drop, List.getElem?_append_right (by omega),
      show m * p + (k - 1) - w.length = 0 by omega]
    rfl
  have hfrom : ∀ e < w.length - t, ((w ++ b :: rest).drop t)[e]? = (w.drop t)[e]? :=
    fun e he => by rw [List.getElem?_drop, List.getElem?_drop, List.getElem?_append_left (by omega)]
  obtain ⟨u', hu'⟩ : ∃ u', (w.drop t)[k - 1]? = some u' :=
    ⟨_, List.getElem?_eq_getElem (by rw [List.length_drop]; omega)⟩
  rcases agree_or_lt_of_not_lt (hw t) with hborder | ⟨d, u, v, hbefore, hu, hv, huv⟩
  · -- the suffix from `t` reads `w` up to `k - 1`, where `a < b`
    refine lt_of_agree (d := k - 1) (fun e he => ?_) ?_ hb hab
    · rw [hfrom e (by omega), hborder e (by rw [List.length_drop]; omega), hlast e he]
    · rw [hfrom _ (by omega), hborder _ (by rw [List.length_drop]; omega), ha]
  · have hd : d < (w.drop t).length := (List.getElem?_eq_some_iff.mp hu).1
    rw [List.length_drop] at hd
    rcases Nat.lt_or_ge d (k - 1) with hdk | hdk
    · -- the first difference from `w` comes before `k - 1`
      refine lt_of_agree (d := d) (fun e he => ?_) ?_ ?_ huv
      · rw [hfrom e (by omega), hbefore e he, hlast e (by omega)]
      · rw [hfrom d hd, hu]
      · rw [hlast d hdk, hv]
    · -- up to `k - 1` the suffix reads `w`, and there a letter at most `a`
      have hu'a : u' ≤ a := by
        rcases hdk.lt_or_eq with hdk | rfl
        · rw [hbefore _ hdk, ha, Option.some_inj] at hu'
          exact hu'.ge
        · rw [hu, Option.some_inj] at hu'
          rw [ha, Option.some_inj] at hv
          exact hu' ▸ hv ▸ huv.le
      refine lt_of_agree (d := k - 1) (fun e he => ?_) ?_ hb (lt_of_le_of_lt hu'a hab)
      · rw [hfrom e (by omega), hbefore e (by omega), hlast e he]
      · rw [hfrom _ (by omega), hu']

/-! ## Section 4: Maximal suffixes -/

/-- `ℓ` starts the maximal suffix of `x`: no suffix of `x` is greater than the one from `ℓ`. -/
structure IsMaxSuffix (x : List α) (ℓ : ℕ) : Prop where
  lt_length : ℓ < x.length
  not_lt : ∀ j, ¬ x.drop ℓ < x.drop j

/-- A self-maximal suffix that is greater than every suffix starting before it is the
    maximal suffix. -/
theorem isMaxSuffix_of_selfMax {x : List α} {i : ℕ} (hi : i < x.length)
    (hbefore : ∀ j < i, x.drop j < x.drop i) (hself : SelfMax (x.drop i)) :
    IsMaxSuffix x i := by
  refine ⟨hi, fun j => ?_⟩
  rcases Nat.lt_or_ge j i with hj | hj
  · exact lt_asymm (hbefore j hj)
  · have := hself (j - i)
    rwa [List.drop_drop, Nat.add_sub_cancel' hj] at this

theorem isMaxSuffix_map_iff {β : Type*} [LinearOrder β] {f : α → β} (hf : StrictMono f)
    {x : List α} {ℓ : ℕ} : IsMaxSuffix (x.map f) ℓ ↔ IsMaxSuffix x ℓ := by
  constructor
  · rintro ⟨hlt, hmax⟩
    refine ⟨by simpa using hlt, fun j h => hmax j ?_⟩
    rw [← List.map_drop, ← List.map_drop]
    exact (map_lt_map_iff hf).mpr h
  · rintro ⟨hlt, hmax⟩
    refine ⟨by simpa using hlt, fun j h => hmax j ?_⟩
    rw [← List.map_drop, ← List.map_drop] at h
    exact (map_lt_map_iff hf).mp h

end ArceOS.Lib.Words
