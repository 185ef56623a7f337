import ArceOS.Lib.Periods

/-!
# Critical Factorizations

A matcher that splits its pattern `x` as `u v` at `ℓ = |u|`, and compares `v` first, may
shift past a mismatch by as much as it has matched of `v` when `ℓ` is critical: every
repetition around `ℓ` is a period of `x` (Crochemore and Perrin). `Critical` states the
two repetitions such a matcher meets: a word of at most `ℓ` letters that ends `u` and
starts `v` does not exist, and a prefix of `v` that ends with `u` is a period of `x`.

Such a point comes from maximal suffixes. Take the maximal suffix for the order of the
letters and the one for the reversed order, and let `v` be the shorter. A repetition of
the first kind would make a suffix greater than `v`. For one of the second kind, the
suffix of `x` that many letters after `v` starts is below `v` in both orders, so it is a
prefix of `v`.

With `p` the least period of `v`, the rest is about periods of `x`: a period of `x` that
fits in `v` and lies beyond `ℓ` makes `p` a period of `x`, by strong induction on the
period, each difference of two periods being a repetition of one kind or the other.

## Main results

- `critical_of_isMaxSuffix`, `critical_of_isMaxSuffix_dual`: the later start of the two
  maximal suffixes is critical;
- `hasPeriod_of_agree`, `Critical.lt_of_hasPeriod`: when `u` recurs `p` places on, `p` is
  a period of `x` and lies beyond `ℓ`;
- `Critical.agree_of_hasPeriod`: a period of `x` beyond `ℓ` that fits in `v` makes `u`
  recur `p` places on.
-/

namespace ArceOS.Lib.Words

variable {α : Type*}

/-! ## Section 1: Critical points -/

/-- `ℓ` is a critical point of `x`: no word of at most `ℓ` letters both ends the part
    before `ℓ` and starts the part after it, and a prefix of the part after `ℓ` that ends
    with the part before it is a period of `x`. -/
structure Critical (x : List α) (ℓ : ℕ) : Prop where
  lt_length : ℓ < x.length
  not_square : ∀ s, 0 < s → s ≤ ℓ → ¬ ∀ i < min s (x.length - ℓ), x[ℓ - s + i]? = x[ℓ + i]?
  hasPeriod : ∀ r, ℓ < r → r ≤ x.length - ℓ → (∀ i < ℓ, x[i]? = x[r + i]?) → HasPeriod x r

theorem critical_map_iff {β : Type*} {f : α → β} (hf : Function.Injective f) {x : List α}
    {ℓ : ℕ} : Critical (x.map f) ℓ ↔ Critical x ℓ := by
  have heq : ∀ i j, (x.map f)[i]? = (x.map f)[j]? ↔ x[i]? = x[j]? := fun i j => by
    rw [List.getElem?_map, List.getElem?_map, (Option.map_injective hf).eq_iff]
  constructor
  · rintro ⟨hlt, hsq, hper⟩
    refine ⟨by simpa using hlt, fun s hs hsℓ h => hsq s hs hsℓ fun i hi => ?_,
      fun r hr hrv hu => (hasPeriod_map_iff hf).mp (hper r hr (by simpa using hrv)
        fun i hi => (heq _ _).mpr (hu i hi))⟩
    rw [List.length_map] at hi
    exact (heq _ _).mpr (h i hi)
  · rintro ⟨hlt, hsq, hper⟩
    refine ⟨by simpa using hlt, fun s hs hsℓ h => hsq s hs hsℓ fun i hi => ?_,
      fun r hr hrv hu => (hasPeriod_map_iff hf).mpr (hper r hr (by simpa using hrv)
        fun i hi => (heq _ _).mp (hu i hi))⟩
    rw [← List.length_map (f := f)] at hi
    exact (heq _ _).mp (h i hi)

/-! ## Section 2: The later maximal suffix starts a critical point -/

section MaxSuffix

variable [LinearOrder α] {x : List α} {ℓ : ℕ}

/-- A word of `s ≤ ℓ` letters that ends `u` and starts `v` makes the suffix from `ℓ - s`
    greater than the maximal suffix `v`: `v` is a proper prefix of it, or `v = w v''` and
    it is `w v` with `v'' < v`. -/
theorem IsMaxSuffix.not_square (hx : IsMaxSuffix x ℓ) {s : ℕ} (hs : 0 < s) (hsℓ : s ≤ ℓ)
    (hagree : ∀ i < min s (x.length - ℓ), x[ℓ - s + i]? = x[ℓ + i]?) : False := by
  have hℓ := hx.lt_length
  rcases le_or_gt (x.length - ℓ) s with hle | hlt
  · refine hx.not_lt (ℓ - s) (lt_of_agree_of_length_lt (fun e he => ?_) (by simp; omega))
    rw [List.length_drop] at he
    rw [List.getElem?_drop, List.getElem?_drop, hagree e (by omega)]
  · have hsuffix : x.drop (ℓ + s) < x.drop ℓ := by
      rcases lt_trichotomy (x.drop ℓ) (x.drop (ℓ + s)) with h | h | h
      · exact absurd h (hx.not_lt _)
      · have := congrArg List.length h
        simp only [List.length_drop] at this
        omega
      · exact h
    have hv : x.drop ℓ = (x.drop ℓ).take s ++ x.drop (ℓ + s) := by
      rw [← List.drop_drop, List.take_append_drop]
    have htake : (x.drop (ℓ - s)).take s = (x.drop ℓ).take s := by
      apply List.ext_getElem?
      intro e
      rw [List.getElem?_take, List.getElem?_take]
      split_ifs with he
      · rw [List.getElem?_drop, List.getElem?_drop, hagree e (by omega)]
      · rfl
    have hleft : x.drop (ℓ - s) = (x.drop ℓ).take s ++ x.drop ℓ := by
      have := List.take_append_drop s (x.drop (ℓ - s))
      rwa [List.drop_drop, show ℓ - s + s = ℓ by omega, htake, eq_comm] at this
    refine hx.not_lt (ℓ - s) ?_
    calc x.drop ℓ = (x.drop ℓ).take s ++ x.drop (ℓ + s) := hv
      _ < (x.drop ℓ).take s ++ x.drop ℓ := List.append_left_lt hsuffix
      _ = x.drop (ℓ - s) := hleft.symm

open OrderDual in
/-- Let `v` start at `ℓ`, the maximal suffix, and let the maximal suffix for the reversed
    order start at `ℓ' ≤ ℓ`. If `u` recurs `r` places on, the suffix
    `r` places after `v` is below `v` in both orders, so it is a prefix of `v`: `r` is a
    period of `x`. No bound on `r` is needed. -/
theorem IsMaxSuffix.hasPeriod_of_agree (hx : IsMaxSuffix x ℓ) {ℓ' : ℕ}
    (hd : IsMaxSuffix (x.map toDual) ℓ') (hle : ℓ' ≤ ℓ) {r : ℕ}
    (hu : ∀ i < ℓ, x[i]? = x[r + i]?) : HasPeriod x r := by
  -- the part of `u` from `ℓ'` also stands `r` places on
  have htake : (x.drop (r + ℓ')).take (ℓ - ℓ') = (x.drop ℓ').take (ℓ - ℓ') := by
    apply List.ext_getElem?
    intro e
    rw [List.getElem?_take, List.getElem?_take]
    split_ifs with he
    · rw [List.getElem?_drop, List.getElem?_drop, hu (ℓ' + e) (by omega), Nat.add_assoc]
    · rfl
  have hshift : x.drop (r + ℓ') = (x.drop ℓ').take (ℓ - ℓ') ++ x.drop (ℓ + r) := by
    have := List.take_append_drop (ℓ - ℓ') (x.drop (r + ℓ'))
    rwa [List.drop_drop, show r + ℓ' + (ℓ - ℓ') = ℓ + r by omega, htake, eq_comm] at this
  have hsplit : x.drop ℓ' = (x.drop ℓ').take (ℓ - ℓ') ++ x.drop ℓ := by
    have := List.take_append_drop (ℓ - ℓ') (x.drop ℓ')
    rwa [List.drop_drop, show ℓ' + (ℓ - ℓ') = ℓ by omega, eq_comm] at this
  have h₁ : ¬ x.drop ℓ < x.drop (ℓ + r) := hx.not_lt _
  have h₂ : ¬ (x.drop ℓ).map toDual < (x.drop (ℓ + r)).map toDual := by
    intro h
    apply hd.not_lt (r + ℓ')
    rw [← List.map_drop, ← List.map_drop, hshift, List.map_append]
    conv_lhs => rw [hsplit, List.map_append]
    exact List.append_left_lt h
  have hpre := prefix_of_not_lt_of_not_lt_dual h₁ h₂
  intro i hi
  rcases Nat.lt_or_ge i ℓ with hiℓ | hiℓ
  · rw [hu i hiℓ, Nat.add_comm]
  · have := getElem?_eq_of_prefix hpre (i := i - ℓ) (by simp; omega)
    rw [List.getElem?_drop, List.getElem?_drop, show ℓ + r + (i - ℓ) = i + r by omega,
      show ℓ + (i - ℓ) = i by omega] at this
    exact this.symm

open OrderDual in
/-- The start of the maximal suffix is critical when the maximal suffix for the reversed
    order starts no later. -/
theorem critical_of_isMaxSuffix (hx : IsMaxSuffix x ℓ) {ℓ' : ℕ}
    (hd : IsMaxSuffix (x.map toDual) ℓ') (hle : ℓ' ≤ ℓ) : Critical x ℓ :=
  ⟨hx.lt_length, fun _ hs hsℓ h => hx.not_square hs hsℓ h,
    fun _ _ _ hu => hx.hasPeriod_of_agree hd hle hu⟩

open OrderDual in
/-- The same with the two orders exchanged. -/
theorem critical_of_isMaxSuffix_dual (hx : IsMaxSuffix (x.map toDual) ℓ) {ℓ' : ℕ}
    (hd : IsMaxSuffix x ℓ') (hle : ℓ' ≤ ℓ) : Critical x ℓ := by
  have hd' : IsMaxSuffix ((x.map toDual).map toDual) ℓ' := by
    rw [List.map_map]
    exact (isMaxSuffix_map_iff (f := toDual ∘ toDual) fun _ _ h => h).mpr hd
  exact (critical_map_iff toDual.injective).mp (critical_of_isMaxSuffix hx hd' hle)

end MaxSuffix

/-! ## Section 3: Periods at a critical point -/

section Period

variable {x : List α} {ℓ p : ℕ}

/-- A period of the part after `ℓ`, read in `x`. -/
theorem HasPeriod.getElem?_of_drop (h : HasPeriod (x.drop ℓ) p) {i : ℕ}
    (hi : i + p < x.length - ℓ) : x[ℓ + i]? = x[ℓ + (i + p)]? := by
  have := h i (by rw [List.length_drop]; omega)
  rwa [List.getElem?_drop, List.getElem?_drop] at this

/-- When `u` recurs `p` places on and `p` is a period of `v`, `p` is a period of `x`. -/
theorem hasPeriod_of_agree (hp : HasPeriod (x.drop ℓ) p)
    (hu : ∀ i < ℓ, x[i]? = x[p + i]?) : HasPeriod x p := by
  intro i hi
  rcases Nat.lt_or_ge i ℓ with hiℓ | hiℓ
  · rw [hu i hiℓ, Nat.add_comm]
  · have := hp.getElem?_of_drop (i := i - ℓ) (by omega)
    rwa [show ℓ + (i - ℓ) = i by omega, show ℓ + (i - ℓ + p) = i + p by omega] at this

/-- At a critical point, a period of `x` that fits in `v` lies beyond `ℓ`: one at most `ℓ`
    would be a square at `ℓ`. -/
theorem Critical.lt_of_hasPeriod (hc : Critical x ℓ) (hp : HasPeriod x p) (hpos : 0 < p)
    (hpv : p ≤ x.length - ℓ) : ℓ < p := by
  by_contra hle
  apply hc.not_square p hpos (by omega)
  intro i hi
  rw [hp (ℓ - p + i) (by omega)]
  congr 1
  omega

/-- At a critical point, a period `s` of `x` with `ℓ < s ≤ |v|` makes `u` recur `p` places
    on, `p` the least period of `v`. The least period is at most `s`; when it is less,
    `s - p` is a square at `ℓ` if it is at most `ℓ`, and otherwise a shorter period of `x`
    beyond `ℓ`, to which the induction applies. -/
theorem Critical.agree_of_hasPeriod (hc : Critical x ℓ) (hp : IsMinPeriod (x.drop ℓ) p) :
    ∀ s, ℓ < s → s ≤ x.length - ℓ → HasPeriod x s → ∀ i < ℓ, x[i]? = x[p + i]? := by
  intro s
  induction s using Nat.strong_induction_on with
  | _ s ih =>
  intro hs hsv hper
  have hpos := hp.pos
  have hps : p ≤ s := Nat.le_of_not_lt fun h => hp.least s (by omega) h (hper.drop ℓ)
  rcases hps.lt_or_eq with hps | rfl
  · rcases le_or_gt (s - p) ℓ with hr | hr
    · -- `s - p` letters end `u` and start `v`
      exfalso
      apply hc.not_square (s - p) (by omega) hr
      intro i hi
      calc x[ℓ - (s - p) + i]? = x[ℓ - (s - p) + i + s]? := hper _ (by omega)
        _ = x[ℓ + (i + p)]? := by congr 1; omega
        _ = x[ℓ + i]? := (hp.period.getElem?_of_drop (by omega)).symm
    · -- `u` recurs `s - p` places on, a shorter period beyond `ℓ`
      have hagree : ∀ i < ℓ, x[i]? = x[s - p + i]? := fun i hi =>
        calc x[i]? = x[i + s]? := hper i (by omega)
          _ = x[ℓ + (s - p + i - ℓ + p)]? := by congr 1; omega
          _ = x[ℓ + (s - p + i - ℓ)]? := (hp.period.getElem?_of_drop (by omega)).symm
          _ = x[s - p + i]? := by congr 1; omega
      exact ih (s - p) (by omega) hr (by omega) (hc.hasPeriod (s - p) hr (by omega) hagree)
  · intro i hi
    rw [hper i (by omega), Nat.add_comm]

end Period

end ArceOS.Lib.Words
