import ArceOS.Libc.Twoway

/-!
# The Search Loop of the Two-Way Search

The search loop of `twoway_strstr` moves a window `h` over the haystack and carries
`SearchInv`: the end pointer `z` stays between the window and the end of the haystack, no
occurrence starts before `h`, and the first `mem` bytes of the needle are known to match at
`h`. Each round either returns the first occurrence or moves the window on and keeps the
invariant (`searchStep_spec`), and `|h| + 1` rounds suffice (`searchLoop_eq`).

The rounds differ in the shift, and each shift passes over no occurrence:

- the window's last byte is not in the needle: no occurrence covers it;
- it is, at index `shift[c] - 1` last: an occurrence closer than `l - shift[c]` would put a
  later copy of it under the window's last byte; raising the shift to `mem` is safe since,
  with the needle periodic, an occurrence within the remembered bytes would put the
  needle's own last byte there;
- the right part mismatches at `k`: an occurrence at most `k - ℓ` on is a square at `ℓ`
  or makes its distance a period, both ruled out at the critical point;
- the right part matches and the left part does not: an occurrence closer than `p` is a
  square or a period of the needle beyond `ℓ`, which a periodic needle does not have below
  its least period and an aperiodic one not below its length past `ℓ`.

`strstr` hands needles of five bytes or more to this search, so it finds the first
occurrence of every needle.

## Main results

- `SearchSetup.searchStep_spec`, `SearchSetup.searchLoop_eq`: the search loop;
- `twowayStrstr_eq`: `twoway_strstr` finds the first occurrence of every nonempty needle;
- `strstr_eq_firstOccurrence`: `strstr` finds the first occurrence of every needle.
-/

namespace ArceOS.Libc

open ArceOS.Lib.Words

/-! ## §1 Occurrences -/

/-- The needle `n` stands in the haystack `hay` from offset `q`. -/
def OccursAt (hay n : List UInt8) (q : ℕ) : Prop :=
  q + n.length ≤ hay.length ∧ ∀ i < n.length, byteAt hay (q + i) = byteAt n i

section Occurs

variable {hay n : List UInt8}

theorem byteAt_mem_of_lt {i : ℕ} (hi : i < n.length) : byteAt n i ∈ n := by
  rw [byteAt_of_lt hi]
  exact List.getElem_mem hi

/-- For a nonempty needle, the test of the plain search is `OccursAt`. -/
theorem isPrefixOf_drop_iff (hn : 0 < n.length) {q : ℕ} :
    n.isPrefixOf (hay.drop q) = true ↔ OccursAt hay n q := by
  rw [List.isPrefixOf_iff_prefix, List.prefix_iff_getElem?]
  constructor
  · intro h
    have hlen : q + n.length ≤ hay.length := by
      have := h (n.length - 1) (by omega)
      rw [List.getElem?_drop] at this
      have := (List.getElem?_eq_some_iff.mp this).1
      omega
    refine ⟨hlen, fun i hi => ?_⟩
    have := h i hi
    rw [List.getElem?_drop, List.getElem?_eq_getElem (by omega), Option.some_inj] at this
    rw [byteAt_of_lt (by omega), byteAt_of_lt hi, this]
  · rintro ⟨hlen, hbytes⟩ i hi
    rw [List.getElem?_drop, List.getElem?_eq_getElem (by omega), ← byteAt_of_lt (by omega),
      hbytes i hi, byteAt_of_lt hi]

/-- An occurrence with none before it is the first. -/
theorem firstOccurrence_eq_some_of (hn : 0 < n.length) {q : ℕ} (hq : OccursAt hay n q)
    (hbefore : ∀ q' < q, ¬ OccursAt hay n q') : firstOccurrence hay n = some q := by
  rw [firstOccurrence, List.find?_range_eq_some]
  refine ⟨(isPrefixOf_drop_iff hn).mpr hq, List.mem_range.mpr (by have := hq.1; omega),
    fun j hj => ?_⟩
  cases hp : n.isPrefixOf (hay.drop j)
  · rfl
  · exact absurd ((isPrefixOf_drop_iff hn).mp hp) (hbefore j hj)

theorem firstOccurrence_eq_none_of (hn : 0 < n.length) (hnone : ∀ q, ¬ OccursAt hay n q) :
    firstOccurrence hay n = none := by
  rw [firstOccurrence, List.find?_eq_none]
  intro q _ h
  exact hnone q ((isPrefixOf_drop_iff hn).mp h)

/-- A byte of the haystack under an occurrence is the needle's byte there. -/
theorem OccursAt.byteAt_eq {q : ℕ} (ho : OccursAt hay n q) {i : ℕ} (hqi : q ≤ i)
    (hi : i < q + n.length) : byteAt hay i = byteAt n (i - q) := by
  rw [← ho.2 (i - q) (by omega), Nat.add_sub_cancel' hqi]

/-- A byte matched at `h + i` under an occurrence at `h + s` recurs `s` places back in the
    needle. -/
theorem OccursAt.byteAt_sub_eq {h s i : ℕ} (ho : OccursAt hay n (h + s))
    (hmatch : byteAt hay (h + i) = byteAt n i) (hsi : s ≤ i) (hi : i < n.length) :
    byteAt n (i - s) = byteAt n i := by
  rw [← hmatch, ho.byteAt_eq (i := h + i) (by omega) (by omega)]
  congr 1
  omega

/-- A period of the needle, read by `byteAt`. -/
theorem byteAt_eq_of_hasPeriod {P : ℕ} (hper : HasPeriod n P) {i : ℕ} (hi : i + P < n.length) :
    byteAt n i = byteAt n (i + P) :=
  (getElem?_eq_getElem?_iff (by omega) hi).mp (hper i hi)

end Occurs

/-! ## §2 What the search rests on -/

/-- The search's data: C strings, a nonempty needle, its tables and a factorization that
    meets `FactorSpec` with `P` the least period of the right part. -/
structure SearchSetup (n hay : List UInt8) (t : Tables) (f : Factor) (P : ℕ) : Prop where
  needle_nul : 0 ∉ n
  hay_nul : 0 ∉ hay
  pos : 0 < n.length
  l_eq : t.l = n.length
  tables : Tables.Inv n t
  factor : FactorSpec n f P

namespace SearchSetup

variable {n hay : List UInt8} {t : Tables} {f : Factor} {P : ℕ}

theorem byteAt_needle_eq_zero_iff (hS : SearchSetup n hay t f P) {k : ℕ} :
    byteAt n k = 0 ↔ n.length ≤ k :=
  CStr.byteAt_eq_zero_iff ⟨n, hS.needle_nul⟩ k

/-- The byte set holds the needle's bytes. -/
theorem bitsetHas_eq (hS : SearchSetup n hay t f P) (c : UInt8) :
    bitsetHas t.byteset c = decide (c ∈ n) := by
  rw [hS.tables.byteset, hS.l_eq, List.take_length]

/-- `shift[c]` is one past the last index of a byte `c` of the needle. -/
theorem shift_spec (hS : SearchSetup n hay t f P) {c : UInt8} (hc : c ∈ n) :
    0 < t.shift c ∧ t.shift c ≤ n.length ∧ byteAt n (t.shift c - 1) = c ∧
      ∀ j, t.shift c ≤ j → j < n.length → byteAt n j ≠ c := by
  have := hS.tables.shift c (by rw [hS.l_eq, List.take_length]; exact hc)
  rwa [hS.l_eq] at this

/-- The needle's last byte is its own last occurrence: its shift is the whole needle. -/
theorem shift_last (hS : SearchSetup n hay t f P) :
    t.shift (byteAt n (n.length - 1)) = n.length := by
  have hl := hS.pos
  have hlast : byteAt n (n.length - 1) ∈ n := byteAt_mem_of_lt (by omega)
  obtain ⟨hpos, hle, _, hafter⟩ := hS.shift_spec hlast
  by_contra hne
  exact hafter (n.length - 1) (by omega) (by omega) rfl

theorem start_lt (hS : SearchSetup n hay t f P) : f.start < n.length :=
  hS.factor.critical.lt_length

/-- `ms + 1` as an integer. -/
theorem start_eq (hS : SearchSetup n hay t f P) : (f.start : ℤ) = f.ms + 1 := by
  have := hS.factor.ms_ge
  simp only [Factor.start]
  omega

/-- For a periodic needle, `P` is a period of it, beyond `ℓ` and within the right part. -/
theorem periodic_spec (hS : SearchSetup n hay t f P)
    (hagree : ∀ i < f.start, n[i]? = n[P + i]?) :
    HasPeriod n P ∧ f.start < P ∧ P ≤ n.length - f.start := by
  have hmin := hS.factor.minPeriod
  have hPv := hmin.le_length (by rw [List.length_drop]; have := hS.start_lt; omega)
  rw [List.length_drop] at hPv
  have hper := hasPeriod_of_agree hmin.period hagree
  exact ⟨hper, hS.factor.critical.lt_of_hasPeriod hper hmin.pos hPv, hPv⟩

end SearchSetup

/-! ## §3 The end pointer -/

/-- `memchr` for the NUL, from inside a C string, finds its end when the range reaches it. -/
theorem memchr_nul {hay : List UInt8} (hnul : 0 ∉ hay) :
    ∀ (m z : ℕ), z ≤ hay.length →
      memchr (byteAt hay) z 0 m = if hay.length < z + m then some hay.length else none
  | 0, z, hz => by
    rw [memchr, if_neg (by omega)]
  | m + 1, z, hz => by
    have hzero : UInt8.ofInt 0 = 0 := rfl
    have hend : byteAt hay z = 0 ↔ hay.length ≤ z := CStr.byteAt_eq_zero_iff ⟨hay, hnul⟩ z
    rw [memchr, hzero]
    rcases Nat.lt_or_ge z hay.length with hlt | hge
    · rw [if_neg (by rw [hend]; omega), memchr_nul hnul m (z + 1) hlt,
        show z + 1 + m = z + (m + 1) by omega]
    · rw [if_pos (hend.mpr hge), if_pos (by omega), show z = hay.length by omega]

/-- The end pointer ends the search when the haystack is shorter than a window from `h`,
    and otherwise lies past the window and within the haystack. -/
theorem growEnd_spec {hay : List UInt8} (hnul : 0 ∉ hay) {l h z : ℕ} (hz : h ≤ z)
    (hzl : z ≤ hay.length) :
    (growEnd hay l h z = none ∧ hay.length < h + l) ∨
      ∃ z', growEnd hay l h z = some z' ∧ h + l ≤ z' ∧ z' ≤ hay.length := by
  have hgrow : l ≤ l ||| 63 := Nat.left_le_or
  rw [growEnd]
  split_ifs with hzh
  · rw [memchr_nul hnul _ z hzl]
    by_cases hend : hay.length < z + (l ||| 63)
    · -- the NUL is within reach: `z` moves to it
      rw [if_pos hend]
      dsimp only
      split_ifs with hlt
      · exact Or.inl ⟨rfl, by omega⟩
      · exact Or.inr ⟨_, rfl, by omega, le_rfl⟩
    · rw [if_neg hend]
      exact Or.inr ⟨_, rfl, by omega, by omega⟩
  · exact Or.inr ⟨z, rfl, by omega, hzl⟩

/-! ## §4 The two comparisons -/

/-- The right-half loop stops at the end of the needle or at its first mismatch, having
    matched every byte between. -/
theorem rightHalf_spec {n : List UInt8} (hnul : 0 ∉ n) (hay : List UInt8) (h : ℕ) :
    ∀ (fuel k : ℕ), k ≤ n.length → n.length - k ≤ fuel →
      k ≤ rightHalf n hay h fuel k ∧ rightHalf n hay h fuel k ≤ n.length ∧
      (∀ i, k ≤ i → i < rightHalf n hay h fuel k → byteAt hay (h + i) = byteAt n i) ∧
      (rightHalf n hay h fuel k < n.length →
        byteAt hay (h + rightHalf n hay h fuel k) ≠ byteAt n (rightHalf n hay h fuel k))
  | 0, k, hk, hfuel => by
    simp only [rightHalf]
    exact ⟨le_rfl, hk, fun i hi hi' => absurd hi' (by omega), fun hlt => absurd hlt (by omega)⟩
  | fuel + 1, k, hk, hfuel => by
    rw [rightHalf]
    split_ifs with hm
    · -- byte `k` matches: the loop goes on from `k + 1`
      have hkl : k < n.length := by
        have := hm.1
        rwa [ne_eq, CStr.byteAt_eq_zero_iff ⟨n, hnul⟩, not_le] at this
      obtain ⟨h1, h2, h3, h4⟩ := rightHalf_spec hnul hay h fuel (k + 1) hkl (by omega)
      refine ⟨by omega, h2, fun i hi hi' => ?_, h4⟩
      rcases Nat.lt_or_ge k i with hki | hki
      · exact h3 i hki hi'
      · rw [show i = k by omega]
        exact hm.2.symm
    · -- the loop stops at `k`: the end of the needle, or a mismatch
      refine ⟨le_rfl, hk, fun i hi hi' => absurd hi' (by omega),
        fun hlt heq => hm ⟨?_, heq.symm⟩⟩
      rw [ne_eq, CStr.byteAt_eq_zero_iff ⟨n, hnul⟩, not_le]
      exact hlt

/-- The left-half loop stops at `mem` or below its first mismatch, having matched every
    byte between. -/
theorem leftHalf_spec (n hay : List UInt8) (h mem : ℕ) :
    ∀ k : ℕ, leftHalf n hay h mem k ≤ k ∧
      (∀ i, leftHalf n hay h mem k ≤ i → i < k → byteAt hay (h + i) = byteAt n i) ∧
      (mem < leftHalf n hay h mem k →
        byteAt n (leftHalf n hay h mem k - 1) ≠ byteAt hay (h + (leftHalf n hay h mem k - 1)))
  | 0 => by
    simp only [leftHalf]
    exact ⟨le_rfl, fun i hi hi' => absurd hi' (by omega), fun hlt => absurd hlt (by omega)⟩
  | k + 1 => by
    rw [leftHalf]
    split_ifs with hm
    · obtain ⟨h1, h2, h3⟩ := leftHalf_spec n hay h mem k
      refine ⟨by omega, fun i hi hi' => ?_, h3⟩
      rcases Nat.lt_or_ge i k with hik | hik
      · exact h2 i hi hik
      · rw [show i = k by omega]
        exact hm.2.symm
    · refine ⟨le_rfl, fun i hi hi' => absurd hi' (by omega), fun hlt heq => hm ⟨hlt, ?_⟩⟩
      rwa [show k + 1 - 1 = k by omega] at heq

/-! ## §5 The shifts pass over no occurrence -/

section Shifts

variable {n hay : List UInt8}

/-- The window's last byte is not in the needle: no occurrence covers it. -/
theorem not_occursAt_of_not_mem {h : ℕ} (hc : byteAt hay (h + n.length - 1) ∉ n) {s : ℕ}
    (hs : s < n.length) : ¬ OccursAt hay n (h + s) := by
  intro ho
  apply hc
  rw [ho.byteAt_eq (i := h + n.length - 1) (by omega) (by omega)]
  exact byteAt_mem_of_lt (by omega)

/-- With the first `l - P` bytes matched at `h` and `P` a period, an occurrence within them
    puts the needle's last byte under the window's last byte. -/
theorem last_eq_of_occursAt_mem {P : ℕ} (hper : HasPeriod n P) {h : ℕ}
    (hmatched : ∀ i < n.length - P, byteAt hay (h + i) = byteAt n i) {s : ℕ}
    (hs : s < n.length - P) (ho : OccursAt hay n (h + s)) :
    byteAt hay (h + n.length - 1) = byteAt n (n.length - 1) := by
  -- back one period from the last byte, into the matched bytes, and forward again
  set j := n.length - 1 - s - P with hj
  calc byteAt hay (h + n.length - 1) = byteAt n (j + P) := by
        rw [ho.byteAt_eq (i := h + n.length - 1) (by omega) (by omega)]
        congr 1
        omega
    _ = byteAt n j := (byteAt_eq_of_hasPeriod hper (i := j) (by omega)).symm
    _ = byteAt hay (h + (j + s)) := by
        rw [ho.byteAt_eq (i := h + (j + s)) (by omega) (by omega)]
        congr 1
        omega
    _ = byteAt n (j + s) := hmatched _ (by omega)
    _ = byteAt n (n.length - 1) := by
        rw [byteAt_eq_of_hasPeriod hper (i := j + s) (by omega)]
        congr 1
        omega

/-- At a critical position `ℓ`, no shift `0 < s ≤ ℓ` lets the bytes from `ℓ` recur `s`
    places back over `s` bytes. -/
theorem not_square_of_byteAt {ℓ s : ℕ} (hc : Critical n ℓ) (hs0 : 0 < s) (hsℓ : s ≤ ℓ)
    (hread : ∀ i, ℓ ≤ i → i < ℓ + s → i < n.length → byteAt n (i - s) = byteAt n i) :
    False := by
  refine hc.not_square s hs0 hsℓ fun i hi => ?_
  have := hc.lt_length
  rw [getElem?_eq_getElem?_iff (by omega) (by omega), show ℓ - s + i = ℓ + i - s by omega]
  exact hread (ℓ + i) (by omega) (by omega) (by omega)

/-- Every byte matched, the remembered ones, the left part from `k` and the right part:
    the needle occurs at `h`. -/
theorem occursAt_of_match {h k mem ℓ : ℕ} (hend : h + n.length ≤ hay.length)
    (hkmem : k ≤ mem)
    (hmatched : ∀ i < mem, byteAt hay (h + i) = byteAt n i)
    (hleft : ∀ i, k ≤ i → i < ℓ → byteAt hay (h + i) = byteAt n i)
    (hright : ∀ i, ℓ ≤ i → i < n.length → byteAt hay (h + i) = byteAt n i) :
    OccursAt hay n h := by
  refine ⟨hend, fun i hi => ?_⟩
  by_cases him : i < mem
  · exact hmatched i him
  by_cases hiℓ : i < ℓ
  · exact hleft i (by omega) hiℓ
  · exact hright i (by omega) hi

end Shifts

namespace SearchSetup

variable {n hay : List UInt8} {t : Tables} {f : Factor} {P : ℕ}

/-- Something is remembered only for a periodic needle, and then `l - P` bytes. -/
theorem periodic_of_mem (hS : SearchSetup n hay t f P) {mem : ℕ}
    (hmem : mem = 0 ∨ mem = f.mem0) (hpos : 0 < mem) :
    (∀ i < f.start, n[i]? = n[P + i]?) ∧ mem = n.length - P := by
  by_cases hagree : ∀ i < f.start, n[i]? = n[P + i]?
  · refine ⟨hagree, ?_⟩
    rcases hmem with h | h
    · omega
    · rw [h, (hS.factor.periodic hagree).2]
  · have := (hS.factor.aperiodic hagree).2
    omega

theorem mem_lt (hS : SearchSetup n hay t f P) {mem : ℕ} (hmem : mem = 0 ∨ mem = f.mem0) :
    mem < n.length := by
  have hl := hS.pos
  rcases Nat.eq_zero_or_pos mem with h0 | hpos
  · omega
  · have := (hS.periodic_of_mem hmem hpos).2
    have := hS.factor.minPeriod.pos
    omega

/-- The shift after a mismatch in the left part moves the window, and not past its end. -/
theorem p_pos_le (hS : SearchSetup n hay t f P) : 0 < f.p ∧ f.p ≤ n.length := by
  have hℓ := hS.start_lt
  have hℓms := hS.start_eq
  by_cases hagree : ∀ i < f.start, n[i]? = n[P + i]?
  · obtain ⟨-, hℓP, hPv⟩ := hS.periodic_spec hagree
    rw [(hS.factor.periodic hagree).1]
    omega
  · -- an aperiodic needle has `ℓ ≥ 1`, so `MAX(ms, l - ms - 1) + 1 ≤ l`
    have hℓ0 : 0 < f.start := by
      by_contra h0
      exact hagree fun i hi => absurd hi (by omega)
    rw [(hS.factor.aperiodic hagree).1]
    omega

/-- The window's last byte `c` is in the needle: an occurrence closer than `l - shift[c]`
    would put a later copy of `c` under it. -/
theorem not_occursAt_of_shift (hS : SearchSetup n hay t f P) {h : ℕ}
    (hc : byteAt hay (h + n.length - 1) ∈ n) {s : ℕ}
    (hs : s < n.length - t.shift (byteAt hay (h + n.length - 1))) :
    ¬ OccursAt hay n (h + s) := by
  intro ho
  obtain ⟨-, hle, -, hafter⟩ := hS.shift_spec hc
  apply hafter (n.length - 1 - s) (by omega) (by omega)
  rw [ho.byteAt_eq (i := h + n.length - 1) (by omega) (by omega)]
  congr 1
  omega

/-- The shift raised to `mem`: an occurrence within the remembered bytes would put the
    needle's last byte under the window, whose shift is the whole needle. -/
theorem not_occursAt_of_mem_shift (hS : SearchSetup n hay t f P) {h mem : ℕ}
    (hmem : mem = 0 ∨ mem = f.mem0) (hmatched : ∀ i < mem, byteAt hay (h + i) = byteAt n i)
    (hk : t.shift (byteAt hay (h + n.length - 1)) < n.length) {s : ℕ} (hs : s < mem) :
    ¬ OccursAt hay n (h + s) := by
  intro ho
  obtain ⟨hagree, hmem_eq⟩ := hS.periodic_of_mem hmem (by omega)
  have hlast := last_eq_of_occursAt_mem (hS.periodic_spec hagree).1
    (fun i hi => hmatched i (by omega)) (by omega) ho
  rw [hlast, hS.shift_last] at hk
  exact lt_irrefl _ hk

/-- A mismatch at `k` in the right part: an occurrence at most `k - ℓ` on would be a square
    at `ℓ`, or make its distance a period, which the mismatch contradicts. -/
theorem not_occursAt_of_right_mismatch (hS : SearchSetup n hay t f P) {h k : ℕ}
    (hℓk : f.start ≤ k) (hk : k < n.length)
    (hmatch : ∀ i, f.start ≤ i → i < k → byteAt hay (h + i) = byteAt n i)
    (hmis : byteAt hay (h + k) ≠ byteAt n k) {s : ℕ} (hs : s ≤ k - f.start) :
    ¬ OccursAt hay n (h + s) := by
  intro ho
  have hc := hS.factor.critical
  have hread : ∀ i, f.start ≤ i → i < k → s ≤ i → byteAt n (i - s) = byteAt n i :=
    fun i h1 h2 h3 => ho.byteAt_sub_eq (hmatch i h1 h2) h3 (by omega)
  rcases Nat.eq_zero_or_pos s with rfl | hs0
  · -- no shift: the mismatch itself
    exact hmis (by rw [ho.byteAt_eq (i := h + k) (by omega) (by omega)]; congr 1; omega)
  rcases le_or_gt s f.start with hsℓ | hsℓ
  · -- a square of `s` bytes at `ℓ`, within the matched bytes
    exact not_square_of_byteAt hc hs0 hsℓ fun i h1 h2 _ => hread i h1 (by omega) (by omega)
  · -- the left part recurs `s` places on: `s` is a period, and hides the mismatch
    have hper := hc.hasPeriod s hsℓ (by omega) fun i hi => by
      rw [getElem?_eq_getElem?_iff (by omega) (by omega)]
      have := hread (s + i) (by omega) (by omega) (by omega)
      rwa [show s + i - s = i by omega] at this
    apply hmis
    rw [ho.byteAt_eq (i := h + k) (by omega) (by omega), show h + k - (h + s) = k - s by omega,
      byteAt_eq_of_hasPeriod hper (i := k - s) (by omega), show k - s + s = k by omega]

/-- The right part matches and the left part mismatches at `k - 1`: an occurrence closer
    than `p` would be a square at `ℓ` or a period of the needle beyond `ℓ`, which a periodic
    needle has not below `P` and an aperiodic one not up to `l - ℓ`. -/
theorem not_occursAt_of_left_mismatch (hS : SearchSetup n hay t f P) {h k : ℕ}
    (hkℓ : k ≤ f.start) (hk0 : 0 < k)
    (hright : ∀ i, f.start ≤ i → i < n.length → byteAt hay (h + i) = byteAt n i)
    (hmis : byteAt n (k - 1) ≠ byteAt hay (h + (k - 1))) {s : ℕ} (hs : s < f.p) :
    ¬ OccursAt hay n (h + s) := by
  intro ho
  have hc := hS.factor.critical
  have hℓ := hc.lt_length
  have hread : ∀ i, f.start ≤ i → i < n.length → s ≤ i → byteAt n (i - s) = byteAt n i :=
    fun i h1 h2 h3 => ho.byteAt_sub_eq (hright i h1 h2) h3 h2
  rcases Nat.eq_zero_or_pos s with rfl | hs0
  · -- no shift: the mismatch itself
    exact hmis (by rw [ho.byteAt_eq (i := h + (k - 1)) (by omega) (by omega)]; congr 1; omega)
  rcases le_or_gt s f.start with hsℓ | hsℓ
  · -- a square of `s` bytes at `ℓ`
    exact not_square_of_byteAt hc hs0 hsℓ fun i h1 _ h3 => hread i h1 h3 (by omega)
  -- `s` is a period of the needle
  have hper : HasPeriod n s := fun i hi => by
    rw [getElem?_eq_getElem?_iff (by omega) hi]
    have := hread (i + s) (by omega) hi (by omega)
    rwa [show i + s - s = i by omega] at this
  by_cases hagree : ∀ i < f.start, n[i]? = n[P + i]?
  · -- periodic: a period of the right part below its least one
    rw [(hS.factor.periodic hagree).1] at hs
    exact hS.factor.minPeriod.least s hs0 hs (hper.drop f.start)
  · -- aperiodic: `s ≤ l - ℓ`, and then the left part recurs `P` places on
    have hp := (hS.factor.aperiodic hagree).1
    have := hS.start_eq
    exact hagree (hc.agree_of_hasPeriod hS.factor.minPeriod s hsℓ (by omega) hper)

/-- After a mismatch in the left part the window moves by `p`; a periodic needle then
    remembers its first `l - P` bytes, matched by the right part before the move. -/
theorem matched_after_shift (hS : SearchSetup n hay t f P) {h : ℕ}
    (hright : ∀ i, f.start ≤ i → i < n.length → byteAt hay (h + i) = byteAt n i) :
    ∀ i < f.mem0, byteAt hay (h + f.p + i) = byteAt n i := by
  intro i hi
  by_cases hagree : ∀ i < f.start, n[i]? = n[P + i]?
  · obtain ⟨hper, hℓP, -⟩ := hS.periodic_spec hagree
    obtain ⟨hp, hmem0⟩ := hS.factor.periodic hagree
    rw [hp, add_assoc, hright (P + i) (by omega) (by omega),
      byteAt_eq_of_hasPeriod hper (i := i) (by omega), Nat.add_comm P i]
  · have := (hS.factor.aperiodic hagree).2
    omega

end SearchSetup

/-! ## §6 The search loop -/

/-- What the search loop keeps: the end pointer between the window and the end of the
    haystack, no occurrence before the window, and the remembered bytes matched. -/
structure SearchInv (n hay : List UInt8) (f : Factor) (s : Search) : Prop where
  h_le : s.h ≤ s.z
  z_le : s.z ≤ hay.length
  before : ∀ q < s.h, ¬ OccursAt hay n q
  mem : s.mem = 0 ∨ s.mem = f.mem0
  matched : ∀ i < s.mem, byteAt hay (s.h + i) = byteAt n i

section Loop

variable {n hay : List UInt8} {t : Tables} {f : Factor} {P : ℕ}

theorem searchInv_init : SearchInv n hay f ⟨0, 0, 0⟩ where
  h_le := le_rfl
  z_le := Nat.zero_le _
  before _ hq := absurd hq (Nat.not_lt_zero _)
  mem := Or.inl rfl
  matched _ hi := absurd hi (Nat.not_lt_zero _)

/-- Moving the window by `d` past no occurrence keeps the invariant. -/
theorem SearchInv.advance {s : Search} (hs : SearchInv n hay f s) {d z mem : ℕ}
    (hdz : s.h + d ≤ z) (hz : z ≤ hay.length) (hskip : ∀ q < d, ¬ OccursAt hay n (s.h + q))
    (hmem : mem = 0 ∨ mem = f.mem0)
    (hmatched : ∀ i < mem, byteAt hay (s.h + d + i) = byteAt n i) :
    SearchInv n hay f ⟨s.h + d, z, mem⟩ where
  h_le := hdz
  z_le := hz
  before q hq := by
    rcases Nat.lt_or_ge q s.h with hlt | hge
    · exact hs.before q hlt
    · have := hskip (q - s.h) (by dsimp only at hq; omega)
      rwa [Nat.add_sub_cancel' hge] at this
  mem := hmem
  matched := hmatched

/-- One round of the search: it returns the first occurrence, or moves the window on and
    keeps the invariant. -/
theorem SearchSetup.searchStep_spec (hS : SearchSetup n hay t f P) {s : Search}
    (hs : SearchInv n hay f s) :
    searchStep n hay t f s = .inl (firstOccurrence hay n) ∨
      ∃ s', searchStep n hay t f s = .inr s' ∧ SearchInv n hay f s' ∧ s.h < s'.h := by
  have hl := hS.pos
  have hℓ := hS.start_lt
  have hℓms := hS.start_eq
  have hmem_lt := hS.mem_lt hs.mem
  rcases growEnd_spec hS.hay_nul (l := t.l) hs.h_le hs.z_le with
    ⟨hnone, hshort⟩ | ⟨z, hz, hhz, hzl⟩
  · -- the haystack ends within the window: no occurrence at all
    left
    rw [searchStep, hnone, firstOccurrence_eq_none_of hl fun q ho => ?_]
    rcases Nat.lt_or_ge q s.h with hq | hq
    · exact hs.before q hq ho
    · have := ho.1
      rw [hS.l_eq] at hshort
      omega
  rw [searchStep, hz]
  dsimp only
  rw [hS.l_eq] at hhz ⊢
  rw [show (f.ms + 1).toNat = f.start from rfl]
  -- every round but the last moves the window by `d` past no occurrence
  have hmove : ∀ d mem, 0 < d → d ≤ n.length → (∀ q < d, ¬ OccursAt hay n (s.h + q)) →
      (mem = 0 ∨ mem = f.mem0) → (∀ i < mem, byteAt hay (s.h + d + i) = byteAt n i) →
      ∃ s', (.inr ⟨s.h + d, z, mem⟩ : Option ℕ ⊕ Search) = .inr s' ∧
        SearchInv n hay f s' ∧ s.h < s'.h :=
    fun d mem hd hdl hskip hmem hmatched =>
      ⟨_, rfl, hs.advance (by omega) hzl hskip hmem hmatched, by dsimp only; omega⟩
  have hnomem : ∀ d, ∀ i < 0, byteAt hay (s.h + d + i) = byteAt n i :=
    fun _ _ hi => absurd hi (Nat.not_lt_zero _)
  set c := byteAt hay (s.h + n.length - 1) with hc_def
  by_cases hc : c ∈ n
  swap
  · -- the last byte is not in the needle: shift by `l`
    rw [if_neg (by rw [hS.bitsetHas_eq]; simpa using hc)]
    exact Or.inr (hmove n.length 0 hl le_rfl (fun q hq => not_occursAt_of_not_mem hc hq)
      (Or.inl rfl) (hnomem _))
  rw [if_pos (by rw [hS.bitsetHas_eq]; simpa using hc)]
  obtain ⟨hspos, hsle, -, -⟩ := hS.shift_spec hc
  by_cases hk : n.length - t.shift c ≠ 0
  · -- shift by `l - shift[c]`, raised to `mem`
    rw [if_pos hk]
    right
    split_ifs with hkm
    · refine hmove s.mem 0 (by omega) hmem_lt.le (fun q hq => ?_) (Or.inl rfl) (hnomem _)
      by_cases hq' : q < n.length - t.shift c
      · exact hS.not_occursAt_of_shift hc hq'
      · exact hS.not_occursAt_of_mem_shift hs.mem hs.matched (by rw [← hc_def]; omega) hq
    · exact hmove _ 0 (by omega) (by omega) (fun q hq => hS.not_occursAt_of_shift hc hq)
        (Or.inl rfl) (hnomem _)
  rw [if_neg hk]
  -- compare the right part, from `ℓ` or past the remembered bytes
  obtain ⟨r1, r2, r3, r4⟩ := rightHalf_spec hS.needle_nul hay s.h n.length
    (max f.start s.mem) (by omega) (by omega)
  set r := rightHalf n hay s.h n.length (max f.start s.mem)
  have hmid : ∀ i, f.start ≤ i → i < r → byteAt hay (s.h + i) = byteAt n i := by
    intro i h1 h2
    by_cases him : i < s.mem
    · exact hs.matched i him
    · exact r3 i (by omega) h2
  by_cases hr : byteAt n r ≠ 0
  · -- a mismatch in the right part at `r`: shift by `r - ℓ + 1`
    rw [if_pos hr]
    have hrl : r < n.length := by rwa [ne_eq, hS.byteAt_needle_eq_zero_iff, not_le] at hr
    exact Or.inr (hmove _ 0 (by omega) (by omega)
      (fun q hq => hS.not_occursAt_of_right_mismatch (k := r) (by omega) hrl hmid (r4 hrl)
        (by omega)) (Or.inl rfl) (hnomem _))
  rw [if_neg hr]
  have hright : ∀ i, f.start ≤ i → i < n.length → byteAt hay (s.h + i) = byteAt n i := by
    have hrl : n.length ≤ r := by rwa [not_not, hS.byteAt_needle_eq_zero_iff] at hr
    exact fun i h1 h2 => hmid i h1 (by omega)
  -- compare the left part, down to the remembered bytes
  obtain ⟨l1, l2, l3⟩ := leftHalf_spec n hay s.h s.mem f.start
  set k := leftHalf n hay s.h s.mem f.start
  split_ifs with hkm
  · -- everything matched: the first occurrence
    left
    rw [firstOccurrence_eq_some_of hl (occursAt_of_match (by omega) hkm hs.matched l2 hright)
      hs.before]
  · -- a mismatch in the left part: shift by `p`, remembering what a period repeats
    have hp := hS.p_pos_le
    exact Or.inr (hmove f.p f.mem0 hp.1 hp.2
      (fun q hq => hS.not_occursAt_of_left_mismatch l1 (by omega) hright (l3 (by omega)) hq)
      (Or.inr rfl) (hS.matched_after_shift hright))

/-- The search loop returns the first occurrence, from every state of the invariant with
    fuel for the rest of the haystack: each round moves the window on, within the
    haystack. -/
theorem SearchSetup.searchLoop_eq (hS : SearchSetup n hay t f P) (fuel : ℕ) :
    ∀ s : Search, SearchInv n hay f s → hay.length + 1 ≤ fuel + s.h →
      searchLoop n hay t f fuel s = firstOccurrence hay n := by
  induction fuel with
  | zero =>
    intro s hs hfuel
    have := hs.h_le
    have := hs.z_le
    omega
  | succ fuel ih =>
    intro s hs hfuel
    rw [searchLoop]
    rcases hS.searchStep_spec hs with hret | ⟨s', hstep, hs', hlt⟩
    · rw [hret]
    · rw [hstep]
      exact ih s' hs' (by omega)

end Loop

/-- `twoway_strstr` finds the first occurrence of every nonempty needle. -/
theorem twowayStrstr_eq (h n : CStr) (hn : 0 < n.bytes.length) :
    twowayStrstr h n = firstOccurrence h.bytes n.bytes := by
  obtain ⟨htab, hl⟩ := fillTables_spec n h
  rw [twowayStrstr]
  set t := fillTables n.bytes h.bytes n.bytes.length ⟨0, 0, fun _ => 0⟩
  split_ifs with hend
  · -- the haystack ended before `l` bytes: shorter than the needle
    rw [ne_eq, CStr.byteAt_eq_zero_iff, not_le] at hend
    exact (firstOccurrence_of_length_lt (by omega)).symm
  · rw [not_not, CStr.byteAt_eq_zero_iff] at hend
    have hleq : t.l = n.bytes.length := by omega
    rw [hleq]
    obtain ⟨P, hf⟩ := factorize_spec hn
    have hS : SearchSetup n.bytes h.bytes t (factorize n.bytes n.bytes.length) P :=
      ⟨n.nul_not_mem, h.nul_not_mem, hn, hleq, htab, hf⟩
    exact hS.searchLoop_eq _ _ searchInv_init (by dsimp only; omega)

-- `abcabd` in `xabcabcabd`: the table shifts the window by 1 and by 3, and both parts match at 4
example : twowayStrstr ⟨[120, 97, 98, 99, 97, 98, 99, 97, 98, 100], by decide⟩
    ⟨[97, 98, 99, 97, 98, 100], by decide⟩ = some 4 := by decide

/-- From a haystack that starts with the needle's first byte, `strstr`'s searches by
    length are the plain search for every needle. -/
theorem strstrFrom_twowayStrstr_eq {h n : CStr} (hn1 : 1 ≤ n.bytes.length)
    (hfirst : h.bytes.head? = n.bytes.head?) :
    strstrFrom twowayStrstr h n = firstOccurrence h.bytes n.bytes := by
  by_cases hn : n.bytes.length ≤ 4
  · exact strstrFrom_eq twowayStrstr hn hn1 hfirst
  · -- five bytes or more: past the haystack's first four bytes, the two-way search
    simp only [strstrFrom, CStr.byteAt_eq_zero_iff]
    split_ifs with hn1 hh1 hn2 hh2 hn3 hh3
    · omega
    · exact (firstOccurrence_of_length_lt (by omega)).symm
    · omega
    · exact (firstOccurrence_of_length_lt (by omega)).symm
    · omega
    · exact (firstOccurrence_of_length_lt (by omega)).symm
    · exact twowayStrstr_eq h n (by omega)

/-- `strstr` finds the first occurrence of every needle, whatever the signedness of
    `char`. -/
theorem strstr_eq_firstOccurrence (signed : Bool) (h n : CStr) :
    strstr signed twowayStrstr h n = firstOccurrence h.bytes n.bytes :=
  strstr_eq_of_strstrFrom signed twowayStrstr h n fun _ hn1 hfirst =>
    strstrFrom_twowayStrstr_eq hn1 hfirst

end ArceOS.Libc
