import Mathlib

/-!
# The First Element of Largest Score

A loop that scans a list with its indices and keeps the index and the score of
the best element so far, replacing it only by a strictly larger score, ends at
the first element of largest score. This is how a longest-match search over a
table is usually written; `firstMax` says what it finds without the loop.

## Main definitions

- `firstMaxStep`: one turn of the scanning loop;
- `firstMax`: the first element of largest positive score.

## Main results

- `foldl_firstMaxStep`: what a scan from any accumulator ends at;
- `firstMax_of_scan`: a scan from `(0, 0)` finds `firstMax`, with its index and score.
-/

namespace ArceOS.Lib.FirstMax

variable {β : Type*} (s : β → Nat)

/-- One turn of the scan: the element `x.1` at index `x.2` replaces the best so
    far when its score is strictly larger. -/
def firstMaxStep (acc : Nat × Nat) (x : β × Nat) : Nat × Nat :=
  if s x.1 > acc.2 then (x.2, s x.1) else acc

/-- The first element of `l` whose score is positive and not below any other. -/
def firstMax (l : List β) : Option β :=
  l.find? fun x => decide (0 < s x) && l.all fun y => decide (s y ≤ s x)

variable {s}

/-- A scan of `l` from index `k` and accumulator `(i, m)` either keeps the
    accumulator, when no score exceeds `m`, or ends at the first element `x` of
    largest score, which exceeds `m`. -/
theorem foldl_firstMaxStep (l : List β) (k i m : Nat) :
    let r := (l.zipIdx k).foldl (firstMaxStep s) (i, m)
    (r = (i, m) ∧ ∀ y ∈ l, s y ≤ m) ∨
      (∃ j x, l[j]? = some x ∧ r = (k + j, s x) ∧ m < s x ∧ (∀ y ∈ l, s y ≤ s x) ∧
        ∀ y ∈ l.take j, s y < s x) := by
  induction l generalizing k i m with
  | nil => exact .inl ⟨rfl, by simp⟩
  | cons a l ih =>
    simp only [List.zipIdx_cons, List.foldl_cons, firstMaxStep]
    by_cases ha : s a > m
    · -- `a` becomes the best so far; the rest of the scan starts from it
      rw [if_pos ha]
      refine .inr ?_
      rcases ih (k + 1) k (s a) with ⟨hr, hle⟩ | ⟨j, x, hx, hr, hlt, hle, hfirst⟩
      · refine ⟨0, a, rfl, by simpa using hr, ha, ?_, by simp⟩
        simpa using hle
      · refine ⟨j + 1, x, by simpa using hx, by rw [hr]; simp [Nat.add_assoc, Nat.add_comm 1 j],
          by omega, ?_, ?_⟩
        · simpa [Nat.le_of_lt hlt] using hle
        · simpa [hlt] using hfirst
    · -- `a` does not beat the accumulator, which goes on unchanged
      rw [if_neg ha]
      have ha' : s a ≤ m := Nat.le_of_not_lt ha
      rcases ih (k + 1) i m with ⟨hr, hle⟩ | ⟨j, x, hx, hr, hlt, hle, hfirst⟩
      · exact .inl ⟨hr, by simpa [ha'] using hle⟩
      · refine .inr ⟨j + 1, x, by simpa using hx, by rw [hr]; simp [Nat.add_assoc, Nat.add_comm 1 j],
          hlt, ?_, ?_⟩
        · simpa [Nat.le_trans ha' (Nat.le_of_lt hlt)] using hle
        · simpa [Nat.lt_of_le_of_lt ha' hlt] using hfirst

/-- The scan from `(0, 0)` computes `firstMax`: a score `0` means that no element
    has a positive score, and otherwise the index holds the first element of
    largest score, which is the score found. -/
theorem firstMax_of_scan (l : List β) :
    let r := l.zipIdx.foldl (firstMaxStep s) (0, 0)
    (r.2 = 0 ∧ firstMax s l = none) ∨
      (0 < r.2 ∧ ∃ x, l[r.1]? = some x ∧ firstMax s l = some x ∧ s x = r.2) := by
  rcases foldl_firstMaxStep (s := s) l 0 0 0 with ⟨hr, hle⟩ | ⟨j, x, hx, hr, hlt, hle, hfirst⟩
  · refine .inl ⟨by rw [hr], ?_⟩
    rw [firstMax, List.find?_eq_none]
    intro y hy
    simp [Nat.le_zero.mp (hle y hy)]
  · refine .inr ⟨by rw [hr]; exact hlt, x, by rw [hr]; simpa using hx, ?_, by rw [hr]⟩
    obtain ⟨hj, rfl⟩ := List.getElem?_eq_some_iff.mp hx
    rw [firstMax, List.find?_eq_some_iff_getElem]
    refine ⟨by simpa [hlt] using hle, j, hj, rfl, ?_⟩
    -- an earlier element has a smaller score than `l[j]`, so it is not of largest score
    intro j' hj'
    have hsmall : s l[j'] < s l[j] := hfirst _ (List.mem_take_iff_getElem.mpr ⟨j', by omega, rfl⟩)
    simp only [Bool.not_eq_eq_eq_not, Bool.not_true, Bool.and_eq_false_iff, List.all_eq_false]
    exact .inr ⟨l[j], List.getElem_mem hj, by simpa using hsmall⟩

end ArceOS.Lib.FirstMax
