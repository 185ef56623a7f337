import Mathlib

/-!
# Searching With a Rolling Window

A search for a needle of `k + 1` values can keep the last `k + 1` values of the
haystack packed in one word, update the word with each next value (`roll`), and compare
it with the needle's word. Given a packing `enc` that is injective on lists of `k + 1`
values and that `roll` updates (drop the oldest value, add the next), the search finds
the first window equal to the needle: it is the plain search that compares the windows
one by one.

Packings into machine words are sums of bytes times powers of two written with `|||`;
`mul_two_pow_or` and `mul_two_pow_or_mul_two_pow` turn such an `|||` of disjoint bits
into the sum.

## Main definitions

- `window`: `k` consecutive values of a sequence;
- `rollFind`: the search with a word.

## Main results

- `rollFind_eq`: the rolling search is the search over the windows;
- `find?_range_eq_of_ge`: a search over `List.range n` that nothing from `m` on passes
  is the search over `List.range m`.
-/

namespace ArceOS.Lib.Window

variable {α β : Type*}

/-! ## §1 Windows -/

/-- The `k` values of `f` from `p`. -/
def window (f : Nat → α) (k p : Nat) : List α := (List.range k).map fun j => f (p + j)

@[simp] theorem length_window (f : Nat → α) (k p : Nat) : (window f k p).length = k := by
  simp [window]

theorem window_succ_left (f : Nat → α) (k p : Nat) :
    window f (k + 1) p = f p :: window f k (p + 1) := by
  simp only [window, List.range_succ_eq_map, List.map_cons, List.map_map, Nat.add_zero]
  congr 1
  apply List.map_congr_left
  intro j _
  simp [Nat.add_assoc, Nat.add_comm 1 j]

theorem window_succ_right (f : Nat → α) (k p : Nat) :
    window f (k + 1) p = window f k p ++ [f (p + k)] := by
  simp [window, List.range_succ]

/-- The window one further on: the oldest value out, the next one in. -/
theorem window_roll (f : Nat → α) (k p : Nat) :
    window f (k + 1) (p + 1) = window f k (p + 1) ++ [f (p + 1 + k)] :=
  window_succ_right f k (p + 1)

/-! ## §2 The rolling search -/

section Roll

variable [DecidableEq β] (roll : β → α → β) (target : β) (d : α) (k : Nat)

/-- Scan the values `xs` left from offset `i` with the word `w`, which `roll` extends by
    the next value (`d` after the last), until the word is `target`; then the offset of
    the window the word holds, which ends at the value at `i`. As C:
    `for (; *h && w != target; w = roll(w, *++h));`, then `*h ? h - (k - 1) : 0`. -/
def rollFind : β → List α → Nat → Option Nat
  | _, [], _ => none
  | w, _ :: rest, i =>
    if w = target then some (i - (k - 1)) else rollFind (roll w (rest.headD d)) rest (i + 1)

end Roll

theorem headD_drop (xs : List α) (d : α) (i : Nat) : (xs.drop i).headD d = xs.getD i d := by
  simp

section Correct

variable [DecidableEq α] [DecidableEq β] {roll : β → α → β} {d : α} {k : Nat}
  {enc : List α → β}

/-- With a packing that is injective on `k + 1` values and that `roll` updates, the
    rolling search from the window that ends at `i` finds the first window, among those
    that end at `i` or later inside `xs`, equal to the needle `n`. -/
theorem rollFind_eq
    (hinj : ∀ u v : List α, u.length = k + 1 → v.length = k + 1 → enc u = enc v → u = v)
    (hroll : ∀ (a c : α) (u : List α), u.length = k → roll (enc (a :: u)) c = enc (u ++ [c]))
    (xs n : List α) (hn : n.length = k + 1) :
    ∀ (m i : Nat), xs.length - i = m → k ≤ i →
      rollFind roll (enc n) d (k + 1) (enc (window (xs.getD · d) (k + 1) (i - k))) (xs.drop i) i =
        ((List.range m).find? fun j => window (xs.getD · d) (k + 1) (i - k + j) = n).map
          (i - k + ·) := by
  intro m
  induction m with
  | zero =>
    intro i hm _
    rw [List.drop_eq_nil_of_le (by omega)]
    rfl
  | succ m ih =>
    intro i hm hk
    -- the value at `i` is there: test the window that ends at it, then roll on
    have hi : i < xs.length := by omega
    have hw : enc (window (xs.getD · d) (k + 1) (i - k)) = enc n ↔
        window (xs.getD · d) (k + 1) (i - k) = n :=
      ⟨hinj _ _ (length_window _ _ _) hn, congrArg enc⟩
    have hnext : roll (enc (window (xs.getD · d) (k + 1) (i - k))) ((xs.drop (i + 1)).headD d) =
        enc (window (xs.getD · d) (k + 1) (i + 1 - k)) := by
      rw [window_succ_left, hroll _ _ _ (length_window _ _ _), headD_drop,
        show i + 1 - k = i - k + 1 by omega, window_roll, show i - k + 1 + k = i + 1 by omega]
    rw [List.drop_eq_getElem_cons hi, rollFind, List.range_succ_eq_map, List.find?_cons]
    by_cases hmatch : window (xs.getD · d) (k + 1) (i - k) = n
    · rw [if_pos (hw.mpr hmatch)]
      simp only [Nat.add_zero, hmatch, decide_true, Option.map_some]
      rfl
    · rw [if_neg (mt hw.mp hmatch), hnext, ih (i + 1) (by omega) (by omega)]
      simp only [Nat.add_zero, hmatch, decide_false, List.find?_map, Option.map_map]
      -- the windows of the rest are those of the whole list one further on
      congr 1
      · funext j
        simp only [Function.comp_apply, Nat.succ_eq_add_one]
        omega
      · apply List.find?_congr
        intro j _
        simp only [Function.comp_apply, Nat.succ_eq_add_one]
        rw [show i + 1 - k + j = i - k + (j + 1) by omega]

end Correct

/-- A search over `List.range n` that nothing from `m` on passes stops below `m`. -/
theorem find?_range_eq_of_ge {p : Nat → Bool} {m n : Nat} (hmn : m ≤ n)
    (h : ∀ j, m ≤ j → j < n → p j = false) :
    (List.range n).find? p = (List.range m).find? p := by
  obtain ⟨r, rfl⟩ := Nat.exists_eq_add_of_le hmn
  rw [List.range_add, List.find?_append]
  have hnone : (List.map (fun x => m + x) (List.range r)).find? p = none := by
    rw [List.find?_eq_none]
    intro x hx
    simp only [List.mem_map, List.mem_range] at hx
    obtain ⟨j, hj, rfl⟩ := hx
    simp [h (m + j) (by omega) (by omega)]
  rw [hnone, Option.or_none]

/-! ## §3 Packing into words -/

/-- An `|||` with a value below the shift is a sum. -/
theorem mul_two_pow_or {y i : Nat} (hy : y < 2 ^ i) (x : Nat) : x * 2 ^ i ||| y = x * 2 ^ i + y := by
  rw [Nat.mul_comm, Nat.two_pow_add_eq_or_of_lt hy]

/-- Two shifted values whose bits do not meet: the `|||` is the sum. -/
theorem mul_two_pow_or_mul_two_pow {y i : Nat} (hy : y < 2 ^ i) (x j : Nat) :
    x * 2 ^ i * 2 ^ j ||| y * 2 ^ j = (x * 2 ^ i + y) * 2 ^ j := by
  calc x * 2 ^ i * 2 ^ j ||| y * 2 ^ j = (x * 2 ^ i ||| y) * 2 ^ j := by
        rw [← Nat.shiftLeft_eq (x * 2 ^ i ||| y), Nat.shiftLeft_or_distrib, Nat.shiftLeft_eq,
          Nat.shiftLeft_eq]
    _ = (x * 2 ^ i + y) * 2 ^ j := by rw [mul_two_pow_or hy]

end ArceOS.Lib.Window
