import Mathlib

/-!
# Cursor Parsers over a Slice

A binary parser that reads a record field by field keeps a cursor into the slice it reads:
each field is the next `k` elements, and a field that does not fit is an error. Such a
parser is a computation in `StateT Nat (Except ε)`, the state being the cursor.

`view data off k` is the window of `k` elements at `off`, and `getRange` is Rust's
`slice.get(start..stop)`. A parser of fixed width `k` over a slice of length `n` moves the
cursor by exactly `k` on success, within the slice (`Advances`), and succeeds wherever `k`
elements are left (`Succeeds`); both compose under `bind`, so the width of a record parser
follows from the widths of its fields. `Decodes cap p v enc` says that `p` reads `v` back
from `enc` wherever `enc` stands, which is the round trip of an encoder stated for the
parser alone; it too composes field by field.

## Main results

- `view_add`, `view_flatten`: windows split at any point, and the `i`-th window of a table
  of equal-width entries is its `i`-th entry;
- `Advances.bind`, `Succeeds.bind`: widths of parsers compose;
- `ok_iff_of_width`: a parser of positive width succeeds exactly where its width fits;
- `Decodes.bind`, `Decodes.bind_pure`: the encoding of a record is read by reading the
  encodings of its fields in turn.
-/

namespace ArceOS.Lib.Cursor

section View

variable {α : Type*}

/-- The `k` elements of `data` from `off`, as many as there are. -/
def view (data : List α) (off k : Nat) : List α := (data.drop off).take k

/-- `data.get(start..stop)`: the elements `[start, stop)` when all of them are in `data`. -/
def getRange (data : List α) (start stop : Nat) : Option (List α) :=
  if start ≤ stop ∧ stop ≤ data.length then some (view data start (stop - start)) else none

variable {data : List α} {off k : Nat}

theorem length_view (h : off + k ≤ data.length) : (view data off k).length = k := by
  simp only [view, List.length_take, List.length_drop]
  omega

theorem view_add (data : List α) (off k m : Nat) :
    view data off (k + m) = view data off k ++ view data (off + k) m := by
  simp only [view, List.take_add, List.drop_drop]

theorem getRange_add_of_le (h : off + k ≤ data.length) :
    getRange data off (off + k) = some (view data off k) := by
  rw [getRange, if_pos ⟨Nat.le_add_right off k, h⟩, Nat.add_sub_cancel_left]

theorem getRange_add_of_lt (h : data.length < off + k) : getRange data off (off + k) = none := by
  rw [getRange, if_neg fun hr => absurd hr.2 (Nat.not_le.mpr h)]

/-- The window of a record read from its first element. -/
theorem view_append_left (pre mid post : List α) :
    view (pre ++ mid ++ post) pre.length mid.length = mid := by
  simp [view]

/-- A list is what comes before a window, the window, and what comes after it. -/
theorem take_append_view_append_drop (data : List α) (off k : Nat) :
    data.take off ++ view data off k ++ data.drop (off + k) = data := by
  rw [view, List.append_assoc, ← List.drop_drop, List.take_append_drop, List.take_append_drop]

/-- A window at the start of a list is its prefix. -/
theorem view_zero (data : List α) (k : Nat) : view data 0 k = data.take k := by
  simp [view]

/-- Windows of consecutive pieces make a window of the whole. -/
theorem view_append_of_view {xs ys : List α} (hx : view data off xs.length = xs)
    (hy : view data (off + xs.length) ys.length = ys) : view data off (xs ++ ys).length = xs ++ ys := by
  rw [List.length_append, view_add, hx, hy]

/-- The `i`-th window of a table of entries of width `k` is its `i`-th entry. -/
theorem view_flatten {xs : List (List α)} (hk : ∀ x ∈ xs, x.length = k) :
    ∀ {i : Nat} (hi : i < xs.length), view xs.flatten (i * k) k = xs[i] := by
  induction xs with
  | nil => intro i hi; exact absurd hi (Nat.not_lt_zero i)
  | cons x rest ih =>
    intro i hi
    have hx : x.length = k := hk x List.mem_cons_self
    cases i with
    | zero =>
      rw [List.flatten_cons, Nat.zero_mul, view_zero, ← hx, List.take_left]
      rfl
    | succ i =>
      -- the entries before the `i + 1`-th are the first entry and `i` of the rest
      have hrest := ih (fun y hy => hk y (List.mem_cons_of_mem x hy)) (Nat.lt_of_succ_lt_succ hi)
      have hdrop : (x ++ rest.flatten).drop (i * k + k) = rest.flatten.drop (i * k) := by
        rw [Nat.add_comm, ← List.drop_drop, ← hx, List.drop_left]
      rw [List.flatten_cons, Nat.succ_mul, List.getElem_cons_succ, ← hrest, view, view, hdrop]

theorem length_flatten_of_length {xs : List (List α)} (hk : ∀ x ∈ xs, x.length = k) :
    xs.flatten.length = xs.length * k := by
  induction xs with
  | nil => simp
  | cons x rest ih =>
    rw [List.flatten_cons, List.length_append, hk x List.mem_cons_self,
      ih fun y hy => hk y (List.mem_cons_of_mem x hy), List.length_cons, Nat.succ_mul,
      Nat.add_comm]

end View

/-! ## Parsers of a fixed width -/

section Width

variable {ε α β : Type}

/-- A success of `m` moves the cursor by exactly `k`, and past no more than a slice of
    length `n` when `k` is positive. -/
def Advances (m : StateT Nat (Except ε) α) (k n : Nat) : Prop :=
  ∀ off a off', m.run off = .ok (a, off') → off' = off + k ∧ (0 < k → off' ≤ n)

/-- `m` succeeds wherever `k` elements of a slice of length `n` are left, and moves the
    cursor by `k`. -/
def Succeeds (m : StateT Nat (Except ε) α) (k n : Nat) : Prop :=
  ∀ off, off + k ≤ n → ∃ a, m.run off = .ok (a, off + k)

theorem Advances.pure (a : α) (n : Nat) : Advances (Pure.pure a : StateT Nat (Except ε) α) 0 n := by
  intro off a' off' h
  cases h
  exact ⟨rfl, fun h => absurd h (Nat.lt_irrefl 0)⟩

theorem Succeeds.pure (a : α) (n : Nat) : Succeeds (Pure.pure a : StateT Nat (Except ε) α) 0 n :=
  fun _ _ => ⟨a, rfl⟩

/-- Widths add up under `bind`: the field read first, then the rest at the moved cursor. -/
theorem Advances.bind {m : StateT Nat (Except ε) α} {f : α → StateT Nat (Except ε) β}
    {k k' n : Nat} (hm : Advances m k n) (hf : ∀ a, Advances (f a) k' n) :
    Advances (m >>= f) (k + k') n := by
  intro off b off'' h
  rw [StateT.run_bind] at h
  rcases ha : m.run off with e | ⟨a, off'⟩
  · rw [ha] at h
    cases h
  · rw [ha] at h
    obtain ⟨rfl, hle⟩ := hm _ _ _ ha
    obtain ⟨rfl, hle'⟩ := hf a _ _ _ h
    refine ⟨Nat.add_assoc _ _ _, fun hpos => ?_⟩
    -- the last field of positive width ends the record within the slice
    rcases Nat.eq_zero_or_pos k' with hk' | hk'
    · subst hk'
      exact hle (by omega)
    · exact hle' hk'

theorem Succeeds.bind {m : StateT Nat (Except ε) α} {f : α → StateT Nat (Except ε) β}
    {k k' n : Nat} (hm : Succeeds m k n) (hf : ∀ a, Succeeds (f a) k' n) :
    Succeeds (m >>= f) (k + k') n := by
  intro off h
  obtain ⟨a, ha⟩ := hm off (by omega)
  obtain ⟨b, hb⟩ := hf a (off + k) (by omega)
  refine ⟨b, ?_⟩
  rw [← Nat.add_assoc, StateT.run_bind, ha]
  exact hb

theorem Advances.map {m : StateT Nat (Except ε) α} {k n : Nat} (hm : Advances m k n) (g : α → β) :
    Advances (g <$> m) k n := by
  intro off b off' h
  rw [StateT.run_map] at h
  rcases ha : m.run off with e | ⟨a, o⟩
  · rw [ha] at h
    cases h
  · rw [ha] at h
    cases h
    exact hm _ _ _ ha

theorem Succeeds.map {m : StateT Nat (Except ε) α} {k n : Nat} (hm : Succeeds m k n) (g : α → β) :
    Succeeds (g <$> m) k n := by
  intro off h
  obtain ⟨a, ha⟩ := hm off h
  exact ⟨g a, by rw [StateT.run_map, ha]; rfl⟩

/-- A parser of positive width that succeeds ends within the slice, past where it began. -/
theorem Advances.lt_of_ok {m : StateT Nat (Except ε) α} {k n : Nat} (hm : Advances m k n)
    (hk : 0 < k) {off off' : Nat} {a : α} (h : m.run off = .ok (a, off')) :
    off < off' ∧ off' ≤ n := by
  obtain ⟨rfl, hle⟩ := hm _ _ _ h
  exact ⟨Nat.lt_add_of_pos_right hk, hle hk⟩

/-- A parser of positive width succeeds exactly where its width fits. -/
theorem ok_iff_of_width {m : StateT Nat (Except ε) α} {k n : Nat} (ha : Advances m k n)
    (hs : Succeeds m k n) (hk : 0 < k) (off : Nat) :
    (∃ a off', m.run off = .ok (a, off')) ↔ off + k ≤ n := by
  constructor
  · rintro ⟨a, off', h⟩
    obtain ⟨rfl, hle⟩ := ha _ _ _ h
    exact hle hk
  · intro h
    obtain ⟨a, ha⟩ := hs off h
    exact ⟨a, _, ha⟩

end Width

/-- A `bind` of `Except` succeeds when both of its computations do. -/
theorem bind_eq_ok_iff {x : Except ε α} {g : α → Except ε β} {r : β} :
    x >>= g = .ok r ↔ ∃ a, x = .ok a ∧ g a = .ok r := by
  cases x <;> simp [bind, Except.bind]

/-- A `bind` succeeds when its first computation does and the rest does from there. -/
theorem run_bind_eq_ok {m : StateT Nat (Except ε) α} {f : α → StateT Nat (Except ε) β}
    {off off'' : Nat} {b : β} :
    (m >>= f).run off = .ok (b, off'') ↔ ∃ a off', m.run off = .ok (a, off') ∧ (f a).run off' = .ok (b, off'') := by
  rw [StateT.run_bind]
  rcases m.run off with e | ⟨a, off'⟩
  · constructor
    · intro h
      cases h
    · rintro ⟨_, _, h, -⟩
      cases h
  · constructor
    · intro h
      exact ⟨a, off', rfl, h⟩
    · rintro ⟨a', o', h, h'⟩
      cases h
      exact h'

/-! ## Parsers of an encoding -/

section Decodes

variable {α ε β γ : Type}

/-- The parser `p` reads the value `v` from the elements `enc` wherever they stand in a
    slice shorter than `cap`: from the start of `enc` it returns `v` and moves the cursor
    past `enc`. -/
def Decodes (cap : Nat) (p : List α → StateT Nat (Except ε) β) (v : β) (enc : List α) : Prop :=
  ∀ pre post, (pre ++ enc ++ post).length < cap →
    (p (pre ++ enc ++ post)).run pre.length = .ok (v, pre.length + enc.length)

variable {cap : Nat}

/-- Encodings of consecutive fields are read by consecutive parsers. -/
theorem Decodes.bind {p : List α → StateT Nat (Except ε) β} {q : β → List α → StateT Nat (Except ε) γ}
    {a : β} {b : γ} {ea eb : List α} (ha : Decodes cap p a ea) (hb : Decodes cap (q a) b eb) :
    Decodes cap (fun data => p data >>= fun x => q x data) b (ea ++ eb) := by
  intro pre post hlen
  -- the first field is read where `ea` starts, the rest where `eb` does
  have hfirst : pre ++ (ea ++ eb) ++ post = pre ++ ea ++ (eb ++ post) := by simp
  have hrest : pre ++ ea ++ (eb ++ post) = pre ++ ea ++ eb ++ post := by simp
  rw [hfirst] at hlen ⊢
  rw [StateT.run_bind, ha pre (eb ++ post) hlen]
  show (q a (pre ++ ea ++ (eb ++ post))).run (pre.length + ea.length) = _
  rw [hrest] at hlen ⊢
  rw [← List.length_append, hb (pre ++ ea) post hlen]
  simp [Nat.add_assoc]

/-- The last field of a record, the record built from it. -/
theorem Decodes.bind_pure {p : List α → StateT Nat (Except ε) β} {a : β} {ea : List α}
    (ha : Decodes cap p a ea) (g : β → γ) :
    Decodes cap (fun data => p data >>= fun x => Pure.pure (g x)) (g a) ea := by
  intro pre post hlen
  rw [StateT.run_bind, ha pre post hlen]
  rfl

theorem Decodes.map {p : List α → StateT Nat (Except ε) β} {v : β} {enc : List α}
    (h : Decodes cap p v enc) (g : β → γ) : Decodes cap (fun data => g <$> p data) (g v) enc := by
  intro pre post hlen
  rw [StateT.run_map, h pre post hlen]
  rfl

theorem Decodes.congr_value {p : List α → StateT Nat (Except ε) β} {v v' : β} {enc : List α}
    (h : Decodes cap p v enc) (hv : v = v') : Decodes cap p v' enc :=
  hv ▸ h

/-- Read where a window of the slice holds the encoding. -/
theorem Decodes.run_of_view {p : List α → StateT Nat (Except ε) β} {v : β} {enc : List α}
    (h : Decodes cap p v enc) {data : List α} {off : Nat} (hview : view data off enc.length = enc)
    (hend : off + enc.length ≤ data.length) (hcap : data.length < cap) :
    (p data).run off = .ok (v, off + enc.length) := by
  have hwin : (data.drop off).take enc.length = enc := hview
  have hdata : data = data.take off ++ enc ++ data.drop (off + enc.length) := by
    conv_lhs => rw [← List.take_append_drop off data,
      ← List.take_append_drop enc.length (data.drop off)]
    rw [hwin, List.drop_drop, List.append_assoc]
  have hoff : (data.take off).length = off := by
    rw [List.length_take]
    omega
  rw [hdata] at hcap ⊢
  have := h (data.take off) (data.drop (off + enc.length)) hcap
  rwa [hoff] at this

/-- Every success of the parser `p` consumes the encoding of the value it returns: the
    converse of `Decodes`, that what is accepted was written by `enc`. -/
def Consumes (p : List α → StateT Nat (Except ε) β) (enc : β → List α) : Prop :=
  ∀ data off v off', (p data).run off = .ok (v, off') →
    off' = off + (enc v).length ∧ view data off (enc v).length = enc v

/-- Read from the start of a slice that begins with `enc`. -/
theorem Decodes.run_zero {p : List α → StateT Nat (Except ε) β} {v : β} {enc : List α}
    (h : Decodes cap p v enc) (post : List α) (hcap : (enc ++ post).length < cap) :
    (p (enc ++ post)).run 0 = .ok (v, enc.length) := by
  simpa using h [] post (by simpa using hcap)

end Decodes

end ArceOS.Lib.Cursor
