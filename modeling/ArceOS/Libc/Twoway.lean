import ArceOS.Lib.CriticalFactorization
import ArceOS.Libc.Strstr

/-!
# The Two-Way Search of `axlibc`

`twoway_strstr(h, n)` of `c/string.c` is musl's two-way string matcher (Crochemore and
Perrin), the search `strstr` uses for needles of five bytes or more. It runs in four
parts:

- a first loop over the needle measures it, stopping at the end of the haystack as well,
  and fills the byte set of its bytes and `shift[c]`, one past the last index of `c`;
- two loops compute the maximal suffix of the needle, for the order of the bytes and for
  the reversed order, each with the least period of the suffix (Duval's method); the
  later of the two starts, `ms + 1`, splits the needle critically;
- `memcmp(n, n + p, ms + 1)` tells whether the needle has period `p`; if it has, the
  search remembers how much of the needle a shift by `p` keeps matched (`mem0`),
  otherwise it shifts by `MAX(ms, l - ms - 1) + 1`;
- the search loop grows a pointer to the end of the haystack by `memchr`, skips on the
  window's last byte by the shift table, compares the right part of the needle forwards,
  then the left part backwards, and shifts by what each mismatch allows.

This module translates the four parts and proves what the second and third compute. The
maximal-suffix loop keeps Duval's invariant (`MaxSuf.Inv`): the letters read from the
candidate start are self-maximal with least period `p`, and every suffix that starts
before the candidate is below it; at the end the candidate is the maximal suffix and `p`
its least period. The factorization then meets `FactorSpec`: its start is critical and,
for a periodic needle, `p` is the least period of the right part and a period of the
needle. `TwowaySearch` proves the search from these.

## Main results

- `fillTables_spec`: the first loop measures the shorter string and fills the tables;
- `maxSuffix_spec`: the loop finds the maximal suffix and its least period;
- `factorize_spec`: the factorization is critical, with the periods the search needs.
-/

namespace ArceOS.Libc

open ArceOS.Lib.ByteStore ArceOS.Lib.Words

/-! ## §1 The model -/

/-- What the first loop of `twoway_strstr` leaves: `l`, the number of bytes read before
    either string ended, the byte set of the needle's bytes read, and `shift[c]`, one past
    the last index of `c` among them. -/
structure Tables where
  l : ℕ
  byteset : ℕ
  shift : UInt8 → ℕ

/-- `for (l = 0; n[l] && h[l]; l++) BITOP(byteset, n[l], |=), shift[n[l]] = l + 1;`, for at
    most `fuel` rounds. `size_t shift[256]` is not cleared; its entries for bytes outside
    the set are never read, and are 0 here. -/
def fillTables (n h : List UInt8) : ℕ → Tables → Tables
  | 0, t => t
  | fuel + 1, t =>
    if byteAt n t.l ≠ 0 ∧ byteAt h t.l ≠ 0 then
      fillTables n h fuel
        ⟨t.l + 1, bitsetAdd t.byteset (byteAt n t.l),
          Function.update t.shift (byteAt n t.l) (t.l + 1)⟩
    else t

/-- The variables `ip`, `jp`, `k` and `p` of a maximal-suffix loop. `ip` starts at `-1`: a
    `size_t` whose sums with `k` wrap around to `k - 1`, an integer here. -/
structure MaxSuf where
  ip : ℤ
  jp : ℕ
  k : ℕ
  p : ℕ

/-- `ip = -1; jp = 0; k = p = 1;` -/
def MaxSuf.init : MaxSuf := ⟨-1, 0, 1, 1⟩

section Loop

variable {α : Type*} [LinearOrder α] [Inhabited α]

/-- The body of `while (jp + k < l)` in the first maximal-suffix loop, which compares
    `n[ip + k] > n[jp + k]`. The second loop compares `n[ip + k] < n[jp + k]`: it is this
    body over the reversed order of the bytes. -/
def maxSufStep (x : List α) (s : MaxSuf) : MaxSuf :=
  if x[(s.ip + s.k).toNat]! = x[s.jp + s.k]! then
    if s.k = s.p then { s with jp := s.jp + s.p, k := 1 } else { s with k := s.k + 1 }
  else if x[(s.ip + s.k).toNat]! > x[s.jp + s.k]! then
    { s with jp := s.jp + s.k, k := 1, p := ((s.jp + s.k : ℕ) - s.ip).toNat }
  else { ip := s.jp, jp := s.jp + 1, k := 1, p := 1 }

/-- `while (jp + k < l) { ... }`, for at most `fuel` rounds. -/
def maxSufLoop (x : List α) (l : ℕ) : ℕ → MaxSuf → MaxSuf
  | 0, s => s
  | fuel + 1, s => if s.jp + s.k < l then maxSufLoop x l fuel (maxSufStep x s) else s

/-- A maximal-suffix loop over the first `l` letters of `x`; `2 * l` rounds suffice
    (`maxSufLoop_spec`). -/
def maxSuffix (x : List α) (l : ℕ) : MaxSuf := maxSufLoop x l (2 * l) MaxSuf.init

end Loop

/-- `ms`, `p` and `mem0` of the search. -/
structure Factor where
  ms : ℤ
  p : ℕ
  mem0 : ℕ

/-- The bytes of the needle as the loops compare them: `n` is `const unsigned char *`. -/
def byteValues (n : List UInt8) : List ℕ := n.map UInt8.toNat

/-- `if (ip + 1 > ms + 1) ms = ip; else p = p0;`: of the two loops' results, the one whose
    suffix starts later, the first on a tie. -/
def pickLater (s₁ s₂ : MaxSuf) : MaxSuf := if s₂.ip + 1 > s₁.ip + 1 then s₂ else s₁

/-- The start of the right part, `ms + 1`. -/
def Factor.start (f : Factor) : ℕ := (f.ms + 1).toNat

open OrderDual in
/-- `ms` and `p` from the first loop (`ms = ip; p0 = p;`) and the second; then the periodic
    test `memcmp(n, n + p, ms + 1)`. A periodic needle keeps `p` and `mem0 = l - p`,
    another one gets `p = MAX(ms, l - ms - 1) + 1` and `mem0 = 0`. That `MAX` compares
    `size_t`s, and reads as here when `ms ≥ 0`; the test never fails when `ms = -1`, since
    `memcmp` of no bytes is 0. -/
def factorize (n : List UInt8) (l : ℕ) : Factor :=
  let s := pickLater (maxSuffix (byteValues n) l) (maxSuffix ((byteValues n).map toDual) l)
  if memcmp (byteAt n) 0 s.p (s.ip + 1).toNat ≠ 0 then
    ⟨s.ip, (max s.ip (l - s.ip - 1) + 1).toNat, 0⟩
  else ⟨s.ip, s.p, l - s.p⟩

/-- The variables of the search loop: the window `h` and the end pointer `z`, as offsets
    into the haystack, and `mem`, how much of the needle is known to match at `h`. -/
structure Search where
  h : ℕ
  z : ℕ
  mem : ℕ

/-- `if (z - h < l) { size_t grow = l | 63; z2 = memchr(z, 0, grow); if (z2) { z = z2;
    if (z - h < l) return 0; } else z += grow; }`, with `none` for the `return 0`. The end
    pointer never falls behind the window (`SearchInv`), so the pointer difference is the
    difference of the offsets. -/
def growEnd (hay : List UInt8) (l h z : ℕ) : Option ℕ :=
  if z - h < l then
    match memchr (byteAt hay) z 0 (l ||| 63) with
    | some z2 => if z2 - h < l then none else some z2
    | none => some (z + (l ||| 63))
  else some z

/-- `for (k = MAX(ms + 1, mem); n[k] && n[k] == h[k]; k++);`, for at most `fuel` bytes. -/
def rightHalf (n hay : List UInt8) (h : ℕ) : ℕ → ℕ → ℕ
  | 0, k => k
  | fuel + 1, k =>
    if byteAt n k ≠ 0 ∧ byteAt n k = byteAt hay (h + k) then rightHalf n hay h fuel (k + 1)
    else k

/-- `for (k = ms + 1; k > mem && n[k - 1] == h[k - 1]; k--);` -/
def leftHalf (n hay : List UInt8) (h mem : ℕ) : ℕ → ℕ
  | 0 => 0
  | k + 1 => if mem < k + 1 ∧ byteAt n k = byteAt hay (h + k) then leftHalf n hay h mem k else k + 1

/-- One round of the search loop: `.inl r` returns `r`, `.inr s` continues from `s`. -/
def searchStep (n hay : List UInt8) (t : Tables) (f : Factor) (s : Search) :
    Option ℕ ⊕ Search :=
  match growEnd hay t.l s.h s.z with
  | none => .inl none
  | some z =>
    -- check the last byte first; advance by the shift on a mismatch
    if bitsetHas t.byteset (byteAt hay (s.h + t.l - 1)) then
      let k := t.l - t.shift (byteAt hay (s.h + t.l - 1))
      if k ≠ 0 then .inr ⟨s.h + (if k < s.mem then s.mem else k), z, 0⟩
      else
        -- compare the right half
        let k := rightHalf n hay s.h t.l (max (f.ms + 1).toNat s.mem)
        if byteAt n k ≠ 0 then .inr ⟨s.h + (k - f.ms).toNat, z, 0⟩
        else
          -- compare the left half
          let k := leftHalf n hay s.h s.mem (f.ms + 1).toNat
          if k ≤ s.mem then .inl (some s.h) else .inr ⟨s.h + f.p, z, f.mem0⟩
    else .inr ⟨s.h + t.l, z, 0⟩

/-- `for (;;)`, for at most `fuel` rounds. -/
def searchLoop (n hay : List UInt8) (t : Tables) (f : Factor) : ℕ → Search → Option ℕ
  | 0, _ => none
  | fuel + 1, s =>
    match searchStep n hay t f s with
    | .inl r => r
    | .inr s' => searchLoop n hay t f fuel s'

/-- `twoway_strstr(h, n)`: the tables; `return 0` when the haystack ended first; the
    factorization; and the search from the start of the haystack with `z = h` and
    `mem = 0`. `|h| + 1` rounds suffice (`searchLoop_eq`). -/
def twowayStrstr (h n : CStr) : Option ℕ :=
  let t := fillTables n.bytes h.bytes n.bytes.length ⟨0, 0, fun _ => 0⟩
  if byteAt n.bytes t.l ≠ 0 then none
  else searchLoop n.bytes h.bytes t (factorize n.bytes t.l) (h.bytes.length + 1) ⟨0, 0, 0⟩

/-! ## §2 The tables -/

/-- What the tables say of the needle's first `t.l` bytes: the set holds them, and
    `shift[c]` is one past the last index of `c` among them. -/
structure Tables.Inv (n : List UInt8) (t : Tables) : Prop where
  l_le : t.l ≤ n.length
  byteset : ∀ c, bitsetHas t.byteset c = decide (c ∈ n.take t.l)
  shift : ∀ c ∈ n.take t.l, 0 < t.shift c ∧ t.shift c ≤ t.l ∧ byteAt n (t.shift c - 1) = c ∧
    ∀ j, t.shift c ≤ j → j < t.l → byteAt n j ≠ c

theorem Tables.inv_init (n : List UInt8) : Tables.Inv n ⟨0, 0, fun _ => 0⟩ :=
  ⟨Nat.zero_le _, fun c => by simp [bitsetHas], fun c hc => by simp at hc⟩

/-- A round of the first loop adds the byte at `l` to the set and makes it its own shift. -/
theorem Tables.Inv.step {n : List UInt8} {t : Tables} (ht : Tables.Inv n t)
    (hl : t.l < n.length) :
    Tables.Inv n ⟨t.l + 1, bitsetAdd t.byteset (byteAt n t.l),
      Function.update t.shift (byteAt n t.l) (t.l + 1)⟩ := by
  have htake : n.take (t.l + 1) = n.take t.l ++ [byteAt n t.l] := by
    rw [List.take_add_one, List.getElem?_eq_getElem hl, byteAt_of_lt hl]
    rfl
  refine ⟨hl, fun c => ?_, fun c hc => ?_⟩
  · rw [htake, bitsetHas_bitsetAdd, ht.byteset]
    simp
  · rw [htake, List.mem_append, List.mem_singleton] at hc
    by_cases hcb : c = byteAt n t.l
    · -- the byte just read: its last index is `l`
      subst hcb
      simp only [Function.update_self]
      exact ⟨Nat.succ_pos _, le_rfl, rfl, fun j hj hjl => absurd hjl (by omega)⟩
    · -- another byte keeps its shift, and is not the byte at `l`
      dsimp only
      rw [Function.update_of_ne hcb]
      obtain ⟨hpos, hle, hat, hafter⟩ := ht.shift c (hc.resolve_right hcb)
      refine ⟨hpos, by omega, hat, fun j hj hjl => ?_⟩
      rcases Nat.lt_or_ge j t.l with hjl' | hjl'
      · exact hafter j hj hjl'
      · rw [show j = t.l by omega]
        exact Ne.symm hcb

/-- The first loop reads up to the end of the shorter string. -/
theorem fillTables_spec (n h : CStr) :
    Tables.Inv n.bytes (fillTables n.bytes h.bytes n.bytes.length ⟨0, 0, fun _ => 0⟩) ∧
      (fillTables n.bytes h.bytes n.bytes.length ⟨0, 0, fun _ => 0⟩).l =
        min n.bytes.length h.bytes.length := by
  -- by induction on the fuel, from any table of at most `|h|` bytes
  have hrun : ∀ fuel t, Tables.Inv n.bytes t → t.l ≤ h.bytes.length →
      n.bytes.length ≤ fuel + t.l →
      Tables.Inv n.bytes (fillTables n.bytes h.bytes fuel t) ∧
        (fillTables n.bytes h.bytes fuel t).l = min n.bytes.length h.bytes.length := by
    intro fuel
    induction fuel with
    | zero =>
      intro t ht hth hfuel
      exact ⟨ht, by have := ht.l_le; simp only [fillTables]; omega⟩
    | succ fuel ih =>
      intro t ht hth hfuel
      rw [fillTables]
      split_ifs with hbytes
      · rw [ne_eq, CStr.byteAt_eq_zero_iff, ne_eq, CStr.byteAt_eq_zero_iff] at hbytes
        exact ih _ (ht.step (by omega)) (by dsimp only; omega) (by dsimp only; omega)
      · -- one of the strings ends at `l`
        rw [not_and_or, not_not, not_not, CStr.byteAt_eq_zero_iff,
          CStr.byteAt_eq_zero_iff] at hbytes
        exact ⟨ht, by have := ht.l_le; omega⟩
  exact hrun _ _ (Tables.inv_init _) (Nat.zero_le _) (by omega)

/-! ## §3 The maximal-suffix loop -/

namespace MaxSuf

variable {α : Type*} [LinearOrder α] {x : List α} {s : MaxSuf}

/-- `ip + 1`, where the candidate suffix starts. -/
def start (s : MaxSuf) : ℕ := (s.ip + 1).toNat

/-- The letters read from the candidate start, `x[ip + 1 .. jp + k)`. -/
def window (x : List α) (s : MaxSuf) : List α := (x.drop s.start).take (s.jp + s.k - s.start)

/-- `ip + 1 + jp + k`, which each round raises. -/
def measure (s : MaxSuf) : ℕ := s.start + s.jp + s.k

/-- Duval's invariant of the loop. The candidate read so far, `x[ip + 1 .. jp + k)`, is
    `jp - ip` letters, a whole number of its least period `p`, and then `k - 1` more; it
    is self-maximal; and every suffix of `x` that starts before it is below it. -/
structure Inv (x : List α) (s : MaxSuf) : Prop where
  ip_ge : -1 ≤ s.ip
  ip_lt : s.ip < s.jp
  k_pos : 0 < s.k
  k_le : s.k ≤ s.p
  end_le : s.jp + s.k ≤ x.length
  dvd : s.p ∣ s.jp + 1 - s.start
  minPeriod : IsMinPeriod (s.window x) s.p
  selfMax : SelfMax (s.window x)
  before : ∀ j < s.start, x.drop j < x.drop s.start

theorem Inv.start_eq (hs : Inv x s) : (s.start : ℤ) = s.ip + 1 := by
  have := hs.ip_ge
  simp only [start]
  omega

theorem Inv.start_le (hs : Inv x s) : s.start ≤ s.jp := by
  have := hs.start_eq
  have := hs.ip_lt
  omega

theorem Inv.length_window (hs : Inv x s) : (s.window x).length = s.jp + s.k - s.start := by
  have := hs.end_le
  have := hs.start_le
  simp only [window, List.length_take, List.length_drop]
  omega

/-- The candidate before its last `k - 1` letters is `m ≥ 1` whole periods. -/
theorem Inv.periods (hs : Inv x s) : ∃ m, s.jp + 1 - s.start = (m + 1) * s.p := by
  obtain ⟨c, hc⟩ := hs.dvd
  have := hs.start_le
  rcases c with _ | m
  · simp at hc
    omega
  · exact ⟨m, by rw [hc, Nat.mul_comm]⟩

theorem Inv.p_le (hs : Inv x s) : s.p ≤ s.jp + 1 - s.start := by
  obtain ⟨m, hm⟩ := hs.periods
  rw [hm, Nat.succ_mul]
  omega

theorem Inv.measure_lt (hs : Inv x s) (hlt : s.jp + s.k < x.length) :
    s.measure < 2 * x.length := by
  have := hs.start_le
  simp only [measure]
  omega

theorem inv_init (hx : 0 < x.length) : Inv x MaxSuf.init := by
  have hwin : MaxSuf.init.window x = [x[0]] := by
    cases x with
    | nil => simp at hx
    | cons a x => rfl
  exact ⟨by decide, by decide, Nat.one_pos, le_rfl, by simp [init]; omega, Nat.one_dvd _,
    hwin ▸ isMinPeriod_singleton _, hwin ▸ selfMax_singleton _,
    fun j hj => absurd hj (by simp [start, init])⟩

section Read

variable [Inhabited α]

/-- The letter the loop compares first, `n[ip + k]`, is the candidate's letter `k - 1`. -/
theorem Inv.window_getElem?_pred (hs : Inv x s) :
    (s.window x)[s.k - 1]? = some x[(s.ip + s.k).toNat]! := by
  have := hs.start_eq
  have := hs.start_le
  have := hs.k_pos
  have hi : (s.ip + s.k).toNat = s.start + (s.k - 1) := by omega
  have hlt : s.start + (s.k - 1) < x.length := by have := hs.end_le; omega
  rw [window, List.getElem?_take_of_lt (by omega), List.getElem?_drop, hi, getElem!_pos x _ hlt,
    List.getElem?_eq_getElem hlt]

/-- It is also the candidate's letter a period back from its end. -/
theorem Inv.window_getElem?_sub (hs : Inv x s) :
    (s.window x)[(s.window x).length - s.p]? = some x[(s.ip + s.k).toNat]! := by
  obtain ⟨m, hm⟩ := hs.periods
  have := hs.k_pos
  have := hs.start_le
  have := hs.minPeriod.pos
  rw [← hs.window_getElem?_pred, hs.minPeriod.period.getElem?_add_mul (s.k - 1) m
    (by rw [hs.length_window]; rw [Nat.succ_mul] at hm; omega), hs.length_window]
  rw [Nat.succ_mul] at hm
  congr 1
  omega

/-- The letter after the candidate, `n[jp + k]`, extends it. -/
theorem Inv.window_succ (hs : Inv x s) (hlt : s.jp + s.k < x.length) :
    (x.drop s.start).take (s.jp + s.k + 1 - s.start) = s.window x ++ [x[s.jp + s.k]!] := by
  have := hs.start_le
  rw [show s.jp + s.k + 1 - s.start = s.jp + s.k - s.start + 1 by omega, List.take_add_one,
    List.getElem?_drop, show s.start + (s.jp + s.k - s.start) = s.jp + s.k by omega,
    List.getElem?_eq_getElem hlt, getElem!_pos x _ hlt]
  rfl

/-- A round that keeps the candidate start and reads one more letter keeps the invariant
    when the longer candidate has the new period and is self-maximal. -/
theorem Inv.extend (hs : Inv x s) (hlt : s.jp + s.k < x.length) {s' : MaxSuf}
    (hip : s'.ip = s.ip) (hjp : s.jp ≤ s'.jp) (hend : s'.jp + s'.k = s.jp + s.k + 1)
    (hk : 0 < s'.k) (hkp : s'.k ≤ s'.p) (hdvd : s'.p ∣ s'.jp + 1 - s.start)
    (hmin : IsMinPeriod (s.window x ++ [x[s.jp + s.k]!]) s'.p)
    (hself : SelfMax (s.window x ++ [x[s.jp + s.k]!])) :
    Inv x s' ∧ s.measure < s'.measure := by
  have hstart : s'.start = s.start := by simp only [start, hip]
  have hwin : s'.window x = s.window x ++ [x[s.jp + s.k]!] := by
    rw [← hs.window_succ hlt, window, hstart, hend]
  have := hs.ip_lt
  refine ⟨⟨hip ▸ hs.ip_ge, by omega, hk, hkp, by omega, hstart ▸ hdvd, hwin ▸ hmin,
    hwin ▸ hself, hstart ▸ hs.before⟩, ?_⟩
  simp only [measure, hstart]
  omega

/-- `n[ip + k] == n[jp + k]`: the candidate grows by the letter a period back; `jp` moves
    a period on when `k` reaches `p`. -/
theorem Inv.step_of_eq (hs : Inv x s) (hlt : s.jp + s.k < x.length)
    (hab : x[(s.ip + s.k).toNat]! = x[s.jp + s.k]!) :
    Inv x (maxSufStep x s) ∧ s.measure < (maxSufStep x s).measure := by
  have hb := hs.window_getElem?_sub
  rw [hab] at hb
  have hpw : s.p ≤ (s.window x).length := by
    have := hs.p_le
    have := hs.k_pos
    rw [hs.length_window]
    omega
  have hmin := hs.minPeriod.append_of_eq hpw hb
  have hself := hs.selfMax.append_of_le hs.minPeriod hb le_rfl
  have := hs.start_le
  rw [maxSufStep, if_pos hab]
  split_ifs with hkp
  · refine hs.extend hlt rfl (by dsimp only; omega) (by dsimp only; omega) Nat.one_pos
      hs.minPeriod.pos ?_ hmin hself
    dsimp only
    rw [show s.jp + s.p + 1 - s.start = s.jp + 1 - s.start + s.p by omega]
    exact Nat.dvd_add hs.dvd (Nat.dvd_refl _)
  · exact hs.extend hlt rfl le_rfl rfl (Nat.succ_pos _) (by have := hs.k_le; dsimp only; omega)
      hs.dvd hmin hself

/-- `n[ip + k] > n[jp + k]`: the candidate grows by a smaller letter, and its least period
    becomes its whole length, `jp - ip` once `jp` has moved by `k`. -/
theorem Inv.step_of_gt (hs : Inv x s) (hlt : s.jp + s.k < x.length)
    (hne : x[(s.ip + s.k).toNat]! ≠ x[s.jp + s.k]!)
    (hab : x[(s.ip + s.k).toNat]! > x[s.jp + s.k]!) :
    Inv x (maxSufStep x s) ∧ s.measure < (maxSufStep x s).measure := by
  have ha := hs.window_getElem?_sub
  have hmin := hs.minPeriod.append_of_lt hs.selfMax ha hab
  have hself := hs.selfMax.append_of_le hs.minPeriod ha hab.le
  have := hs.start_eq
  have := hs.start_le
  have hp : ((s.jp + s.k : ℕ) - s.ip).toNat = (s.window x).length + 1 := by
    rw [hs.length_window]
    omega
  rw [maxSufStep, if_neg hne, if_pos hab]
  refine hs.extend hlt rfl (by dsimp only; omega) rfl Nat.one_pos
    (by dsimp only; omega) ?_ (by dsimp only; rw [hp]; exact hmin) hself
  dsimp only
  rw [hp, hs.length_window, show s.jp + s.k + 1 - s.start = s.jp + s.k - s.start + 1 by omega]

/-- `n[ip + k] < n[jp + k]`: the suffix from the last full period, `jp + 1`, is greater
    than every suffix before it, and becomes the candidate, one letter long. -/
theorem Inv.step_of_lt (hs : Inv x s) (hlt : s.jp + s.k < x.length)
    (hab : x[(s.ip + s.k).toNat]! < x[s.jp + s.k]!) :
    Inv x ⟨s.jp, s.jp + 1, 1, 1⟩ ∧ s.measure < (⟨s.jp, s.jp + 1, 1, 1⟩ : MaxSuf).measure := by
  have := hs.start_le
  have := hs.k_pos
  have hp := hs.p_le
  have hk := hs.k_le
  have hstart : (⟨s.jp, s.jp + 1, 1, 1⟩ : MaxSuf).start = s.jp + 1 := by
    simp only [start]
    omega
  have hnext : s.jp + 1 < x.length := by omega
  have hwin : (⟨s.jp, s.jp + 1, 1, 1⟩ : MaxSuf).window x = [x[s.jp + 1]] := by
    rw [window, hstart, List.drop_eq_getElem_cons hnext,
      show s.jp + 1 + 1 - (s.jp + 1) = 1 by omega]
    rfl
  -- the candidate followed by `b` and the rest of `x`
  have hsplit : x.drop s.start = s.window x ++ x[s.jp + s.k]! :: x.drop (s.jp + s.k + 1) := by
    have := List.take_append_drop (s.jp + s.k - s.start) (x.drop s.start)
    rw [List.drop_drop, show s.start + (s.jp + s.k - s.start) = s.jp + s.k by omega,
      List.drop_eq_getElem_cons hlt, ← getElem!_pos x _ hlt] at this
    exact this.symm
  obtain ⟨m, hm⟩ := hs.periods
  have hlen : (s.window x).length = (m + 1) * s.p + (s.k - 1) := by
    rw [hs.length_window]
    omega
  have hgreater : ∀ t < (m + 1) * s.p, x.drop (s.start + t) < x.drop (s.jp + 1) := fun t ht => by
    have := hs.selfMax.drop_lt_drop_of_lt hs.minPeriod.period hlen hs.window_getElem?_pred hab
      (x.drop (s.jp + s.k + 1)) ht
    rwa [← hsplit, List.drop_drop, List.drop_drop,
      show s.start + (m + 1) * s.p = s.jp + 1 by omega] at this
  refine ⟨⟨by dsimp only; omega, by dsimp only; omega, Nat.one_pos, le_rfl,
    by dsimp only; omega, Nat.one_dvd _, hwin ▸ isMinPeriod_singleton _,
    hwin ▸ selfMax_singleton _, fun j hj => ?_⟩, by simp only [measure, hstart]; omega⟩
  rw [hstart] at hj ⊢
  rcases Nat.lt_or_ge j s.start with hjs | hjs
  · have h0 := hgreater 0 (by rw [Nat.succ_mul]; have := hs.minPeriod.pos; omega)
    rw [Nat.add_zero] at h0
    exact lt_trans (hs.before j hjs) h0
  · have := hgreater (j - s.start) (by omega)
    rwa [show s.start + (j - s.start) = j by omega] at this

/-- Every round keeps the invariant and raises the measure. -/
theorem Inv.step (hs : Inv x s) (hlt : s.jp + s.k < x.length) :
    Inv x (maxSufStep x s) ∧ s.measure < (maxSufStep x s).measure := by
  rcases lt_trichotomy x[(s.ip + s.k).toNat]! x[s.jp + s.k]! with hab | hab | hab
  · have := hs.step_of_lt hlt hab
    rwa [maxSufStep, if_neg hab.ne, if_neg (not_lt.mpr hab.le)]
  · exact hs.step_of_eq hlt hab
  · exact hs.step_of_gt hlt hab.ne' hab

end Read

end MaxSuf

open MaxSuf in
/-- `2 * l` rounds take the loop to its end: the measure starts at 1, each round raises it,
    and it stays below `2 * l` while the loop goes on. -/
theorem maxSufLoop_spec {α : Type*} [LinearOrder α] [Inhabited α] {x : List α} :
    ∀ (fuel : ℕ) (s : MaxSuf), Inv x s → 2 * x.length ≤ fuel + s.measure →
      Inv x (maxSufLoop x x.length fuel s) ∧
        (maxSufLoop x x.length fuel s).jp + (maxSufLoop x x.length fuel s).k = x.length
  | 0, s, hs, hfuel => by
    have : ¬ s.jp + s.k < x.length := fun hlt => by have := hs.measure_lt hlt; omega
    exact ⟨hs, by have := hs.end_le; simp only [maxSufLoop]; omega⟩
  | fuel + 1, s, hs, hfuel => by
    rw [maxSufLoop]
    split_ifs with hlt
    · obtain ⟨hs', hμ⟩ := hs.step hlt
      exact maxSufLoop_spec fuel _ hs' (by omega)
    · exact ⟨hs, by have := hs.end_le; omega⟩

open MaxSuf in
/-- The maximal-suffix loop finds the start of the maximal suffix and its least period. -/
theorem maxSuffix_spec {α : Type*} [LinearOrder α] [Inhabited α] {x : List α} {l : ℕ}
    (hl : x.length = l) (hx : 0 < l) :
    IsMaxSuffix x (maxSuffix x l).start ∧
      IsMinPeriod (x.drop (maxSuffix x l).start) (maxSuffix x l).p ∧
      ((maxSuffix x l).start : ℤ) = (maxSuffix x l).ip + 1 := by
  subst hl
  unfold maxSuffix
  obtain ⟨hs, hend⟩ := maxSufLoop_spec (2 * x.length) MaxSuf.init (inv_init hx)
    (by simp [MaxSuf.measure, init])
  -- at the end the candidate is the whole suffix from its start
  have hwin : (maxSufLoop x x.length (2 * x.length) init).window x =
      x.drop (maxSufLoop x x.length (2 * x.length) init).start := by
    rw [window, List.take_of_length_le]
    rw [List.length_drop]
    omega
  have hlt : (maxSufLoop x x.length (2 * x.length) init).start < x.length := by
    have := hs.start_le
    have := hs.k_pos
    omega
  exact ⟨isMaxSuffix_of_selfMax hlt hs.before (hwin ▸ hs.selfMax), hwin ▸ hs.minPeriod,
    hs.start_eq⟩

/-! ## §4 The factorization -/

/-- Two bytes of a string are equal as entries exactly when `byteAt` reads them equal. -/
theorem getElem?_eq_getElem?_iff {n : List UInt8} {i j : ℕ} (hi : i < n.length)
    (hj : j < n.length) : n[i]? = n[j]? ↔ byteAt n i = byteAt n j := by
  rw [List.getElem?_eq_getElem hi, List.getElem?_eq_getElem hj, Option.some_inj, byteAt_of_lt hi,
    byteAt_of_lt hj]

/-- `memcmp(n, n + p, ℓ)` is 0 exactly when the first `ℓ` bytes recur `p` places on. -/
theorem memcmp_byteAt_eq_zero_iff {n : List UInt8} {p ℓ : ℕ} (h : p + ℓ ≤ n.length) :
    memcmp (byteAt n) 0 p ℓ = 0 ↔ ∀ i < ℓ, n[i]? = n[p + i]? := by
  rw [memcmp_eq_zero_iff, readRange, readRange, List.map_inj_left]
  simp only [List.mem_range, Nat.zero_add]
  exact forall₂_congr fun i hi => (getElem?_eq_getElem?_iff (by omega) (by omega)).symm

/-- What the search needs of the factorization `f`, with `P` the least period of the part
    of the needle from `ℓ = ms + 1`: `ℓ` is critical; a needle whose first `ℓ` bytes recur
    `P` places on is shifted by `P` with `l - P` bytes remembered, another one by
    `MAX(ms, l - ms - 1) + 1` with nothing remembered. -/
structure FactorSpec (n : List UInt8) (f : Factor) (P : ℕ) : Prop where
  ms_ge : -1 ≤ f.ms
  critical : Critical n f.start
  minPeriod : IsMinPeriod (n.drop f.start) P
  periodic : (∀ i < f.start, n[i]? = n[P + i]?) → f.p = P ∧ f.mem0 = n.length - P
  aperiodic : ¬ (∀ i < f.start, n[i]? = n[P + i]?) →
    f.p = (max f.ms (n.length - f.ms - 1) + 1).toNat ∧ f.mem0 = 0

open OrderDual in
/-- Of the two maximal suffixes, the later one starts a critical point of the needle, and
    its loop's `p` is the least period of the part from there. -/
theorem pickLater_spec {n : List UInt8} (hn : 0 < n.length) :
    ((pickLater (maxSuffix (byteValues n) n.length)
        (maxSuffix ((byteValues n).map toDual) n.length)).start : ℤ) =
      (pickLater (maxSuffix (byteValues n) n.length)
        (maxSuffix ((byteValues n).map toDual) n.length)).ip + 1 ∧
    Critical n (pickLater (maxSuffix (byteValues n) n.length)
        (maxSuffix ((byteValues n).map toDual) n.length)).start ∧
    IsMinPeriod (n.drop (pickLater (maxSuffix (byteValues n) n.length)
        (maxSuffix ((byteValues n).map toDual) n.length)).start)
      (pickLater (maxSuffix (byteValues n) n.length)
        (maxSuffix ((byteValues n).map toDual) n.length)).p := by
  have hx : (byteValues n).length = n.length := List.length_map _
  obtain ⟨hmax₁, hmin₁, hip₁⟩ := maxSuffix_spec hx hn
  obtain ⟨hmax₂, hmin₂, hip₂⟩ :=
    maxSuffix_spec (x := (byteValues n).map toDual) (by rw [List.length_map, hx]) hn
  have hinj : Function.Injective UInt8.toNat := fun _ _ h => UInt8.toNat_inj.mp h
  -- from the byte values back to the bytes
  have hback : ∀ ℓ p, Critical (byteValues n) ℓ → IsMinPeriod ((byteValues n).drop ℓ) p →
      Critical n ℓ ∧ IsMinPeriod (n.drop ℓ) p := fun ℓ p hc hp =>
    ⟨(critical_map_iff hinj).mp hc,
      (IsMinPeriod.map_iff hinj).mp (by rwa [byteValues, ← List.map_drop] at hp)⟩
  rw [pickLater]
  split_ifs with hlater
  · -- the maximal suffix for the reversed order starts later
    rw [← List.map_drop, IsMinPeriod.map_iff toDual.injective] at hmin₂
    exact ⟨hip₂, hback _ _ (critical_of_isMaxSuffix_dual hmax₂ hmax₁ (by omega)) hmin₂⟩
  · exact ⟨hip₁, hback _ _ (critical_of_isMaxSuffix hmax₁ hmax₂ (by omega)) hmin₁⟩

open OrderDual in
/-- The factorization of a nonempty needle meets `FactorSpec`. -/
theorem factorize_spec {n : List UInt8} (hn : 0 < n.length) :
    ∃ P, FactorSpec n (factorize n n.length) P := by
  obtain ⟨hip, hcrit, hmin⟩ := pickLater_spec hn
  set s := pickLater (maxSuffix (byteValues n) n.length)
    (maxSuffix ((byteValues n).map toDual) n.length)
  have hpv : s.p + s.start ≤ n.length := by
    have := hmin.le_length (by rw [List.length_drop]; have := hcrit.lt_length; omega)
    rw [List.length_drop] at this
    have := hcrit.lt_length
    omega
  have hmemcmp := memcmp_byteAt_eq_zero_iff hpv
  have hms : -1 ≤ s.ip := by omega
  refine ⟨s.p, ?_⟩
  show FactorSpec n (if memcmp (byteAt n) 0 s.p (s.ip + 1).toNat ≠ 0 then
    ⟨s.ip, (max s.ip (n.length - s.ip - 1) + 1).toNat, 0⟩ else ⟨s.ip, s.p, n.length - s.p⟩) s.p
  split_ifs with hne
  · exact ⟨hms, hcrit, hmin, fun h => absurd (hmemcmp.mpr h) hne, fun _ => ⟨rfl, rfl⟩⟩
  · exact ⟨hms, hcrit, hmin, fun _ => ⟨rfl, rfl⟩,
      fun h => absurd (hmemcmp.mp (not_not.mp hne)) h⟩

end ArceOS.Libc
