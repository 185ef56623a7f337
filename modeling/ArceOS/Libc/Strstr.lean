import ArceOS.Lib.Window
import ArceOS.Libc.String

/-!
# `strstr` of `axlibc`

`strstr(h, n)` of `c/string.c` finds the needle's first byte with `strchr` and then
searches from there by the needle's length: needles of two, three and four bytes with a
rolling word (`twobyte_strstr`, `threebyte_strstr`, `fourbyte_strstr`), longer ones with
the two-way algorithm. The word of a short search holds the last bytes of the haystack,
shifted by eight bits at each step, and is compared with the needle's word; the loops are
`ArceOS.Lib.Window.rollFind`, each with its own packing and shift.

The specification is the plain search, `firstOccurrence`: the first offset from which
the haystack starts with the needle. The two-way search is a parameter here, modelled
as `twowayStrstr` in `Libc.Twoway`; the results below are for every needle of at most
four bytes, whatever that search is, and `Libc.TwowaySearch` extends them to every needle
through `strstr_eq_of_strstrFrom`.

## Main results

- `toNat_pack2`, `toNat_pack3`, `toNat_pack4`: the words as numbers;
- `twobyteStrstr_eq`, `threebyteStrstr_eq`, `fourbyteStrstr_eq`: each rolling search is
  the plain search;
- `strstr_eq_of_strstrFrom`: `strstr` is the plain search wherever the searches from the
  needle's first byte are;
- `strstr_of_short`: `strstr` finds the first occurrence of every needle of at most four
  bytes.
-/

namespace ArceOS.Libc

open ArceOS.Lib.Window

/-! ## §1 The plain search -/

/-- The first offset from which `h` starts with `n`. -/
def firstOccurrence (h n : List UInt8) : Option Nat :=
  (List.range (h.length + 1)).find? fun q => n.isPrefixOf (h.drop q)

/-- A C string from its `q`-th byte on. -/
def CStr.drop (s : CStr) (q : Nat) : CStr :=
  ⟨s.bytes.drop q, fun h => s.nul_not_mem (List.mem_of_mem_drop h)⟩

@[simp] theorem CStr.bytes_drop (s : CStr) (q : Nat) : (s.drop q).bytes = s.bytes.drop q := rfl

theorem CStr.byteAt_eq_zero_iff (s : CStr) (i : Nat) : byteAt s.bytes i = 0 ↔ s.bytes.length ≤ i :=
  ⟨fun h => Nat.le_of_not_lt fun hi => s.byteAt_ne_zero hi h, byteAt_of_le⟩

/-- A needle that starts the haystack is found at once. -/
theorem firstOccurrence_eq_zero {h n : List UInt8} (hp : n <+: h) :
    firstOccurrence h n = some 0 := by
  rw [firstOccurrence, List.range_succ_eq_map, List.find?_cons, List.drop_zero,
    List.isPrefixOf_iff_prefix.mpr hp]

/-- A needle found at `q` fits in what is left of the haystack from `q`. -/
theorem length_le_of_isPrefixOf_drop {h n : List UInt8} {q : Nat}
    (hp : n.isPrefixOf (h.drop q) = true) : n.length ≤ h.length - q := by
  have hlen := (List.isPrefixOf_iff_prefix.mp hp).length_le
  rwa [List.length_drop] at hlen

/-- A needle longer than what is left of the haystack is found nowhere. -/
theorem firstOccurrence_of_length_lt {h n : List UInt8} (hl : h.length < n.length) :
    firstOccurrence h n = none := by
  rw [firstOccurrence, List.find?_eq_none]
  intro q _ hq
  have := length_le_of_isPrefixOf_drop hq
  omega

/-- A needle whose first byte the haystack lacks is found nowhere. -/
theorem firstOccurrence_of_not_mem {h n : List UInt8} {c : UInt8} (hc : n.head? = some c)
    (hnot : c ∉ h) : firstOccurrence h n = none := by
  rw [firstOccurrence, List.find?_eq_none]
  intro q _ hq
  obtain ⟨t, ht⟩ := List.isPrefixOf_iff_prefix.mp hq
  have hmem : c ∈ h.drop q := by
    rw [← ht]
    obtain ⟨rest, rfl⟩ := List.head?_eq_some_iff.mp hc
    simp
  exact hnot (List.mem_of_mem_drop hmem)

/-- With no occurrence before `q`, the search may start at `q`. -/
theorem firstOccurrence_drop {h n : List UInt8} {q : Nat} (hq : q ≤ h.length)
    (hbefore : ∀ j < q, n.isPrefixOf (h.drop j) = false) :
    firstOccurrence h n = (firstOccurrence (h.drop q) n).map (q + ·) := by
  have hsplit : h.length + 1 = q + ((h.drop q).length + 1) := by
    simp only [List.length_drop]
    omega
  have hnone : (List.range q).find? (fun j => n.isPrefixOf (h.drop j)) = none :=
    List.find?_eq_none.mpr fun j hj => by simp [hbefore j (List.mem_range.mp hj)]
  rw [firstOccurrence, hsplit, List.range_add, List.find?_append, hnone, Option.none_or,
    List.find?_map, firstOccurrence]
  congr 2
  funext j
  simp [List.drop_drop]

/-- The windows that lie inside the haystack are its prefixes of the needle's length, so
    searching them is the plain search. -/
theorem find?_window_eq {xs n : List UInt8} {k : Nat} (hn : n.length = k + 1) :
    ((List.range (xs.length - k)).find? fun j => window (byteAt xs) (k + 1) j = n) =
      firstOccurrence xs n := by
  rw [firstOccurrence, find?_range_eq_of_ge (m := xs.length - k) (n := xs.length + 1)
    (p := fun q => n.isPrefixOf (xs.drop q)) (by omega)]
  · apply List.find?_congr
    intro j hj
    have hj' := List.mem_range.mp hj
    -- inside the haystack a window is a prefix of the rest
    have hwin : window (byteAt xs) (k + 1) j = (xs.drop j).take (k + 1) := by
      apply List.ext_getElem
      · simp only [length_window, List.length_take, List.length_drop]
        omega
      · intro i h₁ _
        simp only [window, List.getElem_map, List.getElem_range, List.getElem_take,
          List.getElem_drop]
        exact byteAt_of_lt (by simp at h₁; omega)
    rw [hwin, Bool.eq_iff_iff, decide_eq_true_iff, List.isPrefixOf_iff_prefix,
      List.prefix_iff_eq_take, hn, eq_comm]
  · intro j hj _
    rw [Bool.eq_false_iff]
    intro hp
    have := length_le_of_isPrefixOf_drop hp
    omega

/-! ## §2 The words of the short searches -/

/-- `n[0] << 8 | n[1]`, as `uint16_t`. -/
def pack2 (s : List UInt8) : UInt16 := (byteAt s 0).toUInt16 <<< 8 ||| (byteAt s 1).toUInt16

/-- `(uint32_t)n[0] << 24 | n[1] << 16 | n[2] << 8`. -/
def pack3 (s : List UInt8) : UInt32 :=
  (byteAt s 0).toUInt32 <<< 24 ||| (byteAt s 1).toUInt32 <<< 16 ||| (byteAt s 2).toUInt32 <<< 8

/-- `(uint32_t)n[0] << 24 | n[1] << 16 | n[2] << 8 | n[3]`. -/
def pack4 (s : List UInt8) : UInt32 :=
  (byteAt s 0).toUInt32 <<< 24 ||| (byteAt s 1).toUInt32 <<< 16 |||
    (byteAt s 2).toUInt32 <<< 8 ||| (byteAt s 3).toUInt32

section Words

variable (s : List UInt8)

theorem toNat_pack2 : (pack2 s).toNat = (byteAt s 0).toNat * 2 ^ 8 + (byteAt s 1).toNat := by
  have h0 := (byteAt s 0).toNat_lt
  have h1 := (byteAt s 1).toNat_lt
  simp only [pack2, UInt16.toNat_or, UInt16.toNat_shiftLeft, UInt8.toNat_toUInt16,
    Nat.shiftLeft_eq, UInt16.reduceToNat, Nat.reduceMod]
  rw [Nat.mod_eq_of_lt (by omega), mul_two_pow_or h1]

theorem toNat_pack3 : (pack3 s).toNat =
    (((byteAt s 0).toNat * 2 ^ 8 + (byteAt s 1).toNat) * 2 ^ 8 + (byteAt s 2).toNat) * 2 ^ 8 := by
  have h0 := (byteAt s 0).toNat_lt
  have h1 := (byteAt s 1).toNat_lt
  have h2 := (byteAt s 2).toNat_lt
  simp only [pack3, UInt32.toNat_or, UInt32.toNat_shiftLeft, UInt8.toNat_toUInt32,
    Nat.shiftLeft_eq, UInt32.reduceToNat, Nat.reduceMod]
  generalize (byteAt s 0).toNat = a at *
  generalize (byteAt s 1).toNat = b at *
  generalize (byteAt s 2).toNat = c at *
  -- the three bytes land on disjoint bits: each `|||` is a sum
  rw [show a * 2 ^ 24 % 2 ^ 32 = a * 2 ^ 8 * 2 ^ 16 by omega,
    show b * 2 ^ 16 % 2 ^ 32 = b * 2 ^ 16 by omega, show c * 2 ^ 8 % 2 ^ 32 = c * 2 ^ 8 by omega,
    mul_two_pow_or_mul_two_pow h1, show (a * 2 ^ 8 + b) * 2 ^ 16 = (a * 2 ^ 8 + b) * 2 ^ 8 * 2 ^ 8 by
      omega, mul_two_pow_or_mul_two_pow h2]

/-- The word of `fourbyte_strstr` is that of `threebyte_strstr` with the fourth byte in
    its low bits. -/
theorem toNat_pack4 : (pack4 s).toNat =
    (((byteAt s 0).toNat * 2 ^ 8 + (byteAt s 1).toNat) * 2 ^ 8 + (byteAt s 2).toNat) * 2 ^ 8 +
      (byteAt s 3).toNat := by
  have hpack : pack4 s = pack3 s ||| (byteAt s 3).toUInt32 := rfl
  rw [hpack, UInt32.toNat_or, toNat_pack3, UInt8.toNat_toUInt32,
    mul_two_pow_or (byteAt s 3).toNat_lt]

end Words

/-- `hw << 8 | *++h` in `uint16_t`, the step of `twobyte_strstr`. -/
def roll2 (hw : UInt16) (c : UInt8) : UInt16 := hw <<< 8 ||| c.toUInt16

/-- `(hw | *++h) << 8` in `uint32_t`, the step of `threebyte_strstr`. -/
def roll3 (hw : UInt32) (c : UInt8) : UInt32 := (hw ||| c.toUInt32) <<< 8

/-- `hw << 8 | *++h` in `uint32_t`, the step of `fourbyte_strstr`. -/
def roll4 (hw : UInt32) (c : UInt8) : UInt32 := hw <<< 8 ||| c.toUInt32

/-- Lists of `k` bytes are equal when their bytes are. -/
theorem eq_of_byteAt {u v : List UInt8} {k : Nat} (hu : u.length = k) (hv : v.length = k)
    (h : ∀ i < k, (byteAt u i).toNat = (byteAt v i).toNat) : u = v := by
  apply List.ext_getElem (hu.trans hv.symm)
  intro i h₁ h₂
  rw [← byteAt_of_lt h₁, ← byteAt_of_lt h₂]
  exact UInt8.toNat_inj.mp (h i (by omega))

/-- A word read off a window of a string is the word read off the string. -/
theorem byteAt_window (s : List UInt8) {k i : Nat} (hi : i < k) :
    byteAt (window (byteAt s) k 0) i = byteAt s i := by
  rw [byteAt_of_lt (by simpa using hi)]
  simp [window]

theorem pack2_inj (u v : List UInt8) (hu : u.length = 2) (hv : v.length = 2)
    (h : pack2 u = pack2 v) : u = v := by
  have h' := congrArg UInt16.toNat h
  rw [toNat_pack2, toNat_pack2] at h'
  have := (byteAt u 1).toNat_lt
  have := (byteAt v 1).toNat_lt
  apply eq_of_byteAt hu hv
  intro i hi
  interval_cases i <;> omega

theorem pack3_inj (u v : List UInt8) (hu : u.length = 3) (hv : v.length = 3)
    (h : pack3 u = pack3 v) : u = v := by
  have h' := congrArg UInt32.toNat h
  rw [toNat_pack3, toNat_pack3] at h'
  have := (byteAt u 1).toNat_lt
  have := (byteAt v 1).toNat_lt
  have := (byteAt u 2).toNat_lt
  have := (byteAt v 2).toNat_lt
  apply eq_of_byteAt hu hv
  intro i hi
  interval_cases i <;> omega

theorem pack4_inj (u v : List UInt8) (hu : u.length = 4) (hv : v.length = 4)
    (h : pack4 u = pack4 v) : u = v := by
  have h' := congrArg UInt32.toNat h
  rw [toNat_pack4, toNat_pack4] at h'
  have := (byteAt u 1).toNat_lt
  have := (byteAt v 1).toNat_lt
  have := (byteAt u 2).toNat_lt
  have := (byteAt v 2).toNat_lt
  have := (byteAt u 3).toNat_lt
  have := (byteAt v 3).toNat_lt
  apply eq_of_byteAt hu hv
  intro i hi
  interval_cases i <;> omega

/-- The step of `twobyte_strstr` keeps the last two bytes. -/
theorem pack2_roll (a c : UInt8) (u : List UInt8) (hu : u.length = 1) :
    roll2 (pack2 (a :: u)) c = pack2 (u ++ [c]) := by
  obtain ⟨b, rfl⟩ := List.length_eq_one_iff.mp hu
  have := a.toNat_lt
  have := b.toNat_lt
  apply UInt16.toNat_inj.mp
  rw [roll2, UInt16.toNat_or, UInt16.toNat_shiftLeft, toNat_pack2, toNat_pack2, UInt8.toNat_toUInt16]
  simp only [byteAt_cons_zero, byteAt_cons_succ, List.cons_append, List.nil_append,
    UInt16.reduceToNat, Nat.reduceMod, Nat.shiftLeft_eq]
  rw [show (a.toNat * 2 ^ 8 + b.toNat) * 2 ^ 8 % 2 ^ 16 = b.toNat * 2 ^ 8 by omega,
    mul_two_pow_or c.toNat_lt]

/-- The step of `threebyte_strstr` keeps the last three bytes, above a zero byte. -/
theorem pack3_roll (a c : UInt8) (u : List UInt8) (hu : u.length = 2) :
    roll3 (pack3 (a :: u)) c = pack3 (u ++ [c]) := by
  obtain ⟨b, b', rfl⟩ := List.length_eq_two.mp hu
  have := a.toNat_lt
  have := b.toNat_lt
  have := b'.toNat_lt
  have := c.toNat_lt
  apply UInt32.toNat_inj.mp
  rw [roll3, UInt32.toNat_shiftLeft, UInt32.toNat_or, toNat_pack3, toNat_pack3, UInt8.toNat_toUInt32]
  simp only [byteAt_cons_zero, byteAt_cons_succ, List.cons_append, List.nil_append,
    UInt32.reduceToNat, Nat.reduceMod, Nat.shiftLeft_eq]
  rw [mul_two_pow_or c.toNat_lt]
  omega

/-- The step of `fourbyte_strstr` keeps the last four bytes. -/
theorem pack4_roll (a c : UInt8) (u : List UInt8) (hu : u.length = 3) :
    roll4 (pack4 (a :: u)) c = pack4 (u ++ [c]) := by
  obtain ⟨b, b', b'', rfl⟩ := List.length_eq_three.mp hu
  have := a.toNat_lt
  have := b.toNat_lt
  have := b'.toNat_lt
  have := b''.toNat_lt
  apply UInt32.toNat_inj.mp
  rw [roll4, UInt32.toNat_or, UInt32.toNat_shiftLeft, toNat_pack4, toNat_pack4, UInt8.toNat_toUInt32]
  simp only [byteAt_cons_zero, byteAt_cons_succ, List.cons_append, List.nil_append,
    UInt32.reduceToNat, Nat.reduceMod, Nat.shiftLeft_eq]
  rw [show ((((a.toNat * 2 ^ 8 + b.toNat) * 2 ^ 8 + b'.toNat) * 2 ^ 8 + b''.toNat) * 2 ^ 8) %
      2 ^ 32 = ((b.toNat * 2 ^ 8 + b'.toNat) * 2 ^ 8 + b''.toNat) * 2 ^ 8 by omega,
    mul_two_pow_or c.toNat_lt]

/-! ## §3 The short searches -/

/-- `twobyte_strstr(h, n)`: `for (h++; *h && hw != nw; hw = hw << 8 | *++h);`, then
    `*h ? h - 1 : 0`. The bytes of a `CStr` are not NUL, so `*h` fails at the end of the
    list. -/
def twobyteStrstr (h n : CStr) : Option Nat :=
  rollFind roll2 (pack2 n.bytes) 0 2 (pack2 h.bytes)
    (h.bytes.drop 1) 1

/-- `threebyte_strstr(h, n)`: `for (h += 2; *h && hw != nw; hw = (hw | *++h) << 8);`, then
    `*h ? h - 2 : 0`. -/
def threebyteStrstr (h n : CStr) : Option Nat :=
  rollFind roll3 (pack3 n.bytes) 0 3 (pack3 h.bytes)
    (h.bytes.drop 2) 2

/-- `fourbyte_strstr(h, n)`: `for (h += 3; *h && hw != nw; hw = hw << 8 | *++h);`, then
    `*h ? h - 3 : 0`. -/
def fourbyteStrstr (h n : CStr) : Option Nat :=
  rollFind roll4 (pack4 n.bytes) 0 4 (pack4 h.bytes)
    (h.bytes.drop 3) 3

/-- A rolling search of a needle of `k + 1` bytes, started on the first `k + 1` bytes of
    the haystack, is the plain search. -/
theorem rollFind_eq_firstOccurrence {β : Type} [DecidableEq β] {roll : β → UInt8 → β}
    {enc : List UInt8 → β} {k : Nat}
    (hinj : ∀ u v : List UInt8, u.length = k + 1 → v.length = k + 1 → enc u = enc v → u = v)
    (hroll : ∀ (a c : UInt8) (u : List UInt8), u.length = k → roll (enc (a :: u)) c = enc (u ++ [c]))
    (hstart : ∀ s : List UInt8, enc (window (byteAt s) (k + 1) 0) = enc s)
    (h n : CStr) (hn : n.bytes.length = k + 1) :
    rollFind roll (enc n.bytes) 0 (k + 1) (enc h.bytes) (h.bytes.drop k) k =
      firstOccurrence h.bytes n.bytes := by
  have hrun := rollFind_eq hinj hroll (d := 0) h.bytes n.bytes hn (h.bytes.length - k) k rfl
    (Nat.le_refl k)
  rw [Nat.sub_self] at hrun
  rw [← hstart h.bytes, ← find?_window_eq hn]
  refine hrun.trans ?_
  simp only [Nat.zero_add, Option.map_id']
  rfl

theorem twobyteStrstr_eq (h n : CStr) (hn : n.bytes.length = 2) :
    twobyteStrstr h n = firstOccurrence h.bytes n.bytes :=
  rollFind_eq_firstOccurrence pack2_inj pack2_roll
    (fun s => by rw [pack2, pack2, byteAt_window s (by decide), byteAt_window s (by decide)])
    h n hn

theorem threebyteStrstr_eq (h n : CStr) (hn : n.bytes.length = 3) :
    threebyteStrstr h n = firstOccurrence h.bytes n.bytes :=
  rollFind_eq_firstOccurrence pack3_inj pack3_roll
    (fun s => by
      rw [pack3, pack3, byteAt_window s (by decide), byteAt_window s (by decide),
        byteAt_window s (by decide)])
    h n hn

theorem fourbyteStrstr_eq (h n : CStr) (hn : n.bytes.length = 4) :
    fourbyteStrstr h n = firstOccurrence h.bytes n.bytes :=
  rollFind_eq_firstOccurrence pack4_inj pack4_roll
    (fun s => by
      rw [pack4, pack4, byteAt_window s (by decide), byteAt_window s (by decide),
        byteAt_window s (by decide), byteAt_window s (by decide)])
    h n hn

/-! ## §4 `strstr` -/

/-- The searches of `strstr` once `h` stands on the first byte of `n`, by the length of
    `n`: a haystack shorter than the needle has it nowhere. `twoway` is `twoway_strstr`,
    for needles of five bytes or more. -/
def strstrFrom (twoway : CStr → CStr → Option Nat) (h n : CStr) : Option Nat :=
  if byteAt n.bytes 1 = 0 then some 0
  else if byteAt h.bytes 1 = 0 then none
  else if byteAt n.bytes 2 = 0 then twobyteStrstr h n
  else if byteAt h.bytes 2 = 0 then none
  else if byteAt n.bytes 3 = 0 then threebyteStrstr h n
  else if byteAt h.bytes 3 = 0 then none
  else if byteAt n.bytes 4 = 0 then fourbyteStrstr h n
  else twoway h n

/-- `strstr(h, n)`: the empty needle at once, then `h = strchr(h, *n)`, the first byte of
    the needle, and from there `strstrFrom`; an offset into `h`. `*n` is a `char`, passed
    to `strchr` as its value. -/
def strstr (signed : Bool) (twoway : CStr → CStr → Option Nat) (h n : CStr) : Option Nat :=
  if byteAt n.bytes 0 = 0 then some 0 else
  match strchr signed h (charValue signed (byteAt n.bytes 0)) with
  | none => none
  | some q => (strstrFrom twoway (h.drop q) n).map (q + ·)

/-- From a haystack that starts with the needle's first byte, the searches for needles
    of one to four bytes are the plain search. -/
theorem strstrFrom_eq (twoway : CStr → CStr → Option Nat) {h n : CStr}
    (hn : n.bytes.length ≤ 4) (hn1 : 1 ≤ n.bytes.length) (hfirst : h.bytes.head? = n.bytes.head?) :
    strstrFrom twoway h n = firstOccurrence h.bytes n.bytes := by
  simp only [strstrFrom, CStr.byteAt_eq_zero_iff]
  split_ifs with h1 h2 h3 h4 h5 h6
  · -- a needle of one byte: the haystack starts with it
    obtain ⟨c, hc⟩ := List.length_eq_one_iff.mp (by omega : n.bytes.length = 1)
    rw [hc] at hfirst ⊢
    obtain ⟨t, ht⟩ := List.head?_eq_some_iff.mp hfirst
    rw [ht]
    exact (firstOccurrence_eq_zero ⟨t, rfl⟩).symm
  · exact (firstOccurrence_of_length_lt (by omega)).symm
  · exact twobyteStrstr_eq h n (by omega)
  · exact (firstOccurrence_of_length_lt (by omega)).symm
  · exact threebyteStrstr_eq h n (by omega)
  · exact (firstOccurrence_of_length_lt (by omega)).symm
  · exact fourbyteStrstr_eq h n (by omega)

/-- What `strchr` answers for a byte that is not the NUL (`strchr_eq`): its first
    occurrence, inside the string. -/
theorem findIdx?_append_nul_eq_some {s : List UInt8} {c : UInt8} (hc : c ≠ 0) {q : Nat}
    (hfind : (s ++ [0]).findIdx? (· == c) = some q) :
    q < s.length ∧ s[q]? = some c ∧ ∀ j < q, s[j]? ≠ some c := by
  obtain ⟨hq, hat, hbefore⟩ := List.findIdx?_eq_some_iff_getElem.mp hfind
  -- the search cannot stop at the NUL, which is not `c`
  have hlt : q < s.length := by
    by_contra hge
    simp only [List.length_append, List.length_singleton] at hq
    rw [List.getElem_append_right (by omega)] at hat
    simp only [show q - s.length = 0 by omega, List.getElem_singleton, beq_iff_eq] at hat
    exact hc hat.symm
  refine ⟨hlt, ?_, fun j hj e => ?_⟩
  · rw [List.getElem_append_left hlt, beq_iff_eq] at hat
    rw [List.getElem?_eq_getElem hlt, hat]
  · have hjl : j < s.length := by omega
    rw [List.getElem?_eq_getElem hjl, Option.some_inj] at e
    have := hbefore j hj
    rw [List.getElem_append_left hjl, e] at this
    simp at this

theorem not_mem_of_findIdx?_append_nul_eq_none {s : List UInt8} {c : UInt8}
    (hfind : (s ++ [0]).findIdx? (· == c) = none) : c ∉ s := by
  intro hmem
  have := List.findIdx?_eq_none_iff.mp hfind c (List.mem_append_left _ hmem)
  simp at this

/-- `strstr` is the plain search wherever the searches from the needle's first byte are:
    the empty needle is found at once, and `strchr` passes over no occurrence. -/
theorem strstr_eq_of_strstrFrom (signed : Bool) (twoway : CStr → CStr → Option Nat) (h n : CStr)
    (hfrom : ∀ h' : CStr, 1 ≤ n.bytes.length → h'.bytes.head? = n.bytes.head? →
      strstrFrom twoway h' n = firstOccurrence h'.bytes n.bytes) :
    strstr signed twoway h n = firstOccurrence h.bytes n.bytes := by
  rcases hnb : n.bytes with _ | ⟨c, rest⟩
  · -- the empty needle is found at once
    rw [strstr, if_pos (by rw [hnb]; rfl)]
    exact (firstOccurrence_eq_zero List.nil_prefix).symm
  have hc : c ≠ 0 := n.ne_zero_of_mem (by simp [hnb])
  rw [strstr, if_neg (by rw [hnb, byteAt_cons_zero]; exact hc), hnb, byteAt_cons_zero, strchr_eq]
  split
  next hfind =>
    -- `c` is not in `h`, and neither is the needle
    exact (firstOccurrence_of_not_mem (n := c :: rest) rfl
      (not_mem_of_findIdx?_append_nul_eq_none hfind)).symm
  next q hfind =>
    -- no occurrence before the first `c`; from it on, the searches by length
    obtain ⟨hlt, hat, hne⟩ := findIdx?_append_nul_eq_some hc hfind
    rw [firstOccurrence_drop hlt.le fun j hj => ?_]
    · congr 1
      rw [← hnb, ← CStr.bytes_drop]
      refine hfrom _ (by simp [hnb]) ?_
      rw [CStr.bytes_drop, List.head?_drop, hat, hnb]
      rfl
    · rw [Bool.eq_false_iff]
      intro hp
      obtain ⟨t, ht⟩ := List.isPrefixOf_iff_prefix.mp hp
      have hhead := congrArg List.head? ht
      rw [List.head?_append, List.head?_drop, List.head?_cons, Option.some_or] at hhead
      exact hne j hj hhead.symm

/-- `strstr` finds the first occurrence of every needle of at most four bytes, whatever
    the two-way search does and whatever the signedness of `char`. -/
theorem strstr_of_short (signed : Bool) (twoway : CStr → CStr → Option Nat) (h n : CStr)
    (hn : n.bytes.length ≤ 4) : strstr signed twoway h n = firstOccurrence h.bytes n.bytes :=
  strstr_eq_of_strstrFrom signed twoway h n fun _ hn1 hfirst => strstrFrom_eq twoway hn hn1 hfirst

theorem zero_not_mem_hello : (0 : UInt8) ∉ [104, 101, 108, 108, 111] := by decide

/-- The string `"hello"`. -/
def helloStr : CStr := ⟨[104, 101, 108, 108, 111], zero_not_mem_hello⟩

theorem zero_not_mem_ll : (0 : UInt8) ∉ [108, 108] := by decide

/-- The string `"ll"`. -/
def llStr : CStr := ⟨[108, 108], zero_not_mem_ll⟩

theorem strstr_hello_ll : llStr.bytes.length ≤ 4 ∧
    strstr true (fun _ _ => none) helloStr llStr = firstOccurrence helloStr.bytes llStr.bytes :=
  ⟨by decide, strstr_of_short true (fun _ _ => none) helloStr llStr (by decide)⟩

example : firstOccurrence helloStr.bytes llStr.bytes = some 2 := by decide

end ArceOS.Libc
