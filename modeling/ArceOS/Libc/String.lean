import ArceOS.Lib.Move
import ArceOS.Libc.Strtol

/-!
# The String and Memory Routines of `axlibc`

`c/string.c` carries the musl routines over bytes. The memory routines work on the
address space, a store `Nat → UInt8`; their loops are the store loops of
`ArceOS.Lib.Move`. The string routines read C strings, given by their bytes before the
NUL (`CStr`), and those that write, write the address space.

Two routines take shortcuts that the specification of the routine has to be checked
against. `memset` stores the head and the tail of its range first and then only whole
four-byte groups from an aligned address; `memmove` decides with one unsigned
comparison whether the two ranges are apart and `memcpy` may do the work. Both are
exact: `memset` stores its range and `memmove` moves it, for every range of at most
half the address space.

Three routines do not do what their C names promise. `strcspn` answers 0 for every
reject set of fewer than two bytes, since its early exit returns from inside the loop,
and `strpbrk` inherits that; `strcpy` and `strncpy` return the end of what they copied
rather than the destination, and `strncpy` stores at most one NUL. On a target whose
`char` is signed, `strchr` compares the signed byte with the unsigned argument and
cannot find a byte above `0x7f`.

## Main results

- `memset_eq`: `memset` stores `(unsigned char)c` over its range and nothing else;
- `memmoveToMemcpy_iff`, `memmove_eq_move`: the overlap test is exact and `memmove`
  moves the range;
- `strnlen_eq`: over a C string in memory, `strnlen` is the smaller of its bound and the
  string's length;
- `strcspn_eq_findIdx_iff`, `strpbrk_of_le_one`: when `strcspn` meets its
  specification, and what `strpbrk` finds with a short set;
- `strspn_eq`, `strchr_eq`: the spans and searches;
- `strcmp_neg_iff`, `strcmp_eq_zero_iff`, `strncmp_eq`, `strcasecmp_eq`: `strcmp` orders
  strings lexicographically, `strncmp` is `strcmp` on prefixes and `strcasecmp` is
  `strcmp` on the lowered strings;
- `strcpy_eq`, `strncpy_eq`: what the copies store and return;
- `atoCore_eq`: `atoi` and `atoll` read the decimal number exactly when their type holds
  it, its least value included, since they count down;
- `readCStr_strerror`: `strerror` of `errno.rs` writes its text without a NUL, so a caller
  reads the text and then what the buffer held after it.
-/

namespace ArceOS.Libc

open ArceOS.Lib.ByteStore ArceOS.Lib.Move

/-! ## §1 `memset` -/

/-- `memset(dest, c, n)`. The head and the tail are stored with few branches, up to four
    bytes at each end; from the next multiple of four a whole number of four-byte groups
    follows, which the head and the tail already cover around. The pointer it returns
    is `dest`. -/
def memset (mem : Nat → UInt8) (dest : Nat) (c : Int) (n : Nat) : Nat → UInt8 :=
  let b := UInt8.ofInt c
  let store := fun (m : Nat → UInt8) (i : Nat) => Function.update m (dest + i) b
  if n = 0 then mem else
  let m := store (store mem 0) (n - 1)
  if n ≤ 2 then m else
  let m := store (store (store (store m 1) 2) (n - 2)) (n - 3)
  if n ≤ 6 then m else
  let m := store (store m 3) (n - 4)
  if n ≤ 8 then m else
  -- `k = -(uintptr_t)s & 3; s += k; n -= k; n &= -4;`
  let k := (2 ^ 64 - dest % 2 ^ 64) % 2 ^ 64 % 4
  fill m (dest + k) b ((n - k) - (n - k) % 4)

theorem memset_apply (mem : Nat → UInt8) (dest : Nat) (c : Int) (n j : Nat) :
    memset mem dest c n j = if dest ≤ j ∧ j < dest + n then UInt8.ofInt c else mem j := by
  unfold memset
  dsimp only
  by_cases h0 : n = 0
  · rw [if_pos h0, if_neg (by omega)]
  rw [if_neg h0]
  -- at each return the stores, folded into one test, cover exactly the range
  by_cases h2 : n ≤ 2
  · rw [if_pos h2]
    simp only [Function.update_apply, ← ite_or]
    exact if_congr (by omega) rfl rfl
  rw [if_neg h2]
  by_cases h6 : n ≤ 6
  · rw [if_pos h6]
    simp only [Function.update_apply, ← ite_or]
    exact if_congr (by omega) rfl rfl
  rw [if_neg h6]
  by_cases h8 : n ≤ 8
  · rw [if_pos h8]
    simp only [Function.update_apply, ← ite_or]
    exact if_congr (by omega) rfl rfl
  -- the aligned groups start at most three bytes in and end at most three bytes short
  rw [if_neg h8, fill_apply]
  generalize hk : (2 ^ 64 - dest % 2 ^ 64) % 2 ^ 64 % 4 = k
  have hk4 : k < 4 := hk ▸ Nat.mod_lt _ (by norm_num)
  simp only [Function.update_apply, ← ite_or]
  exact if_congr (by omega) rfl rfl

/-- `memset` stores `(unsigned char)c` at every address of its range and nothing else, for
    every length and every alignment of `dest`. -/
theorem memset_eq (mem : Nat → UInt8) (dest : Nat) (c : Int) (n : Nat) :
    memset mem dest c n = writeRange mem dest (List.replicate n (UInt8.ofInt c)) := by
  funext j
  rw [memset_apply, ← fill_eq_writeRange, fill_apply]

/-! ## §2 `memcpy`, `memmove`, `memchr` and `memcmp` -/

/-- `memcpy(dest, src, n)`: `for (; n; n--) *d++ = *s++;`. -/
def memcpy (mem : Nat → UInt8) (dest src n : Nat) : Nat → UInt8 := copyUp mem dest src n

/-- The test with which `memmove` hands its ranges to `memcpy`:
    `(uintptr_t)s - (uintptr_t)d - n <= -2 * n`, both sides modulo `2 ^ 64`. -/
def memmoveToMemcpy (dest src n : Nat) : Bool :=
  decide (((src : Int) - dest - n) % 2 ^ 64 ≤ (-2 * n : Int) % 2 ^ 64)

/-- `memmove(dest, src, n)`: nothing for equal pointers, `memcpy` for ranges its test
    finds apart, and otherwise the copy in the direction that reads each source byte
    before it is overwritten. -/
def memmove (mem : Nat → UInt8) (dest src n : Nat) : Nat → UInt8 :=
  if dest = src then mem
  else if memmoveToMemcpy dest src n then memcpy mem dest src n
  else if dest < src then copyUp mem dest src n
  else copyDown mem dest src n

/-- `memcpy` of ranges apart is their move. -/
theorem memcpy_eq_move {dest src n : Nat} (h : dest + n ≤ src ∨ src + n ≤ dest)
    (mem : Nat → UInt8) : memcpy mem dest src n = writeRange mem dest (readRange mem src n) :=
  copyUp_eq_move (by omega) mem

section Overlap

variable {dest src n : Nat}

/-- The ranges lie in the address space and are at most half of it. -/
theorem disjoint_of_memmoveToMemcpy (hd : dest + n ≤ 2 ^ 64) (hs : src + n ≤ 2 ^ 64)
    (h2n : 2 * n ≤ 2 ^ 64) (hn : 0 < n) (h : memmoveToMemcpy dest src n = true) :
    dest + n ≤ src ∨ src + n ≤ dest := by
  rw [memmoveToMemcpy, decide_eq_true_eq] at h
  omega

theorem memmoveToMemcpy_of_disjoint (hd : dest + n ≤ 2 ^ 64) (hs : src + n ≤ 2 ^ 64)
    (h2n : 2 * n ≤ 2 ^ 64) (hn : 0 < n) (h : dest + n ≤ src ∨ src + n ≤ dest) :
    memmoveToMemcpy dest src n = true := by
  rw [memmoveToMemcpy, decide_eq_true_eq]
  omega

/-- The one unsigned comparison of `memmove` hands the ranges to `memcpy` exactly when
    they are apart, for ranges of the address space of at most half of it. -/
theorem memmoveToMemcpy_iff (hd : dest + n ≤ 2 ^ 64) (hs : src + n ≤ 2 ^ 64)
    (h2n : 2 * n ≤ 2 ^ 64) (hn : 0 < n) :
    memmoveToMemcpy dest src n = true ↔ dest + n ≤ src ∨ src + n ≤ dest :=
  ⟨disjoint_of_memmoveToMemcpy hd hs h2n hn, memmoveToMemcpy_of_disjoint hd hs h2n hn⟩

theorem memmoveToMemcpy_overlapping :
    (3 + 4 ≤ 2 ^ 64 ∧ 0 + 4 ≤ 2 ^ 64 ∧ 2 * 4 ≤ 2 ^ 64 ∧ 0 < 4) ∧
      (memmoveToMemcpy 3 0 4 = true ↔ 3 + 4 ≤ 0 ∨ 0 + 4 ≤ 3) :=
  ⟨by norm_num, memmoveToMemcpy_iff (by norm_num) (by norm_num) (by norm_num) (by norm_num)⟩

/-- `memmove` moves its range whenever both ranges lie in the address space and are at
    most half of it; overlapping ranges included. -/
theorem memmove_eq_move (hd : dest + n ≤ 2 ^ 64) (hs : src + n ≤ 2 ^ 64)
    (h2n : 2 * n ≤ 2 ^ 64) (mem : Nat → UInt8) :
    memmove mem dest src n = writeRange mem dest (readRange mem src n) := by
  unfold memmove
  split_ifs with heq htest hlt
  · subst heq
    exact (writeRange_readRange mem dest n).symm
  · -- the test passed: the ranges are apart, or empty
    rcases Nat.eq_zero_or_pos n with rfl | hn
    · exact copyUp_eq_move (by omega) mem
    · exact memcpy_eq_move (disjoint_of_memmoveToMemcpy hd hs h2n hn htest) mem
  · exact copyUp_eq_move (by omega) mem
  · exact copyDown_eq_move (by omega) mem

end Overlap

theorem memmove_eq_move_overlap :
    (4 + 6 ≤ 2 ^ 64 ∧ 2 + 6 ≤ 2 ^ 64 ∧ 2 * 6 ≤ 2 ^ 64) ∧
      memmove (fun j => j.toUInt8) 4 2 6 =
        writeRange (fun j => j.toUInt8) 4 (readRange (fun j => j.toUInt8) 2 6) :=
  ⟨by norm_num, memmove_eq_move (by norm_num) (by norm_num) (by norm_num) _⟩

/-- `memchr(src, c, n)`: `c = (unsigned char)c; for (; n && *s != c; s++, n--);` and
    then `n ? s : 0`. -/
def memchr (mem : Nat → UInt8) (src : Nat) (c : Int) : Nat → Option Nat
  | 0 => none
  | n + 1 => if mem src = UInt8.ofInt c then some src else memchr mem (src + 1) c n

/-- `memchr` finds the first address of its range that holds the byte. -/
theorem memchr_eq (mem : Nat → UInt8) (src : Nat) (c : Int) (n : Nat) :
    memchr mem src c n =
      ((readRange mem src n).findIdx? (· == UInt8.ofInt c)).map (src + ·) := by
  induction n generalizing src with
  | zero => rfl
  | succ n ih =>
    rw [memchr, ih, readRange_succ, List.findIdx?_cons]
    split_ifs with h₁ h₂ h₂
    · simp
    · simp [h₁] at h₂
    · simp at h₂
      exact absurd h₂ h₁
    · rw [Option.map_map]
      congr 1
      funext i
      simp only [Function.comp_apply]
      omega

/-- `memcmp(vl, vr, n)`: `for (; n && *l == *r; n--, l++, r++);` and then
    `n ? *l - *r : 0`. -/
def memcmp (mem : Nat → UInt8) (l r : Nat) : Nat → Int
  | 0 => 0
  | n + 1 =>
    if mem l = mem r then memcmp mem (l + 1) (r + 1) n else (mem l).toNat - (mem r).toNat

theorem memcmp_eq_zero_iff (mem : Nat → UInt8) (l r n : Nat) :
    memcmp mem l r n = 0 ↔ readRange mem l n = readRange mem r n := by
  induction n generalizing l r with
  | zero => simp [memcmp]
  | succ n ih =>
    rw [memcmp, readRange_succ, readRange_succ, List.cons.injEq]
    split_ifs with h
    · rw [ih]
      simp [h]
    · have hne : (mem l).toNat ≠ (mem r).toNat := UInt8.toNat_inj.not.mpr h
      simp only [h, false_and, iff_false]
      omega

/-! ## §3 C strings -/

/-- A C string: the bytes before its terminating NUL, which it cannot contain. -/
@[ext] structure CStr where
  bytes : List UInt8
  nul_not_mem : 0 ∉ bytes

@[simp] theorem byteAt_nil (i : Nat) : byteAt [] i = 0 := rfl

theorem byteAt_of_lt {s : List UInt8} {i : Nat} (h : i < s.length) : byteAt s i = s[i] :=
  List.getD_eq_getElem _ _ h

theorem byteAt_of_le {s : List UInt8} {i : Nat} (h : s.length ≤ i) : byteAt s i = 0 :=
  List.getD_eq_default _ _ h

theorem CStr.ne_zero_of_mem (s : CStr) {b : UInt8} (h : b ∈ s.bytes) : b ≠ 0 := by
  rintro rfl
  exact s.nul_not_mem h

/-- A byte read inside a C string is not its NUL. -/
theorem CStr.byteAt_ne_zero (s : CStr) {i : Nat} (h : i < s.bytes.length) :
    byteAt s.bytes i ≠ 0 := by
  rw [byteAt_of_lt h]
  exact s.ne_zero_of_mem (List.getElem_mem h)

/-- The first `n` bytes of a C string. -/
def CStr.take (s : CStr) (n : Nat) : CStr :=
  ⟨s.bytes.take n, fun h => s.nul_not_mem (List.mem_of_mem_take h)⟩

/-- A loop `for (; cond(*s); s++);` over a string: the offset of the first byte at which
    `cond` fails. Each such loop of `string.c` fails at the NUL, so it stops there at
    the latest. -/
def skipWhile (cond : UInt8 → Bool) (s : CStr) : Nat := s.bytes.findIdx fun b => !cond b

/-- Two searches agree on a list if their tests agree on its members. -/
theorem findIdx_congr_of_mem {α : Type*} {p q : α → Bool} :
    ∀ {l : List α}, (∀ x ∈ l, p x = q x) → l.findIdx p = l.findIdx q
  | [], _ => rfl
  | a :: l, h => by
    rw [List.findIdx_cons, List.findIdx_cons, h a List.mem_cons_self,
      findIdx_congr_of_mem fun x hx => h x (List.mem_cons_of_mem a hx)]

/-- A loop whose test differs from a search's only at the NUL finds what the search
    finds. -/
theorem skipWhile_eq {cond : UInt8 → Bool} {p : UInt8 → Bool} {s : CStr}
    (h : ∀ b, b ≠ 0 → (!cond b) = p b) : skipWhile cond s = s.bytes.findIdx p :=
  findIdx_congr_of_mem fun b hb => h b (s.ne_zero_of_mem hb)

/-- A C string at `p`: its bytes and then the NUL. -/
def HoldsAt (mem : Nat → UInt8) (p : Nat) (s : CStr) : Prop :=
  readRange mem p (s.bytes.length + 1) = s.bytes ++ [0]

instance (mem : Nat → UInt8) (p : Nat) (s : CStr) : Decidable (HoldsAt mem p s) :=
  inferInstanceAs (Decidable (readRange mem p (s.bytes.length + 1) = s.bytes ++ [0]))

/-- `strlen(s)`: `for (; *s; s++);`. -/
def strlen (s : CStr) : Nat := skipWhile (· != 0) s

theorem strlen_eq (s : CStr) : strlen s = s.bytes.length := by
  rw [strlen, skipWhile_eq (p := fun _ => false) (fun b hb => by simp [hb])]
  exact List.findIdx_eq_length_of_false fun _ _ => rfl

/-- `strnlen(s, n)`: `p = memchr(s, 0, n)`, then `p ? p - s : n`. -/
def strnlen (mem : Nat → UInt8) (s n : Nat) : Nat :=
  match memchr mem s 0 n with
  | some p => p - s
  | none => n

theorem getElem?_append_nul {s : List UInt8} {i : Nat} (hi : i ≤ s.length) :
    (s ++ [0])[i]? = some (byteAt s i) := by
  rcases Nat.lt_or_eq_of_le hi with h | rfl
  · rw [List.getElem?_append_left h, List.getElem?_eq_getElem h, byteAt_of_lt h]
  · rw [List.getElem?_append_right (Nat.le_refl _), Nat.sub_self, byteAt_of_le (Nat.le_refl _)]
    rfl

theorem HoldsAt.apply {mem : Nat → UInt8} {p : Nat} {s : CStr} (h : HoldsAt mem p s) {i : Nat}
    (hi : i ≤ s.bytes.length) : mem (p + i) = byteAt s.bytes i := by
  have hread := congrArg (·[i]?) h
  rw [getElem?_append_nul hi, List.getElem?_eq_getElem (by simp; omega), getElem_readRange] at hread
  exact Option.some.inj hread

/-- Over a C string in memory the first NUL is the string's own. -/
theorem HoldsAt.findIdx?_readRange {mem : Nat → UInt8} {p : Nat} {s : CStr} (h : HoldsAt mem p s)
    (n : Nat) : (readRange mem p n).findIdx? (· == 0) =
      if s.bytes.length < n then some s.bytes.length else none := by
  split_ifs with hn
  · rw [List.findIdx?_eq_some_iff_findIdx_eq, length_readRange,
      List.findIdx_eq (by simpa using hn)]
    refine ⟨hn, ?_, fun j hj => ?_⟩
    · rw [getElem_readRange, h.apply (Nat.le_refl _), byteAt_of_le (Nat.le_refl _)]
      rfl
    · rw [getElem_readRange, h.apply hj.le]
      simpa using s.byteAt_ne_zero hj
  · rw [List.findIdx?_eq_none_iff]
    intro x hx
    simp only [readRange, List.mem_map, List.mem_range] at hx
    obtain ⟨i, hi, rfl⟩ := hx
    rw [h.apply (by omega)]
    simpa using s.byteAt_ne_zero (by omega)

/-- Over a C string in memory, `strnlen` is the smaller of its bound and the length. -/
theorem strnlen_eq {mem : Nat → UInt8} {p : Nat} {s : CStr} (h : HoldsAt mem p s) (n : Nat) :
    strnlen mem p n = min n s.bytes.length := by
  unfold strnlen
  rw [memchr_eq, show UInt8.ofInt 0 = 0 from rfl, h.findIdx?_readRange]
  split_ifs with hn
  · simp only [Option.map_some]
    omega
  · simp only [Option.map_none]
    omega

theorem zero_not_mem_hi : (0 : UInt8) ∉ [104, 105] := by decide

/-- The string `"hi"`. -/
def hiStr : CStr := ⟨[104, 105], zero_not_mem_hi⟩

theorem strnlen_hi : HoldsAt (fun j => [33, 104, 105, 0].getD j 0) 1 hiStr ∧
    strnlen (fun j => [33, 104, 105, 0].getD j 0) 1 5 = min 5 hiStr.bytes.length :=
  ⟨by decide, strnlen_eq (by decide) 5⟩

/-! ## §4 Spans: `strcspn`, `strspn` and `strpbrk` -/

/-- `BITOP(byteset, b, |=)`. The four words of `size_t byteset[32 / sizeof(size_t)]` are
    one 256-bit number here: bit `b % 64` of word `b / 64` is its bit `b`. -/
def bitsetAdd (set : Nat) (b : UInt8) : Nat := set ||| 1 <<< b.toNat

/-- `BITOP(byteset, b, &)`, as a test. -/
def bitsetHas (set : Nat) (b : UInt8) : Bool := set &&& 1 <<< b.toNat != 0

/-- `for (; *s; s++) BITOP(byteset, *(unsigned char *)s, |=);` from a cleared set. -/
def bitsetOf (s : CStr) : Nat := s.bytes.foldl bitsetAdd 0

theorem bitsetHas_eq_testBit (set : Nat) (b : UInt8) : bitsetHas set b = set.testBit b.toNat := by
  rw [bitsetHas, Nat.one_shiftLeft, Nat.and_two_pow]
  cases set.testBit b.toNat <;> simp

theorem bitsetHas_bitsetAdd (set : Nat) (a b : UInt8) :
    bitsetHas (bitsetAdd set a) b = (bitsetHas set b || decide (b = a)) := by
  rw [bitsetHas_eq_testBit, bitsetHas_eq_testBit, bitsetAdd, Nat.testBit_or, Nat.one_shiftLeft,
    Nat.testBit_two_pow]
  simp [UInt8.toNat_inj, eq_comm]

/-- The byte set holds the bytes of the string. -/
@[simp] theorem bitsetHas_bitsetOf (s : CStr) (b : UInt8) :
    bitsetHas (bitsetOf s) b = decide (b ∈ s.bytes) := by
  -- the fold adds the bytes one by one to any set it starts from
  have hfold : ∀ (l : List UInt8) (set : Nat),
      bitsetHas (l.foldl bitsetAdd set) b = (bitsetHas set b || decide (b ∈ l)) := by
    intro l
    induction l with
    | nil => simp
    | cons a l ih =>
      intro set
      rw [List.foldl_cons, ih, bitsetHas_bitsetAdd]
      simp [Bool.or_assoc]
  rw [bitsetOf, hfold]
  simp [bitsetHas]

/-- `strcspn(s1, s2)`. For a reject set of fewer than two bytes the loop
    `for (; *s1 != *s2; s1++) return s1 - a;` returns from its body on the first byte of
    `s1` unlike the first of `s2`; otherwise the byte set is built and `s1` scanned. -/
def strcspn (s1 s2 : CStr) : Nat :=
  if (byteAt s2.bytes 0 = 0 ∨ byteAt s2.bytes 1 = 0) ∧ byteAt s1.bytes 0 ≠ byteAt s2.bytes 0 then 0
  else skipWhile (fun b => b != 0 && !bitsetHas (bitsetOf s2) b) s1

/-- `strspn(s, c)`: 0 for an empty accept set, a run of its one byte for a set of one,
    and otherwise a scan with the byte set. The set is built by
    `for (; *c && BITOP(byteset, *(unsigned char *)c, |=); c++);`, whose `|=` leaves the
    word with a bit set and so never stops the loop. -/
def strspn (s c : CStr) : Nat :=
  if byteAt c.bytes 0 = 0 then 0
  else if byteAt c.bytes 1 = 0 then skipWhile (· == byteAt c.bytes 0) s
  else skipWhile (fun b => b != 0 && bitsetHas (bitsetOf c) b) s

/-- `strpbrk(s, b)`: `s += strcspn(s, b); return *s ? s : 0;`, as an offset. -/
def strpbrk (s b : CStr) : Option Nat :=
  let i := strcspn s b
  if byteAt s.bytes i ≠ 0 then some i else none

/-- The scan with the byte set stops at the first byte of the set. -/
theorem strcspn_scan (s1 s2 : CStr) :
    skipWhile (fun b => b != 0 && !bitsetHas (bitsetOf s2) b) s1 =
      s1.bytes.findIdx (· ∈ s2.bytes) :=
  skipWhile_eq fun b hb => by simp [hb]

/-- With a reject set of two bytes or more, `strcspn` is the length of the longest prefix
    without them. -/
theorem strcspn_of_two_le {s1 s2 : CStr} (h : 2 ≤ s2.bytes.length) :
    strcspn s1 s2 = s1.bytes.findIdx (· ∈ s2.bytes) := by
  have h0 := s2.byteAt_ne_zero (i := 0) (by omega)
  have h1 := s2.byteAt_ne_zero (i := 1) (by omega)
  rw [strcspn, if_neg (by tauto), strcspn_scan]

/-- With a reject set of one byte or none, `strcspn` is 0. -/
theorem strcspn_of_le_one {s1 s2 : CStr} (h : s2.bytes.length ≤ 1) : strcspn s1 s2 = 0 := by
  have hshort : byteAt s2.bytes 1 = 0 := byteAt_of_le h
  rw [strcspn]
  split_ifs with hret
  · rfl
  -- the loop did not return: `s1` is empty, or starts with the one byte of `s2`
  have hfirst : byteAt s1.bytes 0 = byteAt s2.bytes 0 := by tauto
  rw [strcspn_scan]
  rcases hs1 : s1.bytes with _ | ⟨x, rest⟩
  · rfl
  have hx : x ≠ 0 := s1.ne_zero_of_mem (by simp [hs1])
  rcases hs2 : s2.bytes with _ | ⟨y, rest'⟩
  · simp [hs1, hs2] at hfirst
    exact absurd hfirst hx
  · simp only [hs1, hs2, byteAt_cons_zero] at hfirst
    simp [hfirst, List.findIdx_cons]

/-- `strcspn` meets its specification exactly when the reject set has two bytes or
    more, or the specified answer is 0 anyway. -/
theorem strcspn_eq_findIdx_iff (s1 s2 : CStr) :
    strcspn s1 s2 = s1.bytes.findIdx (· ∈ s2.bytes) ↔
      2 ≤ s2.bytes.length ∨ s1.bytes.findIdx (· ∈ s2.bytes) = 0 := by
  by_cases h : 2 ≤ s2.bytes.length
  · simp [h, strcspn_of_two_le h]
  · rw [strcspn_of_le_one (by omega)]
    constructor
    · exact fun e => Or.inr e.symm
    · rintro (h' | e)
      · exact absurd h' h
      · exact e.symm

/-- `strspn` is the length of the longest prefix of bytes of the accept set. -/
theorem strspn_eq (s c : CStr) : strspn s c = s.bytes.findIdx (· ∉ c.bytes) := by
  unfold strspn
  rcases hc : c.bytes with _ | ⟨x, _ | ⟨y, rest⟩⟩
  · -- no byte is accepted: the first byte stops the scan
    rcases hs : s.bytes with _ | ⟨b, l⟩ <;> simp [List.findIdx_cons]
  · have hx : x ≠ 0 := c.ne_zero_of_mem (by simp [hc])
    simp only [byteAt_cons_zero, byteAt_cons_succ, byteAt_nil, hx, ↓reduceIte]
    exact skipWhile_eq fun b _ => by simp [Bool.beq_eq_decide_eq]
  · have hx : x ≠ 0 := c.ne_zero_of_mem (by simp [hc])
    have hy : y ≠ 0 := c.ne_zero_of_mem (by simp [hc])
    simp only [byteAt_cons_zero, byteAt_cons_succ, hx, hy, ↓reduceIte]
    exact skipWhile_eq fun b hb => by simp [hb, hc]

theorem strpbrk_of_two_le {s b : CStr} (h : 2 ≤ b.bytes.length) :
    strpbrk s b = s.bytes.findIdx? (· ∈ b.bytes) := by
  rw [strpbrk, strcspn_of_two_le h]
  -- the scan stops inside `s` exactly at a byte of the set
  by_cases hin : s.bytes.findIdx (· ∈ b.bytes) < s.bytes.length
  · rw [if_pos (s.byteAt_ne_zero hin), eq_comm, List.findIdx?_eq_some_iff_findIdx_eq]
    exact ⟨hin, rfl⟩
  · have hlen : s.bytes.findIdx (· ∈ b.bytes) = s.bytes.length :=
      Nat.le_antisymm List.findIdx_le_length (by omega)
    rw [hlen, byteAt_of_le (Nat.le_refl _), if_neg (by simp), eq_comm,
      List.findIdx?_eq_none_iff]
    exact List.findIdx_eq_length.mp hlen

/-- With a set of one byte or none, `strpbrk` finds the start of every nonempty string. -/
theorem strpbrk_of_le_one {s b : CStr} (h : b.bytes.length ≤ 1) :
    strpbrk s b = if s.bytes = [] then none else some 0 := by
  rw [strpbrk, strcspn_of_le_one h]
  rcases hs : s.bytes with _ | ⟨x, rest⟩
  · simp
  · have hx : x ≠ 0 := s.ne_zero_of_mem (by simp [hs])
    simp [hx]

theorem zero_not_mem_x : (0 : UInt8) ∉ [120] := by decide

/-- The string `"x"`. -/
def xStr : CStr := ⟨[120], zero_not_mem_x⟩

/-- `strpbrk("hi", "x")` finds the `h`. -/
theorem strpbrk_hi_x : xStr.bytes.length ≤ 1 ∧
    strpbrk hiStr xStr = if hiStr.bytes = [] then none else some 0 :=
  ⟨by decide, strpbrk_of_le_one (by decide)⟩

/-! ## §5 Searches: `strchr` and `strchrnul` -/

/-- The value of a `char` holding the byte `b`: below zero above `0x7f` where `char` is
    signed (x86_64), the byte itself where it is unsigned (riscv64, aarch64). -/
def charValue (signed : Bool) (b : UInt8) : Int :=
  if signed = true ∧ 128 ≤ b.toNat then (b.toNat : Int) - 256 else b.toNat

theorem charValue_inj {signed : Bool} {a b : UInt8} :
    charValue signed a = charValue signed b ↔ a = b := by
  have ha := a.toNat_lt
  have hb := b.toNat_lt
  rw [← UInt8.toNat_inj]
  cases signed <;> simp only [charValue, true_and, Bool.false_eq_true, false_and, ↓reduceIte]
  · omega
  · split_ifs <;> omega

/-- `strchr(s, c)`: `while (*s != c && *s != '\0') s++;` and then `*s == c ? s : NULL`, as
    an offset. `*s` is a `char`, compared with the `int` `c` as it is. -/
def strchr (signed : Bool) (s : CStr) (c : Int) : Option Nat :=
  let i := skipWhile (fun b => charValue signed b != c && b != 0) s
  if charValue signed (byteAt s.bytes i) = c then some i else none

/-- Given the value of a `char`, `strchr` finds its first occurrence, the NUL included. -/
theorem strchr_eq (signed : Bool) (s : CStr) (b : UInt8) :
    strchr signed s (charValue signed b) = (s.bytes ++ [0]).findIdx? (· == b) := by
  have hscan : skipWhile (fun a => charValue signed a != charValue signed b && a != 0) s =
      s.bytes.findIdx (· == b) :=
    skipWhile_eq fun a ha => by simp [bne, Bool.beq_eq_decide_eq, ha, charValue_inj]
  rw [strchr, hscan]
  simp only [charValue_inj]
  rw [List.findIdx?_append]
  by_cases hin : s.bytes.findIdx (· == b) < s.bytes.length
  · -- found inside the string
    have hget : s.bytes[s.bytes.findIdx (· == b)] = b := by
      simpa using List.findIdx_getElem (w := hin)
    have hsome : s.bytes.findIdx? (· == b) = some (s.bytes.findIdx (· == b)) :=
      List.findIdx?_eq_some_iff_findIdx_eq.mpr ⟨hin, rfl⟩
    rw [byteAt_of_lt hin, if_pos hget, hsome]
    rfl
  · -- not inside: the loop stops at the NUL, which is found when `b` is the NUL
    have hlen : s.bytes.findIdx (· == b) = s.bytes.length :=
      Nat.le_antisymm List.findIdx_le_length (by omega)
    have hnone : s.bytes.findIdx? (· == b) = none :=
      List.findIdx?_eq_none_iff.mpr (List.findIdx_eq_length.mp hlen)
    rw [hlen, byteAt_of_le (Nat.le_refl _), hnone]
    by_cases hb : b = 0
    · subst hb
      simp
    · simp [Ne.symm hb]

theorem zero_not_mem_eacute : (0 : UInt8) ∉ [233] := by decide

/-- The Latin-1 string `"é"`. -/
def eacuteStr : CStr := ⟨[233], zero_not_mem_eacute⟩

-- where `char` is signed, the byte `0xe9` passed as the `int` `233` is not found, as no
-- `char` is above `0x7f`; where `char` is unsigned, it is
example : strchr true eacuteStr 233 = none := by decide

example : strchr false eacuteStr 233 = some 0 := by decide

/-- `strchrnul(s, c)`: `c = (unsigned char)c`; the end of `s` for the NUL, and otherwise
    `for (; *s && *(unsigned char *)s != c; s++);`. -/
def strchrnul (s : CStr) (c : Int) : Nat :=
  if UInt8.ofInt c = 0 then strlen s
  else skipWhile (fun b => b != 0 && b != UInt8.ofInt c) s

theorem strchrnul_eq (s : CStr) (c : Int) :
    strchrnul s c = s.bytes.findIdx (· == UInt8.ofInt c) := by
  unfold strchrnul
  split_ifs with h0
  · rw [strlen_eq, h0, eq_comm, List.findIdx_eq_length]
    intro b hb
    simpa using s.ne_zero_of_mem hb
  · exact skipWhile_eq fun b hb => by simp [bne, Bool.beq_eq_decide_eq, hb]

/-! ## §6 Comparisons: `strcmp` and `strncmp` -/

/-- The loop of `strcmp` over the bytes left of each string,
    `for (; *l == *r && *l; l++, r++);`, and then `*(unsigned char *)l - *(unsigned char *)r`;
    past its bytes a string reads its NUL. -/
def strcmpLoop : List UInt8 → List UInt8 → Int
  | a :: l, b :: r => if a = b ∧ a ≠ 0 then strcmpLoop l r else (a.toNat : Int) - b.toNat
  | l, r => ((byteAt l 0).toNat : Int) - (byteAt r 0).toNat

/-- `strcmp(l, r)`. -/
def strcmp (l r : CStr) : Int := strcmpLoop l.bytes r.bytes

@[simp] theorem strcmpLoop_nil_left (r : List UInt8) :
    strcmpLoop [] r = -((byteAt r 0).toNat : Int) := by
  cases r <;> simp [strcmpLoop]

@[simp] theorem strcmpLoop_nil_right (a : UInt8) (l : List UInt8) :
    strcmpLoop (a :: l) [] = (a.toNat : Int) := by
  simp [strcmpLoop]

theorem strcmpLoop_cons_cons (a b : UInt8) (l r : List UInt8) :
    strcmpLoop (a :: l) (b :: r) =
      if a = b ∧ a ≠ 0 then strcmpLoop l r else (a.toNat : Int) - b.toNat := by
  rw [strcmpLoop]

/-- Swapping the strings negates the answer. -/
theorem strcmpLoop_swap : ∀ l r : List UInt8, strcmpLoop r l = -strcmpLoop l r
  | [], r => by cases r <;> simp
  | a :: l, [] => by simp
  | a :: l, b :: r => by
    rw [strcmpLoop_cons_cons, strcmpLoop_cons_cons, strcmpLoop_swap l r]
    by_cases hab : a = b
    · subst hab
      split_ifs <;> omega
    · rw [if_neg (fun h => hab h.1.symm), if_neg (fun h => hab h.1)]
      omega

section Order

variable {l r : List UInt8}

/-- The first byte of a list without a NUL is not the NUL. -/
theorem toNat_ne_zero_of_not_mem_cons {b : UInt8} (h : 0 ∉ b :: l) : b.toNat ≠ 0 :=
  fun e => List.ne_of_not_mem_cons h (UInt8.toNat_inj.mp e : b = 0).symm

/-- Past a first byte that is not the NUL, the loop goes on exactly when the bytes agree. -/
theorem strcmpLoop_cons_of_ne_zero {a : UInt8} (ha : a ≠ 0) (b : UInt8) :
    strcmpLoop (a :: l) (b :: r) = if a = b then strcmpLoop l r else (a.toNat : Int) - b.toNat := by
  rw [strcmpLoop_cons_cons]
  exact if_congr (and_iff_left ha) rfl rfl

/-- Between strings without a NUL, `strcmp` is below zero exactly for the lexicographic
    order of the bytes. -/
theorem strcmpLoop_neg_iff (hl : 0 ∉ l) (hr : 0 ∉ r) : strcmpLoop l r < 0 ↔ l < r := by
  induction l generalizing r with
  | nil =>
    cases r with
    | nil => simp [List.not_lt_nil]
    | cons b r =>
      have hb := toNat_ne_zero_of_not_mem_cons hr
      simp only [strcmpLoop_nil_left, byteAt_cons_zero, List.nil_lt_cons, iff_true]
      omega
  | cons a l ih =>
    cases r with
    | nil => simp [List.not_lt_nil]
    | cons b r =>
      rw [strcmpLoop_cons_of_ne_zero (List.ne_of_not_mem_cons hl).symm, List.cons_lt_cons_iff]
      by_cases hab : a = b
      · -- equal first bytes: the rest decides
        subst hab
        rw [if_pos rfl, ih (List.not_mem_of_not_mem_cons hl) (List.not_mem_of_not_mem_cons hr)]
        simp
      · have hne : a.toNat ≠ b.toNat := UInt8.toNat_inj.not.mpr hab
        simp only [hab, ↓reduceIte, false_and, or_false, UInt8.lt_iff_toNat_lt]
        omega

theorem strcmpLoop_eq_zero_iff (hl : 0 ∉ l) (hr : 0 ∉ r) : strcmpLoop l r = 0 ↔ l = r := by
  induction l generalizing r with
  | nil =>
    cases r with
    | nil => simp
    | cons b r =>
      have hb := toNat_ne_zero_of_not_mem_cons hr
      simp only [strcmpLoop_nil_left, byteAt_cons_zero, List.nil_eq, reduceCtorEq, iff_false]
      omega
  | cons a l ih =>
    cases r with
    | nil =>
      have ha := toNat_ne_zero_of_not_mem_cons hl
      simp only [strcmpLoop_nil_right, reduceCtorEq, iff_false]
      omega
    | cons b r =>
      rw [strcmpLoop_cons_of_ne_zero (List.ne_of_not_mem_cons hl).symm, List.cons.injEq]
      by_cases hab : a = b
      · subst hab
        rw [if_pos rfl, ih (List.not_mem_of_not_mem_cons hl) (List.not_mem_of_not_mem_cons hr)]
        simp
      · have hne : a.toNat ≠ b.toNat := UInt8.toNat_inj.not.mpr hab
        simp only [hab, ↓reduceIte, false_and, iff_false]
        omega

end Order

/-- `strcmp` is below zero exactly when the left string comes first in the lexicographic
    order of its bytes. -/
theorem strcmp_neg_iff (l r : CStr) : strcmp l r < 0 ↔ l.bytes < r.bytes :=
  strcmpLoop_neg_iff l.nul_not_mem r.nul_not_mem

theorem strcmp_pos_iff (l r : CStr) : 0 < strcmp l r ↔ r.bytes < l.bytes := by
  rw [← strcmpLoop_neg_iff r.nul_not_mem l.nul_not_mem, strcmp, strcmpLoop_swap]
  omega

/-- `strcmp` is zero exactly for equal strings. -/
theorem strcmp_eq_zero_iff (l r : CStr) : strcmp l r = 0 ↔ l = r := by
  rw [strcmp, strcmpLoop_eq_zero_iff l.nul_not_mem r.nul_not_mem, CStr.ext_iff]

example : strcmp hiStr xStr = 104 - 120 := by decide

/-- The loop of `strncmp` after `if (!n--) return 0;`, with the count left:
    `for (; *l && *r && n && *l == *r; l++, r++, n--);`, and then `*l - *r`. -/
def strncmpLoop : List UInt8 → List UInt8 → Nat → Int
  | a :: l, b :: r, n + 1 =>
    if a ≠ 0 ∧ b ≠ 0 ∧ a = b then strncmpLoop l r n else (a.toNat : Int) - b.toNat
  | l, r, _ => ((byteAt l 0).toNat : Int) - (byteAt r 0).toNat

/-- `strncmp(l, r, n)`. -/
def strncmp (l r : CStr) : Nat → Int
  | 0 => 0
  | n + 1 => strncmpLoop l.bytes r.bytes n

/-- The loop with `n` left compares the first `n + 1` bytes as `strcmp` does. -/
theorem strncmpLoop_eq : ∀ (l r : List UInt8) (n : Nat),
    strncmpLoop l r n = strcmpLoop (l.take (n + 1)) (r.take (n + 1))
  | [], r, n => by cases r <;> simp [strncmpLoop]
  | a :: l, [], n => by simp [strncmpLoop]
  | a :: l, b :: r, 0 => by
    -- the count runs out at the first bytes: their difference, 0 when they are equal
    simp only [strncmpLoop, List.take_succ_cons, List.take_zero, strcmpLoop_cons_cons,
      strcmpLoop_nil_left, byteAt_nil]
    split_ifs with h
    · rw [h.1]
      simp
    · rfl
  | a :: l, b :: r, n + 1 => by
    rw [strncmpLoop, List.take_succ_cons, List.take_succ_cons, strcmpLoop_cons_cons,
      strncmpLoop_eq l r n]
    by_cases hab : a = b
    · subst hab
      simp
    · simp [hab]

/-- `strncmp` is `strcmp` on the first `n` bytes of each string. -/
theorem strncmp_eq (l r : CStr) (n : Nat) : strncmp l r n = strcmp (l.take n) (r.take n) := by
  cases n with
  | zero => simp [strncmp, strcmp, CStr.take]
  | succ n => rw [strncmp, strcmp, strncmpLoop_eq]; rfl

/-- `tolower(c)` of `ctype.c`: `isupper(c) ? c | 32 : c`. -/
def tolower (c : UInt8) : UInt8 := if isupper c then c ||| 32 else c

theorem tolower_eq_zero_iff {c : UInt8} : tolower c = 0 ↔ c = 0 := by
  unfold tolower
  split_ifs with hu
  · -- an upper-case letter gains bit 5
    constructor
    · intro h
      have h32 : 32 ≤ (c ||| 32).toNat := by
        rw [UInt8.toNat_or]
        exact Nat.right_le_or
      rw [h] at h32
      simp at h32
    · rintro rfl
      simp [isupper_iff] at hu
  · exact Iff.rfl

/-- The loop of `strcasecmp`,
    `for (; *l && *r && (*l == *r || tolower(*l) == tolower(*r)); l++, r++);`, and then
    `tolower(*l) - tolower(*r)`. -/
def strcasecmpLoop : List UInt8 → List UInt8 → Int
  | a :: l, b :: r =>
    if a ≠ 0 ∧ b ≠ 0 ∧ (a = b ∨ tolower a = tolower b) then strcasecmpLoop l r
    else ((tolower a).toNat : Int) - (tolower b).toNat
  | l, r => ((tolower (byteAt l 0)).toNat : Int) - (tolower (byteAt r 0)).toNat

/-- `strcasecmp(l, r)`. -/
def strcasecmp (l r : CStr) : Int := strcasecmpLoop l.bytes r.bytes

/-- A C string with its upper-case letters lowered. -/
def CStr.lower (s : CStr) : CStr :=
  ⟨s.bytes.map tolower, fun h => by
    obtain ⟨b, hb, h0⟩ := List.mem_map.mp h
    exact s.ne_zero_of_mem hb (tolower_eq_zero_iff.mp h0)⟩

theorem byteAt_map_tolower (l : List UInt8) (i : Nat) :
    byteAt (l.map tolower) i = tolower (byteAt l i) := by
  by_cases hi : i < l.length
  · rw [byteAt_of_lt (by simpa using hi), byteAt_of_lt hi, List.getElem_map]
  · rw [byteAt_of_le (by simp; omega), byteAt_of_le (by omega)]
    rfl

/-- The loop of `strcasecmp` is the loop of `strcmp` over the lowered bytes. -/
theorem strcasecmpLoop_eq : ∀ l r : List UInt8,
    strcasecmpLoop l r = strcmpLoop (l.map tolower) (r.map tolower)
  | a :: l, b :: r => by
    rw [strcasecmpLoop, List.map_cons, List.map_cons, strcmpLoop_cons_cons,
      strcasecmpLoop_eq l r]
    -- equal lowered bytes that are not the NUL come from bytes that are not the NUL
    have hcond : (a ≠ 0 ∧ b ≠ 0 ∧ (a = b ∨ tolower a = tolower b)) ↔
        (tolower a = tolower b ∧ tolower a ≠ 0) := by
      rw [Ne, Ne, Ne, tolower_eq_zero_iff]
      constructor
      · rintro ⟨ha, -, rfl | hab⟩
        · exact ⟨rfl, ha⟩
        · exact ⟨hab, ha⟩
      · rintro ⟨hab, ha⟩
        exact ⟨ha, fun hb => ha (tolower_eq_zero_iff.mp (hab.trans (tolower_eq_zero_iff.mpr hb))),
          Or.inr hab⟩
    simp only [hcond]
  | [], r => by
    cases r <;> simp [strcasecmpLoop, tolower, isupper_iff]
  | a :: l, [] => by
    simp [strcasecmpLoop, tolower, isupper_iff]

/-- `strcasecmp` is `strcmp` of the strings with their upper-case letters lowered. -/
theorem strcasecmp_eq (l r : CStr) : strcasecmp l r = strcmp l.lower r.lower :=
  strcasecmpLoop_eq l.bytes r.bytes

/-! ## §7 Copies: `strcpy` and `strncpy` -/

/-- The loop of `strcpy`, `for (; (*d = *s); s++, d++);`, over the bytes of `s` left: each
    byte is stored and then tested, so the NUL is stored too. The store after it and the
    final `d`. -/
def strcpyLoop (mem : Nat → UInt8) (d : Nat) : List UInt8 → (Nat → UInt8) × Nat
  | [] => (Function.update mem d 0, d)
  | b :: s =>
    if b = 0 then (Function.update mem d b, d)
    else strcpyLoop (Function.update mem d b) (d + 1) s

/-- `strcpy(d, s)`: the store after it and the pointer it returns, the final `d`. -/
def strcpy (mem : Nat → UInt8) (d : Nat) (s : CStr) : (Nat → UInt8) × Nat :=
  strcpyLoop mem d s.bytes

/-- The loop of `strncpy`, `for (; n && (*d = *s); n--, s++, d++);`. -/
def strncpyLoop (mem : Nat → UInt8) (d : Nat) : List UInt8 → Nat → (Nat → UInt8) × Nat
  | _, 0 => (mem, d)
  | [], _ + 1 => (Function.update mem d 0, d)
  | b :: s, n + 1 =>
    if b = 0 then (Function.update mem d b, d)
    else strncpyLoop (Function.update mem d b) (d + 1) s n

/-- `strncpy(d, s, n)`: the store after it and the pointer it returns, the final `d`. -/
def strncpy (mem : Nat → UInt8) (d : Nat) (s : CStr) (n : Nat) : (Nat → UInt8) × Nat :=
  strncpyLoop mem d s.bytes n

theorem strcpyLoop_eq (mem : Nat → UInt8) (d : Nat) {s : List UInt8} (hs : 0 ∉ s) :
    strcpyLoop mem d s = (writeRange mem d (s ++ [0]), d + s.length) := by
  induction s generalizing mem d with
  | nil => simp [strcpyLoop, writeRange_cons]
  | cons b s ih =>
    rw [strcpyLoop, if_neg (List.ne_of_not_mem_cons hs).symm, ih _ _ (List.not_mem_of_not_mem_cons hs),
      List.cons_append, writeRange_cons, List.length_cons]
    congr 1
    omega

/-- `strcpy` stores the string and its NUL and returns the address of that NUL, not `d`. -/
theorem strcpy_eq (mem : Nat → UInt8) (d : Nat) (s : CStr) :
    strcpy mem d s = (writeRange mem d (s.bytes ++ [0]), d + s.bytes.length) :=
  strcpyLoop_eq mem d s.nul_not_mem

theorem strncpyLoop_eq (mem : Nat → UInt8) (d : Nat) {s : List UInt8} (hs : 0 ∉ s) (n : Nat) :
    strncpyLoop mem d s n =
      (writeRange mem d (s.take n ++ if s.length < n then [0] else []), d + min n s.length) := by
  induction s generalizing mem d n with
  | nil =>
    cases n with
    | zero => simp [strncpyLoop]
    | succ n => simp [strncpyLoop, writeRange_cons]
  | cons b s ih =>
    cases n with
    | zero => simp [strncpyLoop]
    | succ n =>
      rw [strncpyLoop, if_neg (List.ne_of_not_mem_cons hs).symm,
        ih _ _ (List.not_mem_of_not_mem_cons hs),
        List.take_succ_cons, List.cons_append, writeRange_cons, List.length_cons]
      simp only [Nat.add_lt_add_iff_right, Prod.mk.injEq, true_and]
      omega

/-- `strncpy` stores the first `n` bytes of the string and a NUL only if the string is
    shorter than `n`: no padding with NULs up to `n` bytes. It returns the address after
    the bytes of the string it stored, not `d`. -/
theorem strncpy_eq (mem : Nat → UInt8) (d : Nat) (s : CStr) (n : Nat) :
    strncpy mem d s n =
      (writeRange mem d (s.bytes.take n ++ if s.bytes.length < n then [0] else []),
        d + min n s.bytes.length) :=
  strncpyLoop_eq mem d s.nul_not_mem n

/-! ## §8 `atoi` and `atoll` -/

/-- The digit loop of `atoi` and `atoll`, `while (isdigit(*s)) n = 10 * n - (*s++ - '0');`,
    over a signed type whose least value is `lo`. The accumulator counts down from 0 so
    that the least value itself is reached; a step below `lo` overflows, which C leaves
    undefined, and is `none` here. -/
def atoiLoop (lo : Int) : List UInt8 → Int → Option Int
  | [], n => some n
  | c :: cs, n =>
    if isdigit c then
      if 10 * n - ((c.toNat : Int) - 48) < lo then none
      else atoiLoop lo cs (10 * n - ((c.toNat : Int) - 48))
    else some n

/-- The body of `atoi` and `atoll` over a signed type of `w` bits: the white space, one
    sign (the `switch` falls through from `'-'` to the `s++` of `'+'`, which is how
    `readSign` reads it), the digits, and `neg ? n : -n`. `none` where the C code
    overflows. -/
def atoCore (w : Nat) (s : List UInt8) : Option Int :=
  let (neg, i) := readSign s (skipSpaces s)
  match atoiLoop (-2 ^ (w - 1)) (s.drop i) 0 with
  | none => none
  | some n => if neg then some n else if -n ≤ 2 ^ (w - 1) - 1 then some (-n) else none

/-- `atoi(s)` of `string.c`, with a 32-bit `int`. -/
def atoi (s : List UInt8) : Option Int := atoCore 32 s

/-- `atoll(s)` of `stdlib.c`, with a 64-bit `long long`. -/
def atoll (s : List UInt8) : Option Int := atoCore 64 s

/-- The sign and the value of the decimal number after the white space. -/
def decimalValue (s : List UInt8) : Bool × Nat :=
  let (neg, i) := readSign s (skipSpaces s)
  (neg, digitsValue 10 0 (digitRun 10 (s.drop i)))

/-- A signed number in a type of `w` bits, if the type holds it. -/
def fitsSigned (w : Nat) (neg : Bool) (v : Nat) : Option Int :=
  if neg then (if v ≤ 2 ^ (w - 1) then some (-(v : Int)) else none)
  else (if v < 2 ^ (w - 1) then some (v : Int) else none)

theorem digitRun_ten_cons (c : UInt8) (cs : List UInt8) :
    digitRun 10 (c :: cs) = if isdigit c then (c.toNat - 48) :: digitRun 10 cs else [] := by
  split_ifs with hd
  · rw [isdigit_iff] at hd
    exact digitRun_cons_of_digit cs (by simp [digitOf, hd]) (by omega)
  · rw [isdigit_iff] at hd
    apply digitRun_cons_of_stop
    intro d hdig
    unfold digitOf at hdig
    split_ifs at hdig <;> simp only [Option.some.injEq] at hdig <;> omega

/-- The loop from `-a` ends at minus the value of the digit run written after `a`, unless
    that is below `lo`: the accumulator only falls, so it overflows exactly then. -/
theorem atoiLoop_eq {lo : Int} (cs : List UInt8) (a : Nat) (ha : lo ≤ -(a : Int)) :
    atoiLoop lo cs (-(a : Int)) =
      if lo ≤ -(digitsValue 10 a (digitRun 10 cs) : Int) then
        some (-(digitsValue 10 a (digitRun 10 cs) : Int))
      else none := by
  induction cs generalizing a with
  | nil => simp [atoiLoop, digitRun, ha]
  | cons c cs ih =>
    rw [atoiLoop, digitRun_ten_cons]
    by_cases hd : isdigit c = true
    · have hc48 : 48 ≤ c.toNat := (isdigit_iff.mp hd).1
      have hstep : 10 * -(a : Int) - ((c.toNat : Int) - 48) =
          -((a * 10 + (c.toNat - 48) : Nat) : Int) := by
        omega
      rw [if_pos hd, if_pos hd, digitsValue_cons, hstep]
      by_cases hlo : -((a * 10 + (c.toNat - 48) : Nat) : Int) < lo
      · -- the step leaves the type; the value only grows from here
        have hgrow := le_digitsValue (by norm_num : 0 < 10) (a * 10 + (c.toNat - 48))
          (digitRun 10 cs)
        rw [if_pos hlo, if_neg (by omega)]
      · rw [if_neg hlo, ih _ (by omega)]
    · rw [if_neg hd, if_neg hd, digitsValue_nil, if_pos ha]

/-- `atoi` and `atoll` give the signed value of the decimal number after the white space
    whenever their type holds it, its least value included, and overflow exactly when it
    does not. -/
theorem atoCore_eq (w : Nat) (s : List UInt8) :
    atoCore w s = fitsSigned w (decimalValue s).1 (decimalValue s).2 := by
  unfold atoCore decimalValue
  rcases readSign s (skipSpaces s) with ⟨neg, i⟩
  have hloop := @atoiLoop_eq (-2 ^ (w - 1)) (s.drop i) 0 (by simp)
  simp only [Nat.cast_zero, neg_zero] at hloop
  simp only [hloop, fitsSigned]
  generalize digitsValue 10 0 (digitRun 10 (List.drop i s)) = v
  have hP : (2 : Int) ^ (w - 1) = ((2 ^ (w - 1) : Nat) : Int) := by push_cast; rfl
  rw [hP]
  generalize 2 ^ (w - 1) = P
  -- the loop overflows exactly past `P`; without a minus sign, `-n` must stay below `P`
  by_cases hv : v ≤ P
  · rw [if_pos (by omega)]
    cases neg
    · simp only [Bool.false_eq_true, ↓reduceIte, neg_neg]
      split_ifs <;> first | rfl | omega
    · simp [hv]
  · rw [if_neg (by omega)]
    cases neg
    · simp only [Bool.false_eq_true, ↓reduceIte]
      rw [if_neg (by omega)]
    · simp [hv]

-- `"-2147483648"`, the least `int`, is read without overflow
example : atoi [45, 50, 49, 52, 55, 52, 56, 51, 54, 52, 56] = some (-2147483648) := by decide

/-! ## §9 `strerror` -/

/-- `strerror(e)` of `errno.rs` on its static `strerror_buf`, with `msg` the text it picks
    for `e` (`"Success"`, the error's text or `"Unknown error"`):
    `strerror_buf[..err_str.len()].copy_from_slice(err_str.as_bytes())`. Only the text's own
    bytes are written, no NUL after them; the pointer returned is the buffer's. The texts
    are shorter than the 256 bytes of the buffer, so the slice is in range. -/
def strerror (buf msg : List UInt8) : List UInt8 := msg ++ buf.drop msg.length

/-- The C string a caller reads at a buffer: its bytes before the first NUL. -/
def readCStr (buf : List UInt8) : List UInt8 := buf.takeWhile (· != 0)

/-- The caller reads the text and then whatever the buffer held after it, up to a NUL. -/
theorem readCStr_strerror (buf : List UInt8) {msg : List UInt8} (hmsg : 0 ∉ msg) :
    readCStr (strerror buf msg) = msg ++ readCStr (buf.drop msg.length) := by
  apply List.takeWhile_append_of_pos
  intro a ha
  simpa using fun h : a = 0 => hmsg (h ▸ ha)

/-- `"Operation not permitted"`, the text of `EPERM`. -/
def epermText : List UInt8 :=
  [79, 112, 101, 114, 97, 116, 105, 111, 110, 32, 110, 111, 116, 32, 112, 101, 114, 109, 105,
    116, 116, 101, 100]

/-- `"Success"`, the text of 0. -/
def successText : List UInt8 := [83, 117, 99, 99, 101, 115, 115]

-- `strerror(EPERM)` and then `strerror(0)` read `"Successon not permitted"`: the bytes past
-- the shorter text are never cleared
example : readCStr (strerror (strerror (List.replicate 256 0) epermText) successText) =
    [83, 117, 99, 99, 101, 115, 115, 111, 110, 32, 110, 111, 116, 32, 112, 101, 114, 109, 105,
      116, 116, 101, 100] := by decide

end ArceOS.Libc
