import ArceOS.Lib.ByteStore
import ArceOS.Lib.LeBytes

/-!
# The C Heap

`malloc` and `free` of `axlibc/src/malloc.rs`, and `calloc` and `realloc` of
`axlibc/c/stdlib.c`, over a byte memory and the global allocator. `malloc(size)` asks the
allocator for `size + CTRL_BLK_SIZE` bytes aligned to `8`, writes `size` into the first
word (the `MemoryControlBlock`) and returns the address just past it; `free` reads that
word back to rebuild the layout it deallocates.

Sizes are `usize` (`size_t`): `size + CTRL_BLK_SIZE` and `m * n` wrap modulo `2^64`.
`Fault.panic` is a Rust panic (a failed `unwrap` or `assert!`); `Fault.undefined` is a
step whose behaviour the language leaves undefined: an `alloc` of size `0`, the control
block written past a block too small for it, a `dealloc` of a layout that is not
allocated, or the `int` counter of `realloc`'s copy loop passing `INT_MAX`.

`alloc` and `dealloc` are those of `alloc::alloc`, which the kernel's own allocations call
too; `dealloc` returns the heap an `alloc` of the same layout was given (`dealloc_alloc`).

The global allocator is a parameter. An `Allocator` returns null (`0`) or an address
aligned to the layout whose block overlaps no live block, as `GlobalAlloc::alloc` is
documented to do; `bumpAllocator` is one.

## Main results

- `malloc_of_le`, `block_malloc`: for a size whose layout is valid, `malloc` returns an
  8-aligned `Block` with its control block, unless the allocator fails, when it panics:
  it never returns null (`malloc_ne_zero`);
- `free_of_block`: `free` deallocates exactly the layout `malloc` allocated;
- `calloc_of_le`: a product that fits gives a zero-filled block of that many bytes;
- `realloc_of_block`: `realloc` keeps the first `min(n, s)` bytes and frees the block;
- `calloc_overflow_not_null`: `calloc(2^32, 2^32)` is `malloc(0)`, a non-null block of
  `0` bytes.
-/

namespace ArceOS.Libc

open ArceOS.Lib.ByteStore ArceOS.Lib.LeBytes

/-! ## §1 Layouts, memory and the allocator -/

/-- `usize::MAX + 1`, the modulus of `usize` and `size_t`. -/
def usizeModulus : Nat := 2 ^ 64

/-- `isize::MAX`. -/
def isizeMax : Nat := 2 ^ 63 - 1

/-- `INT_MAX`. -/
def intMax : Nat := 2 ^ 31 - 1

/-- `CTRL_BLK_SIZE`: the size of `MemoryControlBlock`, one `usize`. -/
def CTRL_BLK_SIZE : Nat := 8

/-- `core::alloc::Layout`. -/
structure Layout where
  size : Nat
  align : Nat
  deriving DecidableEq, Repr

/-- `Layout::from_size_align`: the alignment must be a power of two and the size,
    rounded up to it, must not pass `isize::MAX`. -/
def Layout.fromSizeAlign (size align : Nat) : Option Layout :=
  if 0 < align ∧ align &&& (align - 1) = 0 ∧ size ≤ isizeMax - (align - 1) then
    some ⟨size, align⟩
  else none

/-- The heap: the bytes of memory, and the blocks the allocator has handed out and not
    taken back, with their layouts. -/
structure Heap where
  mem : Nat → UInt8
  live : List (Nat × Layout)

/-- The `size_t` stored at `p`. -/
def readUsize (mem : Nat → UInt8) (p : Nat) : Nat := ofLe (readRange mem p 8)

/-- `mem` with the `size_t` `v` stored at `p`. -/
def writeUsize (mem : Nat → UInt8) (p v : Nat) : Nat → UInt8 := writeRange mem p (toLe v 8)

/-- How a call can fail to return. -/
inductive Fault where
  | panic (msg : String)
  | undefined
  deriving DecidableEq, Repr

/-- The global allocator's `alloc`, as documented: null, or an address aligned to the
    layout whose block overlaps no live block. -/
structure Allocator where
  alloc : Heap → Layout → Nat
  aligned : ∀ h l, alloc h l ≠ 0 → alloc h l % l.align = 0
  fresh : ∀ h l, alloc h l ≠ 0 → ∀ b ∈ h.live, b.1 + b.2.size ≤ alloc h l ∨ alloc h l + l.size ≤ b.1

/-! ## §2 The four functions -/

/-- The panic of `Layout::from_size_align(..).unwrap()`. -/
def layoutError : Fault := .panic "called Result::unwrap() on an Err value: LayoutError"

/-- `malloc(size)`: the pointer returned, and the heap after. -/
def malloc (A : Allocator) (h : Heap) (size : Nat) : Except Fault (Nat × Heap) :=
  -- `size + CTRL_BLK_SIZE` wraps
  match Layout.fromSizeAlign ((size + CTRL_BLK_SIZE) % usizeModulus) 8 with
  | none => .error layoutError
  | some layout =>
    if layout.size = 0 then .error .undefined
    else
      let ptr := A.alloc h layout
      if ptr = 0 then .error (.panic "malloc failed")
      -- `ptr.write(MemoryControlBlock { size })` must fit in the block
      else if layout.size < CTRL_BLK_SIZE then .error .undefined
      else .ok (ptr + CTRL_BLK_SIZE, ⟨writeUsize h.mem ptr size, (ptr, layout) :: h.live⟩)

/-- `dealloc(ptr, layout)`: the block must be live with that layout. -/
def dealloc (h : Heap) (ptr : Nat) (layout : Layout) : Except Fault Heap :=
  if (ptr, layout) ∈ h.live then .ok ⟨h.mem, h.live.erase (ptr, layout)⟩
  else .error .undefined

/-- `alloc(layout)`: the allocator's block, now live, or null. A layout of size `0` is
    undefined. -/
def alloc (A : Allocator) (h : Heap) (layout : Layout) : Except Fault (Nat × Heap) :=
  if layout.size = 0 then .error .undefined
  else
    let ptr := A.alloc h layout
    if ptr = 0 then .ok (0, h) else .ok (ptr, ⟨h.mem, (ptr, layout) :: h.live⟩)

/-- `free(ptr)`. -/
def free (h : Heap) (ptr : Nat) : Except Fault Heap :=
  if ptr = 0 then .ok h
  else if ptr ≤ CTRL_BLK_SIZE then .error (.panic "free a null pointer")
  else
    let p := ptr - CTRL_BLK_SIZE
    let size := readUsize h.mem p
    match Layout.fromSizeAlign ((size + CTRL_BLK_SIZE) % usizeModulus) 8 with
    | none => .error layoutError
    | some layout => dealloc h p layout

/-- `calloc(m, n)`: `malloc(m * n)` and `memset(mem, 0, n * m)`, the products wrapping. -/
def calloc (A : Allocator) (h : Heap) (m n : Nat) : Except Fault (Nat × Heap) :=
  match malloc A h (m * n % usizeModulus) with
  | .error e => .error e
  | .ok (mem, h) =>
    .ok (mem, ⟨writeRange h.mem mem (List.replicate (n * m % usizeModulus) 0), h.live⟩)

/-- The loop `for (int i = 0; i < count; i++) dst[i] = src[i]`, one byte at a time. -/
def copyBytes (f : Nat → UInt8) (src dst : Nat) : Nat → Nat → UInt8
  | 0 => f
  | i + 1 =>
    let g := copyBytes f src dst i
    Function.update g (dst + i) (g (src + i))

/-- `realloc(memblock, size)`. -/
def realloc (A : Allocator) (h : Heap) (memblock size : Nat) : Except Fault (Nat × Heap) :=
  if memblock = 0 then malloc A h size
  else
    -- `*(size_t *)(memblock - 8)`
    let oSize := readUsize h.mem (memblock - 8)
    match malloc A h size with
    | .error e => .error e
    | .ok (mem, h) =>
      let count := min oSize size
      -- the `int` counter would pass `INT_MAX`
      if count > intMax then .error .undefined
      else
        match free ⟨copyBytes h.mem memblock mem count, h.live⟩ memblock with
        | .error e => .error e
        | .ok h => .ok (mem, h)

/-! ## §3 Layouts and words -/

variable {A : Allocator} {h : Heap} {mem : Nat → UInt8}

/-- A power-of-two alignment and a size that fits give the layout. -/
theorem fromSizeAlign_of_valid {size align : Nat} (hpos : 0 < align)
    (hpow : align &&& (align - 1) = 0) (h : size ≤ isizeMax - (align - 1)) :
    Layout.fromSizeAlign size align = some ⟨size, align⟩ :=
  if_pos ⟨hpos, hpow, h⟩

theorem fromSizeAlign_eight {size : Nat} (h : size ≤ isizeMax - 7) :
    Layout.fromSizeAlign size 8 = some ⟨size, 8⟩ :=
  fromSizeAlign_of_valid (by decide) (by decide) h

/-- `from_size_align` succeeds exactly on a power-of-two alignment and a size that fits, and
    builds the layout of that size and alignment. -/
theorem fromSizeAlign_eq_some_iff {size align : Nat} {l : Layout} :
    Layout.fromSizeAlign size align = some l ↔
      (0 < align ∧ align &&& (align - 1) = 0 ∧ size ≤ isizeMax - (align - 1)) ∧
        l = ⟨size, align⟩ := by
  unfold Layout.fromSizeAlign
  split_ifs with hv
  · simp only [Option.some.injEq, hv, true_and]
    exact eq_comm
  · simp [hv]

/-- The control block of a size that fits: `size + CTRL_BLK_SIZE` does not wrap, and
    its layout is valid. -/
theorem layout_ctrl {n : Nat} (hn : n + 8 ≤ isizeMax - 7) :
    Layout.fromSizeAlign ((n + CTRL_BLK_SIZE) % usizeModulus) 8 = some ⟨n + 8, 8⟩ := by
  have hlt : n + 8 < usizeModulus := by unfold isizeMax usizeModulus at *; omega
  rw [CTRL_BLK_SIZE, Nat.mod_eq_of_lt hlt, fromSizeAlign_eight hn]

theorem readUsize_writeUsize_self (mem : Nat → UInt8) (p : Nat) {v : Nat}
    (hv : v < usizeModulus) : readUsize (writeUsize mem p v) p = v := by
  have hself := readRange_writeRange_self mem p (toLe v 8)
  rw [length_toLe] at hself
  rw [readUsize, writeUsize, hself, ofLe_toLe_of_lt (by unfold usizeModulus at hv; omega)]

/-- A word read apart from a range written keeps its value. -/
theorem readUsize_writeRange_of_disjoint {bs : List UInt8} {p q : Nat}
    (h : q + 8 ≤ p ∨ p + bs.length ≤ q) : readUsize (writeRange mem p bs) q = readUsize mem q := by
  rw [readUsize, readRange_writeRange_of_disjoint h, readUsize]

theorem readUsize_writeUsize_of_disjoint {p q v : Nat} (h : q + 8 ≤ p ∨ p + 8 ≤ q) :
    readUsize (writeUsize mem p v) q = readUsize mem q :=
  readUsize_writeRange_of_disjoint (by simpa using h)

theorem readRange_writeUsize_of_disjoint {p q v len : Nat} (h : q + len ≤ p ∨ p + 8 ≤ q) :
    readRange (writeUsize mem p v) q len = readRange mem q len :=
  readRange_writeRange_of_disjoint (by simpa using h)

/-! ## §4 The copy loop -/

/-- Outside its destination the copy changes nothing. -/
theorem copyBytes_of_not_mem {src dst count j : Nat} (hj : j < dst ∨ dst + count ≤ j) :
    copyBytes mem src dst count j = mem j := by
  induction count with
  | zero => rfl
  | succ c ih =>
    rw [copyBytes, Function.update_of_ne (by omega), ih (by omega)]

/-- A copy between disjoint ranges puts the source's bytes in the destination. -/
theorem copyBytes_dst {src dst count i : Nat} (hdisj : src + count ≤ dst ∨ dst + count ≤ src)
    (hi : i < count) : copyBytes mem src dst count (dst + i) = mem (src + i) := by
  induction count with
  | zero => omega
  | succ c ih =>
    rw [copyBytes]
    by_cases hic : i = c
    · -- the byte copied last: its source was not overwritten before
      subst hic
      rw [Function.update_self, copyBytes_of_not_mem (by omega)]
    · rw [Function.update_of_ne (by omega), ih (by omega) (by omega)]

theorem readRange_copyBytes {src dst count : Nat}
    (hdisj : src + count ≤ dst ∨ dst + count ≤ src) :
    readRange (copyBytes mem src dst count) dst count = readRange mem src count := by
  apply List.ext_getElem
  · simp
  · intro i h₁ _
    rw [getElem_readRange, getElem_readRange, copyBytes_dst hdisj (by simpa using h₁)]

theorem readRange_copyBytes_of_disjoint {src dst count q len : Nat}
    (h : q + len ≤ dst ∨ dst + count ≤ q) :
    readRange (copyBytes mem src dst count) q len = readRange mem q len :=
  readRange_congr fun _ _ => copyBytes_of_not_mem (by omega)

theorem readUsize_copyBytes_of_disjoint {src dst count q : Nat}
    (h : q + 8 ≤ dst ∨ dst + count ≤ q) :
    readUsize (copyBytes mem src dst count) q = readUsize mem q := by
  rw [readUsize, readRange_copyBytes_of_disjoint h, readUsize]

/-! ## §5 `malloc` and `free` -/

/-- `ptr` is a block of `n` bytes handed out by `malloc` and not freed: its control
    block, just below it, holds `n`, and the allocator's block of `n + 8` bytes is live. -/
structure Block (h : Heap) (ptr n : Nat) : Prop where
  size_le : n + 8 ≤ isizeMax - 7
  header_lt : CTRL_BLK_SIZE < ptr
  live : (ptr - CTRL_BLK_SIZE, (⟨n + 8, 8⟩ : Layout)) ∈ h.live
  header : readUsize h.mem (ptr - CTRL_BLK_SIZE) = n

/-- For a size whose layout is valid, `malloc` stores the size in the control block of
    the allocator's block, records the block as live, and returns the address past the
    control block. -/
theorem malloc_of_le {n : Nat} (hn : n + 8 ≤ isizeMax - 7) (hp : A.alloc h ⟨n + 8, 8⟩ ≠ 0) :
    malloc A h n = .ok (A.alloc h ⟨n + 8, 8⟩ + 8,
      ⟨writeUsize h.mem (A.alloc h ⟨n + 8, 8⟩) n, (A.alloc h ⟨n + 8, 8⟩, ⟨n + 8, 8⟩) :: h.live⟩) := by
  simp only [malloc, layout_ctrl hn]
  rw [if_neg (by omega), if_neg hp, if_neg (by unfold CTRL_BLK_SIZE; omega)]
  rfl

/-- What `malloc` returns is an 8-aligned block of the size asked for. -/
theorem block_malloc {n : Nat} (hn : n + 8 ≤ isizeMax - 7) (hp : A.alloc h ⟨n + 8, 8⟩ ≠ 0) :
    Block ⟨writeUsize h.mem (A.alloc h ⟨n + 8, 8⟩) n, (A.alloc h ⟨n + 8, 8⟩, ⟨n + 8, 8⟩) :: h.live⟩
      (A.alloc h ⟨n + 8, 8⟩ + 8) n ∧ (A.alloc h ⟨n + 8, 8⟩ + 8) % 8 = 0 := by
  have halign := A.aligned h ⟨n + 8, 8⟩ hp
  have hn' : n < usizeModulus := by unfold isizeMax usizeModulus at *; omega
  refine ⟨⟨hn, ?_, ?_, ?_⟩, by simp only at halign; omega⟩
  · unfold CTRL_BLK_SIZE
    omega
  · simp [CTRL_BLK_SIZE]
  · simp only [CTRL_BLK_SIZE, Nat.add_sub_cancel]
    exact readUsize_writeUsize_self _ _ hn'

/-- `malloc` never returns null: a failing allocator makes it panic. -/
theorem malloc_ne_zero {n p : Nat} {h' : Heap} (hm : malloc A h n = .ok (p, h')) : p ≠ 0 := by
  simp only [malloc] at hm
  split at hm
  · cases hm
  · split_ifs at hm
    cases hm
    unfold CTRL_BLK_SIZE
    omega

/-- `free` reads the size back from the control block and deallocates exactly the layout
    `malloc` allocated. -/
theorem free_of_block {ptr n : Nat} (hb : Block h ptr n) :
    free h ptr = .ok ⟨h.mem, h.live.erase (ptr - 8, ⟨n + 8, 8⟩)⟩ := by
  have hlt := hb.header_lt
  unfold CTRL_BLK_SIZE at hlt
  simp only [free, hb.header, layout_ctrl hb.size_le, dealloc]
  rw [if_neg (by omega), if_neg (by unfold CTRL_BLK_SIZE; omega), if_pos hb.live]
  rfl

/-! ## §6 `calloc` -/

/-- `calloc(m, n)` with a product that fits returns a block of `m * n` zero bytes. -/
theorem calloc_of_le {m n : Nat} (hmn : m * n + 8 ≤ isizeMax - 7)
    (hp : A.alloc h ⟨m * n + 8, 8⟩ ≠ 0) :
    ∃ h', calloc A h m n = .ok (A.alloc h ⟨m * n + 8, 8⟩ + 8, h') ∧
      Block h' (A.alloc h ⟨m * n + 8, 8⟩ + 8) (m * n) ∧
      readRange h'.mem (A.alloc h ⟨m * n + 8, 8⟩ + 8) (m * n) = List.replicate (m * n) 0 := by
  set q := A.alloc h ⟨m * n + 8, 8⟩ with hqdef
  have hfit : m * n % usizeModulus = m * n :=
    Nat.mod_eq_of_lt (by unfold isizeMax usizeModulus at *; omega)
  have hfit' : n * m % usizeModulus = m * n := by rw [Nat.mul_comm, hfit]
  obtain ⟨hb, -⟩ := block_malloc hmn hp
  rw [← hqdef] at hb
  refine ⟨⟨writeRange (writeUsize h.mem q (m * n)) (q + 8) (List.replicate (m * n) 0),
    (q, ⟨m * n + 8, 8⟩) :: h.live⟩, ?_, ?_, ?_⟩
  · simp only [calloc, hfit, malloc_of_le hmn hp, hfit', ← hqdef]
  · -- zeroing the block leaves the control block below it alone
    refine ⟨hb.size_le, hb.header_lt, hb.live, ?_⟩
    rw [readUsize_writeRange_of_disjoint (.inl (by unfold CTRL_BLK_SIZE; omega)), hb.header]
  · have hz := readRange_writeRange_self (writeUsize h.mem q (m * n)) (q + 8)
      (List.replicate (m * n) (0 : UInt8))
    rwa [List.length_replicate] at hz

/-- `calloc(m, n)` whose product wraps to `0` is `malloc(0)`. -/
theorem calloc_eq_malloc_zero {m n : Nat} (h0 : m * n % usizeModulus = 0) :
    calloc A h m n = malloc A h 0 := by
  have h0' : n * m % usizeModulus = 0 := by rw [Nat.mul_comm, h0]
  simp only [calloc, h0, h0', List.replicate_zero, writeRange_nil]
  cases malloc A h 0 with
  | error e => rfl
  | ok r => rfl

/-! ## §7 `realloc` -/

/-- `realloc` of a block of `n` bytes to `s` bytes, when the new layout is valid, the
    allocator does not fail and the copy loop's `int` counter stays below `INT_MAX`,
    returns a block of `s` bytes holding the first `min(n, s)` bytes of the old one, and
    frees the old one. -/
theorem realloc_of_block {ptr n s : Nat} (hb : Block h ptr n) (hs : s + 8 ≤ isizeMax - 7)
    (hq : A.alloc h ⟨s + 8, 8⟩ ≠ 0) (hc : min n s ≤ intMax) :
    ∃ h', realloc A h ptr s = .ok (A.alloc h ⟨s + 8, 8⟩ + 8, h') ∧
      Block h' (A.alloc h ⟨s + 8, 8⟩ + 8) s ∧
      readRange h'.mem (A.alloc h ⟨s + 8, 8⟩ + 8) (min n s) = readRange h.mem ptr (min n s) ∧
      h'.live = (A.alloc h ⟨s + 8, 8⟩, ⟨s + 8, 8⟩) :: h.live.erase (ptr - 8, ⟨n + 8, 8⟩) := by
  set q := A.alloc h ⟨s + 8, 8⟩ with hqdef
  have hlt := hb.header_lt
  unfold CTRL_BLK_SIZE at hlt
  -- the new block lies wholly before or wholly after the old one
  have hfresh := A.fresh h ⟨s + 8, 8⟩ hq _ hb.live
  simp only [CTRL_BLK_SIZE] at hfresh
  rw [← hqdef] at hfresh
  obtain ⟨hnew, -⟩ := block_malloc hs hq
  rw [← hqdef] at hnew
  have hhead : readUsize h.mem (ptr - 8) = n := hb.header
  -- the old block in the heap after the copy: its control block is untouched
  have hold : Block ⟨copyBytes (writeUsize h.mem q s) ptr (q + 8) (min n s), (q, ⟨s + 8, 8⟩) :: h.live⟩ ptr n := by
    refine ⟨hb.size_le, hb.header_lt, List.mem_cons_of_mem _ hb.live, ?_⟩
    simp only [CTRL_BLK_SIZE]
    rw [readUsize_copyBytes_of_disjoint (by omega), readUsize_writeUsize_of_disjoint (by omega)]
    exact hb.header
  have hne : ¬ (((q, ⟨s + 8, 8⟩) : Nat × Layout) == (ptr - 8, ⟨n + 8, 8⟩)) = true := by
    simp only [beq_iff_eq, Prod.mk.injEq, not_and]
    intro hqp
    omega
  refine ⟨⟨copyBytes (writeUsize h.mem q s) ptr (q + 8) (min n s), ((q, ⟨s + 8, 8⟩) :: h.live).erase (ptr - 8, ⟨n + 8, 8⟩)⟩,
    ?_, ⟨hs, hnew.header_lt, ?_, ?_⟩, ?_, ?_⟩
  · simp only [realloc, hhead, malloc_of_le hs hq, ← hqdef]
    rw [if_neg (by omega), if_neg (by omega), free_of_block hold]
  · rw [List.erase_cons_tail hne]
    simp [CTRL_BLK_SIZE]
  · simp only [CTRL_BLK_SIZE, Nat.add_sub_cancel]
    rw [readUsize_copyBytes_of_disjoint (by omega)]
    exact readUsize_writeUsize_self _ _ (by unfold isizeMax usizeModulus at *; omega)
  · -- the copy reads the old bytes, which the new control block does not cover
    rw [readRange_copyBytes (by omega), readRange_writeUsize_of_disjoint (by omega)]
  · exact List.erase_cons_tail hne

/-! ## §8 A bump allocator, and `calloc` past `size_t` -/

/-- The end of the highest live block, and at least `base`. -/
def Heap.top (h : Heap) (base : Nat) : Nat :=
  h.live.foldr (fun b t => max t (b.1 + b.2.size)) base

theorem Heap.le_top_of_mem {base : Nat} {b : Nat × Layout} (hb : b ∈ h.live) :
    b.1 + b.2.size ≤ h.top base := by
  obtain ⟨mem, live⟩ := h
  simp only [Heap.top] at hb ⊢
  induction live with
  | nil => simp at hb
  | cons b' bs ih =>
    simp only [List.foldr_cons]
    rcases List.mem_cons.mp hb with rfl | hb
    · exact Nat.le_max_right _ _
    · exact Nat.le_trans (ih hb) (Nat.le_max_left _ _)

/-- `x` rounded up to a multiple of `a`. -/
def alignUp (x a : Nat) : Nat := (x + a - 1) / a * a

theorem le_alignUp {x a : Nat} (ha : 0 < a) : x ≤ alignUp x a := by
  unfold alignUp
  have := Nat.lt_div_mul_add (a := x + a - 1) ha
  omega

/-- A bump allocator from `base`: each block starts at the first address aligned to its
    layout past every live block. It never fails, and never reuses memory. -/
def bumpAllocator (base : Nat) : Allocator where
  alloc h l := if l.align = 0 then 0 else alignUp (h.top base) l.align
  aligned h l hne := by
    split_ifs with ha
    · exact absurd (if_pos ha) hne
    · exact Nat.mul_mod_left _ _
  fresh h l hne b hb := by
    split_ifs with ha
    · exact absurd (if_pos ha) hne
    · exact .inl (Nat.le_trans (Heap.le_top_of_mem hb) (le_alignUp (Nat.pos_of_ne_zero ha)))

/-- `calloc(2^32, 2^32)` on an empty heap: the product `2^64` wraps to `0`, so the call is
    `malloc(0)`, which returns a non-null block of `0` bytes where `NULL` is due. -/
theorem calloc_overflow_not_null :
    calloc (bumpAllocator 4096) ⟨fun _ => 0, []⟩ (2 ^ 32) (2 ^ 32) =
        malloc (bumpAllocator 4096) ⟨fun _ => 0, []⟩ 0 ∧
      ∃ p h', malloc (bumpAllocator 4096) ⟨fun _ => 0, []⟩ 0 = .ok (p, h') ∧ p ≠ 0 ∧
        Block h' p 0 := by
  have hp : (bumpAllocator 4096).alloc ⟨fun _ => 0, []⟩ ⟨0 + 8, 8⟩ ≠ 0 := by decide
  refine ⟨calloc_eq_malloc_zero (by decide), _, _, malloc_of_le (by decide) hp, by omega,
    (block_malloc (by decide) hp).1⟩

/-! ## §9 Blocks of one layout -/

section Blocks

variable {A : Allocator} {h : Heap} {l : Layout}

theorem alloc_of_ne_zero (hs : 0 < l.size) (hp : A.alloc h l ≠ 0) :
    alloc A h l = .ok (A.alloc h l, ⟨h.mem, (A.alloc h l, l) :: h.live⟩) := by
  rw [alloc, if_neg (by omega)]
  exact if_neg hp

theorem alloc_of_eq_zero (hs : 0 < l.size) (hp : A.alloc h l = 0) : alloc A h l = .ok (0, h) := by
  rw [alloc, if_neg (by omega)]
  exact if_pos hp

/-- A non-null block from `alloc` is the allocator's, of positive size, and now live. -/
theorem eq_of_alloc {p : Nat} {h' : Heap} (ha : alloc A h l = .ok (p, h')) (hp : p ≠ 0) :
    0 < l.size ∧ p = A.alloc h l ∧ h' = ⟨h.mem, (p, l) :: h.live⟩ := by
  dsimp only [alloc] at ha
  split_ifs at ha with hs hz
  · cases ha
    exact absurd rfl hp
  · cases ha
    exact ⟨Nat.pos_of_ne_zero hs, rfl, rfl⟩

/-- A null block from `alloc` leaves the heap as it was. -/
theorem eq_of_alloc_zero {h' : Heap} (ha : alloc A h l = .ok (0, h')) : h' = h := by
  dsimp only [alloc] at ha
  split_ifs at ha with hs hz
  · cases ha
    rfl
  · exact absurd (congrArg Prod.fst (Except.ok.inj ha)) hz

/-- No live block starts where a fresh block of positive size does, whatever its layout. -/
theorem not_mem_live_of_alloc (hs : 0 < l.size) (hp : A.alloc h l ≠ 0) {l' : Layout}
    (hs' : 0 < l'.size) : (A.alloc h l, l') ∉ h.live := by
  intro hmem
  have := A.fresh h l hp _ hmem
  dsimp only at this
  omega

theorem dealloc_of_mem {p : Nat} (hm : (p, l) ∈ h.live) :
    dealloc h p l = .ok ⟨h.mem, h.live.erase (p, l)⟩ := if_pos hm

theorem dealloc_of_not_mem {p : Nat} (hm : (p, l) ∉ h.live) : dealloc h p l = .error .undefined :=
  if_neg hm

/-- `dealloc` of another block than the newest leaves the newest live. -/
theorem dealloc_cons_of_ne {p q : Nat} {m : Layout} (hne : (p, l) ≠ (q, m)) :
    dealloc ⟨h.mem, (p, l) :: h.live⟩ q m = (dealloc h q m).map fun h' => ⟨h'.mem, (p, l) :: h'.live⟩ := by
  by_cases hm : (q, m) ∈ h.live
  · rw [dealloc_of_mem (List.mem_cons_of_mem _ hm), dealloc_of_mem hm, List.erase_cons_tail
      (by simpa using hne)]
    rfl
  · rw [dealloc_of_not_mem (by simpa [Ne.symm hne] using hm), dealloc_of_not_mem hm]
    rfl

/-- Deallocating a block with the layout it was allocated with gives the heap back. -/
theorem dealloc_alloc (p : Nat) : dealloc ⟨h.mem, (p, l) :: h.live⟩ p l = .ok h := by
  rw [dealloc_of_mem List.mem_cons_self, List.erase_cons_head]

end Blocks

end ArceOS.Libc
