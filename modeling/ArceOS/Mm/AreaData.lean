import ArceOS.Mm.AddrSpace
import ArceOS.Lib.ByteStore
import ArceOS.Libc.Malloc

/-!
# Copies Through an Address Space

`process_area_data`, `read`, `write` and `translated_byte_buffer` of `axmm/src/aspace.rs`:
the walks that cut a range of virtual addresses at page boundaries and hand on the
physical address of each piece. `query` is the page table crate's: the entry's address
plus the offset in the page, or `NotMapped` for an unused entry. Memory is one store of
bytes by physical address (`phys_to_virt` is a fixed offset, left out), and the buffer of
`read` and `write` is another.

`process_area_data` walks the pages from `align_down_4k(start)` to
`align_up_4k(start + size)` and cuts the first piece at the offset of `start` in its
page. By an invariant of the loop its pieces cover the range in order, each inside one
page and at the translation of its first byte; `read` then fetches every byte from its
translation, and `write` stores it there, unless two bytes of the range share one: two
pages mapped onto one frame by `map_linear` keep the later byte.

`translated_byte_buffer` compares `len` with the size of the area of `vaddr`, not with
what is left of the area after `vaddr`, and unwraps `query`, which fails on the
unpopulated pages of a lazy area.

## Main results

- `areaLoop_chunked`, `processAreaData_chunked`: the pieces of `process_area_data`;
- `readChunks_spec`, `writeChunks_spec`, `writeChunks_frame`: what the copies do;
- `process_area_data_copies_exact`: `read` and `write` over a mapped range;
- `sliceLoop_bytes`: the slices of `translated_byte_buffer` hold the range's bytes;
- `translated_byte_buffer_panics_and_overruns`: a lazy page panics, and a range running
  past the end of its area is returned.
-/

namespace ArceOS.Mm

open ArceOS.Lib.ByteStore ArceOS.Libc

/-! ## §1 Alignment and `query` -/

/-- `align_down_4k`. -/
def alignDown4k (x : Nat) : Nat := x / PAGE_SIZE_4K * PAGE_SIZE_4K

/-- `align_up_4k`. -/
def alignUp4k (x : Nat) : Nat := (x + PAGE_SIZE_4K - 1) / PAGE_SIZE_4K * PAGE_SIZE_4K

/-- `align_offset_4k`. -/
def alignOffset4k (x : Nat) : Nat := x % PAGE_SIZE_4K

namespace PageTable

/-- The physical address of `vaddr`: its page's entry, plus its offset in the page. -/
def translate (pt : PageTable) (vaddr : Nat) : Nat :=
  (pt (vaddr / PAGE_SIZE_4K)).paddr + alignOffset4k vaddr

/-- `query`, the address it returns: an unused entry is `NotMapped`. -/
def query (pt : PageTable) (vaddr : Nat) : Except PagingError Nat :=
  if (pt (vaddr / PAGE_SIZE_4K)).isUnused then .error .notMapped else .ok (pt.translate vaddr)

end PageTable

/-! ## §2 `process_area_data`, `read` and `write` -/

/-- A call `f(paddr, offset, size)` of `process_area_data`: `size` bytes at physical
    address `paddr`, and at `offset` in the buffer. -/
structure Chunk where
  paddr : Nat
  offset : Nat
  size : Nat
  deriving DecidableEq, Repr

/-- The first page of an unaligned `start` is copied from the offset of `start` in it, and
    no further than its end: the address and the size of the copy. -/
def firstPageClamp (start vaddr paddr copySize : Nat) : Nat × Nat :=
  if vaddr = alignDown4k start ∧ alignOffset4k start ≠ 0 then
    (paddr + alignOffset4k start, min copySize (PAGE_SIZE_4K - alignOffset4k start))
  else (paddr, copySize)

/-- The `for` loop of `process_area_data` over `n` more pages from `vaddr`, with `cnt`
    bytes copied: the calls of `f`, and the result. -/
def areaLoop (pt : PageTable) (start size : Nat) :
    Nat → Nat → Nat → List Chunk × Except AxError Unit
  | 0, _, _ => ([], .ok ())
  | n + 1, vaddr, cnt =>
    match pt.query vaddr with
    | .error _ => ([], .error .badAddress)
    | .ok paddr =>
      if min (size - cnt) PAGE_SIZE_4K = 0 then ([], .ok ())
      else
        let c := firstPageClamp start vaddr paddr (min (size - cnt) PAGE_SIZE_4K)
        let r := areaLoop pt start size n (vaddr + PAGE_SIZE_4K) (cnt + c.2)
        (⟨c.1, cnt, c.2⟩ :: r.1, r.2)

namespace AddrSpace

/-- `process_area_data`: the calls of `f` it makes, and its result. -/
def processAreaData (a : AddrSpace) (start size : Nat) : List Chunk × Except AxError Unit :=
  if !a.containsRange start size then ([], .error .invalidInput)
  else
    areaLoop a.pt start size ((alignUp4k (start + size) - alignDown4k start) / PAGE_SIZE_4K)
      (alignDown4k start) 0

end AddrSpace

/-- The copies of the closure of `read`: each chunk of memory into the buffer at its
    offset. -/
def readChunks (mem buf : Nat → UInt8) (cs : List Chunk) : Nat → UInt8 :=
  cs.foldl (fun b c => writeRange b c.offset (readRange mem c.paddr c.size)) buf

/-- The copies of the closure of `write`: each chunk of the buffer into memory. -/
def writeChunks (mem buf : Nat → UInt8) (cs : List Chunk) : Nat → UInt8 :=
  cs.foldl (fun m c => writeRange m c.paddr (readRange buf c.offset c.size)) mem

namespace AddrSpace

/-- `read` of `len` bytes into `buf`: the result, and the buffer after it. -/
def read (a : AddrSpace) (mem buf : Nat → UInt8) (start len : Nat) :
    Except AxError Unit × (Nat → UInt8) :=
  let r := a.processAreaData start len
  (r.2, readChunks mem buf r.1)

/-- `write` of the `len` bytes of `buf`: the result, and memory after it. -/
def write (a : AddrSpace) (mem buf : Nat → UInt8) (start len : Nat) :
    Except AxError Unit × (Nat → UInt8) :=
  let r := a.processAreaData start len
  (r.2, writeChunks mem buf r.1)

end AddrSpace

/-! ## §3 `translated_byte_buffer` -/

/-- The panic of `query(start).unwrap()` on a page that is not mapped. -/
def queryUnwrapFault : Fault := .panic "called Result::unwrap() on an Err value: NotMapped"

/-- The `while start < end` loop of `translated_byte_buffer`: the slices, as physical
    address and length. Each turn takes at least one byte, so `end_ - start` turns finish
    it (`sliceLoop_succ_fuel`). -/
def sliceLoop (pt : PageTable) : Nat → Nat → Nat → Except Fault (List (Nat × Nat))
  | 0, _, _ => .ok []
  | fuel + 1, start, end_ =>
    if start < end_ then
      match pt.query start with
      | .error _ => .error queryUnwrapFault
      | .ok startPaddr =>
        let endVa := min (alignDown4k start + PAGE_SIZE_4K) end_
        (sliceLoop pt fuel endVa end_).map ((startPaddr, endVa - start) :: ·)
    else .ok []

namespace AddrSpace

/-- `translated_byte_buffer`, its slices as physical address and length. -/
def translatedByteBuffer (a : AddrSpace) (vaddr len : Nat) :
    Except Fault (Option (List (Nat × Nat))) :=
  if !(a.vaStart ≤ vaddr && vaddr < a.vaEnd) then .ok none
  else
    match find a.areas vaddr with
    | none => .ok none
    | some area =>
      if len > area.size then .ok none
      else (sliceLoop a.pt len vaddr (vaddr + len)).map some

end AddrSpace

/-! ## §4 Translations within a page -/

namespace PageTable

variable (pt : PageTable)

/-- Within a page, the translation moves with the address. -/
theorem translate_add {v k : Nat} (h : v % PAGE_SIZE_4K + k < PAGE_SIZE_4K) :
    pt.translate (v + k) = pt.translate v + k := by
  have hpage : (v + k) / PAGE_SIZE_4K = v / PAGE_SIZE_4K := by
    unfold PAGE_SIZE_4K at *; omega
  have hoff : alignOffset4k (v + k) = alignOffset4k v + k := by
    unfold alignOffset4k PAGE_SIZE_4K at *; omega
  rw [translate, translate, hpage, hoff, Nat.add_assoc]

theorem query_of_used {v : Nat} (h : (pt (v / PAGE_SIZE_4K)).isUnused = false) :
    pt.query v = .ok (pt.translate v) := by
  simp [query, h]

/-- The bytes of a piece of one page, read from its translation, are the bytes at the
    translations of its addresses. -/
theorem readRange_translate (mem : Nat → UInt8) {v k : Nat}
    (h : v % PAGE_SIZE_4K + k ≤ PAGE_SIZE_4K) :
    readRange mem (pt.translate v) k = readRange (fun x => mem (pt.translate x)) v k := by
  apply List.ext_getElem (by simp)
  intro i hi _
  simp only [getElem_readRange]
  rw [pt.translate_add (by simp at hi; omega)]

end PageTable

/-! ## §5 The loop of `process_area_data` -/

/-- `cs` cover the bytes `[cnt, size)` of the range from `start` in order: each is
    non-empty, next to the one before, inside one page, and at the translation of its first
    byte. -/
def Chunked (pt : PageTable) (start size : Nat) : Nat → List Chunk → Prop
  | cnt, [] => cnt = size
  | cnt, c :: cs =>
    c.paddr = pt.translate (start + cnt) ∧ c.offset = cnt ∧ 0 < c.size ∧ cnt + c.size ≤ size ∧
      (start + cnt) % PAGE_SIZE_4K + c.size ≤ PAGE_SIZE_4K ∧ Chunked pt start size (cnt + c.size) cs

/-- Where the loop stands with `n` pages left after `cnt` bytes: on the first page before
    any byte, on a page boundary at byte `cnt` in the middle, or past the end with every
    byte copied. The pages left always reach `align_up_4k(start + size)`. -/
def LoopInv (start size n vaddr cnt : Nat) : Prop :=
  vaddr + n * PAGE_SIZE_4K = alignUp4k (start + size) ∧
    (cnt = 0 ∧ vaddr = alignDown4k start ∨
      0 < cnt ∧ cnt < size ∧ vaddr = start + cnt ∧ vaddr % PAGE_SIZE_4K = 0 ∨
      cnt = size ∧ vaddr = alignUp4k (start + size))

section Loop

variable {pt : PageTable} {start size n vaddr cnt : Nat}

theorem loopInv_init :
    LoopInv start size ((alignUp4k (start + size) - alignDown4k start) / PAGE_SIZE_4K)
      (alignDown4k start) 0 := by
  refine ⟨?_, Or.inl ⟨rfl, rfl⟩⟩
  unfold alignUp4k alignDown4k PAGE_SIZE_4K
  omega

/-- With no page left, every byte is copied. -/
theorem LoopInv.eq_size (hinv : LoopInv start size 0 vaddr cnt) (hsize : 0 < size) :
    cnt = size := by
  simp only [LoopInv, alignUp4k, alignDown4k, PAGE_SIZE_4K] at hinv
  omega

/-- With a page left, byte `cnt` is still to copy, and lies on the page at `vaddr`. -/
theorem LoopInv.page_of_succ (hinv : LoopInv start size (n + 1) vaddr cnt) (hsize : 0 < size) :
    cnt < size ∧ vaddr / PAGE_SIZE_4K = (start + cnt) / PAGE_SIZE_4K := by
  obtain ⟨hend, ⟨rfl, rfl⟩ | ⟨-, hlt, rfl, -⟩ | ⟨rfl, rfl⟩⟩ := hinv
  · simp only [alignUp4k, alignDown4k, PAGE_SIZE_4K] at hend ⊢
    omega
  · exact ⟨hlt, rfl⟩
  · unfold PAGE_SIZE_4K at hend
    omega

/-- A turn of the loop copies from byte `cnt`, at the translation of `start + cnt`, some
    bytes inside its page, and leaves the invariant at the next page. -/
theorem firstPageClamp_spec (pt : PageTable) (hinv : LoopInv start size (n + 1) vaddr cnt)
    (hsize : 0 < size) :
    let r := firstPageClamp start vaddr (pt.translate vaddr) (min (size - cnt) PAGE_SIZE_4K)
    r.1 = pt.translate (start + cnt) ∧ 0 < r.2 ∧ cnt + r.2 ≤ size ∧
      (start + cnt) % PAGE_SIZE_4K + r.2 ≤ PAGE_SIZE_4K ∧
      LoopInv start size n (vaddr + PAGE_SIZE_4K) (cnt + r.2) := by
  obtain ⟨hlt, -⟩ := hinv.page_of_succ hsize
  obtain ⟨hend, ⟨rfl, rfl⟩ | ⟨hpos, -, rfl, hal⟩ | ⟨rfl, -⟩⟩ := hinv
  · -- the first page: cut at the offset of `start` unless it is aligned
    by_cases ho : alignOffset4k start = 0
    · have hs : alignDown4k start = start := by
        simp only [alignDown4k, alignOffset4k, PAGE_SIZE_4K] at ho ⊢; omega
      rw [firstPageClamp, if_neg fun h => h.2 ho, hs]
      refine ⟨rfl, ?_⟩
      rw [hs] at hend
      simp only [LoopInv, alignUp4k, alignDown4k, alignOffset4k, PAGE_SIZE_4K] at hend ho ⊢
      omega
    · have htr : pt.translate (alignDown4k start) + alignOffset4k start = pt.translate start := by
        rw [← pt.translate_add (by unfold alignDown4k alignOffset4k PAGE_SIZE_4K; omega)]
        congr 1
        unfold alignDown4k alignOffset4k PAGE_SIZE_4K
        omega
      rw [firstPageClamp, if_pos ⟨rfl, ho⟩]
      refine ⟨htr, ?_⟩
      simp only [LoopInv, alignUp4k, alignDown4k, alignOffset4k, PAGE_SIZE_4K] at hend ho ⊢
      omega
  · -- a page in the middle, entered on its boundary
    have hne : ¬(start + cnt = alignDown4k start ∧ alignOffset4k start ≠ 0) := by
      simp only [alignDown4k, PAGE_SIZE_4K]; omega
    rw [firstPageClamp, if_neg hne]
    refine ⟨rfl, ?_⟩
    simp only [LoopInv, alignUp4k, alignDown4k, PAGE_SIZE_4K] at hend hal ⊢
    omega
  · omega

theorem areaLoop_succ (h : (pt (vaddr / PAGE_SIZE_4K)).isUnused = false) (hlt : cnt < size) :
    areaLoop pt start size (n + 1) vaddr cnt =
      let c := firstPageClamp start vaddr (pt.translate vaddr) (min (size - cnt) PAGE_SIZE_4K)
      let r := areaLoop pt start size n (vaddr + PAGE_SIZE_4K) (cnt + c.2)
      (⟨c.1, cnt, c.2⟩ :: r.1, r.2) := by
  have hcopy : min (size - cnt) PAGE_SIZE_4K ≠ 0 := by unfold PAGE_SIZE_4K; omega
  rw [areaLoop, pt.query_of_used h]
  exact if_neg hcopy

/-- Over a range whose pages are all mapped, the loop runs to the end from every state of
    the invariant, and its chunks cover the rest of the range. -/
theorem areaLoop_chunked (hsize : 0 < size)
    (hmap : ∀ v, start ≤ v → v < start + size → (pt (v / PAGE_SIZE_4K)).isUnused = false) :
    ∀ n vaddr cnt, LoopInv start size n vaddr cnt →
      (areaLoop pt start size n vaddr cnt).2 = .ok () ∧
        Chunked pt start size cnt (areaLoop pt start size n vaddr cnt).1
  | 0, vaddr, cnt, hinv => by
    simp only [areaLoop, Chunked, hinv.eq_size hsize, and_self]
  | n + 1, vaddr, cnt, hinv => by
    obtain ⟨hlt, hpage⟩ := hinv.page_of_succ hsize
    have hq : (pt (vaddr / PAGE_SIZE_4K)).isUnused = false := by
      rw [hpage]; exact hmap (start + cnt) (by omega) (by omega)
    obtain ⟨hp, hpos, hle, hfit, hinv'⟩ := firstPageClamp_spec pt hinv hsize
    obtain ⟨ih₁, ih₂⟩ := areaLoop_chunked hsize hmap n _ _ hinv'
    rw [areaLoop_succ hq hlt]
    exact ⟨ih₁, hp, rfl, hpos, hle, hfit, ih₂⟩

end Loop

namespace AddrSpace

theorem processAreaData_chunked (a : AddrSpace) {start size : Nat}
    (hrange : a.containsRange start size = true) (hsize : 0 < size)
    (hmap : ∀ v, start ≤ v → v < start + size → (a.pt (v / PAGE_SIZE_4K)).isUnused = false) :
    (a.processAreaData start size).2 = .ok () ∧
      Chunked a.pt start size 0 (a.processAreaData start size).1 := by
  simp only [processAreaData, hrange, Bool.not_true, Bool.false_eq_true, if_false]
  exact areaLoop_chunked hsize hmap _ _ _ loopInv_init

end AddrSpace

/-! ## §6 The copies -/

section Copies

variable {pt : PageTable} {start size : Nat} (mem buf : Nat → UInt8)

@[simp] theorem readChunks_nil (b : Nat → UInt8) : readChunks mem b [] = b := rfl

@[simp] theorem readChunks_cons (b : Nat → UInt8) (c : Chunk) (cs : List Chunk) :
    readChunks mem b (c :: cs) =
      readChunks mem (writeRange b c.offset (readRange mem c.paddr c.size)) cs := rfl

@[simp] theorem writeChunks_nil (m : Nat → UInt8) : writeChunks m buf [] = m := rfl

@[simp] theorem writeChunks_cons (m : Nat → UInt8) (c : Chunk) (cs : List Chunk) :
    writeChunks m buf (c :: cs) =
      writeChunks (writeRange m c.paddr (readRange buf c.offset c.size)) buf cs := rfl

/-- A byte of a chunk that lies inside one page is at the chunk's address plus its place in
    the chunk. -/
theorem translate_of_mem_chunk {c : Chunk} {cnt i : Nat}
    (hp : c.paddr = pt.translate (start + cnt))
    (hfit : (start + cnt) % PAGE_SIZE_4K + c.size ≤ PAGE_SIZE_4K)
    (hi : cnt ≤ i) (hi' : i < cnt + c.size) :
    pt.translate (start + i) = c.paddr + (i - cnt) := by
  rw [hp, ← pt.translate_add (by omega)]
  congr 1
  omega

/-- After the copies of `read`, the buffer holds from byte `cnt` to `size` the memory at
    the translations, and elsewhere what it held. -/
theorem readChunks_spec :
    ∀ {cnt : Nat} {cs : List Chunk} (b : Nat → UInt8), Chunked pt start size cnt cs → ∀ i,
      readChunks mem b cs i =
        if cnt ≤ i ∧ i < size then mem (pt.translate (start + i)) else b i
  | cnt, [], b, h, i => by
    simp only [Chunked] at h
    subst h
    simp only [readChunks_nil]
    rw [if_neg (by omega)]
  | cnt, c :: cs, b, ⟨hp, ho, hpos, hle, hfit, hrest⟩, i => by
    rw [readChunks_cons, readChunks_spec _ hrest i]
    rcases Nat.lt_or_ge i cnt with hi | hi
    · -- before the chunk
      rw [if_neg (by omega), if_neg (by omega), writeRange_of_lt (by omega)]
    rcases Nat.lt_or_ge i (cnt + c.size) with hi' | hi'
    · -- the byte this chunk copies
      rw [if_neg (by omega), if_pos ⟨hi, by omega⟩, ho,
        writeRange_of_mem hi (by simp; omega), getElem_readRange,
        translate_of_mem_chunk hp hfit hi hi']
    · -- after the chunk
      by_cases hs : i < size
      · rw [if_pos ⟨hi', hs⟩, if_pos ⟨hi, hs⟩]
      · rw [if_neg (by omega), if_neg (by omega), ho, writeRange_of_ge (by simp; omega)]

/-- The copies of `write` change no byte of memory that is not the translation of a byte
    of `[cnt, size)`. -/
theorem writeChunks_frame :
    ∀ {cnt : Nat} {cs : List Chunk} (m : Nat → UInt8), Chunked pt start size cnt cs → ∀ q,
      (∀ i, cnt ≤ i → i < size → q ≠ pt.translate (start + i)) → writeChunks m buf cs q = m q
  | _, [], _, _, _, _ => rfl
  | cnt, c :: cs, m, ⟨hp, ho, hpos, hle, hfit, hrest⟩, q, hq => by
    rw [writeChunks_cons,
      writeChunks_frame _ hrest q fun i hi hs => hq i (by omega) hs]
    -- `q` is outside the chunk: inside, it would be the translation of one of its bytes
    by_cases hlo : c.paddr ≤ q
    · apply writeRange_of_ge
      rw [length_readRange]
      by_contra hin
      apply hq (cnt + (q - c.paddr)) (by omega) (by omega)
      rw [translate_of_mem_chunk hp hfit (by omega) (by omega)]
      omega
    · exact writeRange_of_lt (by omega)

/-- After the copies of `write`, the translation of each byte of `[cnt, size)` holds the
    buffer's byte, when no two of these bytes share a translation. -/
theorem writeChunks_spec :
    ∀ {cnt : Nat} {cs : List Chunk} (m : Nat → UInt8), Chunked pt start size cnt cs →
      (∀ i j, cnt ≤ i → i < size → cnt ≤ j → j < size →
        pt.translate (start + i) = pt.translate (start + j) → i = j) →
      ∀ i, cnt ≤ i → i < size → writeChunks m buf cs (pt.translate (start + i)) = buf i
  | _, [], _, h, _, i, hi, hs => by
    simp only [Chunked] at h
    omega
  | cnt, c :: cs, m, ⟨hp, ho, hpos, hle, hfit, hrest⟩, hinj, i, hi, hs => by
    rw [writeChunks_cons]
    rcases Nat.lt_or_ge i (cnt + c.size) with hi' | hi'
    · -- the chunk writes the byte, and no later chunk writes its translation
      have htr := translate_of_mem_chunk hp hfit hi hi'
      rw [writeChunks_frame buf _ hrest _ fun j hj hjs h => by
          have := hinj i j hi hs (by omega) hjs h
          omega,
        htr, writeRange_of_mem (by omega) (by simp; omega), getElem_readRange, ho]
      congr 1
      omega
    · exact writeChunks_spec _ hrest (fun i j hi hs hj hjs => hinj i j (by omega) hs (by omega) hjs)
        i hi' hs

end Copies

/-! ## §7 `read` and `write` over a mapped range -/

/-- **`read` and `write` copy exactly.** Over a range of the address space whose pages are
    all mapped, `process_area_data` succeeds and cuts the range into chunks, each within a
    page and at the translation of its first address; `read` then fills each byte of the
    buffer from the translation of its address, and `write` touches only those translations
    and, when no two pages of the range share a frame, stores each byte of the buffer at the
    translation of its address. -/
theorem process_area_data_copies_exact (a : AddrSpace) (mem buf : Nat → UInt8) (start len : Nat)
    (hrange : a.containsRange start len = true) (hlen : 1 ≤ len)
    (hmapped : ∀ v, start ≤ v → v < start + len → (a.pt (v / PAGE_SIZE_4K)).isUnused = false) :
    (a.processAreaData start len).2 = .ok () ∧
      Chunked a.pt start len 0 (a.processAreaData start len).1 ∧
      (a.read mem buf start len).1 = .ok () ∧
      (∀ i < len, (a.read mem buf start len).2 i = mem (a.pt.translate (start + i))) ∧
      (a.write mem buf start len).1 = .ok () ∧
      (∀ q, (∀ i < len, q ≠ a.pt.translate (start + i)) → (a.write mem buf start len).2 q = mem q) ∧
      ((∀ i < len, ∀ j < len, a.pt.translate (start + i) = a.pt.translate (start + j) → i = j) →
        ∀ i < len, (a.write mem buf start len).2 (a.pt.translate (start + i)) = buf i) := by
  obtain ⟨hok, hch⟩ := a.processAreaData_chunked hrange hlen hmapped
  refine ⟨hok, hch, hok, fun i hi => ?_, hok, fun q hq => ?_, fun hinj i hi => ?_⟩
  · show readChunks mem buf _ i = _
    rw [readChunks_spec mem buf hch i, if_pos ⟨Nat.zero_le i, hi⟩]
  · exact writeChunks_frame buf mem hch q fun i _ hi => hq i hi
  · exact writeChunks_spec buf mem hch (fun i j _ hi _ hj => hinj i hi j hj) i (Nat.zero_le i) hi


/-- Two pages mapped linearly from `0x1000` onto the frames from `0x5000`. -/
def twoPageSpace : AddrSpace :=
  ((AddrSpace.newEmpty 0 0x10000).mapLinear 0x1000 0x5000 0x2000 MappingFlags.READ).2

theorem twoPageSpace_read_across :
    (twoPageSpace.read (fun _ => 7) (fun _ => 0) 0x1800 0x1000).1 = .ok () ∧
      ∀ i < 0x1000, (twoPageSpace.read (fun _ => 7) (fun _ => 0) 0x1800 0x1000).2 i = 7 := by
  have hmapped : ∀ v, 0x1800 ≤ v → v < 0x1800 + 0x1000 →
      (twoPageSpace.pt (v / PAGE_SIZE_4K)).isUnused = false := by
    intro v h₁ h₂
    have hpage : v / PAGE_SIZE_4K = 1 ∨ v / PAGE_SIZE_4K = 2 := by
      unfold PAGE_SIZE_4K; omega
    rcases hpage with h | h <;> rw [h] <;> decide
  obtain ⟨-, -, hok, hread, -⟩ := process_area_data_copies_exact twoPageSpace (fun _ => 7)
    (fun _ => 0) 0x1800 0x1000 (by decide) (by decide) hmapped
  exact ⟨hok, hread⟩

/-- Two pages mapped by `map_linear` onto one frame. -/
def aliasedSpace : AddrSpace :=
  (((AddrSpace.newEmpty 0 0x10000).mapLinear 0x1000 0x5000 0x1000 MappingFlags.READ).2.mapLinear
    0x2000 0x5000 0x1000 MappingFlags.READ).2

theorem write_aliased_pages_keeps_later_byte :
    aliasedSpace.pt.translate 0x1000 = aliasedSpace.pt.translate 0x2000 ∧
      (aliasedSpace.write (fun _ => 0) (fun i => if i < 0x1000 then 1 else 2) 0x1000 0x1001).2
        (aliasedSpace.pt.translate 0x1000) = 2 := by
  decide

/-! ## §8 The slices of `translated_byte_buffer` -/

section Slices

variable {pt : PageTable}

theorem PageTable.query_eq_ok {v p : Nat} (h : pt.query v = .ok p) :
    p = pt.translate v ∧ (pt (v / PAGE_SIZE_4K)).isUnused = false := by
  unfold PageTable.query at h
  split at h
  · cases h
  · cases h
    exact ⟨rfl, Bool.eq_false_iff.mpr ‹_›⟩

theorem PageTable.query_eq_error {v : Nat} {e : PagingError} (h : pt.query v = .error e) :
    (pt (v / PAGE_SIZE_4K)).isUnused = true := by
  unfold PageTable.query at h
  split at h
  · assumption
  · cases h

/-- A turn of the loop takes at least one byte, and no more than the rest of its page. -/
theorem sliceLoop_turn {start end_ : Nat} (h : start < end_) :
    start < min (alignDown4k start + PAGE_SIZE_4K) end_ ∧
      start % PAGE_SIZE_4K + (min (alignDown4k start + PAGE_SIZE_4K) end_ - start) ≤
        PAGE_SIZE_4K := by
  simp only [alignDown4k, PAGE_SIZE_4K]
  omega

section Turn

variable {fuel start end_ : Nat}

theorem sliceLoop_of_ge (h : ¬start < end_) : sliceLoop pt (fuel + 1) start end_ = .ok [] := by
  rw [sliceLoop, if_neg h]

theorem sliceLoop_of_query_error (h : start < end_) {e : PagingError}
    (hq : pt.query start = .error e) :
    sliceLoop pt (fuel + 1) start end_ = .error queryUnwrapFault := by
  rw [sliceLoop, if_pos h, hq]

theorem sliceLoop_of_query_ok (h : start < end_) {p : Nat} (hq : pt.query start = .ok p) :
    sliceLoop pt (fuel + 1) start end_ =
      (sliceLoop pt fuel (min (alignDown4k start + PAGE_SIZE_4K) end_) end_).map
        ((p, min (alignDown4k start + PAGE_SIZE_4K) end_ - start) :: ·) := by
  rw [sliceLoop, if_pos h, hq]

end Turn

/-- A turn more than `end_ - start` changes nothing: the loop has ended by then. -/
theorem sliceLoop_succ_fuel : ∀ {fuel start end_ : Nat}, end_ - start ≤ fuel →
    sliceLoop pt (fuel + 1) start end_ = sliceLoop pt fuel start end_
  | 0, start, end_, h => sliceLoop_of_ge (by omega)
  | fuel + 1, start, end_, h => by
    by_cases hlt : start < end_
    · have hstep := (sliceLoop_turn hlt).1
      cases hq : pt.query start with
      | error _ => rw [sliceLoop_of_query_error hlt hq, sliceLoop_of_query_error hlt hq]
      | ok p =>
        rw [sliceLoop_of_query_ok hlt hq, sliceLoop_of_query_ok hlt hq,
          sliceLoop_succ_fuel (by omega)]
    · rw [sliceLoop_of_ge hlt, sliceLoop_of_ge hlt]

/-- The loop fails only on an address of the range whose page is not mapped, and then with
    the panic of `unwrap`. -/
theorem sliceLoop_error : ∀ {fuel start end_ : Nat} {e : Fault},
    sliceLoop pt fuel start end_ = .error e →
      e = queryUnwrapFault ∧
        ∃ v, start ≤ v ∧ v < end_ ∧ (pt (v / PAGE_SIZE_4K)).isUnused = true
  | 0, _, _, _, h => by cases h
  | fuel + 1, start, end_, e, h => by
    by_cases hlt : start < end_
    · have hstep := (sliceLoop_turn hlt).1
      cases hq : pt.query start with
      | error _ =>
        rw [sliceLoop_of_query_error hlt hq] at h
        cases h
        exact ⟨rfl, start, le_rfl, hlt, PageTable.query_eq_error hq⟩
      | ok p =>
        -- the error comes from the rest of the range
        rw [sliceLoop_of_query_ok hlt hq] at h
        cases hrest : sliceLoop pt fuel (min (alignDown4k start + PAGE_SIZE_4K) end_) end_ with
        | error e' =>
          rw [hrest] at h
          cases h
          obtain ⟨he, v, hv₁, hv₂, hv⟩ := sliceLoop_error hrest
          exact ⟨he, v, by omega, hv₂, hv⟩
        | ok w =>
          rw [hrest] at h
          cases h
    · rw [sliceLoop_of_ge hlt] at h
      cases h

/-- Read one after the other, the slices of a finished loop hold the memory at the
    translations of `[start, end_)`. -/
theorem sliceLoop_bytes (mem : Nat → UInt8) : ∀ {fuel start end_ : Nat} {v : List (Nat × Nat)},
    end_ - start ≤ fuel → sliceLoop pt fuel start end_ = .ok v →
      v.flatMap (fun s => readRange mem s.1 s.2) =
        readRange (fun x => mem (pt.translate x)) start (end_ - start)
  | 0, start, end_, v, h, hv => by
    cases hv
    rw [show end_ - start = 0 by omega]
    rfl
  | fuel + 1, start, end_, v, h, hv => by
    by_cases hlt : start < end_
    · obtain ⟨hstep, hfit⟩ := sliceLoop_turn hlt
      cases hq : pt.query start with
      | error _ =>
        rw [sliceLoop_of_query_error hlt hq] at hv
        cases hv
      | ok p =>
        rw [sliceLoop_of_query_ok hlt hq] at hv
        cases hrest : sliceLoop pt fuel (min (alignDown4k start + PAGE_SIZE_4K) end_) end_ with
        | error _ =>
          rw [hrest] at hv
          cases hv
        | ok w =>
          rw [hrest] at hv
          cases hv
          -- the first slice is the rest of the page of `start`, the others the range after it
          rw [List.flatMap_cons, sliceLoop_bytes mem (by omega) hrest,
            (PageTable.query_eq_ok hq).1, pt.readRange_translate mem hfit,
            show end_ - start = (min (alignDown4k start + PAGE_SIZE_4K) end_ - start) +
              (end_ - min (alignDown4k start + PAGE_SIZE_4K) end_) by omega,
            readRange_add, Nat.add_sub_cancel' hstep.le]
    · rw [sliceLoop_of_ge hlt] at hv
      cases hv
      rw [show end_ - start = 0 by omega]
      rfl

end Slices

namespace AddrSpace

/-- Whatever `translated_byte_buffer` returns other than `None` comes from the loop, with
    `len` turns. -/
theorem translatedByteBuffer_of_ne_none (a : AddrSpace) {vaddr len : Nat}
    (h : a.translatedByteBuffer vaddr len ≠ .ok none) :
    a.translatedByteBuffer vaddr len = (sliceLoop a.pt len vaddr (vaddr + len)).map some := by
  unfold translatedByteBuffer at h ⊢
  split_ifs at h ⊢
  · exact absurd rfl h
  · cases hf : find a.areas vaddr with
    | none =>
      simp only [hf] at h
      exact absurd rfl h
    | some area =>
      simp only [hf] at h ⊢
      split_ifs at h ⊢
      · exact absurd rfl h
      · rfl

/-- When `translated_byte_buffer` returns slices, read one after the other they hold the
    memory at the translations of `[vaddr, vaddr + len)`. -/
theorem translatedByteBuffer_bytes (a : AddrSpace) (mem : Nat → UInt8) {vaddr len : Nat}
    {v : List (Nat × Nat)} (h : a.translatedByteBuffer vaddr len = .ok (some v)) :
    v.flatMap (fun s => readRange mem s.1 s.2) =
      readRange (fun x => mem (a.pt.translate x)) vaddr len := by
  rw [a.translatedByteBuffer_of_ne_none (by rw [h]; simp)] at h
  cases hs : sliceLoop a.pt len vaddr (vaddr + len) with
  | error _ =>
    rw [hs] at h
    cases h
  | ok w =>
    rw [hs] at h
    cases h
    simpa using sliceLoop_bytes mem (by omega) hs

/-- `translated_byte_buffer` fails only by the panic of `unwrap`, on an address of
    `[vaddr, vaddr + len)` whose page is not mapped. -/
theorem translatedByteBuffer_error (a : AddrSpace) {vaddr len : Nat} {e : Fault}
    (h : a.translatedByteBuffer vaddr len = .error e) :
    e = queryUnwrapFault ∧
      ∃ v, vaddr ≤ v ∧ v < vaddr + len ∧ (a.pt (v / PAGE_SIZE_4K)).isUnused = true := by
  rw [a.translatedByteBuffer_of_ne_none (by rw [h]; simp)] at h
  cases hs : sliceLoop a.pt len vaddr (vaddr + len) with
  | error _ =>
    rw [hs] at h
    cases h
    exact sliceLoop_error hs
  | ok w =>
    rw [hs] at h
    cases h

end AddrSpace

/-- `translated_byte_buffer` unwraps the page-table query, so a lazy area's unpopulated page
    makes it panic; and it checks the length against the size of the area rather than what
    is left of it after `vaddr`, so a range that runs from one area into the next is handed
    out as two slices. -/
theorem translated_byte_buffer_panics_and_overruns :
    ((AddrSpace.newEmpty 0 0x10000).mapAlloc 0x1000 0x1000 MappingFlags.READ false
        fun _ => none).2.translatedByteBuffer 0x1000 1 = .error queryUnwrapFault ∧
      ((((AddrSpace.newEmpty 0 0x10000).mapAlloc 0x1000 0x2000 MappingFlags.READ true
          fun v => some (v * 0x1000 + 0x100000)).2.mapAlloc 0x3000 0x1000 MappingFlags.READ true
          fun v => some (v * 0x1000 + 0x100000)).2.translatedByteBuffer 0x2000 0x2000 =
        .ok (some [(0x102000, 0x1000), (0x103000, 0x1000)])) := by
  decide

end ArceOS.Mm
