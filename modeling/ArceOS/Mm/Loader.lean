import ArceOS.Mm.AreaData
import ArceOS.Fs.Fops

/-!
# Loading a User Application

`load_user_app` of the `sys_map` exercise (`exercises/sys_map/src/loader.rs`, also
`tour/m_3_1`). The `elf` crate parses the ELF header and the program header table, a
third party here: the loader is given the headers it read and `e_entry`, and
`load_elf_phdrs` keeps the `PT_LOAD` and the `PT_INTERP` ones. For each kept header the
loader maps its range, widened to whole pages, with `map_alloc(..., populate = true)`;
seeks the opened file (`axfs`'s `File`, over any node operations) to `p_offset`; reads
`p_filesz` bytes into a zeroed buffer of `p_memsz` bytes with `while index < filesz { index
+= file.read(&mut data[index..filesz])? }`; and writes the buffer at `p_vaddr`.

The read loop is the source's `while`, run here with a budget of passes: `none` when the
budget runs out. A `read` at the end of a file returns `0`, so on a file shorter than
`p_offset + p_filesz` the loop never ends. And two segments that share a page each map
that page, so the second `map_alloc` fails with `AlreadyExists`.

## Main results

- `readLoop_succ_fuel`, `loadUserApp_succ_fuel`: a result reached within a budget is the
  result of every larger budget;
- `readLoop_eq_none_of_short`: on any file system whose reads stop at the end of the
  file, the loop runs out of every budget when the file is too short;
- `loadSegment_of_overlap`: a segment whose pages meet a mapped area fails with
  `AlreadyExists`;
- `loader_shared_page_or_eof`: two segments in one page fail with `AlreadyExists`, and a
  segment past the end of the file never finishes.
-/

namespace ArceOS.Mm

open ArceOS.Lib.ByteStore ArceOS.Fs ArceOS.Fs.Dev ArceOS.Fs.Fops

/-! ## §1 Program headers -/

/-- `PT_LOAD`. -/
def PT_LOAD : Nat := 1

/-- `PT_INTERP`. -/
def PT_INTERP : Nat := 3

/-- `elf::segment::ProgramHeader`, the fields the loader reads. -/
structure ProgramHeader where
  pType : Nat
  pOffset : Nat
  pVaddr : Nat
  pFilesz : Nat
  pMemsz : Nat
  deriving DecidableEq, Repr

/-- The headers `load_elf_phdrs` returns from the table the `elf` crate read: the
    `PT_LOAD` and `PT_INTERP` ones, in order. -/
def loadElfPhdrs (table : List ProgramHeader) : List ProgramHeader :=
  table.filter fun phdr => phdr.pType == PT_LOAD || phdr.pType == PT_INTERP

/-- The flags of every segment: `READ | WRITE | EXECUTE | USER`. -/
def segmentFlags : MappingFlags :=
  MappingFlags.READ ||| MappingFlags.WRITE ||| MappingFlags.EXECUTE ||| MappingFlags.USER

/-! ## §2 The loader -/

/-- How `load_user_app` ends when it does not return `e_entry`: the `io::Error` of a file
    call or of an address-space call, or one of its two panics. -/
inductive LoadError where
  | fs (e : VfsError)
  | aspace (e : AxError)
  /-- `&mut data[index..filesz]` with `p_filesz` past `p_memsz`. -/
  | sliceOutOfRange
  /-- `assert_eq!(index, filesz)`. -/
  | assertFailed
  deriving DecidableEq, Repr

/-- The variables of the read loop: the file, the buffer `data`, and `index`. -/
structure ReadVars (ν : Type) where
  file : Fops.File ν
  data : Nat → UInt8
  index : Nat

/-- What the loader changes: the opened file, the user address space and physical
    memory. -/
structure LoadState (ν : Type) where
  file : Fops.File ν
  uspace : AddrSpace
  mem : Nat → UInt8

section Loader

variable {ν : Type} (ops : NodeOps ν) (frames : Nat → Option Nat)

/-- `while index < filesz { let n = file.read(&mut data[index..filesz])?; index += n; }`,
    with a budget of `fuel` passes: `none` when it runs out. -/
def readLoop (filesz memsz : Nat) : Nat → ReadVars ν → Option (Except LoadError Unit × ReadVars ν)
  | 0, _ => none
  | fuel + 1, v =>
    if v.index < filesz then
      if memsz < filesz then some (.error .sliceOutOfRange, v)
      else
        match v.file.read ops (filesz - v.index) with
        | (.error e, f) => some (.error (.fs e), { v with file := f })
        | (.ok bytes, f) =>
          readLoop filesz memsz fuel ⟨f, writeRange v.data v.index bytes, v.index + bytes.length⟩
    else some (.ok (), v)

/-- The rest of a pass once the pages of the segment are mapped in `a`: seek to
    `p_offset`, read `p_filesz` bytes into a zeroed buffer of `p_memsz`, and write the
    buffer at `p_vaddr`. -/
def fillSegment (fuel : Nat) (s : LoadState ν) (a : AddrSpace) (phdr : ProgramHeader) :
    Option (Except LoadError Unit × LoadState ν) :=
  match s.file.seek ops (.start (UInt64.ofNat phdr.pOffset)) with
  | (.error e, f) => some (.error (.fs e), { s with file := f, uspace := a })
  | (.ok _, f) =>
    -- `vec![0u8; phdr.p_memsz as usize]`
    match readLoop ops phdr.pFilesz phdr.pMemsz fuel ⟨f, fun _ => 0, 0⟩ with
    | none => none
    | some (.error e, v) => some (.error e, { s with file := v.file, uspace := a })
    | some (.ok (), v) =>
      if v.index ≠ phdr.pFilesz then
        some (.error .assertFailed, { s with file := v.file, uspace := a })
      else
        let w := a.write s.mem v.data phdr.pVaddr phdr.pMemsz
        some (w.1.mapError .aspace, ⟨v.file, a, w.2⟩)

/-- One pass of `for phdr in &phdrs`: map the pages of the segment, then fill them. -/
def loadSegment (fuel : Nat) (s : LoadState ν) (phdr : ProgramHeader) :
    Option (Except LoadError Unit × LoadState ν) :=
  let vaddr := alignDown4k phdr.pVaddr
  let vaddrEnd := alignUp4k (phdr.pVaddr + phdr.pMemsz)
  match s.uspace.mapAlloc vaddr (vaddrEnd - vaddr) segmentFlags true frames with
  | (.error e, a) => some (.error (.aspace e), { s with uspace := a })
  | (.ok (), a) => fillSegment ops fuel s a phdr

/-- The `for` loop of `load_user_app` over the headers, stopping at the first error. -/
def loadSegments (fuel : Nat) : List ProgramHeader → LoadState ν →
    Option (Except LoadError Unit × LoadState ν)
  | [], s => some (.ok (), s)
  | phdr :: phdrs, s =>
    match loadSegment ops frames fuel s phdr with
    | some (.ok (), s') => loadSegments fuel phdrs s'
    | r => r

/-- `load_user_app` from the opened file on, the `elf` crate having read the program
    header table `table` and the entry point `entry`: `Ok(entry)`, or the error. -/
def loadUserApp (fuel : Nat) (table : List ProgramHeader) (entry : Nat) (s : LoadState ν) :
    Option (Except LoadError Nat × LoadState ν) :=
  (loadSegments ops frames fuel (loadElfPhdrs table) s).map fun r => (r.1.map fun _ => entry, r.2)

end Loader

/-- The start of the pages `load_user_app` maps for a header:
    `align_down_4k(p_vaddr)`. -/
def ProgramHeader.mapStart (phdr : ProgramHeader) : Nat := alignDown4k phdr.pVaddr

/-- The size of the pages `load_user_app` maps for a header:
    `align_up_4k(p_vaddr + p_memsz) - align_down_4k(p_vaddr)`. -/
def ProgramHeader.mapSize (phdr : ProgramHeader) : Nat :=
  alignUp4k (phdr.pVaddr + phdr.pMemsz) - alignDown4k phdr.pVaddr

/-- A node whose `read_at` succeeds, fills no more than the buffer, and returns no byte from
    `size` on: a regular file of `size` bytes, on any file system. -/
def ReadsWithin {ν : Type} (ops : NodeOps ν) (node : ν) (size : Nat) : Prop :=
  ∀ off len, ∃ bytes, ops.readAt node off len = .ok bytes ∧ bytes.length ≤ len ∧
    off + bytes.length ≤ max off size

/-! ## §3 Budgets -/

section Fuel

variable {ν : Type} {ops : NodeOps ν} {frames : Nat → Option Nat}

/-- A result the read loop reaches is the result of every larger budget. -/
theorem readLoop_succ_fuel {filesz memsz : Nat} :
    ∀ {fuel : Nat} {v : ReadVars ν} {r : Except LoadError Unit × ReadVars ν},
      readLoop ops filesz memsz fuel v = some r → readLoop ops filesz memsz (fuel + 1) v = some r
  | 0, _, _, h => by cases h
  | fuel + 1, v, r, h => by
    rw [readLoop] at h ⊢
    split_ifs at h ⊢ with hlt hmem
    · exact h
    · rcases hr : v.file.read ops (filesz - v.index) with ⟨_ | bytes, f⟩ <;> rw [hr] at h
      · exact h
      · exact readLoop_succ_fuel h
    · exact h

theorem fillSegment_succ_fuel {fuel : Nat} {s : LoadState ν} {a : AddrSpace}
    {phdr : ProgramHeader} {r : Except LoadError Unit × LoadState ν}
    (h : fillSegment ops fuel s a phdr = some r) : fillSegment ops (fuel + 1) s a phdr = some r := by
  unfold fillSegment at h ⊢
  split at h
  · exact h
  · -- only the read loop spends the budget
    rename_i f _
    rcases hloop : readLoop ops phdr.pFilesz phdr.pMemsz fuel ⟨f, fun _ => 0, 0⟩ with _ | x <;>
      rw [hloop] at h
    · cases h
    · rw [readLoop_succ_fuel hloop]
      exact h

theorem loadSegment_succ_fuel {fuel : Nat} {s : LoadState ν} {phdr : ProgramHeader}
    {r : Except LoadError Unit × LoadState ν} (h : loadSegment ops frames fuel s phdr = some r) :
    loadSegment ops frames (fuel + 1) s phdr = some r := by
  unfold loadSegment at h ⊢
  dsimp only at h ⊢
  split at h
  · exact h
  · exact fillSegment_succ_fuel h

theorem loadSegments_succ_fuel {fuel : Nat} :
    ∀ {phdrs : List ProgramHeader} {s : LoadState ν} {r : Except LoadError Unit × LoadState ν},
      loadSegments ops frames fuel phdrs s = some r →
        loadSegments ops frames (fuel + 1) phdrs s = some r
  | [], _, _, h => h
  | phdr :: phdrs, s, r, h => by
    rw [loadSegments] at h ⊢
    rcases hseg : loadSegment ops frames fuel s phdr with _ | ⟨_ | u, s'⟩
    · rw [hseg] at h
      cases h
    · rw [hseg] at h
      rw [loadSegment_succ_fuel hseg]
      exact h
    · rw [hseg] at h
      rw [loadSegment_succ_fuel hseg]
      exact loadSegments_succ_fuel h

/-- A result `load_user_app` reaches is its result under every larger budget. -/
theorem loadUserApp_succ_fuel {fuel : Nat} {table : List ProgramHeader} {entry : Nat}
    {s : LoadState ν} {r : Except LoadError Nat × LoadState ν}
    (h : loadUserApp ops frames fuel table entry s = some r) :
    loadUserApp ops frames (fuel + 1) table entry s = some r := by
  unfold loadUserApp at h ⊢
  rcases hsegs : loadSegments ops frames fuel (loadElfPhdrs table) s with _ | x
  · rw [hsegs] at h
    cases h
  · rw [hsegs] at h
    rw [loadSegments_succ_fuel hsegs]
    exact h

end Fuel

/-! ## §4 A file too short -/

/-- A ramfs file reads within its content. -/
theorem ramNodeOps_readsWithin (content : List UInt8) :
    ReadsWithin ramNodeOps (.file content) content.length := by
  intro off len
  refine ⟨ramReadAt content off len, rfl, ?_, ?_⟩ <;>
    simp only [ramReadAt, List.length_drop, List.length_take] <;> omega

section Short

variable {ν : Type} {ops : NodeOps ν} {node : ν} {size filesz memsz : Nat}

/-- On a node that reads within `size` bytes, a read loop that still has to read past
    `size` never ends: each read stops at `size`, and from there reads nothing. The
    induction is on the budget, with the bytes still wanted reaching past `size`. -/
theorem readLoop_eq_none_of_short (hreads : ReadsWithin ops node size) (hsize : size < u64Modulus)
    (hmem : filesz ≤ memsz) :
    ∀ (fuel : Nat) (v : ReadVars ν), v.file.node.inner = node → v.file.node.cap.read = true →
      v.file.offset < u64Modulus → v.index < filesz → size < v.file.offset + (filesz - v.index) →
      readLoop ops filesz memsz fuel v = none
  | 0, _, _, _, _, _, _ => rfl
  | fuel + 1, v, hnode, hcap, hoff, hidx, hshort => by
    obtain ⟨bytes, hread, hlen, hend⟩ := hreads v.file.offset (filesz - v.index)
    -- the read stops at `size`, so the cursor does not wrap
    have hcur : (v.file.offset + bytes.length) % u64Modulus = v.file.offset + bytes.length := by
      apply Nat.mod_eq_of_lt
      omega
    have hstep : v.file.read ops (filesz - v.index) =
        (.ok bytes, { v.file with offset := v.file.offset + bytes.length }) := by
      rw [File.read_of_read hcap, hnode, hread]
      dsimp only
      rw [hcur]
    rw [readLoop, if_pos hidx, if_neg (by omega), hstep]
    exact readLoop_eq_none_of_short hreads hsize hmem fuel _ hnode hcap (by dsimp only; omega)
      (by dsimp only; omega) (by dsimp only; omega)

end Short

/-! ## §5 Segments -/

theorem isAligned4k_mapStart (phdr : ProgramHeader) : isAligned4k phdr.mapStart = true := by
  simp only [isAligned4k, ProgramHeader.mapStart, alignDown4k, PAGE_SIZE_4K, beq_iff_eq]
  omega

theorem isAligned4k_mapSize (phdr : ProgramHeader) : isAligned4k phdr.mapSize = true := by
  simp only [isAligned4k, ProgramHeader.mapSize, alignDown4k, alignUp4k, PAGE_SIZE_4K,
    beq_iff_eq]
  omega

theorem mapSize_pos {phdr : ProgramHeader} (h : 0 < phdr.pMemsz) : 0 < phdr.mapSize := by
  simp only [ProgramHeader.mapSize, alignDown4k, alignUp4k, PAGE_SIZE_4K]
  omega

section Segment

variable {ν : Type} {ops : NodeOps ν} {frames : Nat → Option Nat} {fuel : Nat}
  {s : LoadState ν} {phdr : ProgramHeader}

/-- A pass whose `map_alloc` fails returns its error. -/
theorem loadSegment_of_mapAlloc_error {e : AxError} {a : AddrSpace}
    (hm : s.uspace.mapAlloc phdr.mapStart phdr.mapSize segmentFlags true frames = (.error e, a)) :
    loadSegment ops frames fuel s phdr = some (.error (.aspace e), { s with uspace := a }) := by
  unfold loadSegment
  dsimp only
  rw [show alignUp4k (phdr.pVaddr + phdr.pMemsz) - alignDown4k phdr.pVaddr = phdr.mapSize from rfl,
    show alignDown4k phdr.pVaddr = phdr.mapStart from rfl, hm]

/-- A pass whose `map_alloc` succeeds goes on to fill the pages. -/
theorem loadSegment_of_mapAlloc_ok {a : AddrSpace}
    (hm : s.uspace.mapAlloc phdr.mapStart phdr.mapSize segmentFlags true frames = (.ok (), a)) :
    loadSegment ops frames fuel s phdr = fillSegment ops fuel s a phdr := by
  unfold loadSegment
  dsimp only
  rw [show alignUp4k (phdr.pVaddr + phdr.pMemsz) - alignDown4k phdr.pVaddr = phdr.mapSize from rfl,
    show alignDown4k phdr.pVaddr = phdr.mapStart from rfl, hm]

/-- A segment whose pages meet an area of the address space fails with `AlreadyExists`,
    and changes nothing. -/
theorem loadSegment_of_overlap {B : MemoryArea} (hB : B ∈ s.uspace.areas)
    (hmemsz : 0 < phdr.pMemsz) (hrange : s.uspace.containsRange phdr.mapStart phdr.mapSize = true)
    (hover : rangesOverlap B.start B.size phdr.mapStart phdr.mapSize = true) :
    loadSegment ops frames fuel s phdr = some (.error (.aspace .alreadyExists), s) := by
  have hany : s.uspace.areas.any (fun b => rangesOverlap b.start b.size phdr.mapStart phdr.mapSize) =
      true := List.any_eq_true.mpr ⟨B, hB, hover⟩
  have hmap : s.uspace.mapAlloc phdr.mapStart phdr.mapSize segmentFlags true frames =
      (.error .alreadyExists, s.uspace) := by
    rw [AddrSpace.mapAlloc, if_neg (by simp [hrange]),
      if_neg (by simp [isAligned4k_mapStart, isAligned4k_mapSize]),
      if_neg (Nat.pos_iff_ne_zero.mp (mapSize_pos hmemsz)), if_pos hany]
  rw [loadSegment_of_mapAlloc_error hmap]

/-- A seek from the start to a `u64` offset puts the cursor there. -/
theorem seek_start_of_lt {attr : FileAttr} {f : Fops.File ν} {off : Nat}
    (hattr : ops.getAttr f.node.inner = .ok attr) (hoff : off < u64Modulus) :
    f.seek ops (.start (UInt64.ofNat off)) = (.ok off, { f with offset := off }) := by
  have hstart : (SeekFrom.start (UInt64.ofNat off)).target attr.size f.offset = off := by
    rw [SeekFrom.target, UInt64.toNat_ofNat_of_lt' hoff]
  rw [File.seek_spec hattr, hstart, if_pos ⟨Int.natCast_nonneg _, by exact_mod_cast hoff⟩,
    Int.toNat_natCast]

/-- A pass whose read loop ends with every byte read writes the buffer at `p_vaddr`. -/
theorem fillSegment_of_readLoop {a : AddrSpace} {n : Nat} {f : Fops.File ν} {v : ReadVars ν}
    (hseek : s.file.seek ops (.start (UInt64.ofNat phdr.pOffset)) = (.ok n, f))
    (hloop : readLoop ops phdr.pFilesz phdr.pMemsz fuel ⟨f, fun _ => 0, 0⟩ = some (.ok (), v))
    (hidx : v.index = phdr.pFilesz) :
    fillSegment ops fuel s a phdr =
      some ((a.write s.mem v.data phdr.pVaddr phdr.pMemsz).1.mapError .aspace,
        ⟨v.file, a, (a.write s.mem v.data phdr.pVaddr phdr.pMemsz).2⟩) := by
  unfold fillSegment
  rw [hseek]
  dsimp only
  rw [hloop]
  dsimp only
  rw [if_neg (not_not.mpr hidx)]

/-- Once its pages are mapped, a segment whose bytes run past the end of a file of `size`
    bytes never finishes: the seek succeeds, and the read loop never ends. -/
theorem fillSegment_eq_none_of_short {size : Nat} {attr : FileAttr} (a : AddrSpace)
    (hattr : ops.getAttr s.file.node.inner = .ok attr) (hcap : s.file.node.cap.read = true)
    (hreads : ReadsWithin ops s.file.node.inner size) (hsize : size < u64Modulus)
    (hoff : phdr.pOffset < u64Modulus) (hfit : phdr.pFilesz ≤ phdr.pMemsz)
    (hpos : 0 < phdr.pFilesz) (hshort : size < phdr.pOffset + phdr.pFilesz) :
    fillSegment ops fuel s a phdr = none := by
  unfold fillSegment
  rw [seek_start_of_lt hattr hoff]
  dsimp only
  rw [readLoop_eq_none_of_short hreads hsize hfit fuel _ rfl hcap (by dsimp only; omega) hpos
    (by dsimp only; omega)]

/-- A segment whose pages map, on a file of `size` bytes that ends before the bytes of the
    segment do, never finishes. -/
theorem loadSegment_eq_none_of_short {size : Nat} {attr : FileAttr}
    (hmap : (s.uspace.mapAlloc phdr.mapStart phdr.mapSize segmentFlags true frames).1 = .ok ())
    (hattr : ops.getAttr s.file.node.inner = .ok attr) (hcap : s.file.node.cap.read = true)
    (hreads : ReadsWithin ops s.file.node.inner size) (hsize : size < u64Modulus)
    (hoff : phdr.pOffset < u64Modulus) (hfit : phdr.pFilesz ≤ phdr.pMemsz)
    (hpos : 0 < phdr.pFilesz) (hshort : size < phdr.pOffset + phdr.pFilesz) :
    loadSegment ops frames fuel s phdr = none := by
  rcases hm : s.uspace.mapAlloc phdr.mapStart phdr.mapSize segmentFlags true frames with
    ⟨_ | u, a⟩ <;> rw [hm] at hmap
  · cases hmap
  · rw [loadSegment_of_mapAlloc_ok hm]
    exact fillSegment_eq_none_of_short a hattr hcap hreads hsize hoff hfit hpos hshort

/-- After a `map_alloc` that succeeds, its area heads the list of areas. -/
theorem areas_of_mapAlloc_ok {a : AddrSpace} {start size : Nat} {flags : MappingFlags}
    {populate : Bool} (h : (a.mapAlloc start size flags populate frames).1 = .ok ()) :
    (a.mapAlloc start size flags populate frames).2.areas =
      ⟨start, size, flags, .alloc populate⟩ :: a.areas := by
  unfold AddrSpace.mapAlloc at h ⊢
  dsimp only at h ⊢
  -- every branch but the one that adds the area returns an error
  split_ifs at h ⊢
  rfl

/-- Filling the pages leaves the address space as the mapping left it. -/
theorem uspace_of_fillSegment {a : AddrSpace} {r : Except LoadError Unit} {s' : LoadState ν}
    (h : fillSegment ops fuel s a phdr = some (r, s')) : s'.uspace = a := by
  unfold fillSegment at h
  split at h
  · cases h
    rfl
  · split at h
    · cases h
    · cases h
      rfl
    · split_ifs at h
      · cases h
        rfl
      · cases h
        rfl

/-- A pass that succeeds adds the area of its pages. -/
theorem areas_of_loadSegment {s' : LoadState ν}
    (h : loadSegment ops frames fuel s phdr = some (.ok (), s')) :
    s'.uspace.areas = ⟨phdr.mapStart, phdr.mapSize, segmentFlags, .alloc true⟩ :: s.uspace.areas := by
  rcases hm : s.uspace.mapAlloc phdr.mapStart phdr.mapSize segmentFlags true frames with
    ⟨_ | u, a⟩
  · rw [loadSegment_of_mapAlloc_error hm] at h
    cases h
  · rw [loadSegment_of_mapAlloc_ok hm] at h
    have hareas := areas_of_mapAlloc_ok (show
      (s.uspace.mapAlloc phdr.mapStart phdr.mapSize segmentFlags true frames).1 = .ok () by rw [hm])
    rw [hm] at hareas
    rw [uspace_of_fillSegment h, hareas]

end Segment

/-- Two segments share a page: a byte of each lies in it. -/
def SharePage (p q : ProgramHeader) : Prop :=
  ∃ x y, p.pVaddr ≤ x ∧ x < p.pVaddr + p.pMemsz ∧ q.pVaddr ≤ y ∧ y < q.pVaddr + q.pMemsz ∧
    x / PAGE_SIZE_4K = y / PAGE_SIZE_4K

/-- The pages of two segments that share a page overlap. -/
theorem rangesOverlap_of_sharePage {p q : ProgramHeader} (h : SharePage p q) :
    rangesOverlap p.mapStart p.mapSize q.mapStart q.mapSize = true := by
  obtain ⟨x, y, hx₁, hx₂, hy₁, hy₂, hxy⟩ := h
  simp only [rangesOverlap, ProgramHeader.mapStart, ProgramHeader.mapSize, alignDown4k, alignUp4k,
    PAGE_SIZE_4K, Bool.and_eq_true] at hxy ⊢
  constructor <;> exact decide_eq_true (by omega)

/-- Of two segments that share a page, the second fails with `AlreadyExists` once the first
    is loaded, whatever the bytes of the two. -/
theorem loadSegments_of_sharePage {ν : Type} {ops : NodeOps ν} {frames : Nat → Option Nat}
    {fuel : Nat} {s s' : LoadState ν} {p q : ProgramHeader}
    (hp : loadSegment ops frames fuel s p = some (.ok (), s')) (hshare : SharePage p q)
    (hq : 0 < q.pMemsz) (hrange : s'.uspace.containsRange q.mapStart q.mapSize = true) :
    loadSegments ops frames fuel [p, q] s = some (.error (.aspace .alreadyExists), s') := by
  have hB : (⟨p.mapStart, p.mapSize, segmentFlags, .alloc true⟩ : MemoryArea) ∈ s'.uspace.areas := by
    rw [areas_of_loadSegment hp]
    exact List.mem_cons_self ..
  rw [loadSegments, hp]
  dsimp only
  rw [loadSegments, loadSegment_of_overlap hB hq hrange (rangesOverlap_of_sharePage hshare)]

/-! ## §6 Two images -/

/-- A frame for every page. -/
def pageFrames : Nat → Option Nat := fun v => some ((v + 16) * PAGE_SIZE_4K)

/-- An empty user address space of `64` KiB. -/
def userSpace : AddrSpace := AddrSpace.newEmpty 0 0x10000

/-- A ramfs file of `content`, opened for reading. -/
def elfFile (content : List UInt8) : Fops.File RamNode := ⟨⟨.file content, Cap.READ⟩, false, 0⟩

/-- Two segments on one page make the second `map_alloc` fail with `AlreadyExists`; and a
    segment whose file bytes run past the end of the file makes the read loop spin, so
    `load_user_app` runs out of every budget. -/
theorem loader_shared_page_or_eof :
    (loadUserApp ramNodeOps pageFrames 2
        [⟨PT_LOAD, 0, 0x1000, 4, 4⟩, ⟨PT_LOAD, 4, 0x1004, 4, 4⟩] 0x1000
        ⟨elfFile [1, 2, 3, 4, 5, 6, 7, 8], userSpace, fun _ => 0⟩).map (·.1) =
      some (.error (.aspace .alreadyExists)) ∧
    ∀ fuel, loadUserApp ramNodeOps pageFrames fuel [⟨PT_LOAD, 0, 0x1000, 8, 8⟩] 0x1000
        ⟨elfFile [1, 2, 3, 4], userSpace, fun _ => 0⟩ = none := by
  refine ⟨by decide, fun fuel => ?_⟩
  have hmap : (userSpace.mapAlloc (ProgramHeader.mapStart ⟨PT_LOAD, 0, 0x1000, 8, 8⟩)
      (ProgramHeader.mapSize ⟨PT_LOAD, 0, 0x1000, 8, 8⟩) segmentFlags true pageFrames).1 = .ok () := by
    decide
  unfold loadUserApp
  rw [show loadElfPhdrs [⟨PT_LOAD, 0, 0x1000, 8, 8⟩] = [⟨PT_LOAD, 0, 0x1000, 8, 8⟩] from rfl,
    loadSegments, loadSegment_eq_none_of_short (s := ⟨elfFile [1, 2, 3, 4], userSpace, fun _ => 0⟩)
      hmap rfl rfl (ramNodeOps_readsWithin _) (by decide) (by decide) (by decide) (by decide)
      (by decide)]
  rfl

end ArceOS.Mm
