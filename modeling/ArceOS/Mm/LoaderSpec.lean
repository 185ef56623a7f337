import ArceOS.Mm.Loader

/-!
# Where the Loader Puts Segments

What `load_user_app` does on an image whose segments keep to pages of their own, read from
a ramfs file that holds all their bytes, with an allocator that gives every page a frame of
its own. One `read` of a ramfs file returns every byte asked for that the file has, so the
read loop ends after one pass (`readLoop_ramfs`). A pass then maps the pages of its segment
to fresh frames and writes the buffer through them: every byte of `[p_vaddr, p_vaddr +
p_memsz)` translates to a physical byte that holds the file's byte below `p_filesz` and `0`
above it (`loadSegment_places`). A later segment maps other pages onto other frames, so it
leaves the bytes of the earlier ones where they are, and by induction on the headers the
whole image is in place when `load_user_app` returns `e_entry` (`loadUserApp_places`).

Segments that share a page fail instead (`loadSegments_of_sharePage`): the condition that
their pages be apart is the one the loader needs.

## Main results

- `readLoop_ramfs`: the read loop over a ramfs file;
- `loadSegment_places`: one pass maps the pages of its segment and places its bytes;
- `loadUserApp_places`: segments whose pages are apart are all placed, and the loader
  returns `e_entry`.
-/

namespace ArceOS.Mm

open ArceOS.Lib.ByteStore ArceOS.Fs ArceOS.Fs.Dev ArceOS.Fs.Fops

/-- The byte a loaded segment holds at offset `i`: the file's byte below `p_filesz`, and
    `0` from there to `p_memsz`. -/
def segmentByte (content : List UInt8) (phdr : ProgramHeader) (i : Nat) : UInt8 :=
  if i < phdr.pFilesz then content.getD (phdr.pOffset + i) 0 else 0

/-! ## §1 Reading a ramfs file -/

theorem ramNodeOps_readAt_file (content : List UInt8) (off len : Nat) :
    ramNodeOps.readAt (.file content) off len = .ok (ramReadAt content off len) := rfl

theorem length_ramReadAt {content : List UInt8} {off len : Nat} (h : off + len ≤ content.length) :
    (ramReadAt content off len).length = len := by
  simp only [ramReadAt, List.length_drop, List.length_take]
  omega

theorem getElem?_ramReadAt {content : List UInt8} {off len : Nat} (h : off + len ≤ content.length)
    (i : Nat) :
    (ramReadAt content off len)[i]? = if i < len then content[off + i]? else none := by
  have hstart : min content.length off = off := Nat.min_eq_right (by omega)
  have hstop : min content.length (off + len) = off + len := Nat.min_eq_right h
  simp only [ramReadAt, hstart, hstop, List.getElem?_drop, List.getElem?_take]
  split_ifs <;> first | rfl | omega

/-- On a ramfs file that holds the bytes `[offset, offset + filesz)`, the read loop takes them
    all in one pass: the buffer holds them, then zeros. -/
theorem readLoop_ramfs {content : List UInt8} {f : Fops.File RamNode} {filesz memsz : Nat}
    (fuel : Nat) (hnode : f.node.inner = .file content) (hcap : f.node.cap.read = true)
    (hend : f.offset + filesz ≤ content.length) (hlen : content.length < u64Modulus)
    (hfit : filesz ≤ memsz) :
    ∃ v, readLoop ramNodeOps filesz memsz (fuel + 2) ⟨f, fun _ => 0, 0⟩ = some (.ok (), v) ∧
      v.file.node = f.node ∧ v.index = filesz ∧
      ∀ i, v.data i = if i < filesz then content.getD (f.offset + i) 0 else 0 := by
  rcases Nat.eq_zero_or_pos filesz with h0 | hpos
  · -- nothing to read: the loop ends at once
    subst h0
    exact ⟨⟨f, fun _ => 0, 0⟩, rfl, rfl, rfl, fun i => by simp⟩
  · -- one read takes all `filesz` bytes
    have hbytes := length_ramReadAt hend
    have hread : f.read ramNodeOps filesz =
        (.ok (ramReadAt content f.offset filesz), { f with offset := f.offset + filesz }) := by
      rw [File.read_of_read hcap, hnode, ramNodeOps_readAt_file]
      dsimp only
      rw [hbytes, Nat.mod_eq_of_lt (by omega)]
    refine ⟨⟨{ f with offset := f.offset + filesz }, writeRange (fun _ => 0) 0
      (ramReadAt content f.offset filesz), 0 + (ramReadAt content f.offset filesz).length⟩, ?_,
      rfl, by rw [hbytes, Nat.zero_add], fun i => ?_⟩
    · rw [readLoop, if_pos hpos, if_neg (by omega), Nat.sub_zero, hread]
      dsimp only
      -- then the loop ends
      rw [readLoop, if_neg (by dsimp only; rw [hbytes]; omega)]
    · simp only [writeRange, Nat.zero_le, if_true, Nat.sub_zero, getElem?_ramReadAt hend]
      split_ifs <;> simp [List.getD_eq_getElem?_getD]

/-! ## §2 Fresh frames -/

/-- An allocator that gives every page a frame of its own, aligned to a page. -/
structure FreshFrames (frames : Nat → Option Nat) : Prop where
  isSome : ∀ v, (frames v).isSome = true
  aligned : ∀ v p, frames v = some p → p % PAGE_SIZE_4K = 0
  injective : ∀ v w p, frames v = some p → frames w = some p → v = w

/-- The pages of a segment are mapped to their frames, with the segment's flags. -/
def SegmentMapped (frames : Nat → Option Nat) (pt : PageTable) (phdr : ProgramHeader) : Prop :=
  ∀ v ∈ pages phdr.mapStart phdr.mapSize, ∃ p, frames v = some p ∧ pt v = ⟨p, segmentFlags⟩

/-- A segment is in place: each byte of `[p_vaddr, p_vaddr + p_memsz)` translates to a
    physical byte holding the segment's byte. -/
def Placed {ν : Type} (content : List UInt8) (s : LoadState ν) (phdr : ProgramHeader) : Prop :=
  ∀ i < phdr.pMemsz, s.mem (s.uspace.pt.translate (phdr.pVaddr + i)) = segmentByte content phdr i

/-- A byte of a segment lies in one of the pages it maps. -/
theorem div_mem_pages_of_lt {phdr : ProgramHeader} {i : Nat} (hi : i < phdr.pMemsz) :
    (phdr.pVaddr + i) / PAGE_SIZE_4K ∈ pages phdr.mapStart phdr.mapSize := by
  rw [div_mem_pages_iff (isAligned4k_mapStart phdr) (isAligned4k_mapSize phdr)]
  simp only [ProgramHeader.mapStart, ProgramHeader.mapSize, alignDown4k, alignUp4k, PAGE_SIZE_4K]
  omega

theorem translate_of_pte {pt : PageTable} {x p : Nat} {flags : MappingFlags}
    (h : pt (x / PAGE_SIZE_4K) = ⟨p, flags⟩) : pt.translate x = p + x % PAGE_SIZE_4K := by
  rw [PageTable.translate, h]
  rfl

section Frames

variable {frames : Nat → Option Nat}

/-- A page-aligned frame plus an offset in a page lies in that frame's page. -/
theorem div_of_aligned {p r : Nat} (hp : p % PAGE_SIZE_4K = 0) (hr : r < PAGE_SIZE_4K) :
    (p + r) / PAGE_SIZE_4K = p / PAGE_SIZE_4K := by
  unfold PAGE_SIZE_4K at *
  omega

/-- Bytes of pages mapped to fresh frames translate apart. -/
theorem eq_of_translate_eq (hfresh : FreshFrames frames) {pt : PageTable} {x y px py : Nat}
    {fx fy : MappingFlags} (hx : frames (x / PAGE_SIZE_4K) = some px)
    (hy : frames (y / PAGE_SIZE_4K) = some py) (hptx : pt (x / PAGE_SIZE_4K) = ⟨px, fx⟩)
    (hpty : pt (y / PAGE_SIZE_4K) = ⟨py, fy⟩) (h : pt.translate x = pt.translate y) : x = y := by
  rw [translate_of_pte hptx, translate_of_pte hpty] at h
  have hax := hfresh.aligned _ _ hx
  have hay := hfresh.aligned _ _ hy
  -- the frames agree, and so do the offsets in the page
  have hframe : px = py := by
    unfold PAGE_SIZE_4K at *
    omega
  subst hframe
  have hpage := hfresh.injective _ _ _ hx hy
  unfold PAGE_SIZE_4K at *
  omega

/-- Distinct pages have frames in distinct physical pages. -/
theorem frame_div_ne (hfresh : FreshFrames frames) {v w p q : Nat} (hvw : v ≠ w)
    (hp : frames v = some p) (hq : frames w = some q) : p / PAGE_SIZE_4K ≠ q / PAGE_SIZE_4K := by
  intro h
  have hap := hfresh.aligned _ _ hp
  have haq := hfresh.aligned _ _ hq
  have hpq : p = q := by
    unfold PAGE_SIZE_4K at *
    omega
  subst hpq
  exact hvw (hfresh.injective _ _ _ hp hq)

end Frames

/-! ## §3 One segment -/

/-- `write` over a range whose pages are all mapped and whose bytes translate apart: each
    byte of the buffer lands at the translation of its address, and nothing else changes. -/
theorem write_of_mapped {a : AddrSpace} {mem buf : Nat → UInt8} {start len : Nat}
    (hrange : a.containsRange start len = true) (hlen : 0 < len)
    (hmapped : ∀ v, start ≤ v → v < start + len → (a.pt (v / PAGE_SIZE_4K)).isUnused = false)
    (hinj : ∀ i < len, ∀ j < len, a.pt.translate (start + i) = a.pt.translate (start + j) → i = j) :
    (a.write mem buf start len).1 = .ok () ∧
      (∀ i < len, (a.write mem buf start len).2 (a.pt.translate (start + i)) = buf i) ∧
      (∀ q, (∀ i < len, q ≠ a.pt.translate (start + i)) → (a.write mem buf start len).2 q = mem q) := by
  obtain ⟨hok, hch⟩ := a.processAreaData_chunked hrange hlen hmapped
  refine ⟨hok, fun i hi => ?_, fun q hq => ?_⟩
  · exact writeChunks_spec buf mem hch (fun i j _ hi _ hj => hinj i hi j hj) i (Nat.zero_le i) hi
  · exact writeChunks_frame buf mem hch q fun i _ hi => hq i hi

section Segment

variable {frames : Nat → Option Nat} {phdr : ProgramHeader}

/-- `map_alloc` of a segment's pages, when they meet no area and are all unused and every
    page has a frame, adds the area and maps the pages. -/
theorem mapAlloc_of_free {a : AddrSpace} (hfresh : FreshFrames frames) (hmemsz : 0 < phdr.pMemsz)
    (hrange : a.containsRange phdr.mapStart phdr.mapSize = true)
    (hfree : ∀ B ∈ a.areas, rangesOverlap B.start B.size phdr.mapStart phdr.mapSize = false)
    (hunused : ∀ v ∈ pages phdr.mapStart phdr.mapSize, a.pt v = Pte.unused) :
    a.mapAlloc phdr.mapStart phdr.mapSize segmentFlags true frames =
      (.ok (), { a with
        areas := ⟨phdr.mapStart, phdr.mapSize, segmentFlags, .alloc true⟩ :: a.areas
        pt := (mapAllocBackend a.pt phdr.mapStart phdr.mapSize segmentFlags true frames).1 }) := by
  have hnone : ¬(a.areas.any fun b => rangesOverlap b.start b.size phdr.mapStart phdr.mapSize) =
      true := by
    simp only [List.any_eq_true, not_exists, not_and]
    intro B hB h
    rw [hfree B hB] at h
    cases h
  have hok : (mapAllocBackend a.pt phdr.mapStart phdr.mapSize segmentFlags true frames).2 = true :=
    (mapAllocBackend_populate_ok_iff fun v _ => hfresh.isSome v).mpr hunused
  rw [AddrSpace.mapAlloc, if_neg (by simp [hrange]),
    if_neg (by simp [isAligned4k_mapStart, isAligned4k_mapSize]),
    if_neg (Nat.pos_iff_ne_zero.mp (mapSize_pos hmemsz)), if_neg hnone]
  dsimp only
  rw [if_pos hok]

/-- What a pass that loads `phdr` leaves, from `s` to `s'`. -/
structure SegmentLoaded {ν : Type} (frames : Nat → Option Nat) (content : List UInt8)
    (s s' : LoadState ν) (phdr : ProgramHeader) : Prop where
  node : s'.file.node = s.file.node
  vaStart : s'.uspace.vaStart = s.uspace.vaStart
  vaEnd : s'.uspace.vaEnd = s.uspace.vaEnd
  areas : s'.uspace.areas = ⟨phdr.mapStart, phdr.mapSize, segmentFlags, .alloc true⟩ :: s.uspace.areas
  pt_other : ∀ v ∉ pages phdr.mapStart phdr.mapSize, s'.uspace.pt v = s.uspace.pt v
  mapped : SegmentMapped frames s'.uspace.pt phdr
  placed : Placed content s' phdr
  mem_other : ∀ q, (∀ v ∈ pages phdr.mapStart phdr.mapSize, ∀ p, frames v = some p →
    q / PAGE_SIZE_4K ≠ p / PAGE_SIZE_4K) → s'.mem q = s.mem q

/-- An entry of a segment's page is in use. -/
theorem isUnused_segmentFlags (p : Nat) : Pte.isUnused ⟨p, segmentFlags⟩ = false := by
  simp [Pte.isUnused, Pte.unused, segmentFlags, MappingFlags.READ, MappingFlags.WRITE,
    MappingFlags.EXECUTE, MappingFlags.USER]

/-- The bytes of a segment's range lie inside the pages it maps. -/
theorem containsRange_of_mapRange {a : AddrSpace}
    (hrange : a.containsRange phdr.mapStart phdr.mapSize = true) :
    a.containsRange phdr.pVaddr phdr.pMemsz = true := by
  simp only [AddrSpace.containsRange, Bool.and_eq_true, decide_eq_true_eq] at hrange ⊢
  simp only [ProgramHeader.mapStart, ProgramHeader.mapSize, alignDown4k, alignUp4k,
    PAGE_SIZE_4K] at hrange
  omega

/-- A pass over a segment whose pages are free in the address space, reading a ramfs file
    that holds the segment's bytes, maps its pages to fresh frames and places its bytes. -/
theorem loadSegment_places (fuel : Nat) {content : List UInt8} {s : LoadState RamNode}
    (hfresh : FreshFrames frames) (hnode : s.file.node.inner = .file content)
    (hcap : s.file.node.cap.read = true) (hlen : content.length < u64Modulus)
    (hoff : phdr.pOffset + phdr.pFilesz ≤ content.length) (hfit : phdr.pFilesz ≤ phdr.pMemsz)
    (hmemsz : 0 < phdr.pMemsz) (hrange : s.uspace.containsRange phdr.mapStart phdr.mapSize = true)
    (hfree : ∀ B ∈ s.uspace.areas, rangesOverlap B.start B.size phdr.mapStart phdr.mapSize = false)
    (hunused : ∀ v ∈ pages phdr.mapStart phdr.mapSize, s.uspace.pt v = Pte.unused) :
    ∃ s', loadSegment ramNodeOps frames (fuel + 2) s phdr = some (.ok (), s') ∧
      SegmentLoaded frames content s s' phdr := by
  -- `map_alloc` maps every page of the segment to its frame
  have hmap := mapAlloc_of_free hfresh hmemsz hrange hfree hunused
  set a : AddrSpace := { s.uspace with
    areas := ⟨phdr.mapStart, phdr.mapSize, segmentFlags, .alloc true⟩ :: s.uspace.areas
    pt := (mapAllocBackend s.uspace.pt phdr.mapStart phdr.mapSize segmentFlags true frames).1 }
    with ha
  have hbackend : (mapAllocBackend s.uspace.pt phdr.mapStart phdr.mapSize segmentFlags true
      frames).2 = true := (mapAllocBackend_populate_ok_iff fun v _ => hfresh.isSome v).mpr hunused
  have hmapped : SegmentMapped frames a.pt phdr := fun v hv => by
    obtain ⟨p, hp⟩ := Option.isSome_iff_exists.mp (hfresh.isSome v)
    exact ⟨p, hp, mapAllocBackend_populate_of_mem hbackend hv hp⟩
  have hpage : ∀ x, phdr.pVaddr ≤ x → x < phdr.pVaddr + phdr.pMemsz →
      ∃ p, frames (x / PAGE_SIZE_4K) = some p ∧ a.pt (x / PAGE_SIZE_4K) = ⟨p, segmentFlags⟩ :=
    fun x h₁ h₂ => hmapped _ (by
      have := @div_mem_pages_of_lt phdr (x - phdr.pVaddr) (by omega)
      rwa [Nat.add_sub_cancel' h₁] at this)
  -- the file is read in one pass
  have hattr : ramNodeOps.getAttr s.file.node.inner =
      .ok ⟨⟨true, true, false⟩, .file, content.length⟩ := by
    rw [hnode]
    rfl
  have hseek := seek_start_of_lt hattr (show phdr.pOffset < u64Modulus by omega)
  obtain ⟨rv, hloop, hrvnode, hidx, hdata⟩ := readLoop_ramfs (f := { s.file with offset := phdr.pOffset })
    fuel hnode hcap (by dsimp only; omega) hlen hfit
  -- and the buffer is written through the new pages
  have hwrite := @write_of_mapped a s.mem rv.data _ _
    (containsRange_of_mapRange hrange) hmemsz
    (fun x h₁ h₂ => by
      obtain ⟨p, -, hpt⟩ := hpage x h₁ h₂
      rw [hpt, isUnused_segmentFlags])
    (fun i hi j hj h => by
      obtain ⟨p, hp, hpt⟩ := hpage (phdr.pVaddr + i) (by omega) (by omega)
      obtain ⟨q, hq, hqt⟩ := hpage (phdr.pVaddr + j) (by omega) (by omega)
      have := eq_of_translate_eq hfresh hp hq hpt hqt h
      omega)
  refine ⟨⟨rv.file, a, (a.write s.mem rv.data phdr.pVaddr phdr.pMemsz).2⟩, ?_, ?_⟩
  · rw [loadSegment_of_mapAlloc_ok hmap, fillSegment_of_readLoop hseek hloop hidx, hwrite.1]
    rfl
  · refine ⟨hrvnode, rfl, rfl, rfl, fun v hv => mapAllocBackend_of_not_mem _ _ _ _ _ _ hv,
      hmapped, fun i hi => ?_, fun q hq => hwrite.2.2 q fun i hi h => ?_⟩
    · exact (hwrite.2.1 i hi).trans (hdata i)
    · -- the byte written lies in the frame of its page, which `q` is not in
      obtain ⟨p, hp, hpt⟩ := hpage (phdr.pVaddr + i) (by omega) (by omega)
      have hoffset : (phdr.pVaddr + i) % PAGE_SIZE_4K < PAGE_SIZE_4K := Nat.mod_lt _ (by decide)
      rw [translate_of_pte hpt] at h
      apply hq _ (div_mem_pages_of_lt hi) p hp
      rw [h, div_of_aligned (hfresh.aligned _ _ hp) hoffset]

end Segment

/-! ## §4 The whole image -/

/-- A segment the loader can place in the address space `a`, reading the file `content`:
    its bytes are in the file, its memory size covers its file size and is not zero, and
    its pages lie in the address space, meet no area and are unused. -/
structure SegmentFits (content : List UInt8) (a : AddrSpace) (phdr : ProgramHeader) : Prop where
  inFile : phdr.pOffset + phdr.pFilesz ≤ content.length
  fileLeMem : phdr.pFilesz ≤ phdr.pMemsz
  memPos : 0 < phdr.pMemsz
  inRange : a.containsRange phdr.mapStart phdr.mapSize = true
  free : ∀ B ∈ a.areas, rangesOverlap B.start B.size phdr.mapStart phdr.mapSize = false
  unused : ∀ v ∈ pages phdr.mapStart phdr.mapSize, a.pt v = Pte.unused

/-- What loading the segments `phdrs` leaves, from `s` to `s'`: the file's node, the entries
    of other pages and the bytes of other frames are as they were, and every segment is
    mapped and in place. -/
structure ImageLoaded {ν : Type} (frames : Nat → Option Nat) (content : List UInt8)
    (phdrs : List ProgramHeader) (s s' : LoadState ν) : Prop where
  node : s'.file.node = s.file.node
  pt_other : ∀ v, (∀ q ∈ phdrs, v ∉ pages q.mapStart q.mapSize) → s'.uspace.pt v = s.uspace.pt v
  mem_other : ∀ x, (∀ q ∈ phdrs, ∀ v ∈ pages q.mapStart q.mapSize, ∀ p, frames v = some p →
    x / PAGE_SIZE_4K ≠ p / PAGE_SIZE_4K) → s'.mem x = s.mem x
  placed : ∀ q ∈ phdrs, SegmentMapped frames s'.uspace.pt q ∧ Placed content s' q

section Image

variable {frames : Nat → Option Nat} {content : List UInt8}

/-- A segment still fits after a segment whose pages are apart from its own is loaded. -/
theorem SegmentFits.after {s s' : LoadState RamNode} {p q : ProgramHeader}
    (hq : SegmentFits content s.uspace q) (hstep : SegmentLoaded frames content s s' p)
    (hapart : rangesOverlap p.mapStart p.mapSize q.mapStart q.mapSize = false) :
    SegmentFits content s'.uspace q where
  inFile := hq.inFile
  fileLeMem := hq.fileLeMem
  memPos := hq.memPos
  inRange := by
    have h := hq.inRange
    simp only [AddrSpace.containsRange, hstep.vaStart, hstep.vaEnd] at h ⊢
    exact h
  free := by
    rw [hstep.areas]
    intro B hB
    rcases List.mem_cons.mp hB with rfl | hB
    · exact hapart
    · exact hq.free B hB
  unused := fun v hv => by
    rw [hstep.pt_other v (not_mem_pages_of_not_overlap
      (by rw [rangesOverlap_comm]; exact hapart) hv)]
    exact hq.unused v hv

/-- A placed segment stays placed while its pages keep their entries and the physical pages
    of their frames keep their bytes. -/
theorem Placed.of_frame {ν : Type} {s s' : LoadState ν} {phdr : ProgramHeader}
    (hfresh : FreshFrames frames) (hplaced : Placed content s phdr)
    (hmapped : SegmentMapped frames s.uspace.pt phdr)
    (hpt : ∀ v ∈ pages phdr.mapStart phdr.mapSize, s'.uspace.pt v = s.uspace.pt v)
    (hmem : ∀ x, ∀ v ∈ pages phdr.mapStart phdr.mapSize, ∀ p, frames v = some p →
      x / PAGE_SIZE_4K = p / PAGE_SIZE_4K → s'.mem x = s.mem x) :
    Placed content s' phdr := by
  intro i hi
  have hv := div_mem_pages_of_lt hi
  obtain ⟨p, hp, hpt'⟩ := hmapped _ hv
  have htr : s'.uspace.pt.translate (phdr.pVaddr + i) = s.uspace.pt.translate (phdr.pVaddr + i) := by
    rw [PageTable.translate, PageTable.translate, hpt _ hv]
  have hphys : s.uspace.pt.translate (phdr.pVaddr + i) / PAGE_SIZE_4K = p / PAGE_SIZE_4K := by
    rw [translate_of_pte hpt']
    exact div_of_aligned (hfresh.aligned _ _ hp) (Nat.mod_lt _ (by decide))
  rw [htr, hmem _ _ hv p hp hphys]
  exact hplaced i hi

/-- Segments whose pages are apart, each fitting in `s`, are all loaded and placed: a run
    of passes, by induction on the headers, each pass keeping the ones before it placed. -/
theorem loadSegments_places (fuel : Nat) (hfresh : FreshFrames frames)
    (hlen : content.length < u64Modulus) :
    ∀ (phdrs : List ProgramHeader) (s : LoadState RamNode), s.file.node.inner = .file content →
      s.file.node.cap.read = true → (∀ phdr ∈ phdrs, SegmentFits content s.uspace phdr) →
      phdrs.Pairwise (fun p q => rangesOverlap p.mapStart p.mapSize q.mapStart q.mapSize = false) →
      ∃ s', loadSegments ramNodeOps frames (fuel + 2) phdrs s = some (.ok (), s') ∧
        ImageLoaded frames content phdrs s s'
  | [], s, _, _, _, _ =>
    ⟨s, rfl, rfl, fun _ _ => rfl, fun _ _ => rfl, fun _ hq => absurd hq List.not_mem_nil⟩
  | p :: rest, s, hnode, hcap, hfits, hapart => by
    have hp := hfits p List.mem_cons_self
    obtain ⟨s₁, hload, hstep⟩ := loadSegment_places fuel hfresh hnode hcap hlen hp.inFile
      hp.fileLeMem hp.memPos hp.inRange hp.free hp.unused
    have hapart₁ := List.pairwise_cons.mp hapart
    -- the rest fit after the first, and are loaded from there
    obtain ⟨s', hloads, hrun⟩ := loadSegments_places fuel hfresh hlen rest s₁
      (by rw [hstep.node]; exact hnode) (by rw [hstep.node]; exact hcap)
      (fun q hq => (hfits q (List.mem_cons_of_mem _ hq)).after hstep (hapart₁.1 q hq)) hapart₁.2
    -- the pages of the first segment are none of the rest's
    have hown : ∀ v ∈ pages p.mapStart p.mapSize, ∀ q ∈ rest, v ∉ pages q.mapStart q.mapSize :=
      fun v hv q hq => not_mem_pages_of_not_overlap (hapart₁.1 q hq) hv
    refine ⟨s', ?_, ⟨hrun.node.trans hstep.node, fun v hv => ?_, fun x hx => ?_, ?_⟩⟩
    · rw [loadSegments, hload]
      exact hloads
    · rw [hrun.pt_other v fun q hq => hv q (List.mem_cons_of_mem _ hq),
        hstep.pt_other v (hv p List.mem_cons_self)]
    · rw [hrun.mem_other x fun q hq => hx q (List.mem_cons_of_mem _ hq),
        hstep.mem_other x (hx p List.mem_cons_self)]
    · intro q hq
      rcases List.mem_cons.mp hq with rfl | hq
      · -- the first segment: its entries and its frames' bytes are untouched by the rest
        have hpt : ∀ v ∈ pages q.mapStart q.mapSize, s'.uspace.pt v = s₁.uspace.pt v :=
          fun v hv => hrun.pt_other v (hown v hv)
        refine ⟨fun v hv => ?_, hstep.placed.of_frame hfresh hstep.mapped hpt ?_⟩
        · rw [hpt v hv]
          exact hstep.mapped v hv
        · intro x v hv pf hpf hx
          apply hrun.mem_other x
          intro r hr w hw pw hpw
          rw [hx]
          exact frame_div_ne hfresh (fun (h : v = w) => hown v hv r hr (h ▸ hw)) hpf hpw
      · exact hrun.placed q hq

/-- `load_user_app` on an image whose kept headers fit and keep their pages apart, read from a
    ramfs file, with an allocator that gives every page a fresh frame: it returns `e_entry`,
    with every segment in place. -/
theorem loadUserApp_places (fuel : Nat) (hfresh : FreshFrames frames)
    (hlen : content.length < u64Modulus) {table : List ProgramHeader} {entry : Nat}
    {s : LoadState RamNode} (hnode : s.file.node.inner = .file content)
    (hcap : s.file.node.cap.read = true)
    (hfits : ∀ phdr ∈ loadElfPhdrs table, SegmentFits content s.uspace phdr)
    (hapart : (loadElfPhdrs table).Pairwise
      fun p q => rangesOverlap p.mapStart p.mapSize q.mapStart q.mapSize = false) :
    ∃ s', loadUserApp ramNodeOps frames (fuel + 2) table entry s = some (.ok entry, s') ∧
      ∀ phdr ∈ loadElfPhdrs table, Placed content s' phdr := by
  obtain ⟨s', hloads, hrun⟩ := loadSegments_places fuel hfresh hlen _ s hnode hcap hfits hapart
  refine ⟨s', ?_, fun phdr h => (hrun.placed phdr h).2⟩
  rw [loadUserApp, hloads]
  rfl

end Image

end ArceOS.Mm
