import ArceOS.Mm.LoaderSpec
import ArceOS.Elf.Format

/-!
# Loading an Application from its ELF Image

`load_elf_phdrs` of the `sys_map` exercise (`exercises/sys_map/src/loader.rs`) reads the
first `ELF_HEAD_BUF_SIZE` bytes of the file into a zeroed buffer with one `read`, parses the
file header out of them, checks `e_phentsize` against the class, reads the program header
table (`e_phentsize * e_phnum` bytes, at most a page) at `e_phoff` with one more `read`, and
keeps the `PT_LOAD` and `PT_INTERP` headers the table's iterator yields. Its `unwrap`s and
`assert!` panic; a failed `read` is an `io::Error`. `load_user_app` then loads the kept
headers as `ArceOS.Mm.Loader` models, and returns `e_entry`.

On a ramfs file that holds an ELF image, the two reads return the header and the table
(`loadElfPhdrs_image`), so `load_user_app` places every kept segment when their pages are
apart and fit the address space (`loadUserApp_image`): the format of `ArceOS.Elf.Format`,
the file of `ArceOS.Fs.Fops` and the address space of `ArceOS.Mm.LoaderSpec` together.
-/

namespace ArceOS.Mm

open ArceOS.Lib.Cursor ArceOS.Lib.ByteStore ArceOS.Fs ArceOS.Fs.Dev ArceOS.Fs.Fops ArceOS.Elf

/-- `ELF_HEAD_BUF_SIZE`. -/
def ELF_HEAD_BUF_SIZE : Nat := 256

/-- An `elf` crate program header as `load_user_app` reads it, its fields cast to `usize`. -/
def ProgramHeader.ofElf (ph : Elf.ProgramHeader) : ProgramHeader :=
  ⟨ph.pType.toNat, ph.pOffset.toNat, ph.pVaddr.toNat, ph.pFilesz.toNat, ph.pMemsz.toNat⟩

/-- How `load_elf_phdrs` ends when it returns no headers. -/
inductive PhdrsError where
  /-- `file.read(&mut buf)?`. -/
  | fs (e : VfsError)
  /-- The panic of `.unwrap()` on `parse_elf_header` or `validate_entsize`. -/
  | parse (e : ParseError)
  /-- The panic of `entsize.checked_mul(phnum).unwrap()`. -/
  | overflow
  /-- `assert!(size > 0 && size <= PAGE_SIZE_4K)`. -/
  | assertFailed

/-- How `load_user_app` ends when it does not return `e_entry`. -/
inductive AppError where
  | phdrs (e : PhdrsError)
  | load (e : LoadError)

namespace LoadElf

section Defs

variable {ν : Type} (ops : NodeOps ν) (frames : Nat → Option Nat)

/-- `file.read(&mut buf)` into a zeroed buffer of `len` bytes: the bytes read, then the zeros
    the read did not reach. -/
def readBuf (f : Fops.File ν) (len : Nat) : VfsResult (List UInt8) × Fops.File ν :=
  match f.read ops len with
  | (.error e, f) => (.error e, f)
  | (.ok bytes, f) => (.ok (bytes ++ List.replicate (len - bytes.length) 0), f)

/-- `load_elf_phdrs(&mut file)`: the kept headers, `e_entry`, `e_phoff` and `e_phnum`. -/
def loadElfPhdrs (f : Fops.File ν) :
    Except PhdrsError (List ProgramHeader × Nat × Nat × Nat) × Fops.File ν :=
  match readBuf ops f ELF_HEAD_BUF_SIZE with
  | (.error e, f) => (.error (.fs e), f)
  | (.ok buf, f) =>
    match parseElfHeader buf with
    | .error e => (.error (.parse e), f)
    | .ok ehdr =>
      let phnum := ehdr.ePhnum.toNat
      match Elf.ProgramHeader.validateEntsize ehdr.elfClass ehdr.ePhentsize.toNat with
      | .error e => (.error (.parse e), f)
      | .ok entsize =>
        -- `entsize.checked_mul(phnum)` on a 64-bit `usize`
        if 2 ^ 64 ≤ entsize * phnum then (.error .overflow, f)
        else
          let size := entsize * phnum
          if ¬(0 < size ∧ size ≤ PAGE_SIZE_4K) then (.error .assertFailed, f)
          else
            -- `let _ = file.seek(SeekFrom::Start(phoff))`: a failed seek is ignored
            match readBuf ops (f.seek ops (.start ehdr.ePhoff)).2 size with
            | (.error e, f) => (.error (.fs e), f)
            | (.ok buf, f) =>
              let table := (SegmentTable.mk ehdr.endianness ehdr.elfClass buf).iter.collect
              (.ok (Mm.loadElfPhdrs (table.map ProgramHeader.ofElf), ehdr.eEntry.toNat,
                ehdr.ePhoff.toNat, ehdr.ePhnum.toNat), f)

/-- `load_user_app` from the opened file: `Ok(e_entry)`, or the error. -/
def loadUserApp (fuel : Nat) (s : LoadState ν) : Option (Except AppError Nat × LoadState ν) :=
  match loadElfPhdrs ops s.file with
  | (.error e, f) => some (.error (.phdrs e), { s with file := f })
  | (.ok (phdrs, entry, _, _), f) =>
    (loadSegments ops frames fuel phdrs { s with file := f }).map fun r =>
      ((r.1.map fun _ => entry).mapError .load, r.2)

end Defs

/-! ## §2 Reading a ramfs file -/

section Ramfs

variable {content : List UInt8} {f : Fops.File RamNode}

theorem ramReadAt_eq_view {off len : Nat} (h : off + len ≤ content.length) :
    ramReadAt content off len = view content off len := by
  have hstart : min content.length off = off := Nat.min_eq_right (by omega)
  have hstop : min content.length (off + len) = off + len := Nat.min_eq_right h
  simp only [ramReadAt, hstart, hstop, view, List.drop_take, Nat.add_sub_cancel_left]

/-- A ramfs read into a zeroed buffer: the bytes of the file at the cursor, then zeros. -/
theorem readBuf_ramfs (hnode : f.node.inner = .file content) (hcap : f.node.cap.read = true)
    (len : Nat) :
    readBuf ramNodeOps f len = (.ok (ramReadAt content f.offset len ++
      List.replicate (len - (ramReadAt content f.offset len).length) 0),
      { f with offset := (f.offset + (ramReadAt content f.offset len).length) % u64Modulus }) := by
  rw [readBuf, File.read_of_read hcap, hnode, ramNodeOps_readAt_file]

/-- The first read of an image starts with its header, whatever its length. -/
theorem readBuf_header {h : FileHeader} {pad rest : List UInt8} (hpad : pad.length = 7)
    (hnode : f.node.inner = .file (h.toBytes pad ++ rest)) (hcap : f.node.cap.read = true)
    (hoff : f.offset = 0) :
    ∃ rest' f', readBuf ramNodeOps f ELF_HEAD_BUF_SIZE = (.ok (h.toBytes pad ++ rest'), f') ∧
      f'.node = f.node := by
  -- the header is at most `64` bytes, within the buffer
  have hlen : (h.toBytes pad).length ≤ ELF_HEAD_BUF_SIZE := by
    have := length_tailBytes h
    rw [FileHeader.toBytes, List.length_append, length_identBytes h hpad]
    cases hc : h.elfClass <;> simp_all [tailEnd, EI_NIDENT, ELF32_EHDR_TAILSIZE, ELF64_EHDR_TAILSIZE,
      ELF_HEAD_BUF_SIZE]
  have htake : ramReadAt (h.toBytes pad ++ rest) 0 ELF_HEAD_BUF_SIZE =
      h.toBytes pad ++ rest.take (ELF_HEAD_BUF_SIZE - (h.toBytes pad).length) := by
    simp only [ramReadAt, Nat.zero_add, Nat.min_zero, List.drop_zero]
    rw [← List.take_take, List.take_of_length_le (by simp), List.take_append,
      List.take_of_length_le hlen]
  rw [readBuf_ramfs hnode hcap, hoff, htake, List.append_assoc]
  exact ⟨_, _, rfl, rfl⟩

end Ramfs

/-! ## §3 An ELF image -/

/-- The bytes of a file hold an ELF image with the header `ehdr` and the program headers
    `phs`: the encoded header at the start, entries of the size of the class, as many as
    `e_phnum` says and at least one, a table of at most a page, and the encoded table where
    `e_phoff` points, within the file. -/
structure ElfImage (content : List UInt8) (ehdr : FileHeader) (phs : List Elf.ProgramHeader) :
    Prop where
  fits : ehdr.Fits
  header : ∃ pad rest, pad.length = 7 ∧ content = ehdr.toBytes pad ++ rest
  entsize : ehdr.ePhentsize.toNat = Elf.ProgramHeader.sizeFor ehdr.elfClass
  phnum : ehdr.ePhnum.toNat = phs.length
  nonempty : phs ≠ []
  tableSize : Elf.ProgramHeader.sizeFor ehdr.elfClass * phs.length ≤ PAGE_SIZE_4K
  phsFit : ∀ ph ∈ phs, ph.Fits ehdr.elfClass
  inFile : ehdr.ePhoff.toNat + Elf.ProgramHeader.sizeFor ehdr.elfClass * phs.length ≤ content.length
  table : view content ehdr.ePhoff.toNat (Elf.ProgramHeader.sizeFor ehdr.elfClass * phs.length) =
    encodeTable ehdr.endianness ehdr.elfClass phs

section Image

variable {content : List UInt8} {ehdr : FileHeader} {phs : List Elf.ProgramHeader}
  {f : Fops.File RamNode}

/-- On a ramfs file holding an ELF image, opened at offset `0`, `load_elf_phdrs` returns the
    kept headers of the image's table and its `e_entry`, `e_phoff` and `e_phnum`. -/
theorem loadElfPhdrs_image (himg : ElfImage content ehdr phs) (hnode : f.node.inner = .file content)
    (hcap : f.node.cap.read = true) (hoff : f.offset = 0) :
    ∃ f', loadElfPhdrs ramNodeOps f = (.ok (Mm.loadElfPhdrs (phs.map ProgramHeader.ofElf),
      ehdr.eEntry.toNat, ehdr.ePhoff.toNat, ehdr.ePhnum.toNat), f') ∧ f'.node = f.node := by
  obtain ⟨pad, rest, hpad, hcontent⟩ := himg.header
  -- the first read holds the header, which parses
  obtain ⟨rest', f₁, hread₁, hnode₁⟩ := readBuf_header hpad (hcontent ▸ hnode) hcap hoff
  have hparse := parseElfHeader_toBytes ehdr himg.fits hpad rest'
  have hvalid : Elf.ProgramHeader.validateEntsize ehdr.elfClass ehdr.ePhentsize.toNat =
      .ok (Elf.ProgramHeader.sizeFor ehdr.elfClass) := by
    rw [Elf.ProgramHeader.validateEntsize, if_pos himg.entsize, himg.entsize]
  -- the table is a positive number of entries, at most a page
  set size := Elf.ProgramHeader.sizeFor ehdr.elfClass * phs.length with hsize
  have hpos : 0 < size := Nat.mul_pos (sizeFor_pos _) (List.length_pos_iff.mpr himg.nonempty)
  have hpage : size ≤ PAGE_SIZE_4K := himg.tableSize
  have htableLen : (encodeTable ehdr.endianness ehdr.elfClass phs).length = size := by
    rw [length_encodeTable, Nat.mul_comm]
  -- the seek puts the cursor at `e_phoff`, and the second read takes the table
  have hattr : ramNodeOps.getAttr f₁.node.inner = .ok ⟨⟨true, true, false⟩, .file, content.length⟩ := by
    rw [hnode₁, hnode]
    rfl
  have hseek := seek_start_of_lt hattr (UInt64.toNat_lt ehdr.ePhoff)
  rw [UInt64.ofNat_toNat] at hseek
  have hread₂ : readBuf ramNodeOps { f₁ with offset := ehdr.ePhoff.toNat } size =
      (.ok (encodeTable ehdr.endianness ehdr.elfClass phs),
        { f₁ with offset := (ehdr.ePhoff.toNat + size) % u64Modulus }) := by
    rw [readBuf_ramfs (by rw [hnode₁, hnode]) (by rw [hnode₁]; exact hcap)]
    dsimp only
    rw [ramReadAt_eq_view himg.inFile, himg.table, htableLen, Nat.sub_self,
      List.replicate_zero, List.append_nil]
  have hcollect := collect_encodeTable ehdr.endianness ehdr.elfClass himg.phsFit
    (by rw [htableLen]; unfold PAGE_SIZE_4K at hpage; omega)
  refine ⟨{ f₁ with offset := (ehdr.ePhoff.toNat + size) % u64Modulus }, ?_, hnode₁⟩
  simp only [loadElfPhdrs, hread₁, hparse, hvalid]
  rw [if_neg (by rw [himg.phnum]; unfold PAGE_SIZE_4K at hpage; omega), himg.phnum,
    if_neg (not_not.mpr ⟨hpos, hpage⟩), hseek]
  dsimp only
  rw [hread₂]
  dsimp only
  rw [hcollect]

/-- `load_user_app` on a ramfs file holding an ELF image, opened at offset `0`, with an
    allocator that gives every page a fresh frame: when the kept segments fit the address
    space and keep their pages apart, it returns `e_entry` with every kept segment in place. -/
theorem loadUserApp_image {frames : Nat → Option Nat} (fuel : Nat) (hfresh : FreshFrames frames)
    (himg : ElfImage content ehdr phs) (hlen : content.length < u64Modulus) {s : LoadState RamNode}
    (hnode : s.file.node.inner = .file content) (hcap : s.file.node.cap.read = true)
    (hoff : s.file.offset = 0)
    (hfits : ∀ phdr ∈ Mm.loadElfPhdrs (phs.map ProgramHeader.ofElf), SegmentFits content s.uspace phdr)
    (hapart : (Mm.loadElfPhdrs (phs.map ProgramHeader.ofElf)).Pairwise
      fun p q => rangesOverlap p.mapStart p.mapSize q.mapStart q.mapSize = false) :
    ∃ s', loadUserApp ramNodeOps frames (fuel + 2) s = some (.ok ehdr.eEntry.toNat, s') ∧
      ∀ phdr ∈ Mm.loadElfPhdrs (phs.map ProgramHeader.ofElf), Placed content s' phdr := by
  obtain ⟨f', hphdrs, hnode'⟩ := loadElfPhdrs_image himg hnode hcap hoff
  -- the segments are loaded from the file as the headers left it
  obtain ⟨s', hloads, hrun⟩ := loadSegments_places fuel hfresh hlen _ { s with file := f' }
    (by rw [hnode']; exact hnode) (by rw [hnode']; exact hcap) hfits hapart
  refine ⟨s', ?_, fun phdr h => (hrun.placed phdr h).2⟩
  rw [loadUserApp, hphdrs]
  dsimp only
  rw [hloads]
  rfl

end Image

/-- A 64-bit little-endian executable with two segments, entered at `0x1000`. -/
def sampleEhdr : FileHeader :=
  { elfClass := .ELF64, endianness := .little, version := 1, osabi := 0, abiversion := 0,
    eType := 2, eMachine := 0xf3, eEntry := 0x1000, ePhoff := 64, eShoff := 0, eFlags := 0,
    eEhsize := 64, ePhentsize := 56, ePhnum := 2, eShentsize := 64, eShnum := 0, eShstrndx := 0 }

/-- Its text: the whole file, `r-x` at `0x1000`. -/
def textPhdr : Elf.ProgramHeader := ⟨1, 0, 0x1000, 0x1000, 176, 176, 5, 0x1000⟩

/-- Its data: the program header table, `rw-` at `0x3000`, followed by `272` zero bytes. -/
def dataPhdr : Elf.ProgramHeader := ⟨1, 64, 0x3000, 0x3000, 112, 384, 6, 0x1000⟩

/-- Its `176` bytes: the header, then the table. -/
def sampleImage : List UInt8 :=
  sampleEhdr.toBytes (List.replicate 7 0) ++ encodeTable .little .ELF64 [textPhdr, dataPhdr]

theorem loadUserApp_sampleImage :
    ∃ s', loadUserApp ramNodeOps pageFrames 2 ⟨elfFile sampleImage, userSpace, fun _ => 0⟩ =
        some (.ok 0x1000, s') ∧
      ∀ phdr ∈ Mm.loadElfPhdrs ([textPhdr, dataPhdr].map ProgramHeader.ofElf),
        Placed sampleImage s' phdr := by
  have hfresh : FreshFrames pageFrames :=
    ⟨fun _ => rfl,
     fun v p h => by cases h; unfold PAGE_SIZE_4K; omega,
     fun v w p hv hw => by
       cases hv
       simp only [pageFrames, Option.some.injEq] at hw
       unfold PAGE_SIZE_4K at hw
       omega⟩
  have himg : ElfImage sampleImage sampleEhdr [textPhdr, dataPhdr] :=
    ⟨nofun, ⟨_, _, rfl, rfl⟩, rfl, rfl, List.cons_ne_nil _ _, by decide +kernel,
      fun _ _ => nofun, by decide +kernel, by decide +kernel⟩
  have hkept : Mm.loadElfPhdrs ([textPhdr, dataPhdr].map ProgramHeader.ofElf) =
      [⟨1, 0, 0x1000, 176, 176⟩, ⟨1, 64, 0x3000, 112, 384⟩] :=
    rfl
  -- each segment fits the empty address space
  have hfits : ∀ phdr ∈ Mm.loadElfPhdrs ([textPhdr, dataPhdr].map ProgramHeader.ofElf),
      SegmentFits sampleImage userSpace phdr := by
    rw [hkept]
    rintro phdr hphdr
    simp only [List.mem_cons, List.not_mem_nil, or_false] at hphdr
    rcases hphdr with rfl | rfl
    · exact ⟨by decide +kernel, by decide +kernel, by decide +kernel, by decide +kernel, nofun,
        fun _ _ => rfl⟩
    · exact ⟨by decide +kernel, by decide +kernel, by decide +kernel, by decide +kernel, nofun,
        fun _ _ => rfl⟩
  -- the text's page and the data's page are apart
  have hapart : (Mm.loadElfPhdrs ([textPhdr, dataPhdr].map ProgramHeader.ofElf)).Pairwise
      fun p q => rangesOverlap p.mapStart p.mapSize q.mapStart q.mapSize = false := by
    rw [hkept]
    decide
  exact loadUserApp_image 0 hfresh himg (by decide +kernel) rfl rfl rfl hfits hapart

end LoadElf

end ArceOS.Mm
