import ArceOS.Elf.Parse

/-!
# The ELF Header Format

What the parsers of `ArceOS.Elf.Parse` accept, stated against an encoder. The `elf` crate
only reads, so the encoders here are the specification: a file header is `e_ident` (the
magic number, the class and data bytes, `EV_CURRENT`, `EI_OSABI`, `EI_ABIVERSION` and seven
bytes of padding) followed by its fields in the file's byte order, the three address fields
four bytes wide in a 32-bit file and eight in a 64-bit one; a program header is its eight
fields in the layout of its class; a segment table is its headers one after another.

A 32-bit file holds 32-bit addresses and sizes: a header whose values do not fit cannot be
written in it (`FileHeader.Fits`, `ProgramHeader.Fits`).

## Main results

- `decodes_parseAt`, `decodes_readTail`: each record parser reads back what the encoder
  wrote, wherever it stands;
- `collect_encodeTable`: the segment table iterator yields exactly the headers encoded in
  the table;
- `parseElfHeader_toBytes`: a file that starts with an encoded header parses to it, whatever
  its padding and whatever follows.
-/

namespace ArceOS.Elf

open ArceOS.Lib.ByteOrder ArceOS.Lib.Cursor

/-! ## §1 Encoders -/

/-- The `EI_CLASS` byte of a class. -/
def Class.byte : Class → UInt8
  | .ELF32 => ELFCLASS32
  | .ELF64 => ELFCLASS64

/-- The `EI_DATA` byte of a byte order. -/
def eiData : Endian → UInt8
  | .little => ELFDATA2LSB
  | .big => ELFDATA2MSB

/-- The bytes of `e_entry`, `e_phoff` and `e_shoff`: the low 32 bits of each in a 32-bit
    file. -/
def addrBytes (e : Endian) : Class → UInt64 × UInt64 × UInt64 → List UInt8
  | .ELF32, (a, b, c) =>
    toNe e a.toUInt32.toNat 4 ++ (toNe e b.toUInt32.toNat 4 ++ toNe e c.toUInt32.toNat 4)
  | .ELF64, (a, b, c) => toNe e a.toNat 8 ++ (toNe e b.toNat 8 ++ toNe e c.toNat 8)

/-- The bytes of the file header after `e_ident`. -/
def FileHeader.tailBytes (h : FileHeader) : List UInt8 :=
  let e := h.endianness
  toNe e h.eType.toNat 2 ++ (toNe e h.eMachine.toNat 2 ++ (toNe e h.version.toNat 4 ++
    (addrBytes e h.elfClass (h.eEntry, h.ePhoff, h.eShoff) ++ (toNe e h.eFlags.toNat 4 ++
    (toNe e h.eEhsize.toNat 2 ++ (toNe e h.ePhentsize.toNat 2 ++ (toNe e h.ePhnum.toNat 2 ++
    (toNe e h.eShentsize.toNat 2 ++ (toNe e h.eShnum.toNat 2 ++ toNe e h.eShstrndx.toNat 2)))))))))

/-- `e_ident` with the padding bytes `pad`. -/
def FileHeader.identBytes (h : FileHeader) (pad : List UInt8) : List UInt8 :=
  ELFMAGIC ++ [h.elfClass.byte, eiData h.endianness, EV_CURRENT, h.osabi, h.abiversion] ++ pad

/-- The file header with the padding bytes `pad`. -/
def FileHeader.toBytes (h : FileHeader) (pad : List UInt8) : List UInt8 :=
  h.identBytes pad ++ h.tailBytes

/-- A header a file of its class can hold: in a 32-bit file the addresses are 32-bit. -/
def FileHeader.Fits (h : FileHeader) : Prop :=
  h.elfClass = .ELF32 → h.eEntry.toNat < 2 ^ 32 ∧ h.ePhoff.toNat < 2 ^ 32 ∧ h.eShoff.toNat < 2 ^ 32

/-- A program header in the layout of its class: the low 32 bits of each field in a 32-bit
    file, `p_flags` second in a 64-bit one. -/
def ProgramHeader.toBytes (e : Endian) : Class → ProgramHeader → List UInt8
  | .ELF32, ph =>
    toNe e ph.pType.toNat 4 ++ (toNe e ph.pOffset.toUInt32.toNat 4 ++
      (toNe e ph.pVaddr.toUInt32.toNat 4 ++ (toNe e ph.pPaddr.toUInt32.toNat 4 ++
      (toNe e ph.pFilesz.toUInt32.toNat 4 ++ (toNe e ph.pMemsz.toUInt32.toNat 4 ++
      (toNe e ph.pFlags.toNat 4 ++ toNe e ph.pAlign.toUInt32.toNat 4))))))
  | .ELF64, ph =>
    toNe e ph.pType.toNat 4 ++ (toNe e ph.pFlags.toNat 4 ++ (toNe e ph.pOffset.toNat 8 ++
      (toNe e ph.pVaddr.toNat 8 ++ (toNe e ph.pPaddr.toNat 8 ++ (toNe e ph.pFilesz.toNat 8 ++
      (toNe e ph.pMemsz.toNat 8 ++ toNe e ph.pAlign.toNat 8))))))

/-- A program header a file of the class can hold. -/
def ProgramHeader.Fits (elfClass : Class) (ph : ProgramHeader) : Prop :=
  elfClass = .ELF32 → ph.pOffset.toNat < 2 ^ 32 ∧ ph.pVaddr.toNat < 2 ^ 32 ∧
    ph.pPaddr.toNat < 2 ^ 32 ∧ ph.pFilesz.toNat < 2 ^ 32 ∧ ph.pMemsz.toNat < 2 ^ 32 ∧
    ph.pAlign.toNat < 2 ^ 32

/-- The bytes of a segment table holding `phs`. -/
def encodeTable (e : Endian) (elfClass : Class) (phs : List ProgramHeader) : List UInt8 :=
  (phs.map (ProgramHeader.toBytes e elfClass)).flatten

/-! ## §2 Fields -/

section Fields

variable (e : Endian)

theorem decodes_safeFrom {k n : Nat} (hn : n < 256 ^ k) :
    Decodes (2 ^ 64) (safeFrom e k) n (toNe e n k) := by
  intro pre post hlen
  have hend : pre.length + k ≤ (pre ++ toNe e n k ++ post).length := by
    simp only [List.length_append, length_toNe]
    omega
  have hview : view (pre ++ toNe e n k ++ post) pre.length k = toNe e n k := by
    simpa using view_append_left pre (toNe e n k) post
  simp only [StateT.run, safeFrom, if_neg (show ¬2 ^ 64 ≤ pre.length + k by omega),
    getBytes_add_of_le _ hend, hview, ofNe_toNe e hn, length_toNe]

theorem decodes_parseU16At (v : UInt16) : Decodes (2 ^ 64) (parseU16At e) v (toNe e v.toNat 2) :=
  ((decodes_safeFrom e v.toNat_lt).map UInt16.ofNat).congr_value (UInt16.ofNat_toNat)

theorem decodes_parseU32At (v : UInt32) : Decodes (2 ^ 64) (parseU32At e) v (toNe e v.toNat 4) :=
  ((decodes_safeFrom e v.toNat_lt).map UInt32.ofNat).congr_value (UInt32.ofNat_toNat)

theorem decodes_parseU64At (v : UInt64) : Decodes (2 ^ 64) (parseU64At e) v (toNe e v.toNat 8) :=
  ((decodes_safeFrom e v.toNat_lt).map UInt64.ofNat).congr_value (UInt64.ofNat_toNat)

/-- A value that fits in 32 bits survives being narrowed and widened. -/
theorem toUInt64_toUInt32 {v : UInt64} (h : v.toNat < 2 ^ 32) : v.toUInt32.toUInt64 = v := by
  apply UInt64.toNat_inj.mp
  rw [UInt32.toNat_toUInt64, UInt64.toNat_toUInt32, Nat.mod_eq_of_lt h]

end Fields

/-! ## §3 Records -/

section Records

variable (e : Endian)

/-- A program header is read back from its bytes, in either class. -/
theorem decodes_parseAt (elfClass : Class) {ph : ProgramHeader} (hfit : ph.Fits elfClass) :
    Decodes (2 ^ 64) (ProgramHeader.parseAt e elfClass) ph (ph.toBytes e elfClass) := by
  cases elfClass with
  | ELF32 =>
    obtain ⟨h1, h2, h3, h4, h5, h6⟩ := hfit rfl
    refine Decodes.congr_value (Decodes.bind (decodes_parseU32At e ph.pType)
      (Decodes.bind (decodes_parseU32At e ph.pOffset.toUInt32)
      (Decodes.bind (decodes_parseU32At e ph.pVaddr.toUInt32)
      (Decodes.bind (decodes_parseU32At e ph.pPaddr.toUInt32)
      (Decodes.bind (decodes_parseU32At e ph.pFilesz.toUInt32)
      (Decodes.bind (decodes_parseU32At e ph.pMemsz.toUInt32)
      (Decodes.bind (decodes_parseU32At e ph.pFlags)
      (Decodes.bind_pure (decodes_parseU32At e ph.pAlign.toUInt32) _)))))))) ?_
    -- the widened fields are the header's own, each fitting in 32 bits
    simp only [toUInt64_toUInt32 h1, toUInt64_toUInt32 h2, toUInt64_toUInt32 h3,
      toUInt64_toUInt32 h4, toUInt64_toUInt32 h5, toUInt64_toUInt32 h6]
  | ELF64 =>
    exact Decodes.bind (decodes_parseU32At e ph.pType)
      (Decodes.bind (decodes_parseU32At e ph.pFlags)
      (Decodes.bind (decodes_parseU64At e ph.pOffset)
      (Decodes.bind (decodes_parseU64At e ph.pVaddr)
      (Decodes.bind (decodes_parseU64At e ph.pPaddr)
      (Decodes.bind (decodes_parseU64At e ph.pFilesz)
      (Decodes.bind (decodes_parseU64At e ph.pMemsz)
      (Decodes.bind_pure (decodes_parseU64At e ph.pAlign) _)))))))

theorem length_toBytes (elfClass : Class) (ph : ProgramHeader) :
    (ph.toBytes e elfClass).length = ProgramHeader.sizeFor elfClass := by
  cases elfClass <;> simp [ProgramHeader.toBytes, ProgramHeader.sizeFor]

/-- The address fields are read back from their bytes. -/
theorem decodes_readAddrs (elfClass : Class) {a b c : UInt64}
    (hfit : elfClass = .ELF32 → a.toNat < 2 ^ 32 ∧ b.toNat < 2 ^ 32 ∧ c.toNat < 2 ^ 32) :
    Decodes (2 ^ 64) (readAddrs e elfClass) (a, b, c) (addrBytes e elfClass (a, b, c)) := by
  cases elfClass with
  | ELF32 =>
    obtain ⟨ha, hb, hc⟩ := hfit rfl
    refine Decodes.congr_value (Decodes.bind (decodes_parseU32At e a.toUInt32)
      (Decodes.bind (decodes_parseU32At e b.toUInt32)
      (Decodes.bind_pure (decodes_parseU32At e c.toUInt32) _))) ?_
    simp only [toUInt64_toUInt32 ha, toUInt64_toUInt32 hb, toUInt64_toUInt32 hc]
  | ELF64 =>
    exact Decodes.bind (decodes_parseU64At e a) (Decodes.bind (decodes_parseU64At e b)
      (Decodes.bind_pure (decodes_parseU64At e c) _))

/-- The tail of a file header is read back from its bytes. -/
theorem decodes_readTail {h : FileHeader} (hfit : h.Fits) :
    Decodes (2 ^ 64) (readTail h.endianness h.elfClass h.osabi h.abiversion) h h.tailBytes := by
  obtain ⟨c, e, version, osabi, abiversion, eType, eMachine, eEntry, ePhoff, eShoff, eFlags,
    eEhsize, ePhentsize, ePhnum, eShentsize, eShnum, eShstrndx⟩ := h
  exact Decodes.bind (decodes_parseU16At e eType) (Decodes.bind (decodes_parseU16At e eMachine)
    (Decodes.bind (decodes_parseU32At e version) (Decodes.bind (decodes_readAddrs e c hfit)
    (Decodes.bind (decodes_parseU32At e eFlags) (Decodes.bind (decodes_parseU16At e eEhsize)
    (Decodes.bind (decodes_parseU16At e ePhentsize) (Decodes.bind (decodes_parseU16At e ePhnum)
    (Decodes.bind (decodes_parseU16At e eShentsize) (Decodes.bind (decodes_parseU16At e eShnum)
    (Decodes.bind_pure (decodes_parseU16At e eShstrndx) _))))))))))

end Records

/-! ## §4 Tables and files -/

section Table

variable (e : Endian) (elfClass : Class) {phs : List ProgramHeader}

/-- Every entry of an encoded table has the size of the class. -/
theorem length_of_mem_map_toBytes :
    ∀ x ∈ phs.map (ProgramHeader.toBytes e elfClass), x.length = ProgramHeader.sizeFor elfClass := by
  intro x hx
  obtain ⟨ph, -, rfl⟩ := List.mem_map.mp hx
  exact length_toBytes e elfClass ph

theorem length_encodeTable :
    (encodeTable e elfClass phs).length = phs.length * ProgramHeader.sizeFor elfClass := by
  rw [encodeTable, length_flatten_of_length (length_of_mem_map_toBytes e elfClass),
    List.length_map]

/-- The `i`-th entry of an encoded table holds the bytes of the `i`-th header. -/
theorem view_encodeTable {i : Nat} (hi : i < phs.length) :
    view (encodeTable e elfClass phs) (i * ProgramHeader.sizeFor elfClass)
      (ProgramHeader.sizeFor elfClass) = phs[i].toBytes e elfClass := by
  rw [encodeTable, view_flatten (length_of_mem_map_toBytes e elfClass) (by simpa using hi),
    List.getElem_map]

/-- The iterator over an encoded table yields exactly the headers encoded in it. -/
theorem collect_encodeTable (hfit : ∀ ph ∈ phs, ph.Fits elfClass)
    (hcap : (encodeTable e elfClass phs).length < 2 ^ 64) :
    (SegmentTable.mk e elfClass (encodeTable e elfClass phs)).iter.collect = phs := by
  have hlen : (encodeTable e elfClass phs).length = phs.length * _ := length_encodeTable e elfClass
  have hsize := sizeFor_pos elfClass
  by_cases hnil : encodeTable e elfClass phs = []
  · -- an empty table holds no headers
    rw [SegmentTable.collect_iter_of_nil _ hnil]
    rw [hnil, List.length_nil] at hlen
    exact (List.eq_nil_of_length_eq_zero ((Nat.mul_eq_zero.mp hlen.symm).resolve_right
      (Nat.pos_iff_ne_zero.mp hsize))).symm
  · apply List.ext_getElem?
    intro i
    rw [SegmentTable.getElem?_iter_collect _ hnil hcap]
    rcases Nat.lt_or_ge i phs.length with hi | hi
    · -- entry `i` is the encoding of the `i`-th header
      have hview : view (encodeTable e elfClass phs) (i * ProgramHeader.sizeFor elfClass)
          (phs[i].toBytes e elfClass).length = phs[i].toBytes e elfClass := by
        rw [length_toBytes]
        exact view_encodeTable e elfClass hi
      have hend : i * ProgramHeader.sizeFor elfClass + (phs[i].toBytes e elfClass).length ≤
          (encodeTable e elfClass phs).length := by
        rw [length_toBytes, hlen, ← Nat.succ_mul]
        exact Nat.mul_le_mul_right _ hi
      rw [parseOpt_of_run ((decodes_parseAt e elfClass (hfit _ (List.getElem_mem hi))).run_of_view
        hview hend hcap), List.getElem?_eq_getElem hi]
    · rw [List.getElem?_eq_none hi]
      apply parseOpt_eq_none hcap
      rw [hlen]
      calc phs.length * ProgramHeader.sizeFor elfClass ≤ i * ProgramHeader.sizeFor elfClass :=
            Nat.mul_le_mul_right _ hi
        _ < i * ProgramHeader.sizeFor elfClass + ProgramHeader.sizeFor elfClass :=
            Nat.lt_add_of_pos_right hsize

end Table

section Header

variable (h : FileHeader) {pad : List UInt8}

theorem length_identBytes (hpad : pad.length = 7) : (h.identBytes pad).length = EI_NIDENT := by
  simp [FileHeader.identBytes, ELFMAGIC, hpad, EI_NIDENT]

theorem length_tailBytes : EI_NIDENT + h.tailBytes.length = tailEnd h.elfClass := by
  cases hc : h.elfClass <;>
    simp [FileHeader.tailBytes, addrBytes, hc, tailEnd, EI_NIDENT, ELF32_EHDR_TAILSIZE,
      ELF64_EHDR_TAILSIZE]

/-- `e_ident` is read back: the magic number and version pass, and the class and byte order
    are the ones written. -/
theorem parseIdent_identBytes (pad : List UInt8) :
    parseIdent (h.identBytes pad) = .ok (h.endianness, h.elfClass, h.osabi, h.abiversion) := by
  cases hc : h.elfClass <;> cases he : h.endianness <;>
    simp [parseIdent, verifyIdent, FileHeader.identBytes, hc, he, ELFMAGIC, Class.byte, eiData,
      fromEiData, EI_CLASS, EI_DATA, EI_VERSION, EI_OSABI, EI_ABIVERSION, ELFCLASS32, ELFCLASS64,
      ELFDATA2LSB, ELFDATA2MSB, EV_CURRENT] <;> rfl

/-- The tail is read back from its bytes. -/
theorem parseTail_tailBytes (hfit : h.Fits) :
    FileHeader.parseTail (h.endianness, h.elfClass, h.osabi, h.abiversion) h.tailBytes = .ok h := by
  have hrun := (decodes_readTail hfit).run_zero [] (by
    rw [List.append_nil, ← Nat.add_lt_add_iff_left (k := EI_NIDENT), length_tailBytes]
    cases h.elfClass <;> decide)
  rw [List.append_nil] at hrun
  rw [FileHeader.parseTail, StateT.run'_eq]
  exact congrArg (Prod.fst <$> ·) hrun

/-- A file that starts with an encoded header parses to it, whatever its padding and whatever
    follows the header. -/
theorem parseElfHeader_toBytes (hfit : h.Fits) (hpad : pad.length = 7) (rest : List UInt8) :
    parseElfHeader (h.toBytes pad ++ rest) = .ok h := by
  have hident := length_identBytes h hpad
  have htail := length_tailBytes h
  have hdata : h.toBytes pad ++ rest = h.identBytes pad ++ h.tailBytes ++ rest := rfl
  have hlen : (h.toBytes pad ++ rest).length = EI_NIDENT + h.tailBytes.length + rest.length := by
    simp [hdata, hident, Nat.add_assoc]
  -- `e_ident` is the first sixteen bytes, and the tail the bytes after it
  have hidentBuf : getBytes (h.toBytes pad ++ rest) 0 EI_NIDENT = .ok (h.identBytes pad) := by
    rw [getBytes_of_le _ (Nat.zero_le _) (by omega), Nat.sub_zero, hdata, view_zero, ← hident,
      List.append_assoc, List.take_left]
  have htailBuf : getBytes (h.toBytes pad ++ rest) EI_NIDENT (tailEnd h.elfClass) =
      .ok h.tailBytes := by
    rw [getBytes_of_le _ (by omega) (by omega), ← htail, Nat.add_sub_cancel_left, hdata, ← hident,
      view_append_left]
  simp only [parseElfHeader, hidentBuf, parseIdent_identBytes, htailBuf, bind, Except.bind,
    parseTail_tailBytes h hfit]

end Header

/-! ## §5 What is accepted -/

section Accepted

variable (e : Endian) {data : List UInt8}

theorem safeFrom_eq_ok {k off off' n : Nat} (h : (safeFrom e k data).run off = .ok (n, off')) :
    off' = off + k ∧ off + k ≤ data.length ∧ n = ofNe e (view data off k) := by
  simp only [StateT.run, safeFrom] at h
  split_ifs at h
  rcases Nat.lt_or_ge data.length (off + k) with hlt | hle
  · rw [getBytes_add_of_lt data hlt] at h
    cases h
  · rw [getBytes_add_of_le data hle] at h
    cases h
    exact ⟨rfl, hle, rfl⟩

/-- A fixed-width read consumes the bytes of the value it returns: every `k` bytes are the
    encoding of the number they stand for. -/
theorem consumes_ofNat {β : Type} {k : Nat} (g : Nat → β) (toN : β → Nat)
    (hg : ∀ n, n < 256 ^ k → toN (g n) = n) :
    Consumes (fun d => g <$> safeFrom e k d) (fun v => toNe e (toN v) k) := by
  intro data off v off' h
  rw [StateT.run_map] at h
  rcases hs : (safeFrom e k data).run off with err | ⟨n, o⟩
  · rw [hs] at h
    cases h
  · rw [hs] at h
    cases h
    obtain ⟨rfl, hle, rfl⟩ := safeFrom_eq_ok e hs
    have hwin := length_view hle
    have hlt : ofNe e (view data off k) < 256 ^ k := by
      have := ofNe_lt e (view data off k)
      rwa [hwin] at this
    have hbytes : toNe e (ofNe e (view data off k)) k = view data off k := by
      conv_rhs => rw [← toNe_ofNe e (view data off k)]
      rw [hwin]
    dsimp only
    rw [hg _ hlt, length_toNe, hbytes]
    exact ⟨rfl, rfl⟩

theorem consumes_parseU16At : Consumes (parseU16At e) (fun v => toNe e v.toNat 2) :=
  consumes_ofNat e UInt16.ofNat UInt16.toNat fun _ hn => UInt16.toNat_ofNat_of_lt' hn

theorem consumes_parseU32At : Consumes (parseU32At e) (fun v => toNe e v.toNat 4) :=
  consumes_ofNat e UInt32.ofNat UInt32.toNat fun _ hn => UInt32.toNat_ofNat_of_lt' hn

theorem consumes_parseU64At : Consumes (parseU64At e) (fun v => toNe e v.toNat 8) :=
  consumes_ofNat e UInt64.ofNat UInt64.toNat fun _ hn => UInt64.toNat_ofNat_of_lt' hn

/-- A widened `u32` fits in 32 bits. -/
theorem toNat_toUInt64_lt (x : UInt32) : x.toUInt64.toNat < 2 ^ 32 := by
  rw [UInt32.toNat_toUInt64]
  exact x.toNat_lt

/-- The address fields a success reads are the bytes it consumed; in a 32-bit file they fit in
    32 bits. -/
theorem readAddrs_eq_ok {elfClass : Class} {off off' : Nat} {a : UInt64 × UInt64 × UInt64}
    (h : (readAddrs e elfClass data).run off = .ok (a, off')) :
    off' = off + (addrBytes e elfClass a).length ∧
      view data off (addrBytes e elfClass a).length = addrBytes e elfClass a ∧
      (elfClass = .ELF32 → a.1.toNat < 2 ^ 32 ∧ a.2.1.toNat < 2 ^ 32 ∧ a.2.2.toNat < 2 ^ 32) := by
  cases elfClass with
  | ELF32 =>
    simp only [readAddrs, run_bind_eq_ok] at h
    obtain ⟨x, o₁, h₁, y, o₂, h₂, z, o₃, h₃, hpure⟩ := h
    cases hpure
    obtain ⟨rfl, v₁⟩ := consumes_parseU32At e _ _ _ _ h₁
    obtain ⟨rfl, v₂⟩ := consumes_parseU32At e _ _ _ _ h₂
    obtain ⟨rfl, v₃⟩ := consumes_parseU32At e _ _ _ _ h₃
    -- a widened `u32` narrows back to itself
    have hx : x.toUInt64.toUInt32 = x := UInt32.toUInt32_toUInt64 x
    have hy : y.toUInt64.toUInt32 = y := UInt32.toUInt32_toUInt64 y
    have hz : z.toUInt64.toUInt32 = z := UInt32.toUInt32_toUInt64 z
    simp only [addrBytes, hx, hy, hz]
    exact ⟨by simp [Nat.add_assoc], view_append_of_view v₁ (view_append_of_view v₂ v₃),
      fun _ => ⟨toNat_toUInt64_lt x, toNat_toUInt64_lt y, toNat_toUInt64_lt z⟩⟩
  | ELF64 =>
    simp only [readAddrs, run_bind_eq_ok] at h
    obtain ⟨x, o₁, h₁, y, o₂, h₂, z, o₃, h₃, hpure⟩ := h
    cases hpure
    obtain ⟨rfl, v₁⟩ := consumes_parseU64At e _ _ _ _ h₁
    obtain ⟨rfl, v₂⟩ := consumes_parseU64At e _ _ _ _ h₂
    obtain ⟨rfl, v₃⟩ := consumes_parseU64At e _ _ _ _ h₃
    exact ⟨by simp [addrBytes, Nat.add_assoc], view_append_of_view v₁ (view_append_of_view v₂ v₃),
      fun h => nomatch h⟩

/-- A successful read of the tail returns a header of the class, byte order and ident bytes it
    was given, one that fits its class, and the bytes it consumed are that header's tail. -/
theorem readTail_eq_ok {elfClass : Class} {osabi abiversion : UInt8} {off off' : Nat}
    {h : FileHeader} (hrun : (readTail e elfClass osabi abiversion data).run off = .ok (h, off')) :
    h.elfClass = elfClass ∧ h.endianness = e ∧ h.osabi = osabi ∧ h.abiversion = abiversion ∧
      h.Fits ∧ view data off h.tailBytes.length = h.tailBytes := by
  simp only [readTail, run_bind_eq_ok] at hrun
  obtain ⟨eType, o₁, h₁, eMachine, o₂, h₂, version, o₃, h₃, addrs, o₄, h₄, eFlags, o₅, h₅,
    eEhsize, o₆, h₆, ePhentsize, o₇, h₇, ePhnum, o₈, h₈, eShentsize, o₉, h₉, eShnum, o₁₀, h₁₀,
    eShstrndx, o₁₁, h₁₁, hpure⟩ := hrun
  cases hpure
  -- each field consumed its own bytes, where the one before it ended
  obtain ⟨rfl, v₁⟩ := consumes_parseU16At e _ _ _ _ h₁
  obtain ⟨rfl, v₂⟩ := consumes_parseU16At e _ _ _ _ h₂
  obtain ⟨rfl, v₃⟩ := consumes_parseU32At e _ _ _ _ h₃
  obtain ⟨rfl, v₄, hfit⟩ := readAddrs_eq_ok e h₄
  obtain ⟨rfl, v₅⟩ := consumes_parseU32At e _ _ _ _ h₅
  obtain ⟨rfl, v₆⟩ := consumes_parseU16At e _ _ _ _ h₆
  obtain ⟨rfl, v₇⟩ := consumes_parseU16At e _ _ _ _ h₇
  obtain ⟨rfl, v₈⟩ := consumes_parseU16At e _ _ _ _ h₈
  obtain ⟨rfl, v₉⟩ := consumes_parseU16At e _ _ _ _ h₉
  obtain ⟨rfl, v₁₀⟩ := consumes_parseU16At e _ _ _ _ h₁₀
  obtain ⟨-, v₁₁⟩ := consumes_parseU16At e _ _ _ _ h₁₁
  exact ⟨rfl, rfl, rfl, rfl, hfit, view_append_of_view v₁ (view_append_of_view v₂
    (view_append_of_view v₃ (view_append_of_view v₄ (view_append_of_view v₅
    (view_append_of_view v₆ (view_append_of_view v₇ (view_append_of_view v₈
    (view_append_of_view v₉ (view_append_of_view v₁₀ v₁₁)))))))))⟩

/-- A successful `parse_ident` read the magic number, `EV_CURRENT`, and the class and byte
    order it returns: its nine bytes are those of the ident it returns. -/
theorem parseIdent_eq_ok {buf : List UInt8} (hlen : 9 ≤ buf.length) {c : Class} {o ab : UInt8}
    (h : parseIdent buf = .ok (e, c, o, ab)) :
    buf = ELFMAGIC ++ [c.byte, eiData e, EV_CURRENT, o, ab] ++ buf.drop 9 := by
  rcases buf with _ | ⟨b0, _ | ⟨b1, _ | ⟨b2, _ | ⟨b3, _ | ⟨b4, _ | ⟨b5, _ | ⟨b6, _ | ⟨b7, _ | ⟨b8, pad⟩⟩⟩⟩⟩⟩⟩⟩⟩
  all_goals try (simp at hlen; done)
  simp only [parseIdent, verifyIdent, fromEiData, ELFMAGIC, EI_CLASS, EI_DATA, EI_VERSION, EI_OSABI,
    EI_ABIVERSION, ELFCLASS32, ELFCLASS64, ELFDATA2LSB, ELFDATA2MSB, EV_CURRENT, List.take,
    List.getD_cons_succ, List.getD_cons_zero] at h
  -- the four ways through: a class byte of `1` or `2`, and a data byte of `1` or `2`
  split_ifs at h with hmagic <;> simp [bind, Except.bind, pure, Except.pure] at h
  all_goals
    obtain ⟨rfl, rfl, rfl, rfl⟩ := h
    simp only [ne_eq, not_not, List.cons.injEq, and_true] at *
    obtain ⟨rfl, rfl, rfl, rfl⟩ := hmagic
    subst_vars
    rfl

end Accepted

/-- `parse_elf_header` accepts exactly the files that start with an encoded header: one that
    fits its class, with any padding in `e_ident`, followed by anything. -/
theorem parseElfHeader_eq_ok_iff {data : List UInt8} {h : FileHeader} :
    parseElfHeader data = .ok h ↔
      h.Fits ∧ ∃ pad rest, pad.length = 7 ∧ data = h.toBytes pad ++ rest := by
  constructor
  · intro hp
    simp only [parseElfHeader, bind_eq_ok_iff] at hp
    obtain ⟨identBuf, hib, ⟨e, c, o, ab⟩, hid, tailBuf, htb, hpt⟩ := hp
    obtain ⟨-, hlen16, rfl⟩ := getBytes_eq_ok data hib
    obtain ⟨-, hend, rfl⟩ := getBytes_eq_ok data htb
    rw [Nat.sub_zero] at hid
    dsimp only at hend
    have hidlen : (view data 0 EI_NIDENT).length = 16 := length_view hlen16
    -- the tail parsed to `h` from offset `0`
    rw [FileHeader.parseTail, StateT.run'_eq] at hpt
    rcases hrun : (readTail e c o ab (view data EI_NIDENT (tailEnd c - EI_NIDENT))).run 0 with
      err | ⟨h', off'⟩
    · rw [hrun] at hpt
      cases hpt
    rw [hrun] at hpt
    have hh : h = h' := by
      cases hpt
      rfl
    subst hh
    obtain ⟨rfl, rfl, rfl, rfl, hfit, htail⟩ := readTail_eq_ok _ hrun
    refine ⟨hfit, (view data 0 EI_NIDENT).drop 9, data.drop (tailEnd h.elfClass),
      by simp [hidlen], ?_⟩
    -- the ident bytes, then the tail, then the rest
    have hident := parseIdent_eq_ok _ (by omega) hid
    have htailLen := length_tailBytes h
    have hwin : view data EI_NIDENT (tailEnd h.elfClass - EI_NIDENT) = h.tailBytes := by
      rw [← htail, ← htailLen, Nat.add_sub_cancel_left, view_zero,
        List.take_of_length_le (by rw [length_view (by omega)])]
    conv_lhs => rw [← take_append_view_append_drop data EI_NIDENT (tailEnd h.elfClass - EI_NIDENT)]
    rw [hwin, Nat.add_sub_cancel' (by rw [← htailLen]; omega), FileHeader.toBytes,
      FileHeader.identBytes, ← hident, view_zero]
  · rintro ⟨hfit, pad, rest, hpad, rfl⟩
    exact parseElfHeader_toBytes h hfit hpad rest

end ArceOS.Elf
