import ArceOS.Lib.ByteOrder
import ArceOS.Lib.Cursor

/-!
# Parsing ELF Headers

The part of the `elf` crate (`modules/elf`) that the loaders of the tour and the exercises
run: `ElfBytes::parse_elf_header` reads the sixteen bytes of `e_ident` and the tail of the
file header after them, and a `SegmentTable` parses program headers out of the bytes of the
table, one after another (`iter`) or at an index (`get`).

Every field is read by `safe_from!` (`endian.rs`): the cursor is a `usize` moved past the
field with `checked_add`, and the field's bytes are `data.get(offset..end)`, a
`SliceReadError` when they are not all there. The byte order is the file's, `AnyEndian`,
which is the library's `Endian`. A read is a computation of `StateT Nat (Except
ParseError)`, the state being the cursor, so the record parsers are the `?`-chains of the
source as `do` blocks.

## Main results

- `advances_parseAt`, `succeeds_parseAt`: a program header is read exactly where
  `size_for(class)` bytes are left, and moves the cursor by that many;
- `length_collect`, `getElem?_collect`: the iterator yields `len()` headers, and its `i`-th
  is what `get(i)` returns; `get` fails exactly at the indices past the table.
-/

namespace ArceOS.Elf

open ArceOS.Lib.ByteOrder ArceOS.Lib.Cursor

/-! ## §1 Errors and reads -/

/-- `elf::parse::ParseError`, the variants the modelled parsers return. -/
inductive ParseError where
  | badMagic (magic : List UInt8)
  | unsupportedElfClass (c : UInt8)
  | unsupportedElfEndianness (d : UInt8)
  | unsupportedVersion (found expected : Nat)
  | badOffset (off : Nat)
  | badEntsize (found expected : Nat)
  | sliceReadError (start stop : Nat)
  | integerOverflow
  deriving Repr

/-- `data.get_bytes(start..stop)`: the bytes, or a `SliceReadError` naming the range. -/
def getBytes (data : List UInt8) (start stop : Nat) : Except ParseError (List UInt8) :=
  match getRange data start stop with
  | some buf => .ok buf
  | none => .error (.sliceReadError start stop)

/-- `safe_from!` for a type of `size` bytes: `data[offset..offset + size]` in the byte order
    `endian`, the cursor moved past it. -/
def safeFrom (endian : Endian) (size : Nat) (data : List UInt8) : StateT Nat (Except ParseError) Nat :=
  fun offset =>
    -- `offset.checked_add(SIZE)` on a 64-bit `usize`
    if 2 ^ 64 ≤ offset + size then .error .integerOverflow
    else match getBytes data offset (offset + size) with
      | .ok buf => .ok (ofNe endian buf, offset + size)
      | .error e => .error e

/-- `EndianParse::parse_u16_at`. -/
def parseU16At (endian : Endian) (data : List UInt8) : StateT Nat (Except ParseError) UInt16 :=
  UInt16.ofNat <$> safeFrom endian 2 data

/-- `EndianParse::parse_u32_at`. -/
def parseU32At (endian : Endian) (data : List UInt8) : StateT Nat (Except ParseError) UInt32 :=
  UInt32.ofNat <$> safeFrom endian 4 data

/-- `EndianParse::parse_u64_at`. -/
def parseU64At (endian : Endian) (data : List UInt8) : StateT Nat (Except ParseError) UInt64 :=
  UInt64.ofNat <$> safeFrom endian 8 data

/-! ## §2 The file header -/

/-- `EI_CLASS`, `EI_DATA`, `EI_VERSION`, `EI_OSABI`, `EI_ABIVERSION` and `EI_NIDENT`:
    positions in `e_ident`, and its size. -/
def EI_CLASS : Nat := 4
def EI_DATA : Nat := 5
def EI_VERSION : Nat := 6
def EI_OSABI : Nat := 7
def EI_ABIVERSION : Nat := 8
def EI_NIDENT : Nat := 16

/-- `ELFMAGIC`: `0x7f 'E' 'L' 'F'`. -/
def ELFMAGIC : List UInt8 := [0x7f, 0x45, 0x4c, 0x46]

def ELFCLASS32 : UInt8 := 1
def ELFCLASS64 : UInt8 := 2
def ELFDATA2LSB : UInt8 := 1
def ELFDATA2MSB : UInt8 := 2
def EV_CURRENT : UInt8 := 1

/-- The sizes of the file header after `e_ident`. -/
def ELF32_EHDR_TAILSIZE : Nat := 36
def ELF64_EHDR_TAILSIZE : Nat := 48

/-- `elf::file::Class`. -/
inductive Class where
  | ELF32
  | ELF64
  deriving DecidableEq, Repr

/-- `AnyEndian::from_ei_data`. -/
def fromEiData (eiData : UInt8) : Except ParseError Endian :=
  if eiData = ELFDATA2LSB then .ok .little
  else if eiData = ELFDATA2MSB then .ok .big
  else .error (.unsupportedElfEndianness eiData)

/-- `verify_ident`: the magic number and `EI_VERSION`. The callers pass the sixteen bytes of
    `e_ident`, so the indexing of the source does not panic. -/
def verifyIdent (buf : List UInt8) : Except ParseError Unit :=
  let magic := buf.take EI_CLASS
  if magic ≠ ELFMAGIC then .error (.badMagic magic)
  else
    let version := buf.getD EI_VERSION 0
    if version ≠ EV_CURRENT then .error (.unsupportedVersion version.toNat EV_CURRENT.toNat)
    else .ok ()

/-- `parse_ident`: the byte order, the class, `EI_OSABI` and `EI_ABIVERSION`. -/
def parseIdent (data : List UInt8) : Except ParseError (Endian × Class × UInt8 × UInt8) := do
  verifyIdent data
  let eClass := data.getD EI_CLASS 0
  let elfClass ← (if eClass = ELFCLASS32 then .ok .ELF32
    else if eClass = ELFCLASS64 then .ok .ELF64
    else .error (.unsupportedElfClass eClass) : Except ParseError Class)
  let fileEndian ← fromEiData (data.getD EI_DATA 0)
  return (fileEndian, elfClass, data.getD EI_OSABI 0, data.getD EI_ABIVERSION 0)

/-- `elf::file::FileHeader<AnyEndian>`. Its `class` is `elfClass`. -/
structure FileHeader where
  elfClass : Class
  endianness : Endian
  version : UInt32
  osabi : UInt8
  abiversion : UInt8
  eType : UInt16
  eMachine : UInt16
  eEntry : UInt64
  ePhoff : UInt64
  eShoff : UInt64
  eFlags : UInt32
  eEhsize : UInt16
  ePhentsize : UInt16
  ePhnum : UInt16
  eShentsize : UInt16
  eShnum : UInt16
  eShstrndx : UInt16
  deriving Repr

/-- The `if class == Class::ELF32 { .. } else { .. }` block of `parse_tail`: `e_entry`,
    `e_phoff` and `e_shoff`, `u32`s widened to `u64` in a 32-bit file. -/
def readAddrs (fileEndian : Endian) (elfClass : Class) (data : List UInt8) :
    StateT Nat (Except ParseError) (UInt64 × UInt64 × UInt64) :=
  match elfClass with
  | .ELF32 => do
    let eEntry ← parseU32At fileEndian data
    let ePhoff ← parseU32At fileEndian data
    let eShoff ← parseU32At fileEndian data
    return (eEntry.toUInt64, ePhoff.toUInt64, eShoff.toUInt64)
  | .ELF64 => do
    let eEntry ← parseU64At fileEndian data
    let ePhoff ← parseU64At fileEndian data
    let eShoff ← parseU64At fileEndian data
    return (eEntry, ePhoff, eShoff)

/-- The reads of `FileHeader::parse_tail`, field after field. -/
def readTail (fileEndian : Endian) (elfClass : Class) (osabi abiversion : UInt8)
    (data : List UInt8) : StateT Nat (Except ParseError) FileHeader := do
  let eType ← parseU16At fileEndian data
  let eMachine ← parseU16At fileEndian data
  let version ← parseU32At fileEndian data
  let addrs ← readAddrs fileEndian elfClass data
  let eFlags ← parseU32At fileEndian data
  let eEhsize ← parseU16At fileEndian data
  let ePhentsize ← parseU16At fileEndian data
  let ePhnum ← parseU16At fileEndian data
  let eShentsize ← parseU16At fileEndian data
  let eShnum ← parseU16At fileEndian data
  let eShstrndx ← parseU16At fileEndian data
  return ⟨elfClass, fileEndian, version, osabi, abiversion, eType, eMachine, addrs.1, addrs.2.1,
    addrs.2.2, eFlags, eEhsize, ePhentsize, ePhnum, eShentsize, eShnum, eShstrndx⟩

/-- `FileHeader::parse_tail`: the tail read from `offset = 0`. -/
def FileHeader.parseTail (ident : Endian × Class × UInt8 × UInt8) (data : List UInt8) :
    Except ParseError FileHeader :=
  (readTail ident.1 ident.2.1 ident.2.2.1 ident.2.2.2 data).run' 0

/-- The end of the file header of a class. -/
def tailEnd : Class → Nat
  | .ELF32 => EI_NIDENT + ELF32_EHDR_TAILSIZE
  | .ELF64 => EI_NIDENT + ELF64_EHDR_TAILSIZE

/-- `ElfBytes::parse_elf_header`. -/
def parseElfHeader (data : List UInt8) : Except ParseError FileHeader := do
  let identBuf ← getBytes data 0 EI_NIDENT
  let ident ← parseIdent identBuf
  let tailBuf ← getBytes data EI_NIDENT (tailEnd ident.2.1)
  FileHeader.parseTail ident tailBuf

/-! ## §3 Program headers -/

/-- `elf::segment::ProgramHeader`. -/
structure ProgramHeader where
  pType : UInt32
  pOffset : UInt64
  pVaddr : UInt64
  pPaddr : UInt64
  pFilesz : UInt64
  pMemsz : UInt64
  pFlags : UInt32
  pAlign : UInt64
  deriving Repr

/-- `ProgramHeader::parse_at`: the 32-bit layout, or the 64-bit one with `p_flags` second. -/
def ProgramHeader.parseAt (endian : Endian) (elfClass : Class) (data : List UInt8) :
    StateT Nat (Except ParseError) ProgramHeader :=
  match elfClass with
  | .ELF32 => do
    let pType ← parseU32At endian data
    let pOffset ← parseU32At endian data
    let pVaddr ← parseU32At endian data
    let pPaddr ← parseU32At endian data
    let pFilesz ← parseU32At endian data
    let pMemsz ← parseU32At endian data
    let pFlags ← parseU32At endian data
    let pAlign ← parseU32At endian data
    return ⟨pType, pOffset.toUInt64, pVaddr.toUInt64, pPaddr.toUInt64, pFilesz.toUInt64,
      pMemsz.toUInt64, pFlags, pAlign.toUInt64⟩
  | .ELF64 => do
    let pType ← parseU32At endian data
    let pFlags ← parseU32At endian data
    let pOffset ← parseU64At endian data
    let pVaddr ← parseU64At endian data
    let pPaddr ← parseU64At endian data
    let pFilesz ← parseU64At endian data
    let pMemsz ← parseU64At endian data
    let pAlign ← parseU64At endian data
    return ⟨pType, pOffset, pVaddr, pPaddr, pFilesz, pMemsz, pFlags, pAlign⟩

/-- `ProgramHeader::size_for`. -/
def ProgramHeader.sizeFor : Class → Nat
  | .ELF32 => 32
  | .ELF64 => 56

/-- `ParseAt::validate_entsize` for program headers. -/
def ProgramHeader.validateEntsize (elfClass : Class) (entsize : Nat) : Except ParseError Nat :=
  let expected := ProgramHeader.sizeFor elfClass
  if entsize = expected then .ok entsize else .error (.badEntsize entsize expected)

/-- `SegmentTable`, the `ParsingTable` of program headers over the bytes of the table. -/
structure SegmentTable where
  endian : Endian
  elfClass : Class
  data : List UInt8

/-- `ParsingIterator` over a segment table. -/
structure ParsingIterator where
  endian : Endian
  elfClass : Class
  data : List UInt8
  offset : Nat

namespace SegmentTable

/-- `ParsingTable::iter`: from `offset = 0`. -/
def iter (t : SegmentTable) : ParsingIterator := ⟨t.endian, t.elfClass, t.data, 0⟩

/-- `ParsingTable::len`. -/
def len (t : SegmentTable) : Nat := t.data.length / ProgramHeader.sizeFor t.elfClass

/-- `ParsingTable::get`. -/
def get (t : SegmentTable) (index : Nat) : Except ParseError ProgramHeader :=
  if t.data.isEmpty then .error (.badOffset index)
  else
    let entsize := ProgramHeader.sizeFor t.elfClass
    -- `index.checked_mul(entsize)` on a 64-bit `usize`
    if 2 ^ 64 ≤ index * entsize then .error .integerOverflow
    else if t.data.length < index * entsize then .error (.badOffset index)
    else (ProgramHeader.parseAt t.endian t.elfClass t.data).run' (index * entsize)

end SegmentTable

/-! ## §4 Reads of a fixed width -/

section Width

variable (endian : Endian) (data : List UInt8)

theorem getBytes_add_of_le {off k : Nat} (h : off + k ≤ data.length) :
    getBytes data off (off + k) = .ok (view data off k) := by
  rw [getBytes, getRange_add_of_le h]

theorem getBytes_of_le {start stop : Nat} (h : start ≤ stop) (h' : stop ≤ data.length) :
    getBytes data start stop = .ok (view data start (stop - start)) := by
  rw [getBytes, getRange, if_pos ⟨h, h'⟩]

theorem getBytes_eq_ok {start stop : Nat} {buf : List UInt8} (h : getBytes data start stop = .ok buf) :
    start ≤ stop ∧ stop ≤ data.length ∧ buf = view data start (stop - start) := by
  unfold getBytes getRange at h
  split_ifs at h with hr
  cases h
  exact ⟨hr.1, hr.2, rfl⟩

theorem getBytes_add_of_lt {off k : Nat} (h : data.length < off + k) :
    getBytes data off (off + k) = .error (.sliceReadError off (off + k)) := by
  rw [getBytes, getRange_add_of_lt h]

theorem advances_safeFrom (k : Nat) : Advances (safeFrom endian k data) k data.length := by
  intro off v off' h
  simp only [StateT.run, safeFrom] at h
  split_ifs at h
  rcases Nat.lt_or_ge data.length (off + k) with hlt | hle
  · rw [getBytes_add_of_lt data hlt] at h
    cases h
  · rw [getBytes_add_of_le data hle] at h
    cases h
    exact ⟨rfl, fun _ => hle⟩

theorem succeeds_safeFrom (k : Nat) (hcap : data.length < 2 ^ 64) :
    Succeeds (safeFrom endian k data) k data.length := by
  intro off h
  refine ⟨ofNe endian (view data off k), ?_⟩
  simp only [StateT.run, safeFrom, if_neg (show ¬2 ^ 64 ≤ off + k by omega),
    getBytes_add_of_le data h]

theorem advances_parseU16At : Advances (parseU16At endian data) 2 data.length :=
  (advances_safeFrom endian data 2).map _

theorem advances_parseU32At : Advances (parseU32At endian data) 4 data.length :=
  (advances_safeFrom endian data 4).map _

theorem advances_parseU64At : Advances (parseU64At endian data) 8 data.length :=
  (advances_safeFrom endian data 8).map _

variable {data} (hcap : data.length < 2 ^ 64)
include hcap

theorem succeeds_parseU32At : Succeeds (parseU32At endian data) 4 data.length :=
  (succeeds_safeFrom endian data 4 hcap).map _

theorem succeeds_parseU64At : Succeeds (parseU64At endian data) 8 data.length :=
  (succeeds_safeFrom endian data 8 hcap).map _

end Width

section ParseAt

variable (endian : Endian) (data : List UInt8)

/-- A program header parse moves the cursor by `size_for(class)`, within the table. -/
theorem advances_parseAt (elfClass : Class) :
    Advances (ProgramHeader.parseAt endian elfClass data) (ProgramHeader.sizeFor elfClass)
      data.length := by
  have h32 := advances_parseU32At endian data
  have h64 := advances_parseU64At endian data
  cases elfClass with
  | ELF32 =>
    exact h32.bind fun _ => h32.bind fun _ => h32.bind fun _ => h32.bind fun _ =>
      h32.bind fun _ => h32.bind fun _ => h32.bind fun _ => h32.bind fun _ => Advances.pure _ _
  | ELF64 =>
    exact h32.bind fun _ => h32.bind fun _ => h64.bind fun _ => h64.bind fun _ =>
      h64.bind fun _ => h64.bind fun _ => h64.bind fun _ => h64.bind fun _ => Advances.pure _ _

/-- Where `size_for(class)` bytes are left, a program header parse succeeds. -/
theorem succeeds_parseAt (elfClass : Class) (hcap : data.length < 2 ^ 64) :
    Succeeds (ProgramHeader.parseAt endian elfClass data) (ProgramHeader.sizeFor elfClass)
      data.length := by
  have h32 := succeeds_parseU32At endian hcap
  have h64 := succeeds_parseU64At endian hcap
  cases elfClass with
  | ELF32 =>
    exact h32.bind fun _ => h32.bind fun _ => h32.bind fun _ => h32.bind fun _ =>
      h32.bind fun _ => h32.bind fun _ => h32.bind fun _ => h32.bind fun _ => Succeeds.pure _ _
  | ELF64 =>
    exact h32.bind fun _ => h32.bind fun _ => h64.bind fun _ => h64.bind fun _ =>
      h64.bind fun _ => h64.bind fun _ => h64.bind fun _ => h64.bind fun _ => Succeeds.pure _ _

theorem sizeFor_pos (elfClass : Class) : 0 < ProgramHeader.sizeFor elfClass := by
  cases elfClass <;> decide

/-- A program header parse succeeds exactly where `size_for(class)` bytes are left. -/
theorem parseAt_ok_iff (elfClass : Class) (hcap : data.length < 2 ^ 64) (off : Nat) :
    (∃ p off', (ProgramHeader.parseAt endian elfClass data).run off = .ok (p, off')) ↔
      off + ProgramHeader.sizeFor elfClass ≤ data.length :=
  ok_iff_of_width (advances_parseAt endian data elfClass) (succeeds_parseAt endian data elfClass hcap)
    (sizeFor_pos elfClass) off

end ParseAt

/-! ## §5 Iterating the table -/

namespace ParsingIterator

/-- `ParsingIterator::next`: `None` on an empty table, else the header at the cursor, or
    `None` when it does not parse. The cursor a failed parse leaves is not kept: every
    caller stops at the first `None`. -/
def next (it : ParsingIterator) : Option (ProgramHeader × ParsingIterator) :=
  if it.data.isEmpty then none
  else match (ProgramHeader.parseAt it.endian it.elfClass it.data).run it.offset with
    | .ok (p, offset) => some (p, { it with offset })
    | .error _ => none

theorem next_eq_some {it it' : ParsingIterator} {p : ProgramHeader} (h : it.next = some (p, it')) :
    it.data ≠ [] ∧ (ProgramHeader.parseAt it.endian it.elfClass it.data).run it.offset =
      .ok (p, it'.offset) ∧ it' = { it with offset := it'.offset } := by
  unfold next at h
  split_ifs at h with hemp
  split at h
  · cases h
    exact ⟨by simpa using hemp, by assumption, rfl⟩
  · cases h

/-- A step of the iterator moves the cursor forward, within the table. -/
theorem offset_lt_of_next {it it' : ParsingIterator} {p : ProgramHeader}
    (h : it.next = some (p, it')) : it.offset < it'.offset ∧ it'.offset ≤ it.data.length := by
  obtain ⟨-, hrun, -⟩ := next_eq_some h
  exact (advances_parseAt it.endian it.data it.elfClass).lt_of_ok (sizeFor_pos _) hrun

/-- `.collect()`: the headers until the first `None`. -/
def collect (it : ParsingIterator) : List ProgramHeader :=
  match _hnext : it.next with
  | none => []
  | some (p, it') => p :: collect it'
termination_by it.data.length - it.offset
decreasing_by
  have hstep := offset_lt_of_next _hnext
  have hdata := (next_eq_some _hnext).2.2
  rw [hdata]
  dsimp only
  omega

theorem collect_eq (it : ParsingIterator) :
    it.collect = match it.next with
      | none => []
      | some (p, it') => p :: it'.collect := by
  rw [collect]
  split <;> rename_i h <;> rw [h]

end ParsingIterator

/-! ## §6 The iterator agrees with `get` -/

section Agree

/-- The header parsed at a cursor, if it parses. -/
def parseOpt (endian : Endian) (elfClass : Class) (data : List UInt8) (off : Nat) :
    Option ProgramHeader :=
  ((ProgramHeader.parseAt endian elfClass data).run' off).toOption

variable {endian : Endian} {elfClass : Class} {data : List UInt8}

theorem parseOpt_of_run {off off' : Nat} {p : ProgramHeader}
    (h : (ProgramHeader.parseAt endian elfClass data).run off = .ok (p, off')) :
    parseOpt endian elfClass data off = some p := by
  rw [parseOpt, StateT.run'_eq, h]
  rfl

theorem parseOpt_eq_none (hcap : data.length < 2 ^ 64) {off : Nat}
    (h : data.length < off + ProgramHeader.sizeFor elfClass) : parseOpt endian elfClass data off = none := by
  rcases hrun : (ProgramHeader.parseAt endian elfClass data).run off with e | ⟨p, off'⟩
  · rw [parseOpt, StateT.run'_eq, hrun]
    rfl
  · have := (parseAt_ok_iff endian data elfClass hcap off).mp ⟨p, off', hrun⟩
    omega

theorem parseOpt_isSome_iff (hcap : data.length < 2 ^ 64) (off : Nat) :
    (parseOpt endian elfClass data off).isSome ↔ off + ProgramHeader.sizeFor elfClass ≤ data.length := by
  constructor
  · intro h
    refine Nat.le_of_not_lt fun hlt => ?_
    rw [parseOpt_eq_none hcap hlt] at h
    cases h
  · intro h
    obtain ⟨p, off', hrun⟩ := (parseAt_ok_iff endian data elfClass hcap off).mpr h
    rw [parseOpt_of_run hrun]
    rfl

/-- From any cursor on a non-empty table, the `i`-th header the iterator yields is the parse
    `i` entries further on: induction along the iterator, each step moving one entry. -/
theorem getElem?_collect_from :
    ∀ (it : ParsingIterator), it.data ≠ [] → it.data.length < 2 ^ 64 → ∀ i,
      it.collect[i]? = parseOpt it.endian it.elfClass it.data
        (it.offset + i * ProgramHeader.sizeFor it.elfClass) := by
  intro it
  induction it using ParsingIterator.collect.induct with
  | case1 it hnone =>
    intro hne hcap i
    rw [ParsingIterator.collect_eq, hnone, List.getElem?_nil]
    -- the parse at the cursor fails, and so does every parse further on
    have hfail : it.data.length < it.offset + ProgramHeader.sizeFor it.elfClass := by
      refine Nat.lt_of_not_le fun hle => ?_
      obtain ⟨p, off', hrun⟩ :=
        (parseAt_ok_iff it.endian it.data it.elfClass hcap it.offset).mpr hle
      have hsome : it.next = some (p, { it with offset := off' }) := by
        rw [ParsingIterator.next, if_neg (by simpa using hne), hrun]
      rw [hnone] at hsome
      cases hsome
    exact (parseOpt_eq_none hcap (by omega)).symm
  | case2 it p it' hsome ih =>
    intro hne hcap i
    obtain ⟨-, hrun, hit'⟩ := ParsingIterator.next_eq_some hsome
    have hoff : it'.offset = it.offset + ProgramHeader.sizeFor it.elfClass :=
      ((advances_parseAt it.endian it.data it.elfClass) _ _ _ hrun).1
    rw [ParsingIterator.collect_eq, hsome]
    cases i with
    | zero =>
      rw [List.getElem?_cons_zero, Nat.zero_mul, Nat.add_zero, parseOpt_of_run hrun]
    | succ i =>
      -- the rest is the iterator one entry on
      rw [List.getElem?_cons_succ, hit']
      rw [hit'] at ih
      rw [ih hne hcap i, hoff, Nat.succ_mul, Nat.add_assoc, Nat.add_comm (i * _)]

namespace SegmentTable

variable (t : SegmentTable)

theorem collect_iter_of_nil (h : t.data = []) : t.iter.collect = [] := by
  rw [ParsingIterator.collect_eq, ParsingIterator.next, if_pos (by simp [iter, h])]

/-- On a non-empty table the `i`-th header the iterator yields is the parse of entry `i`. -/
theorem getElem?_iter_collect (hne : t.data ≠ []) (hcap : t.data.length < 2 ^ 64) (i : Nat) :
    t.iter.collect[i]? =
      parseOpt t.endian t.elfClass t.data (i * ProgramHeader.sizeFor t.elfClass) := by
  simpa [iter] using getElem?_collect_from t.iter hne hcap i

/-- The `i`-th header the iterator yields is what `get(i)` returns, and `get(i)` fails exactly
    where the iterator has ended: sequential and random access read the same table. -/
theorem getElem?_collect (hcap : t.data.length < 2 ^ 64) (i : Nat) :
    t.iter.collect[i]? = (t.get i).toOption := by
  by_cases hne : t.data = []
  · rw [collect_iter_of_nil t hne, get, if_pos (by simp [hne])]
    rfl
  · rw [getElem?_iter_collect t hne hcap, get, if_neg (by simpa using hne)]
    dsimp only
    split_ifs with hov hbad
    · -- an index past `usize` is past the table
      exact parseOpt_eq_none hcap (by omega)
    · exact parseOpt_eq_none hcap (by omega)
    · rfl

/-- A 64-bit little-endian table of two entries: a `PT_LOAD` (type `1`, flags `r-x`), then a
    `PT_DYNAMIC` (type `2`, flags `rw-`), their other fields zero. -/
def twoEntryTable : SegmentTable :=
  ⟨.little, .ELF64,
    ([1, 0, 0, 0, 5, 0, 0, 0] ++ List.replicate 48 0) ++ ([2, 0, 0, 0, 6, 0, 0, 0] ++ List.replicate 48 0)⟩

theorem getElem?_collect_twoEntryTable :
    twoEntryTable.data.length < 2 ^ 64 ∧
      twoEntryTable.iter.collect[1]? = (twoEntryTable.get 1).toOption ∧
      (twoEntryTable.get 1).toOption.map (·.pType) = some 2 :=
  ⟨by simp [twoEntryTable], getElem?_collect _ (by simp [twoEntryTable]) 1, by decide⟩

/-- The iterator yields `len()` headers: every whole entry of the table, and no more. -/
theorem length_collect (hcap : t.data.length < 2 ^ 64) : t.iter.collect.length = t.len := by
  have hsize := sizeFor_pos t.elfClass
  -- entry `i` parses exactly when it lies within the table
  have hsome : ∀ i, (t.iter.collect[i]?).isSome ↔ i < t.len := by
    intro i
    by_cases hne : t.data = []
    · simp [collect_iter_of_nil t hne, len, hne]
    · rw [getElem?_iter_collect t hne hcap, parseOpt_isSome_iff hcap, len, Nat.lt_iff_add_one_le,
        Nat.le_div_iff_mul_le hsize, Nat.succ_mul]
  -- so the indices within the list are those below `len()`
  have hiff : ∀ i, i < t.iter.collect.length ↔ i < t.len := fun i => by
    have hi := hsome i
    rwa [isSome_getElem?] at hi
  exact Nat.le_antisymm (Nat.le_of_not_lt fun h => Nat.lt_irrefl _ ((hiff _).mp h))
    (Nat.le_of_not_lt fun h => Nat.lt_irrefl _ ((hiff _).mpr h))

theorem length_collect_twoEntryTable :
    twoEntryTable.data.length < 2 ^ 64 ∧ twoEntryTable.iter.collect.length = twoEntryTable.len ∧
      twoEntryTable.len = 2 :=
  ⟨by simp [twoEntryTable], length_collect _ (by simp [twoEntryTable]), by decide⟩

end SegmentTable

end Agree

end ArceOS.Elf
