import ArceOS.Fs.Dev
import ArceOS.Lib.Transition

/-!
# The Disk Refines a Byte Cursor

What `Disk` is for: `fatfs` sees a cursor over the bytes of the device, which
reads and writes at the cursor and moves it, and which seeks to any `u64`
position named from the start, the cursor or the end. `ByteCursor` states this
with no blocks at all, and `Refines` relates a disk to the cursor it implements.

The refinement needs the device's size in bytes to be a `u64`, as `size()`
computes it in `u64`: on a device of `2^55` blocks the product wraps to `0` and
`seek` from the end fails on a target in range (`disk_seek_end_size_wraps`).

## Main definitions

- `ByteCursor`, with its size and position below `2^64` as fields;
- `Refines`: a disk implements a cursor;
- `diskSystem`, `cursorSystem`: the two as transition systems over the calls
  `fatfs` makes and their replies.

## Main results

- `read_refines`, `write_refines`, `seek_refines`: one call of each kind;
- `disk_refines_byteCursor`: from `Disk::new`, every run of the cursor is a run
  of the disk with the same calls and replies.
-/

namespace ArceOS.Fs.Dev

open ArceOS.Lib ArceOS.Lib.ByteStore

/-! ## §1 The byte cursor -/

/-- The position a `SeekFrom` names on a device of `size` bytes with the cursor at
    `pos`, before any range check. -/
def SeekFrom.target (size pos : Nat) : SeekFrom → Int
  | .start p => p.toNat
  | .current off => pos + off
  | .fromEnd off => size + off

/-- A cursor over the `size` bytes `content` of a device, with a `u64` size and
    position. -/
structure ByteCursor where
  content : Nat → UInt8
  size : Nat
  pos : Nat
  size_lt : size < u64Modulus
  pos_lt : pos < u64Modulus

namespace ByteCursor

variable (c : ByteCursor)

/-- Reading `len` bytes that end on the device gives the bytes at the cursor and
    moves past them. -/
def read (len : Nat) : Option (List UInt8 × ByteCursor) :=
  if h : c.pos + len ≤ c.size then
    some (readRange c.content c.pos len,
      { c with pos := c.pos + len, pos_lt := Nat.lt_of_le_of_lt h c.size_lt })
  else none

/-- Writing `buf` so that it ends on the device stores it at the cursor and moves
    past it. -/
def write (buf : List UInt8) : Option (Nat × ByteCursor) :=
  if h : c.pos + buf.length ≤ c.size then
    some (buf.length,
      { c with
        content := writeRange c.content c.pos buf
        pos := c.pos + buf.length
        pos_lt := Nat.lt_of_le_of_lt h c.size_lt })
  else none

/-- Seeking moves the cursor to the target when it is a `u64`, also past the end. -/
def seek (p : SeekFrom) : Option (Nat × ByteCursor) :=
  if h : 0 ≤ p.target c.size c.pos ∧ p.target c.size c.pos < u64Modulus then
    some ((p.target c.size c.pos).toNat, { c with pos := (p.target c.size c.pos).toNat, pos_lt := by omega })
  else none

variable {c} {c' : ByteCursor}

/-- What a successful read is. -/
theorem read_eq_some {len : Nat} {bs : List UInt8} (h : c.read len = some (bs, c')) :
    c.pos + len ≤ c.size ∧ bs = readRange c.content c.pos len ∧
      c'.content = c.content ∧ c'.size = c.size ∧ c'.pos = c.pos + len := by
  unfold read at h
  split at h
  · next hin =>
    obtain ⟨rfl, rfl⟩ := Prod.mk.inj (Option.some.inj h)
    exact ⟨hin, rfl, rfl, rfl, rfl⟩
  · cases h

/-- What a successful write is. -/
theorem write_eq_some {buf : List UInt8} {n : Nat} (h : c.write buf = some (n, c')) :
    c.pos + buf.length ≤ c.size ∧ n = buf.length ∧
      c'.content = writeRange c.content c.pos buf ∧ c'.size = c.size ∧ c'.pos = c.pos + buf.length := by
  unfold write at h
  split at h
  · next hin =>
    obtain ⟨rfl, rfl⟩ := Prod.mk.inj (Option.some.inj h)
    exact ⟨hin, rfl, rfl, rfl, rfl⟩
  · cases h

/-- What a successful seek is. -/
theorem seek_eq_some {p : SeekFrom} {n : Nat} (h : c.seek p = some (n, c')) :
    (0 ≤ p.target c.size c.pos ∧ p.target c.size c.pos < u64Modulus) ∧ n = (p.target c.size c.pos).toNat ∧
      c'.content = c.content ∧ c'.size = c.size ∧ c'.pos = (p.target c.size c.pos).toNat := by
  unfold seek at h
  split at h
  · next hin =>
    obtain ⟨rfl, rfl⟩ := Prod.mk.inj (Option.some.inj h)
    exact ⟨hin, rfl, rfl, rfl, rfl⟩
  · cases h

theorem seek_eq_none {p : SeekFrom} (h : c.seek p = none) :
    ¬(0 ≤ p.target c.size c.pos ∧ p.target c.size c.pos < u64Modulus) := by
  unfold seek at h
  split at h
  · cases h
  · assumption

end ByteCursor

/-! ## §2 A disk implements a cursor -/

/-- The disk `d` implements the cursor `c`: the same bytes, size and position, and
    the offset inside its block. -/
structure Refines (d : Disk) (c : ByteCursor) : Prop where
  offset_lt : d.offset < blockSize
  content_eq : d.dev.content = c.content
  size_eq : d.dev.numBlocks * blockSize = c.size
  pos_eq : d.pos = c.pos

namespace Refines

variable {d : Disk} {c : ByteCursor}

/-- `size()` of the disk is the cursor's size. -/
theorem size (h : Refines d c) : d.size = c.size := by
  rw [size_of_lt (h.size_eq ▸ c.size_lt), h.size_eq]

/-- `position()` of the disk is the cursor's position. -/
theorem position (h : Refines d c) : d.position = c.pos := by
  rw [position_of_lt (h.pos_eq ▸ c.pos_lt), h.pos_eq]

/-- A disk set to a position, with the content written there or not, implements
    the cursor with that position and content. -/
theorem setPosition {c' : ByteCursor} (h : Refines d c) (content : Nat → UInt8) (x : Nat)
    (hc : c'.content = content) (hs : c'.size = c.size) (hx : c'.pos = x) :
    Refines ((d.withContent content).setPosition x) c' where
  offset_lt := Disk.offset_setPosition_lt x
  content_eq := hc.symm
  size_eq := by rw [hs, ← h.size_eq]; rfl
  pos_eq := by rw [Disk.pos_setPosition, hx]

end Refines

section Calls

variable {d : Disk} {c c' : ByteCursor}

/-- A read that the cursor makes is made by the disk, with the same bytes. -/
theorem read_refines {len : Nat} {bs : List UInt8} (h : Refines d c) (hr : c.read len = some (bs, c')) :
    (read d len).1 = .ok bs ∧ Refines (read d len).2 c' := by
  obtain ⟨hin, rfl, hcontent, hsize, hpos⟩ := ByteCursor.read_eq_some hr
  have hend : d.pos + len ≤ d.dev.numBlocks * blockSize := by
    rw [h.pos_eq, h.size_eq]
    exact hin
  rw [read_spec h.offset_lt hend, h.content_eq, h.pos_eq]
  -- a read leaves the content: the disk after is the one set to the new position
  exact ⟨rfl, h.setPosition d.dev.content (c.pos + len) (by rw [hcontent, h.content_eq]) hsize hpos⟩

/-- A write that the cursor makes is made by the disk, with the same count. -/
theorem write_refines {buf : List UInt8} {n : Nat} (h : Refines d c) (hw : c.write buf = some (n, c')) :
    (write d buf).1 = .ok n ∧ Refines (write d buf).2 c' := by
  obtain ⟨hin, rfl, hcontent, hsize, hpos⟩ := ByteCursor.write_eq_some hw
  have hend : d.pos + buf.length ≤ d.dev.numBlocks * blockSize := by
    rw [h.pos_eq, h.size_eq]
    exact hin
  rw [write_spec h.offset_lt hend]
  refine ⟨rfl, h.setPosition _ _ ?_ hsize (by rw [hpos, h.pos_eq])⟩
  rw [hcontent, h.content_eq, h.pos_eq]

/-- The position `seek` computes is the cursor's target when it is a `u64`. -/
theorem seekPos_eq (h : Refines d c) (p : SeekFrom) :
    seekPos d p = if 0 ≤ p.target c.size c.pos ∧ p.target c.size c.pos < u64Modulus
      then some (p.target c.size c.pos).toNat else none := by
  cases p with
  | start q =>
    -- a `u64` from the start is always in range
    have hq : q.toNat < u64Modulus := UInt64.toNat_lt q
    rw [seekPos, SeekFrom.target, if_pos ⟨Int.natCast_nonneg _, by exact_mod_cast hq⟩, Int.toNat_natCast]
  | current off => rw [seekPos, SeekFrom.target, h.position, checkedAddSigned]
  | fromEnd off => rw [seekPos, SeekFrom.target, h.size, checkedAddSigned]

/-- A seek that the cursor makes is made by the disk, to the same position. -/
theorem seek_refines {p : SeekFrom} {n : Nat} (h : Refines d c) (hs : c.seek p = some (n, c')) :
    (seek d p).1 = .ok n ∧ Refines (seek d p).2 c' := by
  obtain ⟨hin, rfl, hcontent, hsize, hpos⟩ := ByteCursor.seek_eq_some hs
  rw [seek_of_some (by rw [seekPos_eq h, if_pos hin])]
  exact ⟨rfl, h.setPosition d.dev.content _ (by rw [hcontent, h.content_eq]) hsize hpos⟩

/-- A seek to a target outside `[0, 2^64)` fails and leaves the disk as it was. -/
theorem seek_refines_none {p : SeekFrom} (h : Refines d c) (hs : c.seek p = none) :
    seek d p = (.error (), d) :=
  seek_of_none (by rw [seekPos_eq h, if_neg (ByteCursor.seek_eq_none hs)])

/-- On a device of `2^55` blocks, the `u64` product in `size()` wraps to `0`, so
    `seek(End(-512))` fails although its target, `2^64 - 512`, is a `u64`. The
    device's size is no `u64`, so no `ByteCursor` describes it. -/
theorem disk_seek_end_size_wraps (content : Nat → UInt8) :
    (Disk.new ⟨2 ^ 55, content⟩).size = 0 ∧
      (SeekFrom.fromEnd (-512)).target (2 ^ 55 * blockSize) (Disk.new ⟨2 ^ 55, content⟩).pos = 2 ^ 64 - 512 ∧
      seek (Disk.new ⟨2 ^ 55, content⟩) (.fromEnd (-512)) = (.error (), Disk.new ⟨2 ^ 55, content⟩) := by
  have hsize : (Disk.new ⟨2 ^ 55, content⟩).size = 0 := by
    -- `2^55 * 512 = 2^64`
    have hwrap : 2 ^ 55 * 512 % 2 ^ 64 = 0 := by decide
    rw [Disk.size]
    exact hwrap
  refine ⟨hsize, by simp [SeekFrom.target], seek_of_none ?_⟩
  -- `checked_add_signed(0, -512)` is below zero
  rw [seekPos, hsize, checkedAddSigned_of_not_mem (by omega)]

end Calls

/-! ## §3 Whole runs -/

/-- The calls `fatfs` makes on its disk. -/
inductive DiskOp where
  | read (len : Nat)
  | write (buf : List UInt8)
  | seek (pos : SeekFrom)

/-- What a successful call returns. -/
inductive Reply where
  | bytes (data : List UInt8)
  | count (n : Nat)
  | pos (n : Nat)
  deriving DecidableEq

/-- One call on the disk. -/
def diskStep (d : Disk) : DiskOp → Except Unit Reply × Disk
  | .read len => ((read d len).1.map .bytes, (read d len).2)
  | .write buf => ((write d buf).1.map .count, (write d buf).2)
  | .seek p => ((seek d p).1.map .pos, (seek d p).2)

/-- One call on the cursor, defined when the cursor allows it. -/
def ByteCursor.step (c : ByteCursor) : DiskOp → Option (Reply × ByteCursor)
  | .read len => (c.read len).map fun r => (.bytes r.1, r.2)
  | .write buf => (c.write buf).map fun r => (.count r.1, r.2)
  | .seek p => (c.seek p).map fun r => (.pos r.1, r.2)

/-- The disk driven by `fatfs`; a step is a successful call and its reply. -/
def diskSystem : LTS Disk (DiskOp × Reply) where
  init d := d.blockId = 0 ∧ d.offset = 0
  step d l d' := diskStep d l.1 = (.ok l.2, d')

/-- The byte cursor driven by the same calls. -/
def cursorSystem : LTS ByteCursor (DiskOp × Reply) where
  init c := c.pos = 0
  step c l c' := c.step l.1 = some (l.2, c')

/-- The cursor at the start of a device whose size in bytes is a `u64`. -/
def ByteCursor.ofDevice (dev : BlockDevice) (h : dev.numBlocks * blockSize < u64Modulus) : ByteCursor :=
  ⟨dev.content, dev.numBlocks * blockSize, 0, h, by simp [u64Modulus]⟩

theorem new_refines (dev : BlockDevice) (h : dev.numBlocks * blockSize < u64Modulus) :
    Refines (Disk.new dev) (ByteCursor.ofDevice dev h) :=
  ⟨by simp [Disk.new], rfl, rfl, by simp [Disk.new, Disk.pos, ByteCursor.ofDevice]⟩

/-- Every call the cursor makes is made by the disk, with the same reply, into a
    disk that implements the cursor after it. -/
theorem diskStep_refines {d : Disk} {c c' : ByteCursor} {op : DiskOp} {r : Reply} (h : Refines d c)
    (hs : c.step op = some (r, c')) : ∃ d', diskStep d op = (.ok r, d') ∧ Refines d' c' := by
  cases op with
  | read len =>
    obtain ⟨⟨bs, c₁⟩, hr, he⟩ := Option.map_eq_some_iff.mp hs
    obtain ⟨rfl, rfl⟩ := Prod.mk.inj he
    obtain ⟨h₁, h₂⟩ := read_refines h hr
    exact ⟨_, by rw [diskStep, h₁]; rfl, h₂⟩
  | write buf =>
    obtain ⟨⟨n, c₁⟩, hw, he⟩ := Option.map_eq_some_iff.mp hs
    obtain ⟨rfl, rfl⟩ := Prod.mk.inj he
    obtain ⟨h₁, h₂⟩ := write_refines h hw
    exact ⟨_, by rw [diskStep, h₁]; rfl, h₂⟩
  | seek p =>
    obtain ⟨⟨n, c₁⟩, hk, he⟩ := Option.map_eq_some_iff.mp hs
    obtain ⟨rfl, rfl⟩ := Prod.mk.inj he
    obtain ⟨h₁, h₂⟩ := seek_refines h hk
    exact ⟨_, by rw [diskStep, h₁]; rfl, h₂⟩

/-- **The disk refines the byte cursor.** On a device whose size in bytes is a
    `u64`, every run of the cursor from the start, over any reads and writes that
    end on the device and any seeks to `u64` targets, is a run of `Disk::new` over
    the same calls with the same replies, ending in a disk that implements the
    cursor's last state. -/
theorem disk_refines_byteCursor (dev : BlockDevice) (h : dev.numBlocks * blockSize < u64Modulus)
    {ls : List (DiskOp × Reply)} {c : ByteCursor} (hrun : cursorSystem.Run (ByteCursor.ofDevice dev h) ls c) :
    diskSystem.init (Disk.new dev) ∧ ∃ d, diskSystem.Run (Disk.new dev) ls d ∧ Refines d c := by
  have hsim : ∀ d c l c', Refines d c → cursorSystem.step c l c' →
      ∃ d', diskSystem.step d l d' ∧ Refines d' c' :=
    fun _ _ l _ hR hs => diskStep_refines hR hs
  exact ⟨⟨rfl, rfl⟩, LTS.Run.simulateRel hsim hrun (new_refines dev h)⟩

end ArceOS.Fs.Dev
