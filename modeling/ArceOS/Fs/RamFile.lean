import ArceOS.Fs.Fops

/-!
# Ramfs Files at Every Offset

`FileNode` of `axfs_ramfs/src/file.rs` with its offsets as the `u64` they are and its
sums as the `usize` the code computes them in. In a release build `offset as usize +
buf.len()` wraps modulo `2^64`; slicing `content[start..end]` panics when `end < start`,
and a panic is `none` here. (`ramReadAt` and `ramWriteAt` of `Fops` are the same
functions for offsets whose sums do not wrap.)

What the node is meant to be is a growable byte array: `specRead`, `specWrite` and
`specTruncate` below, and `specRun` for a sequence of calls.

## Main results

- `readAt_of_fits`, `writeAt_of_fits`, `truncate_eq_specTruncate`: a call whose sum fits
  in a `usize` does what the byte array does;
- `run_of_fits`: so does every sequence of such calls, call by call;
- `readAt_of_wraps`, `readAt_eq_none_iff`: a read whose sum wraps returns nothing when
  the sum wraps to at least the file size, and panics when it wraps to below it;
- `ramfs_read_at_after_lseek_panics`: `lseek(fd, -1, SEEK_SET)` moves a cursor to
  `u64::MAX`, from which a one-byte read of a one-byte file panics.
-/

namespace ArceOS.Fs.RamFile

open ArceOS.Fs.Dev ArceOS.Fs.Fops

/-! ## §1 `FileNode` -/

/-- `FileNode::read_at(offset, buf)` for a buffer of `len` bytes: the bytes copied into
    `buf[..n]`, `n` being the count returned; `none` where the code panics. -/
def readAt (content : List UInt8) (offset : UInt64) (len : Nat) : Option (List UInt8) :=
  let start := min content.length offset.toNat
  -- `offset as usize + buf.len()` wraps
  let stop := min content.length ((offset.toNat + len) % u64Modulus)
  -- `&content[start..end]`
  if stop < start then none
  else
    let src := (content.take stop).drop start
    -- `buf[..src.len()]`
    if len < src.length then none else some src

/-- `FileNode::write_at(offset, buf)`: the count returned and the new content; `none`
    where the code panics. -/
def writeAt (content : List UInt8) (offset : UInt64) (buf : List UInt8) :
    Option (Nat × List UInt8) :=
  let offset := offset.toNat
  let stop := (offset + buf.length) % u64Modulus
  let content :=
    if stop > content.length then content ++ List.replicate (stop - content.length) 0
    else content
  -- `&mut content[offset..offset + buf.len()]`
  if stop < offset then none
  else some (buf.length, content.take offset ++ buf ++ content.drop stop)

/-- `FileNode::truncate(size)`. -/
def truncate (content : List UInt8) (size : UInt64) : List UInt8 :=
  ramTruncate content size.toNat

/-- The `SeekFrom` that `sys_lseek` builds from an `off_t` and `whence`; `none` is
    `EINVAL`. -/
def lseekFrom (offset : Int64) : Int → Option SeekFrom
  | 0 => some (.start offset.toUInt64)
  | 1 => some (.current offset.toInt)
  | 2 => some (.fromEnd offset.toInt)
  | _ => none

/-! ## §2 A growable byte array -/

/-- Reading `len` bytes at `o`: those from `o` on, at most `len` of them. -/
def specRead (c : List UInt8) (o len : Nat) : List UInt8 := (c.drop o).take len

/-- Writing `b` at `o`: the array before `o`, zeros from its end up to `o`, `b`, and the
    array after `b`. -/
def specWrite (c : List UInt8) (o : Nat) (b : List UInt8) : List UInt8 :=
  c.take o ++ List.replicate (o - c.length) 0 ++ b ++ c.drop (o + b.length)

/-- Setting the size to `s`: the first `s` bytes, zero-extended to `s`. -/
def specTruncate (c : List UInt8) (s : Nat) : List UInt8 :=
  c.take s ++ List.replicate (s - c.length) 0

/-- A read returns `min(len, |c| - o)` bytes. -/
@[simp] theorem length_specRead (c : List UInt8) (o len : Nat) :
    (specRead c o len).length = min len (c.length - o) := by
  simp [specRead]

@[simp] theorem length_specWrite (c : List UInt8) (o : Nat) (b : List UInt8) :
    (specWrite c o b).length = max c.length (o + b.length) := by
  simp only [specWrite, List.length_append, List.length_take, List.length_replicate,
    List.length_drop]
  omega

@[simp] theorem length_specTruncate (c : List UInt8) (s : Nat) :
    (specTruncate c s).length = s := by
  simp only [specTruncate, List.length_append, List.length_take, List.length_replicate]
  omega

/-! ## §3 Calls whose sums fit -/

variable {c : List UInt8} {o : UInt64} {len : Nat} {b : List UInt8}

/-- Slicing at `min |c| x` is slicing at `x`. -/
private theorem take_min_length (c : List UInt8) (x : Nat) :
    c.take (min c.length x) = c.take x := by
  rw [← List.take_take, List.take_of_length_le (by simp only [List.length_take]; omega)]

/-- Dropping `min n o` from a list of at most `n` elements is dropping `o`. -/
private theorem drop_min_of_length_le {l : List UInt8} {n o : Nat} (h : l.length ≤ n) :
    l.drop (min n o) = l.drop o := by
  rcases Nat.le_total o n with ho | ho
  · rw [Nat.min_eq_right ho]
  · rw [Nat.min_eq_left ho, List.drop_of_length_le h, List.drop_of_length_le (by omega)]

/-- A read whose end fits in a `usize` reads what the byte array holds there. -/
theorem readAt_of_fits (h : o.toNat + len < u64Modulus) :
    readAt c o len = some (specRead c o.toNat len) := by
  have hsrc : (c.take (min c.length (o.toNat + len))).drop (min c.length o.toNat) =
      specRead c o.toNat len := by
    rw [take_min_length, drop_min_of_length_le (by simp only [List.length_take]; omega),
      List.drop_take, specRead]
    congr 1
    omega
  have hle : min c.length o.toNat ≤ min c.length (o.toNat + len) := by omega
  simp only [readAt, Nat.mod_eq_of_lt h, if_neg (Nat.not_lt.mpr hle), hsrc,
    length_specRead]
  rw [if_neg (by omega)]

/-- A write whose end fits in a `usize` writes the byte array. -/
theorem writeAt_of_fits (h : o.toNat + b.length < u64Modulus) :
    writeAt c o b = some (b.length, specWrite c o.toNat b) := by
  simp only [writeAt, Nat.mod_eq_of_lt h, if_neg (Nat.not_lt.mpr (Nat.le_add_right _ _)),
    specWrite]
  split_ifs with hgrow
  · -- the content grows with zeros up to the end of the write
    rw [List.take_append, List.take_replicate, List.drop_of_length_le (l := c ++ _) (by simp; omega),
      List.drop_of_length_le (l := c) (by omega), Nat.min_eq_left (by omega)]
  · rw [Nat.sub_eq_zero_of_le (by omega), List.replicate_zero, List.append_nil]

theorem truncate_eq_specTruncate (c : List UInt8) (s : UInt64) :
    truncate c s = specTruncate c s.toNat := by
  simp only [truncate, ramTruncate, specTruncate]
  split_ifs with hs
  · rw [Nat.sub_eq_zero_of_le (by omega), List.replicate_zero, List.append_nil]
  · rw [List.take_of_length_le (by omega)]

/-! ## §4 Reads whose sums wrap -/

/-- A sum past `usize::MAX` wraps once, to below the offset. -/
private theorem wrapped_eq (hw : u64Modulus ≤ o.toNat + len) (hlen : len < u64Modulus) :
    (o.toNat + len) % u64Modulus = o.toNat + len - u64Modulus := by
  have ho := o.toNat_lt
  rw [Nat.mod_eq_sub_mod hw, Nat.mod_eq_of_lt (by unfold u64Modulus at *; omega)]

/-- A read whose end passes `usize::MAX` finds `start = |c|` whenever it does not
    panic; it panics exactly when the wrapped end falls below the file size. -/
theorem readAt_of_wraps (hw : u64Modulus ≤ o.toNat + len) (hlen : len < u64Modulus) :
    readAt c o len =
      if (o.toNat + len) % u64Modulus < c.length then none else some [] := by
  have ho := o.toNat_lt
  simp only [readAt, wrapped_eq hw hlen]
  by_cases hc : o.toNat + len - u64Modulus < c.length
  · rw [if_pos (by unfold u64Modulus at *; omega), if_pos hc]
  · rw [if_neg (by omega), if_neg hc, Nat.min_eq_left (by omega),
      Nat.min_eq_left (by unfold u64Modulus at *; omega), List.drop_of_length_le (by simp),
      if_neg (by simp)]

/-- `read_at` panics exactly when `offset + buf.len()` passes `usize::MAX` and wraps to
    below the file size. -/
theorem readAt_eq_none_iff (hlen : len < u64Modulus) :
    readAt c o len = none ↔
      u64Modulus ≤ o.toNat + len ∧ (o.toNat + len) % u64Modulus < c.length := by
  by_cases hw : u64Modulus ≤ o.toNat + len
  · rw [readAt_of_wraps hw hlen]
    split_ifs with hc <;> simp [hw, hc]
  · rw [readAt_of_fits (by omega)]
    simp [hw]

/-- Whenever `read_at` does not panic it reads what the byte array holds. -/
theorem readAt_eq_specRead_of_eq_some {r : List UInt8} (hlen : len < u64Modulus)
    (h : readAt c o len = some r) : r = specRead c o.toNat len := by
  by_cases hw : u64Modulus ≤ o.toNat + len
  · rw [readAt_of_wraps hw hlen] at h
    split_ifs at h with hc
    cases h
    -- a wrapped read that does not panic starts at or past the end of the file
    have hc' : c.length ≤ o.toNat := by
      rw [wrapped_eq hw hlen] at hc
      omega
    simp [specRead, List.drop_of_length_le hc']
  · rw [readAt_of_fits (by omega)] at h
    exact (Option.some.inj h).symm

/-! ## §5 Sequences of calls -/

/-- A call on a ramfs file node. -/
inductive NodeCall where
  | readAt (offset : UInt64) (len : Nat)
  | writeAt (offset : UInt64) (buf : List UInt8)
  | truncate (size : UInt64)

/-- What a call returns: the bytes read, or the count written. -/
inductive NodeReply where
  | read (data : List UInt8)
  | written (n : Nat)
  | done
  deriving DecidableEq, Repr

/-- A call whose `usize` sum does not wrap. -/
def NodeCall.Fits : NodeCall → Prop
  | .readAt o len => o.toNat + len < u64Modulus
  | .writeAt o b => o.toNat + b.length < u64Modulus
  | .truncate _ => True

/-- One call on the node's content; `none` where the code panics. -/
def call (content : List UInt8) : NodeCall → Option (NodeReply × List UInt8)
  | .readAt o len => (readAt content o len).map fun d => (.read d, content)
  | .writeAt o b => (writeAt content o b).map fun r => (.written r.1, r.2)
  | .truncate s => some (.done, truncate content s)

/-- The same call on the byte array. -/
def specCall (content : List UInt8) : NodeCall → NodeReply × List UInt8
  | .readAt o len => (.read (specRead content o.toNat len), content)
  | .writeAt o b => (.written b.length, specWrite content o.toNat b)
  | .truncate s => (.done, specTruncate content s.toNat)

/-- A sequence of calls: the replies and the final content, `none` if one panics. -/
def run (content : List UInt8) : List NodeCall → Option (List NodeReply × List UInt8)
  | [] => some ([], content)
  | k :: ks =>
    match call content k with
    | none => none
    | some (r, content) => (run content ks).map fun res => (r :: res.1, res.2)

/-- The same sequence on the byte array. -/
def specRun (content : List UInt8) : List NodeCall → List NodeReply × List UInt8
  | [] => ([], content)
  | k :: ks =>
    let (r, content) := specCall content k
    let res := specRun content ks
    (r :: res.1, res.2)

theorem call_of_fits {k : NodeCall} (h : k.Fits) : call c k = some (specCall c k) := by
  cases k with
  | readAt o len => simp [call, specCall, readAt_of_fits (c := c) h]
  | writeAt o b => simp [call, specCall, writeAt_of_fits (c := c) h]
  | truncate s => simp [call, specCall, truncate_eq_specTruncate]

/-- Every sequence of calls whose sums fit in a `usize` gives, call by call, the replies
    and the content of the byte array. -/
theorem run_of_fits {ks : List NodeCall} (h : ∀ k ∈ ks, k.Fits) :
    run c ks = some (specRun c ks) := by
  induction ks generalizing c with
  | nil => rfl
  | cons k ks ih =>
    have hk := call_of_fits (c := c) (h k List.mem_cons_self)
    have hks := ih (c := (specCall c k).2) fun k' hk' => h k' (List.mem_cons_of_mem k hk')
    simp [run, specRun, hk, hks]

/-- A ramfs file of one byte whose cursor `sys_lseek(fd, -1, SEEK_SET)` has set: the
    `off_t` `-1` becomes the `u64` `u64::MAX`, `File::seek` accepts it as the new
    cursor, and `read_at` from there into a one-byte buffer panics. -/
theorem ramfs_read_at_after_lseek_panics :
    ∃ pos, lseekFrom (-1) 0 = some pos ∧
      (File.seek ramNodeOps ⟨⟨.file [0], Cap.READ⟩, false, 0⟩ pos).1 = .ok (2 ^ 64 - 1) ∧
      readAt [0] (UInt64.ofNat (2 ^ 64 - 1)) 1 = none := by
  refine ⟨_, rfl, rfl, ?_⟩
  rw [readAt_eq_none_iff (by decide)]
  decide

end ArceOS.Fs.RamFile
