import ArceOS.Lib.Fifo
import ArceOS.Lib.Ring

/-!
# Pipe Ring Buffer

Model of `PipeRingBuffer` from `arceos_posix_api/src/imp/pipe.rs`: a byte array
of `RING_BUFFER_SIZE` slots with a `head` (next byte to read), a `tail` (next
slot to write) and a three-valued `status` that tells an empty buffer from a
full one when `head = tail`.

`head` and `tail` are `Fin ringBufferSize`: the source only ever assigns them
`0` or `(x + 1) % RING_BUFFER_SIZE`, so the array accesses `arr[head]` and
`arr[tail]` are always in bounds.

## Refinement

The buffer refines the bounded FIFO queue of `ArceOS.Lib.Fifo`: the abstraction
reads the `available_read()` bytes that follow `head` around the ring. The
invariant `Holds s k` says how `(head, tail, status)` encode a queue of `k`
bytes; `write_byte` and `read_byte` move it from `k` to `k + 1` and back.
-/

namespace ArceOS.Posix.Pipe

open ArceOS.Lib ArceOS.Lib.Ring ArceOS.Lib.FifoOp

/-! ## §1 The ring buffer, as in `pipe.rs` -/

/-- `RingBufferStatus`. -/
inductive RingBufferStatus where
  | full
  | empty
  | normal
  deriving DecidableEq, Repr

/-- `RING_BUFFER_SIZE`. -/
def ringBufferSize : Nat := 256

/-- `PipeRingBuffer`. -/
structure PipeRingBuffer where
  arr : Fin ringBufferSize → UInt8
  head : Fin ringBufferSize
  tail : Fin ringBufferSize
  status : RingBufferStatus

namespace PipeRingBuffer

/-- `PipeRingBuffer::new`: all slots zero, `head = tail = 0`, `Empty`. -/
def new : PipeRingBuffer where
  arr := fun _ => 0
  head := ⟨0, by decide⟩
  tail := ⟨0, by decide⟩
  status := .empty

/-- `write_byte`: store `byte` at `tail`, advance `tail`, and mark the buffer `Full`
    when `tail` meets `head` (otherwise `Normal`). -/
def writeByte (s : PipeRingBuffer) (byte : UInt8) : PipeRingBuffer :=
  let tail : Fin ringBufferSize := ⟨(s.tail.val + 1) % ringBufferSize, Nat.mod_lt _ (by decide)⟩
  { arr := Function.update s.arr s.tail byte
    head := s.head
    tail := tail
    status := if tail = s.head then .full else .normal }

/-- `read_byte`: return the byte at `head`, advance `head`, and mark the buffer
    `Empty` when `head` meets `tail` (otherwise `Normal`). -/
def readByte (s : PipeRingBuffer) : UInt8 × PipeRingBuffer :=
  let head : Fin ringBufferSize := ⟨(s.head.val + 1) % ringBufferSize, Nat.mod_lt _ (by decide)⟩
  (s.arr s.head,
    { s with head := head, status := if head = s.tail then .empty else .normal })

/-- `available_read`: the number of bytes stored. -/
def availableRead (s : PipeRingBuffer) : Nat :=
  if s.status = .empty then 0
  else if s.tail.val > s.head.val then s.tail.val - s.head.val
  else s.tail.val + ringBufferSize - s.head.val

/-- `available_write`: the number of free slots. -/
def availableWrite (s : PipeRingBuffer) : Nat :=
  if s.status = .full then 0 else ringBufferSize - s.availableRead

/-- The queue a buffer holds: the `available_read()` bytes from `head` on. -/
def contents (s : PipeRingBuffer) : List UInt8 :=
  window s.arr s.head s.availableRead

/-! ## §2 Spec lemmas -/

@[simp] theorem writeByte_arr (s : PipeRingBuffer) (b : UInt8) :
    (s.writeByte b).arr = Function.update s.arr s.tail b := rfl

@[simp] theorem writeByte_head (s : PipeRingBuffer) (b : UInt8) :
    (s.writeByte b).head = s.head := rfl

@[simp] theorem writeByte_tail (s : PipeRingBuffer) (b : UInt8) :
    (s.writeByte b).tail = idx s.tail 1 := rfl

@[simp] theorem writeByte_status (s : PipeRingBuffer) (b : UInt8) :
    (s.writeByte b).status = if idx s.tail 1 = s.head then .full else .normal := rfl

@[simp] theorem readByte_fst (s : PipeRingBuffer) : s.readByte.1 = s.arr s.head := rfl

@[simp] theorem readByte_arr (s : PipeRingBuffer) : s.readByte.2.arr = s.arr := rfl

@[simp] theorem readByte_head (s : PipeRingBuffer) : s.readByte.2.head = idx s.head 1 := rfl

@[simp] theorem readByte_tail (s : PipeRingBuffer) : s.readByte.2.tail = s.tail := rfl

@[simp] theorem readByte_status (s : PipeRingBuffer) :
    s.readByte.2.status = if idx s.head 1 = s.tail then .empty else .normal := rfl

end PipeRingBuffer

/-! ## §3 The representation invariant -/

/-- `s` encodes a queue of `k` bytes: `tail` lies `k` slots after `head`, and the
    status is `Empty` exactly when `k = 0` and `Full` exactly when `k` fills the ring. -/
structure Holds (s : PipeRingBuffer) (k : Nat) : Prop where
  le_size : k ≤ ringBufferSize
  tail_eq : s.tail = idx s.head k
  empty_iff : s.status = .empty ↔ k = 0
  full_iff : s.status = .full ↔ k = ringBufferSize

namespace Holds

variable {s : PipeRingBuffer} {k : Nat}

theorem new : Holds PipeRingBuffer.new 0 where
  le_size := by decide
  tail_eq := by simp [PipeRingBuffer.new]
  empty_iff := by simp [PipeRingBuffer.new]
  full_iff := by simp [PipeRingBuffer.new, ringBufferSize]

/-- The two-case formula of `available_read` recovers the number of bytes held. -/
theorem availableRead (h : Holds s k) : s.availableRead = k := by
  have hk := h.le_size
  have ht := congrArg Fin.val h.tail_eq
  have hh := s.head.isLt
  simp only [idx_val] at ht
  unfold PipeRingBuffer.availableRead
  by_cases he : s.status = .empty
  · simpa [he] using (h.empty_iff.mp he).symm
  · have hk0 : k ≠ 0 := fun h0 => he (h.empty_iff.mpr h0)
    simp only [he, if_false]
    unfold ringBufferSize at *
    -- the tail either lies past the head, or has wrapped round to it or before it
    rcases Nat.lt_or_ge (s.head.val + k) 256 with hlt | hge
    · rw [Nat.mod_eq_of_lt hlt] at ht
      simp only [ht, if_pos (show s.head.val + k > s.head.val by omega)]
      omega
    · rw [Nat.mod_eq_sub_mod hge, Nat.mod_eq_of_lt (by omega)] at ht
      simp only [ht, if_neg (show ¬ s.head.val + k - 256 > s.head.val by omega)]
      omega

/-- `available_write` is the room left in the ring. -/
theorem availableWrite (h : Holds s k) : s.availableWrite = ringBufferSize - k := by
  unfold PipeRingBuffer.availableWrite
  by_cases hf : s.status = .full
  · simp [hf, h.full_iff.mp hf]
  · simp [hf, h.availableRead]

/-- Within one turn of the ring, coming back to the head means covering no slot. -/
private theorem idx_eq_self_iff {head : Fin ringBufferSize} {i : Nat} (hi : i < ringBufferSize) :
    idx head i = head ↔ i = 0 := by
  constructor
  · intro h
    by_contra h0
    exact idx_ne_self (Nat.pos_of_ne_zero h0) hi h
  · rintro rfl
    exact idx_zero head

/-- `write_byte` into a ring that is not full adds one byte. -/
theorem writeByte (h : Holds s k) (hk : k < ringBufferSize) (b : UInt8) :
    Holds (s.writeByte b) (k + 1) := by
  have htail : idx s.tail 1 = idx s.head (k + 1) := by rw [h.tail_eq, idx_idx]
  refine ⟨hk, by simpa using htail, ?_, ?_⟩
  · simp only [PipeRingBuffer.writeByte_status]
    split <;> simp
  · simp only [PipeRingBuffer.writeByte_status, htail]
    rcases Nat.lt_or_ge (k + 1) ringBufferSize with hlt | hge
    · -- the tail stays short of the head: the buffer is `Normal`
      rw [if_neg (by rw [idx_eq_self_iff hlt]; omega)]
      simp only [reduceCtorEq, false_iff]
      omega
    · -- the tail catches up with the head: the buffer is `Full`
      have hfull : k + 1 = ringBufferSize := by omega
      rw [hfull, idx_self, if_pos rfl]
      simp

/-- `read_byte` from a ring that is not empty removes one byte. -/
theorem readByte (h : Holds s (k + 1)) : Holds s.readByte.2 k := by
  have hk := h.le_size
  have htail : s.tail = idx (idx s.head 1) k := by rw [h.tail_eq, idx_idx, Nat.add_comm]
  refine ⟨by omega, by simpa using htail, ?_, ?_⟩
  · have hiff : idx s.head 1 = idx (idx s.head 1) k ↔ k = 0 := by
      rw [eq_comm, idx_eq_self_iff (by omega)]
    simp only [PipeRingBuffer.readByte_status, htail]
    -- the head meets the tail exactly when the last byte was read
    by_cases hc : idx s.head 1 = idx (idx s.head 1) k
    · rw [if_pos hc]
      simp [hiff.mp hc]
    · rw [if_neg hc]
      simpa using hiff.not.mp hc
  · simp only [PipeRingBuffer.readByte_status]
    split <;> simp <;> omega

/-- `write_byte` into a ring that is not full appends its byte to the queue. -/
theorem contents_writeByte (h : Holds s k) (hk : k < ringBufferSize) (b : UInt8) :
    (s.writeByte b).contents = s.contents ++ [b] := by
  simp only [PipeRingBuffer.contents, (h.writeByte hk b).availableRead, h.availableRead,
    PipeRingBuffer.writeByte_arr, PipeRingBuffer.writeByte_head, window_succ, h.tail_eq,
    window_update_idx _ _ hk, Function.update_self]

/-- `read_byte` from a ring that is not empty returns the oldest byte and drops it. -/
theorem contents_readByte (h : Holds s (k + 1)) :
    s.contents = s.readByte.1 :: s.readByte.2.contents := by
  simp only [PipeRingBuffer.contents, h.readByte.availableRead, h.availableRead,
    window_succ', PipeRingBuffer.readByte_fst, PipeRingBuffer.readByte_arr,
    PipeRingBuffer.readByte_head]

end Holds

/-! ## §4 Refinement of the bounded FIFO queue -/

/-- The buffer driven by its callers: `write_byte(b)` is called only when
    `available_write() > 0`, and `read_byte()`, here returning `b`, only when
    `available_read() > 0`. -/
def pipeSystem : LTS PipeRingBuffer (FifoOp UInt8) where
  init s := s = PipeRingBuffer.new
  step s op s' :=
    match op with
    | .enq b => 0 < s.availableWrite ∧ s' = s.writeByte b
    | .deq b => 0 < s.availableRead ∧ s.readByte = (b, s')

/-- Every guarded call keeps the representation invariant and is matched, under
    `contents`, by the bounded FIFO step with the same label. -/
theorem pipeSystem_step {s s' : PipeRingBuffer} {op : FifoOp UInt8} {k : Nat}
    (h : Holds s k) (hstep : pipeSystem.step s op s') :
    (∃ k', Holds s' k') ∧ (boundedFifo UInt8 ringBufferSize).step s.contents op s'.contents := by
  cases op with
  | enq b =>
    obtain ⟨hw, rfl⟩ := hstep
    have hk : k < ringBufferSize := by rw [h.availableWrite] at hw; omega
    refine ⟨⟨k + 1, h.writeByte hk b⟩, ?_, h.contents_writeByte hk b⟩
    simpa [PipeRingBuffer.contents, h.availableRead] using hk
  | deq b =>
    obtain ⟨hr, hread⟩ := hstep
    rw [h.availableRead] at hr
    obtain ⟨k', rfl⟩ := Nat.exists_eq_add_of_lt hr
    have h' : Holds s (k' + 1) := by simpa using h
    refine ⟨⟨k', by simpa [hread] using h'.readByte⟩, ?_⟩
    show s.contents = b :: s'.contents
    simpa [hread] using h'.contents_readByte

/-- **`PipeRingBuffer` refines a bounded FIFO queue of capacity `RING_BUFFER_SIZE`.**
    After any sequence of guarded `write_byte` and `read_byte` calls from
    `PipeRingBuffer::new()`, the bytes held form a run of the bounded FIFO queue
    over the same operations; the bytes read, followed by those held, are the bytes
    written in order; `available_read()` counts the bytes written but not yet read,
    `available_write()` the room left; `Empty` and `Full` mean a count of `0` and of
    `RING_BUFFER_SIZE`; and `head` and `tail` stay below `RING_BUFFER_SIZE`. -/
theorem pipeRingBuffer_refines_boundedFifo {ls : List (FifoOp UInt8)} {s : PipeRingBuffer}
    (h : pipeSystem.Run PipeRingBuffer.new ls s) :
    (boundedFifo UInt8 ringBufferSize).Run [] ls s.contents ∧
    dequeued ls ++ s.contents = enqueued ls ∧
    s.availableRead = (enqueued ls).length - (dequeued ls).length ∧
    s.availableWrite = ringBufferSize - s.availableRead ∧
    (s.status = .empty ↔ s.availableRead = 0) ∧
    (s.status = .full ↔ s.availableRead = ringBufferSize) ∧
    s.head.val < ringBufferSize ∧ s.tail.val < ringBufferSize := by
  -- simulate the run under the invariant "some count is held"
  have hsim : (boundedFifo UInt8 ringBufferSize).Run PipeRingBuffer.new.contents ls s.contents ∧
      ∃ k, Holds s k :=
    LTS.Run.simulate PipeRingBuffer.contents
      (fun s₁ _ _ (hi : ∃ k, Holds s₁ k) hs => by
        obtain ⟨_, hi⟩ := hi
        exact (pipeSystem_step hi hs).1)
      (fun _ _ _ hi hs => by
        obtain ⟨_, hi⟩ := hi
        exact (pipeSystem_step hi hs).2) h ⟨0, Holds.new⟩
  obtain ⟨hrun, k, hk⟩ := hsim
  have hempty : PipeRingBuffer.new.contents = [] := by
    simp [PipeRingBuffer.contents, Holds.new.availableRead]
  rw [hempty] at hrun
  obtain ⟨horder, -⟩ := boundedFifo_run hrun
  have hlen : s.availableRead = s.contents.length := by
    simp [PipeRingBuffer.contents]
  refine ⟨hrun, horder, ?_, ?_, ?_, ?_, s.head.isLt, s.tail.isLt⟩
  · rw [hlen, ← horder, List.length_append]
    omega
  · rw [hk.availableWrite, hk.availableRead]
  · rw [hk.availableRead]; exact hk.empty_iff
  · rw [hk.availableRead]; exact hk.full_iff

/-- A write of `7` followed by a read of it, from a new buffer. -/
theorem pipeRingBuffer_write_read_seven :
    ∃ s, pipeSystem.Run PipeRingBuffer.new [.enq 7, .deq 7] s ∧
      dequeued [.enq 7, .deq 7] ++ s.contents = enqueued [FifoOp.enq (7 : UInt8), .deq 7] := by
  have hw : pipeSystem.step PipeRingBuffer.new (.enq 7) (PipeRingBuffer.new.writeByte 7) :=
    ⟨by decide, rfl⟩
  have hr : pipeSystem.step (PipeRingBuffer.new.writeByte 7) (.deq 7)
      (PipeRingBuffer.new.writeByte 7).readByte.2 :=
    ⟨by decide, Prod.ext (by decide) rfl⟩
  have hrun := LTS.Run.cons hw (LTS.Run.single hr)
  exact ⟨_, hrun, (pipeRingBuffer_refines_boundedFifo hrun).2.1⟩

end ArceOS.Posix.Pipe
