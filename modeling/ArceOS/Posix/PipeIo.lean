import ArceOS.Posix.Pipe
import ArceOS.Posix.FdOps

/-!
# Pipe Reads and Writes

`Pipe::read` and `Pipe::write` from `arceos_posix_api/src/imp/pipe.rs`. Each is an
outer `loop` whose passes lock the ring buffer, read `available_read()` (resp.
`available_write()`), and then either call `sys_sched_yield` when that is `0`, or run
a `for` loop of that many iterations that tests `read_size == max_len` (resp.
`write_size == max_len`) at its top before moving one byte.

A call is modelled up to the point where it returns or first yields: a yield hands
the CPU to the other tasks, which may change the ring before the next pass. A pass
whose `for` loop runs to its end goes round the outer loop again without yielding;
the outer loop is given `fuel` passes.

## Main results

- `read_of_lt`, `write_of_lt`: a request for fewer bytes than the ring holds (than it
  has room for) is served by the first pass, which returns without yielding.
- `read_of_ge`, `write_of_ge`: a request for at least what the ring holds (at least
  its room) copies all of it in the first pass, finds nothing left in the second, and
  there yields while the other end is open: also when the request was for exactly what
  the ring held, since the `for` loop ends before it tests `read_size == max_len` again.
-/

namespace ArceOS.Posix

/-! ## §1 Pipe ends and their loops -/

/-- `Pipe`: one end of a pipe. The shared `buffer` is passed to the calls as the ring
    it holds while they hold its lock. -/
structure Pipe where
  readable : Bool

namespace Pipe

/-- `Pipe::writable`. -/
def writable (p : Pipe) : Bool := !p.readable

/-- How a pass of the outer `loop` of `read` or `write` ends. -/
inductive Pass where
  /-- `return Ok(size)` -/
  | ret
  /-- `sys_sched_yield(); continue`: the task gives up the CPU and retries later -/
  | yield
  /-- the `for` loop ran to its end: the outer loop goes round again -/
  | again
  deriving DecidableEq, Repr

namespace PipeRingBuffer

/-- `j` calls of `read_byte`: the bytes they return, in order, and the ring after them. -/
def readN (s : PipeRingBuffer) : Nat → List UInt8 × PipeRingBuffer
  | 0 => ([], s)
  | j + 1 =>
    let r := s.readByte.2.readN j
    (s.readByte.1 :: r.1, r.2)

/-- `write_byte` of each byte of `bytes`, in order. -/
def writeN (s : PipeRingBuffer) (bytes : List UInt8) : PipeRingBuffer :=
  bytes.foldl writeByte s

@[simp] theorem readN_zero (s : PipeRingBuffer) : s.readN 0 = ([], s) := rfl

@[simp] theorem readN_succ (s : PipeRingBuffer) (j : Nat) :
    s.readN (j + 1) = (s.readByte.1 :: (s.readByte.2.readN j).1, (s.readByte.2.readN j).2) := rfl

@[simp] theorem writeN_nil (s : PipeRingBuffer) : s.writeN [] = s := rfl

@[simp] theorem writeN_cons (s : PipeRingBuffer) (b : UInt8) (bs : List UInt8) :
    s.writeN (b :: bs) = (s.writeByte b).writeN bs := rfl

end PipeRingBuffer

/-- The `for _ in 0..loop_read` loop of `Pipe::read` with `i` iterations left; `got` is
    `buf[..read_size]`. -/
def readFor (maxLen : Nat) :
    Nat → List UInt8 → PipeRingBuffer → Pass × List UInt8 × PipeRingBuffer
  | 0, got, s => (.again, got, s)
  | i + 1, got, s =>
    if got.length = maxLen then (.ret, got, s)
    else readFor maxLen i (got ++ [s.readByte.1]) s.readByte.2

/-- One pass of the outer loop of `Pipe::read`; `writeEndClose` is `write_end_close()`. -/
def readPass (writeEndClose : Bool) (maxLen : Nat) (got : List UInt8) (s : PipeRingBuffer) :
    Pass × List UInt8 × PipeRingBuffer :=
  let loopRead := s.availableRead
  if loopRead = 0 then
    if writeEndClose then (.ret, got, s) else (.yield, got, s)
  else readFor maxLen loopRead got s

/-- The outer loop of `Pipe::read`, for at most `fuel` passes. -/
def readLoop (writeEndClose : Bool) (maxLen : Nat) :
    Nat → List UInt8 → PipeRingBuffer → Pass × List UInt8 × PipeRingBuffer
  | 0, got, s => (.again, got, s)
  | fuel + 1, got, s =>
    match readPass writeEndClose maxLen got s with
    | (.again, got', s') => readLoop writeEndClose maxLen fuel got' s'
    | r => r

/-- `Pipe::read` into a buffer of `maxLen` bytes, until it returns or first yields: the
    way the call ended, the bytes copied into `buf`, and the ring. -/
def read (p : Pipe) (writeEndClose : Bool) (maxLen fuel : Nat) (s : PipeRingBuffer) :
    LinuxResult (Pass × List UInt8 × PipeRingBuffer) :=
  if !p.readable then .error .EPERM
  else .ok (readLoop writeEndClose maxLen fuel [] s)

/-- The `for _ in 0..loop_write` loop of `Pipe::write` with `i` iterations left; `n` is
    `write_size`. -/
def writeFor (buf : List UInt8) : Nat → Nat → PipeRingBuffer → Pass × Nat × PipeRingBuffer
  | 0, n, s => (.again, n, s)
  | i + 1, n, s =>
    if n = buf.length then (.ret, n, s)
    -- `buf[write_size]` is in bounds here, as `write_size < max_len`
    else writeFor buf i (n + 1) (s.writeByte (buf.getD n 0))

/-- One pass of the outer loop of `Pipe::write`. -/
def writePass (buf : List UInt8) (n : Nat) (s : PipeRingBuffer) : Pass × Nat × PipeRingBuffer :=
  let loopWrite := s.availableWrite
  if loopWrite = 0 then (.yield, n, s)
  else writeFor buf loopWrite n s

/-- The outer loop of `Pipe::write`, for at most `fuel` passes. -/
def writeLoop (buf : List UInt8) : Nat → Nat → PipeRingBuffer → Pass × Nat × PipeRingBuffer
  | 0, n, s => (.again, n, s)
  | fuel + 1, n, s =>
    match writePass buf n s with
    | (.again, n', s') => writeLoop buf fuel n' s'
    | r => r

/-- `Pipe::write` of `buf`, until it returns or first yields: the way the call ended,
    `write_size`, and the ring. -/
def write (p : Pipe) (buf : List UInt8) (fuel : Nat) (s : PipeRingBuffer) :
    LinuxResult (Pass × Nat × PipeRingBuffer) :=
  if !p.writable then .error .EPERM
  else .ok (writeLoop buf fuel 0 s)

/-! ## §2 Many bytes at once -/

namespace Holds

variable {s : PipeRingBuffer} {k m j : Nat}

theorem length_contents (h : Holds s k) : s.contents.length = k := by
  simp [PipeRingBuffer.contents, h.availableRead]

/-- `j` reads from a ring holding `m ≥ j` bytes return its first `j` bytes and leave
    the other `m - j`. -/
theorem readN (h : Holds s m) (hj : j ≤ m) :
    Holds (s.readN j).2 (m - j) ∧ (s.readN j).1 = s.contents.take j ∧
      (s.readN j).2.contents = s.contents.drop j := by
  induction j generalizing s m with
  | zero => simpa using h
  | succ j ih =>
    obtain ⟨m, rfl⟩ : ∃ m', m = m' + 1 := ⟨m - 1, by omega⟩
    obtain ⟨h₁, h₂, h₃⟩ := ih h.readByte (by omega)
    have hc := h.contents_readByte
    refine ⟨by simpa using h₁, ?_, ?_⟩
    · rw [PipeRingBuffer.readN_succ, h₂, hc, List.take_succ_cons]
    · rw [PipeRingBuffer.readN_succ, h₃, hc, List.drop_succ_cons]

/-- Writing `bytes` into a ring with room for them appends them. -/
theorem writeN {bytes : List UInt8} (h : Holds s k) (hk : k + bytes.length ≤ ringBufferSize) :
    Holds (s.writeN bytes) (k + bytes.length) ∧
      (s.writeN bytes).contents = s.contents ++ bytes := by
  induction bytes generalizing s k with
  | nil => simpa using h
  | cons b bs ih =>
    have hlt : k < ringBufferSize := by simp only [List.length_cons] at hk; omega
    obtain ⟨h₁, h₂⟩ := ih (h.writeByte hlt b) (by simp only [List.length_cons] at hk; omega)
    refine ⟨by simpa [Nat.add_assoc, Nat.add_comm 1] using h₁, ?_⟩
    rw [PipeRingBuffer.writeN_cons, h₂, h.contents_writeByte hlt b, List.append_assoc,
      List.singleton_append]

end Holds

/-! ## §3 The `for` loops -/

variable {maxLen i n : Nat} {got : List UInt8} {s : PipeRingBuffer} {buf : List UInt8}

/-- A `for` loop of `read` that cannot reach `max_len` runs all its iterations. -/
theorem readFor_of_le (h : got.length + i ≤ maxLen) :
    readFor maxLen i got s = (.again, got ++ (s.readN i).1, (s.readN i).2) := by
  fun_induction readFor maxLen i got s with
  | case1 got s => simp
  | case2 i got s heq => omega
  | case3 i got s hne ih =>
    rw [ih (by simp only [List.length_append, List.length_singleton]; omega)]
    simp

/-- A `for` loop of `read` that reaches `max_len` returns there, having read
    `max_len - read_size` more bytes. -/
theorem readFor_of_lt (hle : got.length ≤ maxLen) (hlt : maxLen - got.length < i) :
    readFor maxLen i got s =
      (.ret, got ++ (s.readN (maxLen - got.length)).1, (s.readN (maxLen - got.length)).2) := by
  fun_induction readFor maxLen i got s with
  | case1 got s => omega
  | case2 i got s heq => simp [heq]
  | case3 i got s hne ih =>
    have hlen : (got ++ [s.readByte.1]).length = got.length + 1 := by simp
    rw [ih (by omega) (by omega), hlen,
      show maxLen - got.length = maxLen - (got.length + 1) + 1 by omega]
    simp

private theorem drop_eq_getD_cons (h : n < buf.length) :
    buf.drop n = buf.getD n 0 :: buf.drop (n + 1) := by
  rw [List.drop_eq_getElem_cons h, List.getD_eq_getElem?_getD, List.getElem?_eq_getElem h,
    Option.getD_some]

/-- A `for` loop of `write` that cannot reach `max_len` runs all its iterations. -/
theorem writeFor_of_le (h : n + i ≤ buf.length) :
    writeFor buf i n s = (.again, n + i, s.writeN ((buf.drop n).take i)) := by
  fun_induction writeFor buf i n s with
  | case1 n s => simp
  | case2 i s => omega
  | case3 i n s hne ih =>
    rw [ih (by omega), drop_eq_getD_cons (n := n) (by omega)]
    simp only [Nat.succ_eq_add_one, ← Nat.add_assoc, Nat.add_right_comm n i 1,
      List.take_succ_cons, PipeRingBuffer.writeN_cons]

/-- A `for` loop of `write` that reaches `max_len` returns there, having written the
    rest of `buf`. -/
theorem writeFor_of_lt (hle : n ≤ buf.length) (hlt : buf.length - n < i) :
    writeFor buf i n s = (.ret, buf.length, s.writeN (buf.drop n)) := by
  fun_induction writeFor buf i n s with
  | case1 n s => omega
  | case2 i s => simp
  | case3 i n s hne ih =>
    rw [ih (by omega) (by omega), drop_eq_getD_cons (n := n) (by omega),
      PipeRingBuffer.writeN_cons]

/-! ## §4 The outer loops -/

variable {c : Bool} {fuel : Nat} {r : Pass × List UInt8 × PipeRingBuffer}

theorem readPass_of_empty (h : s.availableRead = 0) :
    readPass c maxLen got s = (if c then .ret else .yield, got, s) := by
  cases c <;> simp [readPass, h]

theorem readPass_of_pos (h : 0 < s.availableRead) :
    readPass c maxLen got s = readFor maxLen s.availableRead got s := by
  simp [readPass, Nat.pos_iff_ne_zero.mp h]

theorem readLoop_of_again {got' : List UInt8} {s' : PipeRingBuffer}
    (h : readPass c maxLen got s = (.again, got', s')) :
    readLoop c maxLen (fuel + 1) got s = readLoop c maxLen fuel got' s' := by
  simp [readLoop, h]

theorem readLoop_of_ne_again (h : readPass c maxLen got s = r) (hr : r.1 ≠ .again) :
    readLoop c maxLen (fuel + 1) got s = r := by
  obtain ⟨p, got', s'⟩ := r
  cases p <;> simp_all [readLoop]

theorem writePass_of_full (h : s.availableWrite = 0) : writePass buf n s = (.yield, n, s) := by
  simp [writePass, h]

theorem writePass_of_pos (h : 0 < s.availableWrite) :
    writePass buf n s = writeFor buf s.availableWrite n s := by
  simp [writePass, Nat.pos_iff_ne_zero.mp h]

theorem writeLoop_of_again {n' : Nat} {s' : PipeRingBuffer}
    (h : writePass buf n s = (.again, n', s')) :
    writeLoop buf (fuel + 1) n s = writeLoop buf fuel n' s' := by
  simp [writeLoop, h]

theorem writeLoop_of_ne_again {w : Pass × Nat × PipeRingBuffer} (h : writePass buf n s = w)
    (hw : w.1 ≠ .again) : writeLoop buf (fuel + 1) n s = w := by
  obtain ⟨p, n', s'⟩ := w
  cases p <;> simp_all [writeLoop]

/-! ## §5 When a call returns -/

variable {p : Pipe} {k : Nat}

/-- A read of fewer bytes than the ring holds returns them in the first pass, without
    yielding, and leaves the rest queued. -/
theorem read_of_lt (hp : p.readable) (h : Holds s k) (hn : n < k) (hf : 0 < fuel) :
    p.read c n fuel s = .ok (.ret, s.contents.take n, (s.readN n).2) := by
  obtain ⟨fuel, rfl⟩ : ∃ f, fuel = f + 1 := ⟨fuel - 1, by omega⟩
  have hpass : readPass c n [] s = (.ret, s.contents.take n, (s.readN n).2) := by
    rw [readPass_of_pos (by rw [h.availableRead]; omega), h.availableRead,
      readFor_of_lt (by simp) (by simpa using hn)]
    simp [(h.readN (Nat.le_of_lt hn)).2.1]
  simp [read, hp, readLoop_of_ne_again hpass]

/-- A read of at least the `k > 0` bytes the ring holds copies them all in the first
    pass, finds the ring empty in the second, and there returns only if the write end is
    closed: otherwise it yields, also when it asked for exactly `k` bytes. -/
theorem read_of_ge (hp : p.readable) (h : Holds s k) (hk : 0 < k) (hn : k ≤ n)
    (hf : 2 ≤ fuel) :
    p.read c n fuel s = .ok (if c then .ret else .yield, s.contents, (s.readN k).2) := by
  obtain ⟨fuel, rfl⟩ : ∃ f, fuel = f + 1 + 1 := ⟨fuel - 2, by omega⟩
  obtain ⟨hk', htake, -⟩ := h.readN (Nat.le_refl k)
  -- the first pass copies the `k` bytes and runs its `for` loop to the end
  have h₁ : readPass c n [] s = (.again, s.contents, (s.readN k).2) := by
    rw [readPass_of_pos (by rw [h.availableRead]; exact hk), h.availableRead,
      readFor_of_le (by simpa using hn), htake, List.take_of_length_le (Nat.le_of_eq h.length_contents)]
    simp
  -- the second finds nothing to read
  have h₂ : readPass c n s.contents (s.readN k).2 =
      (if c then .ret else .yield, s.contents, (s.readN k).2) :=
    readPass_of_empty (by simpa using hk'.availableRead)
  have hne : (if c then Pass.ret else .yield, s.contents, (s.readN k).2).1 ≠ .again := by
    cases c <;> simp
  simp [read, hp, readLoop_of_again h₁, readLoop_of_ne_again h₂ hne]

/-- A write of fewer bytes than the ring has room for stores them all in the first pass
    and returns without yielding. -/
theorem write_of_lt (hp : p.writable) (h : Holds s k) (hn : buf.length < ringBufferSize - k)
    (hf : 0 < fuel) :
    p.write buf fuel s = .ok (.ret, buf.length, s.writeN buf) := by
  obtain ⟨fuel, rfl⟩ : ∃ f, fuel = f + 1 := ⟨fuel - 1, by omega⟩
  have hpass : writePass buf 0 s = (.ret, buf.length, s.writeN buf) := by
    rw [writePass_of_pos (by rw [h.availableWrite]; omega), h.availableWrite,
      writeFor_of_lt (Nat.zero_le _) (by omega), List.drop_zero]
  simp [write, hp, writeLoop_of_ne_again hpass]

/-- A write of at least the room `ringBufferSize - k > 0` left fills the ring in the first
    pass, finds it full in the second, and yields there, also when it asked to write
    exactly that many bytes. -/
theorem write_of_ge (hp : p.writable) (h : Holds s k) (hk : k < ringBufferSize)
    (hn : ringBufferSize - k ≤ buf.length) (hf : 2 ≤ fuel) :
    p.write buf fuel s =
      .ok (.yield, ringBufferSize - k, s.writeN (buf.take (ringBufferSize - k))) := by
  obtain ⟨fuel, rfl⟩ : ∃ f, fuel = f + 1 + 1 := ⟨fuel - 2, by omega⟩
  have hlen : (buf.take (ringBufferSize - k)).length = ringBufferSize - k := by simp; omega
  have hfull : Holds (s.writeN (buf.take (ringBufferSize - k)))
      (k + (buf.take (ringBufferSize - k)).length) := (h.writeN (by omega)).1
  rw [hlen, show k + (ringBufferSize - k) = ringBufferSize by omega] at hfull
  -- the first pass fills the ring and runs its `for` loop to the end
  have h₁ : writePass buf 0 s =
      (.again, ringBufferSize - k, s.writeN (buf.take (ringBufferSize - k))) := by
    rw [writePass_of_pos (by rw [h.availableWrite]; omega), h.availableWrite,
      writeFor_of_le (by omega), List.drop_zero, Nat.zero_add]
  -- the second finds no room
  have h₂ : writePass buf (ringBufferSize - k) (s.writeN (buf.take (ringBufferSize - k))) =
      (.yield, ringBufferSize - k, s.writeN (buf.take (ringBufferSize - k))) :=
    writePass_of_full (by simpa using hfull.availableWrite)
  simp [write, hp, writeLoop_of_again h₁, writeLoop_of_ne_again h₂]

/-- A read end asked for exactly the one byte its ring holds, while the write end is
    open, yields instead of returning; so does a write end asked to write exactly the
    `RING_BUFFER_SIZE` bytes an empty ring has room for. -/
theorem pipe_exact_request_yields :
    (Pipe.mk true).read false 1 2 (PipeRingBuffer.new.writeByte 7) =
        .ok (.yield, [7], ((PipeRingBuffer.new.writeByte 7).readN 1).2) ∧
      (Pipe.mk false).write (List.replicate ringBufferSize 0) 2 PipeRingBuffer.new =
        .ok (.yield, ringBufferSize,
          PipeRingBuffer.new.writeN (List.replicate ringBufferSize 0)) := by
  have h₁ : Holds (PipeRingBuffer.new.writeByte 7) 1 := Holds.new.writeByte (by decide) 7
  have hnew : PipeRingBuffer.new.contents = [] := by
    simp [PipeRingBuffer.contents, Holds.new.availableRead]
  have hc : (PipeRingBuffer.new.writeByte 7).contents = [7] := by
    rw [Holds.new.contents_writeByte (by decide), hnew, List.nil_append]
  constructor
  · simpa [hc] using read_of_ge (p := ⟨true⟩) (c := false) rfl h₁ Nat.one_pos
      (Nat.le_refl 1) (Nat.le_refl 2)
  · have hw : (Pipe.mk false).write (List.replicate ringBufferSize 0) 2 PipeRingBuffer.new =
        .ok (.yield, ringBufferSize - 0,
          PipeRingBuffer.new.writeN ((List.replicate ringBufferSize 0).take (ringBufferSize - 0))) :=
      write_of_ge rfl Holds.new (by decide) (by simp) (Nat.le_refl 2)
    simpa using hw

end Pipe

end ArceOS.Posix
