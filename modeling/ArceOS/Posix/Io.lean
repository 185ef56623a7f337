import ArceOS.Posix.FdOps
import ArceOS.Lib.ByteStore

/-!
# `write` and `writev`

`sys_write` and `sys_writev` of `arceos_posix_api/src/imp/io.rs`. `sys_write` refuses a
null buffer (`EFAULT`) and hands the bytes to the file object of `fd`; that object's
`write` is a parameter here: on the state `σ` of the open files it gives a count or an
error, and the state after (`EBADF` for a descriptor that is not open is one of its
errors). `syscall_body!` turns the result into the C return value.

`sys_writev` checks `iocnt`, calls `sys_write` on every entry of the array in turn and adds
up what each returned: the counts, and also the negated errno of each write that failed.
It goes on after a failure and returns the sum. POSIX asks for the bytes written before
the first failure, or the error of the first write when it fails (`posixWritev`); the two
agree when every write succeeds, and otherwise the sum can be a count that was never
written or the code of an error that did not happen.

A count is at most the length of its buffer; the sum is an `Int`, without the wrap of the
`isize` addition past `2^63`.

## Main results

- `writevLoop_eq`: the loop returns the sum of the return values of the writes;
- `sysWritev_of_ok`: when every write succeeds, `writev` returns what POSIX asks;
- `writev_adds_error_codes`: a write of `5` bytes then one from a null buffer return `-9`,
  the code of `EBADF`.
-/

namespace ArceOS.Posix

open ArceOS.Lib.ByteStore

/-- `struct iovec`: the address and the length of a buffer. -/
structure Iovec where
  iovBase : Nat
  iovLen : Nat
  deriving DecidableEq, Repr

/-- The C return value of a result of `sys_write`: the count, or the negated errno. -/
def returnValue (r : LinuxResult Nat) : Int := syscallBody (r.map (↑))

section Io

variable {σ : Type} (fileWrite : σ → Int → List UInt8 → LinuxResult Nat × σ)
  (mem : Nat → UInt8)

/-- The body of `sys_write(fd, buf, count)` inside `syscall_body!`: the count or the
    error, and the state after. -/
def writeBody (s : σ) (fd : Int) (buf count : Nat) : LinuxResult Nat × σ :=
  if buf = 0 then (.error .EFAULT, s)
  else fileWrite s fd (readRange mem buf count)

/-- `sys_write(fd, buf, count)`: the C return value, and the state after. -/
def sysWrite (s : σ) (fd : Int) (buf count : Nat) : Int × σ :=
  let r := writeBody fileWrite mem s fd buf count
  (returnValue r.1, r.2)

/-- The `for` loop of `sys_writev`: `ret += sys_write(fd, iov.iov_base, iov.iov_len)`
    for each entry. -/
def writevLoop (fd : Int) : List Iovec → Int × σ → Int × σ
  | [], acc => acc
  | v :: vs, (ret, s) =>
    let r := sysWrite fileWrite mem s fd v.iovBase v.iovLen
    writevLoop fd vs (ret + r.1, r.2)

/-- `sys_writev(fd, iov, iocnt)`, the array `iov` given by its entries. -/
def sysWritev (s : σ) (fd : Int) (iov : Nat → Iovec) (iocnt : Int) : Int × σ :=
  if ¬(0 ≤ iocnt ∧ iocnt ≤ 1024) then (syscallBody (.error .EINVAL), s)
  else
    -- `from_raw_parts(iov, iocnt as usize)`
    let r := writevLoop fileWrite mem fd ((List.range iocnt.toNat).map iov) (0, s)
    (syscallBody (.ok r.1), r.2)

/-- The results of the writes of the entries `vs`, in order, and the state after them. -/
def writeOutcomes (fd : Int) : List Iovec → σ → List (LinuxResult Nat) × σ
  | [], s => ([], s)
  | v :: vs, s =>
    let r := writeBody fileWrite mem s fd v.iovBase v.iovLen
    let rest := writeOutcomes fd vs r.2
    (r.1 :: rest.1, rest.2)

end Io

/-! ## What POSIX asks -/

/-- The bytes of the writes before the first that fails. -/
def writtenBeforeFailure : List (LinuxResult Nat) → Nat
  | [] => 0
  | .error _ :: _ => 0
  | .ok n :: rs => n + writtenBeforeFailure rs

/-- The return value POSIX asks of `writev` after writes with results `rs`: the bytes
    written before the first failure, or the negated errno of the first write when it
    fails. -/
def posixWritev : List (LinuxResult Nat) → Int
  | .error e :: _ => -(e.code : Int)
  | rs => writtenBeforeFailure rs

/-! ## The loop -/

section Loop

variable {σ : Type} (fileWrite : σ → Int → List UInt8 → LinuxResult Nat × σ)
  (mem : Nat → UInt8) (fd : Int)

/-- The loop adds the return values of the writes, one after another, and leaves the
    state the writes leave. -/
theorem writevLoop_eq (vs : List Iovec) (ret : Int) (s : σ) :
    writevLoop fileWrite mem fd vs (ret, s) =
      (ret + ((writeOutcomes fileWrite mem fd vs s).1.map returnValue).sum,
        (writeOutcomes fileWrite mem fd vs s).2) := by
  induction vs generalizing ret s with
  | nil => simp [writevLoop, writeOutcomes]
  | cons v vs ih =>
    rw [writevLoop, ih]
    simp only [writeOutcomes, sysWrite, List.map_cons, List.sum_cons]
    rw [Int.add_assoc]

/-- Before any failure, the bytes written are the sum of the counts. -/
theorem writtenBeforeFailure_of_ok {rs : List (LinuxResult Nat)}
    (h : ∀ r ∈ rs, ∃ n, r = .ok n) :
    (writtenBeforeFailure rs : Int) = (rs.map returnValue).sum := by
  induction rs with
  | nil => rfl
  | cons r rs ih =>
    obtain ⟨n, rfl⟩ := h r (List.mem_cons_self ..)
    rw [writtenBeforeFailure, List.map_cons, List.sum_cons, Int.natCast_add,
      ih fun r hr => h r (List.mem_cons_of_mem _ hr)]
    rfl

/-- The bytes of writes that all succeed. -/
theorem posixWritev_of_ok {rs : List (LinuxResult Nat)} (h : ∀ r ∈ rs, ∃ n, r = .ok n) :
    posixWritev rs = (rs.map returnValue).sum := by
  cases rs with
  | nil => rfl
  | cons r rs =>
    obtain ⟨n, rfl⟩ := h r (List.mem_cons_self ..)
    exact writtenBeforeFailure_of_ok h

/-- When every write succeeds, `writev` returns the bytes written, as POSIX asks. -/
theorem sysWritev_of_ok (s : σ) (iov : Nat → Iovec) {iocnt : Int}
    (hcnt : 0 ≤ iocnt ∧ iocnt ≤ 1024)
    (hok : ∀ r ∈ (writeOutcomes fileWrite mem fd ((List.range iocnt.toNat).map iov) s).1,
      ∃ n, r = .ok n) :
    (sysWritev fileWrite mem s fd iov iocnt).1 =
      posixWritev (writeOutcomes fileWrite mem fd ((List.range iocnt.toNat).map iov) s).1 := by
  rw [sysWritev, if_neg (not_not.mpr hcnt)]
  simp only [writevLoop_eq, syscallBody, Int.zero_add]
  rw [posixWritev_of_ok hok]

end Loop

/-- A descriptor that takes every byte it is given. -/
def acceptAll : Unit → Int → List UInt8 → LinuxResult Nat × Unit :=
  fun _ _ bytes => (.ok bytes.length, ())

/-- `sys_writev` adds every return value of `sys_write` into its total: `5` bytes written
    and then `-EFAULT` make `-9`, which reads as `-EBADF`, where POSIX returns `5`. -/
theorem writev_adds_error_codes :
    writeOutcomes acceptAll (fun _ => 0) 1 [⟨0x1000, 5⟩, ⟨0, 3⟩] () =
        ([.ok 5, .error .EFAULT], ()) ∧
      (sysWritev acceptAll (fun _ => 0) () 1
        (fun i => if i = 0 then ⟨0x1000, 5⟩ else ⟨0, 3⟩) 2).1 = -9 ∧
      posixWritev [.ok 5, .error .EFAULT] = 5 ∧ LinuxError.EBADF.code = 9 := by
  decide

end ArceOS.Posix
