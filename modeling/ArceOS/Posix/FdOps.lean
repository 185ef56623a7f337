import Mathlib

/-!
# File Descriptors, Poll States and Linux Errors

The pieces of `arceos_posix_api` that the I/O calls share:

- `LinuxError`: the `axerrno::LinuxError` variants the modelled calls return, with the
  errno values that `syscall_body!` (in `utils.rs`) negates into a C return value;
- `PollState`: `axio::PollState`, what `FileLike::poll` reports;
- `FdTable`: `FD_TABLE` from `imp/fd_ops.rs`, seen through `get_file_like` and `poll`,
  the only two things `select` and `epoll` do with it.

A file object is modelled by the result its `poll` returns: the multiplexing calls read
nothing else of it, and they read it once per call of `poll_all`.
-/

namespace ArceOS.Posix

/-! ## §1 Errors and `syscall_body!` -/

/-- The `axerrno::LinuxError` variants returned by the modelled calls. -/
inductive LinuxError where
  | EPERM
  | ENOENT
  | ESRCH
  | EINTR
  | EBADF
  | EAGAIN
  | EFAULT
  | EEXIST
  | EINVAL
  | EDEADLK
  | ENOSYS
  deriving DecidableEq, Repr

/-- `LinuxError::code`: the Linux errno value. -/
def LinuxError.code : LinuxError → Nat
  | .EPERM => 1
  | .ENOENT => 2
  | .ESRCH => 3
  | .EINTR => 4
  | .EBADF => 9
  | .EAGAIN => 11
  | .EFAULT => 14
  | .EEXIST => 17
  | .EINVAL => 22
  | .EDEADLK => 35
  | .ENOSYS => 38

/-- `LinuxResult<T>`. -/
abbrev LinuxResult (α : Type) := Except LinuxError α

/-- `syscall_body!`: `Ok(v)` becomes `v`, `Err(e)` becomes `-e.code()`. -/
def syscallBody (res : LinuxResult Int) : Int :=
  match res with
  | .ok v => v
  | .error e => -(e.code : Int)

theorem LinuxError.code_pos (e : LinuxError) : 0 < e.code := by
  cases e <;> decide

/-- Distinct errors have distinct codes, so the C caller can tell them apart. -/
theorem LinuxError.code_injective : Function.Injective LinuxError.code := by
  intro e₁ e₂ h
  cases e₁ <;> cases e₂ <;> first | rfl | (simp only [LinuxError.code] at h; omega)

/-- A failed call returns a negative value, and a successful one its result: the caller
    reads success from the sign alone whenever the result is not negative. -/
theorem syscallBody_neg_iff (res : LinuxResult Int) (hok : ∀ v, res = .ok v → 0 ≤ v) :
    syscallBody res < 0 ↔ ∃ e, res = .error e := by
  cases res with
  | error e =>
    have := e.code_pos
    simp only [syscallBody, Except.error.injEq, exists_eq', iff_true]
    omega
  | ok v =>
    have := hok v rfl
    simp only [syscallBody, reduceCtorEq, exists_false, iff_false]
    omega

/-! ## §2 Poll states and the file table -/

/-- `axio::PollState`. -/
structure PollState where
  readable : Bool
  writable : Bool
  deriving DecidableEq, Repr

/-- `FD_TABLE` as the multiplexing calls see it: for each open descriptor, what its
    `FileLike::poll` returns now; `none` for a descriptor that is not open. -/
structure FdTable where
  poll : Nat → Option (LinuxResult PollState)

/-- `get_file_like(fd)?.poll()`: `EBADF` for a descriptor that is not open, else the
    file's own poll result, kept apart from the lookup error. -/
def FdTable.getFileLike (t : FdTable) (fd : Nat) : LinuxResult (LinuxResult PollState) :=
  match t.poll fd with
  | none => .error .EBADF
  | some r => .ok r

@[simp] theorem FdTable.getFileLike_of_none {t : FdTable} {fd : Nat} (h : t.poll fd = none) :
    t.getFileLike fd = .error .EBADF := by
  simp [FdTable.getFileLike, h]

@[simp] theorem FdTable.getFileLike_of_some {t : FdTable} {fd : Nat}
    {r : LinuxResult PollState} (h : t.poll fd = some r) :
    t.getFileLike fd = .ok r := by
  simp [FdTable.getFileLike, h]

end ArceOS.Posix
