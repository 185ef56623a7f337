import ArceOS.Lib.IdTable
import ArceOS.Lib.Transition
import ArceOS.Posix.Time

/-!
# The Descriptor Table and the Calls on It

`FD_TABLE` in `imp/fd_ops.rs` is a `FlattenObjects<Arc<dyn FileLike>, AX_FILE_LIMIT>`, an
`IdTable` of capacity `1024` whose objects have the type `φ`. The table starts with
`stdin` under `0` and `stdout` under `1` and `2`. `add_file_like` (for `sys_open`,
`sys_socket`, `sys_accept` and `epoll_create`), `close_file_like`, `sys_close`, `sys_dup`,
`sys_dup2`, `sys_fcntl` and the table part of `sys_pipe` are the calls that change it.

## Main results

- `slot_stdio_of_reachable`: along every run of the calls, from the initial table,
  the descriptors `0`, `1` and `2` keep their objects.
- `slot_of_run_of_not_closes`: along every run, a descriptor keeps its object until a
  `close` of it; `dup2` onto an open descriptor fails rather than replacing its object.
- `run_of_neg`: a call that returns a negative value leaves the table as it was. For
  `sys_pipe`, that includes undoing the read end's descriptor when the write end's fails.

The specification of each call on its own is in §4: `dup` hands out the lowest free
descriptor (`sysDup_of_open`), `dup2(fd, fd)` returns `fd` whether `fd` is open or not
(`sysDup2_self`), `fcntl(fd, F_DUPFD, arg)` is `dup(fd)` whatever `arg` is
(`sysFcntl_dupfd`), and `pipe` takes the two lowest free descriptors, in order
(`sysPipe_of_two_free`), or none (`sysPipe_of_one_free`).
-/

namespace ArceOS.Posix.Fd

open ArceOS.Lib ArceOS.Lib.IdTable

/-! ## §1 Constants, errors and the table -/

/-- `AX_FILE_LIMIT`. -/
def AX_FILE_LIMIT : Nat := 1024

/-- `F_DUPFD`. -/
def F_DUPFD : Nat := 0

/-- `F_GETFD`. -/
def F_GETFD : Nat := 1

/-- `F_SETFL`. -/
def F_SETFL : Nat := 4

/-- `F_DUPFD_CLOEXEC`. -/
def F_DUPFD_CLOEXEC : Nat := 1030

/-- `O_NONBLOCK`, `04000`. -/
def O_NONBLOCK : Nat := 2048

/-- The errors of the descriptor calls: a `LinuxError` of `Posix.FdOps`, or `EMFILE`,
    which only the table returns. -/
inductive FdError where
  | linux (e : LinuxError)
  | EMFILE

/-- `LinuxError::code`. -/
def FdError.code : FdError → Nat
  | .linux e => e.code
  | .EMFILE => 24

/-- `syscall_body!`: `Ok(v)` becomes `v`, `Err(e)` becomes `-e.code()`. -/
def syscallBody (res : Except FdError Int) : Int :=
  match res with
  | .ok v => v
  | .error e => -(e.code : Int)

/-- A `c_int` argument. -/
def IsCInt (v : Int) : Prop := -2 ^ 31 ≤ v ∧ v < 2 ^ 31

instance (v : Int) : Decidable (IsCInt v) := inferInstanceAs (Decidable (_ ∧ _))

/-- `FD_TABLE`, holding file objects of type `φ`. -/
abbrev Table (φ : Type) := IdTable φ AX_FILE_LIMIT

variable {φ : Type}

/-- The `lazy_static` initialiser of `FD_TABLE`: `add_at(0, stdin)`, `add_at(1, stdout)` and
    `add_at(2, stdout)`, each `unwrap`ped; `none` is the panic of an `unwrap`. -/
def initTable (stdin stdout : φ) : Option (Table φ) := do
  let (_, t) ← (IdTable.empty : Table φ).addAt 0 stdin
  let (_, t) ← t.addAt 1 stdout
  let (_, t) ← t.addAt 2 stdout
  pure t

theorem zero_lt_limit : 0 < AX_FILE_LIMIT := by decide

theorem one_lt_limit : 1 < AX_FILE_LIMIT := by decide

theorem two_lt_limit : 2 < AX_FILE_LIMIT := by decide

/-- The table the initialiser builds. -/
def stdioTable (stdin stdout : φ) : Table φ :=
  (((IdTable.empty : Table φ).insert 0 zero_lt_limit stdin).insert 1 one_lt_limit stdout).insert 2
    two_lt_limit stdout

/-- The initialiser's `unwrap`s do not panic. -/
theorem initTable_eq (stdin stdout : φ) : initTable stdin stdout = some (stdioTable stdin stdout) := by
  have h₀ : (IdTable.empty : Table φ).addAt 0 stdin =
      some (0, (IdTable.empty : Table φ).insert 0 zero_lt_limit stdin) :=
    addAt_eq_some_iff.mpr ⟨zero_lt_limit, rfl, rfl, rfl⟩
  have h₁ : ((IdTable.empty : Table φ).insert 0 zero_lt_limit stdin).addAt 1 stdout =
      some (1, ((IdTable.empty : Table φ).insert 0 zero_lt_limit stdin).insert 1 one_lt_limit
        stdout) :=
    addAt_eq_some_iff.mpr ⟨one_lt_limit, by simp, rfl, rfl⟩
  have h₂ : (((IdTable.empty : Table φ).insert 0 zero_lt_limit stdin).insert 1 one_lt_limit
      stdout).addAt 2 stdout = some (2, stdioTable stdin stdout) :=
    addAt_eq_some_iff.mpr ⟨two_lt_limit, by simp, rfl, rfl⟩
  simp only [initTable, h₀, h₁, h₂, Option.bind_eq_bind, Option.bind_some, Option.pure_def]

theorem slot_stdioTable {stdin stdout : φ} :
    (stdioTable stdin stdout).slot 0 = some stdin ∧ (stdioTable stdin stdout).slot 1 = some stdout ∧
      (stdioTable stdin stdout).slot 2 = some stdout := by
  simp [stdioTable]

/-! ## §2 The calls -/

section Calls

variable (setNonblocking : φ → Bool → Except FdError Unit)

/-- `get_file_like(fd)`: the object under `fd as usize`, or `EBADF`. -/
def getFileLike (t : Table φ) (fd : Int) : Except FdError φ :=
  match t.get (longAsU64 fd) with
  | some f => .ok f
  | none => .error (.linux .EBADF)

/-- `add_file_like(f)`: the descriptor `add` hands out (below `AX_FILE_LIMIT`, so `as c_int`
    keeps it), or `EMFILE`. -/
def addFileLike (t : Table φ) (f : φ) : Except FdError Int × Table φ :=
  match t.add f with
  | some (fd, t') => (.ok fd, t')
  | none => (.error .EMFILE, t)

/-- `close_file_like(fd)`: free the descriptor and drop its object, or `EBADF`. -/
def closeFileLike (t : Table φ) (fd : Int) : Except FdError Unit × Table φ :=
  match t.remove (longAsU64 fd) with
  | some (_, t') => (.ok (), t')
  | none => (.error (.linux .EBADF), t)

/-- `sys_close(fd)`: `0` at once for the descriptors `0`, `1` and `2`. -/
def sysClose (t : Table φ) (fd : Int) : Int × Table φ :=
  if 0 ≤ fd ∧ fd ≤ 2 then (0, t)
  else
    let r := closeFileLike t fd
    (syscallBody (r.1.map fun _ => 0), r.2)

/-- `dup_fd(old_fd)`. -/
def dupFd (t : Table φ) (oldFd : Int) : Except FdError Int × Table φ :=
  match getFileLike t oldFd with
  | .error e => (.error e, t)
  | .ok f => addFileLike t f

/-- `sys_dup(old_fd)`. -/
def sysDup (t : Table φ) (oldFd : Int) : Int × Table φ :=
  let r := dupFd t oldFd
  (syscallBody r.1, r.2)

/-- The body of `sys_fcntl(fd, cmd, arg)`, the `match cmd as u32`; `set_nonblocking` of
    the file object is `setNonblocking`. -/
def fcntlBody (t : Table φ) (fd cmd : Int) (arg : Nat) : Except FdError Int × Table φ :=
  let c := longAsU32 cmd
  if c = F_DUPFD then dupFd t fd
  else if c = F_DUPFD_CLOEXEC then dupFd t fd
  else if c = F_SETFL then
    if fd = 0 ∨ fd = 1 ∨ fd = 2 then (.ok 0, t)
    else
      match getFileLike t fd with
      | .error e => (.error e, t)
      | .ok f =>
        match setNonblocking f (decide (0 < (arg &&& O_NONBLOCK))) with
        | .error e => (.error e, t)
        | .ok () => (.ok 0, t)
  -- `F_GETFD` and every other command: `Ok(0)`
  else (.ok 0, t)

/-- `sys_fcntl(fd, cmd, arg)`. -/
def sysFcntl (t : Table φ) (fd cmd : Int) (arg : Nat) : Int × Table φ :=
  let r := fcntlBody setNonblocking t fd cmd arg
  (syscallBody r.1, r.2)

/-- The body of `sys_dup2(old_fd, new_fd)`. For `old_fd == new_fd` it asks
    `sys_fcntl(old_fd, F_GETFD, 0)` and returns `old_fd` when that is not negative. -/
def dup2Body (t : Table φ) (oldFd newFd : Int) : Except FdError Int × Table φ :=
  if oldFd = newFd then
    let r := sysFcntl setNonblocking t oldFd F_GETFD 0
    if 0 ≤ r.1 then (.ok oldFd, r.2) else (.ok r.1, r.2)
  else if AX_FILE_LIMIT ≤ longAsU64 newFd then (.error (.linux .EBADF), t)
  else
    match getFileLike t oldFd with
    | .error e => (.error e, t)
    | .ok f =>
      match t.addAt (longAsU64 newFd) f with
      | some (_, t') => (.ok newFd, t')
      | none => (.error .EMFILE, t)

/-- `sys_dup2(old_fd, new_fd)`. -/
def sysDup2 (t : Table φ) (oldFd newFd : Int) : Int × Table φ :=
  let r := dup2Body setNonblocking t oldFd newFd
  (syscallBody r.1, r.2)

/-- The body of `sys_pipe(fds)` for a slice of `len` descriptors and the two ends
    `Pipe::new()` made: the read end's descriptor, then the write end's. -/
def pipeBody (t : Table φ) (len : Nat) (readEnd writeEnd : φ) :
    Except FdError (Int × Int) × Table φ :=
  if len ≠ 2 then (.error (.linux .EFAULT), t)
  else
    match addFileLike t readEnd with
    | (.error e, t₁) => (.error e, t₁)
    | (.ok readFd, t₁) =>
      match addFileLike t₁ writeEnd with
      -- `inspect_err`: the read end's descriptor is closed again
      | (.error e, t₂) => (.error e, (closeFileLike t₂ readFd).2)
      | (.ok writeFd, t₂) => (.ok (readFd, writeFd), t₂)

/-- `sys_pipe(fds)`: `0` and the two descriptors written to `fds`, or the error. -/
def sysPipe (t : Table φ) (len : Nat) (readEnd writeEnd : φ) :
    Int × Option (Int × Int) × Table φ :=
  let r := pipeBody t len readEnd writeEnd
  (syscallBody (r.1.map fun _ => 0), r.1.toOption, r.2)

end Calls

/-! ## §3 Descriptors and errors -/

theorem FdError.code_pos (e : FdError) : 0 < e.code := by
  cases e with
  | linux e => exact e.code_pos
  | EMFILE => decide

theorem syscallBody_error (e : FdError) : syscallBody (.error e) < 0 := by
  have := e.code_pos
  simp only [syscallBody]
  omega

/-- A non-negative `c_int` is its own index in the table. -/
theorem longAsU64_of_cInt {v : Int} (hv : IsCInt v) (h₀ : 0 ≤ v) : longAsU64 v = v.toNat :=
  longAsU64_of_nonneg h₀ (by unfold IsCInt at hv; omega)

/-- A negative `c_int` indexes past the table. -/
theorem limit_le_of_neg {v : Int} (hv : IsCInt v) (hneg : v < 0) :
    AX_FILE_LIMIT ≤ longAsU64 v := by
  unfold IsCInt at hv
  rw [longAsU64_of_neg (by omega) hneg, AX_FILE_LIMIT]
  omega

/-- Only `0`, `1` and `2` index the table below `3`. -/
theorem three_le_of_not_stdio {v : Int} (hv : IsCInt v) (h : ¬(0 ≤ v ∧ v ≤ 2)) :
    3 ≤ longAsU64 v := by
  by_cases h₀ : 0 ≤ v
  · rw [longAsU64_of_cInt hv h₀]
    omega
  · have := limit_le_of_neg hv (by omega)
    unfold AX_FILE_LIMIT at this
    omega

/-! ## §4 Each call on its own -/

section Specs

variable {setNonblocking : φ → Bool → Except FdError Unit} {t : Table φ} {fd : Int} {f : φ}
  {id : Nat}

theorem getFileLike_of_slot (h : t.slot (longAsU64 fd) = some f) : getFileLike t fd = .ok f := by
  rw [getFileLike, get_eq, h]

theorem getFileLike_of_free (h : t.slot (longAsU64 fd) = none) :
    getFileLike t fd = .error (.linux .EBADF) := by
  rw [getFileLike, get_eq, h]

theorem addFileLike_of_firstFree (h : t.firstFree = some id) :
    addFileLike t f = (.ok id, t.insert id (lt_of_firstFree h) f) := by
  unfold addFileLike
  rw [add_eq_some_iff.mpr ⟨h, rfl⟩]

theorem addFileLike_of_full (h : t.firstFree = none) : addFileLike t f = (.error .EMFILE, t) := by
  unfold addFileLike
  rw [add_eq_none_iff.mpr (firstFree_eq_none_iff.mp h)]

theorem closeFileLike_of_slot (h : t.slot (longAsU64 fd) = some f) :
    closeFileLike t fd = (.ok (), t.erase (longAsU64 fd)) := by
  rw [closeFileLike, remove_eq_some_iff.mpr ⟨h, rfl⟩]

theorem closeFileLike_of_free (h : t.slot (longAsU64 fd) = none) :
    closeFileLike t fd = (.error (.linux .EBADF), t) := by
  rw [closeFileLike, remove_eq_none_iff.mpr h]

/-- `close` of `0`, `1` or `2` returns `0` and closes nothing. -/
theorem sysClose_of_stdio (h : 0 ≤ fd ∧ fd ≤ 2) : sysClose t fd = (0, t) := if_pos h

theorem sysClose_of_slot (h : ¬(0 ≤ fd ∧ fd ≤ 2)) (hs : t.slot (longAsU64 fd) = some f) :
    sysClose t fd = (0, t.erase (longAsU64 fd)) := by
  rw [sysClose, if_neg h, closeFileLike_of_slot hs]
  rfl

theorem sysClose_of_free (h : ¬(0 ≤ fd ∧ fd ≤ 2)) (hs : t.slot (longAsU64 fd) = none) :
    sysClose t fd = (-9, t) := by
  rw [sysClose, if_neg h, closeFileLike_of_free hs]
  rfl

theorem dupFd_of_slot (hs : t.slot (longAsU64 fd) = some f) : dupFd t fd = addFileLike t f := by
  rw [dupFd, getFileLike_of_slot hs]

theorem dupFd_of_free (hs : t.slot (longAsU64 fd) = none) :
    dupFd t fd = (.error (.linux .EBADF), t) := by
  rw [dupFd, getFileLike_of_free hs]

/-- `dup` of an open descriptor hands out the lowest free one, for the same object. -/
theorem sysDup_of_open (hs : t.slot (longAsU64 fd) = some f) (hfree : t.firstFree = some id) :
    sysDup t fd = ((id : Int), t.insert id (lt_of_firstFree hfree) f) := by
  rw [sysDup, dupFd_of_slot hs, addFileLike_of_firstFree hfree]
  rfl

/-- The first free descriptor of the initial table is `3`. -/
theorem firstFree_stdioTable {stdin stdout : φ} : (stdioTable stdin stdout).firstFree = some 3 := by
  refine firstFree_eq_some_iff.mpr ⟨by decide, by simp [stdioTable], ?_⟩
  intro j hj
  interval_cases j <;> simp [stdioTable]

-- `dup(1)` on the initial table hands out `3` for `stdout`
example : ∃ t', sysDup (stdioTable 0 1 : Table Nat) 1 = (3, t') ∧ t'.slot 3 = some 1 := by
  have hs : (stdioTable 0 1 : Table Nat).slot (longAsU64 1) = some 1 := by
    rw [show longAsU64 1 = 1 by decide]
    exact slot_stdioTable.2.1
  exact ⟨_, sysDup_of_open hs firstFree_stdioTable, by simp⟩

theorem sysDup_of_free (hs : t.slot (longAsU64 fd) = none) : sysDup t fd = (-9, t) := by
  rw [sysDup, dupFd_of_free hs]
  rfl

theorem sysDup_of_full (hs : t.slot (longAsU64 fd) = some f) (hfull : t.firstFree = none) :
    sysDup t fd = (-24, t) := by
  rw [sysDup, dupFd_of_slot hs, addFileLike_of_full hfull]
  rfl

/-- `fcntl(fd, F_DUPFD, arg)` is `dup(fd)`: the lower bound `arg` is not read. -/
theorem sysFcntl_dupfd (arg : Nat) :
    sysFcntl setNonblocking t fd F_DUPFD arg = sysDup t fd := by
  simp only [sysFcntl, fcntlBody, sysDup]
  rw [if_pos (by decide)]

/-- `fcntl(fd, F_DUPFD_CLOEXEC, arg)` is `dup(fd)` as well. -/
theorem sysFcntl_dupfdCloexec (arg : Nat) :
    sysFcntl setNonblocking t fd F_DUPFD_CLOEXEC arg = sysDup t fd := by
  simp only [sysFcntl, fcntlBody, sysDup]
  rw [if_neg (by decide), if_pos (by decide)]

/-- `fcntl(fd, F_GETFD, arg)` falls into the default arm: `0`, for any descriptor. -/
theorem sysFcntl_getfd (arg : Nat) : sysFcntl setNonblocking t fd F_GETFD arg = (0, t) := by
  simp only [sysFcntl, fcntlBody]
  rw [if_neg (by decide), if_neg (by decide), if_neg (by decide)]
  rfl

/-- `dup2(fd, fd)` returns `fd`, whether `fd` is open or not: the `F_GETFD` it asks
    never fails. -/
theorem sysDup2_self : sysDup2 setNonblocking t fd fd = (fd, t) := by
  simp only [sysDup2, dup2Body, if_pos, sysFcntl_getfd]
  rw [if_pos (le_refl 0)]
  rfl

theorem dup2Body_of_ne {newFd : Int} (hne : fd ≠ newFd) (hlim : longAsU64 newFd < AX_FILE_LIMIT)
    (hs : t.slot (longAsU64 fd) = some f) :
    dup2Body setNonblocking t fd newFd =
      match t.addAt (longAsU64 newFd) f with
      | some (_, t') => (.ok newFd, t')
      | none => (.error .EMFILE, t) := by
  rw [dup2Body, if_neg hne, if_neg (Nat.not_le.mpr hlim), getFileLike_of_slot hs]

/-- `dup2` onto an open descriptor fails with `EMFILE` and changes nothing: the descriptor
    is not closed first. -/
theorem sysDup2_of_open {newFd : Int} (hne : fd ≠ newFd) (hlim : longAsU64 newFd < AX_FILE_LIMIT)
    (hs : t.slot (longAsU64 fd) = some f) (hnew : (t.slot (longAsU64 newFd)).isSome) :
    sysDup2 setNonblocking t fd newFd = (-24, t) := by
  rw [sysDup2, dup2Body_of_ne hne hlim hs, addAt_eq_none_iff.mpr (.inr hnew)]
  rfl

-- `dup2(1, 2)` on the initial table fails: `2` is open
example : sysDup2 (fun (_ : Nat) _ => .ok ()) (stdioTable 0 1) 1 2 = (-24, stdioTable 0 1) := by
  have hs : (stdioTable 0 1 : Table Nat).slot (longAsU64 1) = some 1 := by
    rw [show longAsU64 1 = 1 by decide]
    exact slot_stdioTable.2.1
  have hnew : ((stdioTable 0 1 : Table Nat).slot (longAsU64 2)).isSome := by
    rw [show longAsU64 2 = 2 by decide, slot_stdioTable.2.2]
    rfl
  exact sysDup2_of_open (by decide) (by decide) hs hnew

/-- `dup2` onto a free descriptor below the limit puts the object there. -/
theorem sysDup2_of_free {newFd : Int} (hne : fd ≠ newFd) (hlim : longAsU64 newFd < AX_FILE_LIMIT)
    (hs : t.slot (longAsU64 fd) = some f) (hnew : t.slot (longAsU64 newFd) = none) :
    sysDup2 setNonblocking t fd newFd = (newFd, t.insert (longAsU64 newFd) hlim f) := by
  rw [sysDup2, dup2Body_of_ne hne hlim hs, addAt_eq_some_iff.mpr ⟨hlim, hnew, rfl, rfl⟩]
  rfl

theorem pipeBody_of_len {len : Nat} {readEnd writeEnd : φ} (h : len ≠ 2) :
    pipeBody t len readEnd writeEnd = (.error (.linux .EFAULT), t) := if_pos h

theorem pipeBody_of_full {readEnd writeEnd : φ} (hfull : t.firstFree = none) :
    pipeBody t 2 readEnd writeEnd = (.error .EMFILE, t) := by
  unfold pipeBody
  rw [if_neg (by decide), addFileLike_of_full hfull]

/-- With two free descriptors, `pipe` puts the read end under the lowest and the write end
    under the next. -/
theorem pipeBody_of_two_free {r w : Nat} {readEnd writeEnd : φ} (hr : t.firstFree = some r)
    (hw : (t.insert r (lt_of_firstFree hr) readEnd).firstFree = some w) :
    pipeBody t 2 readEnd writeEnd = (.ok ((r : Int), (w : Int)),
      (t.insert r (lt_of_firstFree hr) readEnd).insert w (lt_of_firstFree hw) writeEnd) := by
  unfold pipeBody
  rw [if_neg (by decide), addFileLike_of_firstFree hr]
  dsimp only
  rw [addFileLike_of_firstFree hw]

/-- With one free descriptor, `pipe` takes it for the read end, fails on the write end with
    `EMFILE`, and closes the read end's descriptor again: the table is as it was. -/
theorem pipeBody_of_one_free {r : Nat} {readEnd writeEnd : φ} (hr : t.firstFree = some r)
    (hw : (t.insert r (lt_of_firstFree hr) readEnd).firstFree = none) :
    pipeBody t 2 readEnd writeEnd = (.error .EMFILE, t) := by
  have hlt := lt_of_firstFree hr
  have hidx : longAsU64 (r : Int) = r := by
    rw [longAsU64_of_nonneg (Int.natCast_nonneg r) (by unfold AX_FILE_LIMIT at hlt; omega),
      Int.toNat_natCast]
  unfold pipeBody
  rw [if_neg (by decide), addFileLike_of_firstFree hr]
  dsimp only
  rw [addFileLike_of_full hw]
  dsimp only
  rw [closeFileLike_of_slot (f := readEnd) (by rw [hidx, slot_insert_self]), hidx,
    erase_insert _ _ (firstFree_eq_some_iff.mp hr).2.1]

/-- With two free descriptors, `pipe` returns `0` and writes the lowest free descriptor for
    the read end and the next one, above it, for the write end. -/
theorem sysPipe_of_two_free {r w : Nat} {readEnd writeEnd : φ} (hr : t.firstFree = some r)
    (hw : (t.insert r (lt_of_firstFree hr) readEnd).firstFree = some w) :
    r < w ∧ sysPipe t 2 readEnd writeEnd = (0, some ((r : Int), (w : Int)),
      (t.insert r (lt_of_firstFree hr) readEnd).insert w (lt_of_firstFree hw) writeEnd) := by
  refine ⟨lt_of_firstFree_insert hr hw, ?_⟩
  unfold sysPipe
  rw [pipeBody_of_two_free hr hw]
  rfl

theorem three_lt_limit : 3 < AX_FILE_LIMIT := by decide

theorem four_lt_limit : 4 < AX_FILE_LIMIT := by decide

/-- The table after `pipe` on the initial table: the read end `5` under `3`, the write end
    `6` under `4`. -/
def pipedTable : Table Nat :=
  ((stdioTable 0 1 : Table Nat).insert 3 three_lt_limit 5).insert 4 four_lt_limit 6

theorem sysPipe_stdioTable : sysPipe (stdioTable 0 1 : Table Nat) 2 5 6 = (0, some (3, 4), pipedTable) := by
  have hr : (stdioTable 0 1 : Table Nat).firstFree = some 3 := firstFree_stdioTable
  have hw : ((stdioTable 0 1 : Table Nat).insert 3 (lt_of_firstFree hr) 5).firstFree = some 4 := by
    refine firstFree_eq_some_iff.mpr ⟨by decide, by simp [stdioTable], ?_⟩
    intro j hj
    interval_cases j <;> simp [stdioTable]
  exact (sysPipe_of_two_free hr hw).2

/-- With one free descriptor, `pipe` fails with `EMFILE` and leaves the table as it was:
    the read end's descriptor, taken first, is closed again. -/
theorem sysPipe_of_one_free {r : Nat} {readEnd writeEnd : φ} (hr : t.firstFree = some r)
    (hw : (t.insert r (lt_of_firstFree hr) readEnd).firstFree = none) :
    sysPipe t 2 readEnd writeEnd = (-24, none, t) := by
  unfold sysPipe
  rw [pipeBody_of_one_free hr hw]
  rfl

theorem lastFree_bounded :
    ∀ id, AX_FILE_LIMIT ≤ id → (if id < 1023 then some (0 : Nat) else none) = none := by
  intro id hid
  unfold AX_FILE_LIMIT at hid
  rw [if_neg (by omega)]

/-- A table with only the last descriptor free. -/
def lastFree : Table Nat := ⟨fun id => if id < 1023 then some 0 else none, lastFree_bounded⟩

-- with only `1023` free, `pipe` fails and gives `1023` back
example : sysPipe lastFree 2 5 6 = (-24, none, lastFree) := by
  have hr : lastFree.firstFree = some 1023 :=
    firstFree_eq_some_iff.mpr ⟨by decide, by simp [lastFree], fun j hj => by simp [lastFree, hj]⟩
  have hw : (lastFree.insert 1023 (lt_of_firstFree hr) 5).firstFree = none := by
    refine firstFree_eq_none_iff.mpr fun id hid => ?_
    by_cases h : id = 1023
    · rw [h, slot_insert_self]
      rfl
    · have hlt : id < 1023 := by
        unfold AX_FILE_LIMIT at hid
        omega
      simp [lastFree, h, hlt]
  exact sysPipe_of_one_free hr hw

end Specs

/-! ## §5 What a call can do to the table -/

section Outcomes

variable {setNonblocking : φ → Bool → Except FdError Unit} {t : Table φ}

/-- What the body of a call can do: fail and leave the table, return a value and leave
    the table, or return a value that is not negative and a table that only gained
    objects. -/
inductive Outcome (t : Table φ) : Except FdError Int × Table φ → Prop where
  | fail (e : FdError) : Outcome t (.error e, t)
  | keep (v : Int) : Outcome t (.ok v, t)
  | grow {v : Int} {t' : Table φ} : 0 ≤ v → Extends t t' → Outcome t (.ok v, t')

theorem Outcome.extends {r : Except FdError Int × Table φ} (h : Outcome t r) : Extends t r.2 := by
  cases h with
  | fail => exact Extends.refl t
  | keep => exact Extends.refl t
  | grow _ hext => exact hext

/-- A body whose value `syscall_body!` turns negative left the table as it was. -/
theorem Outcome.eq_of_neg {r : Except FdError Int × Table φ} (h : Outcome t r)
    (hneg : syscallBody r.1 < 0) : r.2 = t := by
  cases h with
  | fail => rfl
  | keep => rfl
  | grow hv _ =>
    simp only [syscallBody] at hneg
    omega

theorem outcome_addFileLike (f : φ) : Outcome t (addFileLike t f) := by
  cases hfree : t.firstFree with
  | none =>
    rw [addFileLike_of_full hfree]
    exact .fail _
  | some id =>
    rw [addFileLike_of_firstFree hfree]
    exact .grow (Int.natCast_nonneg id) (extends_insert _ f (firstFree_eq_some_iff.mp hfree).2.1)

theorem outcome_dupFd (fd : Int) : Outcome t (dupFd t fd) := by
  cases hs : t.slot (longAsU64 fd) with
  | none =>
    rw [dupFd_of_free hs]
    exact .fail _
  | some f =>
    rw [dupFd_of_slot hs]
    exact outcome_addFileLike f

theorem outcome_fcntlBody (fd cmd : Int) (arg : Nat) :
    Outcome t (fcntlBody setNonblocking t fd cmd arg) := by
  unfold fcntlBody
  dsimp only
  split_ifs
  · exact outcome_dupFd fd
  · exact outcome_dupFd fd
  · exact .keep 0
  · -- `F_SETFL` on a file object: its `set_nonblocking` does not touch the table
    cases hget : getFileLike t fd with
    | error e => exact .fail e
    | ok f =>
      dsimp only
      cases setNonblocking f (decide (0 < (arg &&& O_NONBLOCK))) with
      | error e => exact .fail e
      | ok => exact .keep 0
  · exact .keep 0

theorem outcome_dup2Body {oldFd newFd : Int} (hnew : IsCInt newFd) :
    Outcome t (dup2Body setNonblocking t oldFd newFd) := by
  unfold dup2Body
  split_ifs with hself hlim
  · -- `F_GETFD` leaves the table, and `old_fd` comes back
    rw [sysFcntl_getfd, if_pos (le_refl 0)]
    exact .keep oldFd
  · exact .fail _
  · cases hget : getFileLike t oldFd with
    | error e => exact .fail e
    | ok f =>
      dsimp only
      cases hadd : t.addAt (longAsU64 newFd) f with
      | none => exact .fail _
      | some p =>
        obtain ⟨id, t'⟩ := p
        -- below the limit, `new_fd` is not negative
        have hnonneg : 0 ≤ newFd := by
          by_contra hneg
          exact hlim (limit_le_of_neg hnew (by omega))
        exact .grow hnonneg (extends_of_addAt hadd)

theorem outcome_pipeBody (len : Nat) (readEnd writeEnd : φ) :
    Outcome t ((pipeBody t len readEnd writeEnd).1.map fun _ => 0,
      (pipeBody t len readEnd writeEnd).2) := by
  by_cases hlen : len = 2
  · subst hlen
    cases hr : t.firstFree with
    | none =>
      rw [pipeBody_of_full hr]
      exact .fail _
    | some r =>
      cases hw : (t.insert r (lt_of_firstFree hr) readEnd).firstFree with
      | none =>
        rw [pipeBody_of_one_free hr hw]
        exact .fail _
      | some w =>
        -- both descriptors were free
        rw [pipeBody_of_two_free hr hw]
        have hr' := extends_insert (lt_of_firstFree hr) readEnd (firstFree_eq_some_iff.mp hr).2.1
        have hw' := extends_insert (lt_of_firstFree hw) writeEnd (firstFree_eq_some_iff.mp hw).2.1
        exact .grow (le_refl 0) (hr'.trans hw')
  · rw [pipeBody_of_len hlen]
    exact .fail _

/-- `close` returns `0` and frees the descriptor it names, from `3` on, or leaves the
    table. -/
theorem sysClose_cases {fd : Int} (hfd : IsCInt fd) :
    (sysClose t fd).2 = t ∨ 3 ≤ longAsU64 fd ∧ sysClose t fd = (0, t.erase (longAsU64 fd)) := by
  by_cases hstdio : 0 ≤ fd ∧ fd ≤ 2
  · exact .inl (by rw [sysClose_of_stdio hstdio])
  · cases hs : t.slot (longAsU64 fd) with
    | none => exact .inl (by rw [sysClose_of_free hstdio hs])
    | some f => exact .inr ⟨three_le_of_not_stdio hfd hstdio, sysClose_of_slot hstdio hs⟩

end Outcomes

/-! ## §6 The table under the calls of a process -/

/-- A call on the table. `add f` is `add_file_like(f)` as `sys_open`, `sys_socket`,
    `sys_accept` and `sys_epoll_create` make it for the object they made. -/
inductive Call (φ : Type) where
  | close (fd : Int)
  | dup (oldFd : Int)
  | dup2 (oldFd newFd : Int)
  | fcntl (fd cmd : Int) (arg : Nat)
  | add (f : φ)
  | pipe (len : Nat) (readEnd writeEnd : φ)

/-- The descriptors a call names are `c_int`s. -/
def Call.Valid : Call φ → Prop
  | .close fd => IsCInt fd
  | .dup oldFd => IsCInt oldFd
  | .dup2 oldFd newFd => IsCInt oldFd ∧ IsCInt newFd
  | .fcntl fd _ _ => IsCInt fd
  | .add _ => True
  | .pipe _ _ _ => True

section System

variable (setNonblocking : φ → Bool → Except FdError Unit)

/-- What a call returns, and the table it leaves. -/
def Call.run (t : Table φ) : Call φ → Int × Table φ
  | .close fd => sysClose t fd
  | .dup oldFd => sysDup t oldFd
  | .dup2 oldFd newFd => sysDup2 setNonblocking t oldFd newFd
  | .fcntl fd cmd arg => sysFcntl setNonblocking t fd cmd arg
  | .add f => (syscallBody (addFileLike t f).1, (addFileLike t f).2)
  | .pipe len readEnd writeEnd =>
    ((sysPipe t len readEnd writeEnd).1, (sysPipe t len readEnd writeEnd).2.2)

/-- `FD_TABLE` from its initial table, under any sequence of calls. -/
def system (stdin stdout : φ) : LTS (Table φ) (Call φ) where
  init t := initTable stdin stdout = some t
  step t c t' := c.Valid ∧ (c.run setNonblocking t).2 = t'

end System

/-- The descriptors `0`, `1` and `2` hold `stdin`, `stdout` and `stdout`. -/
def StdioOpen (stdin stdout : φ) (t : Table φ) : Prop :=
  t.slot 0 = some stdin ∧ t.slot 1 = some stdout ∧ t.slot 2 = some stdout

section Runs

variable {setNonblocking : φ → Bool → Except FdError Unit} {t : Table φ} {stdin stdout : φ}

/-- How a call may change the table: it only gains objects, or it is a `close` that frees
    the descriptor it names, from `3` on. -/
theorem run_changes {c : Call φ} (hc : c.Valid) :
    Extends t (c.run setNonblocking t).2 ∨ ∃ fd, c = .close fd ∧ 3 ≤ longAsU64 fd ∧
      (c.run setNonblocking t).2 = t.erase (longAsU64 fd) := by
  cases c with
  | close fd =>
    rcases sysClose_cases (t := t) hc with h | ⟨hid, h⟩
    · exact .inl (by simp only [Call.run, h]; exact Extends.refl t)
    · exact .inr ⟨fd, rfl, hid, by simp only [Call.run, h]⟩
  | dup oldFd => exact .inl (outcome_dupFd oldFd).extends
  | dup2 oldFd newFd => exact .inl (outcome_dup2Body hc.2).extends
  | fcntl fd cmd arg => exact .inl (outcome_fcntlBody fd cmd arg).extends
  | add f =>
    dsimp only [Call.run]
    exact .inl (outcome_addFileLike f).extends
  | pipe len readEnd writeEnd =>
    dsimp only [Call.run, sysPipe]
    exact .inl (outcome_pipeBody len readEnd writeEnd).extends

/-- A call keeps what the descriptors below `3` hold. -/
theorem slot_run_of_lt_three {c : Call φ} (hc : c.Valid) {id : Nat} (hid : id < 3) {f : φ}
    (hs : t.slot id = some f) : (c.run setNonblocking t).2.slot id = some f := by
  rcases @run_changes _ setNonblocking t _ hc with hext | ⟨fd, -, hj, heq⟩
  · exact hext id f hs
  · rw [heq, slot_erase_of_ne (by omega)]
    exact hs

/-- Along every run of the calls, from the initial table, `0`, `1` and `2` keep `stdin`,
    `stdout` and `stdout`. -/
theorem slot_stdio_of_reachable (hr : (system setNonblocking stdin stdout).Reachable t) :
    t.slot 0 = some stdin ∧ t.slot 1 = some stdout ∧ t.slot 2 = some stdout := by
  show StdioOpen stdin stdout t
  refine LTS.Reachable.invariant ?_ ?_ hr
  · -- the initial table is the one the initialiser builds
    intro t₀ hinit
    have ht₀ : t₀ = stdioTable stdin stdout :=
      (Option.some.inj ((initTable_eq stdin stdout).symm.trans hinit)).symm
    rw [ht₀]
    exact slot_stdioTable
  · rintro t₁ c t₂ ⟨h₀, h₁, h₂⟩ ⟨hc, rfl⟩
    exact ⟨slot_run_of_lt_three hc (by decide) h₀, slot_run_of_lt_three hc (by decide) h₁,
      slot_run_of_lt_three hc (by decide) h₂⟩

/-- `pipe`, then `dup2(3, 1)`, which fails on the open `1`, then `close(0)`, which closes
    nothing: the initial table is `pipedTable` after them. -/
theorem pipedTable_run :
    (system (fun (_ : Nat) _ => .ok ()) 0 1).Run (stdioTable 0 1) [.pipe 2 5 6, .dup2 3 1, .close 0]
      pipedTable := by
  have hs : pipedTable.slot (longAsU64 3) = some 5 := by
    rw [show longAsU64 3 = 3 by decide]
    simp [pipedTable]
  have hnew : (pipedTable.slot (longAsU64 1)).isSome := by
    rw [show longAsU64 1 = 1 by decide]
    simp [pipedTable, stdioTable]
  have hpipe : (system (fun (_ : Nat) _ => .ok ()) 0 1).step (stdioTable 0 1) (.pipe 2 5 6) pipedTable :=
    ⟨trivial, by simp only [Call.run, sysPipe_stdioTable]⟩
  have hdup2 : (system (fun (_ : Nat) _ => .ok ()) 0 1).step pipedTable (.dup2 3 1) pipedTable :=
    ⟨(by decide : IsCInt 3 ∧ IsCInt 1), by simp only [Call.run, sysDup2_of_open (by decide) (by decide) hs hnew]⟩
  have hclose : (system (fun (_ : Nat) _ => .ok ()) 0 1).step pipedTable (.close 0) pipedTable :=
    ⟨(by decide : IsCInt 0), by simp only [Call.run, sysClose_of_stdio (by decide : (0 : Int) ≤ 0 ∧ (0 : Int) ≤ 2)]⟩
  exact LTS.Run.cons hpipe (LTS.Run.cons hdup2 (LTS.Run.single hclose))

theorem slot_stdio_of_pipedTable :
    (system (fun (_ : Nat) _ => .ok ()) 0 1).Reachable pipedTable ∧
      pipedTable.slot 0 = some 0 ∧ pipedTable.slot 1 = some 1 ∧ pipedTable.slot 2 = some 1 :=
  have hr : (system (fun (_ : Nat) _ => .ok ()) 0 1).Reachable pipedTable :=
    ⟨_, _, initTable_eq 0 1, pipedTable_run⟩
  ⟨hr, slot_stdio_of_reachable hr⟩

/-- A call that closes the descriptor `id`: a `close` of a `c_int` that names it. -/
def Call.Closes (id : Nat) : Call φ → Prop
  | .close fd => longAsU64 fd = id
  | _ => False

/-- A call that is not a `close` of `id` keeps what `id` holds. -/
theorem slot_run_of_not_closes {c : Call φ} (hc : c.Valid) {id : Nat} (hnc : ¬c.Closes id) {f : φ}
    (hs : t.slot id = some f) : (c.run setNonblocking t).2.slot id = some f := by
  rcases @run_changes _ setNonblocking t _ hc with hext | ⟨fd, rfl, -, heq⟩
  · exact hext id f hs
  · -- a `close` frees only the descriptor it names
    rw [heq, slot_erase_of_ne (Ne.symm hnc)]
    exact hs

/-- **Descriptors keep their objects until closed.** Along every run of the calls, from any
    table, a descriptor that holds an object holds it at the end unless a call of the run
    closes it: no other call frees a descriptor or puts another object under it (`dup2`
    onto an open descriptor fails rather than replace its object). -/
theorem slot_of_run_of_not_closes {ls : List (Call φ)} {t t' : Table φ}
    (hrun : (system setNonblocking stdin stdout).Run t ls t') {id : Nat} {f : φ} (hs : t.slot id = some f)
    (hno : ∀ c ∈ ls, ¬c.Closes id) : t'.slot id = some f := by
  -- induction along the run, over the calls taken so far
  refine LTS.Run.trace_induction (P := fun ls t => (∀ c ∈ ls, ¬c.Closes id) → t.slot id = some f)
    (fun _ => hs) ?_ hrun hno
  rintro ls₁ t₁ c t₂ ih ⟨hc, rfl⟩ hno₂
  have hnc : ¬c.Closes id := hno₂ c (List.mem_append_right _ (List.mem_singleton_self c))
  exact slot_run_of_not_closes hc hnc (ih fun c' hc' => hno₂ c' (List.mem_append_left _ hc'))

theorem slot_one_of_pipedTable_run :
    (stdioTable 0 1 : Table Nat).slot 1 = some 1 ∧
      (∀ c ∈ ([.pipe 2 5 6, .dup2 3 1, .close 0] : List (Call Nat)), ¬c.Closes 1) ∧
      pipedTable.slot 1 = some 1 := by
  have hs : (stdioTable 0 1 : Table Nat).slot 1 = some 1 := slot_stdioTable.2.1
  have hno : ∀ c ∈ ([.pipe 2 5 6, .dup2 3 1, .close 0] : List (Call Nat)), ¬c.Closes 1 := by
    intro c hc
    simp only [List.mem_cons, List.not_mem_nil, or_false] at hc
    rcases hc with rfl | rfl | rfl <;> simp [Call.Closes]
    decide
  exact ⟨hs, hno, slot_of_run_of_not_closes pipedTable_run hs hno⟩

/-- A call that returns a negative value leaves the table as it was: no failed call, and
    no `pipe` that fails half-way, leaves a descriptor behind or frees one. -/
theorem run_of_neg {c : Call φ} (hc : c.Valid) (hneg : (c.run setNonblocking t).1 < 0) :
    (c.run setNonblocking t).2 = t := by
  cases c with
  | close fd =>
    rcases sysClose_cases (t := t) hc with h | ⟨-, h⟩
    · exact h
    · simp only [Call.run, h] at hneg
      omega
  | dup oldFd => exact (outcome_dupFd oldFd).eq_of_neg hneg
  | dup2 oldFd newFd => exact (outcome_dup2Body hc.2).eq_of_neg hneg
  | fcntl fd cmd arg => exact (outcome_fcntlBody fd cmd arg).eq_of_neg hneg
  | add f =>
    dsimp only [Call.run] at hneg ⊢
    exact (outcome_addFileLike f).eq_of_neg hneg
  | pipe len readEnd writeEnd =>
    dsimp only [Call.run, sysPipe] at hneg ⊢
    exact (outcome_pipeBody len readEnd writeEnd).eq_of_neg hneg

theorem close_unopened_of_neg :
    (Call.close 5 : Call Nat).Valid ∧
      ((Call.close 5).run (fun _ _ => .ok ()) (stdioTable 0 1)).1 < 0 ∧
      ((Call.close 5).run (fun _ _ => .ok ()) (stdioTable 0 1)).2 = stdioTable 0 1 := by
  have hc : (Call.close 5 : Call Nat).Valid := (by decide : IsCInt 5)
  have hrun : (Call.close 5).run (fun _ _ => .ok ()) (stdioTable 0 1 : Table Nat) =
      (-9, stdioTable 0 1) :=
    sysClose_of_free (by decide) (by rw [show longAsU64 5 = 5 by decide]; simp [stdioTable])
  have hneg : ((Call.close 5).run (fun _ _ => .ok ()) (stdioTable 0 1 : Table Nat)).1 < 0 := by
    rw [hrun]
    decide
  exact ⟨hc, hneg, run_of_neg hc hneg⟩

end Runs

end ArceOS.Posix.Fd
