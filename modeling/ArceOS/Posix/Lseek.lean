import ArceOS.Fs.Fops
import ArceOS.Posix.Time

/-!
# `lseek`

`sys_lseek` of `arceos_posix_api/src/imp/fs.rs`. It turns `whence` into a `SeekFrom`
(`EINVAL` for any other value), finds the `File` of `fd` (`EBADF` for a descriptor that
is not open, `EINVAL` for one that is not a file), seeks its `axfs` file (`File::seek` of
`Fs.Fops`) and returns the new position through `syscall_body!`.

The `off_t` offset is cast with `as _` into the operand of each `SeekFrom`: into a `u64`
for `Start`, where a negative offset becomes a position near `2 ^ 64`, and into an `i64`,
itself, for `Current` and `End`. `File::seek` accepts every target in `[0, 2 ^ 64)`, and
`syscall_body!` casts the `u64` it returns back into an `off_t`. A target from `2 ^ 63` on
thus comes back negative, so a negative `SEEK_SET` offset moves the cursor near `2 ^ 64`
and returns the offset itself, read by the caller as the code of an error. The errors of
`File::seek` are converted by `axerrno`'s `From<AxError> for LinuxError`, a parameter
here.

## Main results

- `lseekBody_cases`: a call fails and leaves the table as it was, or moves the cursor of
  the file of `fd` and changes nothing else;
- `sysLseek_eq_posix`: away from negative `SEEK_SET` offsets and targets in
  `[2 ^ 63, 2 ^ 64)`, `lseek` returns what POSIX asks (`posixLseek`) and moves the cursor
  as POSIX does;
- `sysLseek_invalid_whence`: any other `whence` is `EINVAL`, the table unchanged;
- `sysLseek_of_high`, `sysLseek_start_of_neg`: a target in `[2 ^ 63, 2 ^ 64)` becomes the
  cursor and is returned as a negative number, and a negative `SEEK_SET` offset moves
  the cursor near `2 ^ 64` and returns the offset;
- `lseek_negative_start_returns_errno`: `lseek(fd, -22, SEEK_SET)` returns `-22`, which
  is `-EINVAL`, with the cursor at `2 ^ 64 - 22`.
-/

namespace ArceOS.Posix

open ArceOS.Fs.Dev ArceOS.Fs.Fops ArceOS.Fs

/-- What `FD_TABLE` holds for a descriptor, as `File::from_fd` tells it apart: a
    `File` of the `axfs` file `f`, or another kind of file object. -/
inductive FileLike (ν : Type) where
  | file (f : Fops.File ν)
  | other

/-- `FD_TABLE`, for `File::from_fd`: what each index holds, `none` where nothing is
    open. -/
abbrev FileTable (ν : Type) := Nat → Option (FileLike ν)

section Lseek

variable {ν : Type} (toLinux : VfsError → LinuxError) (ops : NodeOps ν)

/-- The `match whence` of `sys_lseek`, with `offset as _` into each variant's operand. -/
def seekFromWhence (offset whence : Int) : Option SeekFrom :=
  if whence = 0 then some (.start (UInt64.ofNat (longAsU64 offset)))
  else if whence = 1 then some (.current offset)
  else if whence = 2 then some (.fromEnd offset)
  else none

/-- `File::from_fd(fd)`: `get_file_like(fd)` at the index `fd as usize`, then the
    downcast to `File`. -/
def fileFromFd (files : FileTable ν) (fd : Int) : LinuxResult (Fops.File ν) :=
  match files (longAsU64 fd) with
  | none => .error .EBADF
  | some .other => .error .EINVAL
  | some (.file f) => .ok f

/-- The body of `sys_lseek(fd, offset, whence)` inside `syscall_body!`: the position,
    and the table after; the file is seeked in place. -/
def lseekBody (files : FileTable ν) (fd offset whence : Int) :
    LinuxResult Nat × FileTable ν :=
  match seekFromWhence offset whence with
  | none => (.error .EINVAL, files)
  | some pos =>
    match fileFromFd files fd with
    | .error e => (.error e, files)
    | .ok f =>
      let r := f.seek ops pos
      (r.1.mapError toLinux, Function.update files (longAsU64 fd) (some (.file r.2)))

/-- `sys_lseek(fd, offset, whence)`: the `off_t` it returns, `Ok(v) => v as _` casting
    the `u64` position, and the table after. -/
def sysLseek (files : FileTable ν) (fd offset whence : Int) : Int × FileTable ν :=
  let r := lseekBody toLinux ops files fd offset whence
  (syscallBody (r.1.map u64AsLong), r.2)

end Lseek

/-- What POSIX asks of `lseek` on a file of `size` bytes with the cursor at `cursor`: the
    target `whence` names. -/
def whenceTarget (size cursor : Nat) (offset whence : Int) : Option Int :=
  if whence = 0 then some offset
  else if whence = 1 then some (cursor + offset)
  else if whence = 2 then some (size + offset)
  else none

/-- What POSIX asks `lseek` to return: the target when it is an `off_t` that is not
    negative, and `EINVAL` otherwise and for an unknown `whence`. -/
def posixLseek (size cursor : Nat) (offset whence : Int) : LinuxResult Nat :=
  match whenceTarget size cursor offset whence with
  | some t => if 0 ≤ t ∧ t < 2 ^ 63 then .ok t.toNat else .error .EINVAL
  | none => .error .EINVAL

/-! ## The targets -/

/-- `SEEK_SET` seeks to the offset modulo `2 ^ 64`. -/
theorem target_start (offset : Int) (size cursor : Nat) :
    (SeekFrom.start (UInt64.ofNat (longAsU64 offset))).target size cursor = longAsU64 offset := by
  have hlt : longAsU64 offset < 2 ^ 64 := by
    rw [longAsU64]
    omega
  rw [SeekFrom.target, UInt64.toNat_ofNat_of_lt' hlt]

/-- Where `whence` is known, the code seeks to the target POSIX names, but for a negative
    `SEEK_SET` offset, which it seeks to modulo `2 ^ 64`. -/
theorem whenceTarget_of_seekFromWhence {offset whence : Int} {pos : SeekFrom}
    (hoff : -2 ^ 63 ≤ offset ∧ offset < 2 ^ 63) (h : seekFromWhence offset whence = some pos)
    (size cursor : Nat) :
    whenceTarget size cursor offset whence =
      some (if whence = 0 ∧ offset < 0 then pos.target size cursor - 2 ^ 64
        else pos.target size cursor) := by
  unfold seekFromWhence at h
  unfold whenceTarget
  split_ifs at h ⊢ with h0 hneg h1 h2 <;> cases h
  · rw [target_start, longAsU64_of_neg (by omega) hneg.2]
    congr 1
    omega
  · rw [target_start, longAsU64_of_nonneg (by omega) (by omega)]
    congr 1
    omega
  all_goals first | rfl | omega

theorem seekFromWhence_eq_none_iff {offset whence : Int} :
    seekFromWhence offset whence = none ↔ ¬(whence = 0 ∨ whence = 1 ∨ whence = 2) := by
  unfold seekFromWhence
  split_ifs <;> simp_all

theorem whenceTarget_eq_none_iff {size cursor : Nat} {offset whence : Int} :
    whenceTarget size cursor offset whence = none ↔ ¬(whence = 0 ∨ whence = 1 ∨ whence = 2) := by
  unfold whenceTarget
  split_ifs <;> simp_all

/-! ## What `sys_lseek` does -/

section Spec

variable {ν : Type} {toLinux : VfsError → LinuxError} {ops : NodeOps ν} {files : FileTable ν}
  {fd offset whence : Int} {f : Fops.File ν}

theorem fileFromFd_eq_ok : fileFromFd files fd = .ok f ↔ files (longAsU64 fd) = some (.file f) := by
  unfold fileFromFd
  split <;> simp_all

theorem fileFromFd_of_file (hfd : files (longAsU64 fd) = some (.file f)) :
    fileFromFd files fd = .ok f :=
  fileFromFd_eq_ok.mpr hfd

/-- What `lseek` can do: fail and leave the table as it was, or move the cursor of the
    file of `fd` and change nothing else. -/
theorem lseekBody_cases :
    (∃ e, lseekBody toLinux ops files fd offset whence = (.error e, files)) ∨
      ∃ f n, files (longAsU64 fd) = some (.file f) ∧
        lseekBody toLinux ops files fd offset whence =
          (.ok n, Function.update files (longAsU64 fd) (some (.file { f with offset := n }))) := by
  unfold lseekBody
  cases seekFromWhence offset whence with
  | none => exact .inl ⟨_, rfl⟩
  | some pos =>
    dsimp only
    cases hf : fileFromFd files fd with
    | error e => exact .inl ⟨_, rfl⟩
    | ok f =>
      dsimp only
      have hfd := fileFromFd_eq_ok.mp hf
      rcases @File.seek_cases _ ops f pos with ⟨e, he⟩ | ⟨n, hn⟩
      · -- a failed seek leaves the file as it was, and the file was at this index
        refine .inl ⟨toLinux e, ?_⟩
        rw [he]
        dsimp only
        rw [← hfd, Function.update_eq_self]
        rfl
      · refine .inr ⟨f, n, hfd, ?_⟩
        rw [hn]
        rfl

/-- A failed `lseek` leaves the table as it was. -/
theorem lseekBody_error {e : LinuxError}
    (h : (lseekBody toLinux ops files fd offset whence).1 = .error e) :
    (lseekBody toLinux ops files fd offset whence).2 = files := by
  rcases @lseekBody_cases _ toLinux ops files fd offset whence with ⟨e', he⟩ | ⟨f, n, -, hn⟩
  · rw [he]
  · rw [hn] at h
    cases h

/-- `lseek` changes the file of `fd` and no other entry of the table. -/
theorem sysLseek_frame {i : Nat} (hi : i ≠ longAsU64 fd) :
    (sysLseek toLinux ops files fd offset whence).2 i = files i := by
  unfold sysLseek lseekBody
  split
  · rfl
  · split
    · rfl
    · exact Function.update_of_ne hi _ _

/-- An unknown `whence` is `EINVAL`, and nothing changes. -/
theorem sysLseek_invalid_whence (hw : whence ≠ 0 ∧ whence ≠ 1 ∧ whence ≠ 2) :
    sysLseek toLinux ops files fd offset whence = (-22, files) := by
  have hnone : seekFromWhence offset whence = none := by
    rw [seekFromWhence, if_neg hw.1, if_neg hw.2.1, if_neg hw.2.2]
  rw [sysLseek, lseekBody, hnone]
  rfl

/-- On a file whose attributes `get_attr` gives, `lseek` to a `u64` target moves the
    cursor there and returns it cast into an `off_t`; to any other target it fails with
    `InvalidInput`, leaving the table as it was. -/
theorem sysLseek_spec {attr : FileAttr} {pos : SeekFrom}
    (hfd : files (longAsU64 fd) = some (.file f)) (hattr : ops.getAttr f.node.inner = .ok attr)
    (hpos : seekFromWhence offset whence = some pos) :
    sysLseek toLinux ops files fd offset whence =
      if 0 ≤ pos.target attr.size f.offset ∧ pos.target attr.size f.offset < u64Modulus then
        (u64AsLong (pos.target attr.size f.offset).toNat,
          Function.update files (longAsU64 fd)
            (some (.file { f with offset := (pos.target attr.size f.offset).toNat })))
      else (-((toLinux .invalidInput).code : Int), files) := by
  rw [sysLseek, lseekBody, hpos]
  simp only [fileFromFd_of_file hfd, File.seek_spec hattr]
  split_ifs
  · rfl
  · rw [← hfd, Function.update_eq_self]
    rfl

/-- Where a `SEEK_SET` offset is not negative and the target is not in `[2 ^ 63, 2 ^ 64)`,
    `lseek` returns what POSIX asks, and moves the cursor exactly when POSIX does. -/
theorem sysLseek_eq_posix {attr : FileAttr} (hinv : toLinux .invalidInput = .EINVAL)
    (hfd : files (longAsU64 fd) = some (.file f)) (hattr : ops.getAttr f.node.inner = .ok attr)
    (hoff : -2 ^ 63 ≤ offset ∧ offset < 2 ^ 63) (hstart : whence = 0 → 0 ≤ offset)
    (hhigh : ∀ t, whenceTarget attr.size f.offset offset whence = some t →
      t < 2 ^ 63 ∨ 2 ^ 64 ≤ t) :
    sysLseek toLinux ops files fd offset whence =
      match posixLseek attr.size f.offset offset whence with
      | .ok n => (n, Function.update files (longAsU64 fd) (some (.file { f with offset := n })))
      | .error e => (-(e.code : Int), files) := by
  cases hpos : seekFromWhence offset whence with
  | none =>
    have hw := seekFromWhence_eq_none_iff.mp hpos
    rw [sysLseek_invalid_whence (by omega), posixLseek,
      whenceTarget_eq_none_iff.mpr hw]
    rfl
  | some pos =>
    have hnot : ¬(whence = 0 ∧ offset < 0) := fun h => absurd (hstart h.1) (by omega)
    have ht := whenceTarget_of_seekFromWhence hoff hpos attr.size f.offset
    rw [if_neg hnot] at ht
    rw [sysLseek_spec hfd hattr hpos, posixLseek, ht]
    dsimp only
    by_cases hin : 0 ≤ pos.target attr.size f.offset ∧ pos.target attr.size f.offset < 2 ^ 63
    · -- an `off_t` target: the cursor moves there and the cast keeps it
      have hu : 0 ≤ pos.target attr.size f.offset ∧ pos.target attr.size f.offset < u64Modulus := by
        unfold u64Modulus
        omega
      rw [if_pos hu, if_pos hin, u64AsLong_of_lt (by omega)]
    · -- otherwise the target is negative or past `2 ^ 64`, and `seek` refuses it
      have hout : ¬(0 ≤ pos.target attr.size f.offset ∧
          pos.target attr.size f.offset < u64Modulus) := by
        have := hhigh _ ht
        unfold u64Modulus
        omega
      rw [if_neg hout, if_neg hin, hinv]

/-- A target in `[2 ^ 63, 2 ^ 64)` becomes the cursor, and comes back as a negative
    `off_t`. -/
theorem sysLseek_of_high {attr : FileAttr} {pos : SeekFrom}
    (hfd : files (longAsU64 fd) = some (.file f)) (hattr : ops.getAttr f.node.inner = .ok attr)
    (hpos : seekFromWhence offset whence = some pos)
    (ht : 2 ^ 63 ≤ pos.target attr.size f.offset ∧ pos.target attr.size f.offset < 2 ^ 64) :
    sysLseek toLinux ops files fd offset whence =
      (pos.target attr.size f.offset - 2 ^ 64, Function.update files (longAsU64 fd)
        (some (.file { f with offset := (pos.target attr.size f.offset).toNat }))) := by
  have hu : 0 ≤ pos.target attr.size f.offset ∧ pos.target attr.size f.offset < u64Modulus := by
    unfold u64Modulus
    omega
  have hcast : u64AsLong (pos.target attr.size f.offset).toNat =
      pos.target attr.size f.offset - 2 ^ 64 := by
    rw [u64AsLong_of_ge (by omega)]
    omega
  rw [sysLseek_spec hfd hattr hpos, if_pos hu, hcast]

/-- A negative `SEEK_SET` offset moves the cursor to the offset plus `2 ^ 64`, and
    returns the offset itself. -/
theorem sysLseek_start_of_neg {attr : FileAttr} (hfd : files (longAsU64 fd) = some (.file f))
    (hattr : ops.getAttr f.node.inner = .ok attr) (hneg : -2 ^ 63 ≤ offset ∧ offset < 0) :
    sysLseek toLinux ops files fd offset 0 =
      (offset, Function.update files (longAsU64 fd)
        (some (.file { f with offset := (offset + 2 ^ 64).toNat }))) := by
  have hpos : seekFromWhence offset 0 = some (.start (UInt64.ofNat (longAsU64 offset))) :=
    if_pos rfl
  have hl := longAsU64_of_neg (by omega) hneg.2
  have ht := target_start offset attr.size f.offset
  rw [sysLseek_of_high hfd hattr hpos (by rw [ht, hl]; omega), ht, Int.toNat_natCast, hl]
  congr 1
  omega

end Spec

/-- A regular file of `100` bytes. -/
def fixedSizeOps : NodeOps Unit where
  getAttr _ := .ok ⟨⟨true, true, false⟩, .file, 100⟩
  readAt _ _ _ := .ok []
  writeAt _ _ _ := .ok (0, ())
  truncate _ _ := .ok ()
  fsync _ := .ok ()
  openNode _ := .ok ()

/-- Descriptor `3` open on that file for reading, the cursor at `0`. -/
def fdThreeAtZero : FileTable Unit :=
  fun i => if i = 3 then some (.file ⟨⟨(), Cap.READ⟩, false, 0⟩) else none

/-- `lseek(3, -22, SEEK_SET)` moves the cursor to `2^64 - 22` and returns `-22`, which is
    `-EINVAL`: the caller reads an error for a call that moved the cursor. -/
theorem lseek_negative_start_returns_errno (toLinux : VfsError → LinuxError) :
    (sysLseek toLinux fixedSizeOps fdThreeAtZero 3 (-22) 0).1 = -(LinuxError.EINVAL.code : Int) ∧
      ((fileFromFd (sysLseek toLinux fixedSizeOps fdThreeAtZero 3 (-22) 0).2 3).map
        (·.offset)) = .ok (2 ^ 64 - 22) := by
  rw [sysLseek_start_of_neg rfl rfl (by decide)]
  constructor
  · rfl
  · rw [fileFromFd_of_file (Function.update_self _ _ _)]
    rfl

end ArceOS.Posix
