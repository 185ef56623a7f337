import ArceOS.Fs.Vfs
import ArceOS.Fs.DevSpec

/-!
# Opened Files

Model of `File` and `OpenOptions` (`axfs/src/fops.rs`) and of the capability
wrapper `WithCap` they rely on (`cap_access`). Opening a file checks the options
(`is_valid`), finds or creates the node, checks the node's permission against
the capability the options ask for, and wraps the node with that capability.
Every later call asks the wrapper for the capability it needs: `read` for
`Cap::READ`, `write` for `Cap::WRITE`, `seek` and `get_attr` for none.

The node is a file system's `VfsNodeOps` object, a third party here: `NodeOps`
gives its operations on node states `ν`, and a failed operation leaves the node
as it was. What `root::lookup` and `root::create_file` return for the path is
given to `openAt` as it is. The cursor is a `u64`, so its moves wrap modulo
`2^64`.

## Main definitions

- `Cap`, `WithCap`, `OpenOptions`, `File`;
- `openAt`, `File.read`, `File.write`, `File.seek`: the code;
- `fileSystem`: an opened file driven by any sequence of calls.

## Main results

- `openAt_ok`: what a successful open checked and built;
- `sameHandle_of_reachable`: the capability and the append flag never change;
- `read_spec`, `write_spec`, `seek_spec`, `fileStep_error`: what every call does.
-/

namespace ArceOS.Fs.Fops

open ArceOS.Lib ArceOS.Fs.Dev

/-! ## §1 Capabilities -/

/-- `Cap`: the bit flags `READ`, `WRITE` and `EXECUTE`. -/
structure Cap where
  read : Bool
  write : Bool
  execute : Bool
  deriving DecidableEq, Repr

namespace Cap

/-- `Cap::empty()`. -/
def empty : Cap := ⟨false, false, false⟩

/-- `Cap::READ`. -/
def READ : Cap := ⟨true, false, false⟩

/-- `Cap::WRITE`. -/
def WRITE : Cap := ⟨false, true, false⟩

/-- `Cap::EXECUTE`. -/
def EXECUTE : Cap := ⟨false, false, true⟩

/-- `a | b`. -/
def union (a b : Cap) : Cap := ⟨a.read || b.read, a.write || b.write, a.execute || b.execute⟩

/-- `a.contains(b)`: every flag of `b` is in `a`. -/
def contains (a b : Cap) : Bool :=
  (!b.read || a.read) && (!b.write || a.write) && (!b.execute || a.execute)

@[simp] theorem contains_empty (a : Cap) : a.contains empty = true := by
  simp [contains, empty]

@[simp] theorem contains_READ (a : Cap) : a.contains READ = a.read := by
  simp [contains, READ]

@[simp] theorem contains_WRITE (a : Cap) : a.contains WRITE = a.write := by
  simp [contains, WRITE]

end Cap

/-- `WithCap<T>`: a value that is handed out only for the capabilities `cap`
    contains. -/
structure WithCap (α : Type) where
  inner : α
  cap : Cap

namespace WithCap

variable {α : Type}

/-- `WithCap::new`. -/
def new (inner : α) (cap : Cap) : WithCap α := ⟨inner, cap⟩

/-- `access_or_err(cap, err)`. -/
def accessOrErr {ε : Type} (w : WithCap α) (cap : Cap) (err : ε) : Except ε α :=
  if w.cap.contains cap then .ok w.inner else .error err

theorem accessOrErr_of_contains {ε : Type} {w : WithCap α} {cap : Cap} (err : ε)
    (h : w.cap.contains cap = true) : w.accessOrErr cap err = .ok w.inner := by
  rw [accessOrErr, if_pos h]

theorem accessOrErr_of_not_contains {ε : Type} {w : WithCap α} {cap : Cap} (err : ε)
    (h : w.cap.contains cap = false) : w.accessOrErr cap err = .error err := by
  rw [accessOrErr, if_neg (by rw [h]; decide)]

end WithCap

/-! ## §2 Options and permissions -/

/-- `OpenOptions`: the generic flags (`_custom_flags` and `_mode` are read by
    nothing here). -/
structure OpenOptions where
  read : Bool
  write : Bool
  append : Bool
  truncate : Bool
  create : Bool
  createNew : Bool
  deriving DecidableEq, Repr

namespace OpenOptions

/-- `OpenOptions::new()`: every flag off. -/
def new : OpenOptions := ⟨false, false, false, false, false, false⟩

/-- `OpenOptions::is_valid`: some access is asked for, and truncating or creating
    comes with writing (with appending, truncation only with `create_new`). -/
def isValid (o : OpenOptions) : Bool :=
  if !o.read && !o.write && !o.append then false
  else
    match o.write, o.append with
    | true, false => true
    | false, false => !(o.truncate || o.create || o.createNew)
    | _, true => !(o.truncate && !o.createNew)

end OpenOptions

/-- `From<&OpenOptions> for Cap`: `READ` for reading, `WRITE` for writing or
    appending. -/
def Cap.ofOpenOptions (opts : OpenOptions) : Cap :=
  let cap := Cap.empty
  let cap := if opts.read then cap.union Cap.READ else cap
  if opts.write || opts.append then cap.union Cap.WRITE else cap

/-- `VfsNodePerm`, as far as `perm_to_cap` reads it: the owner's bits. -/
structure FilePerm where
  ownerReadable : Bool
  ownerWritable : Bool
  ownerExecutable : Bool
  deriving DecidableEq, Repr

/-- `perm_to_cap`. -/
def permToCap (perm : FilePerm) : Cap :=
  let cap := Cap.empty
  let cap := if perm.ownerReadable then cap.union Cap.READ else cap
  let cap := if perm.ownerWritable then cap.union Cap.WRITE else cap
  if perm.ownerExecutable then cap.union Cap.EXECUTE else cap

@[simp] theorem read_ofOpenOptions (opts : OpenOptions) : (Cap.ofOpenOptions opts).read = opts.read := by
  obtain ⟨r, w, a, -, -, -⟩ := opts
  cases r <;> cases w <;> cases a <;> rfl

@[simp] theorem write_ofOpenOptions (opts : OpenOptions) :
    (Cap.ofOpenOptions opts).write = (opts.write || opts.append) := by
  obtain ⟨r, w, a, -, -, -⟩ := opts
  cases r <;> cases w <;> cases a <;> rfl

/-! ## §3 The node -/

/-- `VfsNodeAttr`, as far as `File` reads it. -/
structure FileAttr where
  perm : FilePerm
  ty : VfsNodeType
  size : Nat

/-- `VfsNodeAttr::is_dir`. -/
def FileAttr.isDir (attr : FileAttr) : Bool := attr.ty == .dir

/-- The `VfsNodeOps` a `File` calls, on node states `ν`. -/
structure NodeOps (ν : Type) where
  /-- `get_attr`. -/
  getAttr : ν → VfsResult FileAttr
  /-- `read_at(offset, buf)` for a buffer of `len` bytes: the bytes read. -/
  readAt : ν → Nat → Nat → VfsResult (List UInt8)
  /-- `write_at(offset, buf)`: the count written and the node after. -/
  writeAt : ν → Nat → List UInt8 → VfsResult (Nat × ν)
  /-- `truncate(size)`. -/
  truncate : ν → Nat → VfsResult ν
  /-- `fsync`. -/
  fsync : ν → VfsResult Unit
  /-- `open`. -/
  openNode : ν → VfsResult Unit

/-! ## §4 `File` -/

/-- `File`: the node with the capability it was opened for, the append flag and
    the cursor. -/
structure File (ν : Type) where
  node : WithCap ν
  isAppend : Bool
  offset : Nat

namespace File

variable {ν : Type} (ops : NodeOps ν) (f : File ν)

/-- `File::access_node`. -/
def accessNode (cap : Cap) : VfsResult ν := f.node.accessOrErr cap .permissionDenied

/-- `File::get_attr`. -/
def getAttr : VfsResult FileAttr := do
  let node ← f.accessNode Cap.empty
  ops.getAttr node

/-- `File::read` into a buffer of `len` bytes: the bytes read, and the file after. -/
def read (len : Nat) : VfsResult (List UInt8) × File ν :=
  match f.accessNode Cap.READ with
  | .error e => (.error e, f)
  | .ok node =>
    match ops.readAt node f.offset len with
    | .error e => (.error e, f)
    | .ok data => (.ok data, { f with offset := (f.offset + data.length) % u64Modulus })

/-- `File::read_at`: the cursor does not move. -/
def readAt (offset len : Nat) : VfsResult (List UInt8) := do
  let node ← f.accessNode Cap.READ
  ops.readAt node offset len

/-- `File::write`: at the cursor, or at the end in append mode. -/
def write (buf : List UInt8) : VfsResult Nat × File ν :=
  let offset : VfsResult Nat := if f.isAppend then (f.getAttr ops).map (·.size) else .ok f.offset
  match offset with
  | .error e => (.error e, f)
  | .ok offset =>
    match f.accessNode Cap.WRITE with
    | .error e => (.error e, f)
    | .ok node =>
      match ops.writeAt node offset buf with
      | .error e => (.error e, f)
      | .ok (n, node) =>
        (.ok n, { f with node := { f.node with inner := node }, offset := (offset + n) % u64Modulus })

/-- `File::write_at`: the cursor does not move. -/
def writeAt (offset : Nat) (buf : List UInt8) : VfsResult Nat × File ν :=
  match f.accessNode Cap.WRITE with
  | .error e => (.error e, f)
  | .ok node =>
    match ops.writeAt node offset buf with
    | .error e => (.error e, f)
    | .ok (n, node) => (.ok n, { f with node := { f.node with inner := node } })

/-- `File::truncate`. -/
def truncate (size : Nat) : VfsResult Unit × File ν :=
  match f.accessNode Cap.WRITE with
  | .error e => (.error e, f)
  | .ok node =>
    match ops.truncate node size with
    | .error e => (.error e, f)
    | .ok node => (.ok (), { f with node := { f.node with inner := node } })

/-- `File::flush`. -/
def flush : VfsResult Unit := do
  let node ← f.accessNode Cap.WRITE
  ops.fsync node

/-- `File::seek`: the cursor moves to the target when it is a `u64`. -/
def seek (pos : SeekFrom) : VfsResult Nat × File ν :=
  match f.getAttr ops with
  | .error e => (.error e, f)
  | .ok attr =>
    let newOffset := match pos with
      | .start p => some p.toNat
      | .current off => checkedAddSigned f.offset off
      | .fromEnd off => checkedAddSigned attr.size off
    match newOffset with
    | none => (.error .invalidInput, f)
    | some n => (.ok n, { f with offset := n })

end File

/-! ## §5 `File::_open_at` -/

section Open

variable {ν : Type}

/-- The node `_open_at` goes on with: the node found, or the one created when
    creation is asked for and the path is not found. -/
def findNode (nodeOption createFile : VfsResult ν) (opts : OpenOptions) : VfsResult ν :=
  if opts.create || opts.createNew then
    match nodeOption with
    | .ok node => if opts.createNew then .error .alreadyExists else .ok node
    | .error .notFound => createFile
    | .error e => .error e
  else nodeOption

/-- The checks `_open_at` makes on the node's attributes, which give the
    capability the file gets. -/
def checkAttr (attr : FileAttr) (opts : OpenOptions) : VfsResult Cap :=
  if attr.isDir && (opts.create || opts.createNew || opts.write || opts.append || opts.truncate) then
    .error .isADirectory
  else
    let accessCap := Cap.ofOpenOptions opts
    if !(permToCap attr.perm).contains accessCap then .error .permissionDenied else .ok accessCap

/-- `File::_open_at`, given what `root::lookup` and `root::create_file` return
    for the path. -/
def openAt (ops : NodeOps ν) (nodeOption createFile : VfsResult ν) (opts : OpenOptions) :
    VfsResult (File ν) :=
  if !opts.isValid then .error .invalidInput
  else do
    let node ← findNode nodeOption createFile opts
    let attr ← ops.getAttr node
    let accessCap ← checkAttr attr opts
    ops.openNode node
    let node ← if opts.truncate then ops.truncate node 0 else pure node
    pure { node := WithCap.new node accessCap, isAppend := opts.append, offset := 0 }

end Open

/-! ## §6 What a successful open checked -/

theorem except_bind_eq_ok {ε α β : Type} {x : Except ε α} {g : α → Except ε β} {r : β} :
    x.bind g = .ok r ↔ ∃ a, x = .ok a ∧ g a = .ok r := by
  cases x <;> simp [Except.bind]

section OpenOk

variable {ν : Type} {ops : NodeOps ν} {nodeOption createFile : VfsResult ν} {opts : OpenOptions}

theorem checkAttr_ok {attr : FileAttr} {cap : Cap} (h : checkAttr attr opts = .ok cap) :
    cap = Cap.ofOpenOptions opts ∧ (permToCap attr.perm).contains (Cap.ofOpenOptions opts) = true := by
  unfold checkAttr at h
  split at h
  · cases h
  · dsimp only at h
    split at h
    · cases h
    · next hperm =>
      cases h
      exact ⟨rfl, by simpa using hperm⟩

/-- A successful `_open_at` had valid options and a node whose permission allows
    the capability asked for, and it built a file with that capability, the append
    flag of the options and the cursor at `0`. -/
theorem openAt_ok {f : File ν} (h : openAt ops nodeOption createFile opts = .ok f) :
    opts.isValid = true ∧
      (∃ node attr, findNode nodeOption createFile opts = .ok node ∧ ops.getAttr node = .ok attr ∧
        (permToCap attr.perm).contains (Cap.ofOpenOptions opts) = true ∧
        (if opts.truncate then ops.truncate node 0 else .ok node) = .ok f.node.inner) ∧
      f.node.cap = Cap.ofOpenOptions opts ∧ f.isAppend = opts.append ∧ f.offset = 0 := by
  unfold openAt at h
  split at h
  · cases h
  · next hvalid =>
    simp only [bind, except_bind_eq_ok, pure, Except.pure] at h
    obtain ⟨node, hnode, attr, hattr, cap, hcap, -, -, hf⟩ := h
    obtain ⟨rfl, hperm⟩ := checkAttr_ok hcap
    refine ⟨by simpa using hvalid, ⟨node, attr, hnode, hattr, hperm, ?_⟩, ?_⟩
    -- with or without the truncation, the file wraps the node found, with that capability
    · split at hf
      · obtain ⟨node', htrunc, hf⟩ := except_bind_eq_ok.mp hf
        cases hf
        rw [if_pos ‹_›, htrunc]
        rfl
      · cases hf
        rw [if_neg ‹_›]
        rfl
    · split at hf
      · obtain ⟨node', -, hf⟩ := except_bind_eq_ok.mp hf
        cases hf
        exact ⟨rfl, rfl, rfl⟩
      · cases hf
        exact ⟨rfl, rfl, rfl⟩

end OpenOk

/-! ## §7 What each call does -/

namespace File

variable {ν : Type} {ops : NodeOps ν} {f : File ν}

theorem accessNode_of_contains {cap : Cap} (h : f.node.cap.contains cap = true) :
    f.accessNode cap = .ok f.node.inner :=
  WithCap.accessOrErr_of_contains _ h

theorem accessNode_of_not_contains {cap : Cap} (h : f.node.cap.contains cap = false) :
    f.accessNode cap = .error .permissionDenied :=
  WithCap.accessOrErr_of_not_contains _ h

/-- `get_attr` needs no capability. -/
@[simp] theorem getAttr_eq : f.getAttr ops = ops.getAttr f.node.inner := by
  rw [getAttr, accessNode_of_contains (Cap.contains_empty _)]
  rfl

/-- Without `Cap::READ`, `read` is refused. -/
theorem read_of_not_read (h : f.node.cap.read = false) (len : Nat) :
    f.read ops len = (.error .permissionDenied, f) := by
  rw [read, accessNode_of_not_contains (by rw [Cap.contains_READ, h])]

/-- With `Cap::READ`, `read` is the node's `read_at` at the cursor, and the cursor
    moves past the bytes read. -/
theorem read_of_read (h : f.node.cap.read = true) (len : Nat) :
    f.read ops len = match ops.readAt f.node.inner f.offset len with
      | .error e => (.error e, f)
      | .ok data => (.ok data, { f with offset := (f.offset + data.length) % u64Modulus }) := by
  rw [read, accessNode_of_contains (by rw [Cap.contains_READ, h])]

/-- Without `Cap::WRITE`, `write` out of append mode is refused. -/
theorem write_of_not_write (h : f.node.cap.write = false) (ha : f.isAppend = false) (buf : List UInt8) :
    f.write ops buf = (.error .permissionDenied, f) := by
  rw [write, if_neg (by rw [ha]; decide)]
  dsimp only
  rw [accessNode_of_not_contains (by rw [Cap.contains_WRITE, h])]

/-- With `Cap::WRITE`, `write` is the node's `write_at` at the offset it computed:
    the cursor, or in append mode the size `get_attr` gives. The cursor moves past
    the bytes written. -/
theorem write_of_write (h : f.node.cap.write = true) {offset : Nat}
    (hoff : (if f.isAppend then (f.getAttr ops).map (·.size) else .ok f.offset) = .ok offset)
    (buf : List UInt8) :
    f.write ops buf = match ops.writeAt f.node.inner offset buf with
      | .error e => (.error e, f)
      | .ok (n, node) =>
        (.ok n, { f with node := { f.node with inner := node }, offset := (offset + n) % u64Modulus }) := by
  rw [write]
  dsimp only
  rw [hoff]
  dsimp only
  rw [accessNode_of_contains (by rw [Cap.contains_WRITE, h])]

/-- When `get_attr` answers, `seek` moves the cursor to the target exactly when it
    is a `u64`, and otherwise fails with `InvalidInput`. -/
theorem seek_spec {attr : FileAttr} (hattr : ops.getAttr f.node.inner = .ok attr) (pos : SeekFrom) :
    f.seek ops pos =
      if 0 ≤ pos.target attr.size f.offset ∧ pos.target attr.size f.offset < u64Modulus then
        (.ok (pos.target attr.size f.offset).toNat, { f with offset := (pos.target attr.size f.offset).toNat })
      else (.error .invalidInput, f) := by
  rw [seek, getAttr_eq, hattr]
  dsimp only
  cases pos with
  | start q =>
    -- a `u64` from the start is always in range
    have hq : q.toNat < u64Modulus := UInt64.toNat_lt q
    rw [SeekFrom.target, if_pos ⟨Int.natCast_nonneg _, by exact_mod_cast hq⟩, Int.toNat_natCast]
  | current off =>
    dsimp only
    rw [SeekFrom.target]
    by_cases hin : 0 ≤ (f.offset : Int) + off ∧ (f.offset : Int) + off < u64Modulus
    · rw [checkedAddSigned_of_mem hin, if_pos hin]
    · rw [checkedAddSigned_of_not_mem hin, if_neg hin]
  | fromEnd off =>
    dsimp only
    rw [SeekFrom.target]
    by_cases hin : 0 ≤ (attr.size : Int) + off ∧ (attr.size : Int) + off < u64Modulus
    · rw [checkedAddSigned_of_mem hin, if_pos hin]
    · rw [checkedAddSigned_of_not_mem hin, if_neg hin]

/-! What each call can do: fail and leave the file as it was, or succeed and
    change only the cursor and, for `write`, the node. -/

theorem read_cases (len : Nat) :
    (∃ e, f.read ops len = (.error e, f)) ∨
      ∃ data, f.read ops len = (.ok data, { f with offset := (f.offset + data.length) % u64Modulus }) := by
  unfold read
  split
  · exact .inl ⟨_, rfl⟩
  · split
    · exact .inl ⟨_, rfl⟩
    · exact .inr ⟨_, rfl⟩

theorem write_cases (buf : List UInt8) :
    (∃ e, f.write ops buf = (.error e, f)) ∨
      ∃ n node offset, f.write ops buf = (.ok n, { f with node := { f.node with inner := node }, offset := offset }) := by
  unfold write
  dsimp only
  split
  · exact .inl ⟨_, rfl⟩
  · split
    · exact .inl ⟨_, rfl⟩
    · split
      · exact .inl ⟨_, rfl⟩
      · exact .inr ⟨_, _, _, rfl⟩

theorem seek_cases (pos : SeekFrom) :
    (∃ e, f.seek ops pos = (.error e, f)) ∨ ∃ n, f.seek ops pos = (.ok n, { f with offset := n }) := by
  unfold seek
  dsimp only
  split
  · exact .inl ⟨_, rfl⟩
  · split
    · exact .inl ⟨_, rfl⟩
    · exact .inr ⟨_, rfl⟩

end File

/-! ## §8 An opened file over any sequence of calls -/

/-- A call of `File`'s cursor API. -/
inductive FileCall where
  | read (len : Nat)
  | write (buf : List UInt8)
  | seek (pos : SeekFrom)

section Calls

variable {ν : Type} (ops : NodeOps ν)

/-- One call on the file, with what it returns. -/
def fileStep (f : File ν) : FileCall → VfsResult Reply × File ν
  | .read len => ((f.read ops len).1.map .bytes, (f.read ops len).2)
  | .write buf => ((f.write ops buf).1.map .count, (f.write ops buf).2)
  | .seek pos => ((f.seek ops pos).1.map .pos, (f.seek ops pos).2)

/-- The file `f₀` driven by any sequence of calls, failed ones included. -/
def fileSystem (f₀ : File ν) : LTS (File ν) (FileCall × VfsResult Reply) where
  init f := f = f₀
  step f l f' := fileStep ops f l.1 = (l.2, f')

variable {ops} {f g : File ν}

/-- Every call either fails and leaves the file as it was, or succeeds and keeps
    the capability and the append flag. -/
theorem fileStep_cases (c : FileCall) :
    (∃ e, fileStep ops f c = (.error e, f)) ∨
      ∃ r g, fileStep ops f c = (.ok r, g) ∧ g.node.cap = f.node.cap ∧ g.isAppend = f.isAppend := by
  cases c with
  | read len =>
    rcases @File.read_cases _ ops f len with ⟨e, h⟩ | ⟨data, h⟩
    · exact .inl ⟨e, by rw [fileStep, h]; rfl⟩
    · exact .inr ⟨_, _, by rw [fileStep, h]; rfl, by rfl, by rfl⟩
  | write buf =>
    rcases @File.write_cases _ ops f buf with ⟨e, h⟩ | ⟨n, node, offset, h⟩
    · exact .inl ⟨e, by rw [fileStep, h]; rfl⟩
    · exact .inr ⟨_, _, by rw [fileStep, h]; rfl, by rfl, by rfl⟩
  | seek pos =>
    rcases @File.seek_cases _ ops f pos with ⟨e, h⟩ | ⟨n, h⟩
    · exact .inl ⟨e, by rw [fileStep, h]; rfl⟩
    · exact .inr ⟨_, _, by rw [fileStep, h]; rfl, by rfl, by rfl⟩

/-- A failed call leaves the file, cursor and node, as it was. -/
theorem fileStep_error {c : FileCall} {e : VfsError} (h : fileStep ops f c = (.error e, g)) : g = f := by
  rcases @fileStep_cases _ ops f c with ⟨e', h'⟩ | ⟨r, g', h', -, -⟩
  · rw [h'] at h
    exact (Prod.mk.inj h).2.symm
  · rw [h'] at h
    cases (Prod.mk.inj h).1

/-- No call changes the capability or the append flag. -/
theorem fileStep_handle {c : FileCall} {r : VfsResult Reply} (h : fileStep ops f c = (r, g)) :
    g.node.cap = f.node.cap ∧ g.isAppend = f.isAppend := by
  rcases @fileStep_cases _ ops f c with ⟨e, h'⟩ | ⟨r', g', h', hcap, happ⟩
  · rw [h'] at h
    obtain ⟨-, rfl⟩ := Prod.mk.inj h
    exact ⟨rfl, rfl⟩
  · rw [h'] at h
    obtain ⟨-, rfl⟩ := Prod.mk.inj h
    exact ⟨hcap, happ⟩

/-- The capability and the append flag of every file reachable from `f₀` are those
    of `f₀`. -/
theorem sameHandle_of_reachable {f₀ : File ν} (h : (fileSystem ops f₀).Reachable f) :
    f.node.cap = f₀.node.cap ∧ f.isAppend = f₀.isAppend := by
  have hinit : ∀ f, (fileSystem ops f₀).init f → f.node.cap = f₀.node.cap ∧ f.isAppend = f₀.isAppend := by
    rintro f rfl
    exact ⟨rfl, rfl⟩
  have hstep : ∀ f l f', f.node.cap = f₀.node.cap ∧ f.isAppend = f₀.isAppend → (fileSystem ops f₀).step f l f' →
      f'.node.cap = f₀.node.cap ∧ f'.isAppend = f₀.isAppend := by
    intro f l f' hf hs
    obtain ⟨hcap, happ⟩ := fileStep_handle hs
    exact ⟨hcap.trans hf.1, happ.trans hf.2⟩
  exact LTS.Reachable.invariant hinit hstep h

/-- **An opened file enforces its capabilities.** A successful open had valid
    options, and the node it found for the path (or created), which the file wraps,
    truncated when asked, has a permission that contains `Cap::from(opts)`. Then, after any
    sequence of calls: a failed call leaves cursor and node as they were; `read` is
    refused with `PermissionDenied` exactly without `opts.read`, and is otherwise the
    node's `read_at` at the cursor; `write` is refused exactly without `opts.write`
    and `opts.append`, and otherwise is the node's `write_at` at the cursor, or in
    append mode at the size `get_attr` gives, moving the cursor past what was
    written; `seek` moves the cursor to the target exactly when it is a `u64`, and
    fails with `InvalidInput` otherwise. -/
theorem file_open_enforces_caps_and_cursor (ops : NodeOps ν) (nodeOption createFile : VfsResult ν)
    (opts : OpenOptions) {f₀ : File ν} (hopen : openAt ops nodeOption createFile opts = .ok f₀) :
    (opts.isValid = true ∧
      ∃ node attr, findNode nodeOption createFile opts = .ok node ∧ ops.getAttr node = .ok attr ∧
        (permToCap attr.perm).contains (Cap.ofOpenOptions opts) = true ∧
        (if opts.truncate then ops.truncate node 0 else .ok node) = .ok f₀.node.inner) ∧
    ∀ f, (fileSystem ops f₀).Reachable f →
      (∀ c e g, fileStep ops f c = (.error e, g) → g = f) ∧
      (∀ len, opts.read = false → f.read ops len = (.error .permissionDenied, f)) ∧
      (∀ len, opts.read = true → f.read ops len = match ops.readAt f.node.inner f.offset len with
        | .error e => (.error e, f)
        | .ok data => (.ok data, { f with offset := (f.offset + data.length) % u64Modulus })) ∧
      (∀ buf, (opts.write || opts.append) = false → f.write ops buf = (.error .permissionDenied, f)) ∧
      (∀ buf, opts.write = true → opts.append = false → f.write ops buf = match ops.writeAt f.node.inner f.offset buf with
        | .error e => (.error e, f)
        | .ok (n, node) => (.ok n, { f with node := { f.node with inner := node }, offset := (f.offset + n) % u64Modulus })) ∧
      (∀ buf attr, opts.append = true → ops.getAttr f.node.inner = .ok attr →
        f.write ops buf = match ops.writeAt f.node.inner attr.size buf with
        | .error e => (.error e, f)
        | .ok (n, node) => (.ok n, { f with node := { f.node with inner := node }, offset := (attr.size + n) % u64Modulus })) ∧
      (∀ pos attr, ops.getAttr f.node.inner = .ok attr →
        f.seek ops pos =
          if 0 ≤ pos.target attr.size f.offset ∧ pos.target attr.size f.offset < u64Modulus then
            (.ok (pos.target attr.size f.offset).toNat, { f with offset := (pos.target attr.size f.offset).toNat })
          else (.error .invalidInput, f)) := by
  obtain ⟨hvalid, hperm, hcap₀, happ₀, -⟩ := openAt_ok hopen
  refine ⟨⟨hvalid, hperm⟩, fun f hf => ?_⟩
  -- every reachable file keeps the capability and the append flag of the open
  obtain ⟨hcap, happ⟩ := sameHandle_of_reachable hf
  rw [hcap₀] at hcap
  rw [happ₀] at happ
  have hread : f.node.cap.read = opts.read := by rw [hcap, read_ofOpenOptions]
  have hwrite : f.node.cap.write = (opts.write || opts.append) := by rw [hcap, write_ofOpenOptions]
  refine ⟨fun c e g h => fileStep_error h, ?_, ?_, ?_, ?_, ?_, ?_⟩
  · intro len hr
    exact File.read_of_not_read (hread.trans hr) len
  · intro len hr
    exact File.read_of_read (hread.trans hr) len
  · intro buf hw
    -- neither flag: no `Cap::WRITE`, and not in append mode
    have ha : opts.append = false := by
      cases h : opts.append
      · rfl
      · rw [h, Bool.or_true] at hw
        cases hw
    exact File.write_of_not_write (hwrite.trans hw) (happ.trans ha) buf
  · intro buf hw ha
    apply File.write_of_write (by rw [hwrite, hw, Bool.true_or])
    rw [if_neg (by rw [happ, ha]; decide)]
  · intro buf attr ha hattr
    apply File.write_of_write (by rw [hwrite, ha, Bool.or_true])
    rw [if_pos (by rw [happ, ha]), File.getAttr_eq, hattr]
    rfl
  · intro pos attr hattr
    exact File.seek_spec hattr pos

end Calls

/-! ## §9 Files of `axfs_ramfs` -/

/-- A node of `axfs_ramfs`: a `FileNode` with its content, or a `DirNode`, whose
    entries a `File` never reads. -/
inductive RamNode where
  | file (content : List UInt8)
  | dir

/-- `FileNode::read_at`: the bytes from `offset`, at most `len` of them, clipped to
    the content. -/
def ramReadAt (content : List UInt8) (offset len : Nat) : List UInt8 :=
  let start := min content.length offset
  let stop := min content.length (offset + len)
  (content.take stop).drop start

/-- `FileNode::write_at`: the content grown with zeros up to the end of the write,
    then `buf` copied in at `offset`. -/
def ramWriteAt (content : List UInt8) (offset : Nat) (buf : List UInt8) : List UInt8 :=
  let content := if offset + buf.length > content.length then
      content ++ List.replicate (offset + buf.length - content.length) 0
    else content
  content.take offset ++ buf ++ content.drop (offset + buf.length)

/-- `FileNode::truncate`. -/
def ramTruncate (content : List UInt8) (size : Nat) : List UInt8 :=
  if size < content.length then content.take size else content ++ List.replicate (size - content.length) 0

/-- The nodes of `axfs_ramfs`: `FileNode` as `file.rs` writes it, `DirNode` with the
    `impl_vfs_dir_default` operations (`IsADirectory`), the attributes of
    `VfsNodeAttr::new_file` (`rw-`) and `new_dir(4096, 0)` (`rwx`) for the owner, and
    the trait's defaults for `open` and a file's `fsync`. -/
def ramNodeOps : NodeOps RamNode where
  getAttr
    | .file content => .ok ⟨⟨true, true, false⟩, .file, content.length⟩
    | .dir => .ok ⟨⟨true, true, true⟩, .dir, 4096⟩
  readAt
    | .file content, offset, len => .ok (ramReadAt content offset len)
    | .dir, _, _ => .error .isADirectory
  writeAt
    | .file content, offset, buf => .ok (buf.length, .file (ramWriteAt content offset buf))
    | .dir, _, _ => .error .isADirectory
  truncate
    | .file content, size => .ok (.file (ramTruncate content size))
    | .dir, _ => .error .isADirectory
  fsync
    | .file _ => .error .unsupported
    | .dir => .error .isADirectory
  openNode _ := .ok ()

/-- The options of `File::open` in `axfs::api`: read only. -/
def readOnly : OpenOptions := { OpenOptions.new with read := true }

/-- A directory opens for reading, and then `read` fails with `IsADirectory`
    although the options ask for reading: `read` succeeds only when the node's
    `read_at` does. -/
theorem file_read_dir_fails_despite_read :
    ∃ f, openAt ramNodeOps (.ok .dir) (.error .notFound) readOnly = .ok f ∧ readOnly.read = true ∧
      (f.read ramNodeOps 16).1 = .error .isADirectory :=
  ⟨_, rfl, rfl, rfl⟩

/-- The file opened read-only over a ramfs file. -/
def sampleReadOnly : File RamNode := ⟨⟨.file [104, 105], Cap.READ⟩, false, 0⟩

/-- A ramfs file opened read-only refuses every write after any calls. -/
theorem sampleReadOnly_refuses_writes :
    openAt ramNodeOps (.ok (.file [104, 105])) (.error .notFound) readOnly = .ok sampleReadOnly ∧
      ∀ f, (fileSystem ramNodeOps sampleReadOnly).Reachable f →
        ∀ buf, f.write ramNodeOps buf = (.error .permissionDenied, f) :=
  ⟨rfl, fun f hf buf =>
    ((file_open_enforces_caps_and_cursor ramNodeOps (.ok (.file [104, 105])) (.error .notFound) readOnly
      rfl).2 f hf).2.2.2.1 buf rfl⟩

end ArceOS.Fs.Fops
