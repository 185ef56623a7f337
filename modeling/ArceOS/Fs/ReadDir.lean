import ArceOS.Fs.RamfsSpec
import ArceOS.Fs.Fops

/-!
# Reading Directories

`DirNode::read_dir` (`axfs_ramfs/src/dir.rs`) fills a buffer of directory entries from a
global index: the index `0` is `"."`, `1` is `".."`, and `2 + k` the `k`-th child in
the order of the children map. `Directory::read_dir` (`axfs/src/fops.rs`) keeps that
index as its cursor `entry_idx`, and the `ReadDir` iterator (`axfs/src/api/dir.rs`)
refills a buffer of `31` entries through it and skips `"."` and `".."`.

`VfsDirEntry` is a third party (`axfs_vfs`): an entry holds the name and the type that
`VfsDirEntry::new` is given, and `EMPTY`, the entry a fresh `ReadDir` buffer holds, is a
parameter.

## Main results

- `DirNode.readDir_eq`: one call copies the entries of the listing from the index on, as
  many as fit, and returns how many;
- `readChunks_eq`: successive calls with any buffers return the listing from the cursor
  on, cut where the buffers' room runs out; `Directory.readDir_of_le`: past the listing
  every call returns `0`;
- `sorted_of_reachable`: in every reachable file system the children of each directory
  are in increasing order (`NodeStable`: the node operations keep it);
- `Window.yields_of_drop`: the iterator yields the entries of the listing left other than
  `"."` and `".."`, then `None`;
- `readdir_lists_children` puts these together for a directory opened for reading, and
  `readdir_skips_child_named_dotdot` shows a child that `create_node` named `".."`, which
  the iterator never yields.
-/

/-- `VfsDirEntry`: the type and the name it was created with. -/
structure ArceOS.Fs.VfsDirEntry where
  dType : ArceOS.Fs.VfsNodeType
  dName : ArceOS.Fs.Path
  deriving DecidableEq, Repr

namespace ArceOS.Fs.Ramfs

open ArceOS.Lib

/-! ## §1 `DirNode::read_dir` -/

variable {ε : Type}

/-- `node.get_attr().unwrap().file_type()` for the node at index `c`: an index that
    holds no node is never a child (see `Wf`). -/
def fileType (fs : RamFs ε) (c : Nat) : VfsNodeType :=
  match fs.nodes c with
  | some (.dir _) => .dir
  | _ => .file

/-- The entry of the child `name` stored at `c`. -/
def childEntry (fs : RamFs ε) (child : Path × Nat) : VfsDirEntry :=
  ⟨fileType fs child.2, child.1⟩

/-- The loop of `DirNode::read_dir` from the entry `i` of the buffer on, `children` being
    what the iterator over the children has left. The first component is `some i` for
    the early `return Ok(i)`; the second is the buffer. -/
def readDirLoop (fs : RamFs ε) (startIdx : Nat) :
    Nat → List (Path × Nat) → List VfsDirEntry → Option Nat × List VfsDirEntry
  | _, _, [] => (none, [])
  | i, children, ent :: rest =>
    if i + startIdx = 0 then
      let r := readDirLoop fs startIdx (i + 1) children rest
      (r.1, ⟨.dir, dot⟩ :: r.2)
    else if i + startIdx = 1 then
      let r := readDirLoop fs startIdx (i + 1) children rest
      (r.1, ⟨.dir, dotdot⟩ :: r.2)
    else
      match children with
      | child :: children =>
        let r := readDirLoop fs startIdx (i + 1) children rest
        (r.1, childEntry fs child :: r.2)
      | [] => (some i, ent :: rest)

/-- `DirNode::read_dir(start_idx, dirents)`: the count returned and the buffer. -/
def DirNode.readDir (fs : RamFs ε) (d : DirNode ε) (startIdx : Nat)
    (dirents : List VfsDirEntry) : Nat × List VfsDirEntry :=
  let children := d.children.entries.drop (max startIdx 2 - 2)
  match readDirLoop fs startIdx 0 children dirents with
  | (some i, buf) => (i, buf)
  | (none, buf) => (dirents.length, buf)

/-- The whole listing of a directory: `"."`, `".."`, then the children in the map's
    order. -/
def listing (fs : RamFs ε) (d : DirNode ε) : List VfsDirEntry :=
  ⟨.dir, dot⟩ :: ⟨.dir, dotdot⟩ :: d.children.entries.map (childEntry fs)

@[simp] theorem length_listing (fs : RamFs ε) (d : DirNode ε) :
    (listing fs d).length = d.children.entries.length + 2 := by
  simp [listing]

/-- Past the two fixed entries, the listing from index `p` is the children from `p - 2`. -/
theorem drop_listing (fs : RamFs ε) (d : DirNode ε) {p : Nat} (hp : 2 ≤ p) :
    (listing fs d).drop p = (d.children.entries.drop (p - 2)).map (childEntry fs) := by
  obtain ⟨k, rfl⟩ := Nat.exists_eq_add_of_le hp
  rw [Nat.add_comm, Nat.add_sub_cancel, listing, List.drop_succ_cons, List.drop_succ_cons,
    List.map_drop]

/-- What the loop computes from entry `i` of the buffer on: the `r` entries of the listing
    `L` left from index `i + startIdx`, as many as fit, then the buffer as it was; and the
    early return at `i + r` when they do not fill it. -/
def loopSpec (L : List VfsDirEntry) (startIdx i : Nat) (buf : List VfsDirEntry) :
    Option Nat × List VfsDirEntry :=
  let r := L.length - (i + startIdx)
  (if r < buf.length then some (i + r) else none,
    (L.drop (i + startIdx)).take buf.length ++ buf.drop r)

theorem loopSpec_nil (L : List VfsDirEntry) (startIdx i : Nat) :
    loopSpec L startIdx i [] = (none, []) := by
  simp [loopSpec]

/-- Writing the entry at index `i + startIdx` and going on from `i + 1`. -/
theorem loopSpec_cons {L : List VfsDirEntry} {startIdx i : Nat} {e : VfsDirEntry}
    (hp : L.drop (i + startIdx) = e :: L.drop (i + 1 + startIdx)) (ent : VfsDirEntry)
    (rest : List VfsDirEntry) :
    loopSpec L startIdx i (ent :: rest) =
      ((loopSpec L startIdx (i + 1) rest).1, e :: (loopSpec L startIdx (i + 1) rest).2) := by
  have hlen : L.length - (i + startIdx) = L.length - (i + 1 + startIdx) + 1 := by
    have := congrArg List.length hp
    simp only [List.length_drop, List.length_cons] at this
    omega
  simp only [loopSpec, hlen, hp, List.length_cons, List.take_succ_cons, List.drop_succ_cons,
    List.cons_append, Nat.add_lt_add_iff_right, Prod.mk.injEq, and_true]
  split_ifs <;> simp only [Option.some.injEq]
  omega

/-- Past the end of the listing the loop returns at once. -/
theorem loopSpec_of_le {L : List VfsDirEntry} {startIdx i : Nat} (hp : L.length ≤ i + startIdx)
    (ent : VfsDirEntry) (rest : List VfsDirEntry) :
    loopSpec L startIdx i (ent :: rest) = (some i, ent :: rest) := by
  simp [loopSpec, Nat.sub_eq_zero_of_le hp, List.drop_of_length_le hp]

/-- The loop from entry `i`, with the children iterator at child `i + startIdx - 2`, is
    `loopSpec` of the listing. -/
theorem readDirLoop_eq (fs : RamFs ε) (d : DirNode ε) (startIdx : Nat) (i : Nat)
    (buf : List VfsDirEntry) :
    readDirLoop fs startIdx i (d.children.entries.drop (i + startIdx - 2)) buf =
      loopSpec (listing fs d) startIdx i buf := by
  induction buf generalizing i with
  | nil => rw [loopSpec_nil]; rfl
  | cons ent rest ih =>
    rw [readDirLoop.eq_def]
    simp only
    by_cases h0 : i + startIdx = 0
    · -- the entry `"."`; the children iterator has not moved
      have hc : i + startIdx - 2 = i + 1 + startIdx - 2 := by omega
      have hp : (listing fs d).drop (i + startIdx) = ⟨.dir, dot⟩ :: (listing fs d).drop (i + 1 + startIdx) := by
        rw [h0, show i + 1 + startIdx = 1 by omega]
        rfl
      rw [if_pos h0, hc, ih, loopSpec_cons hp]
    by_cases h1 : i + startIdx = 1
    · -- the entry `".."`
      have hc : i + startIdx - 2 = i + 1 + startIdx - 2 := by omega
      have hp : (listing fs d).drop (i + startIdx) = ⟨.dir, dotdot⟩ :: (listing fs d).drop (i + 1 + startIdx) := by
        rw [h1, show i + 1 + startIdx = 2 by omega]
        rfl
      rw [if_neg h0, if_pos h1, hc, ih, loopSpec_cons hp]
    rw [if_neg h0, if_neg h1]
    have h2 : 2 ≤ i + startIdx := by omega
    cases hc : d.children.entries.drop (i + startIdx - 2) with
    | nil =>
      -- no child left: the early return
      have hle : (listing fs d).length ≤ i + startIdx := by
        have := congrArg List.length hc
        simp only [List.length_drop, List.length_nil] at this
        simp only [length_listing]
        omega
      rw [loopSpec_of_le hle]
    | cons child children =>
      -- the next child; the iterator moves on by one
      have htail : children = d.children.entries.drop (i + 1 + startIdx - 2) := by
        rw [show i + 1 + startIdx - 2 = i + startIdx - 2 + 1 by omega, ← List.tail_drop, hc]
        rfl
      have hp : (listing fs d).drop (i + startIdx) =
          childEntry fs child :: (listing fs d).drop (i + 1 + startIdx) := by
        rw [drop_listing fs d h2, drop_listing fs d (by omega), hc, ← htail]
        rfl
      simp only
      rw [htail, ih, loopSpec_cons hp]

/-- **`DirNode::read_dir`**: the call copies the entries of the listing from `startIdx` on,
    as many as fit, leaves the rest of the buffer as it was, and returns how many. -/
theorem DirNode.readDir_eq (fs : RamFs ε) (d : DirNode ε) (startIdx : Nat)
    (dirents : List VfsDirEntry) :
    d.readDir fs startIdx dirents =
      (min dirents.length ((listing fs d).length - startIdx),
        ((listing fs d).drop startIdx).take dirents.length ++
          dirents.drop ((listing fs d).length - startIdx)) := by
  have h := readDirLoop_eq fs d startIdx 0 dirents
  rw [Nat.zero_add] at h
  unfold DirNode.readDir
  dsimp only
  rw [show max startIdx 2 - 2 = startIdx - 2 by omega, h, loopSpec]
  simp only [Nat.zero_add]
  split_ifs with hlt
  · rw [Nat.min_eq_right (Nat.le_of_lt hlt)]
  · rw [Nat.min_eq_left (Nat.le_of_not_lt hlt)]

/-! ## §2 The children stay in increasing order -/

/-- Names are compared as `String`s are, lexicographically. -/
theorem path_lt_trans (a b c : Path) : a < b → b < c → a < c := lt_trans

theorem path_lt_total (a b : Path) (h : ¬a < b) (hne : a ≠ b) : b < a :=
  lt_of_le_of_ne (not_lt.mp h) (Ne.symm hne)

/-- Every directory's children map lists its names in increasing order, as the
    `BTreeMap` does. -/
def ChildrenSorted (fs : RamFs ε) : Prop :=
  ∀ i d, fs.nodes i = some (.dir d) → d.children.Sorted

theorem childrenSorted_new : ChildrenSorted (RamFs.new : RamFs ε) := by
  intro i d hi
  simp only [RamFs.new] at hi
  split_ifs at hi
  cases hi
  exact OrdMap.sorted_empty

theorem ChildrenSorted.addChild {fs : RamFs ε} (h : ChildrenSorted fs) {i : Nat} {d : DirNode ε}
    (hi : fs.nodes i = some (.dir d)) (name : Path) {node : RamNode ε}
    (hnode : ∀ d', node = .dir d' → d'.children.Sorted) :
    ChildrenSorted (fs.addChild i d name node) := by
  intro j d' hj
  rw [RamFs.addChild_nodes] at hj
  by_cases hji : j = i
  · -- the directory that gains the entry
    subst hji
    rw [Function.update_self] at hj
    cases hj
    exact OrdMap.sorted_insert path_lt_trans path_lt_total (h j d hi) name fs.next
  · rw [Function.update_of_ne hji] at hj
    by_cases hjn : j = fs.next
    · -- the new node
      subst hjn
      rw [Function.update_self] at hj
      exact hnode d' (Option.some.inj hj)
    · rw [Function.update_of_ne hjn] at hj
      exact h j d' hj

theorem ChildrenSorted.eraseChild {fs : RamFs ε} (h : ChildrenSorted fs) {i : Nat}
    {d : DirNode ε} (hi : fs.nodes i = some (.dir d)) (name : Path) :
    ChildrenSorted (fs.eraseChild i d name) := by
  intro j d' hj
  simp only [RamFs.eraseChild, RamFs.setNode_nodes] at hj
  by_cases hji : j = i
  · subst hji
    rw [Function.update_self] at hj
    cases hj
    exact OrdMap.sorted_erase (h j d hi) name
  · rw [Function.update_of_ne hji] at hj
    exact h j d' hj

theorem childrenSorted_nodeStable : NodeStable ChildrenSorted := by
  constructor
  · intro fs i d hi h name ty
    unfold createNode
    split
    · exact h
    · split
      · exact h.addChild hi name fun _ hd => nomatch hd
      · exact h.addChild hi name fun _ hd => by cases hd; exact OrdMap.sorted_empty
      all_goals exact h
  · intro fs i d hi h name
    unfold removeNode
    split
    · exact h
    · split
      · exact h
      · exact h.eraseChild hi name

/-- **In every reachable state the children of each directory are in increasing order.** -/
theorem sorted_of_reachable {fs : RamFs Empty} (h : ramfsSystem.Reachable fs) :
    ChildrenSorted fs :=
  childrenSorted_nodeStable.reachable childrenSorted_new h

end ArceOS.Fs.Ramfs

namespace ArceOS.Fs.Fops

open ArceOS.Lib ArceOS.Fs.Ramfs

variable {ε : Type}

/-! ## §3 `Directory::read_dir` -/

/-- `VfsNodeOps::read_dir` on the RAM node at index `i`: `DirNode::read_dir` on a
    directory, the `NotADirectory` of `impl_vfs_non_dir_default!` on a file. -/
def nodeReadDir (fs : RamFs ε) (i startIdx : Nat) (dirents : List VfsDirEntry) :
    VfsResult Nat × List VfsDirEntry :=
  match fs.nodes i with
  | some (.dir d) =>
    let r := d.readDir fs startIdx dirents
    (.ok r.1, r.2)
  | some (.file _) => (.error .notADirectory, dirents)
  | none => (.error .notFound, dirents)

/-- `Directory`: the node, a RAM node here, with the capability it was opened with, and
    the cursor `entry_idx`. -/
structure Directory where
  node : WithCap Nat
  entryIdx : Nat

/-- `Directory::read_dir`: the count, the directory, and the buffer. -/
def Directory.readDir (fs : RamFs ε) (dir : Directory) (dirents : List VfsDirEntry) :
    VfsResult Nat × Directory × List VfsDirEntry :=
  match dir.node.accessOrErr Cap.READ .permissionDenied with
  | .error e => (.error e, dir, dirents)
  | .ok i =>
    match nodeReadDir fs i dir.entryIdx dirents with
    | (.error e, buf) => (.error e, dir, buf)
    | (.ok n, buf) => (.ok n, { dir with entryIdx := dir.entryIdx + n }, buf)

/-- Successive `Directory::read_dir` calls with the buffers `bufs`, as a caller makes them:
    the entries the calls return (the first `n` of each buffer), in order, and the
    directory after them; the first error ends them. -/
def readChunks (fs : RamFs ε) : Directory → List (List VfsDirEntry) →
    VfsResult (List VfsDirEntry) × Directory
  | dir, [] => (.ok [], dir)
  | dir, buf :: bufs =>
    match dir.readDir fs buf with
    | (.error e, dir', _) => (.error e, dir')
    | (.ok n, dir', buf') =>
      let r := readChunks fs dir' bufs
      (r.1.map (buf'.take n ++ ·), r.2)

section Open

variable {fs : RamFs ε} {d : DirNode ε} {dir : Directory}

/-- A directory opened for reading on the RAM directory `d`: each call copies the listing
    from the cursor on, as much as fits, and moves the cursor past what it copied. -/
theorem Directory.readDir_eq (hcap : dir.node.cap.contains Cap.READ = true)
    (hd : fs.nodes dir.node.inner = some (.dir d)) (dirents : List VfsDirEntry) :
    dir.readDir fs dirents =
      (.ok (min dirents.length ((listing fs d).length - dir.entryIdx)),
        { dir with entryIdx := dir.entryIdx + min dirents.length ((listing fs d).length - dir.entryIdx) },
        ((listing fs d).drop dir.entryIdx).take dirents.length ++
          dirents.drop ((listing fs d).length - dir.entryIdx)) := by
  simp only [Directory.readDir, WithCap.accessOrErr_of_contains _ hcap, nodeReadDir, hd,
    DirNode.readDir_eq]

/-- Once the cursor is past the listing, every call returns `0` and changes nothing. -/
theorem Directory.readDir_of_le (hcap : dir.node.cap.contains Cap.READ = true)
    (hd : fs.nodes dir.node.inner = some (.dir d)) (hend : (listing fs d).length ≤ dir.entryIdx)
    (dirents : List VfsDirEntry) : dir.readDir fs dirents = (.ok 0, dir, dirents) := by
  rw [Directory.readDir_eq hcap hd, Nat.sub_eq_zero_of_le hend, Nat.min_zero, Nat.add_zero,
    List.drop_of_length_le hend, List.take_nil, List.nil_append, List.drop_zero]

/-- The entries a call returns are the listing from the cursor on, as many as fit. -/
theorem take_readDir_eq {L : List VfsDirEntry} {e : Nat} (dirents : List VfsDirEntry) :
    ((L.drop e).take dirents.length ++ dirents.drop (L.length - e)).take
        (min dirents.length (L.length - e)) =
      (L.drop e).take dirents.length := by
  have hlen : ((L.drop e).take dirents.length).length = min dirents.length (L.length - e) := by
    simp
  rw [← hlen, List.take_left]

/-- **Successive calls with any buffers** return the listing from the cursor on, cut where
    the buffers' room runs out, and leave the cursor past what they returned. -/
theorem readChunks_eq (hcap : dir.node.cap.contains Cap.READ = true)
    (hd : fs.nodes dir.node.inner = some (.dir d)) (bufs : List (List VfsDirEntry)) :
    readChunks fs dir bufs =
      (.ok (((listing fs d).drop dir.entryIdx).take (bufs.map List.length).sum),
        { dir with entryIdx := (dir.entryIdx +
            min (bufs.map List.length).sum ((listing fs d).length - dir.entryIdx)) }) := by
  induction bufs generalizing dir with
  | nil => simp [readChunks]
  | cons buf bufs ih =>
    rw [readChunks, Directory.readDir_eq hcap hd]
    simp only
    rw [@ih ⟨dir.node, dir.entryIdx + min buf.length ((listing fs d).length - dir.entryIdx)⟩
      hcap hd, take_readDir_eq]
    -- the next call reads from where this one stopped, and nothing is left after a
    -- call that did not fill its buffer
    have hrest : ((listing fs d).drop (dir.entryIdx +
          min buf.length ((listing fs d).length - dir.entryIdx))).take (bufs.map List.length).sum =
        (((listing fs d).drop dir.entryIdx).drop buf.length).take (bufs.map List.length).sum := by
      rw [List.drop_drop]
      by_cases hfit : buf.length ≤ (listing fs d).length - dir.entryIdx
      · rw [Nat.min_eq_left hfit, Nat.add_comm]
      · have hle : (listing fs d).length ≤ dir.entryIdx + buf.length := by omega
        rw [List.drop_of_length_le (by omega), List.drop_of_length_le (by omega)]
    simp only [Except.map, List.map_cons, List.sum_cons, hrest, ← List.take_add,
      Prod.mk.injEq, Directory.mk.injEq, true_and]
    omega

end Open

/-! ## §4 The `ReadDir` iterator -/

/-- `ReadDir`: the directory, the window `[buf_pos, buf_end)` of the buffer still to be
    yielded, whether the stream has ended, and the buffer of `31` entries. The path it was
    opened with only goes into the paths of the entries it yields, and is left out. -/
structure ReadDir where
  inner : Directory
  bufPos : Nat
  bufEnd : Nat
  endOfStream : Bool
  direntBuf : List VfsDirEntry

/-- `ReadDir::new` on the opened directory `inner`, the buffer holding `31` copies of
    `EMPTY`. -/
def ReadDir.new (inner : Directory) (empty : VfsDirEntry) : ReadDir :=
  ⟨inner, 0, 0, false, List.replicate 31 empty⟩

/-- `name_bytes == b"." || name_bytes == b".."`. -/
def isDotEntry (e : VfsDirEntry) : Bool := e.dName == dot || e.dName == dotdot

/-- How one pass through the body of the `loop` of `ReadDir::next` ends. -/
inductive Pass where
  /-- `return Some(Ok(entry))` -/
  | yield (e : VfsDirEntry)
  /-- `return None` after a read of no entry -/
  | stop
  /-- `return Some(Err(e))` -/
  | fail (e : VfsError)
  /-- `continue` past `"."` or `".."` -/
  | again
  /-- the index `buf_pos` is past the buffer -/
  | panic

/-- Take the entry at `buf_pos` and move past it. -/
def ReadDir.takeEntry (r : ReadDir) : Pass × ReadDir :=
  match r.direntBuf[r.bufPos]? with
  | none => (.panic, r)
  | some e =>
    let r := { r with bufPos := r.bufPos + 1 }
    if isDotEntry e then (.again, r) else (.yield e, r)

/-- One pass through the body of the `loop`: refill the buffer through `read_dir` when
    the window is used up, then take the entry at `buf_pos`. -/
def ReadDir.pass (fs : RamFs ε) (r : ReadDir) : Pass × ReadDir :=
  if r.bufPos ≥ r.bufEnd then
    match r.inner.readDir fs r.direntBuf with
    | (.ok n, inner, buf) =>
      if n = 0 then (.stop, { r with inner := inner, direntBuf := buf, endOfStream := true })
      else ReadDir.takeEntry { r with inner := inner, direntBuf := buf, bufPos := 0, bufEnd := n }
    | (.error e, inner, buf) =>
      (.fail e, { r with inner := inner, direntBuf := buf, endOfStream := true })
  else r.takeEntry

/-- The `loop` of `ReadDir::next`: `Loop fs r res r'` when it returns `res` from `r` and
    leaves `r'`. A loop that panics or never returns has no result. -/
inductive Loop (fs : RamFs ε) : ReadDir → Option (VfsResult VfsDirEntry) → ReadDir → Prop
  | yield {r r' : ReadDir} {e : VfsDirEntry} : r.pass fs = (.yield e, r') →
      Loop fs r (some (.ok e)) r'
  | stop {r r' : ReadDir} : r.pass fs = (.stop, r') → Loop fs r none r'
  | fail {r r' : ReadDir} {e : VfsError} : r.pass fs = (.fail e, r') →
      Loop fs r (some (.error e)) r'
  | again {r r' r'' : ReadDir} {res : Option (VfsResult VfsDirEntry)} :
      r.pass fs = (.again, r') → Loop fs r' res r'' → Loop fs r res r''

/-- `ReadDir::next`: `None` at once after the end of the stream, else the `loop`. -/
inductive Next (fs : RamFs ε) : ReadDir → Option (VfsResult VfsDirEntry) → ReadDir → Prop
  | ended {r : ReadDir} : r.endOfStream = true → Next fs r none r
  | loop {r r' : ReadDir} {res : Option (VfsResult VfsDirEntry)} :
      r.endOfStream = false → Loop fs r res r' → Next fs r res r'

/-- Successive calls of `next` from `r` return the entries `es`, in order, and leave `r'`. -/
inductive Iterates (fs : RamFs ε) : ReadDir → List VfsDirEntry → ReadDir → Prop
  | nil {r : ReadDir} : Iterates fs r [] r
  | cons {r r₁ r' : ReadDir} {e : VfsDirEntry} {es : List VfsDirEntry} :
      Next fs r (some (.ok e)) r₁ → Iterates fs r₁ es r' → Iterates fs r (e :: es) r'

theorem Loop.det {fs : RamFs ε} {r r₁ r₂ : ReadDir} {a b : Option (VfsResult VfsDirEntry)}
    (h₁ : Loop fs r a r₁) (h₂ : Loop fs r b r₂) : a = b ∧ r₁ = r₂ := by
  induction h₁ generalizing b r₂ with
  | yield hp => cases h₂ <;> simp_all
  | stop hp => cases h₂ <;> simp_all
  | fail hp => cases h₂ <;> simp_all
  | again hp _ ih =>
    cases h₂ with
    | again hp' h' =>
      rw [hp] at hp'
      cases hp'
      exact ih h'
    | _ => simp_all

/-- `next` is a function: each call has at most one result. -/
theorem Next.det {fs : RamFs ε} {r r₁ r₂ : ReadDir} {a b : Option (VfsResult VfsDirEntry)}
    (h₁ : Next fs r a r₁) (h₂ : Next fs r b r₂) : a = b ∧ r₁ = r₂ := by
  cases h₁ with
  | ended he => cases h₂ <;> simp_all
  | loop he hl =>
    cases h₂ with
    | ended he' => simp_all
    | loop _ hl' => exact hl.det hl'

/-! ## §5 What the iterator yields -/

/-- The window moves on by one entry with the listing. -/
theorem window_tail {α : Type} {buf L : List α} {p e k : Nat}
    (h : (buf.take e).drop p = (L.drop k).take (e - p)) :
    (buf.take e).drop (p + 1) = (L.drop (k + 1)).take (e - (p + 1)) := by
  have ht := congrArg List.tail h
  rw [List.tail_drop, List.tail_take_eq_take_tail, List.tail_drop] at ht
  rw [ht, Nat.sub_sub]

/-- The entry at the window's start is the listing's entry `k`. -/
theorem getElem?_of_window {α : Type} {buf L : List α} {p e k : Nat}
    (h : (buf.take e).drop p = (L.drop k).take (e - p)) (hp : p < e) :
    buf[p]? = L[k]? := by
  have h0 := congrArg (·[0]?) h
  simp only [List.getElem?_drop, List.getElem?_take, Nat.add_zero] at h0
  rw [if_pos hp, if_pos (by omega)] at h0
  exact h0

/-- The iterator over a directory opened for reading on the RAM directory `d`, with the
    first `k` entries of the listing taken: the window of the buffer holds the entries read
    and not yet taken, from `k` up to the cursor. -/
structure Window (fs : RamFs ε) (d : DirNode ε) (r : ReadDir) (k : Nat) : Prop where
  cap : r.inner.node.cap.contains Cap.READ = true
  node : fs.nodes r.inner.node.inner = some (.dir d)
  notEnded : r.endOfStream = false
  bufLen : r.direntBuf.length = 31
  pos_le : r.bufPos ≤ r.bufEnd
  end_le : r.bufEnd ≤ 31
  consumed : k + (r.bufEnd - r.bufPos) = r.inner.entryIdx
  idx_le : r.inner.entryIdx ≤ (listing fs d).length
  window : (r.direntBuf.take r.bufEnd).drop r.bufPos =
    ((listing fs d).drop k).take (r.bufEnd - r.bufPos)

section Window

variable {fs : RamFs ε} {d : DirNode ε} {r : ReadDir} {k : Nat}

/-- A fresh iterator over a directory opened for reading, its cursor at the start. -/
theorem window_new {dir : Directory} (hcap : dir.node.cap.contains Cap.READ = true)
    (hd : fs.nodes dir.node.inner = some (.dir d)) (h0 : dir.entryIdx = 0)
    (empty : VfsDirEntry) : Window fs d (ReadDir.new dir empty) 0 where
  cap := hcap
  node := hd
  notEnded := rfl
  bufLen := List.length_replicate
  pos_le := Nat.le_refl 0
  end_le := Nat.zero_le 31
  consumed := h0.symm
  idx_le := by simp [ReadDir.new, h0]
  window := by simp [ReadDir.new]

/-- Taking an entry from a window that holds one. -/
theorem Window.takeEntry (hw : Window fs d r k) (hlt : r.bufPos < r.bufEnd)
    {e : VfsDirEntry} {rest : List VfsDirEntry} (hcons : (listing fs d).drop k = e :: rest) :
    r.takeEntry = (if isDotEntry e then .again else .yield e, { r with bufPos := r.bufPos + 1 }) ∧
      Window fs d { r with bufPos := r.bufPos + 1 } (k + 1) := by
  have he : r.direntBuf[r.bufPos]? = some e := by
    rw [getElem?_of_window hw.window hlt, ← Nat.add_zero k, ← List.getElem?_drop, hcons]
    rfl
  constructor
  · simp only [ReadDir.takeEntry, he]
    split_ifs <;> rfl
  · exact { hw with
      pos_le := hlt
      consumed := by have := hw.consumed; simp only at this ⊢; omega
      window := window_tail hw.window }

/-- Refilling a used-up window when the listing has entries left. -/
theorem Window.refill (hw : Window fs d r k) (hpos : r.bufEnd ≤ r.bufPos)
    (hlt : k < (listing fs d).length) :
    ∃ n inner buf, r.inner.readDir fs r.direntBuf = (.ok n, inner, buf) ∧ 0 < n ∧
      Window fs d { r with inner := inner, direntBuf := buf, bufPos := 0, bufEnd := n } k := by
  have hk : k = r.inner.entryIdx := by have := hw.consumed; omega
  refine ⟨_, _, _, Directory.readDir_eq hw.cap hw.node r.direntBuf, ?_, ?_⟩
  · rw [hw.bufLen]
    omega
  · -- the window is the whole of the fresh read
    have hn : min r.direntBuf.length ((listing fs d).length - r.inner.entryIdx) ≤ 31 := by
      rw [hw.bufLen]
      exact Nat.min_le_left _ _
    exact
      { cap := hw.cap
        node := hw.node
        notEnded := hw.notEnded
        bufLen := by simp [hw.bufLen]; omega
        pos_le := Nat.zero_le _
        end_le := hn
        consumed := by simp only [Nat.sub_zero]; omega
        idx_le := by simp only; omega
        window := by
          simp only [List.drop_zero, Nat.sub_zero]
          rw [take_readDir_eq, hk, List.take_eq_take_min (l := List.drop _ _), List.length_drop] }

/-- A pass with the listing used up: the read returns no entry and the stream ends. -/
theorem Window.pass_of_nil (hw : Window fs d r k) (hnil : (listing fs d).drop k = []) :
    r.pass fs = (.stop, { r with endOfStream := true }) := by
  have hlen : (listing fs d).length ≤ k := List.drop_eq_nil_iff.mp hnil
  have hc := hw.consumed
  have hi := hw.idx_le
  have hp := hw.pos_le
  have hpos : r.bufEnd ≤ r.bufPos := by omega
  have hend : (listing fs d).length ≤ r.inner.entryIdx := by omega
  rw [ReadDir.pass, if_pos hpos, Directory.readDir_of_le hw.cap hw.node hend]
  rfl

/-- A pass with the listing's entry `k` next takes it, refilling the buffer first when the
    window is used up; `"."` and `".."` are passed over. -/
theorem Window.pass_of_cons (hw : Window fs d r k) {e : VfsDirEntry} {rest : List VfsDirEntry}
    (hcons : (listing fs d).drop k = e :: rest) :
    ∃ r', r.pass fs = (if isDotEntry e then .again else .yield e, r') ∧
      Window fs d r' (k + 1) := by
  by_cases hpos : r.bufEnd ≤ r.bufPos
  · have hlt : k < (listing fs d).length := by
      have := congrArg List.length hcons
      simp only [List.length_drop, List.length_cons] at this
      omega
    obtain ⟨n, inner, buf, hread, hn, hw'⟩ := hw.refill hpos hlt
    obtain ⟨htake, hw''⟩ := hw'.takeEntry hn hcons
    refine ⟨_, ?_, hw''⟩
    rw [ReadDir.pass, if_pos hpos, hread]
    simp only [Nat.ne_of_gt hn, if_false]
    exact htake
  · obtain ⟨htake, hw'⟩ := hw.takeEntry (Nat.lt_of_not_le hpos) hcons
    exact ⟨_, by rw [ReadDir.pass, if_neg hpos, htake], hw'⟩

end Window

/-- A pass over `"."` or `".."` continues the loop of the same call. -/
theorem Next.of_again {fs : RamFs ε} {r r₁ r₂ : ReadDir} {res : Option (VfsResult VfsDirEntry)}
    (hne : r.endOfStream = false) (hp : r.pass fs = (.again, r₁))
    (hne₁ : r₁.endOfStream = false) (h : Next fs r₁ res r₂) : Next fs r res r₂ := by
  cases h with
  | ended he => simp [hne₁] at he
  | loop _ hl => exact .loop hne (.again hp hl)

theorem Iterates.of_again {fs : RamFs ε} {r r₁ r' r'' : ReadDir} {es : List VfsDirEntry}
    (hne : r.endOfStream = false) (hp : r.pass fs = (.again, r₁))
    (hne₁ : r₁.endOfStream = false) (hit : Iterates fs r₁ es r') (hnext : Next fs r' none r'') :
    ∃ r₀, Iterates fs r es r₀ ∧ Next fs r₀ none r'' := by
  cases hit with
  | nil => exact ⟨r, .nil, hnext.of_again hne hp hne₁⟩
  | cons h₁ hrest => exact ⟨r', .cons (h₁.of_again hne hp hne₁) hrest, hnext⟩

/-- From a window with the entries `P` of the listing left, the calls of `next` yield the
    entries of `P` other than `"."` and `".."`, then `None`, ending the stream. The
    induction is on `P`: each pass takes one entry. -/
theorem Window.yields_of_drop {fs : RamFs ε} {d : DirNode ε} (P : List VfsDirEntry) :
    ∀ {r : ReadDir} {k : Nat}, Window fs d r k → (listing fs d).drop k = P →
      ∃ r' r'', Iterates fs r (P.filter fun e => !isDotEntry e) r' ∧ Next fs r' none r'' ∧
        r''.endOfStream = true := by
  induction P with
  | nil =>
    intro r k hw hP
    exact ⟨r, _, .nil, .loop hw.notEnded (.stop (hw.pass_of_nil hP)), rfl⟩
  | cons e rest ih =>
    intro r k hw hP
    obtain ⟨r₁, hp, hw₁⟩ := hw.pass_of_cons hP
    have hrest : (listing fs d).drop (k + 1) = rest := by
      rw [← List.tail_drop, hP]
      rfl
    obtain ⟨r', r'', hit, hnext, hend⟩ := ih hw₁ hrest
    by_cases hdot : isDotEntry e = true
    · -- `"."` and `".."` are passed over within the same call
      rw [if_pos hdot] at hp
      rw [List.filter_cons_of_neg (by simp [hdot])]
      obtain ⟨r₀, hit₀, hnext₀⟩ := hit.of_again hw.notEnded hp hw₁.notEnded hnext
      exact ⟨r₀, r'', hit₀, hnext₀, hend⟩
    · rw [if_neg hdot] at hp
      rw [List.filter_cons_of_pos (by simpa using hdot)]
      exact ⟨r', r'', .cons (.loop hw.notEnded (.yield hp)) hit, hnext, hend⟩

/-! ## §6 Listing a directory -/

/-- The fixed entries `"."` and `".."` are skipped by the iterator. -/
theorem filter_listing (fs : RamFs ε) (d : DirNode ε) :
    (listing fs d).filter (fun e => !isDotEntry e) =
      (d.children.entries.map (childEntry fs)).filter fun e => !isDotEntry e := by
  rw [listing, List.filter_cons_of_neg (by decide), List.filter_cons_of_neg (by decide)]

/-- **Listing a directory.** In a reachable state, on a directory `d` opened for reading:
    its listing is `"."`, `".."`, then the names of its children, which are in increasing
    order; successive `read_dir` calls with any buffers return the listing, cut where the
    buffers' room runs out, and once it is exhausted every call returns `0`; the `ReadDir`
    iterator yields the children other than those named `"."` or `".."`, in that order,
    then `None`. -/
theorem readdir_lists_children {fs : RamFs Empty} (hreach : ramfsSystem.Reachable fs)
    {i : Nat} {d : DirNode Empty} (hd : fs.nodes i = some (.dir d)) (cap : Cap)
    (hcap : cap.contains Cap.READ = true) :
    (listing fs d).map VfsDirEntry.dName = dot :: dotdot :: d.children.entries.map Prod.fst ∧
    d.children.Sorted ∧
    (∀ bufs : List (List VfsDirEntry),
      (readChunks fs ⟨⟨i, cap⟩, 0⟩ bufs).1 =
          .ok ((listing fs d).take (bufs.map List.length).sum) ∧
        ((listing fs d).length ≤ (bufs.map List.length).sum →
          ∀ buf, ((readChunks fs ⟨⟨i, cap⟩, 0⟩ bufs).2.readDir fs buf).1 = .ok 0)) ∧
    (∀ empty : VfsDirEntry, ∃ r' r'',
      Iterates fs (ReadDir.new ⟨⟨i, cap⟩, 0⟩ empty)
          ((d.children.entries.map (childEntry fs)).filter fun e => !isDotEntry e) r' ∧
        Next fs r' none r'' ∧ r''.endOfStream = true) := by
  have hcap' : (⟨⟨i, cap⟩, 0⟩ : Directory).node.cap.contains Cap.READ = true := hcap
  refine ⟨by simp [listing, childEntry], sorted_of_reachable hreach i d hd, ?_, ?_⟩
  · intro bufs
    rw [readChunks_eq hcap' hd bufs, List.drop_zero]
    refine ⟨rfl, fun hall buf => ?_⟩
    -- the cursor has reached the end of the listing
    have hend : (listing fs d).length ≤ 0 + min (bufs.map List.length).sum
        ((listing fs d).length - 0) := by omega
    rw [Directory.readDir_of_le hcap hd hend]
  · intro empty
    obtain ⟨r', r'', hit, hnext, hend⟩ :=
      Window.yields_of_drop _ (window_new hcap' hd rfl empty) List.drop_zero
    rw [filter_listing] at hit
    exact ⟨r', r'', hit, hnext, hend⟩

/-- On the root of a new file system, two calls with buffers of one entry return `"."`
    and `".."`. -/
theorem readdir_new_root_two_calls :
    (readChunks (RamFs.new : RamFs Empty) ⟨⟨0, Cap.READ⟩, 0⟩
        [[⟨.file, []⟩], [⟨.file, []⟩]]).1 = .ok [⟨.dir, dot⟩, ⟨.dir, dotdot⟩] := by
  rw [((readdir_lists_children reachable_new rfl Cap.READ rfl).2.2.1
    [[⟨.file, []⟩], [⟨.file, []⟩]]).1]
  rfl

/-- After `create_node("..", File)` on the root of a new file system, the root has one
    child, named `".."`, and the first call of `ReadDir::next` on it returns `None`. -/
theorem readdir_skips_child_named_dotdot :
    ∃ (fs : RamFs Empty) (d : DirNode Empty), ramfsSystem.Reachable fs ∧
      fs.nodes 0 = some (.dir d) ∧ d.children.entries.map Prod.fst = [dotdot] ∧
      ∀ empty : VfsDirEntry,
        (∃ r', Next fs (ReadDir.new ⟨⟨0, Cap.READ⟩, 0⟩ empty) none r') ∧
        ∀ res r', Next fs (ReadDir.new ⟨⟨0, Cap.READ⟩, 0⟩ empty) res r' → res = none := by
  have hr : ramfsSystem.Reachable
      (RamFs.new.addChild 0 ⟨none, OrdMap.empty⟩ dotdot (.file [])) :=
    LTS.Reachable.step reachable_new (l := .createNode 0 dotdot .file) rfl
  refine ⟨_, _, hr, rfl, rfl, fun empty => ?_⟩
  obtain ⟨r', r'', hit, hnext, -⟩ :=
    Window.yields_of_drop _ (@window_new Empty
      (RamFs.new.addChild 0 ⟨none, OrdMap.empty⟩ dotdot (.file []))
      ⟨none, OrdMap.empty.insert dotdot 1⟩ ⟨⟨0, Cap.READ⟩, 0⟩ rfl rfl rfl empty) List.drop_zero
  -- every entry of the listing is `"."` or `".."`, so nothing is yielded
  have hnil : ((listing ((RamFs.new : RamFs Empty).addChild 0 ⟨none, OrdMap.empty⟩ dotdot
      (.file []))) ⟨none, (OrdMap.empty.insert dotdot 1)⟩).filter (fun e => !isDotEntry e) = [] := by
    decide
  rw [hnil] at hit
  cases hit
  exact ⟨⟨r'', hnext⟩, fun res r₁ h => (h.det hnext).1⟩

end ArceOS.Fs.Fops
