import ArceOS.Fs.Vfs
import ArceOS.Lib.OrdMap

/-!
# RAM File System

Model of `axfs_ramfs` (`axfs_ramfs/src/dir.rs` and `lib.rs`). Nodes live in an
arena indexed by `Nat`, which stands for the `Arc` of each node: two references
are pointer-equal exactly when they carry the same index. A directory keeps its
`parent` link (the `Weak` set at creation, or by `RamFileSystem::mount`) and its
`children` map (a `BTreeMap<String, VfsNodeRef>`).

A node reference may also point into another file system: after mounting, the
root's parent is the mount point's parent in the main file system. Operations
that reach such a node hand the rest of the path to that file system, given here
as the parameters `extLookup`, `extCreate` and `extRemove`.

`lookup`, `create` and `remove` recurse through `split_path` exactly as the
source does, by well-founded recursion on the length of the path.
-/

namespace ArceOS.Fs.Ramfs

open ArceOS.Lib ArceOS.Lib.Str

/-! ## §1 Nodes -/

/-- A `VfsNodeRef` held by the RAM file system: one of its own nodes, or a node of
    another file system. -/
inductive NodeRef (ε : Type) where
  | ram (id : Nat)
  | ext (e : ε)
  deriving DecidableEq

/-- `DirNode`: the parent link and the children map. -/
structure DirNode (ε : Type) where
  parent : Option (NodeRef ε)
  children : OrdMap Path Nat

/-- A node: a `FileNode` with its content, or a `DirNode`. -/
inductive RamNode (ε : Type) where
  | file (content : List UInt8)
  | dir (d : DirNode ε)

/-- The nodes of a RAM file system: the arena, the next fresh index, the index of
    the root directory, and the `parent` cell of `RamFileSystem` (a `Once`). -/
structure RamFs (ε : Type) where
  nodes : Nat → Option (RamNode ε)
  next : Nat
  root : Nat
  parent : Option (NodeRef ε)

variable {ε : Type}

namespace RamFs

/-- `RamFileSystem::new`: a root directory without parent, at index `0`. -/
def new : RamFs ε where
  nodes i := if i = 0 then some (.dir ⟨none, OrdMap.empty⟩) else none
  next := 1
  root := 0
  parent := none

/-- Store `n` at index `i`. -/
def setNode (fs : RamFs ε) (i : Nat) (n : RamNode ε) : RamFs ε :=
  { fs with nodes := Function.update fs.nodes i (some n) }

/-- Allocate `node` at the next fresh index and enter it as `name` in the directory
    `d` stored at `i`. -/
def addChild (fs : RamFs ε) (i : Nat) (d : DirNode ε) (name : Path) (node : RamNode ε) :
    RamFs ε :=
  let fs' : RamFs ε :=
    { fs with nodes := Function.update fs.nodes fs.next (some node), next := fs.next + 1 }
  fs'.setNode i (.dir { d with children := d.children.insert name fs.next })

/-- Erase the entry `name` from the directory `d` stored at `i`. -/
def eraseChild (fs : RamFs ε) (i : Nat) (d : DirNode ε) (name : Path) : RamFs ε :=
  fs.setNode i (.dir { d with children := d.children.erase name })

/-- `RamFileSystem::mount`: the root's parent becomes the mount point's parent, the
    one kept by the `Once` cell when the file system was mounted before. -/
def mount (fs : RamFs ε) (mountPointParent : Option (NodeRef ε)) : RamFs ε :=
  match mountPointParent, fs.nodes fs.root with
  | some p, some (.dir d) =>
    let p := fs.parent.getD p
    { fs.setNode fs.root (.dir { d with parent := some p }) with parent := some p }
  | none, some (.dir d) => fs.setNode fs.root (.dir { d with parent := none })
  | _, _ => fs

@[simp] theorem setNode_nodes (fs : RamFs ε) (i : Nat) (n : RamNode ε) :
    (fs.setNode i n).nodes = Function.update fs.nodes i (some n) := rfl

@[simp] theorem setNode_next (fs : RamFs ε) (i : Nat) (n : RamNode ε) :
    (fs.setNode i n).next = fs.next := rfl

@[simp] theorem setNode_root (fs : RamFs ε) (i : Nat) (n : RamNode ε) :
    (fs.setNode i n).root = fs.root := rfl

@[simp] theorem addChild_next (fs : RamFs ε) (i : Nat) (d : DirNode ε) (name : Path)
    (node : RamNode ε) : (fs.addChild i d name node).next = fs.next + 1 := rfl

@[simp] theorem addChild_root (fs : RamFs ε) (i : Nat) (d : DirNode ε) (name : Path)
    (node : RamNode ε) : (fs.addChild i d name node).root = fs.root := rfl

@[simp] theorem eraseChild_next (fs : RamFs ε) (i : Nat) (d : DirNode ε) (name : Path) :
    (fs.eraseChild i d name).next = fs.next := rfl

@[simp] theorem eraseChild_root (fs : RamFs ε) (i : Nat) (d : DirNode ε) (name : Path) :
    (fs.eraseChild i d name).root = fs.root := rfl

theorem addChild_nodes (fs : RamFs ε) (i : Nat) (d : DirNode ε) (name : Path)
    (node : RamNode ε) :
    (fs.addChild i d name node).nodes =
      Function.update (Function.update fs.nodes fs.next (some node)) i
        (some (.dir { d with children := d.children.insert name fs.next })) := rfl

end RamFs

/-! ## §2 `split_path` -/

/-- `split_path`: the first name of `path` once its leading `/`s are trimmed, and
    what follows the `/` that ends it. -/
def splitPath (path : Path) : Path × Option Path :=
  let trimmedPath := trimStartMatches '/' path
  match trimmedPath.idxOf? '/' with
  | none => (trimmedPath, none)
  | some n => (trimmedPath.take n, some (trimmedPath.drop (n + 1)))

/-- What is left after the first name is strictly shorter than the path. -/
theorem splitPath_rest_lt {path name rest : Path} (h : splitPath path = (name, some rest)) :
    rest.length < path.length := by
  unfold splitPath at h
  dsimp only at h
  split at h
  · cases h
  · rename_i n hn
    simp only [Prod.mk.injEq, Option.some.injEq] at h
    obtain ⟨hlt, -⟩ := List.idxOf?_eq_some_iff.mp hn
    have := length_trimStartMatches_le '/' path
    rw [← h.2, List.length_drop]
    omega

/-! ## §3 Directory operations -/

namespace DirNode

/-- `DirNode::exist`. -/
def exist (d : DirNode ε) (name : Path) : Bool := d.children.contains name

/-- The node that one name leads to from the directory `self`, as the `match name`
    of `DirNode::lookup` (and of `create` and `remove` before their last name)
    computes it: `""` and `"."` stay, `".."` goes to the parent, and any other name
    to the child of that name. -/
def lookupName (d : DirNode ε) (self : Nat) (name : Path) : VfsResult (NodeRef ε) :=
  if name = [] ∨ name = dot then .ok (.ram self)
  else if name = dotdot then
    match d.parent with
    | some p => .ok p
    | none => .error .notFound
  else
    match d.children.get? name with
    | some c => .ok (.ram c)
    | none => .error .notFound

end DirNode

/-- `DirNode::create_node` on the directory `d` stored at `i`. -/
def createNode (fs : RamFs ε) (i : Nat) (d : DirNode ε) (name : Path) (ty : VfsNodeType) :
    VfsResult Unit × RamFs ε :=
  if d.exist name then (.error .alreadyExists, fs)
  else
    match ty with
    | .file => (.ok (), fs.addChild i d name (.file []))
    | .dir => (.ok (), fs.addChild i d name (.dir ⟨some (.ram i), OrdMap.empty⟩))
    | _ => (.error .unsupported, fs)

/-- Whether the node at `c` is a `DirNode` with children (the `downcast_ref` test of
    `remove_node`). -/
def isNonEmptyDir (fs : RamFs ε) (c : Nat) : Bool :=
  match fs.nodes c with
  | some (.dir cd) => !cd.children.isEmpty
  | _ => false

/-- `DirNode::remove_node` on the directory `d` stored at `i`. -/
def removeNode (fs : RamFs ε) (i : Nat) (d : DirNode ε) (name : Path) :
    VfsResult Unit × RamFs ε :=
  match d.children.get? name with
  | none => (.error .notFound, fs)
  | some c =>
    if isNonEmptyDir fs c then (.error .directoryNotEmpty, fs)
    else (.ok (), fs.eraseChild i d name)

/-! ## §4 `lookup`, `create` and `remove` -/

variable (extLookup : ε → Path → VfsResult (NodeRef ε))
variable (extCreate : ε → Path → VfsNodeType → VfsResult Unit)
variable (extRemove : ε → Path → VfsResult Unit)

/-- `VfsNodeOps::lookup` from a node: `DirNode::lookup` on a directory, the
    `NotADirectory` of `impl_vfs_non_dir_default!` on a file, and the other file
    system's lookup on one of its nodes. -/
def lookup (fs : RamFs ε) (node : NodeRef ε) (path : Path) : VfsResult (NodeRef ε) :=
  match node with
  | .ext e => extLookup e path
  | .ram i =>
    match fs.nodes i with
    | some (.dir d) =>
      match h : splitPath path with
      | (name, none) => d.lookupName i name
      | (name, some rest) =>
        match d.lookupName i name with
        | .error e => .error e
        | .ok n => lookup fs n rest
    | some (.file _) => .error .notADirectory
    -- an index that holds no node is never referenced (see `Wf` in `RamfsTree`)
    | none => .error .notFound
termination_by path.length
decreasing_by exact splitPath_rest_lt h

/-- `VfsNodeOps::create` from a node: `DirNode::create` on a directory. -/
def create (fs : RamFs ε) (node : NodeRef ε) (path : Path) (ty : VfsNodeType) :
    VfsResult Unit × RamFs ε :=
  match node with
  | .ext e => (extCreate e path ty, fs)
  | .ram i =>
    match fs.nodes i with
    | some (.dir d) =>
      match h : splitPath path with
      | (name, none) =>
        -- the last name `""`, `"."` or `".."` already exists
        if name = [] ∨ name = dot ∨ name = dotdot then (.ok (), fs)
        else createNode fs i d name ty
      | (name, some rest) =>
        match d.lookupName i name with
        | .error e => (.error e, fs)
        | .ok n => create fs n rest ty
    | some (.file _) => (.error .notADirectory, fs)
    | none => (.error .notFound, fs)
termination_by path.length
decreasing_by exact splitPath_rest_lt h

/-- `VfsNodeOps::remove` from a node: `DirNode::remove` on a directory. -/
def remove (fs : RamFs ε) (node : NodeRef ε) (path : Path) : VfsResult Unit × RamFs ε :=
  match node with
  | .ext e => (extRemove e path, fs)
  | .ram i =>
    match fs.nodes i with
    | some (.dir d) =>
      match h : splitPath path with
      | (name, none) =>
        -- `""`, `"."` and `".."` cannot be removed
        if name = [] ∨ name = dot ∨ name = dotdot then (.error .invalidInput, fs)
        else removeNode fs i d name
      | (name, some rest) =>
        match d.lookupName i name with
        | .error e => (.error e, fs)
        | .ok n => remove fs n rest
    | some (.file _) => (.error .notADirectory, fs)
    | none => (.error .notFound, fs)
termination_by path.length
decreasing_by exact splitPath_rest_lt h

end ArceOS.Fs.Ramfs
