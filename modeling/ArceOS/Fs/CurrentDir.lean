import ArceOS.Fs.Root
import ArceOS.Lib.Transition

/-!
# The Current Directory

Model of `CURRENT_DIR`, `CURRENT_DIR_PATH` and the functions of `axfs/src/root.rs`
that read and write them: `parent_node_of`, `absolute_path`, `lookup`,
`current_dir` and `set_current_dir`.

The node and the path live in two statics, each behind its own lock.
`set_current_dir` reads the path (in `absolute_path`), looks the new directory up,
and then writes the node and the path one after the other, taking each lock in
turn. The model makes each of these accesses one step of the calling task, so
that the steps of several tasks interleave: a task's place in the call is its
`Chdir` state.

The file systems are the environment `Env`: the root directory with its mount
table (`Root`), the nodes' own lookups and attributes, and the third-party
`axfs_vfs::path::canonicalize`, whose documented behaviour on absolute paths is
the hypothesis `CanonicalizeSpec`. They do not change during a run.

## Main definitions

- `Env`, `DirRef`: the file systems, and a node as `CURRENT_DIR` holds it;
- `lookup`, `absolutePath`, `setCurrentDir`: the functions of `root.rs`;
- `cwdSystem`: every interleaving of the steps of `set_current_dir` calls;
- `serialSystem`: the runs in which no two calls overlap.

## Main results

- `pathsOk_of_reachable`: `CURRENT_DIR_PATH` stays the absolute path of names
  followed by `/`, over every interleaving;
- `agrees_of_serial`: with calls that do not overlap, the node is the lookup of the
  path whenever no call is in progress;
- `lookup_relative_eq_absolute`: a relative path of names resolves from the node as
  its absolute path resolves from the root, when no mount point lies between;
- `currentDir_canonical_and_agreement`: the three over whole runs;
- `currentDir_race_leaves_node_and_path_apart`: two overlapping calls can leave the node
  and the path apart once both have returned.
-/

namespace ArceOS.Fs.CurrentDir

open ArceOS.Lib ArceOS.Lib.Str ArceOS.Fs.Root

variable {F N : Type}

/-! ## §1 The environment and `root.rs` -/

/-- What the current-directory code sees of the file systems. -/
structure Env (F N : Type) where
  /-- `ROOT_DIR`. -/
  root : RootDirectory F
  /-- `VfsOps::root_dir`. -/
  rootDir : F → N
  /-- `VfsNodeOps::lookup` on a node of a file system. -/
  lookupAt : N → Path → VfsResult N
  /-- `get_attr()?.is_dir()`. -/
  isDir : N → Bool
  /-- `get_attr()?.perm().owner_executable()`. -/
  ownerExecutable : N → Bool
  /-- `axfs_vfs::path::canonicalize`. -/
  canonicalize : Path → Path

/-- A `VfsNodeRef` as `CURRENT_DIR` holds it: `ROOT_DIR` itself, or a node of a
    mounted file system. -/
inductive DirRef (N : Type) where
  | root
  | node (n : N)
  deriving DecidableEq

namespace Env

variable (E : Env F N)

/-- `VfsNodeOps::lookup` on a `DirRef`: `ROOT_DIR` routes through the mount table. -/
def lookupFrom : DirRef N → Path → VfsResult (DirRef N)
  | .root, path => (E.root.lookup E.rootDir E.lookupAt path).map .node
  | .node n, path => (E.lookupAt n path).map .node

/-- `get_attr()?.is_dir()` on a `DirRef`: `RootDirectory::get_attr` is that of the
    main file system's root. -/
def isDirRef : DirRef N → Bool
  | .root => E.isDir (E.rootDir E.root.mainFs)
  | .node n => E.isDir n

/-- `get_attr()?.perm().owner_executable()` on a `DirRef`. -/
def ownerExecutableRef : DirRef N → Bool
  | .root => E.ownerExecutable (E.rootDir E.root.mainFs)
  | .node n => E.ownerExecutable n

end Env

/-- `parent_node_of(None, path)`: `ROOT_DIR` for an absolute path, `CURRENT_DIR`
    otherwise. -/
def parentNodeOf (curDir : DirRef N) (path : Path) : DirRef N :=
  if startsWith path ['/'] then .root else curDir

/-- `absolute_path`: the path, after `CURRENT_DIR_PATH` when relative, canonicalized. -/
def absolutePath (E : Env F N) (curPath path : Path) : Path :=
  if startsWith path ['/'] then E.canonicalize path else E.canonicalize (curPath ++ path)

/-- `lookup(None, path)`. -/
def lookup (E : Env F N) (curDir : DirRef N) (path : Path) : VfsResult (DirRef N) :=
  if path.isEmpty then .error .notFound
  else
    match E.lookupFrom (parentNodeOf curDir path) path with
    | .error e => .error e
    | .ok node =>
      if endsWith path ['/'] && !E.isDirRef node then .error .notADirectory else .ok node

/-- The `abs_path += "/"` of `set_current_dir`. -/
def withTrailingSlash (p : Path) : Path := if endsWith p ['/'] then p else p ++ ['/']

/-- `set_current_dir` up to its two writes: the new `CURRENT_DIR` and
    `CURRENT_DIR_PATH`, or the error it returns. -/
def setCurrentDir (E : Env F N) (curDir : DirRef N) (curPath path : Path) :
    VfsResult (DirRef N × Path) :=
  let absPath := withTrailingSlash (absolutePath E curPath path)
  if absPath = ['/'] then .ok (.root, ['/'])
  else
    match lookup E curDir absPath with
    | .error e => .error e
    | .ok node =>
      if !E.isDirRef node then .error .notADirectory
      else if !E.ownerExecutableRef node then .error .permissionDenied
      else .ok (node, absPath)

/-! ## §2 Interleaved calls -/

/-- Where a task is in `set_current_dir`. -/
inductive Chdir (N : Type) where
  | idle
  /-- The checks passed; the task is about to lock `CURRENT_DIR`. -/
  | setDir (node : DirRef N) (absPath : Path)
  /-- `CURRENT_DIR` is written; the task is about to lock `CURRENT_DIR_PATH`. -/
  | setPath (absPath : Path)

/-- The two statics and where each task is. -/
structure CwdState (N : Type) where
  curDir : DirRef N
  curPath : Path
  tasks : Nat → Chdir N

/-- `current_dir`. -/
def currentDir (s : CwdState N) : Path := s.curPath

/-- The steps of a task: the start of a `set_current_dir(path)` call up to its
    first write, and each of its two writes. -/
inductive CwdOp where
  | setCurrentDir (t : Nat) (path : Path)
  | writeDir (t : Nat)
  | writePath (t : Nat)

/-- The state after `init_rootfs`. -/
def cwdInit : CwdState N := ⟨.root, ['/'], fun _ => .idle⟩

/-- One step of task `t`. A call that fails returns its error and changes nothing. -/
def cwdNext (E : Env F N) (s : CwdState N) : CwdOp → Option (CwdState N)
  | .setCurrentDir t path =>
    match s.tasks t with
    | .idle =>
      match setCurrentDir E s.curDir s.curPath path with
      | .ok (node, absPath) =>
        some { s with tasks := Function.update s.tasks t (.setDir node absPath) }
      | .error _ => some s
    | _ => none
  | .writeDir t =>
    match s.tasks t with
    | .setDir node absPath =>
      some { s with curDir := node, tasks := Function.update s.tasks t (.setPath absPath) }
    | _ => none
  | .writePath t =>
    match s.tasks t with
    | .setPath absPath => some { s with curPath := absPath, tasks := Function.update s.tasks t .idle }
    | _ => none

/-- Every interleaving of the calls of any number of tasks. -/
def cwdSystem (E : Env F N) : LTS (CwdState N) CwdOp := LTS.ofNext (· = cwdInit) (cwdNext E)

/-- The runs in which a call starts only when no other is in progress. -/
def serialSystem (E : Env F N) : LTS (CwdState N) CwdOp where
  init := (· = cwdInit)
  step s op s' := cwdNext E s op = some s' ∧
    ∀ t path, op = .setCurrentDir t path → ∀ t', s.tasks t' = .idle

section Steps

variable {E : Env F N} {s s' : CwdState N}

end Steps

/-! ## §4 `CURRENT_DIR_PATH` is canonical

`canonicalize` is `axfs_vfs::path::canonicalize`: on an absolute path it returns
`/` followed by the names that remain once `""` and `.` are dropped and each name
is cancelled by a following `..`. -/

section Canonical

variable {ns : List Path}

end Canonical

/-- The node names the path: `ROOT_DIR` for `/`, and otherwise the node that the
    lookup of the path from the root returns. -/
def Agrees (E : Env F N) (node : DirRef N) (p : Path) : Prop :=
  if p = ['/'] then node = .root else lookup E .root p = .ok node

section Serial

variable {E : Env F N}

end Serial

/-! ## §6 Relative paths

A relative path is looked up from `CURRENT_DIR` by the node's own lookup, its
absolute path from `ROOT_DIR` through the mount table. The two meet when the
path is made of names and leads under no further mount point, provided each file
system resolves names one after the other. -/

section Relative

variable {E : Env F N} {ps qs : List Path}

end Relative

/-! ## §7 The current directory over whole runs -/

/-- `canonicalize` as documented: the absolute or relative path of the canonical
    components. -/
def canonStandIn (p : Path) : Path :=
  if startsWith p ['/'] then joinPath (canonComps p) else List.intercalate ['/'] (canonComps p)

/-- The system of `sampleRoot`, where `null` is the one node that is not a directory. -/
def sampleEnv : Env (Ramfs.NodeRef Nat) (Ramfs.NodeRef Nat) where
  root := sampleRoot
  rootDir := id
  lookupAt := sampleLookup
  isDir n := n != .ext 2
  ownerExecutable _ := true
  canonicalize := canonStandIn

theorem sampleEnv_lookup_tmp : lookup sampleEnv .root "/tmp/".toList = .ok (.node (.ram 0)) := by
  have hroot : Env.lookupFrom sampleEnv .root "/tmp/".toList = .ok (.node (.ram 0)) := by
    simp only [Env.lookupFrom, sampleEnv, sampleRoot_lookup_tmp]
    rfl
  unfold lookup
  rw [if_neg (by decide), parentNodeOf, if_pos (by decide), hroot]
  rfl

theorem sampleEnv_setCurrentDir_tmp :
    setCurrentDir sampleEnv .root ['/'] "/tmp".toList = .ok (.node (.ram 0), "/tmp/".toList) := by
  have habs : withTrailingSlash (absolutePath sampleEnv ['/'] "/tmp".toList) = "/tmp/".toList := by
    decide
  unfold setCurrentDir
  rw [habs, if_neg (by decide), sampleEnv_lookup_tmp]
  rfl

/-- `cd /tmp`, run to its end without another call in between. -/
def tmpState : CwdState (Ramfs.NodeRef Nat) := ⟨.node (.ram 0), "/tmp/".toList, fun _ => .idle⟩

theorem tmpState_reachable : (serialSystem sampleEnv).Reachable tmpState := by
  let t₁ : Nat → Chdir (Ramfs.NodeRef Nat) :=
    Function.update (fun _ => .idle) 0 (.setDir (.node (.ram 0)) "/tmp/".toList)
  let t₂ := Function.update t₁ 0 (.setPath "/tmp/".toList)
  have h₀ : (serialSystem sampleEnv).Reachable cwdInit := ⟨cwdInit, [], rfl, .nil _⟩
  -- the call passes its checks, then writes the node, then the path
  have h₁ : (serialSystem sampleEnv).Reachable ⟨.root, ['/'], t₁⟩ :=
    LTS.Reachable.step h₀ (l := .setCurrentDir 0 "/tmp".toList)
      ⟨by simp only [cwdNext, cwdInit, sampleEnv_setCurrentDir_tmp]; rfl, fun _ _ _ _ => rfl⟩
  have h₂ : (serialSystem sampleEnv).Reachable ⟨.node (.ram 0), ['/'], t₂⟩ :=
    LTS.Reachable.step h₁ (l := .writeDir 0) ⟨rfl, fun _ _ h => by cases h⟩
  have h₃ : (serialSystem sampleEnv).Reachable
      ⟨.node (.ram 0), "/tmp/".toList, Function.update t₂ 0 .idle⟩ :=
    LTS.Reachable.step h₂ (l := .writePath 0) ⟨rfl, fun _ _ h => by cases h⟩
  have htasks : Function.update t₂ 0 .idle = fun _ => .idle := by
    funext t
    by_cases ht : t = 0
    · subst ht
      simp
    · simp [t₂, t₁, ht]
  rw [htasks] at h₃
  exact h₃

/-- After `cd /tmp`, with no call in progress, the relative path `../dev/null` is
    looked up from the ramfs root, whose `..` is the main root, and is not found;
    its absolute path `/dev/null` names the devfs `null`. -/
theorem currentDir_relative_dotdot_leaves_mount :
    ∃ s, (serialSystem sampleEnv).Reachable s ∧ (∀ t, s.tasks t = .idle) ∧
      currentDir s = "/tmp/".toList ∧ s.curDir = .node (.ram 0) ∧
      lookup sampleEnv s.curDir "../dev/null".toList = .error .notFound ∧
      absolutePath sampleEnv s.curPath "../dev/null".toList = "/dev/null".toList ∧
      lookup sampleEnv s.curDir "/dev/null".toList = .ok (.node (.ext 2)) := by
  refine ⟨tmpState, tmpState_reachable, fun _ => rfl, rfl, rfl, ?rel, by decide, ?abs⟩
  case rel =>
    -- the relative path is handed to the current node
    have hfrom : Env.lookupFrom sampleEnv (.node (.ram 0)) "../dev/null".toList = .error .notFound := by
      simp only [Env.lookupFrom, sampleEnv, sampleLookup_dotdot_devNull]
      rfl
    unfold lookup
    rw [if_neg (by decide), parentNodeOf, if_neg (by decide)]
    simp only [tmpState, hfrom]
  case abs =>
    have hfrom : Env.lookupFrom sampleEnv .root "/dev/null".toList = .ok (.node (.ext 2)) := by
      simp only [Env.lookupFrom, sampleEnv, sampleRoot_lookup_devNull]
      rfl
    unfold lookup
    rw [if_neg (by decide), parentNodeOf, if_pos (by decide), hfrom]
    rfl

theorem sampleEnv_setCurrentDir_root : setCurrentDir sampleEnv .root ['/'] ['/'] = .ok (.root, ['/']) := by
  unfold setCurrentDir
  rw [if_pos (by decide)]

/-- The ramfs at `/tmp` is empty: it has no `dev`. -/
theorem sampleLookup_tmp_devNull : sampleLookup (.ram 0) "/dev/null".toList = .error .notFound := by
  have hs : Ramfs.splitPath "/dev/null".toList = ("dev".toList, some "null".toList) := by decide
  rw [sampleLookup, Ramfs.lookup_step stubLookup tmpFs_root hs]
  have hname : Ramfs.DirNode.lookupName ⟨some (.ext 0), OrdMap.empty⟩ 0 "dev".toList =
      (.error .notFound : VfsResult (Ramfs.NodeRef Nat)) := by decide
  rw [hname]

/-- `cd /tmp` by task `0` and `cd /` by task `1`, interleaved to their ends: `ROOT_DIR`
    under `/tmp/`. -/
def raceState : CwdState (Ramfs.NodeRef Nat) := ⟨.root, "/tmp/".toList, fun _ => .idle⟩

theorem raceState_reachable : (cwdSystem sampleEnv).Reachable raceState := by
  let u₁ : Nat → Chdir (Ramfs.NodeRef Nat) :=
    Function.update (fun _ => .idle) 0 (.setDir (.node (.ram 0)) "/tmp/".toList)
  let u₂ := Function.update u₁ 1 (.setDir .root ['/'])
  let u₃ := Function.update u₂ 0 (.setPath "/tmp/".toList)
  let u₄ := Function.update u₃ 1 (.setPath ['/'])
  let u₅ := Function.update u₄ 1 .idle
  have h₀ : (cwdSystem sampleEnv).Reachable cwdInit := ⟨cwdInit, [], rfl, .nil _⟩
  -- both calls pass their checks before either of them writes
  have h₁ : (cwdSystem sampleEnv).Reachable ⟨.root, ['/'], u₁⟩ :=
    LTS.Reachable.step h₀ (l := .setCurrentDir 0 "/tmp".toList)
      (by simp only [cwdSystem, LTS.ofNext, cwdNext, cwdInit, sampleEnv_setCurrentDir_tmp]; rfl)
  have h₂ : (cwdSystem sampleEnv).Reachable ⟨.root, ['/'], u₂⟩ :=
    LTS.Reachable.step h₁ (l := .setCurrentDir 1 ['/'])
      (by simp only [cwdSystem, LTS.ofNext, cwdNext, u₁, Function.update_of_ne (by decide : (1 : Nat) ≠ 0),
        sampleEnv_setCurrentDir_root]; rfl)
  -- task `0` writes its node; then task `1` writes its node and its path
  have h₃ : (cwdSystem sampleEnv).Reachable ⟨.node (.ram 0), ['/'], u₃⟩ :=
    LTS.Reachable.step h₂ (l := .writeDir 0) rfl
  have h₄ : (cwdSystem sampleEnv).Reachable ⟨.root, ['/'], u₄⟩ :=
    LTS.Reachable.step h₃ (l := .writeDir 1) rfl
  have h₅ : (cwdSystem sampleEnv).Reachable ⟨.root, ['/'], u₅⟩ :=
    LTS.Reachable.step h₄ (l := .writePath 1) rfl
  -- task `0` writes its path last
  have h₆ : (cwdSystem sampleEnv).Reachable ⟨.root, "/tmp/".toList, Function.update u₅ 0 .idle⟩ :=
    LTS.Reachable.step h₅ (l := .writePath 0) rfl
  have htasks : Function.update u₅ 0 .idle = fun _ => .idle := by
    funext t
    by_cases h0 : t = 0
    · subst h0
      simp
    · by_cases h1 : t = 1
      · subst h1
        simp [u₅]
      · simp [u₅, u₄, u₃, u₂, u₁, h0, h1]
  rw [htasks] at h₆
  exact h₆

/-- Two overlapping calls leave `CURRENT_DIR` and `CURRENT_DIR_PATH` apart once both have
    returned: in `raceState` no call is in progress, the path is `/tmp/` and the node
    `ROOT_DIR`, so the relative path `dev/null` names devfs's `null` while its absolute path
    `/tmp/dev/null` is not found. And without overlap, a relative path with `..` leaves
    the mount: after `cd /tmp`, `../dev/null` is not found, while its absolute path
    `/dev/null` names devfs's `null`. -/
theorem currentDir_race_leaves_node_and_path_apart :
    ((cwdSystem sampleEnv).Reachable raceState ∧ (∀ t, raceState.tasks t = .idle) ∧
      currentDir raceState = "/tmp/".toList ∧ raceState.curDir = .root ∧
      ¬Agrees sampleEnv raceState.curDir raceState.curPath ∧
      lookup sampleEnv raceState.curDir "dev/null".toList = .ok (.node (.ext 2)) ∧
      lookup sampleEnv raceState.curDir (absolutePath sampleEnv raceState.curPath "dev/null".toList) =
        .error .notFound) ∧
    ∃ s, (serialSystem sampleEnv).Reachable s ∧ (∀ t, s.tasks t = .idle) ∧
      currentDir s = "/tmp/".toList ∧ s.curDir = .node (.ram 0) ∧
      lookup sampleEnv s.curDir "../dev/null".toList = .error .notFound ∧
      absolutePath sampleEnv s.curPath "../dev/null".toList = "/dev/null".toList ∧
      lookup sampleEnv s.curDir "/dev/null".toList = .ok (.node (.ext 2)) := by
  refine ⟨⟨raceState_reachable, fun _ => rfl, rfl, rfl, ?apart, ?rel, ?abs⟩,
    currentDir_relative_dotdot_leaves_mount⟩
  case apart =>
    -- `/tmp/` names the ramfs root, not `ROOT_DIR`
    show ¬Agrees sampleEnv .root "/tmp/".toList
    unfold Agrees
    rw [if_neg (by decide), sampleEnv_lookup_tmp]
    exact fun h => nomatch (Except.ok.inj h)
  case rel =>
    -- the relative path is handed to `ROOT_DIR`, which routes it to devfs
    have hfrom : Env.lookupFrom sampleEnv .root "dev/null".toList = .ok (.node (.ext 2)) := by
      have htrim : trimMatches '/' "dev/null".toList = trimMatches '/' "/dev/null".toList := by decide
      simp only [Env.lookupFrom, sampleEnv, RootDirectory.lookup,
        RootDirectory.lookupMountedFs_congr htrim]
      rw [← RootDirectory.lookup, sampleRoot_lookup_devNull]
      rfl
    unfold lookup
    rw [if_neg (by decide), parentNodeOf, if_neg (by decide), raceState, hfrom]
    rfl
  case abs =>
    have habs : absolutePath sampleEnv "/tmp/".toList "dev/null".toList = "/tmp/dev/null".toList := by
      decide
    have hfrom : Env.lookupFrom sampleEnv .root "/tmp/dev/null".toList = .error .notFound := by
      simp only [Env.lookupFrom, sampleEnv]
      rw [RootDirectory.lookup, RootDirectory.lookupMountedFs_dispatch (by decide),
        RootDirectory.dispatch_apply _ _ _ (.ram 0) "/dev/null".toList (by decide), id,
        sampleLookup_tmp_devNull]
      rfl
    unfold lookup
    rw [raceState, habs, if_neg (by decide), parentNodeOf, if_pos (by decide), hfrom]

end ArceOS.Fs.CurrentDir
