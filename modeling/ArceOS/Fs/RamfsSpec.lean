import ArceOS.Fs.RamfsTree
import ArceOS.Lib.Transition

/-!
# What the RAM File System Does

The operations of `axfs_ramfs` form a transition system over `RamFs Empty`: a
call of `create` or `remove` on any allocated node, or of `create_node` or
`remove_node` on any directory. Any node may be the receiver, reachable or not,
as the `Arc` of a removed node can still be held by a caller.

Every reachable state is well formed, so the results of `RamfsTree` apply to it:

- `parentOf_resolve_of_reachable` with `lookup_iff_normPath`: parent links follow
  the name paths, and a lookup from the root agrees with the lookup of the
  lexically normalised path, except that a trailing `""` or `"."` after a file fails;
- `treeCreate` and `treeRemove` state what `DirNode::create` and `DirNode::remove`
  on the root do to the namespace, and `create_refines_treeCreate` and
  `remove_refines_treeRemove` show that the code does exactly that, leaving the
  whole state unchanged on every error.
-/

namespace ArceOS.Fs.Ramfs

open ArceOS.Lib
open ArceOS.Lib.PathTree (Kind Comp NameTree Closed WalkError)
open RamFs

/-! ## §1 The transition system -/

/-- An unmounted file system reaches no node of another file system. -/
def noLookup : Empty → Path → VfsResult (NodeRef Empty) := fun e => e.elim

/-- See `noLookup`. -/
def noCreate : Empty → Path → VfsNodeType → VfsResult Unit := fun e => e.elim

/-- See `noLookup`. -/
def noRemove : Empty → Path → VfsResult Unit := fun e => e.elim

/-- A call that changes the file system, on the node at an index. -/
inductive RamfsOp where
  | create (i : Nat) (path : Path) (ty : VfsNodeType)
  | remove (i : Nat) (path : Path)
  | createNode (i : Nat) (name : Path) (ty : VfsNodeType)
  | removeNode (i : Nat) (name : Path)

/-- One call: `create` and `remove` on an allocated node, `create_node` and
    `remove_node` on a directory. -/
def ramfsNext (fs : RamFs Empty) : RamfsOp → Option (RamFs Empty)
  | .create i path ty =>
    match fs.nodes i with
    | some _ => some (create noCreate fs (.ram i) path ty).2
    | none => none
  | .remove i path =>
    match fs.nodes i with
    | some _ => some (remove noRemove fs (.ram i) path).2
    | none => none
  | .createNode i name ty =>
    match fs.nodes i with
    | some (.dir d) => some (createNode fs i d name ty).2
    | _ => none
  | .removeNode i name =>
    match fs.nodes i with
    | some (.dir d) => some (removeNode fs i d name).2
    | _ => none

/-- The RAM file system from `RamFileSystem::new()`. -/
def ramfsSystem : LTS (RamFs Empty) RamfsOp := LTS.ofNext (· = RamFs.new) ramfsNext

/-! ## §2 Every reachable state is well formed -/

/-- A property of file systems that every `create_node` and `remove_node` on a directory
    keeps. `create` and `remove` change the file system only through them, so such a
    property holds of every state reachable from one that has it. -/
structure NodeStable (P : RamFs Empty → Prop) : Prop where
  of_createNode : ∀ {fs i d}, fs.nodes i = some (.dir d) → P fs →
    ∀ name ty, P (createNode fs i d name ty).2
  of_removeNode : ∀ {fs i d}, fs.nodes i = some (.dir d) → P fs →
    ∀ name, P (removeNode fs i d name).2

namespace NodeStable

variable {P : RamFs Empty → Prop} {fs : RamFs Empty}

theorem createAt (hP : NodeStable P) (h : P fs) (n : NodeRef Empty) (name : Path)
    (ty : VfsNodeType) : P (createAt fs n name ty).2 := by
  rcases n with j | e
  · rcases hj : fs.nodes j with _ | _ | d
    · simpa [Ramfs.createAt, hj] using h
    · simpa [Ramfs.createAt, hj] using h
    · simp only [Ramfs.createAt, hj]
      split
      · exact h
      · exact hP.of_createNode hj h name ty
  · exact e.elim

theorem removeAt (hP : NodeStable P) (h : P fs) (n : NodeRef Empty) (name : Path) :
    P (removeAt fs n name).2 := by
  rcases n with j | e
  · rcases hj : fs.nodes j with _ | _ | d
    · simpa [Ramfs.removeAt, hj] using h
    · simpa [Ramfs.removeAt, hj] using h
    · simp only [Ramfs.removeAt, hj]
      split
      · exact h
      · exact hP.of_removeNode hj h name
  · exact e.elim

theorem create (hP : NodeStable P) (h : P fs) (n : NodeRef Empty) (path : Path)
    (ty : VfsNodeType) : P (create noCreate fs n path ty).2 := by
  rw [create_eq]
  split
  · exact h
  · exact hP.createAt h _ _ ty

theorem remove (hP : NodeStable P) (h : P fs) (n : NodeRef Empty) (path : Path) :
    P (remove noRemove fs n path).2 := by
  rw [remove_eq]
  split
  · exact h
  · exact hP.removeAt h _ _

/-- One call keeps `P`. -/
theorem ramfsNext (hP : NodeStable P) (h : P fs) {op : RamfsOp} {fs' : RamFs Empty}
    (hs : ramfsNext fs op = some fs') : P fs' := by
  cases op with
  | create i path ty =>
    simp only [Ramfs.ramfsNext] at hs
    split at hs <;> cases hs
    exact hP.create h _ path ty
  | remove i path =>
    simp only [Ramfs.ramfsNext] at hs
    split at hs <;> cases hs
    exact hP.remove h _ path
  | createNode i name ty =>
    simp only [Ramfs.ramfsNext] at hs
    split at hs <;> cases hs
    exact hP.of_createNode ‹_› h name ty
  | removeNode i name =>
    simp only [Ramfs.ramfsNext] at hs
    split at hs <;> cases hs
    exact hP.of_removeNode ‹_› h name

/-- A property of `RamFileSystem::new()` kept by every node operation holds of every
    reachable state. -/
theorem reachable (hP : NodeStable P) (hnew : P RamFs.new) (h : ramfsSystem.Reachable fs) :
    P fs := by
  refine LTS.Reachable.invariant ?_ (fun s _ _ (hw : P s) hs => hP.ramfsNext hw hs) h
  rintro _ rfl
  exact hnew

end NodeStable

namespace Wf

variable {fs : RamFs Empty} {i : Nat} {d : DirNode Empty}

theorem createNode (h : Wf fs) (hi : fs.nodes i = some (.dir d)) (name : Path) (ty : VfsNodeType) :
    Wf (createNode fs i d name ty).2 := by
  unfold Ramfs.createNode
  split
  · exact h
  · split
    · exact h.addChild hi (fun _ => rfl) (fun hk => nomatch hk)
    · -- a new directory points back to the one it is created in
      exact h.addChild hi (fun _ => rfl) (fun _ => rfl)
    all_goals exact h

theorem removeNode (h : Wf fs) (hi : fs.nodes i = some (.dir d)) (name : Path) :
    Wf (removeNode fs i d name).2 := by
  unfold Ramfs.removeNode
  split
  · exact h
  · split
    · exact h
    · exact h.eraseChild hi

theorem nodeStable : NodeStable Wf :=
  ⟨fun hi h name ty => h.createNode hi name ty, fun hi h name => h.removeNode hi name⟩

end Wf

/-- **Every reachable state is well formed.** -/
theorem wf_of_reachable {fs : RamFs Empty} (h : ramfsSystem.Reachable fs) : Wf fs :=
  Wf.nodeStable.reachable Wf.new h

/-! ## §3 Parent links and lexical normalisation -/

/-- The lexical normal form of a path: its components with `""` and `"."`
    dropped and each name cancelled by a following `".."`, joined by `/`. -/
def normPath (path : Path) : Path :=
  List.intercalate ['/'] (PathTree.lexWalk [] ((components path).map comp))

/-- The kind of the node a reference names. -/
def RamFs.refKind (fs : RamFs Empty) : NodeRef Empty → Option Kind
  | .ram j => fs.kindOf j
  | .ext e => e.elim

/-- The components of the normal form are its names, or one `""` for the root. -/
theorem components_normPath (path : Path) :
    (components (normPath path)).map comp =
      if PathTree.lexWalk [] ((components path).map comp) = [] then [.stay]
      else (PathTree.lexWalk [] ((components path).map comp)).map .name := by
  set r := PathTree.lexWalk [] ((components path).map comp) with hr
  -- each name of `r` is a component of `path`: no `/`, not empty, read as a name
  have hnames : ∀ a ∈ r, comp a = .name a ∧ a ≠ [] ∧ '/' ∉ a := by
    intro a ha
    rcases mem_lexWalk ha with h | ⟨hc, hn⟩
    · simp at h
    · exact ⟨hn, (comp_eq_name hn).2, slash_not_mem_components path a hc⟩
  split_ifs with h₀
  · rw [normPath, ← hr, h₀, List.intercalate_nil, components_nil]
    rfl
  · rw [normPath, ← hr, components_intercalate h₀ (fun a ha => (hnames a ha).2)]
    exact List.map_congr_left (fun a ha => (hnames a ha).1)

namespace RamFs

theorem realize_eq_ok {fs : RamFs Empty} {w : Except WalkError (List Path)} {n : NodeRef Empty} :
    fs.realize w = .ok n ↔ ∃ q j, w = .ok q ∧ fs.resolve q = some j ∧ n = .ram j := by
  rcases w with e | q
  · simp [realize]
  · simp only [realize, nodeAt, Except.ok.injEq, exists_and_left, exists_eq_left']
    split
    · rename_i j hj
      simp only [Except.ok.injEq, hj, Option.some.injEq]
      refine ⟨fun h => ⟨j, rfl, h.symm⟩, ?_⟩
      rintro ⟨_, hj', h⟩
      exact hj' ▸ h.symm
    · rename_i hj
      simp [hj]

end RamFs

variable {fs : RamFs Empty}

/-- A lookup from the root is a namespace walk from `[]`. -/
theorem lookup_root_eq (h : Wf fs) (path : Path) :
    lookup noLookup fs (.ram fs.root) path =
      fs.realize (PathTree.walk fs.absTree [] ((components path).map comp)) := by
  rw [lookup_eq_walk, walk_eq_realize h _ (resolve_nil fs)]

/-- **The lexical normalisation law of `DirNode::lookup`.** When each `".."` of
    a path is taken at a directory other than the root, a lookup from the root
    succeeds exactly when the lookup of the normal form does, at the same node,
    and that node is a directory or the last component is a name. -/
theorem lookup_iff_normPath (h : Wf fs) (path : Path) (n : NodeRef Empty)
    (hup : PathTree.upOk fs.absTree [] ((components path).map comp) = true) :
    lookup noLookup fs (.ram fs.root) path = .ok n ↔
      lookup noLookup fs (.ram fs.root) (normPath path) = .ok n ∧
        (fs.refKind n = some .dir ∨ PathTree.endsInName ((components path).map comp) = true) := by
  set cs := (components path).map comp with hcs
  set r := PathTree.lexWalk [] cs with hr
  have hT := absTree_closed fs
  have hroot : fs.absTree [] = some .dir := by rw [absTree_eq fs (resolve_nil fs), h.root_dir.1]
  have hroot' : fs.absTree [] ≠ none := by simp [hroot]
  have hne : cs ≠ [] := by simp [hcs, components_ne_nil]
  -- the normal form is looked up by its names: it reaches `r` when `r` exists
  have hnorm : lookup noLookup fs (.ram fs.root) (normPath path) = .ok n ↔
      ∃ j, fs.resolve r = some j ∧ n = .ram j := by
    rw [lookup_root_eq h, components_normPath, ← hcs, ← hr, realize_eq_ok]
    split_ifs with h₀
    · rw [PathTree.walk_stay hroot, h₀]
      simp
    · constructor
      · rintro ⟨q, j, hw, hq, rfl⟩
        obtain ⟨rfl, -⟩ := (PathTree.walk_names hT hroot' r).mp hw
        exact ⟨j, hq, rfl⟩
      · rintro ⟨j, hj, rfl⟩
        refine ⟨r, j, (PathTree.walk_names hT hroot' r).mpr ⟨rfl, ?_⟩, hj, rfl⟩
        rw [absTree_eq fs hj]
        exact h.resolve_alloc hj
  rw [lookup_root_eq h, realize_eq_ok, hnorm]
  constructor
  · rintro ⟨q, j, hw, hq, rfl⟩
    obtain ⟨rfl, -, hend⟩ := (PathTree.walk_eq_ok_iff hT hroot' hup).mp hw
    refine ⟨⟨j, hq, rfl⟩, ?_⟩
    rcases hend with hnil | hdir | hname
    · exact absurd hnil hne
    · left
      rw [RamFs.refKind, ← absTree_eq fs hq]
      exact hdir
    · exact .inr hname
  · rintro ⟨⟨j, hj, rfl⟩, hend⟩
    have hex : fs.absTree r ≠ none := by rw [absTree_eq fs hj]; exact h.resolve_alloc hj
    refine ⟨r, j, (PathTree.walk_eq_ok_iff hT hroot' hup).mpr ⟨rfl, hex, ?_⟩, hj, rfl⟩
    rcases hend with hdir | hname
    · right; left
      rw [absTree_eq fs hj]
      exact hdir
    · exact .inr (.inr hname)

/-! ## §4 `create` and `remove` on the namespace -/

/-- `DirNode::create` of the last name at the position `q`, on the namespace. -/
def treeCreateAt (T : NameTree Path) (q : List Path) (name : Path) (ty : VfsNodeType) :
    VfsResult Unit × NameTree Path :=
  match T q with
  | some .dir =>
    match comp name with
    | .name a =>
      if T (q ++ [a]) ≠ none then (.error .alreadyExists, T)
      else
        match ty with
        | .file => (.ok (), Function.update T (q ++ [a]) (some .file))
        | .dir => (.ok (), Function.update T (q ++ [a]) (some .dir))
        | _ => (.error .unsupported, T)
    -- the last name `""`, `"."` or `".."` exists already
    | _ => (.ok (), T)
  | some .file => (.error .notADirectory, T)
  | none => (.error .notFound, T)

/-- `DirNode::create(path, ty)` on the root, on the namespace: walk the components
    but the last from the root, then create the last one there. -/
def treeCreate (T : NameTree Path) (path : Path) (ty : VfsNodeType) : VfsResult Unit × NameTree Path :=
  match PathTree.walk T [] ((parentComponents path).map comp) with
  | .error e => (.error (walkError e), T)
  | .ok q => treeCreateAt T q (lastComponent path) ty

open Classical in
/-- `DirNode::remove` of the last name at the position `q`, on the namespace: a
    directory with an entry below it is not removed. -/
noncomputable def treeRemoveAt (T : NameTree Path) (q : List Path) (name : Path) :
    VfsResult Unit × NameTree Path :=
  match T q with
  | some .dir =>
    match comp name with
    | .name a =>
      match T (q ++ [a]) with
      | none => (.error .notFound, T)
      | some k =>
        if k = .dir ∧ ∃ b, T (q ++ [a] ++ [b]) ≠ none then (.error .directoryNotEmpty, T)
        else (.ok (), Function.update T (q ++ [a]) none)
    -- `""`, `"."` and `".."` cannot be removed
    | _ => (.error .invalidInput, T)
  | some .file => (.error .notADirectory, T)
  | none => (.error .notFound, T)

/-- `DirNode::remove(path)` on the root, on the namespace. -/
noncomputable def treeRemove (T : NameTree Path) (path : Path) : VfsResult Unit × NameTree Path :=
  match PathTree.walk T [] ((parentComponents path).map comp) with
  | .error e => (.error (walkError e), T)
  | .ok q => treeRemoveAt T q (lastComponent path)

/-- An entry of a directory is an entry of the namespace below its path. -/
theorem absTree_concat_of_dir {q : List Path} {j : Nat} {d : DirNode Empty}
    (hq : fs.resolve q = some j) (hj : fs.nodes j = some (.dir d)) (name : Path) :
    fs.absTree (q ++ [name]) = (d.children.get? name).bind fs.kindOf := by
  simp [absTree, resolve_concat, hq, child_dir hj]

/-- A child is a non-empty directory exactly when the namespace has an entry below it. -/
theorem isNonEmptyDir_iff (h : Wf fs) {p : List Path} {c : Nat} (hc : fs.resolve p = some c) :
    isNonEmptyDir fs c = true ↔ fs.kindOf c = some .dir ∧ ∃ b, fs.absTree (p ++ [b]) ≠ none := by
  rcases hn : fs.nodes c with _ | _ | cd
  · simp [isNonEmptyDir, hn, kindOf]
  · simp [isNonEmptyDir, hn, kindOf, RamNode.kind]
  · simp only [isNonEmptyDir, hn, kindOf_dir hn, true_and, Bool.not_eq_eq_eq_not, Bool.not_true,
      Bool.eq_false_iff, ne_eq, OrdMap.isEmpty_iff, not_forall]
    -- an entry of the children map is a node reached one name further
    refine exists_congr fun b => ?_
    rw [absTree_concat_of_dir hc hn]
    cases hb : cd.children.get? b with
    | none => simp
    | some c' =>
      simp only [reduceCtorEq, not_false_eq_true, Option.bind_some, true_iff]
      exact h.child_alloc (by rw [child_dir hn, hb])

theorem child_eq_none_of_not_isNonEmptyDir {c : Nat} (hc : isNonEmptyDir fs c = false) (b : Path) :
    fs.child c b = none := by
  rcases hn : fs.nodes c with _ | _ | cd
  · simp [child, hn]
  · simp [child, hn, RamNode.child?]
  · simp only [isNonEmptyDir, hn, Bool.not_eq_false'] at hc
    rw [child_dir hn]
    exact (OrdMap.isEmpty_iff _).mp hc b

/-- **`create` at a directory reached by `q` is `treeCreateAt` at `q`.** -/
theorem createAt_refines (h : Wf fs) {q : List Path} {j : Nat} (hq : fs.resolve q = some j)
    (name : Path) (ty : VfsNodeType) :
    Prod.map id RamFs.absTree (createAt fs (.ram j) name ty) = treeCreateAt fs.absTree q name ty := by
  have hT : fs.absTree q = fs.kindOf j := absTree_eq fs hq
  rcases hj : fs.nodes j with _ | _ | d
  · exact absurd (by simp [kindOf, hj]) (h.resolve_alloc hq)
  · have hk : fs.absTree q = some .file := by rw [hT]; simp [kindOf, hj, RamNode.kind]
    simp [createAt, hj, treeCreateAt, hk]
  · have hk : fs.absTree q = some .dir := by rw [hT, kindOf_dir hj]
    simp only [createAt, hj, treeCreateAt, hk]
    by_cases hs : name = [] ∨ name = dot ∨ name = dotdot
    · -- the last name exists already
      rw [if_pos hs]
      cases hc : comp name with
      | stay => rfl
      | up => rfl
      | name a => exact absurd hc (comp_ne_name_of_special hs a)
    · rw [if_neg hs, comp_of_not_special hs]
      dsimp only
      rw [absTree_concat_of_dir hq hj]
      unfold Ramfs.createNode
      rcases hn : d.children.get? name with _ | c
      · -- a new name: a file or a directory is added, any other type refused
        have hex : d.exist name = false := by simp [DirNode.exist, OrdMap.contains, hn]
        simp only [hex, Bool.false_eq_true, if_false, Option.bind_none, ne_eq, not_true_eq_false]
        have hfile : ∀ a, (RamNode.file [] : RamNode Empty).child? a = none := fun _ => rfl
        have hdir : ∀ a, (RamNode.dir ⟨some (.ram j), OrdMap.empty⟩ : RamNode Empty).child? a = none :=
          fun _ => rfl
        cases ty with
        | file => simp [h.absTree_addChild hq hj hn hfile, RamNode.kind]
        | dir => simp [h.absTree_addChild hq hj hn hdir, RamNode.kind]
        | _ => rfl
      · -- the name exists: `AlreadyExists`, whatever the type
        have hex : d.exist name = true := by simp [DirNode.exist, OrdMap.contains, hn]
        simp [hex, h.child_alloc (by rw [child_dir hj, hn] : fs.child j name = some c)]

/-- **`remove` at a directory reached by `q` is `treeRemoveAt` at `q`.** -/
theorem removeAt_refines (h : Wf fs) {q : List Path} {j : Nat} (hq : fs.resolve q = some j)
    (name : Path) :
    Prod.map id RamFs.absTree (removeAt fs (.ram j) name) = treeRemoveAt fs.absTree q name := by
  have hT : fs.absTree q = fs.kindOf j := absTree_eq fs hq
  rcases hj : fs.nodes j with _ | _ | d
  · exact absurd (by simp [kindOf, hj]) (h.resolve_alloc hq)
  · have hk : fs.absTree q = some .file := by rw [hT]; simp [kindOf, hj, RamNode.kind]
    simp [removeAt, hj, treeRemoveAt, hk]
  · have hk : fs.absTree q = some .dir := by rw [hT, kindOf_dir hj]
    simp only [removeAt, hj, treeRemoveAt, hk]
    by_cases hs : name = [] ∨ name = dot ∨ name = dotdot
    · -- `""`, `"."` and `".."` are refused
      rw [if_pos hs]
      cases hc : comp name with
      | stay => rfl
      | up => rfl
      | name a => exact absurd hc (comp_ne_name_of_special hs a)
    · rw [if_neg hs, comp_of_not_special hs]
      dsimp only
      rw [absTree_concat_of_dir hq hj]
      unfold Ramfs.removeNode
      rcases hn : d.children.get? name with _ | c
      · rfl
      · have hqc : fs.resolve (q ++ [name]) = some c := by
          rw [resolve_concat, hq]; simp [child_dir hj, hn]
        obtain ⟨k, hkc⟩ := Option.ne_none_iff_exists'.mp (h.resolve_alloc hqc)
        simp only [Option.bind_some, hkc]
        -- the test on the child is the test on the namespace below `q ++ [name]`
        have hiff := isNonEmptyDir_iff h hqc
        rw [hkc] at hiff
        simp only [Option.some.injEq] at hiff
        by_cases he : isNonEmptyDir fs c = true
        · rw [if_pos he, if_pos (hiff.mp he)]
          rfl
        · rw [if_neg he, if_neg (fun h' => he (hiff.mpr h'))]
          have hleaf := child_eq_none_of_not_isNonEmptyDir (Bool.eq_false_iff.mpr he)
          simp [h.absTree_eraseChild hq hj hn hleaf]

/-- **`DirNode::create` on the root refines `treeCreate`.** -/
theorem create_refines_treeCreate (h : Wf fs) (path : Path) (ty : VfsNodeType) :
    Prod.map id RamFs.absTree (create noCreate fs (.ram fs.root) path ty) =
      treeCreate fs.absTree path ty := by
  rw [create_eq, walk_eq_realize h _ (resolve_nil fs), treeCreate]
  cases hw : PathTree.walk fs.absTree [] ((parentComponents path).map comp) with
  | error e => rfl
  | ok q =>
    -- the walk ends at an entry, the node the arena walk reaches
    have hne := PathTree.walk_ne_none (absTree_closed fs)
      (by rw [absTree_eq fs (resolve_nil fs), h.root_dir.1]; simp) hw
    obtain ⟨j, hj, -⟩ := exists_resolve_of_absTree hne
    simp only [realize, nodeAt, hj]
    exact createAt_refines h hj _ ty

/-- **`DirNode::remove` on the root refines `treeRemove`.** -/
theorem remove_refines_treeRemove (h : Wf fs) (path : Path) :
    Prod.map id RamFs.absTree (remove noRemove fs (.ram fs.root) path) =
      treeRemove fs.absTree path := by
  rw [remove_eq, walk_eq_realize h _ (resolve_nil fs), treeRemove]
  cases hw : PathTree.walk fs.absTree [] ((parentComponents path).map comp) with
  | error e => rfl
  | ok q =>
    have hne := PathTree.walk_ne_none (absTree_closed fs)
      (by rw [absTree_eq fs (resolve_nil fs), h.root_dir.1]; simp) hw
    obtain ⟨j, hj, -⟩ := exists_resolve_of_absTree hne
    simp only [realize, nodeAt, hj]
    exact removeAt_refines h hj _

/-! ## §5 Errors change nothing -/

section Errors

variable {fs : RamFs Empty} {e : VfsError}

theorem createNode_error {i : Nat} {d : DirNode Empty} {name : Path} {ty : VfsNodeType}
    (he : (createNode fs i d name ty).1 = .error e) : (createNode fs i d name ty).2 = fs := by
  unfold Ramfs.createNode at he ⊢
  split
  · rfl
  · split <;> first | rfl | simp_all

theorem removeNode_error {i : Nat} {d : DirNode Empty} {name : Path}
    (he : (removeNode fs i d name).1 = .error e) : (removeNode fs i d name).2 = fs := by
  unfold Ramfs.removeNode at he ⊢
  split
  · rfl
  · split <;> first | rfl | simp_all

theorem createAt_error {n : NodeRef Empty} {name : Path} {ty : VfsNodeType}
    (he : (createAt fs n name ty).1 = .error e) : (createAt fs n name ty).2 = fs := by
  rcases n with j | x
  · rcases hj : fs.nodes j with _ | _ | d
    · simp [createAt, hj]
    · simp [createAt, hj]
    · simp only [createAt, hj] at he ⊢
      by_cases hs : name = [] ∨ name = dot ∨ name = dotdot
      · rw [if_pos hs]
      · rw [if_neg hs] at he ⊢
        exact createNode_error he
  · exact x.elim

theorem removeAt_error {n : NodeRef Empty} {name : Path}
    (he : (removeAt fs n name).1 = .error e) : (removeAt fs n name).2 = fs := by
  rcases n with j | x
  · rcases hj : fs.nodes j with _ | _ | d
    · simp [removeAt, hj]
    · simp [removeAt, hj]
    · simp only [removeAt, hj] at he ⊢
      by_cases hs : name = [] ∨ name = dot ∨ name = dotdot
      · rw [if_pos hs]
      · rw [if_neg hs] at he ⊢
        exact removeNode_error he
  · exact x.elim

/-- **A failed `create` leaves the file system as it was.** -/
theorem create_error {n : NodeRef Empty} {path : Path} {ty : VfsNodeType}
    (he : (create noCreate fs n path ty).1 = .error e) : (create noCreate fs n path ty).2 = fs := by
  rw [create_eq] at he ⊢
  cases hw : walk fs n (parentComponents path) with
  | error e' => rfl
  | ok m =>
    simp only [hw] at he ⊢
    exact createAt_error he

/-- **A failed `remove` leaves the file system as it was.** -/
theorem remove_error {n : NodeRef Empty} {path : Path}
    (he : (remove noRemove fs n path).1 = .error e) : (remove noRemove fs n path).2 = fs := by
  rw [remove_eq] at he ⊢
  cases hw : walk fs n (parentComponents path) with
  | error e' => rfl
  | ok m =>
    simp only [hw] at he ⊢
    exact removeAt_error he

end Errors

/-! ## §6 Every reachable state -/

theorem reachable_new : ramfsSystem.Reachable RamFs.new := ⟨RamFs.new, [], rfl, .nil _⟩

/-- **Parent links and `..`.** In every reachable state a directory reached by a
    name path has as parent the directory reached without its last name (the
    root has none), and when each `".."` of a path is taken at a directory other
    than the root, a lookup from the root succeeds exactly when the lookup of the
    normal form does, at the same node, provided that node is a directory or the
    last component is a name. -/
theorem ramfs_parent_links_and_lookup_normPath {fs : RamFs Empty} (h : ramfsSystem.Reachable fs) :
    (∀ q j, fs.resolve q = some j → fs.kindOf j = some .dir →
      fs.parentOf j = if q = [] then none else (fs.resolve q.dropLast).map .ram) ∧
    ∀ path n, PathTree.upOk fs.absTree [] ((components path).map comp) = true →
      (lookup noLookup fs (.ram fs.root) path = .ok n ↔
        lookup noLookup fs (.ram fs.root) (normPath path) = .ok n ∧
          (fs.refKind n = some .dir ∨ PathTree.endsInName ((components path).map comp) = true)) :=
  ⟨fun _ _ hq hk => (wf_of_reachable h).parentOf_resolve hq hk,
    fun path n hup => lookup_iff_normPath (wf_of_reachable h) path n hup⟩

/-- The directory `d` created in the root has the root as parent. -/
theorem ramfs_parent_of_created_dir :
    ∃ fs : RamFs Empty, ramfsSystem.Reachable fs ∧ fs.resolve ["d".toList] = some 1 ∧
      fs.parentOf 1 = some (.ram 0) := by
  have hr : ramfsSystem.Reachable
      (RamFs.new.addChild 0 ⟨none, OrdMap.empty⟩ "d".toList (.dir ⟨some (.ram 0), OrdMap.empty⟩)) :=
    LTS.Reachable.step reachable_new (l := .createNode 0 "d".toList .dir) rfl
  have hq : (RamFs.new.addChild 0 ⟨none, OrdMap.empty⟩ "d".toList
      (.dir ⟨some (.ram 0), OrdMap.empty⟩) : RamFs Empty).resolve ["d".toList] = some 1 := by
    decide
  refine ⟨_, hr, hq, ?_⟩
  rw [(ramfs_parent_links_and_lookup_normPath hr).1 ["d".toList] 1 hq (by decide)]
  rfl

/-- A lookup of `f1/`, where `f1` is a file, fails, while its normal form `f1`
    names the file. -/
theorem ramfs_lookup_trailing_slash_after_file :
    ∃ fs : RamFs Empty, ramfsSystem.Reachable fs ∧
      PathTree.upOk fs.absTree [] ((components "f1/".toList).map comp) = true ∧
      lookup noLookup fs (.ram fs.root) "f1/".toList = .error .notADirectory ∧
      normPath "f1/".toList = "f1".toList ∧
      lookup noLookup fs (.ram fs.root) "f1".toList = .ok (.ram 1) := by
  have hs : splitPath "f1".toList = ("f1".toList, none) := by decide
  have hs' : splitPath "f1/".toList = ("f1".toList, some []) := by decide
  -- `root.create("f1", File)`, as in `test_ramfs`
  have hc : (create noCreate RamFs.new (.ram 0) "f1".toList .file).2 =
      RamFs.new.addChild 0 ⟨none, OrdMap.empty⟩ "f1".toList (.file []) := by
    rw [create_eq, parentComponents_last hs, lastComponent_last hs]
    rfl
  have hr : ramfsSystem.Reachable (RamFs.new.addChild 0 ⟨none, OrdMap.empty⟩ "f1".toList (.file [])) :=
    LTS.Reachable.step reachable_new (l := .create 0 "f1".toList .file) (by rw [← hc]; rfl)
  have hcs : components "f1/".toList = ["f1".toList, []] := by
    rw [components_step hs', components_nil]
  refine ⟨_, hr, by rw [hcs]; decide, ?_, by rw [normPath, hcs]; decide, ?_⟩
  · rw [lookup_eq_walk, hcs]
    rfl
  · rw [lookup_eq_walk, components_last hs]
    rfl

/-- **`create` and `remove` on the root refine the namespace operations.** In
    every reachable state, `DirNode::create(path, ty)` and `DirNode::remove(path)`
    on the root act on the namespace as `treeCreate` and `treeRemove`, and every
    call that fails leaves the whole file system unchanged. -/
theorem ramfs_create_remove_refine_tree {fs : RamFs Empty} (h : ramfsSystem.Reachable fs)
    (path : Path) (ty : VfsNodeType) :
    Prod.map id RamFs.absTree (create noCreate fs (.ram fs.root) path ty) =
        treeCreate fs.absTree path ty ∧
      Prod.map id RamFs.absTree (remove noRemove fs (.ram fs.root) path) =
        treeRemove fs.absTree path ∧
      (∀ e, (create noCreate fs (.ram fs.root) path ty).1 = .error e →
        (create noCreate fs (.ram fs.root) path ty).2 = fs) ∧
      (∀ e, (remove noRemove fs (.ram fs.root) path).1 = .error e →
        (remove noRemove fs (.ram fs.root) path).2 = fs) :=
  ⟨create_refines_treeCreate (wf_of_reachable h) path ty,
    remove_refines_treeRemove (wf_of_reachable h) path,
    fun _ he => create_error he, fun _ he => remove_error he⟩

/-- Creating the directory `a` in a new file system adds exactly the entry `a`. -/
theorem ramfs_create_dir_in_new :
    (create noCreate RamFs.new (.ram 0) "a".toList .dir).1 = .ok () ∧
      (create noCreate RamFs.new (.ram 0) "a".toList .dir).2.absTree =
        Function.update (RamFs.new : RamFs Empty).absTree ["a".toList] (some .dir) := by
  have hs : splitPath "a".toList = ("a".toList, none) := by decide
  have h := (ramfs_create_remove_refine_tree reachable_new "a".toList .dir).1
  have hroot : (RamFs.new : RamFs Empty).absTree [] = some .dir := rfl
  have ha : (RamFs.new : RamFs Empty).absTree ([] ++ ["a".toList]) = none := by decide
  have hcomp : comp "a".toList = .name "a".toList := by decide
  rw [treeCreate, parentComponents_last hs, lastComponent_last hs, List.map_nil,
    PathTree.walk_nil] at h
  simp only [treeCreateAt, hroot, hcomp, ha, ne_eq, not_true_eq_false, if_false] at h
  simp only [Prod.ext_iff, Prod.map_fst, Prod.map_snd, id] at h
  exact h

/-- `create` of `missing/.` fails with `NotFound`, although its last component is `.`. -/
theorem ramfs_create_dot_below_missing_dir :
    ramfsSystem.Reachable RamFs.new ∧ lastComponent "missing/.".toList = dot ∧
      create noCreate RamFs.new (.ram 0) "missing/.".toList .dir =
        (.error .notFound, RamFs.new) := by
  have hs : splitPath "missing/.".toList = ("missing".toList, some ".".toList) := by decide
  have hs' : splitPath ".".toList = (".".toList, none) := by decide
  refine ⟨reachable_new, by rw [lastComponent_step hs, lastComponent_last hs']; rfl, ?_⟩
  rw [create_eq, parentComponents_step hs, parentComponents_last hs']
  rfl

end ArceOS.Fs.Ramfs
