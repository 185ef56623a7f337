import ArceOS.Fs.RamfsWalk
import ArceOS.Lib.PathTree

/-!
# The Tree a RAM File System Holds

An unmounted RAM file system (`RamFs Empty`) holds a tree: following children
names from the root (`RamFs.resolve`) reaches each node by at most one name path.
`RamFs.absTree` forgets the arena and keeps the namespace, the map from name
paths to node kinds.

`Wf` is the invariant that makes this so: every entry of a children map points
to an allocated node, a directory child points back to its container through its
`parent` link, no node is entered twice and the root nowhere, and the indices from
`next` on are free. `Wf` holds for `RamFileSystem::new()` and is kept by
`create_node` and `remove_node` on any directory, hence by `create` and `remove`.

Nodes are never freed here: a node removed from its directory stays in the arena,
unreachable from the root, as the `Arc` of a removed node may still be held.

## Main results

- `Wf.parentOf_resolve`: a directory reached by a name path has as parent the
  directory reached without its last name, and the root has none;
- `walk_eq_realize`: walking names in the arena is walking them in the namespace,
  where `..` goes to the lexical parent;
- `absTree_addChild` and `absTree_eraseChild`: adding a child adds exactly one
  entry to the namespace, and removing a leaf deletes exactly one.
-/

namespace ArceOS.Fs.Ramfs

open ArceOS.Lib
open ArceOS.Lib.PathTree (Kind Comp NameTree Closed WalkError)

variable {ε : Type}

/-! ## §1 Children, kinds and parents -/

namespace RamNode

/-- The kind of a node. -/
def kind : RamNode ε → Kind
  | .file _ => .file
  | .dir _ => .dir

/-- The child entered under a name: a directory's entry; a file has none. -/
def child? : RamNode ε → Path → Option Nat
  | .dir d, a => d.children.get? a
  | .file _, _ => none

/-- `VfsNodeOps::parent`: a directory's parent link; a file keeps the default
    method, which has none. -/
def parent? : RamNode ε → Option (NodeRef ε)
  | .dir d => d.parent
  | .file _ => none

end RamNode

namespace RamFs

/-- The child of the node `i` under the name `a`. -/
def child (fs : RamFs ε) (i : Nat) (a : Path) : Option Nat := (fs.nodes i).bind fun n => n.child? a

/-- The kind of the node `i`, when allocated. -/
def kindOf (fs : RamFs ε) (i : Nat) : Option Kind := (fs.nodes i).map RamNode.kind

/-- The parent link of the node `i`. -/
def parentOf (fs : RamFs ε) (i : Nat) : Option (NodeRef ε) := (fs.nodes i).bind RamNode.parent?

/-- The node a name path leads to from the root. -/
def resolve (fs : RamFs ε) (q : List Path) : Option Nat := q.foldlM fs.child fs.root

/-- The namespace held: the kind of the node each name path leads to. -/
def absTree (fs : RamFs ε) : NameTree Path := fun q => (fs.resolve q).bind fs.kindOf

section Basic

variable {fs : RamFs ε} {i c : Nat} {d : DirNode ε} {a : Path}

theorem child_dir (hi : fs.nodes i = some (.dir d)) (a : Path) :
    fs.child i a = d.children.get? a := by
  simp [child, hi, RamNode.child?]

theorem child_eq_some (h : fs.child i a = some c) :
    ∃ d, fs.nodes i = some (.dir d) ∧ d.children.get? a = some c := by
  rcases hi : fs.nodes i with _ | _ | d
  · simp [child, hi] at h
  · simp [child, hi, RamNode.child?] at h
  · exact ⟨d, rfl, by rwa [child_dir hi] at h⟩

theorem kindOf_dir (hi : fs.nodes i = some (.dir d)) : fs.kindOf i = some .dir := by
  simp [kindOf, hi, RamNode.kind]

theorem parentOf_dir (hi : fs.nodes i = some (.dir d)) : fs.parentOf i = d.parent := by
  simp [parentOf, hi, RamNode.parent?]

theorem kindOf_ne_none_iff : fs.kindOf i ≠ none ↔ fs.nodes i ≠ none := by
  simp [kindOf]

@[simp] theorem resolve_nil (fs : RamFs ε) : fs.resolve [] = some fs.root := rfl

theorem resolve_concat (fs : RamFs ε) (q : List Path) (a : Path) :
    fs.resolve (q ++ [a]) = (fs.resolve q).bind (fs.child · a) := by
  simp [resolve, List.foldlM_append]

theorem resolve_concat_eq_some {q : List Path} :
    fs.resolve (q ++ [a]) = some c ↔ ∃ j, fs.resolve q = some j ∧ fs.child j a = some c := by
  rw [resolve_concat, Option.bind_eq_some_iff]

theorem absTree_eq (fs : RamFs ε) {q : List Path} {j : Nat} (hq : fs.resolve q = some j) :
    fs.absTree q = fs.kindOf j := by
  simp [absTree, hq]

theorem absTree_eq_none (fs : RamFs ε) {q : List Path} (hq : fs.resolve q = none) :
    fs.absTree q = none := by
  simp [absTree, hq]

/-- The container of a node reached by a name path is reached too. -/
theorem resolve_dropLast {q : List Path} (hq : fs.resolve q = some c) :
    ∃ j, fs.resolve q.dropLast = some j := by
  rcases q.eq_nil_or_concat with rfl | ⟨q', a, rfl⟩
  · exact ⟨fs.root, rfl⟩
  · rw [List.concat_eq_append] at hq ⊢
    obtain ⟨j, hj, -⟩ := resolve_concat_eq_some.mp hq
    exact ⟨j, by rwa [List.dropLast_concat]⟩

/-- An entry of the namespace is a node reached by its name path. -/
theorem exists_resolve_of_absTree {q : List Path} (hq : fs.absTree q ≠ none) :
    ∃ c, fs.resolve q = some c ∧ fs.kindOf c ≠ none := by
  cases hr : fs.resolve q with
  | none => exact absurd (absTree_eq_none fs hr) hq
  | some c => exact ⟨c, rfl, by rwa [← absTree_eq fs hr]⟩

/-- The namespace is closed under prefixes: only directories have children. -/
theorem absTree_closed (fs : RamFs ε) : Closed fs.absTree := by
  intro q a hqa
  obtain ⟨c, hc, -⟩ := exists_resolve_of_absTree hqa
  obtain ⟨j, hj, hjc⟩ := resolve_concat_eq_some.mp hc
  obtain ⟨d, hd, -⟩ := child_eq_some hjc
  rw [absTree_eq fs hj, kindOf_dir hd]

end Basic

end RamFs

/-! ## §2 The invariant -/

open RamFs

/-- Well-formedness of an unmounted RAM file system. -/
structure Wf (fs : RamFs Empty) : Prop where
  /-- The root is a directory without parent (`test_get_parent`). -/
  root_dir : fs.kindOf fs.root = some .dir ∧ fs.parentOf fs.root = none
  /-- Indices from `next` on hold no node. -/
  fresh : ∀ i, fs.next ≤ i → fs.nodes i = none
  /-- A child is an allocated node. -/
  child_alloc : ∀ {i a c}, fs.child i a = some c → fs.kindOf c ≠ none
  /-- A directory child points back to its container. -/
  child_parent : ∀ {i a c}, fs.child i a = some c → fs.kindOf c = some .dir →
    fs.parentOf c = some (.ram i)
  /-- A node is entered under one name of one directory at most. -/
  child_inj : ∀ {i a i' a' c}, fs.child i a = some c → fs.child i' a' = some c → i = i' ∧ a = a'
  /-- The root is nobody's child. -/
  root_not_child : ∀ {i a}, fs.child i a ≠ some fs.root

namespace Wf

variable {fs : RamFs Empty}

theorem new : Wf (RamFs.new : RamFs Empty) where
  root_dir := ⟨rfl, rfl⟩
  fresh i hi := by simp [RamFs.new] at hi ⊢; omega
  child_alloc h := by simp [child, RamFs.new] at h; split at h <;> simp [RamNode.child?] at h
  child_parent h := by simp [child, RamFs.new] at h; split at h <;> simp [RamNode.child?] at h
  child_inj h := by simp [child, RamFs.new] at h; split at h <;> simp [RamNode.child?] at h
  root_not_child := by
    intro i a h
    simp [child, RamFs.new] at h
    split at h <;> simp [RamNode.child?] at h

theorem lt_next (h : Wf fs) {c : Nat} (hc : fs.kindOf c ≠ none) : c < fs.next := by
  by_contra hle
  exact kindOf_ne_none_iff.mp hc (h.fresh c (Nat.le_of_not_lt hle))

theorem ne_next (h : Wf fs) {c : Nat} (hc : fs.kindOf c ≠ none) : c ≠ fs.next :=
  Nat.ne_of_lt (h.lt_next hc)

theorem root_ne_next (h : Wf fs) : fs.root ≠ fs.next :=
  h.ne_next (by rw [h.root_dir.1]; simp)

/-- Every node a name path leads to is allocated. -/
theorem resolve_alloc (h : Wf fs) {q : List Path} {c : Nat} (hq : fs.resolve q = some c) :
    fs.kindOf c ≠ none := by
  induction q using List.reverseRecOn generalizing c with
  | nil =>
    simp only [resolve_nil, Option.some.injEq] at hq
    rw [← hq, h.root_dir.1]
    simp
  | append_singleton q a _ =>
    obtain ⟨j, -, hc⟩ := resolve_concat_eq_some.mp hq
    exact h.child_alloc hc

/-- **Name paths are unique**: two name paths that reach the same node are equal. -/
theorem resolve_inj (h : Wf fs) :
    ∀ {q₁ q₂ : List Path} {c : Nat}, fs.resolve q₁ = some c → fs.resolve q₂ = some c → q₁ = q₂ := by
  intro q₁
  induction q₁ using List.reverseRecOn with
  | nil =>
    intro q₂ c h₁ h₂
    induction q₂ using List.reverseRecOn with
    | nil => rfl
    | append_singleton q₂ b =>
      -- the root is nobody's child
      simp only [resolve_nil, Option.some.injEq] at h₁
      obtain ⟨j, -, hc⟩ := resolve_concat_eq_some.mp h₂
      exact absurd (h₁ ▸ hc) h.root_not_child
  | append_singleton q₁ a ih =>
    intro q₂ c h₁ h₂
    obtain ⟨j, hj, hc⟩ := resolve_concat_eq_some.mp h₁
    induction q₂ using List.reverseRecOn with
    | nil =>
      simp only [resolve_nil, Option.some.injEq] at h₂
      exact absurd (h₂ ▸ hc) h.root_not_child
    | append_singleton q₂ b _ =>
      obtain ⟨j', hj', hc'⟩ := resolve_concat_eq_some.mp h₂
      -- the same node is entered once: same directory, same name
      obtain ⟨rfl, rfl⟩ := h.child_inj hc hc'
      rw [ih hj hj']

/-- **The parent law**: a directory reached by a name path has as parent the
    directory reached without its last name; the root has none. -/
theorem parentOf_resolve (h : Wf fs) {q : List Path} {j : Nat} (hq : fs.resolve q = some j)
    (hk : fs.kindOf j = some .dir) :
    fs.parentOf j = if q = [] then none else (fs.resolve q.dropLast).map .ram := by
  rcases q.eq_nil_or_concat with rfl | ⟨q', a, rfl⟩
  · simp only [resolve_nil, Option.some.injEq] at hq
    rw [← hq, if_pos rfl]
    exact h.root_dir.2
  · rw [List.concat_eq_append] at hq ⊢
    obtain ⟨j', hj', hc⟩ := resolve_concat_eq_some.mp hq
    rw [if_neg (by simp), List.dropLast_concat, hj', h.child_parent hc hk]
    rfl

end Wf

/-! ## §3 The two updates: adding a child and erasing one -/

namespace RamFs

section Updates

variable {fs : RamFs ε} {i : Nat} {d : DirNode ε} {name : Path} {node : RamNode ε}

theorem nodes_addChild_self :
    (fs.addChild i d name node).nodes i =
      some (.dir { d with children := d.children.insert name fs.next }) := by
  simp [addChild_nodes]

theorem nodes_addChild_next (hne : i ≠ fs.next) : (fs.addChild i d name node).nodes fs.next = some node := by
  rw [addChild_nodes, Function.update_of_ne hne.symm, Function.update_self]

theorem nodes_addChild_of_ne {j : Nat} (hj : j ≠ i) (hjn : j ≠ fs.next) :
    (fs.addChild i d name node).nodes j = fs.nodes j := by
  rw [addChild_nodes, Function.update_of_ne hj, Function.update_of_ne hjn]

theorem child_addChild (hi : fs.nodes i = some (.dir d)) (hne : i ≠ fs.next)
    (hfree : fs.nodes fs.next = none) (hleaf : ∀ a, node.child? a = none) (name : Path) (j : Nat)
    (a : Path) :
    (fs.addChild i d name node).child j a = if j = i ∧ a = name then some fs.next else fs.child j a := by
  by_cases hj : j = i
  · subst hj
    rw [child_dir nodes_addChild_self, child_dir hi]
    by_cases ha : a = name
    · simp [ha]
    · rw [OrdMap.get?_insert_ne _ ha, if_neg (fun h => ha h.2)]
  · rw [if_neg (fun h => hj h.1)]
    by_cases hjn : j = fs.next
    · subst hjn
      simp only [child, nodes_addChild_next hne, hfree, Option.bind_some, Option.bind_none, hleaf]
    · simp only [child, nodes_addChild_of_ne hj hjn]

theorem kindOf_addChild (hi : fs.nodes i = some (.dir d)) (hne : i ≠ fs.next) (name : Path)
    (node : RamNode ε) (j : Nat) :
    (fs.addChild i d name node).kindOf j = if j = fs.next then some node.kind else fs.kindOf j := by
  by_cases hj : j = i
  · subst hj
    rw [if_neg hne, kindOf_dir nodes_addChild_self, kindOf_dir hi]
  · by_cases hjn : j = fs.next
    · subst hjn
      simp only [kindOf, nodes_addChild_next hne, Option.map_some, if_true]
    · simp only [kindOf, nodes_addChild_of_ne hj hjn, if_neg hjn]

theorem parentOf_addChild (hi : fs.nodes i = some (.dir d)) (hne : i ≠ fs.next) (name : Path)
    (node : RamNode ε) (j : Nat) :
    (fs.addChild i d name node).parentOf j = if j = fs.next then node.parent? else fs.parentOf j := by
  by_cases hj : j = i
  · subst hj
    rw [if_neg hne, parentOf_dir nodes_addChild_self, parentOf_dir hi]
  · by_cases hjn : j = fs.next
    · subst hjn
      simp only [parentOf, nodes_addChild_next hne, Option.bind_some, if_true]
    · simp only [parentOf, nodes_addChild_of_ne hj hjn, if_neg hjn]

theorem nodes_eraseChild_self :
    (fs.eraseChild i d name).nodes i = some (.dir { d with children := d.children.erase name }) := by
  simp [eraseChild]

theorem nodes_eraseChild_of_ne {j : Nat} (hj : j ≠ i) : (fs.eraseChild i d name).nodes j = fs.nodes j := by
  simp [eraseChild, Function.update_of_ne hj]

theorem child_eraseChild (hi : fs.nodes i = some (.dir d)) (name : Path) (j : Nat) (a : Path) :
    (fs.eraseChild i d name).child j a = if j = i ∧ a = name then none else fs.child j a := by
  by_cases hj : j = i
  · subst hj
    rw [child_dir nodes_eraseChild_self, child_dir hi]
    by_cases ha : a = name
    · simp [ha]
    · rw [OrdMap.get?_erase_ne _ ha, if_neg (fun h => ha h.2)]
  · rw [if_neg (fun h => hj h.1)]
    simp only [child, nodes_eraseChild_of_ne hj]

theorem kindOf_eraseChild (hi : fs.nodes i = some (.dir d)) (name : Path) (j : Nat) :
    (fs.eraseChild i d name).kindOf j = fs.kindOf j := by
  by_cases hj : j = i
  · subst hj
    rw [kindOf_dir nodes_eraseChild_self, kindOf_dir hi]
  · simp only [kindOf, nodes_eraseChild_of_ne hj]

theorem parentOf_eraseChild (hi : fs.nodes i = some (.dir d)) (name : Path) (j : Nat) :
    (fs.eraseChild i d name).parentOf j = fs.parentOf j := by
  by_cases hj : j = i
  · subst hj
    rw [parentOf_dir nodes_eraseChild_self, parentOf_dir hi]
  · simp only [parentOf, nodes_eraseChild_of_ne hj]

end Updates

end RamFs

/-! ## §4 Both updates keep the invariant -/

namespace Wf

variable {fs : RamFs Empty} {i : Nat} {d : DirNode Empty} {name : Path} {node : RamNode Empty}

/-- Adding a fresh leaf to any directory keeps `Wf`, when a directory leaf points
    back to its container. An entry the name had before is dropped. -/
theorem addChild (h : Wf fs) (hi : fs.nodes i = some (.dir d))
    (hleaf : ∀ a, node.child? a = none) (hpar : node.kind = .dir → node.parent? = some (.ram i)) :
    Wf (fs.addChild i d name node) := by
  have hlt : i < fs.next := h.lt_next (by rw [kindOf_dir hi]; simp)
  have hfree : fs.nodes fs.next = none := h.fresh _ le_rfl
  have hc := child_addChild hi hlt.ne hfree hleaf name
  have hk := kindOf_addChild hi hlt.ne name node
  have hp := parentOf_addChild hi hlt.ne name node
  -- an old child is allocated, so it is not the fresh index
  have hold : ∀ {j a c}, fs.child j a = some c → c ≠ fs.next := fun hjc => h.ne_next (h.child_alloc hjc)
  refine ⟨?root, ?fresh, ?alloc, ?parent, ?inj, ?root_child⟩
  case root =>
    rw [hk, hp, addChild_root, if_neg h.root_ne_next, if_neg h.root_ne_next]
    exact h.root_dir
  case fresh =>
    intro j hj
    simp only [addChild_next] at hj
    rw [addChild_nodes, Function.update_of_ne (by omega), Function.update_of_ne (by omega)]
    exact h.fresh j (by omega)
  case alloc =>
    intro j a c hjc
    rw [hc] at hjc
    rw [hk]
    split_ifs at hjc with hja
    · cases hjc; simp
    · rw [if_neg (hold hjc)]; exact h.child_alloc hjc
  case parent =>
    intro j a c hjc hkc
    rw [hc] at hjc
    rw [hk] at hkc
    rw [hp]
    split_ifs at hjc with hja
    · cases hjc
      rw [if_pos rfl] at hkc ⊢
      rw [hja.1]
      exact hpar (Option.some.inj hkc)
    · rw [if_neg (hold hjc)] at hkc ⊢
      exact h.child_parent hjc hkc
  case inj =>
    intro j a j' a' c hjc hjc'
    rw [hc] at hjc hjc'
    split_ifs at hjc hjc' with h₁ h₂ h₂
    · exact ⟨h₁.1.trans h₂.1.symm, h₁.2.trans h₂.2.symm⟩
    · cases hjc; exact absurd rfl (hold hjc')
    · cases hjc'; exact absurd rfl (hold hjc)
    · exact h.child_inj hjc hjc'
  case root_child =>
    intro j a
    rw [hc]
    split_ifs
    · exact fun he => h.root_ne_next (Option.some.inj he).symm
    · exact h.root_not_child

/-- Erasing an entry of any directory keeps `Wf`. -/
theorem eraseChild (h : Wf fs) (hi : fs.nodes i = some (.dir d)) :
    Wf (fs.eraseChild i d name) := by
  have hc := child_eraseChild hi name
  have hk := kindOf_eraseChild hi name
  have hp := parentOf_eraseChild hi name
  refine ⟨?root, ?fresh, ?alloc, ?parent, ?inj, ?root_child⟩
  case root => rw [hk, hp, eraseChild_root]; exact h.root_dir
  case fresh =>
    intro j hj
    rw [eraseChild_next] at hj
    have hlt : i < fs.next := h.lt_next (by rw [kindOf_dir hi]; simp)
    rw [nodes_eraseChild_of_ne (by omega)]
    exact h.fresh j hj
  case alloc =>
    intro j a c hjc
    rw [hc] at hjc
    split_ifs at hjc
    rw [hk]; exact h.child_alloc hjc
  case parent =>
    intro j a c hjc hkc
    rw [hc] at hjc
    split_ifs at hjc
    rw [hk] at hkc
    rw [hp]; exact h.child_parent hjc hkc
  case inj =>
    intro j a j' a' c hjc hjc'
    rw [hc] at hjc hjc'
    split_ifs at hjc hjc'
    exact h.child_inj hjc hjc'
  case root_child =>
    intro j a
    rw [hc]
    split_ifs
    · simp
    · exact h.root_not_child

/-! ## §5 What the updates do to the namespace -/

variable {fs : RamFs Empty} {i : Nat} {d : DirNode Empty} {name : Path} {node : RamNode Empty}
  {p : List Path}

/-- A new leaf under a new name of the directory reached by `p` is reached by
    `p ++ [name]`, and nothing else changes. -/
theorem resolve_addChild (h : Wf fs) (hp : fs.resolve p = some i) (hi : fs.nodes i = some (.dir d))
    (hn : d.children.get? name = none) (hleaf : ∀ a, node.child? a = none) (q : List Path) :
    (fs.addChild i d name node).resolve q = if q = p ++ [name] then some fs.next else fs.resolve q := by
  have hne : i ≠ fs.next := h.ne_next (by rw [kindOf_dir hi]; simp)
  have hc := child_addChild hi hne (h.fresh _ le_rfl) hleaf name
  induction q using List.reverseRecOn with
  | nil => simp
  | append_singleton q a ih =>
    rw [resolve_concat, ih]
    simp only [List.append_singleton_inj]
    by_cases hq : q = p ++ [name]
    · -- below the new leaf there is nothing, before and after
      have hnone : fs.resolve (p ++ [name]) = none := by rw [resolve_concat, hp]; simpa [child_dir hi]
      simp only [hq, if_true, Option.bind_some, hc, resolve_concat, hnone, Option.bind_none]
      simp [hne.symm, child, h.fresh _ le_rfl]
    · rw [if_neg hq, resolve_concat]
      by_cases hqa : q = p ∧ a = name
      · obtain ⟨rfl, rfl⟩ := hqa
        simp [hp, hc]
      · rw [if_neg hqa]
        cases hr : fs.resolve q with
        | none => rfl
        | some j =>
          simp only [Option.bind_some, hc]
          -- the directory at `q` is the one at `p` only when `q = p`
          rw [if_neg]
          rintro ⟨rfl, rfl⟩
          exact hqa ⟨h.resolve_inj hr hp, rfl⟩

theorem absTree_addChild (h : Wf fs) (hp : fs.resolve p = some i) (hi : fs.nodes i = some (.dir d))
    (hn : d.children.get? name = none) (hleaf : ∀ a, node.child? a = none) :
    (fs.addChild i d name node).absTree = Function.update fs.absTree (p ++ [name]) (some node.kind) := by
  have hne : i ≠ fs.next := h.ne_next (by rw [kindOf_dir hi]; simp)
  funext q
  simp only [absTree, resolve_addChild h hp hi hn hleaf, Function.update_apply]
  split_ifs
  · simp [kindOf_addChild hi hne]
  · cases hr : fs.resolve q with
    | none => rfl
    | some c =>
      -- an old node is allocated, so it is not the fresh index
      simp [kindOf_addChild hi hne, h.ne_next (h.resolve_alloc hr)]

/-- Erasing a leaf `c` entered as `name` in the directory reached by `p` makes
    `p ++ [name]` unreachable, and nothing else changes. -/
theorem resolve_eraseChild (h : Wf fs) (hp : fs.resolve p = some i) (hi : fs.nodes i = some (.dir d))
    {c : Nat} (hc : d.children.get? name = some c) (hleaf : ∀ a, fs.child c a = none) (q : List Path) :
    (fs.eraseChild i d name).resolve q = if q = p ++ [name] then none else fs.resolve q := by
  have he := child_eraseChild hi name
  induction q using List.reverseRecOn with
  | nil => simp
  | append_singleton q a ih =>
    rw [resolve_concat, ih]
    simp only [List.append_singleton_inj]
    by_cases hq : q = p ++ [name]
    · -- below the leaf there was nothing
      have hpc : fs.resolve (p ++ [name]) = some c := by rw [resolve_concat, hp]; simpa [child_dir hi]
      simp only [hq, if_true, Option.bind_none, resolve_concat, hpc, Option.bind_some, hleaf]
      simp
    · rw [if_neg hq, resolve_concat]
      by_cases hqa : q = p ∧ a = name
      · obtain ⟨rfl, rfl⟩ := hqa
        simp [hp, he]
      · rw [if_neg hqa]
        cases hr : fs.resolve q with
        | none => rfl
        | some j =>
          simp only [Option.bind_some, he]
          rw [if_neg]
          rintro ⟨rfl, rfl⟩
          exact hqa ⟨h.resolve_inj hr hp, rfl⟩

theorem absTree_eraseChild (h : Wf fs) (hp : fs.resolve p = some i) (hi : fs.nodes i = some (.dir d))
    {c : Nat} (hc : d.children.get? name = some c) (hleaf : ∀ a, fs.child c a = none) :
    (fs.eraseChild i d name).absTree = Function.update fs.absTree (p ++ [name]) none := by
  funext q
  simp only [absTree, resolve_eraseChild h hp hi hc hleaf, Function.update_apply]
  split_ifs
  · rfl
  · cases fs.resolve q with
    | none => rfl
    | some c' => simp [kindOf_eraseChild hi]

end Wf

/-! ## §6 Walks in the arena are walks in the namespace -/

/-- A failed namespace walk as a `VfsError`. -/
def walkError : WalkError → VfsError
  | .notFound => .notFound
  | .notADirectory => .notADirectory

namespace RamFs

/-- The node a name path leads to, as a lookup result. -/
def nodeAt (fs : RamFs ε) (q : List Path) : VfsResult (NodeRef ε) :=
  match fs.resolve q with
  | some j => .ok (.ram j)
  | none => .error .notFound

/-- The outcome of a namespace walk, carried to the arena. -/
def realize (fs : RamFs ε) : Except WalkError (List Path) → VfsResult (NodeRef ε)
  | .ok q => fs.nodeAt q
  | .error e => .error (walkError e)

end RamFs

/-- **Walking in the arena is walking in the namespace**, from any node that a
    name path reaches: the arena walk ends at the node of the position the
    namespace walk ends at, or fails as it does. -/
theorem walk_eq_realize (h : Wf fs) :
    ∀ (cs : List Path) {q : List Path} {i : Nat}, fs.resolve q = some i →
      walk fs (.ram i) cs = fs.realize (PathTree.walk fs.absTree q (cs.map comp))
  | [], q, i, hq => by simp [realize, nodeAt, hq]
  | c :: cs, q, i, hq => by
    have hT : fs.absTree q = fs.kindOf i := absTree_eq fs hq
    rcases hi : fs.nodes i with _ | ⟨content⟩ | d
    · exact absurd (by simp [kindOf, hi]) (h.resolve_alloc hq)
    · have hk : fs.absTree q = some .file := by rw [hT]; simp [kindOf, hi, RamNode.kind]
      rw [walk_cons_file fs hi, List.map_cons, PathTree.walk_cons_file hk]
      rfl
    · have hk : fs.absTree q = some .dir := by rw [hT, kindOf_dir hi]
      rw [walk_cons_dir fs hi, List.map_cons]
      simp only [DirNode.lookupName, comp]
      split_ifs with hs hu
      · -- `""` and `"."` stay at the directory
        rw [PathTree.walk_stay hk]
        exact walk_eq_realize h cs hq
      · -- `".."` follows the parent link, which leads to the lexical parent
        have hpar := h.parentOf_resolve hq (kindOf_dir hi)
        rw [parentOf_dir hi] at hpar
        by_cases h₀ : q = []
        · rw [if_pos h₀] at hpar
          subst h₀
          rw [hpar, PathTree.walk_up_nil hk]
          rfl
        · obtain ⟨j, hj⟩ := resolve_dropLast hq
          rw [if_neg h₀, hj] at hpar
          rw [hpar, PathTree.walk_up hk h₀]
          exact walk_eq_realize h cs hj
      · -- any other name goes down to the child of that name
        rcases hc : d.children.get? c with _ | c'
        · have hr : fs.absTree (q ++ [c]) = none :=
            absTree_eq_none fs (by rw [resolve_concat, hq]; simp [child_dir hi, hc])
          rw [PathTree.walk_name_none hk hr]
          rfl
        · have hr : fs.resolve (q ++ [c]) = some c' := by
            rw [resolve_concat, hq]; simp [child_dir hi, hc]
          rw [PathTree.walk_name hk (by rw [absTree_eq fs hr]; exact h.resolve_alloc hr)]
          exact walk_eq_realize h cs hr

end ArceOS.Fs.Ramfs
