import ArceOS.Lib.Str
import ArceOS.Lib.PathTree

/-!
# VFS Vocabulary

The types of `axfs_vfs` that the modelled file systems share. Paths and names
are `&str`, modelled as lists of characters; `VfsError` is `axerrno::AxError`,
of which only the variants that the modelled code returns are listed.
-/

namespace ArceOS.Fs

open ArceOS.Lib

/-- A path or a name: a `&str`, as its list of characters. -/
abbrev Path := List Char

/-- The `AxError` (alias `VfsError`) variants returned by the modelled code. -/
inductive VfsError where
  | alreadyExists
  | directoryNotEmpty
  | invalidInput
  | isADirectory
  | notADirectory
  | notFound
  | permissionDenied
  | unsupported
  deriving DecidableEq, Repr

/-- `VfsResult<T>`. -/
abbrev VfsResult (α : Type) := Except VfsError α

/-- `VfsNodeType`. -/
inductive VfsNodeType where
  | fifo
  | charDevice
  | dir
  | blockDevice
  | file
  | symLink
  | socket
  deriving DecidableEq, Repr

/-- The name `.`. -/
def dot : Path := ['.']

/-- The name `..`. -/
def dotdot : Path := ['.', '.']

/-- How a path component is read, as `DirNode::lookup` and `canonicalize` read it:
    `""` and `"."` stay, `".."` goes up, and any other name goes down. -/
def comp (name : Path) : ArceOS.Lib.PathTree.Comp Path :=
  if name = [] ∨ name = dot then .stay else if name = dotdot then .up else .name name

theorem comp_eq_name {a b : Path} (h : comp a = .name b) : b = a ∧ a ≠ [] := by
  unfold comp at h
  split_ifs at h with h₁
  cases h
  exact ⟨rfl, fun h₀ => h₁ (.inl h₀)⟩

/-- The names `""`, `"."` and `".."` are read as no name. -/
theorem comp_ne_name_of_special {name : Path} (hs : name = [] ∨ name = dot ∨ name = dotdot)
    (a : Path) : comp name ≠ .name a := by
  unfold comp
  split_ifs with h₁ h₂ <;> simp_all

theorem comp_of_not_special {name : Path} (hs : ¬(name = [] ∨ name = dot ∨ name = dotdot)) :
    comp name = .name name := by
  unfold comp
  rw [if_neg (fun h => hs (h.elim .inl (.inr ∘ .inl))), if_neg (fun h => hs (.inr (.inr h)))]

/-- A name of a lexical position was there before or is a component read as a name. -/
theorem mem_lexWalk {a : Path} :
    ∀ {q : List Path} {cs : List Path}, a ∈ PathTree.lexWalk q (cs.map comp) →
      a ∈ q ∨ (a ∈ cs ∧ comp a = .name a)
  | q, [], h => .inl h
  | q, c :: cs, h => by
    rw [List.map_cons, PathTree.lexWalk_cons] at h
    rcases mem_lexWalk h with hq | ⟨hc, ha⟩
    · -- a stay keeps the position, an up drops a name, a name adds `c`
      rcases hcomp : comp c with _ | _ | b
      · rw [hcomp, PathTree.lexStep_stay] at hq; exact .inl hq
      · rw [hcomp, PathTree.lexStep_up] at hq; exact .inl (List.dropLast_subset q hq)
      · rw [hcomp, PathTree.lexStep_name, List.mem_append, List.mem_singleton] at hq
        rcases hq with hq | rfl
        · exact .inl hq
        · obtain ⟨rfl, -⟩ := comp_eq_name hcomp
          exact .inr ⟨List.mem_cons_self, hcomp⟩
    · exact .inr ⟨List.mem_cons_of_mem c hc, ha⟩

end ArceOS.Fs
