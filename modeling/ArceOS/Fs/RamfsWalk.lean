import ArceOS.Fs.Ramfs

/-!
# Walking a RAM File System Component by Component

`lookup`, `create` and `remove` interleave `split_path` with one step per name.
This module separates the two: `components` lists the names that `split_path`
peels off a path, and `walk` follows a list of names from a node. Then

- `lookup_eq_walk`: a lookup is the walk over the components of its path;
- `create_eq` and `remove_eq`: a creation or removal walks all components but the
  last, then acts on the last one in the directory reached.

Nodes of other file systems only appear once a RAM file system is mounted, so
the walk is stated for `RamFs Empty`, where every node reference is a RAM node.
-/

namespace ArceOS.Fs.Ramfs

open ArceOS.Lib ArceOS.Lib.Str

variable {ε : Type}

/-! ## §1 Equations of the recursive operations -/

section Equations

variable (extLookup : ε → Path → VfsResult (NodeRef ε))
variable (extCreate : ε → Path → VfsNodeType → VfsResult Unit)
variable (extRemove : ε → Path → VfsResult Unit)
variable {fs : RamFs ε} {i : Nat} {d : DirNode ε} {path name rest : Path}

theorem lookup_file {c : List UInt8} (hi : fs.nodes i = some (.file c)) (path : Path) :
    lookup extLookup fs (.ram i) path = .error .notADirectory := by
  rw [lookup]; simp only [hi]

theorem lookup_last (hi : fs.nodes i = some (.dir d)) (hs : splitPath path = (name, none)) :
    lookup extLookup fs (.ram i) path = d.lookupName i name := by
  rw [lookup]
  simp only [hi]
  split
  · rename_i h; rw [hs] at h; cases h; rfl
  · rename_i h; rw [hs] at h; cases h

theorem lookup_step (hi : fs.nodes i = some (.dir d)) (hs : splitPath path = (name, some rest)) :
    lookup extLookup fs (.ram i) path =
      match d.lookupName i name with
      | .error e => .error e
      | .ok n => lookup extLookup fs n rest := by
  rw [lookup]
  simp only [hi]
  split
  · rename_i h; rw [hs] at h; cases h
  · rename_i h; rw [hs] at h; cases h; rfl

theorem lookup_ext (e : ε) (path : Path) : lookup extLookup fs (.ext e) path = extLookup e path := by
  rw [lookup]

theorem lookup_none (hi : fs.nodes i = none) (path : Path) :
    lookup extLookup fs (.ram i) path = .error .notFound := by
  rw [lookup]; simp only [hi]

theorem splitPath_trimStartMatches (path : Path) :
    splitPath (trimStartMatches '/' path) = splitPath path := by
  simp only [splitPath, trimStartMatches_idem]

/-- `lookup` trims the leading `/`s of its path itself. -/
theorem lookup_trimStartMatches (i : Nat) (path : Path) :
    lookup extLookup fs (.ram i) (trimStartMatches '/' path) = lookup extLookup fs (.ram i) path := by
  have hs := splitPath_trimStartMatches path
  match hi : fs.nodes i with
  | none => rw [lookup_none _ hi, lookup_none _ hi]
  | some (.file c) => rw [lookup_file _ hi, lookup_file _ hi]
  | some (.dir d) =>
    -- both paths split alike, so the two lookups take the same branch
    rcases hsp : splitPath path with ⟨name, _ | rest⟩
    · rw [lookup_last _ hi hsp, lookup_last _ hi (hs.trans hsp)]
    · rw [lookup_step _ hi hsp, lookup_step _ hi (hs.trans hsp)]

theorem create_file {c : List UInt8} (hi : fs.nodes i = some (.file c)) (path : Path)
    (ty : VfsNodeType) : create extCreate fs (.ram i) path ty = (.error .notADirectory, fs) := by
  rw [create]; simp only [hi]

theorem create_last (hi : fs.nodes i = some (.dir d)) (hs : splitPath path = (name, none))
    (ty : VfsNodeType) :
    create extCreate fs (.ram i) path ty =
      if name = [] ∨ name = dot ∨ name = dotdot then (.ok (), fs)
      else createNode fs i d name ty := by
  rw [create]
  simp only [hi]
  split
  · rename_i h; rw [hs] at h; cases h; rfl
  · rename_i h; rw [hs] at h; cases h

theorem create_step (hi : fs.nodes i = some (.dir d)) (hs : splitPath path = (name, some rest))
    (ty : VfsNodeType) :
    create extCreate fs (.ram i) path ty =
      match d.lookupName i name with
      | .error e => (.error e, fs)
      | .ok n => create extCreate fs n rest ty := by
  rw [create]
  simp only [hi]
  split
  · rename_i h; rw [hs] at h; cases h
  · rename_i h; rw [hs] at h; cases h; rfl

theorem remove_file {c : List UInt8} (hi : fs.nodes i = some (.file c)) (path : Path) :
    remove extRemove fs (.ram i) path = (.error .notADirectory, fs) := by
  rw [remove]; simp only [hi]

theorem remove_last (hi : fs.nodes i = some (.dir d)) (hs : splitPath path = (name, none)) :
    remove extRemove fs (.ram i) path =
      if name = [] ∨ name = dot ∨ name = dotdot then (.error .invalidInput, fs)
      else removeNode fs i d name := by
  rw [remove]
  simp only [hi]
  split
  · rename_i h; rw [hs] at h; cases h; rfl
  · rename_i h; rw [hs] at h; cases h

theorem remove_step (hi : fs.nodes i = some (.dir d)) (hs : splitPath path = (name, some rest)) :
    remove extRemove fs (.ram i) path =
      match d.lookupName i name with
      | .error e => (.error e, fs)
      | .ok n => remove extRemove fs n rest := by
  rw [remove]
  simp only [hi]
  split
  · rename_i h; rw [hs] at h; cases h
  · rename_i h; rw [hs] at h; cases h; rfl

end Equations

/-! ## §2 Components -/

/-- The names that `split_path` peels off `path`, one after another. -/
def components (path : Path) : List Path :=
  match h : splitPath path with
  | (name, none) => [name]
  | (name, some rest) => name :: components rest
termination_by path.length
decreasing_by exact splitPath_rest_lt h

theorem components_last {path name : Path} (hs : splitPath path = (name, none)) :
    components path = [name] := by
  rw [components]
  split
  · rename_i h; rw [hs] at h; cases h; rfl
  · rename_i h; rw [hs] at h; cases h

theorem components_step {path name rest : Path} (hs : splitPath path = (name, some rest)) :
    components path = name :: components rest := by
  rw [components]
  split
  · rename_i h; rw [hs] at h; cases h
  · rename_i h; rw [hs] at h; cases h; rfl

theorem components_ne_nil (path : Path) : components path ≠ [] := by
  rcases hs : splitPath path with ⟨name, _ | rest⟩
  · simp [components_last hs]
  · simp [components_step hs]

/-- All components of `path` but the last: the way to the directory that `create`
    and `remove` act in. -/
def parentComponents (path : Path) : List Path := (components path).dropLast

/-- The last component of `path`: the name that `create` and `remove` act on. -/
def lastComponent (path : Path) : Path := (components path).getLast (components_ne_nil path)

theorem parentComponents_last {path name : Path} (hs : splitPath path = (name, none)) :
    parentComponents path = [] := by
  simp [parentComponents, components_last hs]

theorem lastComponent_last {path name : Path} (hs : splitPath path = (name, none)) :
    lastComponent path = name := by
  simp [lastComponent, components_last hs]

theorem parentComponents_step {path name rest : Path} (hs : splitPath path = (name, some rest)) :
    parentComponents path = name :: parentComponents rest := by
  simp only [parentComponents, components_step hs]
  exact List.dropLast_cons_of_ne_nil (components_ne_nil rest)

theorem lastComponent_step {path name rest : Path} (hs : splitPath path = (name, some rest)) :
    lastComponent path = lastComponent rest := by
  simp only [lastComponent, components_step hs]
  exact List.getLast_cons (components_ne_nil rest)

theorem components_eq_append (path : Path) :
    components path = parentComponents path ++ [lastComponent path] :=
  (List.dropLast_append_getLast _).symm

/-! ### Components of a joined path -/

theorem splitPath_nil : splitPath [] = ([], none) := rfl

theorem components_nil : components [] = [[]] := components_last splitPath_nil

/-- The first name of a path holds no `/`. -/
theorem slash_not_mem_splitPath {path name : Path} {rest : Option Path}
    (hs : splitPath path = (name, rest)) : '/' ∉ name := by
  unfold splitPath at hs
  dsimp only at hs
  split at hs
  · rename_i hn
    simp only [Prod.mk.injEq] at hs
    rw [← hs.1]
    exact List.idxOf?_eq_none_iff.mp hn
  · rename_i n hn
    simp only [Prod.mk.injEq] at hs
    rw [← hs.1]
    obtain ⟨hlen, -, hbefore⟩ := List.idxOf?_eq_some_iff.mp hn
    -- every character before the first `/` is another one
    intro hm
    obtain ⟨j, hj, hjs⟩ := List.getElem_of_mem hm
    rw [List.length_take] at hj
    exact hbefore j (by omega) (by simpa [List.getElem_take] using hjs)

/-- No component holds a `/`. -/
theorem slash_not_mem_components (path : Path) : ∀ x ∈ components path, '/' ∉ x := by
  rcases hs : splitPath path with ⟨name, _ | rest⟩
  · rw [components_last hs]
    simpa using slash_not_mem_splitPath hs
  · rw [components_step hs]
    rintro x (_ | ⟨_, hx⟩)
    · exact slash_not_mem_splitPath hs
    · have := splitPath_rest_lt hs
      exact slash_not_mem_components rest x hx
termination_by path.length

/-- A name without `/` ends at the first `/` that follows it. -/
theorem idxOf?_slash_append {a : Path} (ha : '/' ∉ a) (rest : Path) :
    (a ++ '/' :: rest).idxOf? '/' = some a.length := by
  induction a with
  | nil => simp [List.idxOf?_cons]
  | cons x a ih =>
    have hx : x ≠ '/' := fun h => ha (h ▸ List.mem_cons_self)
    simp only [List.cons_append, List.idxOf?_cons, beq_iff_eq, hx, if_false,
      ih (fun h => ha (List.mem_cons_of_mem x h)), Option.map_some, List.length_cons]

/-- A path that starts with a name is not trimmed. -/
theorem trimStartMatches_slash_of_ne {a : Path} (h₀ : a ≠ []) (ha : '/' ∉ a) (rest : Path) :
    trimStartMatches '/' (a ++ rest) = a ++ rest := by
  obtain ⟨x, a, rfl⟩ := List.exists_cons_of_ne_nil h₀
  have hx : x ≠ '/' := fun h => ha (h ▸ List.mem_cons_self)
  simp [trimStartMatches, hx]

/-- **Joining names with `/` and splitting again gives the names back.** -/
theorem components_intercalate :
    ∀ {ns : List Path}, ns ≠ [] → (∀ a ∈ ns, a ≠ [] ∧ '/' ∉ a) →
      components (List.intercalate ['/'] ns) = ns
  | [], h, _ => absurd rfl h
  | [a], _, hns => by
    obtain ⟨h₀, ha⟩ := hns a List.mem_cons_self
    have hs : splitPath a = (a, none) := by
      have ht := trimStartMatches_slash_of_ne h₀ ha []
      rw [List.append_nil] at ht
      simp [splitPath, ht, List.idxOf?_eq_none_iff.mpr ha]
    rw [List.intercalate_singleton, components_last hs]
  | a :: b :: ns, _, hns => by
    obtain ⟨h₀, ha⟩ := hns a List.mem_cons_self
    have hs : splitPath (a ++ ['/'] ++ List.intercalate ['/'] (b :: ns)) =
        (a, some (List.intercalate ['/'] (b :: ns))) := by
      rw [List.append_assoc, splitPath, trimStartMatches_slash_of_ne h₀ ha]
      simp [idxOf?_slash_append ha]
    rw [List.intercalate_cons_cons, components_step hs,
      components_intercalate (List.cons_ne_nil b ns) (fun x hx => hns x (List.mem_cons_of_mem a hx))]

/-! ## §3 Walks -/

section Walk

variable (fs : RamFs Empty)

/-- Follow the names `cs` from `node`, one `lookupName` in each directory passed. -/
def walk : NodeRef Empty → List Path → VfsResult (NodeRef Empty)
  | n, [] => .ok n
  | .ext e, _ :: _ => e.elim
  | .ram i, c :: cs =>
    match fs.nodes i with
    | some (.dir d) =>
      match d.lookupName i c with
      | .error e => .error e
      | .ok n => walk n cs
    | some (.file _) => .error .notADirectory
    | none => .error .notFound

/-- `create` once the directory is reached: what `DirNode::create` does with the
    last name. -/
def createAt (n : NodeRef Empty) (name : Path) (ty : VfsNodeType) : VfsResult Unit × RamFs Empty :=
  match n with
  | .ext e => e.elim
  | .ram i =>
    match fs.nodes i with
    | some (.dir d) =>
      if name = [] ∨ name = dot ∨ name = dotdot then (.ok (), fs)
      else createNode fs i d name ty
    | some (.file _) => (.error .notADirectory, fs)
    | none => (.error .notFound, fs)

/-- `remove` once the directory is reached: what `DirNode::remove` does with the
    last name. -/
def removeAt (n : NodeRef Empty) (name : Path) : VfsResult Unit × RamFs Empty :=
  match n with
  | .ext e => e.elim
  | .ram i =>
    match fs.nodes i with
    | some (.dir d) =>
      if name = [] ∨ name = dot ∨ name = dotdot then (.error .invalidInput, fs)
      else removeNode fs i d name
    | some (.file _) => (.error .notADirectory, fs)
    | none => (.error .notFound, fs)

@[simp] theorem walk_nil (n : NodeRef Empty) : walk fs n [] = .ok n := rfl

theorem walk_cons_dir {i : Nat} {d : DirNode Empty} (hi : fs.nodes i = some (.dir d))
    (c : Path) (cs : List Path) :
    walk fs (.ram i) (c :: cs) =
      match d.lookupName i c with
      | .error e => .error e
      | .ok n => walk fs n cs := by
  simp [walk, hi]

theorem walk_cons_file {i : Nat} {content : List UInt8} (hi : fs.nodes i = some (.file content))
    (c : Path) (cs : List Path) : walk fs (.ram i) (c :: cs) = .error .notADirectory := by
  simp [walk, hi]

theorem walk_cons_none {i : Nat} (hi : fs.nodes i = none) (c : Path) (cs : List Path) :
    walk fs (.ram i) (c :: cs) = .error .notFound := by
  simp [walk, hi]

/-- Walking two lists of names one after the other is walking their concatenation. -/
theorem walk_append (n : NodeRef Empty) (cs cs' : List Path) :
    walk fs n (cs ++ cs') =
      match walk fs n cs with
      | .error e => .error e
      | .ok m => walk fs m cs' := by
  induction cs generalizing n with
  | nil => rfl
  | cons c cs ih =>
    rcases n with i | e
    · rcases hi : fs.nodes i with _ | _ | d
      · simp [walk_cons_none fs hi]
      · simp [walk_cons_file fs hi]
      · rw [List.cons_append, walk_cons_dir fs hi, walk_cons_dir fs hi]
        cases d.lookupName i c with
        | error e => rfl
        | ok m => exact ih m
    · exact e.elim

variable (extLookup : Empty → Path → VfsResult (NodeRef Empty))
variable (extCreate : Empty → Path → VfsNodeType → VfsResult Unit)
variable (extRemove : Empty → Path → VfsResult Unit)

/-- **A lookup walks the components of its path.** -/
theorem lookup_eq_walk (n : NodeRef Empty) (path : Path) :
    lookup extLookup fs n path = walk fs n (components path) := by
  rcases n with i | e
  · rcases hi : fs.nodes i with _ | _ | d
    · rw [lookup]; simp only [hi]
      obtain ⟨c, cs, hcs⟩ := List.exists_cons_of_ne_nil (components_ne_nil path)
      rw [hcs, walk_cons_none fs hi]
    · rw [lookup_file extLookup hi]
      obtain ⟨c, cs, hcs⟩ := List.exists_cons_of_ne_nil (components_ne_nil path)
      rw [hcs, walk_cons_file fs hi]
    · rcases hs : splitPath path with ⟨name, _ | rest⟩
      · rw [lookup_last extLookup hi hs, components_last hs, walk_cons_dir fs hi]
        cases d.lookupName i name <;> rfl
      · rw [lookup_step extLookup hi hs, components_step hs, walk_cons_dir fs hi]
        cases d.lookupName i name with
        | error e => rfl
        | ok m =>
          -- the rest of the path is shorter: the lookup from `m` is a walk too
          have := splitPath_rest_lt hs
          exact lookup_eq_walk m rest
  · exact e.elim
termination_by path.length

/-- **A creation walks to the directory of its last component, then acts there.** -/
theorem create_eq (n : NodeRef Empty) (path : Path) (ty : VfsNodeType) :
    create extCreate fs n path ty =
      match walk fs n (parentComponents path) with
      | .error e => (.error e, fs)
      | .ok m => createAt fs m (lastComponent path) ty := by
  rcases n with i | e
  · rcases hi : fs.nodes i with _ | _ | d
    · rw [create]; simp only [hi]
      rcases hp : parentComponents path with _ | ⟨c, cs⟩
      · simp [createAt, hi]
      · simp [walk_cons_none fs hi]
    · rw [create_file extCreate hi]
      rcases hp : parentComponents path with _ | ⟨c, cs⟩
      · simp [createAt, hi]
      · simp [walk_cons_file fs hi]
    · rcases hs : splitPath path with ⟨name, _ | rest⟩
      · rw [create_last extCreate hi hs, parentComponents_last hs, lastComponent_last hs]
        simp [createAt, hi]
      · rw [create_step extCreate hi hs, parentComponents_step hs, lastComponent_step hs,
          walk_cons_dir fs hi]
        cases d.lookupName i name with
        | error e => rfl
        | ok m =>
          have := splitPath_rest_lt hs
          exact create_eq m rest ty
  · exact e.elim
termination_by path.length

/-- **A removal walks to the directory of its last component, then acts there.** -/
theorem remove_eq (n : NodeRef Empty) (path : Path) :
    remove extRemove fs n path =
      match walk fs n (parentComponents path) with
      | .error e => (.error e, fs)
      | .ok m => removeAt fs m (lastComponent path) := by
  rcases n with i | e
  · rcases hi : fs.nodes i with _ | _ | d
    · rw [remove]; simp only [hi]
      rcases hp : parentComponents path with _ | ⟨c, cs⟩
      · simp [removeAt, hi]
      · simp [walk_cons_none fs hi]
    · rw [remove_file extRemove hi]
      rcases hp : parentComponents path with _ | ⟨c, cs⟩
      · simp [removeAt, hi]
      · simp [walk_cons_file fs hi]
    · rcases hs : splitPath path with ⟨name, _ | rest⟩
      · rw [remove_last extRemove hi hs, parentComponents_last hs, lastComponent_last hs]
        simp [removeAt, hi]
      · rw [remove_step extRemove hi hs, parentComponents_step hs, lastComponent_step hs,
          walk_cons_dir fs hi]
        cases d.lookupName i name with
        | error e => rfl
        | ok m =>
          have := splitPath_rest_lt hs
          exact remove_eq m rest
  · exact e.elim
termination_by path.length

end Walk

end ArceOS.Fs.Ramfs
