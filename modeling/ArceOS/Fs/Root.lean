import ArceOS.Fs.RamfsWalk
import ArceOS.Lib.FirstMax

/-!
# The Root Directory and its Mount Table

Model of `RootDirectory` (`axfs/src/root.rs`). The root directory holds the main
file system and a list of mount points; every path operation goes through
`lookup_mounted_fs`, which trims the path, strips each leading `./`, picks the
mount point whose path (less its first `/`) is the longest prefix of what is left,
and hands the rest of the path to that file system's root directory.

File systems and their nodes are parameters: `F` stands for `Arc<dyn VfsOps>`,
`rootDir` for `VfsOps::root_dir`, and `N` for `VfsNodeRef`, whose operations are
`lookupAt`, `createAt` and `removeAt`.

Lengths are counted in characters where the source counts bytes. The two agree on
every comparison made here: `max_len` is only compared between mount paths that
are both prefixes of the same path, and `&path[max_len..]` cuts that path right
after the prefix.

## Main definitions

- `RootDirectory.lookupMountedFs`: the routing of `lookup_mounted_fs`;
- `RootDirectory.mount`: the checks of `RootDirectory::mount`;
- `canonRoute`: the lexical routing of a path, for comparison with the code's.

## Main results

- `rootDirectory_lookup_eq_canonLookup`: a path of names is routed as lexical routing
  routes it when every mount path that is a prefix of it ends at one of its component
  boundaries;
- `rootDirectory_lookup_routes_by_raw_prefix`: otherwise it is not: `/devx/a` is handed to
  devfs, and `..` is resolved by the file systems, past the mount table.
-/

namespace ArceOS.Fs.Root

open ArceOS.Lib ArceOS.Lib.Str ArceOS.Lib.FirstMax

variable {F N α : Type}

/-! ## §1 Mount points and `lookup_mounted_fs` -/

/-- `MountPoint`: a path and the file system mounted there. -/
structure MountPoint (F : Type) where
  path : Path
  fs : F

/-- `RootDirectory`: the main file system and the mount points, in mounting order. -/
structure RootDirectory (F : Type) where
  mainFs : F
  mounts : List (MountPoint F)

namespace RootDirectory

/-- `RootDirectory::new`. -/
def new (mainFs : F) : RootDirectory F := ⟨mainFs, []⟩

/-- One turn of the loop of `lookup_mounted_fs` over the mount point `mp` at index
    `i`: it becomes the match when its path, less the first `/`, starts the path
    and is longer than the best match so far. -/
def matchStep (path : Path) (acc : Nat × Nat) (mi : MountPoint F × Nat) : Nat × Nat :=
  if startsWith path (mi.1.path.drop 1) = true ∧ mi.1.path.length - 1 > acc.2 then
    (mi.2, mi.1.path.length - 1)
  else acc

/-- The loop of `lookup_mounted_fs`: the index and the length of the longest match. -/
def longestMatch (mounts : List (MountPoint F)) (path : Path) : Nat × Nat :=
  mounts.zipIdx.foldl (matchStep path) (0, 0)

theorem length_stripPrefix_dot_slash {path rest : Path}
    (h : stripPrefix (trimMatches '/' path) ['.', '/'] = some rest) : rest.length < path.length := by
  have hl := length_stripPrefix h
  have ht := length_trimMatches_le '/' path
  have hp : ['.', '/'].isPrefixOf (trimMatches '/' path) = true := by
    unfold stripPrefix at h
    split at h
    · assumption
    · cases h
  have h2 : 2 ≤ (trimMatches '/' path).length := by
    have := List.IsPrefix.length_le (List.isPrefixOf_iff_prefix.mp hp)
    simpa using this
  simp only [List.length_cons, List.length_nil] at hl
  omega

/-- What `lookup_mounted_fs` does with a trimmed path that does not start with `./`:
    the longest match takes the rest of the path, or the main file system the
    whole of it. -/
def dispatch (rd : RootDirectory F) (path : Path) (f : F → Path → VfsResult α) : VfsResult α :=
  let (idx, maxLen) := longestMatch rd.mounts path
  if maxLen = 0 then f rd.mainFs path -- not matched any mount point
  else
    match rd.mounts[idx]? with
    | some mp => f mp.fs (path.drop maxLen) -- matched at `idx`
    -- `idx` is the index of the mount point that set `max_len`
    | none => f rd.mainFs path

/-- `lookup_mounted_fs`: route `path` to a file system and call `f` on it with the
    rest of the path. -/
def lookupMountedFs (rd : RootDirectory F) (path : Path) (f : F → Path → VfsResult α) :
    VfsResult α :=
  match h : stripPrefix (trimMatches '/' path) ['.', '/'] with
  | some rest => lookupMountedFs rd rest f
  | none => rd.dispatch (trimMatches '/' path) f
termination_by path.length
decreasing_by exact length_stripPrefix_dot_slash h

theorem lookupMountedFs_strip {rd : RootDirectory F} {path rest : Path}
    (h : stripPrefix (trimMatches '/' path) ['.', '/'] = some rest) (f : F → Path → VfsResult α) :
    rd.lookupMountedFs path f = rd.lookupMountedFs rest f := by
  rw [lookupMountedFs]
  split
  · rename_i h'; rw [h] at h'; cases h'; rfl
  · rename_i h'; rw [h] at h'; cases h'

theorem lookupMountedFs_dispatch {rd : RootDirectory F} {path : Path}
    (h : stripPrefix (trimMatches '/' path) ['.', '/'] = none) (f : F → Path → VfsResult α) :
    rd.lookupMountedFs path f = rd.dispatch (trimMatches '/' path) f := by
  rw [lookupMountedFs]
  split
  · rename_i h'; rw [h] at h'; cases h'
  · rfl

/-- `lookup_mounted_fs` reads its path only once trimmed. -/
theorem lookupMountedFs_congr {rd : RootDirectory F} {path path' : Path}
    (h : trimMatches '/' path = trimMatches '/' path') (f : F → Path → VfsResult α) :
    rd.lookupMountedFs path f = rd.lookupMountedFs path' f := by
  cases hs : stripPrefix (trimMatches '/' path) ['.', '/'] with
  | none =>
    rw [lookupMountedFs_dispatch hs, lookupMountedFs_dispatch (h ▸ hs), h]
  | some rest =>
    exact (lookupMountedFs_strip hs f).trans (lookupMountedFs_strip (h ▸ hs) f).symm

/-! ## §2 The operations of `VfsNodeOps for RootDirectory` -/

variable (rootDir : F → N)

/-- `RootDirectory::lookup`. -/
def lookup (lookupAt : N → Path → VfsResult N) (rd : RootDirectory F) (path : Path) :
    VfsResult N :=
  rd.lookupMountedFs path fun fs restPath => lookupAt (rootDir fs) restPath

/-- `RootDirectory::create`: a mount point itself already exists. -/
def create (createAt : N → Path → VfsNodeType → VfsResult Unit) (rd : RootDirectory F)
    (path : Path) (ty : VfsNodeType) : VfsResult Unit :=
  rd.lookupMountedFs path fun fs restPath =>
    if restPath.isEmpty then .ok () else createAt (rootDir fs) restPath ty

/-- `RootDirectory::remove`: a mount point cannot be removed. -/
def remove (removeAt : N → Path → VfsResult Unit) (rd : RootDirectory F) (path : Path) :
    VfsResult Unit :=
  rd.lookupMountedFs path fun fs restPath =>
    if restPath.isEmpty then .error .permissionDenied else removeAt (rootDir fs) restPath

/-- `RootDirectory::contains`. -/
def contains (rd : RootDirectory F) (path : Path) : Bool := rd.mounts.any (·.path == path)

/-- `RootDirectory::mount`: the checks on the mount path, then `attach` (creating
    the mount point in the main file system, looking it up and calling
    `VfsOps::mount`), then the new mount point is added. -/
def mount (attach : Path → F → VfsResult Unit) (rd : RootDirectory F) (path : Path) (fs : F) :
    VfsResult (RootDirectory F) :=
  if path = ['/'] then .error .invalidInput -- cannot mount root filesystem
  else if !startsWith path ['/'] then .error .invalidInput -- must start with '/'
  else if rd.mounts.any (·.path == path) then .error .invalidInput -- already exists
  else
    match attach path fs with
    | .error e => .error e
    | .ok () => .ok { rd with mounts := rd.mounts ++ [⟨path, fs⟩] }

/-- `RootDirectory::_umount`. -/
def umount (rd : RootDirectory F) (path : Path) : RootDirectory F :=
  { rd with mounts := rd.mounts.filter (·.path != path) }

end RootDirectory

/-! ## §3 Lexical routing -/

/-- The components of a path as `canonicalize` reads them: split at `/`, with `""`
    and `"."` dropped and each name cancelled by a following `".."`. -/
def canonComps (p : Path) : List Path := PathTree.lexWalk [] ((p.splitOn '/').map comp)

/-- The mount point `mp` is a component prefix of the components `cs`. -/
def canonMatches (cs : List Path) (mp : MountPoint F) : Bool := (canonComps mp.path).isPrefixOf cs

/-- The mount point with the longest path that is a component prefix of `cs`. -/
def canonMount (rd : RootDirectory F) (cs : List Path) : Option (MountPoint F) :=
  rd.mounts.find? fun mp =>
    canonMatches cs mp && rd.mounts.all fun mp' =>
      !canonMatches cs mp' || decide ((canonComps mp'.path).length ≤ (canonComps mp.path).length)

/-- Lexical routing of a path: the file system of the longest mount point that is a
    component prefix of the path's canonical components, and the components after
    it (the main file system and all components when none is). -/
def canonRoute (rd : RootDirectory F) (p : Path) : F × Path :=
  let cs := canonComps p
  match canonMount rd cs with
  | some mp => (mp.fs, List.intercalate ['/'] (cs.drop (canonComps mp.path).length))
  | none => (rd.mainFs, List.intercalate ['/'] cs)

/-- Lookup by lexical routing: the rest of the canonical path, looked up from the
    root directory of the file system it is routed to. -/
def canonLookup (rootDir : F → N) (lookupAt : N → Path → VfsResult N) (rd : RootDirectory F)
    (p : Path) : VfsResult N :=
  lookupAt (rootDir (canonRoute rd p).1) (canonRoute rd p).2

/-! ## §4 What the loop of `lookup_mounted_fs` finds -/

namespace RootDirectory

/-- The length of the match of `mp` in the loop of `lookup_mounted_fs`: its path
    less the first `/` when that starts `path`, and `0` otherwise. -/
def matchLen (path : Path) (mp : MountPoint F) : Nat :=
  if startsWith path (mp.path.drop 1) = true then mp.path.length - 1 else 0

/-- The loop keeps the first mount point of largest match length. -/
theorem matchStep_eq (path : Path) : matchStep (F := F) path = firstMaxStep (matchLen path) := by
  funext acc mi
  unfold matchStep firstMaxStep matchLen
  by_cases h : startsWith path (mi.1.path.drop 1) = true
  · simp only [h, true_and, if_true]
  · -- a mount point that does not match scores `0` and never beats the best so far
    simp only [h, false_and, if_false, Bool.false_eq_true, gt_iff_lt, Nat.not_lt_zero]

/-- `lookup_mounted_fs` hands the path, less the match, to the first mount point of
    longest match, or the whole path to the main file system when none matches. -/
theorem dispatch_eq (rd : RootDirectory F) (path : Path) (f : F → Path → VfsResult α) :
    rd.dispatch path f =
      match firstMax (matchLen path) rd.mounts with
      | some mp => f mp.fs (path.drop (matchLen path mp))
      | none => f rd.mainFs path := by
  unfold dispatch
  rw [longestMatch, matchStep_eq]
  rcases firstMax_of_scan (s := matchLen path) rd.mounts with ⟨h0, hnone⟩ |
    ⟨hpos, mp, hidx, hmax, hlen⟩
  · rw [hnone]
    generalize List.foldl _ _ _ = r at h0 ⊢
    obtain ⟨idx, maxLen⟩ := r
    dsimp only at h0 ⊢
    rw [if_pos h0]
  · rw [hmax]
    generalize List.foldl _ _ _ = r at hpos hidx hlen ⊢
    obtain ⟨idx, maxLen⟩ := r
    dsimp only at hpos hidx hlen ⊢
    rw [if_neg (Nat.pos_iff_ne_zero.mp hpos), hidx, hlen]

/-- `lookup_mounted_fs` calls `f` once, on the file system and the rest it routes to. -/
theorem dispatch_apply (rd : RootDirectory F) (path : Path) (f : F → Path → VfsResult α)
    (fs : F) (rest : Path) (h : rd.dispatch path (fun fs rest => .ok (fs, rest)) = .ok (fs, rest)) :
    rd.dispatch path f = f fs rest := by
  rw [dispatch_eq] at h ⊢
  cases hf : firstMax (matchLen path) rd.mounts with
  | none =>
    simp only [hf, Except.ok.injEq, Prod.mk.injEq] at h
    dsimp only
    rw [h.1, h.2]
  | some mp =>
    simp only [hf, Except.ok.injEq, Prod.mk.injEq] at h
    dsimp only
    rw [h.1, h.2]

end RootDirectory

/-! ## §5 Canonical paths are routed lexically

On a path made of names only, with mount paths made of names only, the raw
prefix test of `lookup_mounted_fs` agrees with the component prefix test as soon
as no mount path ends inside a component of the path; the longest raw match is
then the longest component match, and the rest of the path is the rest of its
components. -/

/-- A name: not empty, not `.` or `..`, and with no `/`. -/
def IsName (a : Path) : Prop := '/' ∉ a ∧ comp a = .name a

instance : DecidablePred IsName := fun a => inferInstanceAs (Decidable ('/' ∉ a ∧ comp a = .name a))

/-- The absolute path of the names `ns`: `/` followed by the names joined by `/`. -/
def joinPath (ns : List Path) : Path := '/' :: List.intercalate ['/'] ns

/-- Every mount path is the absolute path of one or more names. -/
def CanonicalMounts (rd : RootDirectory F) : Prop :=
  ∀ mp ∈ rd.mounts, ∃ ms, ms ≠ [] ∧ (∀ a ∈ ms, IsName a) ∧ mp.path = joinPath ms

/-- A mount path that starts the path of the names `ns` as a string ends at one of
    its component boundaries. -/
def MatchesAtBoundary (rd : RootDirectory F) (ns : List Path) : Prop :=
  ∀ mp ∈ rd.mounts, startsWith (joinPath ns) mp.path = true → canonMatches ns mp = true

section Names

variable {ns ms : List Path}

theorem segments_of_isName (h : ∀ a ∈ ns, IsName a) : Segments '/' ns := fun a ha =>
  ⟨(comp_eq_name (h a ha).2).2, (h a ha).1⟩

theorem canonComps_joinPath (h : ∀ a ∈ ns, IsName a) : canonComps (joinPath ns) = ns := by
  unfold canonComps joinPath
  cases ns with
  | nil => rfl
  | cons a ns =>
    -- the leading `/` splits off an empty first component, which stays
    have hsplit : ('/' :: List.intercalate ['/'] (a :: ns)).splitOn '/' = [] :: a :: ns := by
      have hcons : '/' :: List.intercalate ['/'] (a :: ns) = List.intercalate ['/'] ([] :: a :: ns) := by
        simp
      rw [hcons]
      apply List.splitOn_intercalate
      · intro l hl
        rcases List.mem_cons.mp hl with rfl | hl
        · exact List.not_mem_nil
        · exact (h l hl).1
      · exact List.cons_ne_nil _ _
    have hnames : (a :: ns).map comp = (a :: ns).map .name :=
      List.map_congr_left fun b hb => (h b hb).2
    have hstay : comp [] = .stay := if_pos (.inl rfl)
    rw [hsplit, List.map_cons, hnames, hstay, PathTree.lexWalk_cons, PathTree.lexStep_stay,
      PathTree.lexWalk_names, List.nil_append]

theorem trimMatches_joinPath (h : ∀ a ∈ ns, IsName a) :
    trimMatches '/' (joinPath ns) = List.intercalate ['/'] ns :=
  trimMatches_cons_intercalate (segments_of_isName h)

/-- A path of names does not start with `./`. -/
theorem stripPrefix_dot_slash_intercalate (h : ∀ a ∈ ns, IsName a) :
    stripPrefix (List.intercalate ['/'] ns) ['.', '/'] = none := by
  unfold stripPrefix
  rw [if_neg]
  intro hp
  have hhead := head_of_prefix_intercalate (segments_of_isName h) (List.isPrefixOf_iff_prefix.mp hp)
  cases ns with
  | nil => simp at hhead
  | cons a ns =>
    obtain rfl : a = ['.'] := Option.some.inj hhead
    -- but `.` is not a name
    have hdot := (h ['.'] List.mem_cons_self).2
    simp [comp, dot] at hdot

theorem canonMatches_joinPath {mp : MountPoint F} (hms : ∀ a ∈ ms, IsName a)
    (hp : mp.path = joinPath ms) : canonMatches ns mp = decide (ms <+: ns) := by
  rw [canonMatches, hp, canonComps_joinPath hms, Bool.eq_iff_iff, decide_eq_true_iff]
  exact List.isPrefixOf_iff_prefix

/-- For a mount path of names `ms`, the raw match against a path of names `ns` is
    the join of `ms` when `ms` is a prefix of `ns`, provided the raw test stops at
    component boundaries. -/
theorem matchLen_joinPath {mp : MountPoint F} (hns : ∀ a ∈ ns, IsName a) (hms : ∀ a ∈ ms, IsName a)
    (hp : mp.path = joinPath ms)
    (hb : startsWith (joinPath ns) mp.path = true → canonMatches ns mp = true) :
    RootDirectory.matchLen (List.intercalate ['/'] ns) mp =
      if ms <+: ns then (List.intercalate ['/'] ms).length else 0 := by
  have hcanon : canonMatches ns mp = decide (ms <+: ns) := canonMatches_joinPath hms hp
  have hraw : startsWith (List.intercalate ['/'] ns) (mp.path.drop 1) = true ↔ ms <+: ns := by
    constructor
    · intro hs
      have hs' : startsWith (joinPath ns) mp.path = true := by
        rw [hp, joinPath, List.drop_one, List.tail_cons] at hs
        rw [hp, joinPath, joinPath, startsWith, List.isPrefixOf_cons_cons_self]
        exact hs
      simpa [hcanon] using hb hs'
    · rintro ⟨rs, rfl⟩
      rw [hp, joinPath, List.drop_one, List.tail_cons]
      exact startsWith_intercalate_append '/' ms rs
  unfold RootDirectory.matchLen
  by_cases hm : ms <+: ns
  · rw [if_pos (hraw.mpr hm), if_pos hm, hp, joinPath, List.length_cons, Nat.add_sub_cancel]
  · rw [if_neg (mt hraw.mp hm), if_neg hm]

/-- The mount point of the lexical routing is a mount point that matches. -/
theorem canonMount_matches {rd : RootDirectory F} {cs : List Path} {mp : MountPoint F}
    (h : canonMount rd cs = some mp) : canonMatches cs mp = true ∧ mp ∈ rd.mounts := by
  have hp := List.find?_some h
  simp only [Bool.and_eq_true] at hp
  exact ⟨hp.1, List.mem_of_find?_eq_some h⟩

/-- On a path of names, the longest raw match of the loop is the longest component
    match. -/
theorem canonMount_eq_firstMax {rd : RootDirectory F} (hm : CanonicalMounts rd)
    (hns : ∀ a ∈ ns, IsName a) (hb : MatchesAtBoundary rd ns) :
    canonMount rd ns = firstMax (RootDirectory.matchLen (List.intercalate ['/'] ns)) rd.mounts := by
  unfold canonMount firstMax
  apply List.find?_congr
  intro x hx
  obtain ⟨msx, hmsx, hnx, hpx⟩ := hm x hx
  rw [canonMatches_joinPath hnx hpx, matchLen_joinPath hns hnx hpx (hb x hx)]
  by_cases hx' : msx <+: ns
  · -- `x` matches: both sides ask that no matching mount point be longer
    have hpos := length_intercalate_pos (segments_of_isName hnx) hmsx
    rw [if_pos hx', decide_eq_true hx', decide_eq_true hpos, Bool.true_and, Bool.true_and,
      Bool.eq_iff_iff, List.all_eq_true, List.all_eq_true]
    apply forall₂_congr
    intro y hy
    obtain ⟨msy, -, hny, hpy⟩ := hm y hy
    rw [canonMatches_joinPath hny hpy, matchLen_joinPath hns hny hpy (hb y hy), hpx, hpy,
      canonComps_joinPath hnx, canonComps_joinPath hny]
    by_cases hy' : msy <+: ns
    · have hle := length_intercalate_le_iff (segments_of_isName hns) hy' hx'
      simp [hy', hle]
    · simp [hy']
  · simp [hx']

/-- `lookup_mounted_fs` on the path of names `ns` calls `f` on the file system of
    the lexical routing, with the rest of the path up to leading `/`s. -/
theorem lookupMountedFs_joinPath {rd : RootDirectory F} (hm : CanonicalMounts rd)
    (hns : ∀ a ∈ ns, IsName a) (hb : MatchesAtBoundary rd ns) (f : F → Path → VfsResult α) :
    ∃ rest, trimStartMatches '/' rest = (canonRoute rd (joinPath ns)).2 ∧
      rd.lookupMountedFs (joinPath ns) f = f (canonRoute rd (joinPath ns)).1 rest := by
  have hseg := segments_of_isName hns
  have htrim := trimMatches_joinPath hns
  have hstrip : stripPrefix (trimMatches '/' (joinPath ns)) ['.', '/'] = none := by
    rw [htrim]
    exact stripPrefix_dot_slash_intercalate hns
  rw [RootDirectory.lookupMountedFs_dispatch hstrip, htrim, RootDirectory.dispatch_eq,
    ← canonMount_eq_firstMax hm hns hb]
  dsimp only [canonRoute]
  rw [canonComps_joinPath hns]
  cases hc : canonMount rd ns with
  | none => exact ⟨_, trimStartMatches_of_head? (head?_intercalate hseg), rfl⟩
  | some mp =>
    dsimp only
    -- the mount point found matches, so its names are a prefix of the path's
    obtain ⟨hmatch, hmem⟩ := canonMount_matches hc
    obtain ⟨ms, hms, hnm, hp⟩ := hm mp hmem
    rw [canonMatches_joinPath hnm hp, decide_eq_true_iff] at hmatch
    obtain ⟨rs, rfl⟩ := hmatch
    rw [matchLen_joinPath hns hnm hp (hb mp hmem), if_pos (List.prefix_append ms rs),
      drop_intercalate_append '/' hms rs, hp, canonComps_joinPath hnm, List.drop_left]
    refine ⟨_, ?_, rfl⟩
    by_cases hr : rs = []
    · subst hr
      rfl
    · have hrs : Segments '/' rs := fun a ha => hseg a (List.mem_append_right _ ha)
      rw [if_neg hr, trimStartMatches_cons_self, trimStartMatches_of_head? (head?_intercalate hrs)]

end Names

/-- A path made of names is looked up as lexical routing looks it up, when mount
    paths are made of names and none of them ends inside a component of the path,
    provided each file system's lookup ignores leading `/`s. -/
theorem rootDirectory_lookup_eq_canonLookup (rootDir : F → N) (lookupAt : N → Path → VfsResult N)
    (hslash : ∀ fs q, lookupAt (rootDir fs) (trimStartMatches '/' q) = lookupAt (rootDir fs) q)
    {rd : RootDirectory F} (hm : CanonicalMounts rd) {ns : List Path} (hns : ∀ a ∈ ns, IsName a)
    (hb : MatchesAtBoundary rd ns) :
    rd.lookup rootDir lookupAt (joinPath ns) = canonLookup rootDir lookupAt rd (joinPath ns) := by
  obtain ⟨rest, htrim, hroute⟩ :=
    lookupMountedFs_joinPath hm hns hb fun fs restPath => lookupAt (rootDir fs) restPath
  rw [RootDirectory.lookup, hroute, canonLookup, ← htrim, hslash]

/-! ## §6 A system as `init_rootfs` builds it

The main file system and devfs are seen through their lookups only, as external
nodes of the ramfs model: the main root `0` holds the directories `dev` (`3`) and
`tmp` (`4`) that mounting created, and the devfs root `1` holds `null` (`2`). -/

open Ramfs (NodeRef RamFs)

/-- The lookups of the main file system and devfs, which trim the path first. -/
def stubLookup (e : Nat) (path : Path) : VfsResult (NodeRef Nat) :=
  let p := trimMatches '/' path
  if p = [] then .ok (.ext e)
  else if e = 0 ∧ p = "dev".toList then .ok (.ext 3)
  else if e = 0 ∧ p = "tmp".toList then .ok (.ext 4)
  else if e = 1 ∧ p = "null".toList then .ok (.ext 2)
  else .error .notFound

/-- The ramfs at `/tmp`: `RamFileSystem::mount` links its root to the parent of the
    mount point, the main root. -/
def tmpFs : RamFs Nat := RamFs.new.mount (some (.ext 0))

/-- The root directory: the main file system, devfs at `/dev`, the ramfs at `/tmp`;
    a file system is named by its root node. -/
def sampleRoot : RootDirectory (NodeRef Nat) :=
  ⟨.ext 0, [⟨"/dev".toList, .ext 1⟩, ⟨"/tmp".toList, .ram 0⟩]⟩

/-- Lookup from any node of the system. -/
def sampleLookup : NodeRef Nat → Path → VfsResult (NodeRef Nat) := Ramfs.lookup stubLookup tmpFs

theorem sampleLookup_trimStartMatches (n : NodeRef Nat) (q : Path) :
    sampleLookup (id n) (trimStartMatches '/' q) = sampleLookup (id n) q := by
  cases n with
  | ram i => exact Ramfs.lookup_trimStartMatches stubLookup i q
  | ext e =>
    simp only [id, sampleLookup, Ramfs.lookup_ext, stubLookup, trimMatches_trimStartMatches]

theorem sampleRoot_canonical : CanonicalMounts sampleRoot := by
  intro mp hmp
  simp only [sampleRoot, List.mem_cons, List.not_mem_nil, or_false] at hmp
  rcases hmp with rfl | rfl
  · exact ⟨["dev".toList], List.cons_ne_nil _ _, by decide, rfl⟩
  · exact ⟨["tmp".toList], List.cons_ne_nil _ _, by decide, rfl⟩

-- `/dev/null` ends its mount point at a component boundary, so it is routed lexically
example :
    sampleRoot.lookup id sampleLookup (joinPath ["dev".toList, "null".toList]) =
      canonLookup id sampleLookup sampleRoot (joinPath ["dev".toList, "null".toList]) :=
  rootDirectory_lookup_eq_canonLookup id sampleLookup sampleLookup_trimStartMatches
    sampleRoot_canonical (by decide) (by unfold MatchesAtBoundary; decide)

theorem tmpFs_root : tmpFs.nodes 0 = some (.dir ⟨some (.ext 0), OrdMap.empty⟩) := rfl

/-- `..` at the root of the ramfs goes to the main root, which has no `dev/null`. -/
theorem sampleLookup_dotdot_devNull :
    sampleLookup (.ram 0) "../dev/null".toList = .error .notFound := by
  have hs : Ramfs.splitPath "../dev/null".toList = ("..".toList, some "dev/null".toList) := by
    decide
  rw [sampleLookup, Ramfs.lookup_step stubLookup tmpFs_root hs]
  have hup : Ramfs.DirNode.lookupName ⟨some (.ext 0), OrdMap.empty⟩ 0 "..".toList =
      (.ok (.ext 0) : VfsResult (NodeRef Nat)) := by decide
  rw [hup]
  exact (Ramfs.lookup_ext stubLookup 0 _).trans (by decide)

theorem sampleRoot_lookup_tmp : sampleRoot.lookup id sampleLookup "/tmp/".toList = .ok (.ram 0) := by
  rw [RootDirectory.lookup, RootDirectory.lookupMountedFs_dispatch (by decide),
    RootDirectory.dispatch_apply _ _ _ (.ram 0) [] (by decide), id, sampleLookup,
    Ramfs.lookup_last stubLookup tmpFs_root Ramfs.splitPath_nil]
  decide

theorem sampleRoot_lookup_devNull :
    sampleRoot.lookup id sampleLookup "/dev/null".toList = .ok (.ext 2) := by
  rw [RootDirectory.lookup, RootDirectory.lookupMountedFs_dispatch (by decide),
    RootDirectory.dispatch_apply _ _ _ (.ext 1) "/null".toList (by decide),
    id, sampleLookup, Ramfs.lookup_ext]
  decide

/-- `..` at the root of the ramfs at `/tmp` follows the parent link that
    `RamFileSystem::mount` set, into the main file system and past the mount table:
    `/tmp/../dev/null` is looked up as `dev/null` of the main file system, which has
    no `null`, while lexical routing takes it to devfs, as `/dev/null` is taken. -/
theorem rootDirectory_lookup_dotdot_leaves_mount :
    sampleRoot.lookup id sampleLookup "/tmp/../dev/null".toList = .error .notFound ∧
      canonLookup id sampleLookup sampleRoot "/tmp/../dev/null".toList = .ok (.ext 2) ∧
      sampleRoot.lookup id sampleLookup "/dev/null".toList = .ok (.ext 2) := by
  refine ⟨?dotdot, ?canon, ?dev⟩
  case dotdot =>
    -- the root directory hands `/../dev/null` to the ramfs, whose root goes up
    rw [RootDirectory.lookup, RootDirectory.lookupMountedFs_dispatch (by decide),
      RootDirectory.dispatch_apply _ _ _ (.ram 0) "/../dev/null".toList (by decide), id,
      ← sampleLookup_dotdot_devNull]
    exact (Ramfs.lookup_trimStartMatches stubLookup 0 _).symm
  case canon =>
    have hc : canonRoute sampleRoot "/tmp/../dev/null".toList = (.ext 1, "null".toList) := by
      decide
    rw [canonLookup, hc, id, sampleLookup, Ramfs.lookup_ext]
    decide
  case dev => exact sampleRoot_lookup_devNull

/-- `lookup_mounted_fs` picks the mount point by a raw `starts_with` on the trimmed path,
    not by components, and does not resolve `..`. Whatever the file systems hold,
    `/devx/a` is handed to devfs as `x/a`, and `dev/../tmp//dir`, the path of the test left
    commented out in `test_devfs_ramfs`, to devfs as `/../tmp//dir`; lexical routing takes
    the first to the main file system and the second to the ramfs at `/tmp`. With the file
    systems of `sampleRoot`, `/tmp/../dev/null` is not found, while lexical routing finds
    devfs's `null`. -/
theorem rootDirectory_lookup_routes_by_raw_prefix (lookupAt : NodeRef Nat → Path → VfsResult (NodeRef Nat)) :
    sampleRoot.lookup id lookupAt "/devx/a".toList = lookupAt (.ext 1) "x/a".toList ∧
      canonLookup id lookupAt sampleRoot "/devx/a".toList = lookupAt (.ext 0) "devx/a".toList ∧
      sampleRoot.lookup id lookupAt "dev/../tmp//dir".toList = lookupAt (.ext 1) "/../tmp//dir".toList ∧
      canonLookup id lookupAt sampleRoot "dev/../tmp//dir".toList = lookupAt (.ram 0) "dir".toList ∧
      sampleRoot.lookup id sampleLookup "/tmp/../dev/null".toList = .error .notFound ∧
      canonLookup id sampleLookup sampleRoot "/tmp/../dev/null".toList = .ok (.ext 2) := by
  obtain ⟨hdotdot, hcanon, -⟩ := rootDirectory_lookup_dotdot_leaves_mount
  refine ⟨?devx, ?devxCanon, ?test, ?testCanon, hdotdot, hcanon⟩
  case devx =>
    -- `"devx/a".starts_with("dev")`: devfs takes the path from its fourth character
    rw [RootDirectory.lookup, RootDirectory.lookupMountedFs_dispatch (by decide),
      RootDirectory.dispatch_apply _ _ _ (.ext 1) "x/a".toList (by decide)]
    rfl
  case devxCanon =>
    have hc : canonRoute sampleRoot "/devx/a".toList = (.ext 0, "devx/a".toList) := by decide
    rw [canonLookup, hc]
    rfl
  case test =>
    rw [RootDirectory.lookup, RootDirectory.lookupMountedFs_dispatch (by decide),
      RootDirectory.dispatch_apply _ _ _ (.ext 1) "/../tmp//dir".toList (by decide)]
    rfl
  case testCanon =>
    have hc : canonRoute sampleRoot "dev/../tmp//dir".toList = (.ram 0, "dir".toList) := by decide
    rw [canonLookup, hc]
    rfl

end ArceOS.Fs.Root
