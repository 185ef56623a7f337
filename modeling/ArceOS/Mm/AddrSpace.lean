import ArceOS.Lib.TryEach
import ArceOS.Lib.Transition

/-!
# Address Spaces

`AddrSpace` of `axmm/src/aspace.rs` with its `Alloc` and `Linear` backends
(`backend/alloc.rs`, `backend/linear.rs`): a range of virtual addresses, a
`MemorySet` of areas, and a page table. `map_alloc` adds an area through
`MemorySet::map`, which maps its pages by the backend; `map_linear`, `unmap` and
`protect` call the page table's region operations directly and leave the areas as they
are; `handle_page_fault` finds the area of the address and lets a lazy `Alloc` backend map
a fresh frame there.

The crates `memory_set` and `page_table_multiarch` and the frame allocator are third
parties, modelled by what they document. `MemorySet::map` rejects an area that overlaps
another when `unmap_overlap` is `false`, and `find` returns the area containing an
address. The page table holds one entry per 4K page, an address and flags as
`GenericPTE` stores them: the all-zero entry is unused, and an entry is present when it
has a flag, as on x86_64 and RISC-V. `map` fails on an entry in use, `unmap` and
`protect` on one that is not present, and the region operations stop at the first
failure, keeping what they did before it (`Lib.tryEach`). `remap` rewrites an entry.
The allocator gives each page a frame, or none when it is out of memory; a frame is never
at physical address `0`. Addresses are numbers, without the wrap of `usize`.

## Main results

- `wf_of_reachable`: the areas of every reachable address space are aligned, non-empty,
  inside its range and pairwise disjoint;
- `consistent_of_safe`: in runs whose frame allocations succeed and whose `map_linear`,
  `unmap` and `protect` calls keep off the areas, every page of every area is mapped with
  the area's flags, or is the unused placeholder of a lazy area;
- `aspace_areas_outlive_unmap_and_protect`: after an `unmap` that returns `Ok` the area is
  still there and `map_alloc` on the same range fails; after a `protect` that returns `Ok`,
  a fault the new flags forbid maps a fresh frame over the page; a failed populated
  `map_alloc` leaves a mapping in no area.
-/

namespace ArceOS.Mm

open ArceOS.Lib

/-! ## §1 Flags, entries and the page table -/

/-- `PAGE_SIZE_4K`. -/
def PAGE_SIZE_4K : Nat := 0x1000

/-- `MappingFlags`, by its bits. -/
abbrev MappingFlags := Nat

namespace MappingFlags

/-- `MappingFlags::READ`. -/
def READ : MappingFlags := 1 <<< 0
/-- `MappingFlags::WRITE`. -/
def WRITE : MappingFlags := 1 <<< 1
/-- `MappingFlags::EXECUTE`. -/
def EXECUTE : MappingFlags := 1 <<< 2
/-- `MappingFlags::USER`. -/
def USER : MappingFlags := 1 <<< 3
/-- `MappingFlags::empty()`. -/
def empty : MappingFlags := 0

/-- `contains`: every bit of `g` is set in `f`. -/
def contains (f g : MappingFlags) : Bool := f &&& g == g

end MappingFlags

/-- `is_aligned_4k`. -/
def isAligned4k (x : Nat) : Bool := x % PAGE_SIZE_4K == 0

/-- The pages of `[start, start + size)`, by number, as `PageIter4K` visits them. -/
def pages (start size : Nat) : List Nat := List.range' (start / PAGE_SIZE_4K) (size / PAGE_SIZE_4K)

/-- A page table entry: the physical address and the flags. -/
structure Pte where
  paddr : Nat
  flags : MappingFlags
  deriving DecidableEq, Repr

namespace Pte

/-- The all-zero entry. -/
def unused : Pte := ⟨0, 0⟩

/-- `is_unused`. -/
def isUnused (e : Pte) : Bool := e == unused

/-- `is_present`. -/
def isPresent (e : Pte) : Bool := e.flags != 0

end Pte

/-- `PagingError`, in the variants the modelled calls meet. -/
inductive PagingError where
  | notMapped
  | alreadyMapped
  deriving DecidableEq, Repr

/-- A page table, its entries by page number. -/
abbrev PageTable := Nat → Pte

namespace PageTable

/-- `map` on one entry: an entry in use is `AlreadyMapped`. -/
def mapStep (paddr : Nat) (flags : MappingFlags) (e : Pte) : Pte × Except PagingError Unit :=
  if e.isUnused then (⟨paddr, flags⟩, .ok ()) else (e, .error .alreadyMapped)

/-- `unmap` on one entry: it is cleared, and `NotMapped` unless it was present. -/
def unmapStep (e : Pte) : Pte × Except PagingError Unit :=
  (Pte.unused, if e.isPresent then .ok () else .error .notMapped)

/-- `protect` on one entry: a present entry takes the new flags. -/
def protectStep (flags : MappingFlags) (e : Pte) : Pte × Except PagingError Unit :=
  if e.isPresent then ({ e with flags := flags }, .ok ()) else (e, .error .notMapped)

/-- `map_region` over the pages `vpns`, each page `v` to `paddrOf v`. -/
def mapRegion (pt : PageTable) (vpns : List Nat) (paddrOf : Nat → Nat) (flags : MappingFlags) :
    PageTable × Except PagingError Unit :=
  tryEach (fun v e => mapStep (paddrOf v) flags e) pt vpns

/-- `unmap_region` over the pages `vpns`. -/
def unmapRegion (pt : PageTable) (vpns : List Nat) : PageTable × Except PagingError Unit :=
  tryEach (fun _ e => unmapStep e) pt vpns

/-- `protect_region` over the pages `vpns`. -/
def protectRegion (pt : PageTable) (vpns : List Nat) (flags : MappingFlags) :
    PageTable × Except PagingError Unit :=
  tryEach (fun _ e => protectStep flags e) pt vpns

/-- `remap`: the entry of page `vpn` maps `paddr` with `flags`. -/
def remap (pt : PageTable) (vpn paddr : Nat) (flags : MappingFlags) : PageTable :=
  Function.update pt vpn ⟨paddr, flags⟩

end PageTable

/-! ## §2 Areas and the address space -/

/-- `Backend`. -/
inductive Backend where
  | linear (paVaOffset : Nat)
  | alloc (populate : Bool)
  deriving DecidableEq, Repr

/-- `MemoryArea`: `[start, start + size)` with its flags and backend. -/
structure MemoryArea where
  start : Nat
  size : Nat
  flags : MappingFlags
  backend : Backend
  deriving DecidableEq, Repr

/-- `VirtAddrRange::contains` of the area's range. -/
def MemoryArea.contains (area : MemoryArea) (vaddr : Nat) : Bool :=
  area.start ≤ vaddr && vaddr < area.start + area.size

/-- `VirtAddrRange::overlaps` of `[s₁, s₁ + n₁)` and `[s₂, s₂ + n₂)`. -/
def rangesOverlap (s₁ n₁ s₂ n₂ : Nat) : Bool := s₁ < s₂ + n₂ && s₂ < s₁ + n₁

/-- `MemorySet::find`. -/
def find (areas : List MemoryArea) (vaddr : Nat) : Option MemoryArea :=
  areas.find? (·.contains vaddr)

/-- `AddrSpace`: `va_range`, the areas of `areas`, and `pt`. -/
structure AddrSpace where
  vaStart : Nat
  vaEnd : Nat
  areas : List MemoryArea
  pt : PageTable

/-- The `AxError` variants the calls return. -/
inductive AxError where
  | invalidInput
  | alreadyExists
  | badState
  | notFound
  | badAddress
  deriving DecidableEq, Repr

/-- `paging_err_to_ax_err`. -/
def pagingErrToAxErr : PagingError → AxError
  | .notMapped => .notFound
  | .alreadyMapped => .alreadyExists

/-- One page of `Backend::map_alloc` for a populated area: the allocator's frame for the
    page is mapped, and a page it has none for is skipped. -/
def populateStep (frames : Nat → Option Nat) (flags : MappingFlags) (v : Nat) (e : Pte) :
    Pte × Except PagingError Unit :=
  match frames v with
  | none => (e, .ok ())
  | some frame => PageTable.mapStep frame flags e

/-- `Backend::map_alloc`: the page table and whether it returned `true`. A lazy area's pages
    are mapped to `0` with empty flags, the unused entry. -/
def mapAllocBackend (pt : PageTable) (start size : Nat) (flags : MappingFlags) (populate : Bool)
    (frames : Nat → Option Nat) : PageTable × Bool :=
  let r := if populate then tryEach (populateStep frames flags) pt (pages start size)
    else pt.mapRegion (pages start size) (fun _ => 0) MappingFlags.empty
  (r.1, r.2.isOk)

namespace AddrSpace

/-- `AddrSpace::new_empty`. -/
def newEmpty (base size : Nat) : AddrSpace := ⟨base, base + size, [], fun _ => Pte.unused⟩

/-- `contains_range`. -/
def containsRange (a : AddrSpace) (start size : Nat) : Bool :=
  a.vaStart ≤ start && start + size ≤ a.vaEnd

/-- The shape `map_linear`, `unmap` and `protect` share: the range must lie in the
    address space and pass the alignment checks, and then one region operation of the page
    table runs, its error mapped by `paging_err_to_ax_err`. The areas are not touched. -/
def regionOp (a : AddrSpace) (start size : Nat) (aligned : Bool)
    (op : PageTable → PageTable × Except PagingError Unit) : Except AxError Unit × AddrSpace :=
  if !a.containsRange start size then (.error .invalidInput, a)
  else if !aligned then (.error .invalidInput, a)
  else
    let r := op a.pt
    (r.2.mapError pagingErrToAxErr, { a with pt := r.1 })

/-- `map_linear`: page `v` to `v * 4K - (start_vaddr - start_paddr)`. -/
def mapLinear (a : AddrSpace) (startVaddr startPaddr size : Nat) (flags : MappingFlags) :
    Except AxError Unit × AddrSpace :=
  a.regionOp startVaddr size (isAligned4k startVaddr && isAligned4k startPaddr && isAligned4k size)
    (·.mapRegion (pages startVaddr size)
      (fun v => v * PAGE_SIZE_4K - startVaddr + startPaddr) flags)

/-- `map_alloc`, with the allocator's frame for each page. -/
def mapAlloc (a : AddrSpace) (start size : Nat) (flags : MappingFlags) (populate : Bool)
    (frames : Nat → Option Nat) : Except AxError Unit × AddrSpace :=
  if !a.containsRange start size then (.error .invalidInput, a)
  else if !(isAligned4k start && isAligned4k size) then (.error .invalidInput, a)
  -- `MemorySet::map(area, &mut pt, false)`
  else if size = 0 then (.error .invalidInput, a)
  else if a.areas.any (fun b => rangesOverlap b.start b.size start size) then
    (.error .alreadyExists, a)
  else
    let r := mapAllocBackend a.pt start size flags populate frames
    if r.2 then
      (.ok (), { a with areas := ⟨start, size, flags, .alloc populate⟩ :: a.areas, pt := r.1 })
    else (.error .badState, { a with pt := r.1 })

/-- `unmap`: the page table's `unmap_region`, and nothing else. -/
def unmap (a : AddrSpace) (start size : Nat) : Except AxError Unit × AddrSpace :=
  a.regionOp start size (isAligned4k start && isAligned4k size) (·.unmapRegion (pages start size))

/-- `protect`: the page table's `protect_region`, and nothing else. -/
def protect (a : AddrSpace) (start size : Nat) (flags : MappingFlags) :
    Except AxError Unit × AddrSpace :=
  a.regionOp start size (isAligned4k start && isAligned4k size)
    (·.protectRegion (pages start size) flags)

/-- `handle_page_fault`, with the allocator's frame for a lazy page. -/
def handlePageFault (a : AddrSpace) (vaddr : Nat) (accessFlags : MappingFlags)
    (frame : Option Nat) : Bool × AddrSpace :=
  if !(a.vaStart ≤ vaddr && vaddr < a.vaEnd) then (false, a)
  else
    match find a.areas vaddr with
    | none => (false, a)
    | some area =>
      if MappingFlags.contains area.flags accessFlags then
        -- `Backend::handle_page_fault`
        match area.backend, frame with
        | .alloc false, some f =>
          (true, { a with pt := a.pt.remap (vaddr / PAGE_SIZE_4K) f area.flags })
        | _, _ => (false, a)
      else (false, a)

end AddrSpace

/-! ## §3 The system -/

/-- A call on the address space, with what the allocator gives it. -/
inductive Call where
  | mapLinear (startVaddr startPaddr size : Nat) (flags : MappingFlags)
  | mapAlloc (start size : Nat) (flags : MappingFlags) (populate : Bool)
      (frames : Nat → Option Nat)
  | unmap (start size : Nat)
  | protect (start size : Nat) (flags : MappingFlags)
  | handlePageFault (vaddr : Nat) (accessFlags : MappingFlags) (frame : Option Nat)

namespace Call

/-- The address space after the call. -/
def apply (a : AddrSpace) : Call → AddrSpace
  | .mapLinear v p n fl => (a.mapLinear v p n fl).2
  | .mapAlloc s n fl pop frames => (a.mapAlloc s n fl pop frames).2
  | .unmap s n => (a.unmap s n).2
  | .protect s n fl => (a.protect s n fl).2
  | .handlePageFault v acc frame => (a.handlePageFault v acc frame).2

/-- The allocator's frames are never at physical address `0`. -/
def FramesOk : Call → Prop
  | .mapAlloc _ _ _ _ frames => ∀ v f, frames v = some f → f ≠ 0
  | .handlePageFault _ _ frame => ∀ f, frame = some f → f ≠ 0
  | _ => True

end Call

/-- An address space from `new_empty`, and any calls on it. -/
def aspaceSystem : LTS AddrSpace Call :=
  ⟨fun a => ∃ base size, a = AddrSpace.newEmpty base size,
    fun a c a' => c.FramesOk ∧ a' = c.apply a⟩

/-! ## §4 Pages of ranges -/

theorem mem_pages {start size v : Nat} :
    v ∈ pages start size ↔
      start / PAGE_SIZE_4K ≤ v ∧ v < start / PAGE_SIZE_4K + size / PAGE_SIZE_4K := by
  simp [pages, List.mem_range'_1]

theorem nodup_pages (start size : Nat) : (pages start size).Nodup := List.nodup_range' _

theorem rangesOverlap_comm (s₁ n₁ s₂ n₂ : Nat) :
    rangesOverlap s₁ n₁ s₂ n₂ = rangesOverlap s₂ n₂ s₁ n₁ := by
  simp only [rangesOverlap, Bool.and_comm]

/-- Disjoint ranges share no page, aligned or not. -/
theorem not_mem_pages_of_not_overlap {s₁ n₁ s₂ n₂ v : Nat}
    (ho : rangesOverlap s₁ n₁ s₂ n₂ = false) (hv : v ∈ pages s₁ n₁) :
    v ∉ pages s₂ n₂ := by
  intro hv₂
  rw [mem_pages] at hv hv₂
  simp only [rangesOverlap, Bool.and_eq_false_iff, decide_eq_false_iff_not, Nat.not_lt] at ho
  unfold PAGE_SIZE_4K at *
  omega

/-- In an aligned range, the page of an address is one of the range's pages exactly when
    the address lies in the range. -/
theorem div_mem_pages_iff {s n x : Nat} (hs : isAligned4k s = true) (hn : isAligned4k n = true) :
    x / PAGE_SIZE_4K ∈ pages s n ↔ s ≤ x ∧ x < s + n := by
  rw [mem_pages]
  simp only [isAligned4k, beq_iff_eq] at hs hn
  unfold PAGE_SIZE_4K at *
  omega

/-! ## §5 What the calls do -/

namespace PageTable

theorem mapStep_ok_iff {paddr : Nat} {flags : MappingFlags} {e : Pte} :
    (mapStep paddr flags e).2 = .ok () ↔ e = Pte.unused := by
  by_cases h : e = Pte.unused <;> simp [mapStep, Pte.isUnused, h]

theorem mapStep_fst_of_ok {paddr : Nat} {flags : MappingFlags} {e : Pte}
    (h : (mapStep paddr flags e).2 = .ok ()) : (mapStep paddr flags e).1 = ⟨paddr, flags⟩ := by
  simp [mapStep, Pte.isUnused, mapStep_ok_iff.mp h]

/-- Mapping the unused entry over an entry changes nothing: where it succeeds the entry was
    unused, and where it fails the entry is kept. -/
theorem mapStep_unused_fst (e : Pte) : (mapStep 0 MappingFlags.empty e).1 = e := by
  by_cases h : e = Pte.unused
  · subst h; rfl
  · simp [mapStep, Pte.isUnused, h]

theorem mapRegion_of_not_mem (pt : PageTable) {vpns : List Nat} (paddrOf : Nat → Nat)
    (flags : MappingFlags) {v : Nat} (hv : v ∉ vpns) :
    (pt.mapRegion vpns paddrOf flags).1 v = pt v :=
  tryEach_of_not_mem _ pt vpns hv

/-- Mapping one unused page sets its entry and succeeds. -/
theorem mapRegion_singleton {pt : PageTable} {v : Nat} (paddrOf : Nat → Nat)
    (flags : MappingFlags) (hv : pt v = Pte.unused) :
    pt.mapRegion [v] paddrOf flags = (Function.update pt v ⟨paddrOf v, flags⟩, .ok ()) := by
  have hok : (mapStep (paddrOf v) flags (pt v)).2 = .ok () := mapStep_ok_iff.mpr hv
  rw [mapRegion, tryEach_cons_of_ok _ _ _ _ hok, tryEach_nil, mapStep_fst_of_ok hok]

theorem mapRegion_singleton_ok_iff (pt : PageTable) (v : Nat) (paddrOf : Nat → Nat)
    (flags : MappingFlags) : (pt.mapRegion [v] paddrOf flags).2 = .ok () ↔ pt v = Pte.unused := by
  rw [mapRegion, tryEach_eq_ok_iff _ pt (List.nodup_singleton v)]
  simp [mapStep_ok_iff]

theorem unmapRegion_of_not_mem (pt : PageTable) {vpns : List Nat} {v : Nat} (hv : v ∉ vpns) :
    (pt.unmapRegion vpns).1 v = pt v :=
  tryEach_of_not_mem _ pt vpns hv

theorem protectRegion_of_not_mem (pt : PageTable) {vpns : List Nat} (flags : MappingFlags)
    {v : Nat} (hv : v ∉ vpns) : (pt.protectRegion vpns flags).1 v = pt v :=
  tryEach_of_not_mem _ pt vpns hv

end PageTable

/-- The lazy backend leaves the page table as it was. -/
theorem mapAllocBackend_lazy (pt : PageTable) (start size : Nat) (flags : MappingFlags)
    (frames : Nat → Option Nat) : (mapAllocBackend pt start size flags false frames).1 = pt := by
  funext v
  simp only [mapAllocBackend, Bool.false_eq_true, if_false]
  rcases tryEach_cases _ pt (nodup_pages start size) v with h | ⟨-, h⟩
  · exact h
  · rw [PageTable.mapRegion, h, PageTable.mapStep_unused_fst]

/-- A lazy backend that returns `true` found every page of the range unused. -/
theorem mapAllocBackend_lazy_of_mem {pt : PageTable} {start size : Nat} {flags : MappingFlags}
    {frames : Nat → Option Nat}
    (hok : (mapAllocBackend pt start size flags false frames).2 = true)
    {v : Nat} (hv : v ∈ pages start size) : pt v = Pte.unused := by
  simp only [mapAllocBackend, Bool.false_eq_true, if_false, Except.isOk, Except.toBool] at hok
  have hall : (pt.mapRegion (pages start size) (fun _ => 0) MappingFlags.empty).2 = .ok () := by
    split at hok
    · assumption
    · cases hok
  rw [PageTable.mapRegion, tryEach_eq_ok_iff _ pt (nodup_pages start size)] at hall
  exact PageTable.mapStep_ok_iff.mp (hall v hv)

/-- A populated backend that returns `true` mapped each page it had a frame for to that
    frame with the flags. -/
theorem mapAllocBackend_populate_of_mem {pt : PageTable} {start size : Nat}
    {flags : MappingFlags} {frames : Nat → Option Nat}
    (hok : (mapAllocBackend pt start size flags true frames).2 = true)
    {v f : Nat} (hv : v ∈ pages start size) (hf : frames v = some f) :
    (mapAllocBackend pt start size flags true frames).1 v = ⟨f, flags⟩ := by
  simp only [mapAllocBackend, if_true, Except.isOk, Except.toBool] at hok ⊢
  have hall : (tryEach (populateStep frames flags) pt (pages start size)).2 = .ok () := by
    split at hok
    · assumption
    · cases hok
  rw [tryEach_of_mem _ pt (nodup_pages start size) hall hv]
  have hstep := (tryEach_eq_ok_iff _ pt (nodup_pages start size)).mp hall v hv
  simp only [populateStep, hf] at hstep ⊢
  exact PageTable.mapStep_fst_of_ok hstep

/-- When the allocator gives every page of the range a frame, the populated backend returns
    `true` exactly when every page of the range was unused. -/
theorem mapAllocBackend_populate_ok_iff {pt : PageTable} {start size : Nat}
    {flags : MappingFlags} {frames : Nat → Option Nat}
    (hsome : ∀ v ∈ pages start size, (frames v).isSome = true) :
    (mapAllocBackend pt start size flags true frames).2 = true ↔
      ∀ v ∈ pages start size, pt v = Pte.unused := by
  have hall : (tryEach (populateStep frames flags) pt (pages start size)).2 = .ok () ↔
      ∀ v ∈ pages start size, pt v = Pte.unused := by
    rw [tryEach_eq_ok_iff _ pt (nodup_pages start size)]
    refine forall₂_congr fun v hv => ?_
    obtain ⟨f, hf⟩ := Option.isSome_iff_exists.mp (hsome v hv)
    simp only [populateStep, hf]
    exact PageTable.mapStep_ok_iff
  simp only [mapAllocBackend, if_true, Except.isOk, Except.toBool]
  rw [← hall]
  split <;> simp_all

/-- The populated backend is not all-or-nothing. When the allocator runs out after the
    first page, it skips the second and returns `true` with that page unmapped; when the
    second page is in use, it returns `false` with the first page still mapped to the frame
    allocated for it. -/
theorem populate_map_alloc_partial :
    (mapAllocBackend (fun _ => Pte.unused) 0x1000 0x2000 (MappingFlags.READ ||| MappingFlags.WRITE)
        true (fun v => if v = 1 then some 0x8000 else none)).2 = true ∧
    (mapAllocBackend (fun _ => Pte.unused) 0x1000 0x2000 (MappingFlags.READ ||| MappingFlags.WRITE)
        true (fun v => if v = 1 then some 0x8000 else none)).1 2 = Pte.unused ∧
    (mapAllocBackend (PageTable.remap (fun _ => Pte.unused) 2 0x2000 MappingFlags.READ)
        0x1000 0x2000 (MappingFlags.READ ||| MappingFlags.WRITE) true
        (fun _ => some 0x8000)).2 = false ∧
    (mapAllocBackend (PageTable.remap (fun _ => Pte.unused) 2 0x2000 MappingFlags.READ)
        0x1000 0x2000 (MappingFlags.READ ||| MappingFlags.WRITE) true
        (fun _ => some 0x8000)).1 1 =
      ⟨0x8000, MappingFlags.READ ||| MappingFlags.WRITE⟩ :=
  ⟨rfl, by decide, rfl, by decide⟩

/-- The backend touches the pages of its range only. -/
theorem mapAllocBackend_of_not_mem (pt : PageTable) (start size : Nat) (flags : MappingFlags)
    (populate : Bool) (frames : Nat → Option Nat) {v : Nat} (hv : v ∉ pages start size) :
    (mapAllocBackend pt start size flags populate frames).1 v = pt v := by
  cases populate
  · rw [mapAllocBackend_lazy]
  · exact tryEach_of_not_mem _ pt _ hv

namespace AddrSpace

@[simp] theorem regionOp_areas (a : AddrSpace) (start size : Nat) (aligned : Bool)
    (op : PageTable → PageTable × Except PagingError Unit) :
    (a.regionOp start size aligned op).2.areas = a.areas := by
  unfold regionOp; split_ifs <;> rfl

@[simp] theorem regionOp_vaStart (a : AddrSpace) (start size : Nat) (aligned : Bool)
    (op : PageTable → PageTable × Except PagingError Unit) :
    (a.regionOp start size aligned op).2.vaStart = a.vaStart := by
  unfold regionOp; split_ifs <;> rfl

@[simp] theorem regionOp_vaEnd (a : AddrSpace) (start size : Nat) (aligned : Bool)
    (op : PageTable → PageTable × Except PagingError Unit) :
    (a.regionOp start size aligned op).2.vaEnd = a.vaEnd := by
  unfold regionOp; split_ifs <;> rfl

/-- A region call leaves every entry its operation leaves. -/
theorem regionOp_pt_of_frame {a : AddrSpace} {start size : Nat} {aligned : Bool}
    {op : PageTable → PageTable × Except PagingError Unit} {v : Nat}
    (hop : (op a.pt).1 v = a.pt v) : (a.regionOp start size aligned op).2.pt v = a.pt v := by
  unfold regionOp; split_ifs <;> simp [hop]

/-- A region call succeeds exactly when the range passes both checks and the page table's
    operation succeeds. -/
theorem regionOp_fst_eq_ok_iff (a : AddrSpace) (start size : Nat) (aligned : Bool)
    (op : PageTable → PageTable × Except PagingError Unit) :
    (a.regionOp start size aligned op).1 = .ok () ↔
      a.containsRange start size = true ∧ aligned = true ∧ (op a.pt).2 = .ok () := by
  unfold regionOp
  split_ifs with hr hal
  · simp_all
  · simp_all
  · simp only [Bool.not_eq_true', Bool.not_eq_false] at hr hal
    cases hop : (op a.pt).2 <;> simp [Except.mapError, hr, hal, hop]

/-- Past both checks, the region call installs the operation's page table. -/
theorem regionOp_snd_of_checks (a : AddrSpace) {start size : Nat} {aligned : Bool}
    (op : PageTable → PageTable × Except PagingError Unit)
    (hr : a.containsRange start size = true) (hal : aligned = true) :
    (a.regionOp start size aligned op).2 = { a with pt := (op a.pt).1 } := by
  unfold regionOp
  rw [if_neg (by rw [hr]; decide), if_neg (by rw [hal]; decide)]

theorem mapLinear_pt_of_not_mem (a : AddrSpace) (startVaddr startPaddr size : Nat)
    (flags : MappingFlags) {v : Nat} (hv : v ∉ pages startVaddr size) :
    (a.mapLinear startVaddr startPaddr size flags).2.pt v = a.pt v :=
  regionOp_pt_of_frame (PageTable.mapRegion_of_not_mem _ _ _ hv)

theorem unmap_pt_of_not_mem (a : AddrSpace) (start size : Nat) {v : Nat}
    (hv : v ∉ pages start size) : (a.unmap start size).2.pt v = a.pt v :=
  regionOp_pt_of_frame (PageTable.unmapRegion_of_not_mem _ hv)

theorem protect_pt_of_not_mem (a : AddrSpace) (start size : Nat) (flags : MappingFlags)
    {v : Nat} (hv : v ∉ pages start size) : (a.protect start size flags).2.pt v = a.pt v :=
  regionOp_pt_of_frame (PageTable.protectRegion_of_not_mem _ _ hv)

/-- What `map_alloc` can do: fail a check and change nothing, or pass them all and let the
    backend map the range, the area being added when the backend returns `true`. -/
theorem mapAlloc_cases (a : AddrSpace) (start size : Nat) (flags : MappingFlags)
    (populate : Bool) (frames : Nat → Option Nat) :
    (a.mapAlloc start size flags populate frames).2 = a ∨
    (a.containsRange start size = true ∧ isAligned4k start = true ∧ isAligned4k size = true ∧
      0 < size ∧ (∀ B ∈ a.areas, rangesOverlap B.start B.size start size = false) ∧
      (((mapAllocBackend a.pt start size flags populate frames).2 = true ∧
          (a.mapAlloc start size flags populate frames).2 =
            { a with areas := ⟨start, size, flags, .alloc populate⟩ :: a.areas,
                     pt := (mapAllocBackend a.pt start size flags populate frames).1 }) ∨
        ((mapAllocBackend a.pt start size flags populate frames).2 = false ∧
          (a.mapAlloc start size flags populate frames).2 =
            { a with pt := (mapAllocBackend a.pt start size flags populate frames).1 }))) := by
  unfold mapAlloc
  dsimp only
  split_ifs with hr hal hz hov hb
  any_goals exact .inl rfl
  all_goals
    simp only [Bool.not_eq_true', Bool.not_eq_false, Bool.and_eq_true, List.any_eq_true,
      not_exists, not_and, Bool.not_eq_true] at hr hal hov
    refine .inr ⟨hr, hal.1, hal.2, Nat.pos_of_ne_zero hz, hov, ?_⟩
  · exact .inl ⟨hb, rfl⟩
  · exact .inr ⟨by simpa using hb, rfl⟩

/-- `map_alloc` keeps the range of the address space and the entries of the pages outside
    the range it maps, whatever it returns. -/
theorem mapAlloc_frame (a : AddrSpace) (start size : Nat) (flags : MappingFlags)
    (populate : Bool) (frames : Nat → Option Nat) {v : Nat} (hv : v ∉ pages start size) :
    (a.mapAlloc start size flags populate frames).2.vaStart = a.vaStart ∧
      (a.mapAlloc start size flags populate frames).2.vaEnd = a.vaEnd ∧
      (a.mapAlloc start size flags populate frames).2.pt v = a.pt v := by
  have hbackend := mapAllocBackend_of_not_mem a.pt start size flags populate frames hv
  rcases mapAlloc_cases a start size flags populate frames with
    h | ⟨-, -, -, -, -, ⟨-, h⟩ | ⟨-, h⟩⟩ <;> rw [h]
  · exact ⟨rfl, rfl, rfl⟩
  · exact ⟨rfl, rfl, hbackend⟩
  · exact ⟨rfl, rfl, hbackend⟩

/-- What `handle_page_fault` can do: nothing, or map a frame with the flags of the lazy
    area that contains the address over the address's page. -/
theorem handlePageFault_cases (a : AddrSpace) (vaddr : Nat) (accessFlags : MappingFlags)
    (frame : Option Nat) :
    (a.handlePageFault vaddr accessFlags frame).2 = a ∨
    ∃ A f, A ∈ a.areas ∧ A.contains vaddr = true ∧ A.backend = .alloc false ∧
      frame = some f ∧
      (a.handlePageFault vaddr accessFlags frame).2 =
        { a with pt := a.pt.remap (vaddr / PAGE_SIZE_4K) f A.flags } := by
  unfold handlePageFault
  split_ifs with hr
  · exact .inl rfl
  · rcases hfind : find a.areas vaddr with _ | A
    · exact .inl rfl
    · unfold find at hfind
      dsimp only
      split_ifs with hacc
      · -- only a lazy `Alloc` area given a frame maps anything
        split
        · rename_i f hb
          have hc := List.find?_some hfind
          exact .inr ⟨A, f, List.mem_of_find?_eq_some hfind, hc, hb, rfl, rfl⟩
        · exact .inl rfl
      · exact .inl rfl

@[simp] theorem handlePageFault_areas (a : AddrSpace) (vaddr : Nat) (accessFlags : MappingFlags)
    (frame : Option Nat) : (a.handlePageFault vaddr accessFlags frame).2.areas = a.areas := by
  rcases handlePageFault_cases a vaddr accessFlags frame with h | ⟨_, _, -, -, -, -, h⟩ <;>
    rw [h]

end AddrSpace

/-! ## §6 The areas -/

/-- The areas as `MemorySet` keeps them: aligned, non-empty, inside the address space, all
    of the `Alloc` backend (only `map_alloc` adds areas), and pairwise disjoint. -/
structure AddrSpace.Wf (a : AddrSpace) : Prop where
  aligned : ∀ A ∈ a.areas, isAligned4k A.start = true ∧ isAligned4k A.size = true
  nonempty : ∀ A ∈ a.areas, 0 < A.size
  inRange : ∀ A ∈ a.areas, a.containsRange A.start A.size = true
  alloc : ∀ A ∈ a.areas, ∃ populate, A.backend = .alloc populate
  disjoint : a.areas.Pairwise fun A B => rangesOverlap A.start A.size B.start B.size = false

namespace AddrSpace.Wf

variable {a : AddrSpace}

theorem newEmpty (base size : Nat) : (AddrSpace.newEmpty base size).Wf :=
  ⟨nofun, nofun, nofun, nofun, List.Pairwise.nil⟩

/-- A call that keeps the range and the areas keeps `Wf`. -/
theorem of_areas {a' : AddrSpace} (hwf : a.Wf) (hs : a'.vaStart = a.vaStart)
    (he : a'.vaEnd = a.vaEnd) (hareas : a'.areas = a.areas) : a'.Wf := by
  have hc : a'.containsRange = a.containsRange := by
    unfold containsRange; rw [hs, he]
  refine ⟨?_, ?_, ?_, ?_, ?_⟩ <;> rw [hareas]
  · exact hwf.aligned
  · exact hwf.nonempty
  · rw [hc]; exact hwf.inRange
  · exact hwf.alloc
  · exact hwf.disjoint

/-- Two areas that contain one address are the same area. -/
theorem eq_of_contains (hwf : a.Wf) {A B : MemoryArea} (hA : A ∈ a.areas) (hB : B ∈ a.areas)
    {x : Nat} (hxA : A.contains x = true) (hxB : B.contains x = true) : A = B := by
  by_contra hne
  have : Std.Symm fun A B : MemoryArea => rangesOverlap A.start A.size B.start B.size = false :=
    ⟨fun A B h => by rw [rangesOverlap_comm]; exact h⟩
  have hdis := hwf.disjoint.forall hA hB hne
  simp only [MemoryArea.contains, rangesOverlap, Bool.and_eq_true, decide_eq_true_eq,
    Bool.and_eq_false_iff, decide_eq_false_iff_not, Nat.not_lt] at hxA hxB hdis
  omega

theorem of_mapAlloc (hwf : a.Wf) (start size : Nat) (flags : MappingFlags) (populate : Bool)
    (frames : Nat → Option Nat) : (a.mapAlloc start size flags populate frames).2.Wf := by
  rcases mapAlloc_cases a start size flags populate frames with
    h | ⟨hr, hs, hn, hpos, hov, ⟨-, h⟩ | ⟨-, h⟩⟩ <;> rw [h]
  · exact hwf
  · -- the new area passed every check `MemorySet::map` makes
    refine ⟨?_, ?_, ?_, ?_, ?_⟩ <;> simp only [List.mem_cons, forall_eq_or_imp]
    · exact ⟨⟨hs, hn⟩, hwf.aligned⟩
    · exact ⟨hpos, hwf.nonempty⟩
    · exact ⟨hr, hwf.inRange⟩
    · exact ⟨⟨populate, rfl⟩, hwf.alloc⟩
    · refine List.pairwise_cons.mpr ⟨fun B hB => ?_, hwf.disjoint⟩
      rw [rangesOverlap_comm]
      exact hov B hB
  · exact hwf.of_areas rfl rfl rfl

theorem of_step {c : Call} {a' : AddrSpace} (hwf : a.Wf) (hstep : aspaceSystem.step a c a') :
    a'.Wf := by
  obtain ⟨-, rfl⟩ := hstep
  cases c with
  | mapAlloc s n fl pop frames => exact hwf.of_mapAlloc s n fl pop frames
  | handlePageFault x acc frame =>
    rcases handlePageFault_cases a x acc frame with h | ⟨_, _, -, -, -, -, h⟩ <;>
      simp only [Call.apply, h]
    · exact hwf
    · exact hwf.of_areas rfl rfl rfl
  | mapLinear v p n fl =>
    exact hwf.of_areas (regionOp_vaStart ..) (regionOp_vaEnd ..) (regionOp_areas ..)
  | unmap s n =>
    exact hwf.of_areas (regionOp_vaStart ..) (regionOp_vaEnd ..) (regionOp_areas ..)
  | protect s n fl =>
    exact hwf.of_areas (regionOp_vaStart ..) (regionOp_vaEnd ..) (regionOp_areas ..)

end AddrSpace.Wf

/-- The areas of every reachable address space are aligned, non-empty, inside its range,
    allocation-backed and pairwise disjoint. -/
theorem wf_of_reachable {a : AddrSpace} (h : aspaceSystem.Reachable a) : a.Wf :=
  LTS.Reachable.invariant (fun _ ⟨b, n, hb⟩ => hb ▸ AddrSpace.Wf.newEmpty b n)
    (fun _ _ _ hwf hstep => hwf.of_step hstep) h

/-! ## §7 Areas and page table agree, under safe calls -/

/-- Part (a) of the agreement, at one page of an area: the entry is in use with the area's
    flags, or the area is lazy and the entry is the unused placeholder. -/
def PageOk (A : MemoryArea) (e : Pte) : Prop :=
  (e ≠ Pte.unused ∧ e.flags = A.flags) ∨ (A.backend = .alloc false ∧ e = Pte.unused)

/-- Every page of every area is `PageOk`. -/
def AddrSpace.Consistent (a : AddrSpace) : Prop :=
  ∀ A ∈ a.areas, ∀ v ∈ pages A.start A.size, PageOk A (a.pt v)

/-- The calls under which the areas and the page table keep agreeing: the allocator gives
    every frame a populated `map_alloc` asks for, and `map_linear`, `unmap` and `protect`
    keep off the areas. -/
def Call.Safe (a : AddrSpace) : Call → Prop
  | .mapLinear v _ n _ => ∀ B ∈ a.areas, rangesOverlap B.start B.size v n = false
  | .mapAlloc _ _ _ _ frames => ∀ v, (frames v).isSome = true
  | .unmap s n => ∀ B ∈ a.areas, rangesOverlap B.start B.size s n = false
  | .protect s n _ => ∀ B ∈ a.areas, rangesOverlap B.start B.size s n = false
  | .handlePageFault .. => True

/-- The runs of `aspaceSystem` made of safe calls. -/
def safeSystem : LTS AddrSpace Call :=
  ⟨aspaceSystem.init, fun a c a' => c.FramesOk ∧ c.Safe a ∧ a' = c.apply a⟩

namespace AddrSpace.Consistent

variable {a : AddrSpace}

theorem newEmpty (base size : Nat) : (AddrSpace.newEmpty base size).Consistent := nofun

/-- A call that keeps the areas, and every entry off the range `[s, s + n)` that keeps off
    the areas, keeps the agreement. -/
theorem of_keepOff {a' : AddrSpace} {s n : Nat} (hc : a.Consistent)
    (hoff : ∀ B ∈ a.areas, rangesOverlap B.start B.size s n = false)
    (hareas : a'.areas = a.areas) (hpt : ∀ v ∉ pages s n, a'.pt v = a.pt v) :
    a'.Consistent := by
  intro B hB v hv
  rw [hareas] at hB
  rw [hpt v (not_mem_pages_of_not_overlap (hoff B hB) hv)]
  exact hc B hB v hv

theorem of_mapAlloc (hc : a.Consistent) (start size : Nat) (flags : MappingFlags)
    (populate : Bool) {frames : Nat → Option Nat}
    (hframes : ∀ v f, frames v = some f → f ≠ 0)
    (hsome : ∀ v, (frames v).isSome = true) :
    (a.mapAlloc start size flags populate frames).2.Consistent := by
  rcases mapAlloc_cases a start size flags populate frames with
    h | ⟨-, -, -, -, hov, ⟨hok, h⟩ | ⟨-, h⟩⟩
  · rwa [h]
  · -- the old areas keep off the new range; the new one is mapped by the backend
    have hold : AddrSpace.Consistent
        { a with pt := (mapAllocBackend a.pt start size flags populate frames).1 } :=
      hc.of_keepOff hov rfl (fun v hv => mapAllocBackend_of_not_mem _ _ _ _ _ _ hv)
    rw [h]
    intro B hB v hv
    dsimp only at hB ⊢
    rcases List.mem_cons.mp hB with rfl | hB
    · cases populate
      · refine .inr ⟨rfl, ?_⟩
        rw [mapAllocBackend_lazy]
        exact mapAllocBackend_lazy_of_mem hok hv
      · obtain ⟨f, hf⟩ := Option.isSome_iff_exists.mp (hsome v)
        rw [mapAllocBackend_populate_of_mem hok hv hf]
        exact .inl ⟨fun he => hframes v f hf (congrArg Pte.paddr he), rfl⟩
    · exact hold B hB v hv
  · rw [h]
    exact hc.of_keepOff hov rfl (fun v hv => mapAllocBackend_of_not_mem _ _ _ _ _ _ hv)

theorem of_handlePageFault (hc : a.Consistent) (hwf : a.Wf) (vaddr : Nat)
    (accessFlags : MappingFlags) {frame : Option Nat} (hframe : ∀ f, frame = some f → f ≠ 0) :
    (a.handlePageFault vaddr accessFlags frame).2.Consistent := by
  rcases handlePageFault_cases a vaddr accessFlags frame with h | ⟨A, f, hA, hx, -, hf, h⟩
  · rwa [h]
  · rw [h]
    intro B hB v hv
    by_cases hvx : v = vaddr / PAGE_SIZE_4K
    · -- the faulting page lies in `A` only, and takes `A`'s flags
      subst hvx
      have hxB := (div_mem_pages_iff (hwf.aligned B hB).1 (hwf.aligned B hB).2).mp hv
      have hAB : A = B := hwf.eq_of_contains hA hB hx (by
        simp only [MemoryArea.contains, Bool.and_eq_true, decide_eq_true_eq]; exact hxB)
      subst hAB
      simp only [PageTable.remap, Function.update_self]
      exact .inl ⟨fun he => hframe f hf (congrArg Pte.paddr he), rfl⟩
    · simp only [PageTable.remap, Function.update_of_ne hvx]
      exact hc B hB v hv

theorem of_step {c : Call} {a' : AddrSpace} (hc : a.Consistent) (hwf : a.Wf)
    (hstep : safeSystem.step a c a') : a'.Consistent := by
  obtain ⟨hframes, hsafe, rfl⟩ := hstep
  cases c with
  | mapAlloc s n fl pop frames => exact hc.of_mapAlloc s n fl pop hframes hsafe
  | handlePageFault x acc frame => exact hc.of_handlePageFault hwf x acc hframes
  | mapLinear v p n fl =>
    exact hc.of_keepOff hsafe (regionOp_areas ..)
      (fun _ hv => mapLinear_pt_of_not_mem a v p n fl hv)
  | unmap s n =>
    exact hc.of_keepOff hsafe (regionOp_areas ..) (fun _ hv => unmap_pt_of_not_mem a s n hv)
  | protect s n fl =>
    exact hc.of_keepOff hsafe (regionOp_areas ..) (fun _ hv => protect_pt_of_not_mem a s n fl hv)

end AddrSpace.Consistent

/-- In runs of safe calls every page of every area is mapped with the area's flags, or is
    the unused placeholder of a lazy area. -/
theorem consistent_of_safe {a : AddrSpace} (h : safeSystem.Reachable a) :
    a.Wf ∧ a.Consistent := by
  refine @LTS.Reachable.invariant _ _ safeSystem (fun a => a.Wf ∧ a.Consistent)
    (fun _ hinit => ?_) (fun _ _ _ hi hstep => ?_) a h
  · obtain ⟨b, n, rfl⟩ := hinit
    exact ⟨AddrSpace.Wf.newEmpty b n, AddrSpace.Consistent.newEmpty b n⟩
  · -- a safe step is a step of `aspaceSystem`
    exact ⟨hi.1.of_step ⟨hstep.1, hstep.2.2⟩, hi.2.of_step hi.1 hstep⟩

/-! ## §8 Unsafe calls -/

/-- `unmap`, `protect` and a failing `map_alloc` change the page table only, so the areas and
    the page table part ways. After a populated `map_alloc` of page `1` and an `unmap` of it
    that returns `Ok`, the area is still there over an unused entry, and `map_alloc` of the
    same range fails with `AlreadyExists`. After a lazy `map_alloc` with `READ | WRITE`, a
    write fault, and a `protect` to `READ` that returns `Ok`, a second write fault, which
    `READ` does not allow, is handled by mapping a fresh frame with `READ | WRITE` over the
    page. And a populated `map_alloc` that meets a page of `map_linear` part-way fails,
    leaving its first page mapped to an allocated frame in no area. -/
theorem aspace_areas_outlive_unmap_and_protect :
    (∃ a, aspaceSystem.Run (AddrSpace.newEmpty 0 0x10000)
        [.mapAlloc 0x1000 0x1000 (MappingFlags.READ ||| MappingFlags.WRITE) true
          (fun _ => some 0x8000)] a ∧
      (a.unmap 0x1000 0x1000).1 = .ok () ∧
      (a.unmap 0x1000 0x1000).2.areas =
        [⟨0x1000, 0x1000, MappingFlags.READ ||| MappingFlags.WRITE, .alloc true⟩] ∧
      (a.unmap 0x1000 0x1000).2.pt 1 = Pte.unused ∧
      ((a.unmap 0x1000 0x1000).2.mapAlloc 0x1000 0x1000
        (MappingFlags.READ ||| MappingFlags.WRITE) true (fun _ => some 0x9000)).1 =
        .error .alreadyExists) ∧
    (∃ a, aspaceSystem.Run (AddrSpace.newEmpty 0 0x10000)
        [.mapAlloc 0x1000 0x1000 (MappingFlags.READ ||| MappingFlags.WRITE) false (fun _ => none),
          .handlePageFault 0x1000 MappingFlags.WRITE (some 0x8000)] a ∧
      a.pt 1 = ⟨0x8000, MappingFlags.READ ||| MappingFlags.WRITE⟩ ∧
      (a.protect 0x1000 0x1000 MappingFlags.READ).1 = .ok () ∧
      MappingFlags.contains MappingFlags.READ MappingFlags.WRITE = false ∧
      ((a.protect 0x1000 0x1000 MappingFlags.READ).2.handlePageFault 0x1000 MappingFlags.WRITE
        (some 0x9000)).1 = true ∧
      ((a.protect 0x1000 0x1000 MappingFlags.READ).2.handlePageFault 0x1000 MappingFlags.WRITE
        (some 0x9000)).2.pt 1 = ⟨0x9000, MappingFlags.READ ||| MappingFlags.WRITE⟩) ∧
    (∃ a, aspaceSystem.Run (AddrSpace.newEmpty 0 0x10000)
        [.mapLinear 0x2000 0x2000 0x1000 (MappingFlags.READ ||| MappingFlags.WRITE)] a ∧
      (a.mapAlloc 0x1000 0x2000 (MappingFlags.READ ||| MappingFlags.WRITE) true
        (fun _ => some 0x8000)).1 = .error .badState ∧
      (a.mapAlloc 0x1000 0x2000 (MappingFlags.READ ||| MappingFlags.WRITE) true
        (fun _ => some 0x8000)).2.areas = [] ∧
      (a.mapAlloc 0x1000 0x2000 (MappingFlags.READ ||| MappingFlags.WRITE) true
        (fun _ => some 0x8000)).2.pt 1 =
        ⟨0x8000, MappingFlags.READ ||| MappingFlags.WRITE⟩) := by
  have hframe : ∀ f, some 0x8000 = some f → f ≠ 0 := by
    rintro f ⟨⟩
    decide
  refine ⟨⟨_, LTS.Run.single ⟨fun _ f h => ?_, rfl⟩, rfl, rfl, by decide, rfl⟩,
    ⟨_, LTS.Run.cons ⟨nofun, rfl⟩ (LTS.Run.single ⟨hframe, rfl⟩),
      by decide, rfl, rfl, rfl, by decide⟩,
    ⟨_, LTS.Run.single ⟨trivial, rfl⟩, rfl, rfl, by decide⟩⟩
  exact hframe f h

end ArceOS.Mm
