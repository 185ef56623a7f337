import ArceOS.Mm.AreaData

/-!
# Pass-Through MMIO in the Hypervisor Tour

The devices of `tour/h_4_0/src/vmdev.rs` and the exit loop of its `main`. A `VmDevGroup`
holds the devices in the order `add_dev` registered them; `find_dev` returns the first whose
window `[start, start + size)` contains the address. The loop runs the vCPU and, at a
`NestedPageFault` below `PHY_MEM_START`, finds the device of the fault address and calls its
`handle_mmio`, which maps the 4K range starting at that address onto itself with
`map_linear`; every other outcome panics.

The RISC-V vCPU (`riscv_vcpu/src/vcpu.rs`) reports the fault address as
`htval << 2 | stval & 0x3`: the guest-physical address of the access, low bits included.
`map_linear` rejects a start that is not 4K-aligned with `InvalidInput`, so a fault at any
address but the first of a page fails there, and `main` panics on the `unwrap`. From a page's
first address the handler does map that page onto itself with the device flags.

## Main results

- `findDev_eq_some_iff`, `findDev_eq_none_iff`: `find_dev` returns the first window
  containing the address, and `none` when no window does;
- `handleMmio_ok_iff`: on a page in the address space and not yet mapped, `handle_mmio`
  succeeds exactly when the fault address is 4K-aligned, and it then maps the page onto
  itself;
- `runExits_mmioOnly`: along every run of the loop, a page table entry either keeps its value or
  maps its page onto itself with the device flags, the page starting in a device window;
- `mmio_fault_off_page_start_panics`: a load at `0x2200_0004` in the tour's pflash window
  panics the hypervisor.
-/

namespace ArceOS.Hv

open ArceOS.Mm

/-! ## §1 Devices and groups -/

/-- `VmDev`: a window of guest-physical addresses. -/
structure VmDev where
  start : Nat
  size : Nat
  deriving DecidableEq, Repr

/-- `VmDevGroup`: the devices, in the order they were added. -/
structure VmDevGroup where
  devices : List VmDev
  deriving DecidableEq, Repr

namespace VmDev

/-- `check_addr`. -/
def checkAddr (dev : VmDev) (addr : Nat) : Bool :=
  dev.start ≤ addr && addr < dev.start + dev.size

end VmDev

namespace VmDevGroup

/-- `VmDevGroup::new`. -/
def new : VmDevGroup := ⟨[]⟩

/-- `add_dev`: the device is pushed at the end. -/
def addDev (g : VmDevGroup) (addr size : Nat) : VmDevGroup := ⟨g.devices ++ [⟨addr, size⟩]⟩

/-- `find_dev`: the first device whose window contains the address. -/
def findDev (g : VmDevGroup) (addr : Nat) : Option VmDev :=
  g.devices.find? (·.checkAddr addr)

end VmDevGroup

/-! ## §2 The handler and the exit loop -/

/-- `MappingFlags::from_bits(0xf).unwrap()`, the flags of `main` and of `handle_mmio`:
    `READ | WRITE | EXECUTE | USER`. -/
def fullAccess : MappingFlags := 0xf

/-- `handle_mmio`: the 4K range at the fault address, mapped onto itself. The device itself
    is not read. -/
def VmDev.handleMmio (_self : VmDev) (addr : Nat) (aspace : AddrSpace) :
    Except AxError Unit × AddrSpace :=
  aspace.mapLinear addr addr 4096 fullAccess

/-- `PHY_MEM_START`. -/
def PHY_MEM_START : Nat := 0x8000_0000

/-- The fault address of a guest page fault: `htval << 2 | stval & 0x3`. -/
def faultAddr (htval stval : Nat) : Nat := htval <<< 2 ||| stval &&& 0x3

/-- The exits `vcpu_run` returns, in the arms `main` tells apart: `Nothing`, a
    `NestedPageFault` at an address, and any other exit or error. -/
inductive ExitReason where
  | nothing
  | nestedPageFault (addr : Nat)
  | unhandled
  deriving DecidableEq, Repr

/-- Why the loop of `main` panics. -/
inductive Halt where
  /-- `find_dev(addr).expect("No dev.")`. -/
  | noDev
  /-- `handle_mmio(addr, &mut aspace).unwrap()`. -/
  | mmio (e : AxError)
  /-- `unimplemented!("Handle #PF for memory region.")`. -/
  | memoryRegion
  /-- `panic!("Unhandled VM-Exit: ...")` or `panic!("run VCpu get error ...")`. -/
  | unhandledExit
  deriving DecidableEq, Repr

/-- One pass of the loop of `main`: the address space it goes on with, or the panic. -/
def handleExit (vmdevs : VmDevGroup) (aspace : AddrSpace) : ExitReason → Except Halt AddrSpace
  | .nothing => .ok aspace
  | .nestedPageFault addr =>
    if addr < PHY_MEM_START then
      match vmdevs.findDev addr with
      | none => .error .noDev
      | some dev =>
        match dev.handleMmio addr aspace with
        | (.ok (), aspace') => .ok aspace'
        | (.error e, _) => .error (.mmio e)
    else .error .memoryRegion
  | .unhandled => .error .unhandledExit

/-- The loop of `main` over a run of exits. -/
def runExits (vmdevs : VmDevGroup) : AddrSpace → List ExitReason → Except Halt AddrSpace
  | aspace, [] => .ok aspace
  | aspace, r :: rs =>
    match handleExit vmdevs aspace r with
    | .ok aspace' => runExits vmdevs aspace' rs
    | .error h => .error h

/-! ## §3 `find_dev` -/

namespace VmDevGroup

theorem findDev_eq_none_iff (g : VmDevGroup) (addr : Nat) :
    g.findDev addr = none ↔ ∀ dev ∈ g.devices, dev.checkAddr addr = false := by
  simp [findDev, List.find?_eq_none]

/-- `find_dev` returns the device at some index `i` whose window contains the address, no
    window before `i` containing it. -/
theorem findDev_eq_some_iff (g : VmDevGroup) (addr : Nat) (dev : VmDev) :
    g.findDev addr = some dev ↔
      ∃ i, ∃ h : i < g.devices.length, g.devices[i] = dev ∧ dev.checkAddr addr = true ∧
        ∀ j (hj : j < i), g.devices[j].checkAddr addr = false := by
  rw [findDev, List.find?_eq_some_iff_getElem]
  constructor
  · rintro ⟨hdev, i, h, hi, hbefore⟩
    exact ⟨i, h, hi, hdev, fun j hj => by simpa using hbefore j hj⟩
  · rintro ⟨i, h, hi, hdev, hbefore⟩
    exact ⟨hdev, i, h, hi, fun j hj => by simpa using hbefore j hj⟩

/-- The device `find_dev` returns is one of the group's, and its window contains the
    address. -/
theorem mem_of_findDev {g : VmDevGroup} {addr : Nat} {dev : VmDev}
    (h : g.findDev addr = some dev) : dev ∈ g.devices ∧ dev.checkAddr addr = true :=
  ⟨List.mem_of_find?_eq_some h, List.find?_some (p := fun d : VmDev => d.checkAddr addr) h⟩

/-- Registering a device keeps the answer for every address an earlier device serves, and
    the new device serves the addresses of its window no earlier device serves. -/
theorem findDev_addDev (g : VmDevGroup) (start size addr : Nat) :
    (g.addDev start size).findDev addr =
      (g.findDev addr).or (if (VmDev.checkAddr ⟨start, size⟩ addr) then some ⟨start, size⟩
        else none) := by
  simp only [findDev, addDev, List.find?_append, List.find?_singleton]

end VmDevGroup

/-! ## §4 `handle_mmio` -/

theorem alignDown4k_of_aligned {addr : Nat} (h : isAligned4k addr = true) :
    alignDown4k addr = addr := by
  simp only [isAligned4k, beq_iff_eq] at h
  exact Nat.div_mul_cancel (Nat.dvd_of_mod_eq_zero h)

/-- The 4K range at an address covers the page of the address, and no other. -/
theorem pages_4096 (addr : Nat) : pages addr 4096 = [addr / PAGE_SIZE_4K] := rfl

/-- A fault address off the start of a page fails the alignment check of `map_linear`, and
    the address space is left as it was. -/
theorem handleMmio_of_unaligned (dev : VmDev) {addr : Nat} (aspace : AddrSpace)
    (h : isAligned4k addr = false) :
    dev.handleMmio addr aspace = (.error .invalidInput, aspace) := by
  unfold VmDev.handleMmio AddrSpace.mapLinear AddrSpace.regionOp
  simp [h]

/-- The handler succeeds exactly when the fault address is the first of a page, the page lies
    in the address space, and its entry is unused. -/
theorem handleMmio_fst_eq_ok_iff (dev : VmDev) (addr : Nat) (aspace : AddrSpace) :
    (dev.handleMmio addr aspace).1 = .ok () ↔
      isAligned4k addr = true ∧ aspace.containsRange addr 4096 = true ∧
        aspace.pt (addr / PAGE_SIZE_4K) = Pte.unused := by
  have h4096 : isAligned4k 4096 = true := by decide
  rw [VmDev.handleMmio, AddrSpace.mapLinear, AddrSpace.regionOp_fst_eq_ok_iff, pages_4096,
    PageTable.mapRegion_singleton_ok_iff, h4096, Bool.and_self, Bool.and_true]
  exact and_left_comm

/-- After a successful call, the page of the fault address maps onto itself with the
    device flags, and nothing else has changed. -/
theorem handleMmio_snd_of_ok {dev : VmDev} {addr : Nat} {aspace : AddrSpace}
    (h : (dev.handleMmio addr aspace).1 = .ok ()) :
    (dev.handleMmio addr aspace).2 = { aspace with
      pt := Function.update aspace.pt (addr / PAGE_SIZE_4K) ⟨addr, fullAccess⟩ } := by
  obtain ⟨hal, hrange, hfree⟩ := (handleMmio_fst_eq_ok_iff dev addr aspace).mp h
  have hchecks : (isAligned4k addr && isAligned4k addr && isAligned4k 4096) = true := by
    rw [hal, show isAligned4k 4096 = true by decide]
    rfl
  -- the page's first address is the address itself, so the linear offset is zero
  have hpaddr : addr / PAGE_SIZE_4K * PAGE_SIZE_4K - addr + addr = addr := by
    rw [← alignDown4k, alignDown4k_of_aligned hal, Nat.sub_self, Nat.zero_add]
  rw [VmDev.handleMmio, AddrSpace.mapLinear, AddrSpace.regionOp_snd_of_checks _ _ hrange hchecks,
    pages_4096, PageTable.mapRegion_singleton _ _ hfree, hpaddr]

/-- Whenever the 4K page containing the fault address lies in the address space and is not
    yet mapped, the handler succeeds exactly when the address is that page's first. -/
theorem handleMmio_ok_iff (dev : VmDev) {addr : Nat} {aspace : AddrSpace}
    (hrange : aspace.containsRange (alignDown4k addr) 4096 = true)
    (hfree : aspace.pt (addr / PAGE_SIZE_4K) = Pte.unused) :
    (dev.handleMmio addr aspace).1 = .ok () ↔ isAligned4k addr = true := by
  rw [handleMmio_fst_eq_ok_iff]
  constructor
  · exact fun h => h.1
  · intro hal
    exact ⟨hal, alignDown4k_of_aligned hal ▸ hrange, hfree⟩

/-! ## §5 The exit loop -/

/-- The fault address is the guest-physical address of the access whenever `stval` agrees
    with it in the two low bits, as the faulting guest-virtual address does. -/
theorem faultAddr_of_guest {gpa stval : Nat} (h : stval % 4 = gpa % 4) :
    faultAddr (gpa >>> 2) stval = gpa := by
  have h' : stval % 2 ^ 2 = gpa % 2 ^ 2 := h
  have hlow : stval &&& 0x3 = gpa % 2 ^ 2 := by
    rw [show (0x3 : Nat) = 2 ^ 2 - 1 from rfl, Nat.and_two_pow_sub_one_eq_mod, h']
  rw [faultAddr, hlow, ← Nat.shiftLeft_add_eq_or_of_lt (Nat.mod_lt gpa (Nat.two_pow_pos 2)),
    Nat.shiftLeft_eq, Nat.shiftRight_eq_div_pow, Nat.div_add_mod']

/-- A fault off the first address of a page, below `PHY_MEM_START` and in a device window,
    panics the loop at the `unwrap` of `handle_mmio`. -/
theorem handleExit_of_unaligned (vmdevs : VmDevGroup) (aspace : AddrSpace) {addr : Nat}
    (hlow : addr < PHY_MEM_START) (hwin : ∃ dev ∈ vmdevs.devices, dev.checkAddr addr = true)
    (hal : isAligned4k addr = false) :
    handleExit vmdevs aspace (.nestedPageFault addr) = .error (.mmio .invalidInput) := by
  obtain ⟨dev, hfind⟩ : ∃ dev, vmdevs.findDev addr = some dev := by
    obtain ⟨d, hd, hc⟩ := hwin
    exact Option.ne_none_iff_exists'.mp fun hnone =>
      absurd ((vmdevs.findDev_eq_none_iff addr).mp hnone d hd) (by rw [hc]; decide)
  simp only [handleExit, if_pos hlow, hfind, handleMmio_of_unaligned dev aspace hal]

/-- What the loop may change in the address space: an entry either keeps its value or maps
    its page onto itself with the device flags, the page starting in a device window. -/
structure MmioOnly (vmdevs : VmDevGroup) (aspace aspace' : AddrSpace) : Prop where
  vaStart : aspace'.vaStart = aspace.vaStart
  vaEnd : aspace'.vaEnd = aspace.vaEnd
  areas : aspace'.areas = aspace.areas
  pt : ∀ v, aspace'.pt v = aspace.pt v ∨
    (∃ dev ∈ vmdevs.devices, dev.checkAddr (v * PAGE_SIZE_4K) = true) ∧
      aspace'.pt v = ⟨v * PAGE_SIZE_4K, fullAccess⟩

namespace MmioOnly

variable {vmdevs : VmDevGroup}

theorem refl (aspace : AddrSpace) : MmioOnly vmdevs aspace aspace :=
  ⟨rfl, rfl, rfl, fun _ => .inl rfl⟩

theorem trans {a₁ a₂ a₃ : AddrSpace} (h₁ : MmioOnly vmdevs a₁ a₂) (h₂ : MmioOnly vmdevs a₂ a₃) :
    MmioOnly vmdevs a₁ a₃ := by
  refine ⟨h₂.vaStart.trans h₁.vaStart, h₂.vaEnd.trans h₁.vaEnd, h₂.areas.trans h₁.areas,
    fun v => ?_⟩
  rcases h₂.pt v with hv | hv
  · -- the second pass kept the entry: it is as the first pass left it
    rw [hv]
    exact h₁.pt v
  · exact .inr hv

/-- A successful `handle_mmio` of a device of the group changes only the page it maps. -/
theorem of_handleMmio {dev : VmDev} {addr : Nat} {aspace : AddrSpace}
    (hdev : dev ∈ vmdevs.devices) (hwin : dev.checkAddr addr = true)
    (h : (dev.handleMmio addr aspace).1 = .ok ()) :
    MmioOnly vmdevs aspace (dev.handleMmio addr aspace).2 := by
  have hpage : addr / PAGE_SIZE_4K * PAGE_SIZE_4K = addr :=
    alignDown4k_of_aligned ((handleMmio_fst_eq_ok_iff dev addr aspace).mp h).1
  rw [handleMmio_snd_of_ok h]
  refine ⟨rfl, rfl, rfl, fun v => ?_⟩
  dsimp only
  by_cases hv : v = addr / PAGE_SIZE_4K
  · subst hv
    rw [hpage, Function.update_self]
    exact .inr ⟨⟨dev, hdev, hwin⟩, rfl⟩
  · exact .inl (Function.update_of_ne hv _ _)

end MmioOnly

/-- One pass of the loop that does not panic changes only device pages. -/
theorem handleExit_mmioOnly {vmdevs : VmDevGroup} {aspace aspace' : AddrSpace} {r : ExitReason}
    (h : handleExit vmdevs aspace r = .ok aspace') : MmioOnly vmdevs aspace aspace' := by
  cases r with
  | nothing =>
    cases h
    exact .refl _
  | unhandled => cases h
  | nestedPageFault addr =>
    dsimp only [handleExit] at h
    split_ifs at h with hlow
    rcases hfind : vmdevs.findDev addr with _ | dev <;> rw [hfind] at h
    · cases h
    · obtain ⟨hdev, hwin⟩ := VmDevGroup.mem_of_findDev hfind
      dsimp only at h
      rcases hm : dev.handleMmio addr aspace with ⟨_ | _, aspace''⟩ <;> rw [hm] at h
      · cases h
      · cases h
        have hok : (dev.handleMmio addr aspace).1 = .ok () := by rw [hm]
        have := MmioOnly.of_handleMmio hdev hwin hok
        rwa [hm] at this

/-- Along every run of the loop that has not panicked, the only entries of the page table
    that changed map their pages onto themselves with the device flags, each page starting
    in a device window. The induction is on the exits, one pass at a time. -/
theorem runExits_mmioOnly (vmdevs : VmDevGroup) {aspace aspace' : AddrSpace}
    {rs : List ExitReason} (h : runExits vmdevs aspace rs = .ok aspace') :
    MmioOnly vmdevs aspace aspace' := by
  induction rs generalizing aspace with
  | nil =>
    cases h
    exact .refl _
  | cons r rs ih =>
    unfold runExits at h
    rcases hstep : handleExit vmdevs aspace r with e | aspace₁ <;> rw [hstep] at h
    · cases h
    · exact (handleExit_mmioOnly hstep).trans (ih h)

/-! ## §6 The tour's hypervisor -/

/-- `VM_ASPACE_BASE`. -/
def VM_ASPACE_BASE : Nat := 0x0

/-- `VM_ASPACE_SIZE`. -/
def VM_ASPACE_SIZE : Nat := 0x7fff_ffff_f000

/-- `PHY_MEM_SIZE`. -/
def PHY_MEM_SIZE : Nat := 0x100_0000

/-- The address space `main` enters the loop with: `new_empty`, and the guest memory mapped
    by `map_alloc` with frames from the allocator. -/
def tourAspace (frames : Nat → Option Nat) : AddrSpace :=
  ((AddrSpace.newEmpty VM_ASPACE_BASE VM_ASPACE_SIZE).mapAlloc PHY_MEM_START PHY_MEM_SIZE
    fullAccess true frames).2

/-- The devices of `main`: the pflash window `[0x2200_0000, 0x2400_0000)`. -/
def tourDevs : VmDevGroup := VmDevGroup.new.addDev 0x2200_0000 0x200_0000

/-- A nested page fault at `0x2200_0004`, inside the pflash window and on a page that lies
    in the address space and is not mapped, reaches `map_linear` with that unaligned
    address, which fails with `InvalidInput`: the `unwrap` of `main` panics. -/
theorem mmio_fault_off_page_start_panics (frames : Nat → Option Nat) :
    faultAddr (0x2200_0004 >>> 2) 0x2200_0004 = 0x2200_0004 ∧
      tourDevs.findDev 0x2200_0004 = some ⟨0x2200_0000, 0x200_0000⟩ ∧
      (tourAspace frames).containsRange (alignDown4k 0x2200_0004) 4096 = true ∧
      (tourAspace frames).pt (0x2200_0004 / PAGE_SIZE_4K) = Pte.unused ∧
      runExits tourDevs (tourAspace frames)
        [.nestedPageFault (faultAddr (0x2200_0004 >>> 2) 0x2200_0004)] =
        .error (.mmio .invalidInput) := by
  have hfault : faultAddr (0x2200_0004 >>> 2) 0x2200_0004 = 0x2200_0004 := by decide
  -- the pflash page lies below the guest memory that `map_alloc` maps
  have hout : 0x2200_0004 / PAGE_SIZE_4K ∉ pages PHY_MEM_START PHY_MEM_SIZE := by
    simp only [mem_pages, PAGE_SIZE_4K, PHY_MEM_START, PHY_MEM_SIZE]
    omega
  obtain ⟨hstart, hend, hpt⟩ := AddrSpace.mapAlloc_frame
    (AddrSpace.newEmpty VM_ASPACE_BASE VM_ASPACE_SIZE) PHY_MEM_START PHY_MEM_SIZE fullAccess
    true frames hout
  have hpanic := @handleExit_of_unaligned tourDevs (tourAspace frames) 0x2200_0004
    (by decide) ⟨⟨0x2200_0000, 0x200_0000⟩, List.mem_singleton_self _, by decide⟩ (by decide)
  refine ⟨hfault, by decide, ?_, hpt, ?_⟩
  · rw [AddrSpace.containsRange, tourAspace, hstart, hend]
    decide
  · rw [hfault, runExits, hpanic]

end ArceOS.Hv
