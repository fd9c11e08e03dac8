/-
Runs on the kernel's page map: calls of the virtual memory manager, objects of the
global allocator, devices that are mapped, and owners that write into their memory; and
the region list in the states of such runs.
-/

import NyauxKernel.Memory.Devices
import NyauxKernel.Memory.Objects

namespace NyauxKernel.Memory

open ExceptFold

/-! ### The record of calls -/

variable {hhdm : Nat} {pagemap : Pagemap} {m m' : Machine} {boot : Boot}

theorem insertRegion_allocates {amount node : Nat} {flags : VMMFlags}
    (done : insertRegion hhdm pagemap amount flags m = .ok (node, m')) : Allocates m m' := by
  unfold insertRegion at done
  split at done
  · contradiction
  · obtain ⟨place, _, rest⟩ := ok_of_bind done
    cases place with
    | error message => contradiction
    | ok location =>
        obtain ⟨⟨e, t⟩, made, last⟩ := ok_of_bind rest
        obtain ⟨_, rfl⟩ := Prod.mk.inj (Except.ok.inj last)
        exact (regionNew_allocates made).trans
          ((setRegionNext_writes _ _ _).allocates.trans (setRegionNext_writes _ _ _).allocates)

variable {base needed ptr root size : Nat} {pagemap' : Pagemap} {uses : Uses}

theorem mapGiven_allocates {phys : List Nat} {flags : PT} {entry : Nat × Nat}
    (done : mapGiven hhdm root phys flags m entry = .ok m') : Allocates m m' := by
  unfold mapGiven at done
  split at done
  · contradiction
  · exact map4kib_allocates (map4kibUnwrap_ok done)

theorem RegionCall.run_allocates (call : RegionCall)
    (done : call.run hhdm pagemap m = .ok (base, m')) : Allocates m m' := by
  cases call with
  | vmmAlloc amount flags =>
      obtain ⟨⟨node, t⟩, made, rest⟩ := ok_of_bind done
      obtain ⟨after, filled, last⟩ := ok_of_bind rest
      obtain ⟨_, rfl⟩ := Prod.mk.inj (Except.ok.inj last)
      exact (insertRegion_allocates made).trans (rel_of_foldlM Allocates Allocates.refl Allocates.trans
        (fun turned => fillPage_allocates turned) _ filled)
  | vmmAllocWithPhys amount flags pa =>
      obtain ⟨⟨node, t⟩, made, rest⟩ := ok_of_bind done
      obtain ⟨after, mapped, last⟩ := ok_of_bind rest
      obtain ⟨_, rfl⟩ := Prod.mk.inj (Except.ok.inj last)
      exact (insertRegion_allocates made).trans (rel_of_foldlM Allocates Allocates.refl Allocates.trans
        (fun turned => mapGiven_allocates turned) _ mapped)
  | vmmAllocWithoutBacking amount flags =>
      obtain ⟨⟨node, t⟩, made, last⟩ := ok_of_bind done
      obtain ⟨_, rfl⟩ := Prod.mk.inj (Except.ok.inj last)
      exact insertRegion_allocates made

theorem unmap_grows {virt : Nat} (done : unmap hhdm root virt m = .ok m') : Grows m m' := by
  obtain ⟨⟨found, t⟩, walked, rest⟩ := ok_of_bind done
  obtain rfl := getTableLoop_same _ _ walked
  cases found with
  | error message =>
      obtain rfl := Except.ok.inj rest
      exact Grows.refl _
  | ok entry =>
      dsimp only at rest
      split at rest
      · obtain ⟨after, released, last⟩ := ok_of_bind rest
        obtain rfl := Except.ok.inj last
        have first : Grows t after := deallocatePage_grows released
        exact first
      · obtain rfl := Except.ok.inj rest
        exact Grows.refl _

theorem slabDealloc_calls (object : Nat) (m : Machine) :
    (slabDealloc object m).pmmCalls = m.pmmCalls := by
  unfold slabDealloc
  split
  · rfl
  · dsimp only
    split
    · rfl
    · rfl

theorem vmmDeallocLoop_grows (fuel : Nat) {prev cur : Option Nat}
    (done : vmmDeallocLoop hhdm base fuel prev cur pagemap m = .ok (pagemap', m')) :
    Grows m m' := by
  induction fuel generalizing prev cur with
  | zero => contradiction
  | succ fuel inductionHypothesis =>
      cases cur with
      | none =>
          obtain ⟨_, rfl⟩ := Prod.mk.inj (Except.ok.inj done)
          exact Grows.refl _
      | some current =>
          rw [vmmDeallocLoop] at done
          split at done
          · obtain ⟨t, unmapped, rest⟩ := ok_of_bind done
            have first : Grows m t := rel_of_foldlM Grows Grows.refl Grows.trans
              (fun turned => unmap_grows turned) _ unmapped
            cases prev with
            | none =>
                obtain ⟨_, rfl⟩ := Prod.mk.inj (Except.ok.inj rest)
                exact first.trans (Grows.of_eq (slabDealloc_calls _ _))
            | some yo =>
                obtain ⟨_, rfl⟩ := Prod.mk.inj (Except.ok.inj rest)
                refine first.trans ?_
                rw [Grows, slabDealloc_calls]
                exact (setRegionNext_writes t yo _).grows
          · exact inductionHypothesis done

theorem vmmDealloc_grows {userAllocated : Bool}
    (done : vmmDealloc hhdm pagemap base userAllocated m = .ok (pagemap', m')) : Grows m m' := by
  unfold vmmDealloc at done
  split at done
  · obtain ⟨_, rfl⟩ := Prod.mk.inj (Except.ok.inj done)
    exact Grows.refl _
  · split at done
    · contradiction
    · exact vmmDeallocLoop_grows _ done

theorem NAlloc.alloc_allocates (done : NAlloc.alloc hhdm size m = .ok (ptr, m')) :
    Allocates m m' := by
  unfold NAlloc.alloc at done
  split at done
  · obtain ⟨⟨result, t⟩, taken, rest⟩ := ok_of_bind done
    cases result with
    | none => contradiction
    | some object =>
        obtain ⟨_, rfl⟩ := Prod.mk.inj (Except.ok.inj rest)
        exact slabAlloc_allocates taken
  · split at done
    · contradiction
    · exact RegionCall.run_allocates (.vmmAlloc size writeFlags) done

theorem NAlloc.dealloc_grows (done : NAlloc.dealloc hhdm ptr size m = .ok m') : Grows m m' := by
  unfold NAlloc.dealloc at done
  split at done
  · obtain rfl := Except.ok.inj done
    exact Grows.of_eq (slabDealloc_calls _ _)
  · split at done
    · contradiction
    · obtain ⟨⟨pagemap, t⟩, deallocated, rest⟩ := ok_of_bind done
      obtain rfl := Except.ok.inj rest
      have grows : Grows m t := vmmDealloc_grows deallocated
      exact grows

/-! ### Runs -/

/-- What is in use: the live allocations, the frames of callers that the page allocator was
given, the small blocks of the global allocator, and the devices that are mapped. -/
structure Uses where
  live : List Allocation := []
  lent : List Nat := []
  objects : List (Nat × Nat) := []
  devices : List Device := []

/-- The addresses in the direct map that belong to a user: bytes of an object, or the frames
of a region that has its own. -/
def Uses.Owns (uses : Uses) (hhdm address : Nat) : Prop :=
  (∃ object ∈ uses.objects, object.1 ≤ address ∧ address < object.1 + object.2) ∨
    ∃ allocation ∈ uses.live, (∃ amount flags, allocation.call = .vmmAlloc amount flags) ∧
      ∃ frame ∈ allocation.frames, InPage (frame + hhdm) address

/-- Which calls a run makes; which regions it gives back, with the frames of callers that
were given to the page allocator before; and which physical bases of devices go with the
state before a step and the amount that the step is to allocate. -/
structure Terms where
  call : RegionCall → Prop
  release : List Nat → RegionCall → Prop
  apart : Boot → Machine → Nat → Nat → Prop

/-- The machines after the boot sequence.  Requests of the global allocator for more than
1024 bytes are the calls of `vmm_alloc`. -/
inductive VmmRun (boot : Boot) (terms : Terms) : Machine → Uses → Prop
  | boot {m : Machine} (booted : Booted boot m) : VmmRun boot terms m {}
  | call {m m' : Machine} {uses : Uses} {pagemap : Pagemap} {base : Nat} (call : RegionCall)
      (before : VmmRun boot terms m uses) (kermap : m.kermap = some pagemap)
      (allowed : terms.call call)
      (apart : ∀ device ∈ uses.devices,
        terms.apart boot m (alignUp call.amount pageSize) device.phys)
      (done : call.run boot.hhdm pagemap m = .ok (base, m')) :
      VmmRun boot terms m'
        { uses with live := allocated boot.hhdm pagemap m' call base :: uses.live }
  | dealloc {m m' : Machine} {uses : Uses} {pagemap pagemap' : Pagemap}
      {allocation : Allocation} (before : VmmRun boot terms m uses)
      (kermap : m.kermap = some pagemap) (member : allocation ∈ uses.live)
      (allowed : terms.release uses.lent allocation.call)
      (done : vmmDealloc boot.hhdm pagemap allocation.base false m = .ok (pagemap', m')) :
      VmmRun boot terms { m' with kermap := some pagemap' }
        { uses with
          live := uses.live.erase allocation
          lent := allocation.call.given ++ uses.lent }
  | alloc {m m' : Machine} {uses : Uses} {ptr : Nat} (size : Nat)
      (before : VmmRun boot terms m uses) (small : size ≤ 1024)
      (done : NAlloc.alloc boot.hhdm size m = .ok (ptr, m')) :
      VmmRun boot terms m' { uses with objects := (ptr, size) :: uses.objects }
  | free {m m' : Machine} {uses : Uses} {object : Nat × Nat} (before : VmmRun boot terms m uses)
      (member : object ∈ uses.objects)
      (done : NAlloc.dealloc boot.hhdm object.1 object.2 m = .ok m') :
      VmmRun boot terms m' { uses with objects := uses.objects.erase object }
  | use {m : Machine} {uses : Uses} (memory : Nat → Nat) (before : VmmRun boot terms m uses)
      (own : ∀ address, memory address ≠ m.memory address → uses.Owns boot.hhdm address) :
      VmmRun boot terms { m with memory := memory } uses
  | device {m m' : Machine} {uses : Uses} {pagemap : Pagemap} {virt : Nat} (device : Device)
      (before : VmmRun boot terms m uses) (kermap : m.kermap = some pagemap)
      (apart : terms.apart boot m 0 device.phys)
      (done : device.new boot.hhdm pagemap m = .ok (virt, m')) :
      VmmRun boot terms m' { uses with devices := device :: uses.devices }

/-- The frames that `pmm::init` puts on the free list. -/
def usableFrames (boot : Boot) : List Nat := (boot.entries.flatMap usablePages).filter (· ≠ 0)

/-- Memory that the boot sequence does not hand out and that can be written through the
direct map without harm: a page of ACPI tables or of a module, and none of the kernel. -/
structure Spare (boot : Boot) (frame : Nat) : Prop where
  aligned : frame % pageSize = 0
  real : frame ≠ 0
  direct : frame + pageSize ≤ directSize boot
  memory : ∃ entry ∈ boot.entries,
    (entry.type = .acpiReclaimable ∨ entry.type = .executableAndModules) ∧
      entry.base ≤ frame ∧ frame + pageSize ≤ entry.base + entry.length
  noKernel : frame + pageSize ≤ boot.physicalBase ∨
    boot.physicalBase + kernelSize boot ≤ frame

theorem Spare.usable (good : GoodBoot boot) {frame : Nat} (spare : Spare boot frame) :
    Usable boot.hhdm frame := by
  have aligned := spare.aligned
  have real := spare.real
  have direct := spare.direct
  have offset := good.offset
  have high := good.high
  have above := good.kernelAbove
  have inside := good.kernelInside.1
  refine ⟨⟨aligned, ?_⟩, real, ⟨?_, ?_, ?_⟩⟩
  all_goals
    unfold pageSize higherHalf addressSpace at *
    omega

/-- Frames of a caller that are memory nobody else has. -/
structure Unclaimed (boot : Boot) (lent frames : List Nat) : Prop where
  distinct : frames.Nodup
  spare : ∀ frame ∈ frames, Spare boot frame
  unmanaged : ∀ frame ∈ frames, frame ∉ usableFrames boot ∧ frame ∉ lent

theorem Unclaimed.foreign (good : GoodBoot boot) {lent frames : List Nat}
    (unclaimed : Unclaimed boot lent frames) {ram : Ram} (offset : ram.hhdm = boot.hhdm)
    (managed : ∀ frame ∈ ram.frames, frame ∈ usableFrames boot ∨ frame ∈ lent) :
    Foreign ram frames where
  distinct := unclaimed.distinct
  usable := fun frame member => offset ▸ (unclaimed.spare frame member).usable good
  unmanaged := by
    intro frame member inRam
    rcases managed frame inRam with usable | old
    · exact (unclaimed.unmanaged frame member).1 usable
    · exact (unclaimed.unmanaged frame member).2 old

/-- The pages that the devices are mapped at. -/
def Uses.devicePages (uses : Uses) (hhdm : Nat) : List Nat :=
  uses.devices.map fun device => pageNumber (device.address hhdm)

/-- The page map of a run. -/
structure VmmState (boot : Boot) (ram : Ram) (pagemap : Pagemap) (v : View) (m : Machine)
    (regions : List Region) (uses : Uses) : Prop where
  offset : ram.hhdm = boot.hhdm
  managed : ∀ frame ∈ ram.frames, frame ∈ usableFrames boot ∨ frame ∈ uses.lent
  space : Space boot ram pagemap v m regions uses.live uses.objects (uses.devicePages boot.hhdm)
  uncovered : ∀ allocation ∈ uses.live, ∀ device ∈ uses.devices,
    ¬allocation.Covers (device.address boot.hhdm)

def VmmInv (boot : Boot) (m : Machine) (uses : Uses) : Prop :=
  ∃ ram pagemap v regions, VmmState boot ram pagemap v m regions uses

theorem Booted.space (good : GoodBoot boot) (booted : Booted boot m) (supplied : Supplied m) :
    ∃ pagemap v regions, Space boot good.ram pagemap v m regions [] [] := by
  obtain ⟨pagemap, v, direct, kernel, invariant, _⟩ := booted.kernel good supplied
  refine ⟨pagemap, v, _, invariant, ?_, direct, kernel, [], [], rfl, List.Perm.refl _,
    List.Forall₂.nil⟩
  intro region member
  rcases List.mem_pair.mp member with rfl | rfl
  · exact good.direct
  · exact good.kernelReal

theorem Booted.vmmInv (good : GoodBoot boot) (booted : Booted boot m) (supplied : Supplied m) :
    VmmInv boot m {} := by
  obtain ⟨pagemap, v, regions, space⟩ := booted.space good supplied
  exact ⟨good.ram, pagemap, v, regions, rfl, fun _ member => Or.inl member, space,
    fun _ member => absurd member List.not_mem_nil⟩

theorem kermap_eta (kermap : m.kermap = some pagemap) : { m with kermap := some pagemap } = m := by
  rw [← kermap]

/-- Objects of the slabs are those of at most 1024 bytes. -/
theorem slabClass_small {request : Nat} (found : slabClass request = some size) :
    request ≤ 1024 := by
  have member := List.mem_of_find?_eq_some found
  have enough := List.find?_some found
  have most : ∀ size ∈ slabSizes, size ≤ 1024 := by decide
  have bound := most size member
  simp only [decide_eq_true_eq] at enough
  omega

namespace VmmState

variable {ram : Ram} {v : View} {regions : List Region}

theorem device_page (state : VmmState boot ram pagemap v m regions uses)
    {allocation : Allocation} (member : allocation ∈ uses.live) :
    ∀ page ∈ (regionPages allocation.base allocation.length).map pageNumber,
      page ∉ uses.devicePages boot.hhdm := by
  intro page inPages isDevice
  obtain ⟨device, inDevices, rfl⟩ := List.mem_map.mp isDevice
  exact state.uncovered allocation member device inDevices inPages

/-- A call that returned, on terms that keep the devices clear of its region. -/
theorem call (state : VmmState boot ram pagemap v m regions uses) (good : GoodBoot boot)
    {call : RegionCall} (sized : Sized call.amount)
    (clear : ∀ device ∈ uses.devices,
      Clear boot m (alignUp call.amount pageSize) device.phys) {base : Nat}
    (done : call.run boot.hhdm pagemap m = .ok (base, m')) (supplied : Supplied m') :
    ∃ v' regions', VmmState boot ram pagemap v' m' regions'
        { uses with live := allocated boot.hhdm pagemap m' call base :: uses.live } ∧
      ∀ page ∉ (regionPages base (alignUp call.amount pageSize)).map pageNumber,
        entries ram v' m' page = entries ram v m page := by
  have offset := state.offset
  rw [← offset] at done
  obtain ⟨v', regions', after, same, ⟨new, makes, placed⟩, _⟩ :=
    state.space.call call sized done supplied
  obtain ⟨prev, inRegions, baseEq⟩ := placed.behind
  replace baseEq : base = prev.base + prev.length := makes.base.symm.trans baseEq
  rw [offset] at after
  refine ⟨v', regions', ⟨offset, state.managed, after, ?_⟩, same⟩
  intro allocation member device isDevice
  rcases List.mem_cons.mp member with rfl | older
  · have starts : prev.base ≤ base := by omega
    exact state.space.not_covers good (clear device isDevice) after List.mem_cons_self inRegions
      starts
      (Nat.le_of_eq (congrArg (· + alignUp call.amount pageSize) baseEq))
  · exact state.uncovered allocation older device isDevice

theorem dealloc (state : VmmState boot ram pagemap v m regions uses) (good : GoodBoot boot)
    {allocation : Allocation} (member : allocation ∈ uses.live)
    (unclaimed : Unclaimed boot uses.lent allocation.call.given)
    (done : vmmDealloc boot.hhdm pagemap allocation.base false m = .ok (pagemap', m')) :
    VmmInv boot { m' with kermap := some pagemap' }
      { uses with
        live := uses.live.erase allocation
        lent := allocation.call.given ++ uses.lent } := by
  have offset := state.offset
  obtain ⟨ram', v', t, front, region, back, dealloc, _, _, offset', frames, after⟩ :=
    state.space.dealloc member (unclaimed.foreign good offset state.managed)
      (state.device_page member)
  rw [offset] at dealloc
  obtain ⟨rfl, rfl⟩ := Prod.mk.inj (Except.ok.inj (done.symm.trans dealloc))
  rw [kermap_eta after.kernel.kermap]
  refine ⟨ram', pagemap', v', front ++ back, offset'.trans offset, ?_, after, ?_⟩
  · intro frame inRam
    rcases List.mem_append.mp (frames inRam) with given | old
    · exact Or.inr (List.mem_append_left _ given)
    · exact (state.managed frame old).imp_right (List.mem_append_right _)
  · exact fun other inRest => state.uncovered other (List.mem_of_mem_erase inRest)

theorem alloc (state : VmmState boot ram pagemap v m regions uses) {size ptr : Nat}
    (small : size ≤ 1024) (done : NAlloc.alloc boot.hhdm size m = .ok (ptr, m'))
    (supplied : Supplied m') :
    ∃ v', VmmState boot ram pagemap v' m' regions
      { uses with objects := (ptr, size) :: uses.objects } := by
  rw [← state.offset] at done
  obtain ⟨v', after⟩ := state.space.alloc small done supplied
  exact ⟨v', state.offset, state.managed, after, state.uncovered⟩

theorem free (state : VmmState boot ram pagemap v m regions uses) {object : Nat × Nat}
    (member : object ∈ uses.objects)
    (done : NAlloc.dealloc boot.hhdm object.1 object.2 m = .ok m') :
    ∃ v', VmmState boot ram pagemap v' m' regions
      { uses with objects := uses.objects.erase object } := by
  obtain ⟨size, found, _⟩ := state.space.kernel.records.blockLive object member
  rw [NAlloc.dealloc, if_pos (slabClass_small found)] at done
  obtain rfl := Except.ok.inj done
  obtain ⟨v', after⟩ := state.space.free member
  exact ⟨v', state.offset, state.managed, after, state.uncovered⟩

/-- What users own is not used by the allocators themselves. -/
theorem owns_lent (state : VmmState boot ram pagemap v m regions uses) {address : Nat}
    (owns : uses.Owns boot.hhdm address) : Kernel.Lent ram v uses.objects address := by
  rcases owns with ⟨object, member, low, high⟩ | ⟨allocation, member, ⟨amount, flags, own⟩, inFrame⟩
  · obtain ⟨size, found, isLive⟩ := state.space.kernel.records.blockLive object member
    have enough := List.find?_some found
    simp only [decide_eq_true_eq] at enough
    refine Or.inl ⟨object, member, size, isLive, low, ?_⟩
    omega
  · obtain ⟨region, inRegions, makes, _⟩ := state.space.region_of_allocation member
    have backing := makes.backing
    rw [own] at backing
    obtain ⟨frame, inFrames, inside⟩ := inFrame
    have backs := state.space.kernel.content.backed region inRegions _ _ backing
    obtain ⟨virt, _, owned, _⟩ := exists_left_of_forall₂ backs inFrames
    have aligned := (state.space.kernel.store.usable owned (by simp)).frameOk.aligned
    exact Or.inr ⟨pageNumber virt, frame, aligned, owned, state.offset ▸ inside⟩

theorem use (state : VmmState boot ram pagemap v m regions uses) {memory : Nat → Nat}
    (own : ∀ address, memory address ≠ m.memory address → uses.Owns boot.hhdm address) :
    VmmState boot ram pagemap v { m with memory := memory } regions uses where
  offset := state.offset
  managed := state.managed
  space :=
    { kernel := state.space.kernel.use fun address changed => state.owns_lent (own address changed)
      positive := state.space.positive
      shape := state.space.shape }
  uncovered := state.uncovered

theorem device (state : VmmState boot ram pagemap v m regions uses) (good : GoodBoot boot)
    {device : Device} (clear : Clear boot m 0 device.phys) {virt : Nat}
    (done : device.new boot.hhdm pagemap m = .ok (virt, m')) (supplied : Supplied m') :
    ∃ v', VmmState boot ram pagemap v' m' regions
        { uses with devices := device :: uses.devices } ∧
      ∀ page, page ≠ pageNumber (device.address boot.hhdm) →
        entries ram v' m' page = entries ram v m page := by
  have uncovered : ∀ allocation ∈ uses.live, ¬allocation.Covers (device.address boot.hhdm) :=
    fun allocation member => state.space.clear_not_covers good clear member
  have offset := state.offset
  rw [← offset] at done uncovered
  obtain ⟨v', after, same⟩ := state.space.device done supplied uncovered
  rw [offset] at after same uncovered
  refine ⟨v', ⟨offset, state.managed, after, ?_⟩, same⟩
  intro allocation member other isDevice
  rcases List.mem_cons.mp isDevice with rfl | older
  · exact uncovered allocation member
  · exact state.uncovered allocation member other older

end VmmState

/-- The invariant along a run on terms that keep to amounts that do not wrap, to unclaimed
frames and to devices that are clear of the regions. -/
theorem VmmRun.inv (good : GoodBoot boot) {terms : Terms}
    (sized : ∀ call, terms.call call → Sized call.amount)
    (unclaimed : ∀ lent call, terms.release lent call → Unclaimed boot lent call.given)
    (clear : terms.apart = Clear) (run : VmmRun boot terms m uses) (supplied : Supplied m) :
    VmmInv boot m uses := by
  induction run with
  | boot booted => exact booted.vmmInv good supplied
  | call call before kermap allowed apart done inductionHypothesis =>
      obtain ⟨ram, pagemap, v, regions, state⟩ :=
        inductionHypothesis (supplied.before (call.run_allocates done).grows)
      obtain rfl := Option.some.inj (state.space.kernel.kermap.symm.trans kermap)
      rw [clear] at apart
      obtain ⟨v', regions', after, _⟩ :=
        state.call good (sized call allowed) apart done supplied
      exact ⟨ram, pagemap, v', regions', after⟩
  | @dealloc m m' uses pagemap pagemap' allocation before kermap member allowed done
      inductionHypothesis =>
      have grows : Grows m m' := vmmDealloc_grows done
      obtain ⟨ram, pagemap, v, regions, state⟩ :=
        inductionHypothesis (Supplied.before supplied grows)
      obtain rfl := Option.some.inj (state.space.kernel.kermap.symm.trans kermap)
      exact state.dealloc good member (unclaimed _ _ allowed) done
  | alloc size before small done inductionHypothesis =>
      obtain ⟨ram, pagemap, v, regions, state⟩ :=
        inductionHypothesis (supplied.before (NAlloc.alloc_allocates done).grows)
      obtain ⟨v', after⟩ := state.alloc small done supplied
      exact ⟨ram, pagemap, v', regions, after⟩
  | free before member done inductionHypothesis =>
      obtain ⟨ram, pagemap, v, regions, state⟩ :=
        inductionHypothesis (supplied.before (NAlloc.dealloc_grows done))
      obtain ⟨v', after⟩ := state.free member done
      exact ⟨ram, pagemap, v', regions, after⟩
  | use memory before own inductionHypothesis =>
      obtain ⟨ram, pagemap, v, regions, state⟩ := inductionHypothesis supplied
      exact ⟨ram, pagemap, v, regions, state.use own⟩
  | device device before kermap apart done inductionHypothesis =>
      obtain ⟨ram, pagemap, v, regions, state⟩ :=
        inductionHypothesis (supplied.before (Device.new_allocates done).grows)
      obtain rfl := Option.some.inj (state.space.kernel.kermap.symm.trans kermap)
      rw [clear] at apart
      obtain ⟨v', after, _⟩ := state.device good apart done supplied
      exact ⟨ram, pagemap, v', regions, after⟩

/-! ### The region list -/

/-- The list from `khead`: in order, aligned, without overlaps, and with the two regions
of `vmm_init` and one for each live allocation. -/
structure RegionListOk (boot : Boot) (m : Machine) (pagemap : Pagemap) (regions : List Region)
    (live : List Allocation) : Prop where
  listed : Listed m pagemap.khead regions
  increasing : regions.Pairwise fun region other => region.base < other.base
  disjoint : regions.Pairwise fun region other => region.base + region.length ≤ other.base
  aligned : ∀ region ∈ regions, region.base % pageSize = 0 ∧ region.length % pageSize = 0
  complete : (regions.map fun region => (region.base, region.length)).Perm
    ((boot.hhdm, directSize boot) :: (boot.virtualBase, kernelSize boot) ::
      live.map fun allocation => (allocation.base, alignUp allocation.call.amount pageSize))

/-- What the search for `needed` bytes is to find: the first two neighbours with such a
gap, or that there are none. -/
def LowestGap (regions : List Region) (needed : Nat) : Except String (Nat × Nat × Nat) → Prop
  | .error _ => ∀ front prev cur back, regions = front ++ prev :: cur :: back →
      cur.base < prev.base + prev.length + needed
  | .ok (base, prevNode, curNode) => ∃ front prev cur back,
      regions = front ++ prev :: cur :: back ∧ prevNode = prev.node ∧ curNode = cur.node ∧
      base = prev.base + prev.length ∧ prev.base + prev.length + needed ≤ cur.base ∧
      ∀ front' prev' cur' back', front ++ [prev] = front' ++ prev' :: cur' :: back' →
        cur'.base < prev'.base + prev'.length + needed

theorem makes_signatures {live : List Allocation} {made : List Region}
    (each : List.Forall₂ Makes live made) :
    made.map (fun region => (region.base, region.length)) =
      live.map fun allocation => (allocation.base, alignUp allocation.call.amount pageSize) := by
  induction each with
  | nil => rfl
  | cons makes _ inductionHypothesis =>
      rw [List.map_cons, List.map_cons, inductionHypothesis, makes.base, makes.length]
      rfl

/-- The computed gap is the distance. -/
theorem Layout.gap_lt {front back : List Region} {prev cur : Region}
    (layout : Layout (front ++ prev :: cur :: back)) :
    gap prev cur < needed ↔ cur.base < prev.base + prev.length + needed := by
  obtain ⟨noWrap, before⟩ := layout.wrap_end
  rw [gap, noWrap]
  omega

namespace Space

variable {ram : Ram} {v : View} {regions : List Region} {live : List Allocation}
  {blocks : List (Nat × Nat)} {devices : List Nat}

theorem regionList (space : Space boot ram pagemap v m regions live blocks devices) :
    RegionListOk boot m pagemap regions live where
  listed := space.kernel.records.listed
  increasing := space.increasing
  disjoint := space.kernel.layout.ordered
  aligned := space.kernel.layout.aligned
  complete := by
    obtain ⟨direct, node, middle, made, rfl, perm, each⟩ := space.shape
    rw [List.map_cons, List.map_append, ← makes_signatures each]
    exact List.Perm.cons _ (List.perm_append_comm.trans (List.Perm.cons _ (perm.map _)))

theorem lowestGap (space : Space boot ram pagemap v m regions live blocks devices) {amount : Nat}
    (sized : Sized amount) :
    ∃ result, calculateRegionLocation pagemap amount m = .ok result ∧
      LowestGap regions (alignUp amount pageSize + pageSize) result := by
  have layout := space.kernel.layout
  have needed : wrap (alignUp amount pageSize + pageSize) = alignUp amount pageSize + pageSize :=
    Nat.mod_eq_of_lt sized.fits
  refine ⟨_, space.kernel.records.listed.calculateRegionLocation_eq
    (space.kernel.records.short space.kernel.store.slab) amount, ?_⟩
  rw [needed]
  cases found : findGap (alignUp amount pageSize + pageSize) regions with
  | none =>
      intro front prev cur back split
      rw [← Layout.gap_lt (split ▸ layout)]
      exact findGap_eq_none_iff.mp found front prev cur back split
  | some pair =>
      obtain ⟨prev, cur⟩ := pair
      obtain ⟨front, back, rfl, enough, before⟩ := findGap_eq_some found
      have room : gap prev cur < alignUp amount pageSize + pageSize ↔ _ := layout.gap_lt
      refine ⟨front, prev, cur, back, rfl, rfl, rfl, layout.wrap_end.1, by omega, ?_⟩
      intro front' prev' cur' back' split
      have whole : front ++ prev :: cur :: back =
          front' ++ prev' :: cur' :: (back' ++ cur :: back) := by
        have joined := congrArg (· ++ cur :: back) split
        simpa using joined
      rw [← Layout.gap_lt (whole ▸ layout)]
      exact findGap_eq_none_iff.mp before front' prev' cur' back' split

end Space

/-- The calls for which the rounded amount does not wrap. -/
def roundedTerms : Terms where
  call := fun call => 0 < call.amount ∧ call.amount + (pageSize - 1) < addressSpace
  release := fun _ _ => True
  apart := fun _ _ _ _ => True

/-- The calls for which neither the rounded amount nor the gap with one more page wraps;
regions with frames of the caller are given back only if these are memory that nobody
else has, and devices are clear of the regions. -/
def soundTerms (boot : Boot) : Terms where
  call := fun call => 0 < call.amount ∧ call.amount + (2 * pageSize - 1) < addressSpace
  release := fun lent call => Unclaimed boot lent call.given
  apart := Clear

theorem VmmRun.sound (good : GoodBoot boot) (run : VmmRun boot (soundTerms boot) m uses)
    (supplied : Supplied m) : VmmInv boot m uses :=
  run.inv good (fun _ sized => sized) (fun _ _ unclaimed => unclaimed) rfl supplied

/-- The kernel's region list.  In every state of a run on sound terms that never asked for
a page with an empty free list, the list is in order, aligned, without overlaps and has
exactly the boot regions and one region for each live allocation; `vmm_dealloc` takes out
the region of the given base and no other; the search finds the lowest gap or that there
is none. -/
theorem region_list_invariant (boot : Boot) (good : GoodBoot boot) (m : Machine)
    (uses : Uses) (run : VmmRun boot (soundTerms boot) m uses) (supplied : Supplied m) :
    ∃ pagemap regions, m.kermap = some pagemap ∧
      RegionListOk boot m pagemap regions uses.live ∧
      (∀ allocation ∈ uses.live, Unclaimed boot uses.lent allocation.call.given →
        ∃ m' front region back,
          vmmDealloc boot.hhdm pagemap allocation.base false m = .ok (pagemap, m') ∧
          regions = front ++ region :: back ∧ region.base = allocation.base ∧
          Listed m' pagemap.khead (front ++ back)) ∧
      ∀ amount, 0 < amount → amount + (2 * pageSize - 1) < addressSpace →
        ∃ result, calculateRegionLocation pagemap amount m = .ok result ∧
          LowestGap regions (alignUp amount pageSize + pageSize) result := by
  obtain ⟨ram, pagemap, v, regions, state⟩ := run.sound good supplied
  have space := state.space
  refine ⟨pagemap, regions, space.kernel.kermap, space.regionList, ?_, ?_⟩
  · intro allocation member unclaimed
    obtain ⟨_, v', m', front, region, back, done, split, base, _, _, after⟩ :=
      space.dealloc member (unclaimed.foreign good state.offset state.managed)
        (state.device_page member)
    exact ⟨m', front, region, back, state.offset ▸ done, split, base,
      after.kernel.records.listed⟩
  · exact fun amount real small => space.lowestGap ⟨real, small⟩

theorem smallBoot_findGap (direct kernel : Nat) (small : needed ≤ 0x7FFF7FFD6000) :
    findGap needed [directRegion smallBoot direct, kernelRegion smallBoot kernel] =
      some (directRegion smallBoot direct, kernelRegion smallBoot kernel) := by
  have room : smallBoot.virtualBase - wrap (smallBoot.hhdm + directSize smallBoot) =
      0x7FFF7FFD6000 := by decide
  have fits : needed ≤ gap (directRegion smallBoot direct) (kernelRegion smallBoot kernel) := by
    change needed ≤ smallBoot.virtualBase - wrap (smallBoot.hhdm + directSize smallBoot)
    rw [room]
    exact small
  rw [findGap, if_pos fits]

theorem fits_page : Fits 4096 := by
  unfold Fits
  decide

/-- A page can be allocated on the small machine. -/
theorem smallBoot_allocates :
    ∃ m pagemap base m', Booted smallBoot m ∧ Supplied m ∧ m.kermap = some pagemap ∧
      vmmAlloc smallBoot.hhdm pagemap 4096 writeFlags m = .ok (base, m') ∧ Supplied m' := by
  rcases smallBoot_booted with ⟨m, pagemap, v, direct, node, booted, supplied, kernel, left⟩
  rcases kernel.vmmAlloc_runs fits_page (show writeFlags.user = false from rfl)
    (smallBoot_findGap direct node (by decide)) (Nat.le_trans (by decide) left) supplied with
    ⟨base, m', done, suppliedAfter, _⟩
  exact ⟨m, pagemap, base, m', booted, supplied, kernel.kermap, done, suppliedAfter⟩

theorem region_list_invariant_small_boot :
    ∃ m allocation, VmmRun smallBoot (soundTerms smallBoot) m { live := [allocation] } ∧
      Supplied m ∧
      ∃ pagemap regions, m.kermap = some pagemap ∧
        RegionListOk smallBoot m pagemap regions [allocation] := by
  rcases smallBoot_allocates with
    ⟨m, pagemap, base, m', booted, supplied, kermap, done, suppliedAfter⟩
  have run : VmmRun smallBoot (soundTerms smallBoot) m' _ :=
    VmmRun.call (.vmmAlloc 4096 writeFlags) (VmmRun.boot booted) kermap ⟨by decide, by decide⟩
      (fun _ isDevice => absurd isDevice List.not_mem_nil) done
  obtain ⟨pagemap', regions, kermap', listOk, _⟩ :=
    region_list_invariant smallBoot smallBoot_good m' _ run suppliedAfter
  exact ⟨m', _, run, suppliedAfter, pagemap', regions, kermap', listOk⟩

/-- A region that overlaps the kernel.  The rounded amount does not wrap, but with one
page more it does: a gap of zero bytes is looked for. -/
theorem region_list_overlap :
    ∃ m live pagemap regions, VmmRun smallBoot roundedTerms m { live := live } ∧ Supplied m ∧
      m.kermap = some pagemap ∧ Listed m pagemap.khead regions ∧
      ¬regions.Pairwise fun region other => region.base + region.length ≤ other.base := by
  obtain ⟨m, pagemap, v, direct, kernel, booted, supplied, invariant, left⟩ := smallBoot_booted
  have wrapped : wrap (alignUp (addressSpace - pageSize) pageSize + pageSize) = 0 := by decide
  have found : findGap (wrap (alignUp (addressSpace - pageSize) pageSize + pageSize))
      [directRegion smallBoot direct, kernelRegion smallBoot kernel] = some _ :=
    wrapped.symm ▸ smallBoot_findGap direct kernel (Nat.zero_le _)
  obtain ⟨node, v', m', made, inserted⟩ := invariant.records.insertRegion_runs invariant.store
    (show writeFlags.user = false from rfl) found (List.ne_nil_of_length_pos (by omega))
  have done : RegionCall.run smallBoot.hhdm pagemap
      (.vmmAllocWithoutBacking (addressSpace - pageSize) writeFlags) m =
      .ok (regionBase m' node, m') := by
    change (insertRegion smallBoot_good.ram.hhdm pagemap _ _ m >>= _) = _
    rw [made]
    rfl
  obtain ⟨taken, _, split, took⟩ := inserted.took
  obtain ⟨front, prev, cur, back, whole, _, records⟩ := inserted.place
  have kermap : m'.kermap = some pagemap := by rw [took.kermap, invariant.kermap]
  refine ⟨m', _, pagemap, _, VmmRun.call _ (VmmRun.boot booted) invariant.kermap
    ⟨by decide, by decide⟩ (fun _ _ => trivial) done, ?_, kermap, (records .none).listed, ?_⟩
  · apply took.supplied supplied
    exact fun member => invariant.store.free_ne_zero (split ▸ List.mem_append_left _ member)
  · intro disjoint
    cases front with
    | nil =>
        obtain ⟨rfl, tail⟩ := List.cons.inj whole
        obtain ⟨rfl, rfl⟩ := List.cons.inj tail
        have next := (List.pairwise_cons.mp (List.pairwise_cons.mp disjoint).2).1
          (kernelRegion smallBoot kernel) List.mem_cons_self
        change wrap (smallBoot.hhdm + directSize smallBoot) +
          alignUp (addressSpace - pageSize) pageSize ≤ smallBoot.virtualBase at next
        exact absurd next (by decide)
    | cons first front =>
        have lengths := congrArg List.length whole
        simp only [List.length_append, List.length_cons, List.length_nil] at lengths
        omega

end NyauxKernel.Memory
