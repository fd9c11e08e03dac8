/-
The pages of the HPET and the local APIC: `hpet::new` of `arch/x86_64/hpet/mod.rs` and
`lapic::new` of `arch/x86_64/lapic/mod.rs` map them at the direct map's offset plus
their physical base, next to the regions that the virtual memory manager hands out.

The registers of the devices are not modelled, nor is what the constructors do with
them.
-/

import NyauxKernel.Memory.AddressSpace

namespace NyauxKernel.Memory

open ExceptFold LinkPath

/-- `VMMFlags::NOCACHE | VMMFlags::GLOBAL | VMMFlags::WRITE`. -/
def deviceFlags : VMMFlags :=
  { write := true, executable := false, global := true, user := false, nocache := true }

/-- One page of a device; the result is its address. -/
def mapDevice (hhdm : Nat) (pagemap : Pagemap) (phys : Nat) (m : Machine) :
    Except Halt (Nat × Machine) := do
  let virt := wrap (phys + hhdm)
  let m ← archMapRegion hhdm pagemap.archPage virt 4096 [phys] deviceFlags m
  .ok (virt, m)

/-- The mapping of `hpet::new`, with the address of the ACPI table. -/
def hpetNew (hhdm : Nat) (pagemap : Pagemap) (address : Nat) : Machine → Except Halt (Nat × Machine) :=
  mapDevice hhdm pagemap address

/-- The mapping of `lapic::new`, with the content of `IA32_APIC_BASE_MSR`. -/
def lapicNew (hhdm : Nat) (pagemap : Pagemap) (baseMsr : Nat) :
    Machine → Except Halt (Nat × Machine) :=
  mapDevice hhdm pagemap (baseMsr &&& 0xFFFFFF000)

inductive Device
  | hpet (address : Nat)
  | lapic (baseMsr : Nat)
deriving DecidableEq, Repr

def Device.new (hhdm : Nat) (pagemap : Pagemap) : Device → Machine → Except Halt (Nat × Machine)
  | .hpet address => hpetNew hhdm pagemap address
  | .lapic baseMsr => lapicNew hhdm pagemap baseMsr

/-- The physical base of a device. -/
def Device.phys : Device → Nat
  | .hpet address => address
  | .lapic baseMsr => baseMsr &&& 0xFFFFFF000

/-- The address that a device is mapped at. -/
def Device.address (hhdm : Nat) (device : Device) : Nat := wrap (device.phys + hhdm)

theorem Device.new_eq (hhdm : Nat) (pagemap : Pagemap) (device : Device) :
    device.new hhdm pagemap = mapDevice hhdm pagemap device.phys := by
  cases device with
  | hpet address => rfl
  | lapic baseMsr => rfl

/-! ### Mapping a device -/

variable {hhdm virt : Nat} {pagemap : Pagemap} {m m' : Machine}

theorem pagesBetween_page (below : virt < addressSpace) :
    pagesBetween virt (wrap (virt + 4096)) = [virt] ∨
      pagesBetween virt (wrap (virt + 4096)) = [] := by
  by_cases inside : virt + 4096 < addressSpace
  · left
    have count : (virt + 4096 - virt + (pageSize - 1)) / pageSize = 1 := by
      unfold pageSize
      omega
    rw [pagesBetween, wrap, Nat.mod_eq_of_lt inside, count]
    simp
  · right
    have count : (wrap (virt + 4096) - virt + (pageSize - 1)) / pageSize = 0 := by
      unfold wrap pageSize
      unfold addressSpace at *
      omega
    rw [pagesBetween, count]
    rfl

/-- The loop has one turn, or none if the page is the last of the address space. -/
theorem mapDevice_ok {phys : Nat} (done : mapDevice hhdm pagemap phys m = .ok (virt, m')) :
    virt = wrap (phys + hhdm) ∧
      (m' = m ∨ map4kib hhdm pagemap.archPage virt phys (PT.fromVmmflags deviceFlags) m =
        .ok (.ok (), m')) := by
  obtain ⟨after, mapped, last⟩ := ok_of_bind done
  obtain ⟨rfl, rfl⟩ := Prod.mk.inj (Except.ok.inj last)
  rw [archMapRegion_eq _ _ (archMapRegion_ok mapped)] at mapped
  have below : wrap (phys + hhdm) < addressSpace := Nat.mod_lt _ (by decide)
  refine ⟨rfl, ?_⟩
  rcases pagesBetween_page below with one | none
  · rw [one] at mapped
    obtain ⟨t, first, rest⟩ := foldlM_cons_ok mapped
    obtain rfl := Except.ok.inj rest
    exact Or.inr (map4kibUnwrap_ok first)
  · rw [none] at mapped
    exact Or.inl (Except.ok.inj mapped).symm

theorem mapDevice_eq {phys : Nat} (inside : phys + hhdm + 4096 < addressSpace)
    (mapped : map4kib hhdm pagemap.archPage (phys + hhdm) phys (PT.fromVmmflags deviceFlags) m =
      .ok (.ok (), m')) : mapDevice hhdm pagemap phys m = .ok (phys + hhdm, m') := by
  have noWrap : wrap (phys + hhdm) = phys + hhdm := Nat.mod_eq_of_lt (by omega)
  have one : pagesBetween (phys + hhdm) (wrap (phys + hhdm + 4096)) = [phys + hhdm] := by
    have pages := pagesBetween_region (show 4096 % pageSize = 0 by decide) inside
    rw [pages]
    simp [regionPages, pageSize]
  have looped : archMapRegion hhdm pagemap.archPage (phys + hhdm) 4096 [phys] deviceFlags m =
      .ok m' := by
    rw [archMapRegion_eq _ _ (by rw [one]; exact Nat.le_refl 1), one]
    exact (foldlM_cons_eq (map4kibUnwrap_eq mapped)).trans rfl
  simp only [mapDevice, noWrap, looped, bind, Except.bind]

theorem mapDevice_allocates {phys : Nat} (done : mapDevice hhdm pagemap phys m = .ok (virt, m')) :
    Allocates m m' := by
  rcases (mapDevice_ok done).2 with rfl | mapped
  · exact Allocates.refl _
  · exact map4kib_allocates mapped

theorem Device.new_allocates {device : Device} (done : device.new hhdm pagemap m = .ok (virt, m')) :
    Allocates m m' := by
  rw [Device.new_eq] at done
  exact mapDevice_allocates done

/-- Mapping a device runs when there are three frames for tables. -/
theorem Store.device_runs {ram : Ram} {v : View} (store : Store ram pagemap.archPage v m)
    (phys : Nat) (inside : phys + ram.hhdm + 4096 < addressSpace) (enough : 3 ≤ v.free.length)
    (supplied : Supplied m) :
    ∃ v' m', mapDevice ram.hhdm pagemap phys m = .ok (phys + ram.hhdm, m') ∧ Supplied m' ∧
      PageMapped ram pagemap.archPage v m (phys + ram.hhdm)
        (pageEntry phys (PT.fromVmmflags deviceFlags)) v' m' ∧
      m'.kermap = m.kermap ∧ v.free.length ≤ v'.free.length + 3 := by
  obtain ⟨v', m', done, mapped, used, _⟩ := store.map4kib_runs (phys + ram.hhdm) phys
    (PT.fromVmmflags deviceFlags) (Or.inl enough)
  obtain ⟨_, _, advanced⟩ := mapped.advanced store.toPool
  exact ⟨v', m', mapDevice_eq inside done, advanced.supplied supplied, mapped,
    advanced.took.kermap, used⟩

/-! ### Devices and regions -/

namespace Kernel

variable {ram : Ram} {v v' : View} {regions : List Region} {blocks : List (Nat × Nat)}
  {devices : List Nat} {entry : Nat}

theorem moreDevices (kernel : Kernel ram pagemap v m regions blocks devices) (page : Nat) :
    Kernel ram pagemap v m regions blocks (page :: devices) :=
  { kernel with
    content :=
      { kernel.content with
        empty := fun other noDevice =>
          kernel.content.empty other fun member => noDevice (List.mem_cons_of_mem page member) } }

/-- An entry for a page of no region but those of the boot sequence. -/
theorem device (kernel : Kernel ram pagemap v m regions blocks devices)
    (mapped : PageMapped ram pagemap.archPage v m virt entry v' m')
    (apart : ∀ region ∈ regions, region.backing ≠ .boot → pageNumber virt ∉ region.pages) :
    Kernel ram pagemap v' m' regions blocks (pageNumber virt :: devices) := by
  obtain ⟨taken, _, advanced⟩ := mapped.advanced kernel.store.toPool
  have others : ∀ page, page ≠ pageNumber virt → entries ram v' m' page = entries ram v m page :=
    fun page different => advanced.others page (by rwa [List.mem_singleton])
  have inRegion : ∀ region ∈ regions, region.backing ≠ .boot → ∀ page ∈ region.pages,
      entries ram v' m' page = entries ram v m page := by
    intro region member notBoot page inPages
    apply others
    rintro rfl
    exact apart region member notBoot inPages
  constructor
  case store => exact mapped.store
  case records =>
    apply kernel.records.congr
    · intro size object _ live
      rw [mapped.slabs]
      exact live
    · intro size object _ live address inside
      exact advanced.quiet .slab address (by decide) (by decide)
        (kernel.store.live_owned live inside)
  case layout => exact kernel.layout
  case content =>
    constructor
    · intro region member frames flags backing
      apply backs_congr (kernel.content.backed region member frames flags backing)
      · intro frame number _ owned
        rw [advanced.kept frame (by rw [owned]; simp), owned]
      · exact inRegion region member (by rw [backing]; simp)
    · intro region member frames flags backing
      exact enters_congr (kernel.content.given region member frames flags backing)
        (inRegion region member (by rw [backing]; simp))
    · intro page noDevice uncovered
      rw [List.mem_cons, not_or] at noDevice
      rw [others page noDevice.1]
      exact kernel.content.empty page noDevice.2 uncovered
  case kermap => rw [advanced.took.kermap, kernel.kermap]

/-- Where the entry of a page is the same, so is its translation. -/
theorem translate_congr {ram' : Ram} {pagemap' : Pagemap} {regions' : List Region}
    {blocks' : List (Nat × Nat)} {devices' : List Nat}
    (kernel : Kernel ram pagemap v m regions blocks devices)
    (kernel' : Kernel ram' pagemap' v' m' regions' blocks' devices') (offset : ram'.hhdm = ram.hhdm)
    (root : pagemap'.archPage = pagemap.archPage) {address : Nat}
    (same : entries ram' v' m' (pageNumber address) = entries ram v m (pageNumber address)) :
    translate ram.hhdm pagemap.archPage m'.memory address =
      translate ram.hhdm pagemap.archPage m.memory address := by
  have after := kernel'.store.shape.translate_eq address
  rw [offset, root] at after
  unfold entries at same
  rw [offset] at same
  rw [after, kernel.store.shape.translate_eq, same]

end Kernel

/-- The page of `virt` is a page of the allocation. -/
def Allocation.Covers (allocation : Allocation) (virt : Nat) : Prop :=
  pageNumber virt ∈ (regionPages allocation.base allocation.length).map pageNumber

/-- A device at `phys` is clear of the region list, also when `amount` bytes are added behind
one of its regions: it lies in the direct map, or every region that starts at or below its
address ends at least `amount` bytes before it. -/
def Clear (boot : Boot) (m : Machine) (amount phys : Nat) : Prop :=
  phys < directSize boot ∨
    boot.hhdm + phys < addressSpace ∧ ∀ pagemap node, m.kermap = some pagemap →
      Reaches (regionLink m) none pagemap.khead (some node) →
      regionBase m node ≤ boot.hhdm + phys →
      regionBase m node + regionLength m node + amount ≤ boot.hhdm + phys

/-- An address in front of a range or behind it is on none of its pages. -/
theorem page_not_mem {base length : Nat} (aligned : base % pageSize = 0) (high : higherHalf ≤ base)
    (inside : base + length ≤ addressSpace) (virtHigh : higherHalf ≤ virt)
    (virtInside : virt < addressSpace) (apart : virt < base ∨ base + length ≤ virt) :
    pageNumber virt ∉ (regionPages base length).map pageNumber := by
  intro member
  obtain ⟨page, inRegion, same⟩ := List.mem_map.mp member
  have bounds := mem_regionPages inRegion
  have first := pageNumber_high virtHigh virtInside
  have second := pageNumber_high (show higherHalf ≤ page by omega)
    (by unfold pageSize at bounds; omega)
  obtain ⟨i, _, rfl⟩ := List.mem_map.mp inRegion
  unfold pageSize at *
  omega

namespace Space

variable {boot : Boot} {ram : Ram} {v : View} {regions : List Region} {live : List Allocation}
  {blocks : List (Nat × Nat)} {devices : List Nat}

/-- A region that the boot sequence did not make is that of a live allocation. -/
theorem allocation_of_region (space : Space boot ram pagemap v m regions live blocks devices)
    {region : Region} (member : region ∈ regions) (notBoot : region.backing ≠ .boot) :
    ∃ allocation ∈ live, Makes allocation region := by
  obtain ⟨direct, node, middle, made, rfl, perm, each⟩ := space.shape
  rcases List.mem_cons.mp member with rfl | later
  · exact absurd rfl notBoot
  · rcases List.mem_append.mp later with inMiddle | last
    · exact exists_left_of_forall₂ each (perm.mem_iff.mp inMiddle)
    · rw [List.mem_singleton.mp last] at notBoot
      exact absurd rfl notBoot

variable {allocation : Allocation}

/-- The region of a live allocation, which is behind the direct map. -/
theorem region_of_allocation (space : Space boot ram pagemap v m regions live blocks devices)
    (member : allocation ∈ live) :
    ∃ region ∈ regions, Makes allocation region ∧ boot.hhdm + directSize boot ≤ region.base := by
  obtain ⟨direct, node, middle, made, rfl, perm, each⟩ := space.shape
  obtain ⟨region, _, makes, split, _⟩ := forall₂_erase each member
  have inMiddle := perm.mem_iff.mpr (split.mem_iff.mpr List.mem_cons_self)
  have later : region ∈ middle ++ [kernelRegion boot node] := List.mem_append_left _ inMiddle
  exact ⟨region, List.mem_cons_of_mem _ later, makes,
    (List.pairwise_cons.mp space.kernel.layout.ordered).1 region later⟩

theorem aligned_of_mem (space : Space boot ram pagemap v m regions live blocks devices)
    (member : allocation ∈ live) :
    allocation.base % pageSize = 0 ∧ allocation.length % pageSize = 0 := by
  obtain ⟨region, inRegions, makes, _⟩ := space.region_of_allocation member
  rw [← makes.base, ← makes.length]
  exact space.kernel.layout.aligned region inRegions

/-- A device that is clear of the regions is on no page of an allocation, made then or later,
that starts in one of them or right behind it. -/
theorem not_covers (space : Space boot ram pagemap v m regions live blocks devices)
    (good : GoodBoot boot) {amount : Nat} {device : Device}
    (clear : Clear boot m amount device.phys) {regions' : List Region} {v' : View}
    {live' : List Allocation} (after : Space boot ram pagemap v' m' regions' live' blocks devices)
    (member : allocation ∈ live') {prev : Region} (inRegions : prev ∈ regions)
    (starts : prev.base ≤ allocation.base)
    (ends : allocation.base + allocation.length ≤ prev.base + prev.length + amount) :
    ¬allocation.Covers (device.address boot.hhdm) := by
  obtain ⟨region, inAfter, makes, behind⟩ := after.region_of_allocation member
  have inside := (after.kernel.layout.inside region inAfter).2
  have high := good.high
  have below := good.kernelAbove
  have kernelInside := good.kernelInside.1
  rw [makes.base] at inside behind
  rw [makes.length] at inside
  have place : boot.hhdm + device.phys < addressSpace ∧
      (boot.hhdm + device.phys < allocation.base ∨
        allocation.base + allocation.length ≤ boot.hhdm + device.phys) := by
    rcases clear with direct | ⟨fits, apart⟩
    · omega
    · refine ⟨fits, ?_⟩
      by_cases first : prev.base ≤ boot.hhdm + device.phys
      · have listed := space.kernel.records.listed
        have reached := (listed.linked.reaches_iff (by simp [cells])).mpr
          (List.mem_map_of_mem inRegions)
        obtain ⟨base, length⟩ := listed.fields prev inRegions
        have far := apart pagemap prev.node space.kernel.kermap reached (base.symm ▸ first)
        rw [base, length] at far
        omega
      · omega
  have address : device.address boot.hhdm = boot.hhdm + device.phys := by
    rw [Device.address, wrap, Nat.add_comm, Nat.mod_eq_of_lt place.1]
  rw [Allocation.Covers, address]
  exact page_not_mem (after.aligned_of_mem member).1 (by omega) inside (by omega) place.1 place.2

/-- A device that is clear of the regions is on no page of a live allocation. -/
theorem clear_not_covers (space : Space boot ram pagemap v m regions live blocks devices)
    (good : GoodBoot boot) {device : Device} (clear : Clear boot m 0 device.phys)
    (member : allocation ∈ live) : ¬allocation.Covers (device.address boot.hhdm) := by
  obtain ⟨region, inRegions, makes, _⟩ := space.region_of_allocation member
  apply space.not_covers good clear space member inRegions
  · exact Nat.le_of_eq makes.base
  · exact Nat.le_of_eq (by rw [makes.base, makes.length]; rfl)

theorem device (space : Space boot ram pagemap v m regions live blocks devices)
    {device : Device} {virt : Nat} (done : device.new ram.hhdm pagemap m = .ok (virt, m'))
    (supplied : Supplied m')
    (apart : ∀ allocation ∈ live, ¬allocation.Covers (device.address ram.hhdm)) :
    ∃ v', Space boot ram pagemap v' m' regions live blocks
        (pageNumber (device.address ram.hhdm) :: devices) ∧
      ∀ page, page ≠ pageNumber (device.address ram.hhdm) →
        entries ram v' m' page = entries ram v m page := by
  rw [Device.new_eq] at done
  obtain ⟨rfl, mapping⟩ := mapDevice_ok done
  rcases mapping with rfl | mapped
  · exact ⟨v, ⟨space.kernel.moreDevices _, space.positive, space.shape⟩, fun _ _ => rfl⟩
  · obtain ⟨v', _, pageMapped⟩ := space.kernel.store.map4kib_done mapped supplied
    have outside : ∀ region ∈ regions, region.backing ≠ .boot →
        pageNumber (device.address ram.hhdm) ∉ region.pages := by
      intro region member notBoot inPages
      obtain ⟨allocation, isLive, makes⟩ := space.allocation_of_region member notBoot
      apply apart allocation isLive
      rwa [Region.pages, makes.base, makes.length] at inPages
    refine ⟨v', ⟨space.kernel.device pageMapped outside, space.positive, space.shape⟩, ?_⟩
    intro page different
    rw [pageMapped.entries]
    exact Function.update_of_ne different _ _

end Space

end NyauxKernel.Memory
