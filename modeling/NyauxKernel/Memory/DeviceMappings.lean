/-
Device pages next to the regions of the virtual memory manager.

The two kinds of addresses are chosen without regard to each other: a device is mapped at
the direct map's offset plus its physical base, a region at the first gap that is big
enough.
-/

import NyauxKernel.Memory.Heap

namespace NyauxKernel.Memory

/-- In every state of a run on sound terms, without a page asked for on an empty free list:
mapping a device that is clear of the regions changes the translation of no byte of a live
allocation, and a call for an amount that the mapped devices are clear of changes the
translation of none of their pages. -/
theorem device_mappings_kept (boot : Boot) (good : GoodBoot boot) (m : Machine) (uses : Uses)
    (run : VmmRun boot (soundTerms boot) m uses) (supplied : Supplied m) :
    ∃ pagemap, m.kermap = some pagemap ∧
      (∀ (device : Device) (virt : Nat) (m' : Machine),
        device.new boot.hhdm pagemap m = .ok (virt, m') → Supplied m' →
        Clear boot m 0 device.phys → ∀ allocation ∈ uses.live, ∀ address,
          allocation.base ≤ address → address < allocation.base + allocation.length →
          translate boot.hhdm pagemap.archPage m'.memory address =
            translate boot.hhdm pagemap.archPage m.memory address) ∧
      ∀ (call : RegionCall) (base : Nat) (m' : Machine), (soundTerms boot).call call →
        call.run boot.hhdm pagemap m = .ok (base, m') → Supplied m' →
        (∀ device ∈ uses.devices,
          Clear boot m (alignUp call.amount pageSize) device.phys) →
        ∀ device ∈ uses.devices, ∀ address,
          pageNumber address = pageNumber (device.address boot.hhdm) →
          translate boot.hhdm pagemap.archPage m'.memory address =
            translate boot.hhdm pagemap.archPage m.memory address := by
  obtain ⟨ram, pagemap, v, regions, state⟩ := run.sound good supplied
  have space := state.space
  refine ⟨pagemap, space.kernel.kermap, ?_, ?_⟩
  · intro device virt m' done suppliedAfter clear allocation member address low high
    obtain ⟨v', after, same⟩ := state.device good clear done suppliedAfter
    rw [← state.offset]
    apply space.kernel.translate_congr after.space.kernel rfl rfl
    apply same
    intro atDevice
    obtain ⟨aligned, alignedLength⟩ := space.aligned_of_mem member
    obtain ⟨page, inPages, number⟩ := page_of_index aligned alignedLength
      (show address - allocation.base < allocation.length by omega)
    rw [Nat.add_sub_cancel' low] at number
    apply space.clear_not_covers good clear member
    rw [Allocation.Covers, ← atDevice, number]
    exact List.mem_map_of_mem inPages
  · intro call base m' allowed done suppliedAfter clear device isDevice address number
    obtain ⟨v', regions', after, same⟩ := state.call good allowed clear done suppliedAfter
    rw [← state.offset]
    apply space.kernel.translate_congr after.space.kernel rfl rfl
    apply same
    rw [number]
    exact after.uncovered _ List.mem_cons_self device isDevice

/-! ### A device next to a region -/

/-- `vmm_alloc` of one page on the small machine. -/
theorem smallBoot_page :
    ∃ m pagemap v direct region node allocation frame, m.kermap = some pagemap ∧ Supplied m ∧
      VmmRun smallBoot (soundTerms smallBoot) m { live := [allocation] } ∧
      Kernel smallBoot_good.ram pagemap v m
        [directRegion smallBoot direct, region, kernelRegion smallBoot node] [] ∧
      Makes allocation region ∧ 19 ≤ v.free.length ∧
      allocation.base = smallBoot.hhdm + directSize smallBoot ∧ allocation.length = 4096 ∧
      frame ∈ smallBoot_good.ram.frames ∧
      (translate smallBoot.hhdm pagemap.archPage m.memory allocation.base).map Translation.phys =
        some frame := by
  obtain ⟨m, pagemap, v, direct, node, booted, supplied, kernel, left⟩ := smallBoot_booted
  have rounded : alignUp 4096 pageSize = 4096 := by decide
  obtain ⟨base, m', done, suppliedAfter, v', record, frames, regions', placed, after, _, free⟩ :=
    kernel.vmmAlloc_runs fits_page (show writeFlags.user = false from rfl)
      (smallBoot_findGap direct node (by decide)) (Nat.le_trans (by decide) left) supplied
  obtain ⟨rfl, baseEq⟩ := placed.pair
  obtain ⟨frame, number, _, owned, found⟩ := after.translate_backed (List.mem_cons_of_mem _
    List.mem_cons_self) rfl (show 0 < alignUp 4096 pageSize by decide)
  have mapped : mappedFrames smallBoot.hhdm pagemap.archPage m'.memory base
      (alignUp 4096 pageSize) = frames :=
    after.store.mappedFrames_eq rfl (after.content.backed _
      (List.mem_cons_of_mem _ List.mem_cons_self) frames writeFlags rfl)
  refine ⟨m', pagemap, v', direct, _, node,
    allocated smallBoot.hhdm pagemap m' (.vmmAlloc 4096 writeFlags) base, frame, after.kermap,
    suppliedAfter,
    VmmRun.call (.vmmAlloc 4096 writeFlags) (VmmRun.boot booted) kernel.kermap
      ⟨by decide, by decide⟩ (fun _ isDevice => absurd isDevice List.not_mem_nil) done, after,
    ⟨rfl, rfl, congrArg (Backing.frames · writeFlags) mapped.symm⟩, ?_, baseEq, rounded,
    after.store.managed frame (by rw [owned]; simp), found⟩
  have count : alignUp 4096 pageSize / pageSize = 1 := by decide
  rw [count] at free
  omega

/-- The local APIC and the HPET are far behind the regions of that state. -/
theorem smallBoot_clear {pagemap : Pagemap} {v : View} {m : Machine} {direct node phys : Nat}
    {region : Region} {devices : List Nat}
    (kernel : Kernel smallBoot_good.ram pagemap v m
      [directRegion smallBoot direct, region, kernelRegion smallBoot node] [] devices)
    (base : region.base = smallBoot.hhdm + directSize smallBoot) (length : region.length = 4096)
    (far : 0xFED00000 ≤ phys) (near : phys < 2 ^ 32) : Clear smallBoot m 0 phys := by
  have start : smallBoot.hhdm = 0xFFFF800000000000 := rfl
  have size : directSize smallBoot = 0x2A000 := by decide
  have image : smallBoot.virtualBase = 0xFFFFFFFF80000000 := rfl
  refine Or.inr ⟨by rw [start]; unfold addressSpace; omega, ?_⟩
  intro pagemap' record kermap reached below
  obtain rfl := Option.some.inj (kernel.kermap.symm.trans kermap)
  have listed := kernel.records.listed
  obtain ⟨other, member, same⟩ :=
    List.mem_map.mp ((listed.linked.reaches_iff (by simp [cells])).mp reached)
  obtain rfl := Option.some.inj same
  obtain ⟨atBase, atLength⟩ := listed.fields other member
  rw [atBase] at below ⊢
  rw [atLength, start]
  rw [start] at below base
  simp only [List.mem_cons, List.not_mem_nil, or_false] at member
  rcases member with rfl | rfl | rfl
  · change 0xFFFF800000000000 + directSize smallBoot + 0 ≤ _
    omega
  · omega
  · have here : smallBoot.virtualBase ≤ 0xFFFF800000000000 + phys := below
    omega

theorem device_mappings_kept_small_boot :
    ∃ m pagemap allocation m',
      VmmRun smallBoot (soundTerms smallBoot) m
        { live := [allocation], devices := [.lapic 0xFEE00900] } ∧
      Clear smallBoot m 0 0xFED00000 ∧
      (Device.hpet 0xFED00000).new smallBoot.hhdm pagemap m =
        .ok (0xFED00000 + smallBoot.hhdm, m') ∧
      Supplied m' ∧ translate smallBoot.hhdm pagemap.archPage m'.memory allocation.base =
        translate smallBoot.hhdm pagemap.archPage m.memory allocation.base := by
  obtain ⟨m, pagemap, v, direct, region, node, allocation, frame, kermap, supplied, run, kernel,
    makes, left, base, length, _⟩ := smallBoot_page
  rw [← makes.base] at base
  have regionLength : region.length = 4096 := makes.length.trans length
  obtain ⟨v1, m1, lapicDone, supplied1, mapped, kermap1, used⟩ := kernel.store.device_runs 0xFEE00000
    (by decide) (Nat.le_trans (by decide) left) supplied
  obtain ⟨v2, m2, hpetDone, supplied2, _⟩ := mapped.store.device_runs 0xFED00000
    (by decide) (by omega) supplied1
  have run1 := VmmRun.device (.lapic 0xFEE00900) run kermap
    (show Clear smallBoot m 0 0xFEE00000 from
      smallBoot_clear kernel base regionLength (by decide) (by decide))
    (show (Device.lapic 0xFEE00900).new smallBoot.hhdm pagemap m = _ from lapicDone)
  have clear : Clear smallBoot m1 0 0xFED00000 := by
    have apart : ∀ other ∈ [directRegion smallBoot direct, region, kernelRegion smallBoot node],
        other.backing ≠ .boot → pageNumber (0xFEE00000 + smallBoot.hhdm) ∉ other.pages := by
      intro other member notBoot
      simp only [List.mem_cons, List.not_mem_nil, or_false] at member
      rcases member with rfl | rfl | rfl
      · exact absurd rfl notBoot
      · rw [Region.pages, base, regionLength]
        decide
      · exact absurd rfl notBoot
    exact smallBoot_clear (kernel.device mapped apart) base regionLength (by decide) (by decide)
  obtain ⟨pagemap', kermap', kept, _⟩ :=
    device_mappings_kept smallBoot smallBoot_good m1 _ run1 supplied1
  obtain rfl := Option.some.inj ((kermap1.trans kermap).symm.trans kermap')
  exact ⟨m1, pagemap, allocation, m2, run1, clear, hpetDone, supplied2,
    kept (.hpet 0xFED00000) _ m2 hpetDone supplied2 clear allocation List.mem_cons_self
      allocation.base (Nat.le_refl _) (by rw [length]; omega)⟩

/-- The HPET right behind the direct map is mapped over the first page that was
allocated. -/
theorem device_steals_page :
    ∃ m pagemap allocation m',
      VmmRun smallBoot (soundTerms smallBoot) m { live := [allocation] } ∧
      m.kermap = some pagemap ∧ 0 < allocation.length ∧
      (Device.hpet (directSize smallBoot)).new smallBoot.hhdm pagemap m =
        .ok (allocation.base, m') ∧ Supplied m' ∧
      translate smallBoot.hhdm pagemap.archPage m'.memory allocation.base ≠
        translate smallBoot.hhdm pagemap.archPage m.memory allocation.base := by
  obtain ⟨m, pagemap, v, direct, region, node, allocation, frame, kermap, supplied, run, kernel, _,
    left, base, length, managed, found⟩ := smallBoot_page
  obtain ⟨v', m', done, suppliedAfter, mapped, _⟩ := kernel.store.device_runs
    (directSize smallBoot) (by decide) (Nat.le_trans (by decide) left) supplied
  have address : directSize smallBoot + smallBoot_good.ram.hhdm = allocation.base := by
    rw [base, Nat.add_comm]
    rfl
  rw [address] at done mapped
  refine ⟨m, pagemap, allocation, m', run, kermap, by rw [length]; decide, done, suppliedAfter, ?_⟩
  intro same
  have entered : leafEntry smallBoot_good.ram.hhdm m'.memory v'.tables
      (pageNumber allocation.base) = _ := (congrFun mapped.entries _).trans (Function.update_self _ _ _)
  have ok : FrameOk (directSize smallBoot) := ⟨by decide, by decide⟩
  have stolen : translate smallBoot.hhdm pagemap.archPage m'.memory allocation.base = _ :=
    mapped.store.shape.translate_eq allocation.base
  rw [entered, pageTranslation_pageEntry ok rfl] at stolen
  rw [← same, stolen] at found
  have isDevice : directSize smallBoot = frame := Option.some.inj found
  have foreign : directSize smallBoot ∉ smallBoot_good.ram.frames := by decide
  exact foreign (isDevice ▸ managed)

end NyauxKernel.Memory
