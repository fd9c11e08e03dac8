/-
Windows to physical memory: regions that `vmm_alloc_with_phys` maps to frames of the caller.

Every byte of such a region translates to the byte of its frame at the same offset, as long
as the frame fits the address field of a page table entry.
-/

import NyauxKernel.Memory.BootSpace
import NyauxKernel.Memory.VecStorage

namespace NyauxKernel.Memory

open ExceptFold

/-! ### What a page table can hold -/

variable {hhdm start stop virt : Nat} {regions : List Region} {memory : Nat → Nat} {ram : Ram}
  {pagemap : Pagemap} {v : View} {m : Machine} {blocks : List (Nat × Nat)} {devices : List Nat}
  {region : Region} {flags : VMMFlags}

theorem mappedFrame_lt {entry j : Nat} (leaf : j = 1 ∨ j = 2 ∨ j = 3) :
    mappedFrame entry virt j + pageSize ≤ 2 ^ 52 := by
  have bounded := (extractPhysFromPte_ok entry).bounded
  have aligned := (extractPhysFromPte_ok entry).aligned
  unfold mappedFrame pageSize at *
  rcases leaf with rfl | rfl | rfl
  all_goals
    simp only [levelShift]
    omega

theorem translateFrom_lt (j table : Nat) (writable user executable : Bool) {found : Translation}
    (done : translateFrom hhdm memory virt j table writable user executable = some found) :
    found.phys + pageSize ≤ 2 ^ 52 := by
  induction j generalizing table writable user executable with
  | zero => contradiction
  | succ j inductionHypothesis =>
      rw [translateFrom] at done
      dsimp only at done
      split at done
      · split at done
        case isTrue leaf =>
          cases Option.some.inj done
          exact mappedFrame_lt (by omega)
        case isFalse => exact inductionHypothesis _ _ _ _ done
      · contradiction

/-- No page table translates to an address of more than 52 bits. -/
theorem translateByte_lt {root phys : Nat} (found : translateByte hhdm root memory virt = some phys) :
    phys < 2 ^ 52 := by
  rcases Option.map_eq_some_iff.mp found with ⟨translation, walked, rfl⟩
  have bound := translateFrom_lt 4 root true true true walked
  have offset := Nat.mod_lt virt (show 0 < pageSize by decide)
  omega

/-! ### The frames of a window -/

/-- The bytes of a page that was mapped to a frame of the caller. -/
theorem translate_given (kernel : Kernel ram pagemap v m regions blocks devices)
    (member : region ∈ regions) {frames : List Nat} (backing : region.backing = .phys frames flags)
    (index : Nat) (below : index < region.length) :
    ∃ frame, frames[index / pageSize]? = some frame ∧
      translateByte ram.hhdm pagemap.archPage m.memory (region.base + index) =
        some (extractPhysFromPte frame + index % pageSize) := by
  rcases kernel.layout.aligned region member with ⟨aligned, alignedLength⟩
  have entered := kernel.content.given region member frames flags backing
  have inRange : index / pageSize < region.length / pageSize := by
    unfold pageSize at *
    omega
  have atPages : index / pageSize < (regionPages region.base region.length).length := by
    rw [regionPages_length]
    exact inRange
  have atFrames : index / pageSize < frames.length := entered.length_eq ▸ atPages
  have entry := entered.get atPages atFrames
  have page : (regionPages region.base region.length).get ⟨index / pageSize, atPages⟩ =
      region.base + index / pageSize * pageSize := by
    simp [regionPages]
  have number : pageNumber (region.base + index) =
      pageNumber (region.base + index / pageSize * pageSize) := by
    unfold pageNumber pageSize at *
    congr 1
    omega
  rw [page] at entry
  have leaf : leafEntry ram.hhdm m.memory v.tables
      (pageNumber (region.base + index / pageSize * pageSize)) = _ := entry
  refine ⟨frames.get ⟨index / pageSize, atFrames⟩, List.getElem?_eq_getElem atFrames, ?_⟩
  rw [translateByte, kernel.store.shape.translate_eq, number, leaf, pageTranslation]
  have present : (pageEntry (frames.get ⟨index / pageSize, atFrames⟩)
      (PT.fromVmmflags flags)).testBit 0 = true := (testBit_pageEntry _ _).1
  have offset : (region.base + index) % pageSize = index % pageSize := by
    unfold pageSize at *
    omega
  rw [if_pos present, Option.map_some, extractPhys_pageEntry, offset]

theorem pagesBetween_get {index frame : Nat}
    (found : (pagesBetween start stop)[index]? = some frame) :
    frame = start + index * pageSize := by
  rcases List.getElem?_eq_some_iff.mp found with ⟨below, rfl⟩
  simp [pagesBetween]

theorem pagesBetween_head (start stop : Nat) :
    (pagesBetween start stop).head? = if start < stop then some start else none := by
  rw [pagesBetween, List.head?_map, List.head?_range]
  unfold pageSize
  by_cases less : start < stop
  · rw [if_pos less, if_neg (by omega), Option.map_some, Nat.zero_mul, Nat.add_zero]
  · rw [if_neg less, if_pos (by omega), Option.map_none]

theorem alignDown_page {addr : Nat} (inside : addr < addressSpace) :
    alignDown addr 4096 = addr / 4096 * 4096 :=
  alignDown_eq addr 12 inside

/-! ### Windows -/

/-- The list of regions has a gap for `amount` bytes, and there are a page for the record, three
for the tables of each page and one for each push of its frame. -/
structure Room (hhdm : Nat) (pagemap : Pagemap) (m : Machine) (amount : Nat) : Prop where
  gap : ∃ place, calculateRegionLocation pagemap amount m = .ok (.ok place)
  free : ∃ head frames, m.freelist = some head ∧ FreeChain hhdm m.memory head frames ∧
    1 + 4 * (alignUp amount pageSize / pageSize) ≤ frames.length

theorem Kernel.given_window (kernel : Kernel ram pagemap v m regions blocks devices)
    (member : region ∈ regions) {count len : Nat}
    (backing : region.backing = .phys ((pagesBetween start stop).take count) flags)
    (aligned : start % pageSize = 0) (bounded : start + len ≤ 2 ^ 52) (long : len ≤ region.length)
    (i : Nat) (below : i < len) :
    translateByte ram.hhdm pagemap.archPage m.memory (region.base + i) = some (start + i) := by
  rcases translate_given kernel member backing i (Nat.lt_of_lt_of_le below long) with
    ⟨frame, found, translated⟩
  rw [List.getElem?_take] at found
  split at found
  case isFalse => contradiction
  have isFrame := pagesBetween_get found
  have ok : FrameOk frame := by
    constructor
    all_goals
      unfold pageSize at *
      omega
  have byte : frame + i % pageSize = start + i := by
    unfold pageSize at *
    omega
  rw [translated, ok.extractPhys, byte]

/-- A list with one region more, when both are in the order of the bases. -/
theorem increasing_insert {regions' : List Region} {new : Region}
    (order : regions'.Perm (new :: regions))
    (increasing : regions.Pairwise fun region other => region.base < other.base)
    (increasing' : regions'.Pairwise fun region other => region.base < other.base) :
    ∃ front back, regions = front ++ back ∧ regions' = front ++ new :: back := by
  rcases List.append_of_mem (order.mem_iff.mpr List.mem_cons_self) with ⟨front, back, rfl⟩
  refine ⟨front, back, ?_, rfl⟩
  have rest : regions.Perm (front ++ back) := (List.perm_middle.symm.trans order).cons_inv.symm
  have dropped : (front ++ back).Pairwise fun region other => region.base < other.base :=
    increasing'.sublist ((List.sublist_cons_self new back).append_left front)
  exact rest.eq_of_pairwise (fun _ _ _ _ less greater => absurd less (Nat.lt_asymm greater))
    increasing dropped

namespace VmmInv

variable {boot : Boot} {m' : Machine} {uses : Uses} {len ptr : Nat}

/-- With room for the region and at most 128 frames, one for each of its pages, the call
returns. -/
theorem mapFrames_runs (inv : VmmInv boot m uses) (supplied : Supplied m)
    (kermap : m.kermap = some pagemap) (sized : Sized len) (ring : flags.user = false)
    (room : Room boot.hhdm pagemap m len) (pa : List Nat) (few : pa.length ≤ 128)
    (long : pa.length = alignUp len pageSize / pageSize) :
    ∃ ptr m', mapFrames boot.hhdm len flags pa m = .ok (ptr, m') ∧ Supplied m' := by
  rcases inv with ⟨ram, pagemap', v, regions, offset, _, space, _⟩
  cases Option.some.inj (space.kernel.kermap.symm.trans kermap)
  rcases room with ⟨⟨place, searched⟩, head, frames, atHead, chain, enough⟩
  rcases space.kernel.store.toPool.chain with ⟨head', atHead', chain'⟩
  have sameHead : head = head' := Option.some.inj (atHead.symm.trans atHead')
  rw [offset, ← sameHead] at chain'
  rw [chain.unique chain'] at enough
  rw [space.kernel.records.listed.calculateRegionLocation_eq
    (space.kernel.records.short space.kernel.store.slab), wrap,
    Nat.mod_eq_of_lt sized.fits] at searched
  cases found : findGap (alignUp len pageSize + pageSize) regions with
  | none =>
      rw [found] at searched
      cases searched
  | some pair =>
      rcases pair with ⟨prev, cur⟩
      rcases space.kernel.collect_runs few (by omega) supplied with
        ⟨vec, v', t, collected, suppliedMid, left, small, same, kernel⟩
      rcases kernel.vmmAllocWithPhys_runs sized.fits ring found vec.entries
        (by rw [same]; omega) (by omega) suppliedMid with
        ⟨ptr, t', mapped, suppliedNext, v'', node, regions', _, after⟩
      rcases after.drop_small small suppliedNext with ⟨_, m', dropped, suppliedAfter, _⟩
      refine ⟨ptr, m', ?_, suppliedAfter⟩
      rw [← offset, mapFrames, collected]
      simp only [bind, Except.bind, kernel.kermap, mapped, dropped]

/-- The region of a window to the frames from `start` on is new in the list, and its bytes are
those of physical memory from `start` on. -/
theorem phys_window (inv : VmmInv boot m uses) (kermap : m.kermap = some pagemap)
    (positive : 0 < len) (aligned : start % pageSize = 0) (bounded : start + len ≤ 2 ^ 52)
    (top : stop ≤ addressSpace)
    (done : mapFrames boot.hhdm len flags (pagesBetween start stop) m = .ok (ptr, m'))
    (supplied : Supplied m') :
    ∃ front back region, Listed m pagemap.khead (front ++ back) ∧
      Listed m' pagemap.khead (front ++ region :: back) ∧ region.base = ptr ∧
      region.length = (len + 4095) / 4096 * 4096 ∧
      ∀ i < len, translateByte boot.hhdm pagemap.archPage m'.memory (ptr + i) =
        some (start + i) := by
  rcases inv with ⟨ram, pagemap', v, regions, offset, _, space, _⟩
  cases Option.some.inj (space.kernel.kermap.symm.trans kermap)
  have sized : Sized len := ⟨positive, by unfold addressSpace; omega⟩
  have few : (pagesBetween start stop).length ≤ 2 ^ 52 := by
    rw [pagesBetween, List.length_map, List.length_range]
    unfold pageSize addressSpace at *
    omega
  rw [← offset] at done ⊢
  rcases ok_of_bind done with ⟨⟨vec, t⟩, collected, rest⟩
  dsimp only at rest
  split at rest
  case h_1 => contradiction
  case h_2 pagemap' kermapMid =>
    rcases ok_of_bind rest with ⟨⟨virt, t'⟩, mapped, rest'⟩
    rcases ok_of_bind rest' with ⟨m'', dropped, last⟩
    cases last
    have suppliedNext : Supplied t' := supplied.before (VecU64.drop_grows dropped)
    have suppliedMid : Supplied t := suppliedNext.before
      (RegionCall.run_allocates (.vmmAllocWithPhys len flags vec.entries) mapped).grows
    -- The storage is there while the region is made, and is gone when the call returns.
    rcases Arranged.collect ⟨v, regions, space, List.Perm.refl _⟩ few collected suppliedMid with
      ⟨⟨extraRegions, extraLive, extraBlocks, storage, arranged⟩, same⟩
    cases Option.some.inj (arranged.kermap.symm.trans kermapMid)
    rcases arranged.call (.vmmAllocWithPhys len flags vec.entries) sized mapped suppliedNext with
      ⟨new, makes, between⟩
    have stores : Stores boot ram pagemap t' (new :: regions) _ _ _ vec :=
      ⟨extraRegions, extraLive, extraBlocks, storage,
        between.perm List.perm_middle List.perm_middle (List.Perm.refl _)⟩
    rcases stores.drop dropped with ⟨v', regions', after, order⟩
    rcases increasing_insert order space.increasing after.increasing with
      ⟨front, back, rfl, rfl⟩
    have length : new.length = (len + 4095) / 4096 * 4096 := makes.length.trans sized.rounded
    have base : new.base = virt := makes.base
    refine ⟨front, back, new, space.kernel.records.listed, after.kernel.records.listed, base,
      length, ?_⟩
    rw [← base]
    exact after.kernel.given_window (List.mem_append_right _ List.mem_cons_self)
      (same ▸ makes.backing) aligned bounded (by omega)

end VmmInv

/-- The small machine has room for windows of a few pages. -/
theorem smallBoot_room (amount : Nat) (small : amount ≤ 0x5000) (positive : 0 < amount) :
    ∃ m pagemap, Booted smallBoot m ∧ Supplied m ∧ m.kermap = some pagemap ∧
      Room smallBoot.hhdm pagemap m amount := by
  have sized : Sized amount := by
    unfold Sized addressSpace
    omega
  have rounded := sized.rounded
  rcases smallBoot_booted with ⟨m, pagemap, v, direct, node, booted, supplied, kernel, left⟩
  have found := smallBoot_findGap direct node
    (show alignUp amount pageSize + pageSize ≤ 0x7FFF7FFD6000 by unfold pageSize at *; omega)
  refine ⟨m, pagemap, booted, supplied, kernel.kermap, ?_, ?_⟩
  · rw [kernel.records.listed.calculateRegionLocation_eq (kernel.records.short kernel.store.slab),
      wrap, Nat.mod_eq_of_lt sized.fits, found]
    exact ⟨_, rfl⟩
  · rcases kernel.store.toPool.chain with ⟨head, atHead, chain⟩
    refine ⟨head, v.free, atHead, chain, ?_⟩
    unfold pageSize at *
    omega

end NyauxKernel.Memory
