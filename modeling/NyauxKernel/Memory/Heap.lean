/-
Runs of the global allocator: blocks that are objects of the slabs, blocks with a
region of their own, and users that write into their blocks.
-/

import NyauxKernel.Memory.RegionRuns

namespace NyauxKernel.Memory

open ExceptFold

/-! ### Blocks -/

/-- The physical address of a byte of a block: through the direct map for an object of a
slab, through the kernel's page table for a region.  A block is its pointer and the size
asked for. -/
def blockByte (hhdm : Nat) (m : Machine) (block : Nat × Nat) (index : Nat) : Option Nat :=
  if block.2 ≤ 1024 then some (block.1 + index - hhdm)
  else do
    let pagemap ← m.kermap
    let found ← translate hhdm pagemap.archPage m.memory (block.1 + index)
    return found.phys + (block.1 + index) % pageSize

/-- The physical bytes of a block. -/
def Holds (hhdm : Nat) (m : Machine) (block : Nat × Nat) (phys : Nat) : Prop :=
  ∃ index < block.2, blockByte hhdm m block index = some phys

/-- The machines that the allocator and its users lead to, with the live blocks.  Between
the calls users write into their own blocks. -/
inductive HeapRun (boot : Boot) (allowed : Nat → Prop) : Machine → List (Nat × Nat) → Prop
  | boot {m : Machine} (booted : Booted boot m) : HeapRun boot allowed m []
  | alloc {m m' : Machine} {live : List (Nat × Nat)} {ptr : Nat} (size : Nat)
      (before : HeapRun boot allowed m live) (asked : allowed size)
      (done : NAlloc.alloc boot.hhdm size m = .ok (ptr, m')) :
      HeapRun boot allowed m' ((ptr, size) :: live)
  | dealloc {m m' : Machine} {live : List (Nat × Nat)} {block : Nat × Nat}
      (before : HeapRun boot allowed m live) (member : block ∈ live)
      (done : NAlloc.dealloc boot.hhdm block.1 block.2 m = .ok m') :
      HeapRun boot allowed m' (live.erase block)
  | use {m : Machine} {live : List (Nat × Nat)} (memory : Nat → Nat)
      (before : HeapRun boot allowed m live)
      (own : ∀ address, memory address ≠ m.memory address →
        ∃ block ∈ live, ∃ phys, Holds boot.hhdm m block phys ∧ address = phys + boot.hhdm) :
      HeapRun boot allowed { m with memory := memory } live

/-! ### The invariant of a run -/

/-- The block that a region was made for. -/
def Allocation.block (allocation : Allocation) : Nat × Nat :=
  (allocation.base, allocation.call.amount)

/-- The numbers of the pages of an allocation. -/
def Allocation.pages (allocation : Allocation) : List Nat :=
  (regionPages allocation.base allocation.length).map pageNumber

/-- The live blocks are objects and regions. -/
structure Heap (boot : Boot) (ram : Ram) (pagemap : Pagemap) (v : View) (m : Machine)
    (regions : List Region) (allocations : List Allocation) (blocks live : List (Nat × Nat)) :
    Prop where
  space : Space boot ram pagemap v m regions allocations blocks
  large : ∀ allocation ∈ allocations, ∃ size, 1024 < size ∧ Sized size ∧
    allocation.call = .vmmAlloc size writeFlags
  small : ∀ block ∈ blocks, block.2 ≤ 1024
  split : live.Perm (blocks ++ allocations.map Allocation.block)

/-- The page of a byte of a region. -/
theorem page_of_index {base length index : Nat} (aligned : base % pageSize = 0)
    (alignedLength : length % pageSize = 0) (below : index < length) :
    ∃ virt ∈ regionPages base length, pageNumber (base + index) = pageNumber virt := by
  refine ⟨base + index / pageSize * pageSize, ?_, ?_⟩
  · refine List.mem_map_of_mem (List.mem_range.mpr ?_)
    unfold pageSize at *
    omega
  · unfold pageNumber pageSize at *
    congr 1
    omega

theorem blockByte_large {hhdm frame index : Nat} {m : Machine} {pagemap : Pagemap}
    {block : Nat × Nat} (large : 1024 < block.2) (kermap : m.kermap = some pagemap)
    (found : (translate hhdm pagemap.archPage m.memory (block.1 + index)).map Translation.phys =
      some frame) :
    blockByte hhdm m block index = some (frame + (block.1 + index) % pageSize) := by
  obtain ⟨translation, isFound, rfl⟩ := Option.map_eq_some_iff.mp found
  rw [blockByte, if_neg (Nat.not_le_of_lt large), kermap]
  change (translate hhdm pagemap.archPage m.memory (block.1 + index)).bind _ = _
  rw [isFound]
  rfl

/-- Each byte of a region with frames of its own is mapped to a frame of its page. -/
theorem Kernel.translate_backed {ram : Ram} {pagemap : Pagemap} {v : View} {m : Machine}
    {regions : List Region} {blocks : List (Nat × Nat)}
    (kernel : Kernel ram pagemap v m regions blocks) {region : Region} (member : region ∈ regions)
    {frames : List Nat} {flags : VMMFlags} (backing : region.backing = .frames frames flags)
    {index : Nat} (below : index < region.length) :
    ∃ frame, ∃ number ∈ region.pages, v.owner frame = .page number ∧
      (translate ram.hhdm pagemap.archPage m.memory (region.base + index)).map Translation.phys =
        some frame := by
  obtain ⟨aligned, alignedLength⟩ := kernel.layout.aligned region member
  obtain ⟨virt, inPages, numberEq⟩ := page_of_index aligned alignedLength below
  obtain ⟨frame, _, owned, entry⟩ :=
    exists_left_of_forall₂
      (kernel.content.backed region member frames flags backing).flip inPages
  have atPage : leafEntry ram.hhdm m.memory v.tables (pageNumber virt) = _ := entry
  refine ⟨frame, pageNumber virt, List.mem_map_of_mem inPages, owned, ?_⟩
  rw [kernel.store.shape.translate_eq, numberEq, atPage,
    pageTranslation_pageEntry (kernel.store.usable owned (by simp)).frameOk rfl]
  rfl

namespace Heap

variable {boot : Boot} {ram : Ram} {pagemap : Pagemap} {v : View} {m m' : Machine}
  {regions : List Region} {allocations : List Allocation} {blocks live : List (Nat × Nat)}

variable {block : Nat × Nat} {index phys : Nat} {allocation : Allocation}

/-- The block is an object or a region. -/
theorem cases (heap : Heap boot ram pagemap v m regions allocations blocks live)
    (member : block ∈ live) :
    (block.2 ≤ 1024 ∧ block ∈ blocks) ∨
      (1024 < block.2 ∧ ∃ allocation ∈ allocations, allocation.block = block) := by
  rcases List.mem_append.mp (heap.split.mem_iff.mp member) with small | large
  · exact Or.inl ⟨heap.small block small, small⟩
  · obtain ⟨allocation, inAllocations, rfl⟩ := List.mem_map.mp large
    obtain ⟨size, big, _, callEq⟩ := heap.large allocation inAllocations
    have sizeEq : allocation.block.2 = size := by rw [Allocation.block, callEq]; rfl
    exact Or.inr ⟨sizeEq ▸ big, allocation, inAllocations, rfl⟩

/-- The bytes of an object. -/
theorem byte_small (heap : Heap boot ram pagemap v m regions allocations blocks live)
    (member : block ∈ blocks) (below : index < block.2) :
    ∃ phys size, blockByte ram.hhdm m block index = some phys ∧
      LiveObject v.slabs size block.1 ∧ InObject block.1 size (phys + ram.hhdm) := by
  have small := heap.small block member
  obtain ⟨size, classEq, isLive⟩ := heap.space.kernel.records.blockLive block member
  obtain ⟨size', _, classEq', enough, _⟩ := slabClass_spec small
  obtain rfl := Option.some.inj (classEq.symm.trans classEq')
  have inside : InObject block.1 size (block.1 + index) := by
    unfold InObject
    omega
  obtain ⟨frame, _, _, inPage⟩ := heap.space.kernel.store.live_owned isLive inside
  have above : ram.hhdm ≤ block.1 + index := by
    have low := inPage.1
    omega
  refine ⟨block.1 + index - ram.hhdm, size, if_pos small, isLive, ?_⟩
  rw [Nat.sub_add_cancel above]
  exact inside

/-- The bytes of a region. -/
theorem byte_large (heap : Heap boot ram pagemap v m regions allocations blocks live)
    (member : allocation ∈ allocations) (below : index < allocation.block.2) :
    ∃ phys, ∃ number ∈ allocation.pages,
      blockByte ram.hhdm m allocation.block index = some phys ∧
      Owned ram.hhdm v.owner (.page number) (phys + ram.hhdm) := by
  obtain ⟨size, big, sized, callEq⟩ := heap.large allocation member
  have sizeEq : allocation.block.2 = size := by rw [Allocation.block, callEq]; rfl
  obtain ⟨front, prev, region, back, rfl, makes, _⟩ := heap.space.find member
  have backing := makes.backing
  rw [callEq] at backing
  have fits : index < region.length := by
    rw [makes.length, Allocation.length, callEq]
    change index < alignUp size pageSize
    rw [sized.rounded]
    omega
  obtain ⟨frame, number, inPages, owned, found⟩ :=
    heap.space.kernel.translate_backed (by simp) backing fits
  rw [Region.pages, makes.base, makes.length] at inPages
  rw [makes.base] at found
  have aligned := (heap.space.kernel.store.usable owned (by simp)).frameOk.aligned
  refine ⟨_, number, inPages, blockByte_large (sizeEq ▸ big) heap.space.kernel.kermap found,
    frame, aligned, owned, ?_⟩
  have offset := Nat.mod_lt (allocation.block.1 + index) (show 0 < pageSize by decide)
  unfold InPage
  omega

theorem holds_small (heap : Heap boot ram pagemap v m regions allocations blocks live)
    (member : block ∈ blocks) (holds : Holds ram.hhdm m block phys) :
    ∃ size, LiveObject v.slabs size block.1 ∧ InObject block.1 size (phys + ram.hhdm) := by
  obtain ⟨index, below, same⟩ := holds
  obtain ⟨phys', size, byte, isLive, inside⟩ := heap.byte_small member below
  obtain rfl := Option.some.inj (same.symm.trans byte)
  exact ⟨size, isLive, inside⟩

theorem holds_large (heap : Heap boot ram pagemap v m regions allocations blocks live)
    (member : allocation ∈ allocations) (holds : Holds ram.hhdm m allocation.block phys) :
    ∃ number ∈ allocation.pages, Owned ram.hhdm v.owner (.page number) (phys + ram.hhdm) := by
  obtain ⟨index, below, same⟩ := holds
  obtain ⟨phys', number, inPages, byte, owned⟩ := heap.byte_large member below
  obtain rfl := Option.some.inj (same.symm.trans byte)
  exact ⟨number, inPages, owned⟩

theorem holds_lent (heap : Heap boot ram pagemap v m regions allocations blocks live)
    (member : block ∈ live) (holds : Holds ram.hhdm m block phys) :
    Kernel.Lent ram v blocks (phys + ram.hhdm) := by
  rcases heap.cases member with ⟨_, inBlocks⟩ | ⟨_, allocation, inAllocations, rfl⟩
  · obtain ⟨size, isLive, inside⟩ := heap.holds_small inBlocks holds
    exact Or.inl ⟨block, inBlocks, size, isLive, inside⟩
  · obtain ⟨number, _, owned⟩ := heap.holds_large inAllocations holds
    exact Or.inr ⟨number, owned⟩

/-! ### The calls -/

theorem alloc_done (heap : Heap boot ram pagemap v m regions allocations blocks live)
    {size ptr : Nat} (fits : size + 8191 < addressSpace)
    (done : NAlloc.alloc ram.hhdm size m = .ok (ptr, m')) (supplied : Supplied m') :
    ∃ v' regions' allocations' blocks',
      Heap boot ram pagemap v' m' regions' allocations' blocks' ((ptr, size) :: live) := by
  by_cases small : size ≤ 1024
  case pos =>
    obtain ⟨v', space⟩ := heap.space.alloc small done supplied
    refine ⟨v', regions, allocations, (ptr, size) :: blocks, space, heap.large, ?_,
      heap.split.cons _⟩
    intro block member
    rcases List.mem_cons.mp member with rfl | older
    · exact small
    · exact heap.small block older
  case neg =>
    rw [NAlloc.alloc, if_neg small, heap.space.kernel.kermap] at done
    have sized : Sized size := ⟨by omega, fits⟩
    obtain ⟨v', regions', space, _⟩ := heap.space.call (.vmmAlloc size writeFlags) sized done supplied
    refine ⟨v', regions', _, blocks, space, ?_, heap.small,
      (heap.split.cons _).trans List.perm_middle.symm⟩
    intro allocation member
    rcases List.mem_cons.mp member with rfl | older
    · exact ⟨size, by omega, sized, rfl⟩
    · exact heap.large allocation older

theorem dealloc_done (heap : Heap boot ram pagemap v m regions allocations blocks live)
    (member : block ∈ live) (done : NAlloc.dealloc ram.hhdm block.1 block.2 m = .ok m') :
    ∃ ram' v' regions' allocations' blocks', ram'.hhdm = ram.hhdm ∧
      Heap boot ram' pagemap v' m' regions' allocations' blocks' (live.erase block) := by
  have order := (List.perm_cons_erase member).symm.trans heap.split
  rcases heap.cases member with ⟨small, inBlocks⟩ | ⟨big, allocation, inAllocations, rfl⟩
  · rw [NAlloc.dealloc, if_pos small] at done
    obtain rfl := Except.ok.inj done
    obtain ⟨v', space⟩ := heap.space.free inBlocks
    refine ⟨ram, v', regions, allocations, blocks.erase block, rfl, space, heap.large, ?_, ?_⟩
    · exact fun other inRest => heap.small other (List.mem_of_mem_erase inRest)
    · exact (order.trans ((List.perm_cons_erase inBlocks).append_right _)).cons_inv
  · rw [NAlloc.dealloc, if_neg (by omega), heap.space.kernel.kermap] at done
    obtain ⟨⟨pagemap', t⟩, deallocated, rest⟩ := ok_of_bind done
    obtain rfl := Except.ok.inj rest
    obtain ⟨size, _, _, callEq⟩ := heap.large allocation inAllocations
    obtain ⟨v', t', front, region, back, dealloc, _, _, space, _⟩ :=
      heap.space.deallocOwn inAllocations callEq
    obtain ⟨rfl, rfl⟩ := Prod.mk.inj (Except.ok.inj (deallocated.symm.trans dealloc))
    rw [kermap_eta space.kernel.kermap]
    refine ⟨ram, v', front ++ back, allocations.erase allocation, blocks, rfl, space, ?_,
      heap.small, ?_⟩
    · exact fun other inRest => heap.large other (List.mem_of_mem_erase inRest)
    · have moved : (blocks ++ allocations.map Allocation.block).Perm
          (allocation.block :: (blocks ++ (allocations.erase allocation).map Allocation.block)) :=
        (((List.perm_cons_erase inAllocations).map Allocation.block).append_left _).trans
          List.perm_middle
      exact (order.trans moved).cons_inv

theorem use (heap : Heap boot ram pagemap v m regions allocations blocks live)
    {memory : Nat → Nat}
    (own : ∀ address, memory address ≠ m.memory address →
      ∃ block ∈ live, ∃ phys, Holds ram.hhdm m block phys ∧ address = phys + ram.hhdm) :
    Heap boot ram pagemap v { m with memory := memory } regions allocations blocks live := by
  have kernel : Kernel ram pagemap v { m with memory := memory } regions blocks := by
    refine heap.space.kernel.use fun address changed => ?_
    obtain ⟨block, member, phys, holds, rfl⟩ := own address changed
    exact heap.holds_lent member holds
  exact ⟨⟨kernel, heap.space.positive, heap.space.shape⟩, heap.large, heap.small, heap.split⟩

end Heap

/-- The invariant along a run whose sizes do not wrap. -/
theorem HeapRun.inv {boot : Boot} (good : GoodBoot boot) {allowed : Nat → Prop}
    (fits : ∀ size, allowed size → size + 8191 < addressSpace) {m : Machine}
    {live : List (Nat × Nat)} (run : HeapRun boot allowed m live) (supplied : Supplied m) :
    ∃ ram pagemap v regions allocations blocks, ram.hhdm = boot.hhdm ∧
      Heap boot ram pagemap v m regions allocations blocks live := by
  induction run with
  | boot booted =>
      obtain ⟨pagemap, v, regions, space⟩ := booted.space good supplied
      exact ⟨good.ram, pagemap, v, regions, [], [], rfl, space,
        fun _ member => absurd member List.not_mem_nil,
        fun _ member => absurd member List.not_mem_nil, List.Perm.refl _⟩
  | alloc size before asked done inductionHypothesis =>
      obtain ⟨ram, pagemap, v, regions, allocations, blocks, offset, heap⟩ :=
        inductionHypothesis (supplied.before (NAlloc.alloc_allocates done).grows)
      rw [← offset] at done
      obtain ⟨v', regions', allocations', blocks', after⟩ :=
        heap.alloc_done (fits size asked) done supplied
      exact ⟨ram, pagemap, v', regions', allocations', blocks', offset, after⟩
  | dealloc before member done inductionHypothesis =>
      obtain ⟨ram, pagemap, v, regions, allocations, blocks, offset, heap⟩ :=
        inductionHypothesis (supplied.before (NAlloc.dealloc_grows done))
      rw [← offset] at done
      obtain ⟨ram', v', regions', allocations', blocks', offset', after⟩ :=
        heap.dealloc_done member done
      exact ⟨ram', pagemap, v', regions', allocations', blocks', offset'.trans offset, after⟩
  | use memory before own inductionHypothesis =>
      obtain ⟨ram, pagemap, v, regions, allocations, blocks, offset, heap⟩ :=
        inductionHypothesis supplied
      rw [← offset] at own
      exact ⟨ram, pagemap, v, regions, allocations, blocks, offset, heap.use own⟩

end NyauxKernel.Memory
