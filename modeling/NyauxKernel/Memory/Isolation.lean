/-
Isolation of the blocks of the global allocator from each other and from the records
that the allocators keep in the same memory.
-/

import NyauxKernel.Memory.Heap

namespace NyauxKernel.Memory

open LinkPath

/-- The physical bytes that the allocators use themselves. -/
inductive Reserved (hhdm : Nat) (m : Machine) (phys : Nat) : Prop
  | header {size page : Nat} (isSlab : IsSlab m size page) (low : page ≤ phys + hhdm)
      (high : phys + hhdm < page + slabHeaderSize) : Reserved hhdm m phys
  | freeObject {size page object : Nat} (isSlab : IsSlab m size page)
      (onChain : Reaches m.memory 0 (m.memory (page + objOffset)) object)
      (inside : InObject object size (phys + hhdm)) : Reserved hhdm m phys
  | node {pagemap : Pagemap} {node : Nat} (kermap : m.kermap = some pagemap)
      (listed : Reaches (regionLink m) none pagemap.khead (some node))
      (inside : InObject node regionSize (phys + hhdm)) : Reserved hhdm m phys
  | table {pagemap : Pagemap} {level frame : Nat} (kermap : m.kermap = some pagemap)
      (isTable : IsTable hhdm m.memory pagemap.archPage level frame)
      (inside : InPage frame phys) : Reserved hhdm m phys
  | freeFrame {head frame : Nat} (freelist : m.freelist = some head)
      (onList : Reaches (fun frame => m.memory (frame + hhdm)) 0 head frame)
      (inside : InPage frame phys) : Reserved hhdm m phys

/-- The bytes of live blocks are there, belong to one block and to no record of the
allocators. -/
structure Isolated (hhdm : Nat) (m : Machine) (live : List (Nat × Nat)) : Prop where
  mapped : ∀ block ∈ live, ∀ index < block.2, ∃ phys, blockByte hhdm m block index = some phys
  disjoint : live.Pairwise fun block other =>
    ∀ phys, Holds hhdm m block phys → ¬Holds hhdm m other phys
  apart : ∀ block ∈ live, ∀ phys, Holds hhdm m block phys → ¬Reserved hhdm m phys

theorem inPage_offset {frame phys : Nat} (hhdm : Nat) (inside : InPage frame phys) :
    InPage (frame + hhdm) (phys + hhdm) := by
  unfold InPage at *
  omega

variable {m : Machine} {hhdm size : Nat} {ram : Ram} {v : View} {live : List Allocation}
  {pagemap : Pagemap}

/-- Free objects and headers are private to the slabs. -/
theorem Pool.private_of_isSlab (pool : Pool ram v m) {page : Nat} (isSlab : IsSlab m size page) :
    ∃ slab ∈ v.slabs size, size ∈ slabSizes ∧ slab.page = page ∧
      ∀ object, Reaches m.memory 0 (m.memory (page + objOffset)) object ↔ object ∈ slab.free := by
  obtain ⟨isSize, slab, member, rfl⟩ := (pool.slab.isSlab_iff size page).mp isSlab
  refine ⟨slab, member, isSize, rfl, ?_⟩
  have ok := pool.slab.shaped size isSize slab member
  have nonzero : 0 ∉ slab.free := by
    intro null
    have inPage := (slots_inPage (ok.inSlots 0 null)
      ⟨Nat.le_refl 0, by have positive := slabSizes_pos size isSize; omega⟩).1
    have real := (pool.slab.placed size isSize slab member).2.1
    have low := inPage.1
    omega
  exact fun object => ok.chain.reaches_iff nonzero

namespace Kernel

variable {regions : List Region} {blocks : List (Nat × Nat)}

/-- What users have is not reserved. -/
theorem lent_not_reserved (kernel : Kernel ram pagemap v m regions blocks) {phys : Nat}
    (lent : Lent ram v blocks (phys + ram.hhdm)) : ¬Reserved ram.hhdm m phys := by
  intro reserved
  cases reserved with
  | header isSlab low high =>
      obtain ⟨slab, member, isSize, rfl, _⟩ := kernel.store.private_of_isSlab isSlab
      exact kernel.lent_not_private lent ⟨_, isSize, slab, member, Or.inl ⟨low, high⟩⟩
  | freeObject isSlab onChain inside =>
      obtain ⟨slab, member, isSize, rfl, free⟩ := kernel.store.private_of_isSlab isSlab
      exact kernel.lent_not_private lent
        ⟨_, isSize, slab, member, Or.inr ⟨_, (free _).mp onChain, inside⟩⟩
  | node kermap listed inside =>
      obtain rfl := Option.some.inj (kernel.kermap.symm.trans kermap)
      have inCells := (kernel.records.listed.linked.reaches_iff (by simp [cells])).mp listed
      obtain ⟨region, member, same⟩ := List.mem_map.mp inCells
      obtain rfl := Option.some.inj same
      refine kernel.lent_not_node lent member ⟨inside.1, Nat.lt_of_lt_of_le inside.2 ?_⟩
      exact Nat.add_le_add_left (by decide) _
  | table kermap isTable inside =>
      obtain rfl := Option.some.inj (kernel.kermap.symm.trans kermap)
      obtain ⟨level, place, _, there⟩ := (kernel.store.shape.isTable_iff _ _).mp isTable
      have owned := kernel.store.tableOwned there
      exact kernel.lent_not_owned lent (by decide) (by simp)
        ⟨_, (kernel.store.usable owned (by decide)).frameOk.aligned, owned,
          inPage_offset ram.hhdm inside⟩
  | freeFrame freelist onList inside =>
      obtain ⟨head, atHead, chain⟩ := kernel.store.chain
      obtain rfl := Option.some.inj (atHead.symm.trans freelist)
      have isFree := (chain.linked.reaches_iff chain.nonzero).mp onList
      exact kernel.lent_not_owned lent (by decide) (by simp)
        (kernel.store.free_owned isFree (inPage_offset ram.hhdm inside))

end Kernel

theorem makes_pages {made : List Region} (each : List.Forall₂ Makes live made) :
    made.map Region.pages = live.map Allocation.pages := by
  induction each with
  | nil => rfl
  | cons makes _ inductionHypothesis =>
      rw [List.map_cons, List.map_cons, inductionHypothesis, Region.pages, Allocation.pages,
        makes.base, makes.length]

/-- Different allocations have different pages. -/
theorem Space.pages_apart {boot : Boot} {regions : List Region} {blocks : List (Nat × Nat)}
    (space : Space boot ram pagemap v m regions live blocks) :
    (live.map Allocation.pages).Pairwise List.Disjoint := by
  obtain ⟨direct, node, middle, made, rfl, perm, each⟩ := space.shape
  have layout := space.kernel.layout
  have apart : (directRegion boot direct :: (middle ++ [kernelRegion boot node])).Pairwise
      fun region other => List.Disjoint region.pages other.pages := by
    apply layout.ordered.imp_of_mem
    intro region other member member' next page inPages
    exact pages_disjoint (layout.high region member) (layout.inside other member').2
      (layout.aligned other member').1 next inPages
  have inMiddle : (middle.map Region.pages).Pairwise List.Disjoint :=
    List.pairwise_map.mpr (List.pairwise_append.mp (List.pairwise_cons.mp apart).2).1
  rw [← makes_pages each]
  exact ((perm.map Region.pages).pairwise_iff fun apart => List.disjoint_comm.mp apart).mp
    inMiddle

namespace Heap

variable {boot : Boot} {regions : List Region} {allocations : List Allocation}
  {blocks live : List (Nat × Nat)}

theorem blocks_disjoint (heap : Heap boot ram pagemap v m regions allocations blocks live) :
    blocks.Pairwise fun block other =>
      ∀ phys, Holds ram.hhdm m block phys → ¬Holds ram.hhdm m other phys := by
  have distinct : blocks.Pairwise fun block other => block.1 ≠ other.1 :=
    List.pairwise_map.mp (List.nodup_append.mp heap.space.kernel.records.distinct).2.1
  apply distinct.imp_of_mem
  intro block other member member' differ phys holds holds'
  obtain ⟨size, isLive, inside⟩ := heap.holds_small member holds
  obtain ⟨size', isLive', inside'⟩ := heap.holds_small member' holds'
  exact differ (heap.space.kernel.store.slab.live_disjoint isLive isLive' inside inside').2

theorem allocations_disjoint
    (heap : Heap boot ram pagemap v m regions allocations blocks live) :
    (allocations.map Allocation.block).Pairwise fun block other =>
      ∀ phys, Holds ram.hhdm m block phys → ¬Holds ram.hhdm m other phys := by
  apply List.pairwise_map.mpr
  apply (List.pairwise_map.mp heap.space.pages_apart).imp_of_mem
  intro allocation other member member' apart phys holds holds'
  obtain ⟨number, inPages, owned⟩ := heap.holds_large member holds
  obtain ⟨number', inPages', owned'⟩ := heap.holds_large member' holds'
  obtain rfl := Owner.page.inj (owned.unique owned')
  exact apart inPages inPages'

theorem isolated (heap : Heap boot ram pagemap v m regions allocations blocks live) :
    Isolated ram.hhdm m live := by
  constructor
  case mapped =>
    intro block member index below
    rcases heap.cases member with ⟨_, inBlocks⟩ | ⟨_, allocation, inAllocations, rfl⟩
    · obtain ⟨phys, _, byte, _⟩ := heap.byte_small inBlocks below
      exact ⟨phys, byte⟩
    · obtain ⟨phys, _, _, byte, _⟩ := heap.byte_large inAllocations below
      exact ⟨phys, byte⟩
  case disjoint =>
    rw [heap.split.pairwise_iff fun {block other} apart phys holds holds' => apart phys holds' holds]
    refine List.pairwise_append.mpr ⟨heap.blocks_disjoint, heap.allocations_disjoint, ?_⟩
    intro block inBlocks other inLarge phys holds holds'
    obtain ⟨allocation, inAllocations, rfl⟩ := List.mem_map.mp inLarge
    obtain ⟨size, isLive, inside⟩ := heap.holds_small inBlocks holds
    obtain ⟨number, _, owned⟩ := heap.holds_large inAllocations holds'
    have clash := owned.unique (heap.space.kernel.store.live_owned isLive inside)
    contradiction
  case apart =>
    intro block member phys holds
    exact heap.space.kernel.lent_not_reserved (heap.holds_lent member holds)

end Heap

/-- Isolation.  In every state of a run of the allocator and its users that never asked for
a page with an empty free list, and whose sizes can be rounded up and followed by one more
page without wrapping, the live blocks are mapped, pairwise disjoint in physical memory, and
apart from slab headers, free objects, region records, page tables and free frames. -/
theorem allocator_isolation (boot : Boot) (good : GoodBoot boot) (m : Machine)
    (live : List (Nat × Nat))
    (run : HeapRun boot (fun size => size + (2 * pageSize - 1) < addressSpace) m live)
    (supplied : Supplied m) : Isolated boot.hhdm m live := by
  obtain ⟨ram, pagemap, v, regions, allocations, blocks, offset, heap⟩ :=
    run.inv good (fun _ fits => fits) supplied
  rw [← offset]
  exact heap.isolated

theorem NAlloc.alloc_large (large : 1024 < size) (kermap : m.kermap = some pagemap) :
    NAlloc.alloc hhdm size m = vmmAlloc hhdm pagemap size writeFlags m := by
  rw [NAlloc.alloc, if_neg (Nat.not_le_of_lt large), kermap]

theorem NAlloc.alloc_small {object : Nat} {m' : Machine} (small : size ≤ 1024)
    (done : slabAlloc hhdm size m = .ok (some object, m')) :
    NAlloc.alloc hhdm size m = .ok (object, m') := by
  rw [NAlloc.alloc, if_pos small, done]
  rfl

theorem allocator_isolation_small_boot :
    ∃ m object base,
      HeapRun smallBoot (fun size => size + (2 * pageSize - 1) < addressSpace) m
        [(base, 1025), (object, 16)] ∧
      Supplied m ∧ Isolated smallBoot.hhdm m [(base, 1025), (object, 16)] := by
  obtain ⟨m, pagemap, v, direct, node, booted, supplied, kernel, left⟩ := smallBoot_booted
  obtain ⟨object, mid, t, taken, took⟩ := kernel.store.toPool.slabAlloc_runs
    (show 16 ≤ 1024 by decide) (List.ne_nil_of_length_pos (by omega))
  have suppliedMid := took.supplied kernel.store.toPool supplied
  obtain ⟨frames, few, split, _⟩ := took.took
  have leftMid : 23 ≤ mid.free.length := by
    have lengths := congrArg List.length split
    rw [List.length_append] at lengths
    omega
  have after := kernel.addBlock took
  have fits : Fits 1025 := by
    unfold Fits
    decide
  obtain ⟨base, m', done, suppliedAfter, _⟩ := after.vmmAlloc_runs fits
    (show writeFlags.user = false from rfl) (smallBoot_findGap direct node (by decide))
    (Nat.le_trans (by decide) leftMid) suppliedMid
  have first : HeapRun smallBoot (fun size => size + (2 * pageSize - 1) < addressSpace) t _ :=
    HeapRun.alloc 16 (HeapRun.boot booted) (by decide) (NAlloc.alloc_small (by decide) taken)
  have run := HeapRun.alloc 1025 first (by decide)
    ((NAlloc.alloc_large (by decide) after.kermap).trans done)
  exact ⟨m', object, base, run, suppliedAfter,
    allocator_isolation smallBoot smallBoot_good m' _ run suppliedAfter⟩

/-- Two live blocks with a byte in common.  The first size is rounded up to zero bytes, so
the next region starts at the same address. -/
theorem wrapped_size_overlap :
    ∃ m base phys, HeapRun smallBoot (fun _ => True) m [(base, 1025), (base, addressSpace - 1)] ∧
      Supplied m ∧ Holds smallBoot.hhdm m (base, 1025) phys ∧
      Holds smallBoot.hhdm m (base, addressSpace - 1) phys := by
  obtain ⟨m, pagemap, v, direct, node, booted, supplied, kernel, left⟩ := smallBoot_booted
  have rounded : alignUp (addressSpace - 1) pageSize = 0 := by decide
  have fits : Fits (addressSpace - 1) := by
    unfold Fits
    decide
  obtain ⟨base, t, done, suppliedMid, v', record, frames, regions', placed, middle, _, leftMid⟩ :=
    kernel.vmmAlloc_runs fits (show writeFlags.user = false from rfl)
      (smallBoot_findGap direct node (by decide)) (Nat.le_trans (by decide) left) supplied
  obtain ⟨rfl, baseEq⟩ := placed.pair
  rw [rounded, Nat.zero_div] at leftMid
  rw [rounded] at middle
  have place : base = smallBoot.hhdm + directSize smallBoot := baseEq
  -- the empty region leaves no gap before it, and the gap behind it starts at its base
  have found : findGap (alignUp 1025 pageSize + pageSize)
      [directRegion smallBoot direct, ⟨record, base, 0, .frames frames writeFlags⟩,
        kernelRegion smallBoot node] =
      some (⟨record, base, 0, .frames frames writeFlags⟩, kernelRegion smallBoot node) := by
    have noRoom : ¬alignUp 1025 pageSize + pageSize ≤
        smallBoot.hhdm + directSize smallBoot - wrap (smallBoot.hhdm + directSize smallBoot) := by
      decide
    have room : alignUp 1025 pageSize + pageSize ≤
        smallBoot.virtualBase - wrap (smallBoot.hhdm + directSize smallBoot + 0) := by
      decide
    rw [place]
    exact (if_neg noRoom).trans (if_pos room)
  have fitsNext : Fits 1025 := by
    unfold Fits
    decide
  obtain ⟨base', m', done', suppliedAfter, _, record', frames', regions'', placed', after, _⟩ :=
    middle.vmmAlloc_runs fitsNext (show writeFlags.user = false from rfl) found
      (Nat.le_trans (show 1 + 4 * (alignUp 1025 pageSize / pageSize) ≤ 23 by decide) (by omega))
      suppliedMid
  have sameBase : base' = base := by
    obtain ⟨_, prev, cur, _, _, _, found', baseEq'⟩ := placed'.place
    obtain ⟨rfl, rfl⟩ := Prod.mk.inj (Option.some.inj (found.symm.trans found'))
    exact baseEq'
  subst sameBase
  obtain ⟨frame, _, _, _, translated⟩ := after.translate_backed placed'.mem rfl
    (show 0 < alignUp 1025 pageSize by decide)
  have first : HeapRun smallBoot (fun _ => True) t _ :=
    HeapRun.alloc (addressSpace - 1) (HeapRun.boot booted) trivial
      ((NAlloc.alloc_large (by decide) kernel.kermap).trans done)
  have run := HeapRun.alloc 1025 first trivial
    ((NAlloc.alloc_large (by decide) middle.kermap).trans done')
  exact ⟨m', base', _, run, suppliedAfter,
    ⟨0, (by decide : 0 < 1025), blockByte_large (show 1024 < 1025 by decide) after.kermap translated⟩,
    ⟨0, (by decide : 0 < addressSpace - 1),
      blockByte_large (show 1024 < addressSpace - 1 by decide) after.kermap translated⟩⟩

end NyauxKernel.Memory
