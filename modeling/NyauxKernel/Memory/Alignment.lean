/-
The global allocator and the alignment that a layout asks for.

`GlobalAlloc::alloc` passes on the size of the layout only.  The alignment of a block is the
one of its slot in a slab, or of a page for a region.
-/

import NyauxKernel.Memory.Isolation

namespace NyauxKernel.Memory

open LinkPath

/-! ### Layouts -/

/-- `core::alloc::Layout`: the alignment is a power of two, and the size rounded up to it
does not exceed `isize::MAX`. -/
structure NAlloc.Layout where
  size : Nat
  align : Nat
  power : ∃ exponent, align = 2 ^ exponent
  fits : (size + align - 1) / align * align ≤ 2 ^ 63 - 1

/-- `alloc` of the `GlobalAlloc` implementation. -/
def NAlloc.globalAlloc (hhdm : Nat) (layout : NAlloc.Layout) (m : Machine) :
    Except Halt (Nat × Machine) :=
  NAlloc.alloc hhdm layout.size m

/-- The sizes that layouts have. -/
def IsLayoutSize (size : Nat) : Prop := ∃ layout : NAlloc.Layout, layout.size = size

/-- The bytes from a pointer on belong to one object of a slab, or to one region. -/
def Followed (m : Machine) (ptr size : Nat) : Prop :=
  (∃ class' page k, IsSlab m class' page ∧ k < objectCount class' ∧
    slot page class' k ≤ ptr ∧ ptr + size ≤ slot page class' k + class') ∨
  ∃ pagemap node, m.kermap = some pagemap ∧
    Reaches (regionLink m) none pagemap.khead (some node) ∧
    regionBase m node ≤ ptr ∧ ptr + size ≤ regionBase m node + regionLength m node

/-- The alignments that every block of the size has. -/
def NAlloc.Layout.Suited (layout : NAlloc.Layout) : Prop :=
  1024 < layout.size ∨ layout.align ≤ 16 ∨ 16 < layout.size ∧ layout.align ≤ 32

variable {bound request size : Nat}

theorem IsLayoutSize.fits (isSize : IsLayoutSize size) : size + 8191 < addressSpace := by
  rcases isSize with ⟨layout, rfl⟩
  have bounded := layout.fits
  rcases layout.power with ⟨exponent, power⟩
  have positive : 0 < layout.align := power ▸ Nat.two_pow_pos exponent
  have whole := Nat.div_add_mod (layout.size + layout.align - 1) layout.align
  have remainder := Nat.mod_lt (layout.size + layout.align - 1) positive
  rw [Nat.mul_comm] at whole
  unfold addressSpace
  omega

theorem NAlloc.Layout.dvd_of_le (layout : NAlloc.Layout) (below : layout.align ≤ 2 ^ bound) :
    layout.align ∣ 2 ^ bound := by
  rcases layout.power with ⟨exponent, power⟩
  rw [power] at below ⊢
  exact Nat.pow_dvd_pow 2 ((Nat.pow_le_pow_iff_right (by decide)).mp below)

theorem NAlloc.Layout.dvd_of_lt (layout : NAlloc.Layout) (above : 2 ^ bound < layout.align) :
    2 ^ (bound + 1) ∣ layout.align := by
  rcases layout.power with ⟨exponent, power⟩
  rw [power] at above ⊢
  exact Nat.pow_dvd_pow 2 ((Nat.pow_lt_pow_iff_right (by decide)).mp above)

/-! ### The slots of a slab -/

/-- The slots start behind a header of 32 bytes. -/
theorem slot_aligned {page : Nat} (k : Nat) (aligned : page % pageSize = 0)
    (isSize : size ∈ slabSizes) :
    slot page size k % 16 = 0 ∧ (16 < size → slot page size k % 32 = 0) ∧
      (32 < size → slot page size k % 64 = 32) := by
  unfold pageSize at aligned
  simp only [slabSizes, List.mem_cons, List.not_mem_nil, or_false] at isSize
  unfold slot slabHeaderSize
  rcases isSize with rfl | rfl | rfl | rfl | rfl | rfl | rfl <;> omega

/-- An object in use is a slot of an aligned page. -/
theorem SlabInv.live_slot {m : Machine} {slabs : Nat → List Slab} (inv : SlabInv m slabs)
    {object : Nat} (live : LiveObject slabs size object) :
    size ∈ slabSizes ∧ ∃ page k, IsSlab m size page ∧ page % pageSize = 0 ∧
      k < objectCount size ∧ object = slot page size k := by
  rcases live with ⟨isSize, slab, member, inSlots, _⟩
  rcases List.mem_map.mp inSlots with ⟨k, inRange, rfl⟩
  exact ⟨isSize, slab.page, k, (inv.isSlab_iff size slab.page).mpr ⟨isSize, slab, member, rfl⟩,
    (inv.placed size isSize slab member).1, List.mem_range.mp inRange, rfl⟩

/-! ### Blocks of a suited layout -/

namespace Heap

variable {boot : Boot} {ram : Ram} {pagemap : Pagemap} {v : View} {m : Machine}
  {regions : List Region} {allocations : List Allocation} {blocks live : List (Nat × Nat)}

theorem object_slot (heap : Heap boot ram pagemap v m regions allocations blocks live)
    {block : Nat × Nat} (member : block ∈ blocks) :
    ∃ size ∈ slabSizes, block.2 ≤ size ∧ ∃ page k, IsSlab m size page ∧ page % pageSize = 0 ∧
      k < objectCount size ∧ block.1 = slot page size k := by
  rcases heap.space.kernel.records.blockLive block member with ⟨size, classEq, isLive⟩
  rcases slabClass_spec (heap.small block member) with ⟨size', _, classEq', enough, _⟩
  cases Option.some.inj (classEq.symm.trans classEq')
  rcases heap.space.kernel.store.slab.live_slot isLive with ⟨isSize, slotted⟩
  exact ⟨size, isSize, enough, slotted⟩

theorem region_listed (heap : Heap boot ram pagemap v m regions allocations blocks live)
    {allocation : Allocation} (member : allocation ∈ allocations) :
    allocation.base % pageSize = 0 ∧ ∃ node,
      Reaches (regionLink m) none pagemap.khead (some node) ∧
      regionBase m node = allocation.base ∧ allocation.block.2 ≤ regionLength m node := by
  rcases heap.large allocation member with ⟨size, _, sized, callEq⟩
  rcases heap.space.find member with ⟨front, prev, region, back, rfl, makes, _⟩
  have inRegions : region ∈ front ++ prev :: region :: back := by simp
  have kernel := heap.space.kernel
  have fields := kernel.records.listed.fields region inRegions
  refine ⟨makes.base ▸ (kernel.layout.aligned region inRegions).1, region.node, ?_, ?_, ?_⟩
  · exact (kernel.records.listed.linked.reaches_iff (by simp [cells])).mpr
      (List.mem_map_of_mem inRegions)
  · rw [fields.1, makes.base]
  · rw [fields.2, makes.length, Allocation.length, Allocation.block, callEq]
    change size ≤ alignUp size pageSize
    rw [sized.rounded]
    omega

theorem followed (heap : Heap boot ram pagemap v m regions allocations blocks live)
    {block : Nat × Nat} (member : block ∈ live) : Followed m block.1 block.2 := by
  rcases heap.cases member with ⟨_, inBlocks⟩ | ⟨_, allocation, inAllocations, rfl⟩
  · rcases heap.object_slot inBlocks with ⟨size, _, enough, page, k, isSlab, _, below, same⟩
    exact Or.inl ⟨size, page, k, isSlab, below, Nat.le_of_eq same.symm, by omega⟩
  · rcases heap.region_listed inAllocations with ⟨_, node, listed, base, enough⟩
    refine Or.inr ⟨pagemap, node, heap.space.kernel.kermap, listed, Nat.le_of_eq base, ?_⟩
    rw [base]
    exact Nat.add_le_add_left enough _

theorem aligned (heap : Heap boot ram pagemap v m regions allocations blocks live)
    {ptr : Nat} {layout : NAlloc.Layout} (member : (ptr, layout.size) ∈ live)
    (bounded : layout.align ≤ pageSize) (suited : layout.Suited) : ptr % layout.align = 0 := by
  have ofDvd : ∀ bound : Nat, layout.align ≤ 2 ^ bound → ptr % 2 ^ bound = 0 →
      ptr % layout.align = 0 := fun _ below zero =>
    Nat.mod_eq_zero_of_dvd ((layout.dvd_of_le below).trans (Nat.dvd_of_mod_eq_zero zero))
  rcases heap.cases member with ⟨small, inBlocks⟩ | ⟨_, allocation, inAllocations, same⟩
  · rcases heap.object_slot inBlocks with ⟨size, isSize, enough, page, k, _, onPage, _, rfl⟩
    rcases slot_aligned k onPage isSize with ⟨by16, by32, _⟩
    rcases suited with large | low | ⟨wide, low⟩
    · exact absurd small (Nat.not_le_of_lt large)
    · exact ofDvd 4 low by16
    · exact ofDvd 5 low (by32 (Nat.lt_of_lt_of_le wide enough))
  · have base : allocation.base = ptr := congrArg Prod.fst same
    exact ofDvd 12 bounded (base ▸ (heap.region_listed inAllocations).1)

end Heap

/-! ### Blocks that are not aligned -/

/-- A free object of the first slab of a cache is returned after some requests. -/
theorem SlabInv.reaches_object {boot : Boot} {allowed : Nat → Prop} {target : Nat}
    (small : request ≤ 1024) (asked : allowed request) (classEq : slabClass request = some size)
    {back : List Slab} :
    ∀ (count : Nat) {m : Machine} {live : List (Nat × Nat)} {slabs : Nat → List Slab}
      {slab : Slab}, SlabInv m slabs → HeapRun boot allowed m live → Supplied m →
      slabs size = slab :: back → target ∈ slab.free → slab.free.length = count →
      ∃ t m' live', HeapRun boot allowed t live' ∧
        NAlloc.alloc boot.hhdm request t = .ok (target, m') ∧ Supplied m' := by
  intro count
  induction count with
  | zero =>
      intro m live slabs slab _ _ _ _ isFree none
      rw [List.length_eq_zero_iff.mp none] at isFree
      exact absurd isFree List.not_mem_nil
  | succ count inductionHypothesis =>
      intro m live slabs slab inv run supplied first isFree length
      rcases inv.slabAlloc_eq boot.hhdm small with ⟨cache, member, classEq', allocEq⟩
      cases Option.some.inj (classEq.symm.trans classEq')
      have split : slabs cache.size = [] ++ slab :: back := first
      rcases inv.slabCacheAlloc_first boot.hhdm member split
        (fun _ member => absurd member List.not_mem_nil) (List.ne_nil_of_mem isFree) with
        ⟨object, objectFree, m', allocated, served, writes, _⟩
      have done : NAlloc.alloc boot.hhdm request m = .ok (object, m') := by
        apply NAlloc.alloc_small small
        rw [allocEq, allocated]
        rfl
      have suppliedAfter : Supplied m' := by
        rw [Supplied, writes.pmmCalls]
        exact supplied
      by_cases same : object = target
      · exact ⟨m, m', live, run, same ▸ done, suppliedAfter⟩
      · have fewer : (slab.free.erase object).length = count := by
          rw [List.length_erase_of_mem objectFree, length]
          rfl
        exact inductionHypothesis served.inv (HeapRun.alloc request run asked done) suppliedAfter
          (Function.update_self _ _ _) ((List.mem_erase_of_ne (Ne.symm same)).mpr isFree) fewer

/-- After the boot sequence every slot of a class without records can be returned. -/
theorem smallBoot_slot {k : Nat} (small : request ≤ 1024) (asked : IsLayoutSize request)
    (classEq : slabClass request = some size) (isSize : size ∈ slabSizes) (other : size ≠ nodeSize)
    (below : k < objectCount size) :
    ∃ t m' live page, page % pageSize = 0 ∧ HeapRun smallBoot IsLayoutSize t live ∧
      NAlloc.alloc smallBoot.hhdm request t = .ok (slot page size k, m') ∧ Supplied m' := by
  rcases smallBoot_booted with ⟨m, _, _, _, _, booted, supplied, _, _⟩
  rcases booted.kernel smallBoot_good supplied with ⟨pagemap, v, direct, node, kernel, unused, _⟩
  have inv := kernel.store.slab
  cases list : v.slabs size with
  | nil => exact absurd list (inv.nonempty size isSize)
  | cons slab back =>
      have member : slab ∈ v.slabs size := by rw [list]; exact List.mem_cons_self
      have inSlots : slot slab.page size k ∈ slots slab.page size :=
        List.mem_map_of_mem (List.mem_range.mpr below)
      have isFree : slot slab.page size k ∈ slab.free := by_contra fun taken =>
        unused size _ other ⟨isSize, slab, member, inSlots, taken⟩
      rcases inv.reaches_object small asked classEq slab.free.length
        (HeapRun.boot booted) supplied list isFree rfl with ⟨t, m', live, run, done, after⟩
      exact ⟨t, m', live, slab.page, (inv.placed size isSize slab member).1, run, done, after⟩

/-- A block after the boot sequence is a slot of its class. -/
theorem smallBoot_object (small : request ≤ 1024) (classEq : slabClass request = some size) :
    ∃ t m' page k, page % pageSize = 0 ∧ HeapRun smallBoot IsLayoutSize t [] ∧
      NAlloc.alloc smallBoot.hhdm request t = .ok (slot page size k, m') ∧ Supplied m' := by
  rcases smallBoot_booted with ⟨m, pagemap, v, direct, node, booted, supplied, kernel, left⟩
  rcases kernel.store.toPool.slabAlloc_runs small (List.ne_nil_of_length_pos (by omega)) with
    ⟨object, v', m', allocated, taken⟩
  rcases taken.pool.slab.live_slot (taken.new classEq) with ⟨_, page, k, _, onPage, _, rfl⟩
  exact ⟨m, m', page, k, onPage, HeapRun.boot booted, NAlloc.alloc_small small allocated,
    taken.supplied kernel.store.toPool supplied⟩

theorem slabSizes_low : ∀ size ∈ slabSizes, size = 16 ∨ 32 ≤ size := by
  decide

/-- A layout that is not suited gets a block that is not aligned. -/
theorem smallBoot_misaligned {layout : NAlloc.Layout} (unsuited : ¬layout.Suited) :
    ∃ t m' live ptr, HeapRun smallBoot IsLayoutSize t live ∧
      NAlloc.globalAlloc smallBoot.hhdm layout t = .ok (ptr, m') ∧ Supplied m' ∧
      ptr % layout.align ≠ 0 := by
  unfold NAlloc.Layout.Suited at unsuited
  have small : layout.size ≤ 1024 := by omega
  have asked : IsLayoutSize layout.size := ⟨layout, rfl⟩
  rcases slabClass_spec small with ⟨size, isSize, classEq, enough, least⟩
  -- a multiple of the alignment is a multiple of every smaller power of two
  have notMultiple : ∀ bound {ptr : Nat}, 2 ^ bound < layout.align →
      ptr % 2 ^ (bound + 1) ≠ 0 → ptr % layout.align ≠ 0 := fun _ _ above odd zero =>
    odd (Nat.mod_eq_zero_of_dvd ((layout.dvd_of_lt above).trans (Nat.dvd_of_mod_eq_zero zero)))
  by_cases narrow : layout.size ≤ 16
  · -- the second object of the smallest class
    have class16 : size = 16 := by
      have below := least 16 (by decide) narrow
      have above := slabSizes_low size isSize
      omega
    subst class16
    rcases smallBoot_slot (k := 1) small asked classEq isSize (by decide) (by decide) with
      ⟨t, m', live, page, onPage, run, done, supplied⟩
    refine ⟨t, m', live, _, run, done, supplied, notMultiple 4 (by omega) ?_⟩
    unfold slot slabHeaderSize pageSize at *
    omega
  · by_cases middle : layout.size ≤ 32
    · -- the first object of the next class
      have class32 : size = 32 := by
        have below := least 32 (by decide) middle
        have above := slabSizes_low size isSize
        omega
      subst class32
      rcases smallBoot_slot (k := 0) small asked classEq isSize (by decide) (by decide) with
        ⟨t, m', live, page, onPage, run, done, supplied⟩
      refine ⟨t, m', live, _, run, done, supplied, notMultiple 5 (by omega) ?_⟩
      unfold slot slabHeaderSize pageSize at *
      omega
    · rcases smallBoot_object small classEq with ⟨t, m', page, k, onPage, run, done, supplied⟩
      have off := (slot_aligned k onPage isSize).2.2 (by omega)
      refine ⟨t, m', [], _, run, done, supplied, notMultiple 5 (by omega) ?_⟩
      change slot page size k % 64 ≠ 0
      omega

/-- The blocks of a layout are aligned and large enough in every state of every run exactly
when the layout asks for no more than its size class gives: any alignment up to a page above
1024 bytes, 32 bytes from 17 bytes on, and 16 bytes below. -/
theorem global_alloc_aligned_iff (layout : NAlloc.Layout)
    (bounded : layout.align ≤ pageSize) :
    (∀ (boot : Boot) (m m' : Machine) (live : List (Nat × Nat)) (ptr : Nat), GoodBoot boot →
      HeapRun boot IsLayoutSize m live →
      NAlloc.globalAlloc boot.hhdm layout m = .ok (ptr, m') → Supplied m' →
      ptr % layout.align = 0 ∧ Followed m' ptr layout.size) ↔ layout.Suited := by
  constructor
  · intro always
    by_contra unsuited
    rcases smallBoot_misaligned unsuited with ⟨t, m', live, ptr, run, done, supplied, odd⟩
    exact odd (always smallBoot t m' live ptr smallBoot_good run done supplied).1
  · intro suited boot m m' live ptr good run done supplied
    have after : HeapRun boot IsLayoutSize m' ((ptr, layout.size) :: live) :=
      HeapRun.alloc layout.size run ⟨layout, rfl⟩ done
    rcases after.inv good (fun _ isSize => isSize.fits) supplied with
      ⟨ram, pagemap, v, regions, allocations, blocks, _, heap⟩
    exact ⟨heap.aligned List.mem_cons_self bounded suited, heap.followed List.mem_cons_self⟩

/-- A layout of 24 bytes that starts at a multiple of 32. -/
def halfLineLayout : NAlloc.Layout := ⟨24, 32, ⟨5, rfl⟩, Nat.le_of_ble_eq_true rfl⟩

theorem global_alloc_aligned_half_line :
    halfLineLayout.align ≤ pageSize ∧ halfLineLayout.Suited ∧
      ∃ m m' ptr, HeapRun smallBoot IsLayoutSize m [] ∧
        NAlloc.globalAlloc smallBoot.hhdm halfLineLayout m = .ok (ptr, m') ∧ Supplied m' ∧
        ptr % 32 = 0 ∧ Followed m' ptr 24 := by
  have bounded : halfLineLayout.align ≤ pageSize := by decide
  have suited : halfLineLayout.Suited := Or.inr (Or.inr (by decide))
  rcases smallBoot_object (show 24 ≤ 1024 by decide) (show slabClass 24 = some 32 by decide) with
    ⟨m, m', page, k, _, run, done, supplied⟩
  exact ⟨bounded, suited, m, m', _, run, done, supplied,
    (global_alloc_aligned_iff halfLineLayout bounded).mpr suited smallBoot m m' [] _
      smallBoot_good run done supplied⟩

/-- A layout of one cache line. -/
def cacheLineLayout : NAlloc.Layout := ⟨64, 64, ⟨6, rfl⟩, Nat.le_of_ble_eq_true rfl⟩

/-- A cache line right after the boot sequence is 32 bytes off. -/
theorem cache_line_misaligned :
    GoodBoot smallBoot ∧ ∃ m m' ptr, HeapRun smallBoot IsLayoutSize m [] ∧
      NAlloc.globalAlloc smallBoot.hhdm cacheLineLayout m = .ok (ptr, m') ∧ Supplied m' ∧
      ptr % cacheLineLayout.align = 32 := by
  rcases smallBoot_object (show 64 ≤ 1024 by decide) (show slabClass 64 = some 64 by decide) with
    ⟨m, m', page, k, onPage, run, done, supplied⟩
  exact ⟨smallBoot_good, m, m', _, run, done, supplied,
    (slot_aligned k onPage (by decide)).2.2 (by decide)⟩

end NyauxKernel.Memory
