/-
From the bootloader's memory map to the invariant of the kernel's memory: what
`pmm::init` and `vmm_init` establish.
-/

import NyauxKernel.Memory.Kernel
import NyauxKernel.Memory.PageMap

namespace NyauxKernel.Memory

open ExceptFold RadixTree

/-! ### What the bootloader promises -/

/-- The size of the direct map. -/
def directSize (boot : Boot) : Nat := alignUp (maxHhdmPhys boot.entries) pageSize

def kernelSize (boot : Boot) : Nat := alignUp (boot.kernelEnd - boot.kernelStart) pageSize

/-- Usable entries are aligned, do not overlap and can be reached; the direct map and
the kernel are not empty, and the direct map begins in the higher half and ends below
the kernel. -/
structure GoodBoot (boot : Boot) : Prop where
  aligned : ∀ entry ∈ boot.entries, entry.type = .usable →
    entry.base % pageSize = 0 ∧ entry.length % pageSize = 0
  disjoint : boot.entries.Pairwise fun entry other => entry.type = .usable →
    other.type = .usable → entry.base + entry.length ≤ other.base ∨
      other.base + other.length ≤ entry.base
  reachable : ∀ entry ∈ boot.entries, entry.type = .usable →
    entry.base + entry.length ≤ 2 ^ 52 ∧ entry.base + entry.length + boot.hhdm ≤ addressSpace
  offset : boot.hhdm % pageSize = 0
  high : higherHalf ≤ boot.hhdm
  direct : 0 < directSize boot
  kernelReal : 0 < kernelSize boot
  kernelAligned : boot.virtualBase % pageSize = 0
  kernelAbove : boot.hhdm + directSize boot ≤ boot.virtualBase
  kernelInside : boot.virtualBase < addressSpace ∧
    boot.virtualBase + kernelSize boot ≤ addressSpace

namespace GoodBoot

variable {boot : Boot}

def map (good : GoodBoot boot) : MemoryMap where
  hhdm := boot.hhdm
  entries := boot.entries
  aligned := good.aligned
  disjoint := good.disjoint

theorem usable (good : GoodBoot boot) :
    ∀ frame ∈ good.map.frames, Usable boot.hhdm frame := by
  intro frame member
  obtain ⟨inPages, nonzero⟩ := List.mem_filter.mp member
  obtain ⟨entry, inEntries, inEntry⟩ := List.mem_flatMap.mp inPages
  obtain ⟨isUsable, low, high, i, place⟩ := mem_usablePages inEntry
  have aligned := good.aligned entry inEntries isUsable
  have reach := good.reachable entry inEntries isUsable
  have offset := good.offset
  have real : frame ≠ 0 := by simpa using nonzero
  refine ⟨⟨?_, ?_⟩, real, ⟨?_, ?_, ?_⟩⟩
  all_goals
    unfold pageSize at *
    omega

def ram (good : GoodBoot boot) : Ram where
  hhdm := boot.hhdm
  frames := good.map.frames
  usable := good.usable

end GoodBoot

/-- The direct map's region and the kernel's. -/
def directRegion (boot : Boot) (node : Nat) : Region :=
  { node := node, base := boot.hhdm, length := directSize boot, backing := .boot }

def kernelRegion (boot : Boot) (node : Nat) : Region :=
  { node := node, base := boot.virtualBase, length := kernelSize boot, backing := .boot }

variable {boot : Boot} {m m' : Machine}

theorem GoodBoot.layout (good : GoodBoot boot) (node other : Nat) :
    Layout [directRegion boot node, kernelRegion boot other] := by
  have high := good.high
  have above := good.kernelAbove
  have inside := good.kernelInside
  constructor
  · exact List.pairwise_pair.mpr above
  · intro region member
    rcases List.mem_pair.mp member with rfl | rfl
    · exact ⟨good.offset, alignUp_aligned _⟩
    · exact ⟨good.kernelAligned, alignUp_aligned _⟩
  · intro region member
    rcases List.mem_pair.mp member with rfl | rfl
    · exact high
    · change higherHalf ≤ boot.virtualBase
      omega
  · intro region member
    rcases List.mem_pair.mp member with rfl | rfl
    · change boot.hhdm < addressSpace ∧ boot.hhdm + directSize boot ≤ addressSpace
      omega
    · exact inside

/-! ### `pmm::init` -/

variable {hhdm phy size : Nat} {start v' : View} {sizes : Nat × Nat} {t : Machine}

theorem initSlabFrom_cons_ok {index : Nat} {sizes : List Nat}
    (done : initSlabFrom hhdm index (size :: sizes) m = .ok m') :
    ∃ page grown, slabHeaderInit hhdm size m = .ok (page, grown) ∧
      initSlabFrom hhdm (index + 1) sizes
        { grown with slabCaches := grown.slabCaches.set index ⟨size, page⟩ } = .ok m' := by
  obtain ⟨⟨cache, after⟩, cached, rest⟩ := ok_of_bind done
  unfold slabCacheInit at cached
  split at cached
  · contradiction
  · obtain ⟨⟨page, grown⟩, made, last⟩ := ok_of_bind cached
    obtain ⟨rfl, rfl⟩ := Prod.mk.inj (Except.ok.inj last)
    exact ⟨page, grown, made, rest⟩

theorem initSlabFrom_allocates (sizes : List Nat) (index : Nat)
    (done : initSlabFrom hhdm index sizes m = .ok m') : Allocates m m' := by
  induction sizes generalizing m index with
  | nil =>
      obtain rfl : m = m' := Except.ok.inj done
      exact Allocates.refl m
  | cons size sizes inductionHypothesis =>
      obtain ⟨page, grown, made, rest⟩ := initSlabFrom_cons_ok done
      obtain ⟨phy, _, _, calls⟩ := slabHeaderInit_calls made
      have later := inductionHypothesis (index + 1) rest
      have first : Allocates m grown := ⟨[phy], calls⟩
      exact Allocates.trans first later

/-- Initialisation that did not run out of pages had one for each cache. -/
theorem initSlabFrom_enough {map : MemoryMap} (sizes : List Nat) (index : Nat)
    (fit : ∀ size ∈ sizes, 0 < size ∧ size ≤ pageSize - slabHeaderSize ∧
      slabHeaderSize + size ≤ pageSize) {frames : List Nat} (conserved : Conserved map m frames)
    (done : initSlabFrom map.hhdm index sizes m = .ok m') (supplied : Supplied m') :
    sizes.length ≤ frames.length := by
  induction sizes generalizing m frames index with
  | nil => exact Nat.zero_le _
  | cons size sizes inductionHypothesis =>
      obtain ⟨positive, fits, _⟩ := fit size List.mem_cons_self
      obtain ⟨page, grown, made, rest⟩ := initSlabFrom_cons_ok done
      have later := (initSlabFrom_allocates sizes (index + 1) rest).grows
      cases frames with
      | nil =>
          obtain ⟨phy, atHead, _, calls⟩ := slabHeaderInit_calls made
          obtain rfl : phy = 0 :=
            Option.some.inj (atHead.symm.trans (conserved.freelist_eq_zero_iff.mpr rfl))
          have fine : Supplied grown := supplied.before later
          rw [Supplied, calls] at fine
          exact absurd (List.mem_append_right _ List.mem_cons_self) fine
      | cons frame frames =>
          obtain ⟨grown', madeEq, after, _⟩ := conserved.slabHeaderInit positive fits
          obtain ⟨_, rfl⟩ := Prod.mk.inj (Except.ok.inj (made.symm.trans madeEq))
          have cached : Conserved map
              { grown with
                slabCaches := grown.slabCaches.set index ⟨size, page⟩ } frames :=
            { chain := after.chain, parts := after.parts }
          exact Nat.succ_le_succ (inductionHypothesis (index + 1)
            (fun other member => fit other (List.mem_cons_of_mem size member)) cached rest)

/-- The statics before `pmm::init`. -/
structure Bare (m : Machine) : Prop where
  fresh : m.freelist = none
  uncalled : m.pmmCalls = []
  seven : m.slabCaches.length = 7

theorem GoodBoot.enough (good : GoodBoot boot) (bare : Bare m)
    (done : pmmInit boot.hhdm boot.entries m = .ok m') (supplied : Supplied m') :
    slabSizes.length ≤ good.map.frames.length := by
  have ready : (initFreelist boot.hhdm boot.entries m).freelist ≠ none := by
    obtain ⟨_, _, made, _⟩ := initSlabFrom_cons_ok done
    obtain ⟨phy, atHead, _⟩ := slabHeaderInit_calls made
    rw [atHead]
    exact Option.some_ne_none phy
  have conserved := initFreelist_conserved good.map bare.fresh bare.uncalled ready
  have short := initSlabFrom_enough slabSizes 0 slabSizes_fit conserved done supplied
  rwa [List.length_reverse] at short

/-- The memory that the page allocator gets from a map. -/
def MemoryMap.ram (map : MemoryMap) (usable : ∀ frame ∈ map.frames, Usable map.hhdm frame) :
    Ram where
  hhdm := map.hhdm
  frames := map.frames
  usable := usable

variable {ram : Ram} {v : View}

/-- The owners after `pmm::init`: what is not free belongs to the slabs. -/
def initialOwner (free live : List Nat) (frame : Nat) : Owner :=
  if frame ∈ free then .free else if frame ∈ live then .slab else .outside

theorem MemoryMap.pmmInit_pool (map : MemoryMap)
    (usable : ∀ frame ∈ map.frames, Usable map.hhdm frame) (bare : Bare m)
    (enough : slabSizes.length ≤ map.frames.length) (done : pmmInit map.hhdm map.entries m = .ok m') :
    Pool (map.ram usable)
      { owner := initialOwner (map.frames.reverse.drop slabSizes.length)
          (liveFrames map.hhdm m'.pmmCalls)
        free := map.frames.reverse.drop slabSizes.length
        slabs := initialSlabs m'.slabCaches
        tables := fun _ _ => none } m' ∧ Supplied m' := by
  obtain ⟨_, initEq, conserved⟩ := pmmInit_conserved map bare.fresh bare.uncalled enough
  obtain rfl := Except.ok.inj (done.symm.trans initEq)
  obtain ⟨listed, live, calls⟩ := pmmInit_taken map bare.fresh bare.uncalled bare.seven initEq
  have managed : ∀ frame, frame ∈ liveFrames map.hhdm m'.pmmCalls → frame ∈ map.frames :=
    fun frame member => (conserved.mem_frames_iff frame).mp (Or.inr member)
  have distinct := (List.nodup_append.mp conserved.nodup).2.1
  rw [live, List.nodup_reverse] at distinct
  obtain ⟨inv, _, pages⟩ := initSlab_slabInv listed initEq distinct (by
    intro phy member
    apply (usable phy (managed phy _)).pageOk
    rw [live, List.mem_reverse]
    exact member)
  constructor
  · constructor
    case chain => exact conserved.chain
    case freeOwned => exact fun frame member => if_pos member
    case managed =>
      intro frame inside
      by_cases isFree : frame ∈ map.frames.reverse.drop slabSizes.length
      · exact (conserved.mem_frames_iff frame).mp (Or.inl isFree)
      · by_cases isLive : frame ∈ liveFrames map.hhdm m'.pmmCalls
        · exact managed frame isLive
        · exact absurd (by simp only [initialOwner, if_neg isFree, if_neg isLive]) inside
    case slab => exact inv
    case slabOwned =>
      intro page isPage
      obtain ⟨phy, member, pageEq⟩ := pages page isPage
      rw [← List.mem_reverse, ← live] at member
      refine ⟨phy, pageEq, ?_⟩
      have notFree := fun isFree => conserved.not_live isFree member
      exact (if_neg notFree).trans (if_pos member)
  · intro null
    have taken : 0 ∈ liveFrames map.hhdm m'.pmmCalls := by
      rw [calls] at null
      obtain ⟨frame, member, same⟩ := List.mem_map.mp null
      obtain rfl : frame = 0 := PmmCall.allocated.inj same
      rw [live, List.mem_reverse]
      exact member
    exact map.frames_ne_zero (managed 0 taken)

theorem pmmInit_pool (good : GoodBoot boot) (bare : Bare m)
    (enough : slabSizes.length ≤ good.map.frames.length)
    (done : pmmInit boot.hhdm boot.entries m = .ok m') :
    Pool good.ram
      { owner := initialOwner (good.map.frames.reverse.drop slabSizes.length)
          (liveFrames boot.hhdm m'.pmmCalls)
        free := good.map.frames.reverse.drop slabSizes.length
        slabs := initialSlabs m'.slabCaches
        tables := fun _ _ => none } m' ∧ Supplied m' :=
  good.map.pmmInit_pool good.usable bare enough done

/-! ### `pt_init` -/

/-- The pages of the kernel, as `pt_init` maps them. -/
def kernelItems (boot : Boot) : List (Nat × Nat × PT) :=
  (pagesBetween 0 (kernelSize boot)).map fun i =>
    (wrap (boot.virtualBase + i), wrap (boot.physicalBase + i), kernelFlags)

/-- The pages of the direct map. -/
def directItems (boot : Boot) : List (Nat × Nat × PT) :=
  (pagesBetween 0 (directSize boot)).map fun i =>
    (wrap (boot.hhdm + i), i, directMapFlags (memmapFbInfo boot.entries) i)

/-- All the pages that `pt_init` maps. -/
def bootItems (boot : Boot) : List (Nat × Nat × PT) := kernelItems boot ++ directItems boot

def bootPages (boot : Boot) : List Nat := (bootItems boot).map fun item => pageNumber item.1

/-- The tables that these pages need, with the root. -/
def tableCount (boot : Boot) : Nat := 1 + (tablePlaces (bootPages boot)).card

theorem ptInit_eq (boot : Boot) (m : Machine) :
    ptInit boot m = (do
      let (page, m) ← allocatePage boot.hhdm m
      let m ← (bootItems boot).foldlM (mapItem boot.hhdm (page - boot.hhdm)) m
      .ok ((directSize boot, kernelSize boot), { m with cr3 := page - boot.hhdm })) := by
  simp only [ptInit, bootItems, kernelItems, directItems, List.foldlM_append,
    List.foldlM_map, bind_assoc]
  rfl

theorem ptInit_mapped (atHead : m.freelist = some phy)
    (mapped : (bootItems boot).foldlM (mapItem boot.hhdm phy) (popped boot.hhdm m phy) = .ok t) :
    ptInit boot m = .ok ((directSize boot, kernelSize boot), { t with cr3 := phy }) := by
  rw [ptInit_eq, allocatePage_popped atHead]
  simp only [bind, Except.bind, Nat.add_sub_cancel, mapped]

theorem ptInit_ok (done : ptInit boot m = .ok (sizes, m')) :
    sizes = (directSize boot, kernelSize boot) ∧ ∃ page mid t,
      allocatePage boot.hhdm m = .ok (page, mid) ∧
      (bootItems boot).foldlM (mapItem boot.hhdm (page - boot.hhdm)) mid = .ok t ∧
      m' = { t with cr3 := page - boot.hhdm } := by
  rw [ptInit_eq] at done
  obtain ⟨⟨page, mid⟩, allocated, rest⟩ := ok_of_bind done
  obtain ⟨t, mapped, rest⟩ := ok_of_bind rest
  obtain ⟨rfl, rfl⟩ := Prod.mk.inj (Except.ok.inj rest)
  exact ⟨rfl, page, mid, t, allocated, mapped, rfl⟩

/-- The addresses that a loop over offsets maps. -/
theorem offsets_eq {base : Nat} (aligned : size % pageSize = 0)
    (inside : base + size ≤ addressSpace) :
    (pagesBetween 0 size).map (fun i => wrap (base + i)) = regionPages base size := by
  have count : (size - 0 + (pageSize - 1)) / pageSize = size / pageSize := by
    unfold pageSize at *
    omega
  rw [pagesBetween, count, regionPages, List.map_map]
  apply List.map_congr_left
  intro i inRange
  have bound := List.mem_range.mp inRange
  change wrap (base + (0 + i * pageSize)) = base + i * pageSize
  rw [Nat.zero_add, wrap, Nat.mod_eq_of_lt]
  unfold pageSize at *
  omega

namespace GoodBoot

theorem kernelItems_pages (good : GoodBoot boot) (node : Nat) :
    (kernelItems boot).map (fun item => pageNumber item.1) = (kernelRegion boot node).pages := by
  have addresses : _ = regionPages boot.virtualBase (kernelSize boot) :=
    offsets_eq (alignUp_aligned _) good.kernelInside.2
  change _ = (regionPages boot.virtualBase (kernelSize boot)).map pageNumber
  rw [← addresses, kernelItems, List.map_map, List.map_map]
  rfl

theorem directItems_pages (good : GoodBoot boot) (node : Nat) :
    (directItems boot).map (fun item => pageNumber item.1) = (directRegion boot node).pages := by
  have above := good.kernelAbove
  have inside := good.kernelInside.1
  have addresses : _ = regionPages boot.hhdm (directSize boot) :=
    offsets_eq (alignUp_aligned _) (Nat.le_trans above (Nat.le_of_lt inside))
  change _ = (regionPages boot.hhdm (directSize boot)).map pageNumber
  rw [← addresses, directItems, List.map_map, List.map_map]
  rfl

theorem bootPages_eq (good : GoodBoot boot) (node other : Nat) :
    bootPages boot = (kernelRegion boot other).pages ++ (directRegion boot node).pages := by
  rw [bootPages, bootItems, List.map_append, good.kernelItems_pages other,
    good.directItems_pages node]

end GoodBoot

/-- The first free frame becomes an empty root table. -/
theorem Pool.root (pool : Pool ram v m) {rest : List Nat} (split : v.free = phy :: rest) :
    ∃ v', v'.free = rest ∧ v'.slabs = v.slabs ∧ Store ram phy v' (popped ram.hhdm m phy) ∧
      ∀ page, entries ram v' (popped ram.hhdm m phy) page = 0 := by
  obtain ⟨_, after⟩ := pool.pop split .table
  have owned := pool.freeOwned phy (split ▸ List.mem_cons_self)
  have zero : ∀ address, InPage (phy + ram.hhdm) address →
      (popped ram.hhdm m phy).memory address = 0 :=
    fun address inside => WordMemory.zero_inside inside.1 inside.2
  refine ⟨{ v with
    owner := assign [phy] .table v.owner
    free := rest
    tables := RadixTree.insert (fun _ _ => none) 3 0 phy }, rfl, rfl, ?_, ?_⟩
  · exact
      { chain := after.chain
        freeOwned := after.freeOwned
        managed := after.managed
        slab := after.slab
        slabOwned := after.slabOwned
        shape := StoredTables.single (pool.usable owned (by decide)).frameOk zero
        tableOwned := by
          intro level place frame present
          change RadixTree.insert (fun _ _ => none) 3 0 phy level place = some frame at present
          rcases of_insert_eq_some present with ⟨_, _, rfl⟩ | old
          · exact assign_mem .table v.owner List.mem_cons_self
          · contradiction }
  · intro page
    apply leafEntry_none
    change RadixTree.insert (fun _ _ => none) 3 0 phy 0 (page / 512) = none
    rw [insert_other _ _ (by omega)]

/-- The entries are those that `pt_init` was asked for, and no others. -/
structure BootEntries (ram : Ram) (boot : Boot) (v : View) (m : Machine) : Prop where
  entered : (bootPages boot).Nodup → ∀ item ∈ bootItems boot,
    entries ram v m (pageNumber item.1) = pageEntry item.2.1 item.2.2
  blank : ∀ page, page ∉ bootPages boot → entries ram v m page = 0

/-- The tables that `pt_init` leaves. -/
structure BootTables (ram : Ram) (boot : Boot) (v v' : View) (m' : Machine) : Prop
    extends BootEntries ram boot v' m' where
  store : Store ram m'.cr3 v' m'
  slabs : v'.slabs = v.slabs

theorem bootTables_of_steps {root : Nat} (store : Store ram root start m)
    (slabs : start.slabs = v.slabs) (blank : ∀ page, entries ram start m page = 0)
    (steps : Steps (MapStep ram root) start m (bootItems boot) v' m') :
    (∃ taken, Took taken m m' ∧ 0 ∉ taken) ∧ BootTables ram boot v v' { m' with cr3 := root } := by
  obtain ⟨taken, advanced, entered⟩ := mapSteps_advanced store steps
  refine ⟨⟨taken, advanced.took, advanced.real⟩, ?_⟩
  exact
    { store := advanced.store.statics rfl rfl rfl
      slabs := advanced.slabs.trans slabs
      entered := entered
      blank := fun page outside => (advanced.others page outside).trans (blank page) }

/-! ### `vmm_init` -/

/-- The invariant once the two records are linked and `kermap` is set. -/
theorem GoodBoot.kernel (good : GoodBoot boot) {direct kernel : Nat} {mid : View} {t' : Machine}
    (tables : BootTables good.ram boot start v m)
    (first : ObjectTaken good.ram v m regionSize kernel mid t) (second : ObjectTaken good.ram mid
      (writeRegion t kernel boot.virtualBase (kernelSize boot) kernelRegionFlags) regionSize direct
      v' t') (done : m' = setRegionNext
      (writeRegion t' direct boot.hhdm (directSize boot) hhdmRegionFlags) direct (some kernel)) :
    Kernel good.ram ⟨m.cr3, some direct⟩ v'
      { m' with kermap := some ⟨tableFrame m'.cr3, some direct⟩ }
      [directRegion boot direct, kernelRegion boot kernel] [] ∧
      BootEntries good.ram boot v'
        { m' with kermap := some ⟨tableFrame m'.cr3, some direct⟩ } := by
  have cr3 : tableFrame m'.cr3 = m.cr3 := by
    obtain ⟨_, _, _, firstTook, _⟩ := first.took
    obtain ⟨_, _, _, secondTook, _⟩ := second.took
    rw [done, (setRegionNext_writes _ _ _).cr3, (writeRegion_writes _ _ _ _ _).cr3, secondTook.cr3,
      (writeRegion_writes _ _ _ _ _).cr3, firstTook.cr3]
    exact tables.store.shape.rootOk.tableFrame
  rw [cr3]
  obtain ⟨store, firstEntries, records⟩ := (Records.none v m).prepend tables.store
    (kernelRegion boot kernel) first (writeRegion_writes _ _ _ _ _)
    (regionNext_writeRegion _ _ _ _ _)
    ⟨regionBase_writeRegion _ _ _ _ _, regionLength_writeRegion _ _ _ _ _⟩
  have writes : Writes (InObject direct nodeSize) t' m' :=
    done ▸ (writeRegion_writes _ _ _ _ _).trans (setRegionNext_writes _ _ _)
  obtain ⟨store, secondEntries, records⟩ := records.prepend store (directRegion boot direct)
    second writes
    (by rw [done]; exact regionNext_setRegionNext _ _ _)
    (by
      rw [done, directRegion, regionBase_setRegionNext, regionLength_setRegionNext]
      exact ⟨regionBase_writeRegion _ _ _ _ _, regionLength_writeRegion _ _ _ _ _⟩)
  have same : entries good.ram v' { m' with kermap := some ⟨m.cr3, some direct⟩ } =
      entries good.ram v m := secondEntries.trans firstEntries
  refine ⟨?_, ⟨fun distinct item member => ?_, fun page outside => ?_⟩⟩
  rotate_left
  · rw [same]
    exact tables.entered distinct item member
  · rw [same]
    exact tables.blank page outside
  constructor
  case store => exact store.statics rfl rfl rfl
  case records => exact records.congr (fun _ _ _ live => live) (fun _ _ _ _ _ _ => rfl)
  case layout => exact good.layout direct kernel
  case content =>
    constructor
    · intro region member frames flags backing
      rcases List.mem_pair.mp member with rfl | rfl
      · contradiction
      · contradiction
    · intro region member frames flags backing
      rcases List.mem_pair.mp member with rfl | rfl
      · contradiction
      · contradiction
    · intro page _ uncovered
      rw [same]
      apply tables.blank
      rw [good.bootPages_eq direct kernel, List.mem_append, not_or]
      exact ⟨uncovered _ (by simp) rfl, uncovered _ (by simp) rfl⟩
  case kermap => rfl

/-- The objects of the other classes stay as they are when a record is made. -/
theorem ObjectTaken.live_other {node : Nat} (taken : ObjectTaken ram v m regionSize node v' m')
    {object : Nat} (other : size ≠ nodeSize) (live : LiveObject v'.slabs size object) :
    LiveObject v.slabs size object := by
  obtain ⟨class', classEq, served⟩ := taken.served
  obtain rfl := Option.some.inj (classEq.symm.trans slabClass_regionSize)
  rcases (served.live size object).mp live with old | ⟨same, _⟩
  · exact old
  · exact absurd same other

theorem mapItems_allocates {root : Nat} (items : List (Nat × Nat × PT))
    (done : items.foldlM (mapItem hhdm root) m = .ok m') : Allocates m m' :=
  rel_of_foldlM Allocates Allocates.refl Allocates.trans
    (fun turned => map4kib_allocates (map4kibUnwrap_ok turned)) items done

theorem Pool.ptInit_done (offset : ram.hhdm = boot.hhdm) (pool : Pool ram v m)
    (done : ptInit boot m = .ok (sizes, m')) (supplied : Supplied m') :
    sizes = (directSize boot, kernelSize boot) ∧ ∃ v', BootTables ram boot v v' m' := by
  obtain ⟨sizesEq, page, start, after, allocated, looped, rfl⟩ := ptInit_ok done
  have afterSupplied : Supplied after := supplied
  have startSupplied := afterSupplied.before (mapItems_allocates _ looped).grows
  obtain ⟨head, atHead, _⟩ := pool.chain
  rw [← offset] at allocated looped ⊢
  obtain ⟨rfl, rfl⟩ := Prod.mk.inj
    (Except.ok.inj (allocated.symm.trans (allocatePage_popped atHead)))
  have real : head ≠ 0 := by
    rintro rfl
    exact (popped_took ram.hhdm m 0).ne_zero startSupplied List.mem_cons_self
  obtain ⟨free, split⟩ := pool.free_of_head atHead real
  obtain ⟨v0, _, slabs, store, blank⟩ := pool.root split
  rw [Nat.add_sub_cancel] at looped ⊢
  obtain ⟨v1, steps⟩ := store.mapItems_done _ looped afterSupplied
  exact ⟨sizesEq, v1, (bootTables_of_steps store slabs blank steps).2⟩

/-- `vmm_init` establishes the invariant, takes objects for its records only and keeps the
entries of `pt_init`. -/
theorem Pool.vmmInit_done (good : GoodBoot boot) (pool : Pool good.ram v m)
    (done : vmmInit boot m = .ok m') (supplied : Supplied m') :
    ∃ pagemap v' direct kernel, Kernel good.ram pagemap v' m'
      [directRegion boot direct, kernelRegion boot kernel] [] ∧
      (∀ size object, size ≠ nodeSize → LiveObject v'.slabs size object →
        LiveObject v.slabs size object) ∧ BootEntries good.ram boot v' m' := by
  obtain ⟨⟨sizes, booted⟩, tablesDone, rest⟩ := ok_of_bind done
  obtain ⟨⟨kernel, t⟩, firstDone, rest⟩ := ok_of_bind rest
  obtain ⟨⟨direct, t'⟩, secondDone, rest⟩ := ok_of_bind rest
  obtain rfl := Except.ok.inj rest
  have secondSupplied : Supplied t' := supplied.before (setRegionNext_writes _ _ _).grows
  have firstSupplied : Supplied t := secondSupplied.before (regionNew_allocates secondDone).grows
  have bootedSupplied : Supplied booted := firstSupplied.before (regionNew_allocates firstDone).grows
  obtain ⟨rfl, v0, tables⟩ := pool.ptInit_done rfl tablesDone bootedSupplied
  obtain ⟨v1, t1, first, rfl⟩ := tables.store.regionNew_done firstDone firstSupplied
  obtain ⟨v2, t2, second, rfl⟩ :=
    (first.written tables.store _ _ kernelRegionFlags).regionNew_done secondDone secondSupplied
  obtain ⟨invariant, entered⟩ := good.kernel tables first second rfl
  refine ⟨⟨booted.cr3, some direct⟩, v2, direct, kernel, invariant, ?_, entered⟩
  intro size object other live
  rw [← tables.slabs]
  exact first.live_other other (second.live_other other live)

theorem vmmInit_allocates (done : vmmInit boot m = .ok m') : Allocates m m' := by
  obtain ⟨⟨sizes, booted⟩, tablesDone, rest⟩ := ok_of_bind done
  obtain ⟨⟨kernel, t⟩, firstDone, rest⟩ := ok_of_bind rest
  obtain ⟨⟨direct, t'⟩, secondDone, rest⟩ := ok_of_bind rest
  obtain rfl := Except.ok.inj rest
  obtain ⟨_, _, _, _, allocated, looped, rfl⟩ := ptInit_ok tablesDone
  have tables : Allocates m _ :=
    (allocatePage_allocates allocated).trans (mapItems_allocates _ looped)
  have records : Allocates _ t' :=
    (regionNew_allocates firstDone).trans (regionNew_allocates secondDone)
  exact (Allocates.trans tables records).trans (setRegionNext_writes _ _ _).allocates

/-- `pt_init` runs when there are frames for its tables. -/
theorem Pool.ptInit_runs (offset : ram.hhdm = boot.hhdm) (pool : Pool ram v m)
    (supplied : Supplied m) (enough : tableCount boot ≤ v.free.length) :
    ∃ v' m', ptInit boot m = .ok ((directSize boot, kernelSize boot), m') ∧ Supplied m' ∧
      BootTables ram boot v v' m' ∧ v.free.length ≤ v'.free.length + tableCount boot := by
  unfold tableCount at *
  obtain ⟨phy, free, split⟩ := List.exists_cons_of_ne_nil
    (List.ne_nil_of_length_pos (by omega : 0 < v.free.length))
  have real : 0 ∉ [phy] := by
    rw [List.mem_singleton]
    rintro rfl
    exact pool.free_ne_zero (split ▸ List.mem_cons_self)
  rw [split, List.length_cons] at enough ⊢
  have atHead := (pool.pop split .table).1
  obtain ⟨v0, free0, slabs, store, blank⟩ := pool.root split
  have few := missing_le_card v0.tables (tablePlaces (bootPages boot))
  obtain ⟨v1, t, looped, steps, left⟩ := store.mapItems_enough (bootItems boot)
    (Nat.le_trans few (by rw [free0]; omega))
  have used : free.length ≤ v1.free.length + (tablePlaces (bootPages boot)).card :=
    free0 ▸ Nat.le_trans left (Nat.add_le_add_left few _)
  obtain ⟨⟨taken, took, more⟩, tables⟩ := bootTables_of_steps store slabs blank steps
  rw [offset] at looped took
  refine ⟨v1, { t with cr3 := phy }, ptInit_mapped atHead looped, ?_, tables, by omega⟩
  exact took.supplied ((popped_took boot.hhdm m phy).supplied supplied real) more

/-- `vmm_init` then needs at most a page for each of the two records. -/
theorem Pool.vmmInit_runs (good : GoodBoot boot) (pool : Pool good.ram v m) (supplied : Supplied m)
    (enough : tableCount boot + 2 ≤ v.free.length) :
    ∃ m' pagemap v' direct kernel, vmmInit boot m = .ok m' ∧ Supplied m' ∧
      Kernel good.ram pagemap v' m' [directRegion boot direct, kernelRegion boot kernel] [] ∧
      v.free.length ≤ v'.free.length + (tableCount boot + 2) := by
  obtain ⟨v0, booted, tablesDone, bootedSupplied, tables, left0⟩ :=
    pool.ptInit_runs rfl supplied (by omega)
  have store := tables.store
  obtain ⟨kernel, v1, t1, firstDone, first, left1⟩ := store.regionNew_runs
    (List.ne_nil_of_length_pos (by omega)) boot.virtualBase (kernelSize boot) kernelRegionFlags
  have written := first.written store boot.virtualBase (kernelSize boot) kernelRegionFlags
  obtain ⟨direct, v2, t2, secondDone, second, left2⟩ := written.regionNew_runs
    (List.ne_nil_of_length_pos (by omega)) boot.hhdm (directSize boot) hhdmRegionFlags
  refine ⟨_, ⟨booted.cr3, some direct⟩, v2, direct, kernel, ?_, ?_,
    (good.kernel tables first second rfl).1, by omega⟩
  · rw [vmmInit, tablesDone]
    simp only [bind, Except.bind]
    rw [show regionNew boot.hhdm _ _ _ booted = _ from firstDone]
    simp only
    rw [show regionNew boot.hhdm _ _ _ _ = _ from secondDone]
  · have writtenSupplied : Supplied (writeRegion t1 kernel boot.virtualBase (kernelSize boot)
        kernelRegionFlags) := by
      rw [Supplied, (writeRegion_writes _ _ _ _ _).pmmCalls]
      exact first.supplied store.toPool bootedSupplied
    have secondSupplied := second.supplied written.toPool writtenSupplied
    change PmmCall.allocated 0 ∉ (setRegionNext _ _ _).pmmCalls
    rw [(setRegionNext_writes _ _ _).pmmCalls, (writeRegion_writes _ _ _ _ _).pmmCalls]
    exact secondSupplied

/-! ### The boot sequence -/

/-- The machines on which `pmm::init` and then `vmm_init` have run. -/
def Booted (boot : Boot) (m : Machine) : Prop :=
  ∃ start ready, Bare start ∧ pmmInit boot.hhdm boot.entries start = .ok ready ∧
    vmmInit boot ready = .ok m

theorem Booted.kernel (good : GoodBoot boot) (booted : Booted boot m) (supplied : Supplied m) :
    ∃ pagemap v direct kernel, Kernel good.ram pagemap v m
      [directRegion boot direct, kernelRegion boot kernel] [] ∧
      (∀ size object, size ≠ nodeSize → ¬LiveObject v.slabs size object) ∧
      BootEntries good.ram boot v m := by
  obtain ⟨start, ready, bare, pmmDone, vmmDone⟩ := booted
  have enough := good.enough bare pmmDone (supplied.before (vmmInit_allocates vmmDone).grows)
  obtain ⟨pagemap, v, direct, kernel, invariant, others, entered⟩ :=
    (pmmInit_pool good bare enough pmmDone).1.vmmInit_done good vmmDone supplied
  refine ⟨pagemap, v, direct, kernel, invariant, ?_, entered⟩
  intro size object other live
  exact initialSlabs_not_live _ size object (others size object other live)

/-! ### A small machine -/

/-- Forty usable frames, a frame of ACPI tables behind them, and a kernel of one page. -/
def smallBoot : Boot where
  hhdm := 0xFFFF800000000000
  entries :=
    [{ base := 0x1000, length := 0x28000, type := .usable },
     { base := 0x29000, length := 0x1000, type := .acpiReclaimable }]
  virtualBase := 0xFFFFFFFF80000000
  physicalBase := 0x2A000
  kernelStart := 0xFFFFFFFF80000000
  kernelEnd := 0xFFFFFFFF80001000

theorem smallBoot_good : GoodBoot smallBoot where
  aligned := by decide
  disjoint := by decide
  reachable := by decide
  offset := by decide
  high := by decide
  direct := by decide
  kernelReal := by decide
  kernelAligned := by decide
  kernelAbove := by decide
  kernelInside := by decide

theorem smallBoot_tableCount : tableCount smallBoot = 7 := by
  decide +kernel

def smallMachine : Machine := bareMachine fun _ => 0

theorem smallMachine_bare : Bare smallMachine := ⟨rfl, rfl, rfl⟩

theorem smallBoot_frames : smallBoot_good.map.frames.length = 40 := by
  decide

/-- `pmm::init` runs on it. -/
theorem smallBoot_ready :
    ∃ ready, pmmInit smallBoot.hhdm smallBoot.entries smallMachine = .ok ready := by
  have bare := smallMachine_bare
  obtain ⟨ready, pmmDone, _⟩ := pmmInit_conserved smallBoot_good.map bare.fresh bare.uncalled
    (by rw [smallBoot_frames]; decide)
  exact ⟨ready, pmmDone⟩

/-- The boot sequence runs on it and leaves 24 frames. -/
theorem smallBoot_booted :
    ∃ m pagemap v direct kernel, Booted smallBoot m ∧ Supplied m ∧
      Kernel smallBoot_good.ram pagemap v m
        [directRegion smallBoot direct, kernelRegion smallBoot kernel] [] ∧
      24 ≤ v.free.length := by
  obtain ⟨ready, pmmDone⟩ := smallBoot_ready
  obtain ⟨pool, supplied⟩ := pmmInit_pool smallBoot_good smallMachine_bare
    (by rw [smallBoot_frames]; decide) pmmDone
  obtain ⟨m, pagemap, v, direct, kernel, vmmDone, fine, invariant, left⟩ :=
    pool.vmmInit_runs smallBoot_good supplied
      (by rw [smallBoot_tableCount, List.length_drop, List.length_reverse, smallBoot_frames]; decide)
  refine ⟨m, pagemap, v, direct, kernel,
    ⟨smallMachine, ready, smallMachine_bare, pmmDone, vmmDone⟩, fine, invariant, ?_⟩
  rw [smallBoot_tableCount, List.length_drop, List.length_reverse, smallBoot_frames] at left
  exact Nat.le_of_add_le_add_right (Nat.le_trans (by decide) left)

end NyauxKernel.Memory
