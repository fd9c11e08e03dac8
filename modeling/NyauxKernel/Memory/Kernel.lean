/-
The invariant of the kernel's memory: frames and their owners, slabs, page tables
and the region list together, and what the calls of the virtual memory manager do
to it.
-/

import NyauxKernel.Memory.Records
import NyauxKernel.Memory.RegionPages

namespace NyauxKernel.Memory

open ExceptFold

/-! ### The layout of the address space -/

/-- The numbers of the pages of a region. -/
def Region.pages (region : Region) : List Nat :=
  (regionPages region.base region.length).map pageNumber

def Backing.mapped : Backing → Bool
  | .none => false
  | .boot | .frames _ _ | .phys _ _ => true

structure Layout (regions : List Region) : Prop where
  ordered : regions.Pairwise fun region other => region.base + region.length ≤ other.base
  aligned : ∀ region ∈ regions, region.base % pageSize = 0 ∧ region.length % pageSize = 0
  high : ∀ region ∈ regions, higherHalf ≤ region.base
  inside : ∀ region ∈ regions, region.base < addressSpace ∧
    region.base + region.length ≤ addressSpace

theorem alignUp_pageSize (value : Nat) :
    alignUp value pageSize = (value + 4095) % addressSpace / 4096 * 4096 := by
  have mask := and_not_low ((value + 4095) % addressSpace) 12 (Nat.mod_lt _ (by decide))
  exact mask

theorem alignUp_aligned (value : Nat) : alignUp value pageSize % pageSize = 0 := by
  rw [alignUp_pageSize]
  exact Nat.mul_mod_left _ _

/-- Pages of regions that do not overlap are different. -/
theorem pages_disjoint {region other : Region} (high : higherHalf ≤ region.base)
    (inside : other.base + other.length ≤ addressSpace) (aligned : other.base % pageSize = 0)
    (apart : region.base + region.length ≤ other.base) {page : Nat}
    (member : page ∈ region.pages) : page ∉ other.pages := by
  intro member'
  obtain ⟨virt, inRegion, rfl⟩ := List.mem_map.mp member
  obtain ⟨virt', inOther, same⟩ := List.mem_map.mp member'
  have bounds := mem_regionPages inRegion
  have bounds' := mem_regionPages inOther
  have first := pageNumber_high (show higherHalf ≤ virt by omega)
    (by unfold pageSize at bounds; omega)
  have second := pageNumber_high (show higherHalf ≤ virt' by omega)
    (by unfold pageSize at bounds'; omega)
  rw [same, ← first] at second
  unfold pageSize at *
  omega

section Members

variable {front back : List Region} {prev region other : Region}

theorem mem_middle : other ∈ front ++ region :: back ↔ other = region ∨ other ∈ front ++ back := by
  rw [List.perm_middle.mem_iff, List.mem_cons]

/-- The same where the list is cut before the previous region. -/
theorem mem_behind :
    other ∈ front ++ prev :: region :: back ↔ other = region ∨ other ∈ front ++ prev :: back := by
  rw [List.append_cons front prev, mem_middle, ← List.append_cons]

end Members

namespace Layout

variable {front back : List Region} {prev cur new : Region}

/-- The end of a region that another one follows does not wrap. -/
theorem wrap_end (layout : Layout (front ++ prev :: cur :: back)) :
    wrap (prev.base + prev.length) = prev.base + prev.length ∧
      prev.base + prev.length ≤ cur.base := by
  have ordered := (List.pairwise_append.mp layout.ordered).2.1
  have next := (List.pairwise_cons.mp ordered).1 cur List.mem_cons_self
  have below := (layout.inside cur (by simp)).1
  exact ⟨Nat.mod_eq_of_lt (by omega), next⟩

/-- A region that fits between two neighbours. -/
theorem insert (layout : Layout (front ++ prev :: cur :: back))
    (base : new.base = prev.base + prev.length) (aligned : new.length % pageSize = 0)
    (fits : new.base + new.length ≤ cur.base) :
    Layout (front ++ prev :: new :: cur :: back) := by
  have prevMember : prev ∈ front ++ prev :: cur :: back := by simp
  have curMember : cur ∈ front ++ prev :: cur :: back := by simp
  have old : ∀ region ∈ front ++ prev :: new :: cur :: back,
      region = new ∨ region ∈ front ++ prev :: cur :: back :=
    fun region member => mem_behind.mp member
  have prevAligned := layout.aligned prev prevMember
  have curInside := layout.inside cur curMember
  have prevHigh := layout.high prev prevMember
  obtain ⟨inFront, behind, across⟩ := List.pairwise_append.mp layout.ordered
  obtain ⟨afterPrev, behindPrev⟩ := List.pairwise_cons.mp behind
  obtain ⟨afterCur, behindCur⟩ := List.pairwise_cons.mp behindPrev
  have newAfter : ∀ region ∈ cur :: back, new.base + new.length ≤ region.base := by
    intro region member
    rcases List.mem_cons.mp member with rfl | later
    · exact fits
    · have next := afterCur region later
      omega
  constructor
  case ordered =>
    refine List.pairwise_append.mpr ⟨inFront, List.pairwise_cons.mpr ⟨?_, List.pairwise_cons.mpr
      ⟨newAfter, behindPrev⟩⟩, ?_⟩
    · intro region member
      rcases List.mem_cons.mp member with rfl | later
      · exact Nat.le_of_eq base.symm
      · exact afterPrev region later
    · intro region inFront' other member
      rcases List.mem_cons.mp member with rfl | rest
      · exact across region inFront' _ List.mem_cons_self
      · rcases List.mem_cons.mp rest with rfl | later
        · have before := across region inFront' prev List.mem_cons_self
          omega
        · exact across region inFront' other (List.mem_cons_of_mem prev later)
  case aligned =>
    intro region member
    rcases old region member with rfl | older
    · refine ⟨?_, aligned⟩
      unfold pageSize at *
      omega
    · exact layout.aligned region older
  case high =>
    intro region member
    rcases old region member with rfl | older
    · omega
    · exact layout.high region older
  case inside =>
    intro region member
    rcases old region member with rfl | older
    · omega
    · exact layout.inside region older

theorem remove (layout : Layout (front ++ prev :: new :: back)) : Layout (front ++ prev :: back) := by
  have sublist : (front ++ prev :: back).Sublist (front ++ prev :: new :: back) :=
    (List.Sublist.refl front).append ((List.sublist_cons_self new back).cons_cons prev)
  exact
    { ordered := layout.ordered.sublist sublist
      aligned := fun region member => layout.aligned region (sublist.subset member)
      high := fun region member => layout.high region (sublist.subset member)
      inside := fun region member => layout.inside region (sublist.subset member) }

/-- The pages of one region of a layout are not those of another. -/
theorem pages_apart (layout : Layout (front ++ new :: back)) {region : Region}
    (member : region ∈ front ++ back) {page : Nat} (inRegion : page ∈ region.pages) :
    page ∉ new.pages := by
  have newMember : new ∈ front ++ new :: back := by simp
  have regionMember : region ∈ front ++ new :: back := mem_middle.mpr (Or.inr member)
  have high := layout.high region regionMember
  have inside := (layout.inside region regionMember).2
  have highNew := layout.high new newMember
  have insideNew := (layout.inside new newMember).2
  obtain ⟨_, behind, across⟩ := List.pairwise_append.mp layout.ordered
  rcases List.mem_append.mp member with inFront | inBack
  · exact pages_disjoint high insideNew (layout.aligned new newMember).1
      (across region inFront new List.mem_cons_self) inRegion
  · intro inNew
    exact pages_disjoint highNew inside (layout.aligned region regionMember).1
      ((List.pairwise_cons.mp behind).1 region inBack) inNew inRegion

end Layout

/-! ### The contents of the page tables -/

/-- What the regions say about the entries.  No other page has an entry, but for those
that `devices` were mapped at. -/
structure Content (ram : Ram) (v : View) (m : Machine) (regions : List Region)
    (devices : List Nat := []) : Prop where
  backed : ∀ region ∈ regions, ∀ frames flags, region.backing = .frames frames flags →
    List.Forall₂ (Backs ram v m (PT.fromVmmflags flags)) (regionPages region.base region.length)
      frames
  given : ∀ region ∈ regions, ∀ frames flags, region.backing = .phys frames flags →
    List.Forall₂ (Enters ram v m (PT.fromVmmflags flags)) (regionPages region.base region.length)
      frames
  empty : ∀ page, page ∉ devices →
    (∀ region ∈ regions, region.backing.mapped = true → page ∉ region.pages) →
    entries ram v m page = 0

variable {frames virts : List Nat} {ram : Ram} {flags : PT}

/-- The frames of a region are still its own where neither the owners nor the
entries of its pages changed. -/
theorem backs_congr {v v' : View} {m m' : Machine}
    (backs : List.Forall₂ (Backs ram v m flags) virts frames)
    (kept : ∀ frame number, number ∈ virts.map pageNumber → v.owner frame = .page number →
      v'.owner frame = .page number)
    (same : ∀ page ∈ virts.map pageNumber, entries ram v' m' page = entries ram v m page) :
    List.Forall₂ (Backs ram v' m' flags) virts frames := by
  apply ((List.forall₂_and_left virts frames).mpr
    ⟨fun virt member => List.mem_map_of_mem member, backs⟩).imp
  rintro virt frame ⟨member, owned, entry⟩
  exact ⟨kept frame _ member owned, (same _ member).trans entry⟩

theorem enters_congr {v v' : View} {m m' : Machine}
    (enters : List.Forall₂ (Enters ram v m flags) virts frames)
    (same : ∀ page ∈ virts.map pageNumber, entries ram v' m' page = entries ram v m page) :
    List.Forall₂ (Enters ram v' m' flags) virts frames := by
  apply ((List.forall₂_and_left virts frames).mpr
    ⟨fun virt member => List.mem_map_of_mem member, enters⟩).imp
  rintro virt frame ⟨member, entry⟩
  exact (same _ member).trans entry

/-- Every element on the right has a partner on the left. -/
theorem exists_left_of_forall₂ {α β : Type} {related : α → β → Prop} {lefts : List α}
    {rights : List β} (paired : List.Forall₂ related lefts rights) {right : β}
    (member : right ∈ rights) : ∃ left ∈ lefts, related left right := by
  induction paired with
  | nil => exact absurd member List.not_mem_nil
  | @cons left other lefts rights first rest inductionHypothesis =>
      rcases List.mem_cons.mp member with rfl | later
      · exact ⟨left, List.mem_cons_self, first⟩
      · obtain ⟨partner, inLefts, isPartner⟩ := inductionHypothesis later
        exact ⟨partner, List.mem_cons_of_mem left inLefts, isPartner⟩

/-! ### The invariant -/

structure Kernel (ram : Ram) (pagemap : Pagemap) (v : View) (m : Machine)
    (regions : List Region) (blocks : List (Nat × Nat)) (devices : List Nat := []) : Prop where
  store : Store ram pagemap.archPage v m
  records : Records v m pagemap.khead regions blocks
  layout : Layout regions
  content : Content ram v m regions devices
  kermap : m.kermap = some pagemap

/-- `new` was put in the first gap of `regions` that is big enough for `amount`. -/
structure Placed (regions : List Region) (amount : Nat) (new : Region) (regions' : List Region) :
    Prop where
  place : ∃ front prev cur back, regions = front ++ prev :: cur :: back ∧
    regions' = front ++ prev :: new :: cur :: back ∧
    findGap (alignUp amount pageSize + pageSize) regions = some (prev, cur) ∧
    new.base = prev.base + prev.length
  length : new.length = alignUp amount pageSize

/-- The needed gap does not wrap. -/
def Fits (amount : Nat) : Prop := alignUp amount pageSize + pageSize < addressSpace

namespace Kernel

variable {pagemap : Pagemap} {v mid v' : View} {m t m' : Machine} {regions : List Region}
  {blocks : List (Nat × Nat)} {devices : List Nat} {amount node : Nat} {flags : VMMFlags}

/-- Where the new record goes, that it fits there, and what it says. -/
theorem placed (kernel : Kernel ram pagemap v m regions blocks devices) (fits : Fits amount)
    (inserted : Inserted ram pagemap.archPage v m pagemap.khead regions blocks amount node mid t) :
    ∃ base, base + alignUp amount pageSize < addressSpace ∧ higherHalf ≤ base ∧
      regionBase t node = base ∧ regionLength t node = alignUp amount pageSize ∧
      ∀ backing, ∃ regions',
        Placed regions amount ⟨node, base, alignUp amount pageSize, backing⟩ regions' ∧
        Layout regions' ∧ Records mid t pagemap.khead regions' blocks := by
  obtain ⟨front, prev, cur, back, rfl, found, records⟩ := inserted.place
  have needed : wrap (alignUp amount pageSize + pageSize) = alignUp amount pageSize + pageSize :=
    Nat.mod_eq_of_lt fits
  rw [needed] at found
  obtain ⟨_, _, _, enough, _⟩ := findGap_eq_some found
  obtain ⟨noWrap, before⟩ := kernel.layout.wrap_end
  unfold gap at enough
  rw [noWrap] at enough records
  have positive : 0 < pageSize := by decide
  have room : prev.base + prev.length + alignUp amount pageSize < cur.base := by omega
  have below := (kernel.layout.inside cur (by simp)).1
  have high := kernel.layout.high prev (by simp)
  have fields := (records .none).listed.fields
    ⟨node, prev.base + prev.length, alignUp amount pageSize, .none⟩ (by simp)
  refine ⟨prev.base + prev.length, by omega, by omega, fields.1, fields.2, ?_⟩
  intro backing
  exact ⟨_, ⟨⟨front, prev, cur, back, rfl, rfl, found, rfl⟩, rfl⟩,
    kernel.layout.insert rfl (alignUp_aligned amount) (Nat.le_of_lt room), records backing⟩

variable {base : Nat} {cur prev region : Region} {back front : List Region}
  {pa pages taken : List Nat}

/-- Inserting a record and mapping pages of its region changes no other entry. -/
theorem elsewhere
    (inserted : Inserted ram pagemap.archPage v m pagemap.khead regions blocks amount node mid t)
    (advanced : Advanced ram pagemap.archPage mid t pages taken v' m') {new : List Nat}
    (own : ∀ page ∈ pages, page ∈ new) :
    ∀ page ∉ new, entries ram v' m' page = entries ram v m page := by
  intro page outside
  rw [advanced.others page (fun inPages => outside (own page inPages)), inserted.entries]

/-- The invariant after a record was inserted and its pages were mapped. -/
theorem extend (kernel : Kernel ram pagemap v m regions blocks devices)
    (inserted : Inserted ram pagemap.archPage v m pagemap.khead regions blocks amount node mid t)
    {new : Region} {regions' : List Region} (place : Placed regions amount new regions')
    (layout : Layout regions') (records : Records mid t pagemap.khead regions' blocks)
    (advanced : Advanced ram pagemap.archPage mid t pages taken v' m')
    (own : ∀ page ∈ pages, new.backing.mapped = true ∧ page ∈ new.pages)
    (backs : ∀ frames flags, new.backing = .frames frames flags →
      List.Forall₂ (Backs ram v' m' (PT.fromVmmflags flags)) (regionPages new.base new.length)
        frames) (given : ∀ frames flags, new.backing = .phys frames flags →
      List.Forall₂ (Enters ram v' m' (PT.fromVmmflags flags)) (regionPages new.base new.length)
        frames) : Kernel ram pagemap v' m' regions' blocks devices := by
  obtain ⟨front, prev, cur, back, rfl, rfl, _, _⟩ := place.place
  have order : front ++ prev :: new :: cur :: back = (front ++ [prev]) ++ new :: cur :: back := by
    simp
  have older : ∀ region ∈ front ++ prev :: new :: cur :: back,
      region = new ∨ region ∈ (front ++ [prev]) ++ cur :: back := by
    intro region member
    rw [order] at member
    exact mem_middle.mp member
  have inOld : ∀ region ∈ (front ++ [prev]) ++ cur :: back,
      region ∈ front ++ prev :: cur :: back := by
    intro region member
    simpa using member
  have same : ∀ region ∈ (front ++ [prev]) ++ cur :: back, ∀ page ∈ region.pages,
      entries ram v' m' page = entries ram v m page := by
    intro region old page inRegion
    apply elsewhere inserted advanced fun page inPages => (own page inPages).2
    rw [order] at layout
    exact layout.pages_apart old inRegion
  constructor
  case store => exact advanced.store
  case records =>
    apply records.congr
    · intro size object _ live
      rw [advanced.slabs]
      exact live
    · intro size object _ live address inside
      exact advanced.quiet .slab address (by decide) (by decide)
        (inserted.store.live_owned live inside)
  case layout => exact layout
  case content =>
    constructor
    · intro region member frames flags' backing
      rcases older region member with rfl | old
      · exact backs frames flags' backing
      · apply backs_congr (kernel.content.backed region (inOld region old) frames flags' backing)
        · intro frame number _ owned
          have used : v.owner frame ≠ .free := by rw [owned]; simp
          have kept := inserted.kept frame used
          rw [advanced.kept frame (kept ▸ used), kept, owned]
        · exact same region old
    · intro region member frames flags' backing
      rcases older region member with rfl | old
      · exact given frames flags' backing
      · exact enters_congr (kernel.content.given region (inOld region old) frames flags' backing)
          (same region old)
    · intro page noDevice uncovered
      rw [advanced.others, inserted.entries]
      · apply kernel.content.empty page noDevice
        intro region member
        exact uncovered region (mem_behind.mpr (Or.inr member))
      · intro inPages
        exact uncovered new (by simp) (own page inPages).1 (own page inPages).2
  case kermap =>
    obtain ⟨_, _, _, took⟩ := inserted.took
    rw [advanced.took.kermap, took.kermap, kernel.kermap]

/-! ### `vmm_alloc` -/

/-- The region with frames of its own after its pages were filled. -/
theorem filled (kernel : Kernel ram pagemap v m regions blocks devices) (fits : Fits amount)
    (inserted : Inserted ram pagemap.archPage v m pagemap.khead regions blocks amount node mid t)
    (baseEq : regionBase t node = base)
    (steps : Steps (FillStep ram pagemap.archPage (PT.fromVmmflags flags)) mid t
      (regionPages base (alignUp amount pageSize)) v' m') :
    ∃ frames regions',
      Placed regions amount ⟨node, base, alignUp amount pageSize, .frames frames flags⟩ regions' ∧
      Kernel ram pagemap v' m' regions' blocks devices ∧
      (∀ page ∉ (regionPages base (alignUp amount pageSize)).map pageNumber,
        entries ram v' m' page = entries ram v m page) ∧
      ∃ taken, Took taken m m' ∧ frames ⊆ taken := by
  obtain ⟨_, inside, high, rfl, _, places⟩ := kernel.placed fits inserted
  subst baseEq
  obtain ⟨taken, frames, advanced, subset, backs⟩ := fillSteps_advanced inserted.store
    (regionPages_nodup high (Nat.le_of_lt inside)) steps
  obtain ⟨regions', place, layout, records⟩ := places (.frames frames flags)
  refine ⟨frames, regions', place, ?_, elsewhere inserted advanced fun _ member => member, ?_⟩
  · apply kernel.extend inserted place layout records advanced
    · exact fun page member => ⟨rfl, member⟩
    · intro frames' flags' backing
      obtain ⟨rfl, rfl⟩ := Backing.frames.inj backing
      exact backs
    · exact fun frames' flags' backing => absurd backing (by simp)
  · obtain ⟨first, _, _, took⟩ := inserted.took
    exact ⟨first ++ taken, took.trans advanced.took,
      fun frame member => List.mem_append_right first (subset member)⟩

/-- `vmm_alloc`: a region with frames of its own, taken in the call. -/
theorem vmmAlloc_done (kernel : Kernel ram pagemap v m regions blocks devices) (fits : Fits amount)
    (done : vmmAlloc ram.hhdm pagemap amount flags m = .ok (base, m')) (supplied : Supplied m') :
    ∃ v' node frames regions',
      Placed regions amount ⟨node, base, alignUp amount pageSize, .frames frames flags⟩ regions' ∧
      Kernel ram pagemap v' m' regions' blocks devices ∧
      (∀ page ∉ (regionPages base (alignUp amount pageSize)).map pageNumber,
        entries ram v' m' page = entries ram v m page) ∧
      ∃ taken, Took taken m m' ∧ frames ⊆ taken := by
  obtain ⟨⟨node, t⟩, made, rest⟩ := ok_of_bind done
  obtain ⟨after, finished, last⟩ := ok_of_bind rest
  obtain ⟨baseEq, rfl⟩ := Prod.mk.inj (Except.ok.inj last)
  rw [archMapRegionAlloc_eq] at finished
  have allocates := rel_of_foldlM Allocates Allocates.refl Allocates.trans
    (fun turned => fillPage_allocates turned) _ finished
  obtain ⟨mid, inserted⟩ := kernel.records.insertRegion_done kernel.store made
    (supplied.before allocates.grows)
  obtain ⟨_, inside, _, rfl, lengthEq, _⟩ := kernel.placed fits inserted
  rw [lengthEq, pagesBetween_region (alignUp_aligned amount) inside] at finished
  obtain ⟨v', steps⟩ := inserted.store.fillPages_done _ finished supplied
  obtain ⟨frames, regions', place, after, subset⟩ :=
    kernel.filled fits inserted baseEq (baseEq ▸ steps)
  exact ⟨v', node, frames, regions', place, after, subset⟩

/-- `vmm_alloc` runs when there is a gap, a page for the record and four for each
page of the region. -/
theorem vmmAlloc_runs (kernel : Kernel ram pagemap v m regions blocks devices) (fits : Fits amount)
    (ring : flags.user = false)
    (found : findGap (alignUp amount pageSize + pageSize) regions = some (prev, cur))
    (enough : 1 + 4 * (alignUp amount pageSize / pageSize) ≤ v.free.length) (supplied : Supplied m) :
    ∃ base m', vmmAlloc ram.hhdm pagemap amount flags m = .ok (base, m') ∧ Supplied m' ∧
      ∃ v' node frames regions',
        Placed regions amount ⟨node, base, alignUp amount pageSize, .frames frames flags⟩
          regions' ∧
        Kernel ram pagemap v' m' regions' blocks devices ∧
        (∃ taken, Took taken m m' ∧ frames ⊆ taken) ∧
        v.free.length ≤ v'.free.length + 1 + 4 * (alignUp amount pageSize / pageSize) := by
  have needed : wrap (alignUp amount pageSize + pageSize) = alignUp amount pageSize + pageSize :=
    Nat.mod_eq_of_lt fits
  have left : v.free ≠ [] := by
    rintro empty
    rw [empty, List.length_nil] at enough
    omega
  obtain ⟨node, mid, t, made, inserted⟩ :=
    kernel.records.insertRegion_runs kernel.store ring (needed.symm ▸ found) left
  obtain ⟨taken, few, split, took⟩ := inserted.took
  obtain ⟨_, inside, high, rfl, lengthEq, _⟩ := kernel.placed fits inserted
  have pageCount : (regionPages (regionBase t node) (alignUp amount pageSize)).length =
      alignUp amount pageSize / pageSize :=
    regionPages_length _ _
  have free : v.free.length ≤ mid.free.length + 1 := by
    rw [split, List.length_append]
    omega
  obtain ⟨v', m', finished, steps, used⟩ := inserted.store.fillPages_runs
    (regionPages (regionBase t node) (alignUp amount pageSize)) (by rw [pageCount]; omega)
  rw [pageCount] at used
  obtain ⟨frames, regions', place, after, _, subset⟩ := kernel.filled fits inserted rfl steps
  obtain ⟨_, _, advanced, _⟩ := fillSteps_advanced inserted.store
    (regionPages_nodup high (Nat.le_of_lt inside)) steps
  refine ⟨regionBase t node, m', ?_, ?_, v', node, frames, regions', place, after, subset,
    by omega⟩
  · simp only [vmmAlloc, made, bind, Except.bind, archMapRegionAlloc_eq, lengthEq,
      pagesBetween_region (alignUp_aligned amount) inside, finished]
  · apply advanced.supplied
    apply took.supplied supplied
    exact fun member => kernel.store.free_ne_zero (split ▸ List.mem_append_left _ member)

/-! ### Regions without frames of their own -/

/-- `vmm_alloc_without_backing`. -/
theorem vmmAllocWithoutBacking_done (kernel : Kernel ram pagemap v m regions blocks devices)
    (fits : Fits amount)
    (done : vmmAllocWithoutBacking ram.hhdm pagemap amount flags m = .ok (base, m'))
    (supplied : Supplied m') :
    ∃ v' node regions',
      Placed regions amount ⟨node, base, alignUp amount pageSize, .none⟩ regions' ∧
      Kernel ram pagemap v' m' regions' blocks devices ∧
      entries ram v' m' = entries ram v m ∧ ∃ taken, Took taken m m' := by
  obtain ⟨⟨node, t⟩, made, last⟩ := ok_of_bind done
  obtain ⟨baseEq, rfl⟩ := Prod.mk.inj (Except.ok.inj last)
  obtain ⟨v', inserted⟩ := kernel.records.insertRegion_done kernel.store made supplied
  obtain ⟨_, _, _, rfl, _, places⟩ := kernel.placed fits inserted
  subst baseEq
  obtain ⟨regions', place, layout, records⟩ := places .none
  obtain ⟨taken, _, _, took⟩ := inserted.took
  refine ⟨v', node, regions', place, ?_, inserted.entries, taken, took⟩
  apply kernel.extend inserted place layout records (Advanced.refl inserted.store)
  · exact fun page member => absurd member List.not_mem_nil
  · exact fun frames flags' backing => absurd backing (by simp)
  · exact fun frames flags' backing => absurd backing (by simp)

/-- The region whose pages were mapped to the caller's frames. -/
theorem mappedGiven (kernel : Kernel ram pagemap v m regions blocks devices) (fits : Fits amount)
    (inserted : Inserted ram pagemap.archPage v m pagemap.khead regions blocks amount node mid t)
    (baseEq : regionBase t node = base) (enough : alignUp amount pageSize / pageSize ≤ pa.length)
    (steps : Steps (MapStep ram pagemap.archPage) mid t
      (givenItems (regionPages base (alignUp amount pageSize)) pa (PT.fromVmmflags flags)) v' m') :
    ∃ regions',
      Placed regions amount ⟨node, base, alignUp amount pageSize,
        .phys (pa.take (alignUp amount pageSize / pageSize)) flags⟩ regions' ∧
      Kernel ram pagemap v' m' regions' blocks devices ∧
      (∀ page ∉ (regionPages base (alignUp amount pageSize)).map pageNumber,
        entries ram v' m' page = entries ram v m page) ∧
      ∃ taken, Took taken m m' ∧ 0 ∉ taken := by
  obtain ⟨_, inside, high, rfl, _, places⟩ := kernel.placed fits inserted
  subst baseEq
  have pageCount : (regionPages (regionBase t node) (alignUp amount pageSize)).length =
      alignUp amount pageSize / pageSize :=
    regionPages_length _ _
  have long : (regionPages (regionBase t node) (alignUp amount pageSize)).length ≤ pa.length :=
    pageCount ▸ enough
  obtain ⟨taken, advanced, entered⟩ := mapSteps_advanced inserted.store steps
  rw [givenItems_numbers _ long] at advanced entered
  obtain ⟨regions', place, layout, records⟩ :=
    places (.phys (pa.take (alignUp amount pageSize / pageSize)) flags)
  obtain ⟨first, _, split, took⟩ := inserted.took
  have real : 0 ∉ first ++ taken := by
    rw [List.mem_append, not_or]
    exact ⟨fun member => kernel.store.free_ne_zero (split ▸ List.mem_append_left _ member),
      advanced.real⟩
  refine ⟨regions', place, ?_, elsewhere inserted advanced fun _ member => member,
    first ++ taken, took.trans advanced.took, real⟩
  apply kernel.extend inserted place layout records advanced
  · exact fun page member => ⟨rfl, member⟩
  · exact fun frames flags' backing => absurd backing (by simp)
  · intro frames flags' backing
    obtain ⟨rfl, rfl⟩ := Backing.phys.inj backing
    rw [← pageCount]
    exact givenItems_enters long (entered (regionPages_nodup high (Nat.le_of_lt inside)))

/-- `vmm_alloc_with_phys`: the pages are mapped to the caller's frames. -/
theorem vmmAllocWithPhys_done (kernel : Kernel ram pagemap v m regions blocks devices)
    (fits : Fits amount)
    (done : vmmAllocWithPhys ram.hhdm pagemap amount flags pa m = .ok (base, m'))
    (supplied : Supplied m') :
    ∃ v' node regions',
      Placed regions amount ⟨node, base, alignUp amount pageSize,
        .phys (pa.take (alignUp amount pageSize / pageSize)) flags⟩ regions' ∧
      Kernel ram pagemap v' m' regions' blocks devices ∧
      (∀ page ∉ (regionPages base (alignUp amount pageSize)).map pageNumber,
        entries ram v' m' page = entries ram v m page) ∧
      ∃ taken, Took taken m m' ∧ 0 ∉ taken := by
  obtain ⟨⟨node, t⟩, made, rest⟩ := ok_of_bind done
  obtain ⟨after, finished, last⟩ := ok_of_bind rest
  obtain ⟨baseEq, rfl⟩ := Prod.mk.inj (Except.ok.inj last)
  have enough := archMapRegion_ok finished
  rw [archMapRegion_eq flags t enough] at finished
  have allocates := rel_of_foldlM Allocates Allocates.refl Allocates.trans
    (fun turned => map4kib_allocates (map4kibUnwrap_ok turned)) _ finished
  obtain ⟨mid, inserted⟩ := kernel.records.insertRegion_done kernel.store made
    (supplied.before allocates.grows)
  obtain ⟨_, inside, _, rfl, lengthEq, _⟩ := kernel.placed fits inserted
  rw [lengthEq, pagesBetween_region (alignUp_aligned amount) inside] at finished enough
  rw [regionPages_length] at enough
  obtain ⟨v', steps⟩ := inserted.store.mapItems_done _ finished supplied
  obtain ⟨regions', place, after, took⟩ :=
    kernel.mappedGiven fits inserted baseEq enough (baseEq ▸ steps)
  exact ⟨v', node, regions', place, after, took⟩

/-- `vmm_alloc_with_phys` runs when there is a gap, enough frames are given, and there are a
page for the record and three for each page of the region. -/
theorem vmmAllocWithPhys_runs (kernel : Kernel ram pagemap v m regions blocks devices)
    (fits : Fits amount) (ring : flags.user = false)
    (found : findGap (alignUp amount pageSize + pageSize) regions = some (prev, cur))
    (pa : List Nat) (long : alignUp amount pageSize / pageSize ≤ pa.length)
    (enough : 1 + 3 * (alignUp amount pageSize / pageSize) ≤ v.free.length) (supplied : Supplied m) :
    ∃ base m', vmmAllocWithPhys ram.hhdm pagemap amount flags pa m = .ok (base, m') ∧
      Supplied m' ∧ ∃ v' node regions',
        Placed regions amount ⟨node, base, alignUp amount pageSize,
          .phys (pa.take (alignUp amount pageSize / pageSize)) flags⟩ regions' ∧
        Kernel ram pagemap v' m' regions' blocks devices := by
  have needed : wrap (alignUp amount pageSize + pageSize) = alignUp amount pageSize + pageSize :=
    Nat.mod_eq_of_lt fits
  obtain ⟨node, mid, t, made, inserted⟩ := kernel.records.insertRegion_runs kernel.store ring
    (needed.symm ▸ found) (List.ne_nil_of_length_pos (by omega))
  obtain ⟨taken, few, split, took⟩ := inserted.took
  obtain ⟨_, inside, _, rfl, lengthEq, _⟩ := kernel.placed fits inserted
  have pageCount : (regionPages (regionBase t node) (alignUp amount pageSize)).length =
      alignUp amount pageSize / pageSize :=
    regionPages_length _ _
  have free : v.free.length ≤ mid.free.length + 1 := by
    rw [split, List.length_append]
    omega
  have items : (givenItems (regionPages (regionBase t node) (alignUp amount pageSize)) pa
      (PT.fromVmmflags flags)).length = alignUp amount pageSize / pageSize := by
    rw [givenItems, List.length_map, List.length_zip, pageCount, Nat.min_eq_left long]
  obtain ⟨v', m', finished, steps⟩ := inserted.store.mapItems_runs
    (givenItems (regionPages (regionBase t node) (alignUp amount pageSize)) pa
      (PT.fromVmmflags flags)) (by rw [items]; omega)
  obtain ⟨regions', place, after, _, all, tookAll, real⟩ :=
    kernel.mappedGiven fits inserted rfl long steps
  refine ⟨regionBase t node, m', ?_, tookAll.supplied supplied real, v', node, regions', place,
    after⟩
  have mapped : archMapRegion ram.hhdm pagemap.archPage (regionBase t node) (regionLength t node)
      pa flags t = .ok m' := by
    have pages := pagesBetween_region (alignUp_aligned amount) inside
    rw [lengthEq, archMapRegion_eq flags t (by rw [pages, pageCount]; exact long), pages, finished]
  simp only [vmmAllocWithPhys, made, bind, Except.bind, mapped]

/-! ### `vmm_dealloc` -/

/-- The invariant after the pages of a region were unmapped and its record was taken
out. -/
theorem shrink (kernel : Kernel ram pagemap v m (front ++ prev :: region :: back) blocks devices)
    {released : List Nat} (emptied : Emptied ram pagemap.archPage v m region.pages released mid t)
    (foreign : ∀ frame number, number ∉ region.pages → v.owner frame = .page number →
      frame + ram.hhdm ∉ released) :
    ∃ v' m', slabDealloc region.node
        (setRegionNext t prev.node (regionNext t region.node)) = m' ∧
      v'.free = mid.free ∧ Kernel ram pagemap v' m' (front ++ prev :: back) blocks devices ∧
      m'.pmmCalls = m.pmmCalls ++ released.map .released := by
  have records : Records mid t pagemap.khead (front ++ prev :: region :: back) blocks := by
    apply kernel.records.congr
    · intro size object _ live
      rw [emptied.slabs]
      exact live
    · intro size object _ live address inside
      exact emptied.quiet address (kernel.store.live_owned live inside)
  obtain ⟨slabs', m', freed, store, sameEntries, rest, writes⟩ := records.remove emptied.store
  have order : front ++ prev :: region :: back = (front ++ [prev]) ++ region :: back := by simp
  have inOld : ∀ other ∈ front ++ prev :: back, other ∈ (front ++ [prev]) ++ back := by
    intro other member
    simpa using member
  have listed : ∀ other ∈ front ++ prev :: back, other ∈ front ++ prev :: region :: back := by
    intro other member
    exact mem_behind.mpr (Or.inr member)
  have layout := kernel.layout
  rw [order] at layout
  have same : ∀ other ∈ front ++ prev :: back, ∀ page ∈ other.pages,
      entries ram { mid with slabs := slabs' } m' page = entries ram v m page := by
    intro other member page inOther
    rw [sameEntries, emptied.others page (layout.pages_apart (inOld other member) inOther)]
  refine ⟨{ mid with slabs := slabs' }, m', freed, rfl, ?_, ?_⟩
  · constructor
    case store => exact store
    case records => exact rest
    case layout => exact kernel.layout.remove
    case content =>
      constructor
      · intro other member frames flags' backing
        apply backs_congr (kernel.content.backed other (listed other member) frames flags' backing)
        · intro frame number inOther owned
          exact (emptied.kept frame (foreign frame number
            (layout.pages_apart (inOld other member) inOther) owned)).trans owned
        · exact same other member
      · intro other member frames flags' backing
        exact enters_congr (kernel.content.given other (listed other member) frames flags' backing)
          (same other member)
      · intro page noDevice uncovered
        rw [sameEntries]
        by_cases inRegion : page ∈ region.pages
        · exact emptied.cleared page inRegion
        · rw [emptied.others page inRegion]
          apply kernel.content.empty page noDevice
          intro other member mapped
          by_cases same : other = region
          · rw [same]
            exact inRegion
          · exact uncovered other ((mem_behind.mp member).resolve_left same) mapped
    case kermap => rw [writes.kermap, emptied.kermap, kernel.kermap]
  · rw [writes.pmmCalls, emptied.calls]

theorem vmmDealloc_eq
    (kernel : Kernel ram pagemap v m (front ++ prev :: region :: back) blocks devices)
    (others : ∀ other ∈ front ++ [prev], other.base ≠ region.base) :
    vmmDealloc ram.hhdm pagemap region.base false m = (do
      let m ← archUnmapRegion ram.hhdm pagemap.archPage region.base region.length m
      .ok (pagemap, slabDealloc region.node
        (setRegionNext m prev.node (regionNext m region.node)))) := by
  have real : region.base ≠ 0 := by
    have high := kernel.layout.high region (by simp)
    unfold higherHalf at high
    omega
  have short := kernel.records.short kernel.store.slab
  have listed := kernel.records.listed
  have order : front ++ prev :: region :: back = (front ++ [prev]) ++ region :: back := by simp
  have last : (front ++ [prev]).getLast (by simp) = prev := List.getLast_append_singleton _
  rw [vmmDealloc, if_neg real, if_neg Bool.false_ne_true]
  rw [order] at listed short
  cases list : front ++ [prev] with
  | nil => simp at list
  | cons first front' =>
      simp only [list] at listed short others last
      have atHead := listed.tail.1
      rw [atHead] at listed ⊢
      rw [List.length_append, List.length_cons, List.length_cons] at short
      rw [listed.vmmDeallocLoop_found front' rfl others (by omega), last]

theorem vmmDealloc_missing (kernel : Kernel ram pagemap v m regions blocks devices)
    (others : ∀ region ∈ regions, region.base ≠ base) :
    vmmDealloc ram.hhdm pagemap base false m = .ok (pagemap, m) := by
  unfold vmmDealloc
  split
  · rfl
  · rw [if_neg Bool.false_ne_true]
    exact kernel.records.listed.vmmDeallocLoop_missing regions others
      (kernel.records.short kernel.store.slab)

/-- `vmm_dealloc` of a region whose pages have frames of their own gives back exactly
these. -/
theorem vmmDealloc_backed {frames : List Nat}
    (kernel : Kernel ram pagemap v m (front ++ prev :: region :: back) blocks devices)
    (others : ∀ other ∈ front ++ [prev], other.base ≠ region.base)
    (below : region.base + region.length < addressSpace)
    (backs : List.Forall₂ (Backs ram v m (PT.fromVmmflags flags))
      (regionPages region.base region.length) frames) :
    ∃ v' m', vmmDealloc ram.hhdm pagemap region.base false m = .ok (pagemap, m') ∧
      v'.free = frames.reverse ++ v.free ∧
      Kernel ram pagemap v' m' (front ++ prev :: back) blocks devices ∧
      m'.pmmCalls = m.pmmCalls ++ frames.map fun frame => .released (frame + ram.hhdm) := by
  have member : region ∈ front ++ prev :: region :: back := by simp
  obtain ⟨mid, t, unmapped, midFree, emptied⟩ := kernel.store.unmapBacked rfl _ _
    (regionPages_nodup (kernel.layout.high region member) (Nat.le_of_lt below)) backs
  obtain ⟨v', m', freed, freeEq, after, calls⟩ := kernel.shrink emptied (by
    intro frame number outside owned inReleased
    obtain ⟨frame', inFrames, same⟩ := List.mem_map.mp inReleased
    obtain rfl : frame' = frame := Nat.add_right_cancel same
    obtain ⟨virt, inPages, isOwn⟩ := exists_left_of_forall₂ backs inFrames
    rw [isOwn.1] at owned
    exact outside (Owner.page.inj owned ▸ List.mem_map_of_mem inPages))
  refine ⟨v', m', ?_, freeEq.trans midFree, after, by rw [calls, List.map_map]; rfl⟩
  rw [kernel.vmmDealloc_eq others, archUnmapRegion_eq,
    pagesBetween_region (kernel.layout.aligned region member).2 below, unmapped]
  simp only [bind, Except.bind, freed]

/-- `vmm_dealloc` of a region without backing gives back nothing but frame zero. -/
theorem vmmDealloc_none
    (kernel : Kernel ram pagemap v m (front ++ prev :: region :: back) blocks devices)
    (others : ∀ other ∈ front ++ [prev], other.base ≠ region.base)
    (below : region.base + region.length < addressSpace) (backing : region.backing = .none)
    (noDevice : ∀ page ∈ region.pages, page ∉ devices) :
    ∃ v' m', ∃ released : List Nat,
      vmmDealloc ram.hhdm pagemap region.base false m = .ok (pagemap, m') ∧
      Kernel ram pagemap v' m' (front ++ prev :: back) blocks devices ∧
      (∀ pointer ∈ released, pointer = 0 + ram.hhdm) ∧
      m'.pmmCalls = m.pmmCalls ++ released.map .released := by
  have member : region ∈ front ++ prev :: region :: back := by simp
  have order : front ++ prev :: region :: back = (front ++ [prev]) ++ region :: back := by simp
  have layout := kernel.layout
  rw [order] at layout
  have empty : ∀ virt ∈ regionPages region.base region.length,
      entries ram v m (pageNumber virt) = 0 := by
    intro virt inPages
    apply kernel.content.empty _ (noDevice _ (List.mem_map_of_mem inPages))
    intro other inList mapped inOther
    by_cases same : other = region
    · rw [same, backing] at mapped
      contradiction
    · refine layout.pages_apart ?_ inOther (List.mem_map_of_mem inPages)
      rw [order] at inList
      exact (mem_middle.mp inList).resolve_left same
  obtain ⟨mid, t, released, unmapped, _, null, emptied⟩ := kernel.store.unmapEmpty _ empty
  obtain ⟨v', m', freed, _, after, calls⟩ := kernel.shrink emptied (by
    intro frame number _ owned inReleased
    obtain rfl : frame = 0 := Nat.add_right_cancel (null _ inReleased)
    rw [kernel.store.owner_zero] at owned
    contradiction)
  refine ⟨v', m', released, ?_, after, null, calls⟩
  rw [kernel.vmmDealloc_eq others, archUnmapRegion_eq,
    pagesBetween_region (kernel.layout.aligned region member).2 below, unmapped]
  simp only [bind, Except.bind, freed]

/-! ### The caller's frames

Nothing tells `vmm_dealloc` whose frames a region has: those of the caller go to the
page allocator like its own.  The invariant survives that when nobody else uses them;
they are then frames that the page allocator manages. -/

end Kernel

def Ram.more (ram : Ram) (frames : List Nat) (usable : ∀ frame ∈ frames, Usable ram.hhdm frame) :
    Ram :=
  { ram with
    frames := frames ++ ram.frames
    usable := by
      intro frame member
      rcases List.mem_append.mp member with new | old
      · exact usable frame new
      · exact ram.usable frame old }

/-- The owners once each frame belongs to the page that is mapped to it. -/
def adopted : List Nat → List Nat → (Nat → Owner) → Nat → Owner
  | virt :: virts, frame :: frames, owner =>
      Function.update (adopted virts frames owner) frame (.page (pageNumber virt))
  | _, _, owner => owner

theorem adopted_not_mem (virts frames : List Nat) (owner : Nat → Owner) {frame : Nat}
    (absent : frame ∉ frames) : adopted virts frames owner frame = owner frame := by
  induction virts generalizing frames with
  | nil => rfl
  | cons virt virts inductionHypothesis =>
      cases frames with
      | nil => rfl
      | cons first frames =>
          rw [List.mem_cons, not_or] at absent
          rw [adopted, Function.update_of_ne absent.1, inductionHypothesis frames absent.2]

theorem adopted_owner {related : Nat → Nat → Prop} (owner : Nat → Owner)
    (paired : List.Forall₂ related virts frames) (distinct : frames.Nodup) :
    List.Forall₂ (fun virt frame =>
      adopted virts frames owner frame = .page (pageNumber virt) ∧ related virt frame)
      virts frames := by
  induction paired with
  | nil => exact List.Forall₂.nil
  | @cons virt frame virts frames first _ inductionHypothesis =>
      obtain ⟨absent, distinct'⟩ := List.nodup_cons.mp distinct
      refine List.Forall₂.cons ⟨by rw [adopted, Function.update_self], first⟩ ?_
      have members : ∀ other ∈ frames, other ≠ frame := fun other member same =>
        absent (same ▸ member)
      have later := ((List.forall₂_and_left frames virts).mpr
        ⟨members, (inductionHypothesis distinct').flip⟩).flip
      apply later.imp
      rintro other frame' ⟨different, owned, relation⟩
      exact ⟨by rw [adopted, Function.update_of_ne different, owned], relation⟩

namespace Kernel

variable {pagemap : Pagemap} {v : View} {m : Machine} {regions : List Region}
  {blocks : List (Nat × Nat)} {devices : List Nat} {flags : VMMFlags}

/-- The frames of a region that nobody owns can be taken for its own. -/
theorem adopt (kernel : Kernel ram pagemap v m regions blocks devices) {region : Region}
    (member : region ∈ regions) {frames : List Nat} (backing : region.backing = .phys frames flags)
    (usable : ∀ frame ∈ frames, Usable ram.hhdm frame)
    (outside : ∀ frame ∈ frames, v.owner frame = .outside) (distinct : frames.Nodup) :
    ∃ v', v'.free = v.free ∧ Kernel (ram.more frames usable) pagemap v' m regions blocks devices ∧
      List.Forall₂ (Backs (ram.more frames usable) v' m (PT.fromVmmflags flags))
        (regionPages region.base region.length) frames := by
  have enters := kernel.content.given region member frames flags backing
  have kept : ∀ frame, v.owner frame ≠ .outside →
      adopted (regionPages region.base region.length) frames v.owner frame = v.owner frame :=
    fun frame used => adopted_not_mem _ _ _ fun inFrames => used (outside frame inFrames)
  have keptOwner : ∀ frame who, who ≠ .outside → v.owner frame = who →
      adopted (regionPages region.base region.length) frames v.owner frame = who :=
    fun frame who used owned => (kept frame (owned ▸ used)).trans owned
  refine ⟨{ v with owner := adopted (regionPages region.base region.length) frames v.owner },
    rfl, ?_, ?_⟩
  · constructor
    case store =>
      exact
        { chain := kernel.store.chain
          freeOwned := fun frame inFree =>
            keptOwner frame .free (by decide) (kernel.store.freeOwned frame inFree)
          managed := by
            intro frame used
            by_cases inFrames : frame ∈ frames
            · exact List.mem_append_left _ inFrames
            · apply List.mem_append_right
              apply kernel.store.managed
              have same := adopted_not_mem (regionPages region.base region.length) frames v.owner
                inFrames
              exact same ▸ used
          slab := kernel.store.slab
          slabOwned := by
            intro page isPage
            obtain ⟨frame, pageEq, isSlab⟩ := kernel.store.slabOwned page isPage
            exact ⟨frame, pageEq, keptOwner frame .slab (by decide) isSlab⟩
          shape := kernel.store.shape
          tableOwned := fun present =>
            keptOwner _ .table (by decide) (kernel.store.tableOwned present) }
    case records =>
      exact kernel.records.congr (fun _ _ _ live => live) (fun _ _ _ _ _ _ => rfl)
    case layout => exact kernel.layout
    case content =>
      constructor
      · intro other inList frames' flags' backing'
        refine (kernel.content.backed other inList frames' flags' backing').imp ?_
        rintro virt frame ⟨owned, entry⟩
        exact ⟨keptOwner frame _ (by simp) owned, entry⟩
      · exact kernel.content.given
      · exact kernel.content.empty
    case kermap => exact kernel.kermap
  · exact adopted_owner v.owner enters distinct

/-- `vmm_dealloc` of a region with frames of the caller gives these to the page
allocator. -/
theorem vmmDealloc_given {front back : List Region} {prev region : Region} {frames : List Nat}
    (kernel : Kernel ram pagemap v m (front ++ prev :: region :: back) blocks devices)
    (others : ∀ other ∈ front ++ [prev], other.base ≠ region.base)
    (below : region.base + region.length < addressSpace)
    (backing : region.backing = .phys frames flags)
    (usable : ∀ frame ∈ frames, Usable ram.hhdm frame)
    (outside : ∀ frame ∈ frames, v.owner frame = .outside) (distinct : frames.Nodup) :
    ∃ v' m', vmmDealloc ram.hhdm pagemap region.base false m = .ok (pagemap, m') ∧
      v'.free = frames.reverse ++ v.free ∧
      Kernel (ram.more frames usable) pagemap v' m' (front ++ prev :: back) blocks devices ∧
      m'.pmmCalls = m.pmmCalls ++ frames.map fun frame => .released (frame + ram.hhdm) := by
  obtain ⟨mid, sameFree, own, backs⟩ :=
    kernel.adopt (by simp) backing usable outside distinct
  obtain ⟨v', m', done, freeEq, after, calls⟩ := own.vmmDealloc_backed others below backs
  exact ⟨v', m', done, by rw [freeEq, sameFree], after, calls⟩

end Kernel

end NyauxKernel.Memory
