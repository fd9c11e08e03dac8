/-
The list of regions in memory: what the search loops find in it, and what linking
and unlinking a record do to it.
-/

import NyauxKernel.Memory.Vmm
import NyauxKernel.Memory.SlabInvariant

namespace NyauxKernel.Memory

open LinkPath

/-! ### Records -/

/-- The size class of region records. -/
def nodeSize : Nat := 64

variable {m m' : Machine} {base fuel hhdm needed node : Nat} {regions : List Region} {prev : Region}
  {pagemap : Pagemap} {before : Option Nat}

theorem regionNext_congr
    (same : ∀ address, InObject node nodeSize address → m'.memory address = m.memory address) :
    regionNext m' node = regionNext m node := by
  have tag := same (node + nextTagOffset) (by unfold InObject nodeSize nextTagOffset; omega)
  have next := same (node + nextOffset) (by unfold InObject nodeSize nextOffset; omega)
  rw [regionNext, regionNext, tag, next]

theorem regionBase_congr
    (same : ∀ address, InObject node nodeSize address → m'.memory address = m.memory address) :
    regionBase m' node = regionBase m node :=
  same (node + baseOffset) (by unfold InObject nodeSize baseOffset; omega)

theorem regionLength_congr
    (same : ∀ address, InObject node nodeSize address → m'.memory address = m.memory address) :
    regionLength m' node = regionLength m node :=
  same (node + lengthOffset) (by unfold InObject nodeSize lengthOffset; omega)

theorem setRegionNext_writes (m : Machine) (node : Nat) (next : Option Nat) :
    Writes (InObject node nodeSize) m (setRegionNext m node next) := by
  cases next with
  | none =>
      apply Writes.write
      unfold InObject nodeSize nextTagOffset
      omega
  | some next =>
      apply Writes.andWrite
      · apply Writes.write
        unfold InObject nodeSize nextTagOffset
        omega
      · unfold InObject nodeSize nextOffset
        omega

theorem regionNext_setRegionNext (m : Machine) (node : Nat) (next : Option Nat) :
    regionNext (setRegionNext m node next) node = next := by
  cases next with
  | none => simp [regionNext, setRegionNext, Machine.write, nextTagOffset]
  | some next =>
      have apart : node + nextTagOffset ≠ node + nextOffset := by
        unfold nextTagOffset nextOffset
        omega
      simp [regionNext, setRegionNext, Machine.write, Function.update_of_ne apart]

theorem regionBase_setRegionNext (m : Machine) (node : Nat) (next : Option Nat) :
    regionBase (setRegionNext m node next) node = regionBase m node := by
  have apartTag : node + baseOffset ≠ node + nextTagOffset := by
    unfold nextTagOffset baseOffset
    omega
  have apartNext : node + baseOffset ≠ node + nextOffset := by
    unfold nextOffset baseOffset
    omega
  cases next with
  | none => exact write_other m 0 apartTag
  | some next => exact (write_other _ next apartNext).trans (write_other m 1 apartTag)

theorem regionLength_setRegionNext (m : Machine) (node : Nat) (next : Option Nat) :
    regionLength (setRegionNext m node next) node = regionLength m node := by
  have apartTag : node + lengthOffset ≠ node + nextTagOffset := by
    unfold nextTagOffset lengthOffset
    omega
  have apartNext : node + lengthOffset ≠ node + nextOffset := by
    unfold nextOffset lengthOffset
    omega
  cases next with
  | none => exact write_other m 0 apartTag
  | some next => exact (write_other _ next apartNext).trans (write_other m 1 apartTag)

/-- The record that `VMMRegion::new` writes. -/
def writeRegion (m : Machine) (node base length : Nat) (flags : VMMFlags) : Machine :=
  (((setRegionNext m node none).write (node + baseOffset) base).write (node + lengthOffset)
    length).write (node + flagsOffset) flags.bits

theorem writeRegion_writes (m : Machine) (node base length : Nat) (flags : VMMFlags) :
    Writes (InObject node nodeSize) m (writeRegion m node base length flags) := by
  apply Writes.andWrite
  · apply Writes.andWrite
    · apply Writes.andWrite
      · exact setRegionNext_writes m node none
      · unfold InObject nodeSize baseOffset
        omega
    · unfold InObject nodeSize lengthOffset
      omega
  · unfold InObject nodeSize flagsOffset
    omega

theorem regionNext_writeRegion (m : Machine) (node base length : Nat) (flags : VMMFlags) :
    regionNext (writeRegion m node base length flags) node = none := by
  simp [regionNext, writeRegion, setRegionNext, Machine.write, nextTagOffset,
    baseOffset, lengthOffset, flagsOffset]

theorem regionBase_writeRegion (m : Machine) (node base length : Nat) (flags : VMMFlags) :
    regionBase (writeRegion m node base length flags) node = base := by
  simp [regionBase, writeRegion, Machine.write, baseOffset, lengthOffset, flagsOffset]

theorem regionLength_writeRegion (m : Machine) (node base length : Nat) (flags : VMMFlags) :
    regionLength (writeRegion m node base length flags) node = length := by
  simp [regionLength, writeRegion, Machine.write, lengthOffset, flagsOffset]

theorem regionNew_eq {length object : Nat} {flags : VMMFlags}
    (done : slabAlloc hhdm regionSize m = .ok (some object, m')) :
    regionNew hhdm base length flags m = .ok (object, writeRegion m' object base length flags) := by
  simp only [regionNew, done, bind, Except.bind, writeRegion]

/-! ### The list -/

/-- How the pages of a region got their frames: from the bootloader's map, from the
page allocator, from the caller, or not at all. -/
inductive Backing
  | boot
  | frames (list : List Nat) (flags : VMMFlags)
  | phys (list : List Nat) (flags : VMMFlags)
  | none

structure Region where
  node : Nat
  base : Nat
  length : Nat
  backing : Backing

def regionLink (m : Machine) (cell : Option Nat) : Option Nat := cell.bind (regionNext m)

def cells (regions : List Region) : List (Option Nat) := regions.map fun region => some region.node

structure Listed (m : Machine) (head : Option Nat) (regions : List Region) : Prop where
  linked : Path (regionLink m) head (cells regions) none
  fields : ∀ region ∈ regions,
    regionBase m region.node = region.base ∧ regionLength m region.node = region.length

/-- No two of the records overlap. -/
def Separate (nodes : List Nat) : Prop :=
  ∀ node ∈ nodes, ∀ other ∈ nodes, ∀ address, InObject node nodeSize address →
    InObject other nodeSize address → node = other

namespace Listed

variable {head : Option Nat} {front back : List Region} {cur region : Region}

theorem congr (listed : Listed m head regions)
    (same : ∀ region ∈ regions, ∀ address, InObject region.node nodeSize address →
      m'.memory address = m.memory address) : Listed m' head regions where
  linked := by
    apply listed.linked.congr
    intro cell member
    obtain ⟨region, inRegions, rfl⟩ := List.mem_map.mp member
    exact regionNext_congr (same region inRegions)
  fields := by
    intro region member
    rw [regionBase_congr (same region member), regionLength_congr (same region member)]
    exact listed.fields region member

theorem tail (listed : Listed m head (region :: regions)) :
    head = some region.node ∧ Listed m (regionNext m region.node) regions :=
  ⟨listed.linked.1,
    { linked := listed.linked.2
      fields := fun other member => listed.fields other (List.mem_cons_of_mem region member) }⟩

theorem cons (listed : Listed m (regionNext m region.node) regions)
    (fields : regionBase m region.node = region.base ∧ regionLength m region.node = region.length) :
    Listed m (some region.node) (region :: regions) where
  linked := ⟨rfl, listed.linked⟩
  fields := by
    intro other member
    rcases List.mem_cons.mp member with rfl | later
    · exact fields
    · exact listed.fields other later

/-- Records can be replaced behind a front that is left alone. -/
theorem splice (listed : Listed m head (front ++ back)) {back' : List Region}
    (replaced : Listed m' ((cells back).headD none) back')
    (same : ∀ region ∈ front, ∀ address, InObject region.node nodeSize address →
      m'.memory address = m.memory address) : Listed m' head (front ++ back') where
  linked := by
    have whole := listed.linked
    have atStart : (cells back).headD none = (cells back').headD none := replaced.linked.start_eq
    have links := replaced.linked
    rw [atStart] at links
    rw [cells, List.map_append] at whole ⊢
    obtain ⟨toBack, _⟩ := (path_append _ _ _ _).mp whole
    refine (path_append _ _ _ _).mpr ⟨?_, links⟩
    change Path _ head _ ((cells back').headD none)
    rw [← atStart]
    apply toBack.congr
    intro cell member
    obtain ⟨region, inFront, rfl⟩ := List.mem_map.mp member
    exact regionNext_congr (same region inFront)
  fields := by
    intro region member
    rcases List.mem_append.mp member with inFront | inBack
    · rw [regionBase_congr (same region inFront), regionLength_congr (same region inFront)]
      exact listed.fields region (List.mem_append_left back inFront)
    · exact replaced.fields region inBack

/-- The part of the list behind a front. -/
theorem behind (listed : Listed m head (front ++ back)) :
    Listed m ((cells back).headD none) back where
  linked := by
    have whole := listed.linked
    rw [cells, List.map_append] at whole
    exact ((path_append _ _ _ _).mp whole).2
  fields := fun region member => listed.fields region (List.mem_append_right front member)

/-- The new record between two neighbours. -/
theorem insert (listed : Listed m head (front ++ prev :: cur :: back)) {node : Nat}
    (base length : Nat) (flags : VMMFlags) (backing : Backing)
    (distinct : ((front ++ prev :: cur :: back).map Region.node).Nodup)
    (fresh : node ∉ (front ++ prev :: cur :: back).map Region.node)
    (separate : Separate (node :: (front ++ prev :: cur :: back).map Region.node)) :
    Listed
      (setRegionNext (setRegionNext (writeRegion m node base length flags) prev.node (some node))
        node (some cur.node)) head
      (front ++ prev :: ⟨node, base, length, backing⟩ :: cur :: back) := by
  have prevMember : prev ∈ front ++ prev :: cur :: back := by simp
  have prevNe : prev.node ≠ node := fun same =>
    fresh (same ▸ List.mem_map_of_mem prevMember)
  have made := writeRegion_writes m node base length flags
  have linkedPrev := setRegionNext_writes (writeRegion m node base length flags) prev.node
    (some node)
  have linkedNew := setRegionNext_writes
    (setRegionNext (writeRegion m node base length flags) prev.node (some node)) node
    (some cur.node)
  have apart : ∀ {x y : Nat}, x ∈ node :: (front ++ prev :: cur :: back).map Region.node →
      y ∈ node :: (front ++ prev :: cur :: back).map Region.node → x ≠ y →
      ∀ address, InObject x nodeSize address → ¬InObject y nodeSize address :=
    fun inX inY different address inside inside' =>
      different (separate _ inX _ inY address inside inside')
  have member : ∀ region ∈ front ++ prev :: cur :: back,
      region.node ∈ node :: (front ++ prev :: cur :: back).map Region.node :=
    fun region inList => List.mem_cons_of_mem _ (List.mem_map_of_mem inList)
  have quiet : ∀ region ∈ front ++ prev :: cur :: back, region.node ≠ prev.node →
      ∀ address, InObject region.node nodeSize address →
        (setRegionNext (setRegionNext (writeRegion m node base length flags) prev.node (some node))
          node (some cur.node)).memory address = m.memory address := by
    intro region inList different address inside
    have notNode : region.node ≠ node := fun same => fresh (same ▸ List.mem_map_of_mem inList)
    have outside := apart (member region inList) List.mem_cons_self notNode address inside
    rw [linkedNew.elsewhere address outside, linkedPrev.elsewhere address
      (apart (member region inList) (member prev prevMember) different address inside),
      made.elsewhere address outside]
  have split := distinct
  rw [List.map_append, List.map_cons, List.nodup_append, List.nodup_cons] at split
  obtain ⟨_, ⟨prevNotBehind, _⟩, frontApart⟩ := split
  have inFront : ∀ region ∈ front, region.node ≠ prev.node := fun region inList same =>
    frontApart _ (List.mem_map_of_mem inList) _ List.mem_cons_self same
  have inBack : ∀ region ∈ cur :: back, region.node ≠ prev.node := fun region inList same =>
    prevNotBehind (same ▸ List.mem_map_of_mem inList)
  have prevSame : ∀ address, InObject prev.node nodeSize address →
      (setRegionNext (setRegionNext (writeRegion m node base length flags) prev.node (some node))
          node (some cur.node)).memory address =
        (setRegionNext (writeRegion m node base length flags) prev.node (some node)).memory
          address := fun address inside => linkedNew.elsewhere address
    (apart (member prev prevMember) List.mem_cons_self prevNe address inside)
  have prevMade : ∀ address, InObject prev.node nodeSize address →
      (writeRegion m node base length flags).memory address = m.memory address :=
    fun address inside => made.elsewhere address
      (apart (member prev prevMember) List.mem_cons_self prevNe address inside)
  have nodeSame : ∀ address, InObject node nodeSize address →
      (setRegionNext (writeRegion m node base length flags) prev.node (some node)).memory address =
        (writeRegion m node base length flags).memory address :=
    fun address inside => linkedPrev.elsewhere address
      (apart List.mem_cons_self (member prev prevMember) prevNe.symm address inside)
  apply listed.splice
  · obtain ⟨_, tail⟩ := listed.behind.tail
    have prevFields := listed.fields prev prevMember
    refine Listed.cons ?_ ?_
    · rw [regionNext_congr prevSame, regionNext_setRegionNext]
      change Listed _ (some (Region.mk node base length backing).node) _
      refine Listed.cons ?_ ?_
      · rw [regionNext_setRegionNext]
        have tail' := tail.congr fun region inList address inside => quiet region
          (List.mem_append_right front (List.mem_cons_of_mem prev inList)) (inBack region inList)
          address inside
        rwa [tail.tail.1] at tail'
      · change regionBase _ node = base ∧ regionLength _ node = length
        rw [regionBase_setRegionNext, regionLength_setRegionNext, regionBase_congr nodeSame,
          regionLength_congr nodeSame, regionBase_writeRegion, regionLength_writeRegion]
        exact ⟨rfl, rfl⟩
    · rw [regionBase_congr prevSame, regionLength_congr prevSame, regionBase_setRegionNext,
        regionLength_setRegionNext, regionBase_congr prevMade, regionLength_congr prevMade]
      exact prevFields
  · intro region inList
    exact quiet region (List.mem_append_left _ inList) (inFront region inList)

/-- A record taken out behind its neighbour. -/
theorem remove (listed : Listed m head (front ++ prev :: region :: back))
    (distinct : ((front ++ prev :: region :: back).map Region.node).Nodup)
    (separate : Separate ((front ++ prev :: region :: back).map Region.node)) :
    Listed (setRegionNext m prev.node (regionNext m region.node)) head (front ++ prev :: back) := by
  have writes := setRegionNext_writes m prev.node (regionNext m region.node)
  have quiet : ∀ other ∈ front ++ prev :: region :: back, other.node ≠ prev.node →
      ∀ address, InObject other.node nodeSize address →
        (setRegionNext m prev.node (regionNext m region.node)).memory address =
          m.memory address := by
    intro other inList different address inside
    apply writes.elsewhere
    intro inPrev
    exact different (separate _ (List.mem_map_of_mem inList) _
      (List.mem_map_of_mem (by simp)) address inside inPrev)
  have split := distinct
  rw [List.map_append, List.map_cons, List.nodup_append, List.nodup_cons] at split
  obtain ⟨_, ⟨prevNotBehind, _⟩, frontApart⟩ := split
  apply listed.splice
  · refine Listed.cons ?_ ?_
    · rw [regionNext_setRegionNext]
      apply (listed.behind.tail.2.tail.2).congr
      intro other inList
      apply quiet other
      · exact List.mem_append_right _
          (List.mem_cons_of_mem _ (List.mem_cons_of_mem _ inList))
      · exact fun same => prevNotBehind
          (same ▸ List.mem_map_of_mem (List.mem_cons_of_mem region inList))
    · rw [regionBase_setRegionNext, regionLength_setRegionNext]
      exact listed.fields prev (by simp)
  · intro other inList
    exact quiet other (List.mem_append_left _ inList) fun same =>
      frontApart _ (List.mem_map_of_mem inList) _ List.mem_cons_self same

end Listed

/-! ### The search for a place -/

/-- The gap between two neighbours as `calculate_region_location` computes it. -/
def gap (prev cur : Region) : Nat := cur.base - wrap (prev.base + prev.length)

/-- The first two neighbours with a gap of at least `needed`. -/
def findGap (needed : Nat) : List Region → Option (Region × Region)
  | prev :: cur :: rest =>
      if needed ≤ gap prev cur then some (prev, cur) else findGap needed (cur :: rest)
  | _ => none

/-- The neighbours that are found are the first with a gap that is big enough. -/
theorem findGap_eq_some {cur : Region} (found : findGap needed regions = some (prev, cur)) :
    ∃ front back, regions = front ++ prev :: cur :: back ∧ needed ≤ gap prev cur ∧
      findGap needed (front ++ [prev]) = none := by
  induction regions with
  | nil => contradiction
  | cons first rest inductionHypothesis =>
      cases rest with
      | nil => contradiction
      | cons second rest =>
          rw [findGap] at found
          by_cases fits : needed ≤ gap first second
          · rw [if_pos fits] at found
            obtain ⟨rfl, rfl⟩ := Prod.mk.inj (Option.some.inj found)
            exact ⟨[], rest, rfl, fits, rfl⟩
          · rw [if_neg fits] at found
            obtain ⟨front, back, split, enough, before⟩ := inductionHypothesis found
            refine ⟨first :: front, back, by rw [split]; rfl, enough, ?_⟩
            cases front with
            | nil =>
                obtain ⟨rfl, _⟩ := List.cons.inj split
                change findGap needed [first, second] = none
                rw [findGap, if_neg fits]
                rfl
            | cons other front =>
                obtain ⟨rfl, _⟩ := List.cons.inj split
                rw [List.cons_append, List.cons_append, findGap, if_neg fits]
                exact before

/-- Nothing is found exactly when all neighbours are too close. -/
theorem findGap_eq_none_iff :
    findGap needed regions = none ↔
      ∀ front prev cur back, regions = front ++ prev :: cur :: back → gap prev cur < needed := by
  induction regions with
  | nil => simp [findGap]
  | cons first rest inductionHypothesis =>
      cases rest with
      | nil =>
          refine iff_of_true rfl ?_
          intro front prev cur back split
          have lengths := congrArg List.length split
          simp only [List.length_append, List.length_cons, List.length_nil] at lengths
          omega
      | cons second rest =>
          rw [findGap]
          constructor
          · intro none front prev cur back split
            split at none
            · contradiction
            · cases front with
              | nil =>
                  obtain ⟨rfl, tail⟩ := List.cons.inj split
                  obtain ⟨rfl, _⟩ := List.cons.inj tail
                  omega
              | cons other front =>
                  obtain ⟨_, tail⟩ := List.cons.inj split
                  exact inductionHypothesis.mp none front prev cur back tail
          · intro close
            have near := close [] first second rest rfl
            rw [if_neg (by omega)]
            apply inductionHypothesis.mpr
            intro front prev cur back split
            exact close (first :: front) prev cur back (by rw [split]; rfl)

/-- What `calculate_region_location` makes of the neighbours found. -/
def location : Option (Region × Region) → Except String (Nat × Nat × Nat)
  | some (prev, cur) => .ok (wrap (prev.base + prev.length), prev.node, cur.node)
  | none => .error "could not find vmm region"

theorem Listed.calculateLoop_eq (rest : List Region)
    (listed : Listed m (some prev.node) (prev :: rest)) (enough : rest.length < fuel) :
    calculateLoop m needed fuel prev.node (regionNext m prev.node) =
      .ok (location (findGap needed (prev :: rest))) := by
  induction rest generalizing prev fuel with
  | nil =>
      obtain ⟨fuel, rfl⟩ : ∃ more, fuel = more + 1 := ⟨fuel - 1, by omega⟩
      have atEnd : regionNext m prev.node = none := listed.tail.2.linked
      rw [atEnd, calculateLoop]
      rfl
  | cons cur rest inductionHypothesis =>
      obtain ⟨fuel, rfl⟩ : ∃ more, fuel = more + 1 := ⟨fuel - 1, by omega⟩
      rw [List.length_cons] at enough
      have fields := listed.fields prev List.mem_cons_self
      obtain ⟨_, tail⟩ := listed.tail
      have atCur := tail.tail.1
      have curFields := tail.fields cur List.mem_cons_self
      rw [atCur] at tail
      rw [atCur, calculateLoop, findGap]
      simp only [fields.1, fields.2, curFields.1]
      by_cases fits : needed ≤ gap prev cur
      · rw [if_pos fits, if_pos (show cur.base - wrap (prev.base + prev.length) ≥ needed from fits)]
        rfl
      · rw [if_neg fits,
          if_neg (show ¬cur.base - wrap (prev.base + prev.length) ≥ needed from fits)]
        exact inductionHypothesis tail (by omega)

/-- `calculate_region_location` finds the first gap of the rounded amount and one
page more. -/
theorem Listed.calculateRegionLocation_eq (listed : Listed m pagemap.khead regions)
    (short : regions.length < addressSpace) (amount : Nat) :
    calculateRegionLocation pagemap amount m =
      .ok (location (findGap (wrap (alignUp amount pageSize + pageSize)) regions)) := by
  cases regions with
  | nil =>
      have atEnd : pagemap.khead = none := listed.linked
      rw [calculateRegionLocation, atEnd]
      rfl
  | cons first rest =>
      have atHead := listed.tail.1
      rw [atHead] at listed
      rw [calculateRegionLocation, atHead]
      exact listed.calculateLoop_eq rest (by rw [List.length_cons] at short; omega)

/-! ### The search for a region -/

/-- `vmm_dealloc` takes out the first record with the base, behind its neighbour. -/
theorem Listed.vmmDeallocLoop_found {region : Region} {back : List Region} (front : List Region)
    (listed : Listed m (some prev.node) (prev :: front ++ region :: back))
    (found : region.base = base) (others : ∀ other ∈ prev :: front, other.base ≠ base)
    (enough : front.length + 1 < fuel) :
    vmmDeallocLoop hhdm base fuel before (some prev.node) pagemap m = (do
      let m ← archUnmapRegion hhdm pagemap.archPage region.base region.length m
      .ok (pagemap, slabDealloc region.node
        (setRegionNext m ((prev :: front).getLast (List.cons_ne_nil _ _)).node
          (regionNext m region.node)))) := by
  induction front generalizing prev before fuel with
  | nil =>
      obtain ⟨fuel, rfl⟩ : ∃ more, fuel = more + 1 + 1 := ⟨fuel - 2, by omega⟩
      have fields := listed.fields prev (by simp)
      obtain ⟨_, tail⟩ := listed.tail
      have atRegion := tail.tail.1
      have regionFields := tail.fields region List.mem_cons_self
      rw [vmmDeallocLoop, fields.1, if_neg (others prev List.mem_cons_self), atRegion,
        vmmDeallocLoop, regionFields.1, regionFields.2, if_pos found, found]
      rfl
  | cons cur front inductionHypothesis =>
      obtain ⟨fuel, rfl⟩ : ∃ more, fuel = more + 1 := ⟨fuel - 1, by omega⟩
      rw [List.length_cons] at enough
      have fields := listed.fields prev (by simp)
      obtain ⟨_, tail⟩ := listed.tail
      have atCur := tail.tail.1
      rw [atCur] at tail
      rw [vmmDeallocLoop, fields.1, if_neg (others prev List.mem_cons_self), atCur,
        inductionHypothesis tail
          (fun other member => others other (List.mem_cons_of_mem prev member)) (by omega)]
      rfl

/-- Nothing is taken out when no record has the base. -/
theorem Listed.vmmDeallocLoop_missing (regions : List Region) {head : Option Nat}
    (listed : Listed m head regions) (others : ∀ region ∈ regions, region.base ≠ base)
    (enough : regions.length < fuel) :
    vmmDeallocLoop hhdm base fuel before head pagemap m = .ok (pagemap, m) := by
  induction regions generalizing head before fuel with
  | nil =>
      obtain ⟨fuel, rfl⟩ : ∃ more, fuel = more + 1 := ⟨fuel - 1, by omega⟩
      have atEnd : head = none := listed.linked
      rw [atEnd, vmmDeallocLoop]
  | cons region regions inductionHypothesis =>
      obtain ⟨fuel, rfl⟩ : ∃ more, fuel = more + 1 := ⟨fuel - 1, by omega⟩
      rw [List.length_cons] at enough
      obtain ⟨atHead, tail⟩ := listed.tail
      have fields := listed.fields region List.mem_cons_self
      rw [atHead, vmmDeallocLoop, fields.1, if_neg (others region List.mem_cons_self)]
      exact inductionHypothesis tail
        (fun other member => others other (List.mem_cons_of_mem region member)) (by omega)

end NyauxKernel.Memory
