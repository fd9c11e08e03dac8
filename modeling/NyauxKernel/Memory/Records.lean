/-
Region records and user blocks as objects of the slabs, and the calls that make,
link and unlink records.
-/

import NyauxKernel.Memory.OwnedTables
import NyauxKernel.Memory.RegionList

namespace NyauxKernel.Memory

open LinkPath ExceptFold

/-! ### The store under changes of objects -/

namespace Store

variable {ram : Ram} {root : Nat} {v v' : View} {m m' : Machine}

/-- Memory that is neither free, nor private to the slabs, nor a table's is free to
change. -/
theorem congr (store : Store ram root v m) (freelist : m'.freelist = m.freelist)
    (caches : m'.slabCaches = m.slabCaches)
    (sameFree : ∀ address, Owned ram.hhdm v.owner .free address →
      m'.memory address = m.memory address)
    (sameTable : ∀ address, Owned ram.hhdm v.owner .table address →
      m'.memory address = m.memory address)
    (sameSlab : ∀ address, SlabPrivate v.slabs address → m'.memory address = m.memory address) :
    Store ram root v m' ∧ entries ram v m' = entries ram v m := by
  have inTables : ∀ address, InTable ram.hhdm v.tables address →
      m'.memory address = m.memory address :=
    fun address inside => sameTable address (store.table_owned inside)
  refine ⟨?_, funext (leafEntry_congr inTables)⟩
  exact
    { toPool := store.toPool.congr freelist caches sameFree sameSlab
      shape := store.shape.congr inTables
      tableOwned := store.tableOwned }

/-- The other statics do not matter. -/
theorem statics (store : Store ram root v m) (memory : m'.memory = m.memory)
    (freelist : m'.freelist = m.freelist) (caches : m'.slabCaches = m.slabCaches) :
    Store ram root v m' :=
  (store.congr freelist caches (fun address _ => congrFun memory address)
    (fun address _ => congrFun memory address) (fun address _ => congrFun memory address)).1

/-- Writes to a live object. -/
theorem writes (store : Store ram root v m) {size object : Nat}
    (live : LiveObject v.slabs size object) (written : Writes (InObject object size) m m') :
    Store ram root v m' ∧ entries ram v m' = entries ram v m := by
  apply store.congr written.freelist written.slabCaches
  · intro address isFree
    apply written.elsewhere
    intro inside
    have clash := (store.live_owned live inside).unique isFree
    contradiction
  · intro address isTable
    apply written.elsewhere
    intro inside
    have clash := (store.live_owned live inside).unique isTable
    contradiction
  · intro address isPrivate
    apply written.elsewhere
    exact fun inside => store.slab.live_not_private live inside isPrivate

end Store

namespace ObjectTaken

variable {ram : Ram} {root : Nat} {v v' : View} {m m' : Machine} {request object : Nat}

theorem kept (taken : ObjectTaken ram v m request object v' m') (pool : Pool ram v m) :
    ∀ frame, v.owner frame ≠ .free → v'.owner frame = v.owner frame := by
  obtain ⟨frames, _, split, _, ownerEq⟩ := taken.took
  intro frame used
  rw [ownerEq, assign_not_mem]
  intro member
  exact used (pool.freeOwned frame (split ▸ List.mem_append_left _ member))

theorem store (taken : ObjectTaken ram v m request object v' m') (old : Store ram root v m) :
    Store ram root v' m' ∧ entries ram v' m' = entries ram v m := by
  have inTables : ∀ address, InTable ram.hhdm v.tables address →
      m'.memory address = m.memory address := by
    intro address inside
    have isTable := old.table_owned inside
    apply taken.quiet
    · intro isPrivate
      have clash := (old.private_owned isPrivate).unique isTable
      contradiction
    · intro isFree
      have clash := isFree.unique isTable
      contradiction
  constructor
  · constructor
    case toPool => exact taken.pool
    case shape =>
      rw [taken.tables]
      exact old.shape.congr inTables
    case tableOwned =>
      intro level place frame present
      rw [taken.tables] at present
      have isTable := old.tableOwned present
      rw [taken.kept old.toPool frame (by rw [isTable]; decide), isTable]
  · unfold entries
    rw [taken.tables]
    exact funext (leafEntry_congr inTables)

/-- The object was not in use. -/
theorem fresh (taken : ObjectTaken ram v m request object v' m') (size : Nat) :
    ¬LiveObject v.slabs size object := by
  intro live
  obtain ⟨size', _, served⟩ := taken.served
  have old : LiveObject v'.slabs size object := (served.live _ _).mpr (Or.inl live)
  have new : LiveObject v'.slabs size' object := (served.live _ _).mpr (Or.inr ⟨rfl, rfl⟩)
  obtain rfl := served.inv.live_size_unique old new
  exact served.fresh live

theorem live (taken : ObjectTaken ram v m request object v' m') {size other : Nat}
    (old : LiveObject v.slabs size other) : LiveObject v'.slabs size other := by
  obtain ⟨_, _, served⟩ := taken.served
  exact (served.live _ _).mpr (Or.inl old)

theorem new (taken : ObjectTaken ram v m request object v' m') {size : Nat}
    (classEq : slabClass request = some size) : LiveObject v'.slabs size object := by
  obtain ⟨_, classEq', served⟩ := taken.served
  obtain rfl := Option.some.inj (classEq.symm.trans classEq')
  exact (served.live _ _).mpr (Or.inr ⟨rfl, rfl⟩)

/-- The objects in use keep their contents. -/
theorem quiet_live (taken : ObjectTaken ram v m request object v' m') (pool : Pool ram v m)
    {size other address : Nat} (old : LiveObject v.slabs size other)
    (inside : InObject other size address) : m'.memory address = m.memory address := by
  apply taken.quiet
  · exact pool.slab.live_not_private old inside
  · intro isFree
    have clash := (pool.live_owned old inside).unique isFree
    contradiction

theorem supplied (taken : ObjectTaken ram v m request object v' m') (pool : Pool ram v m)
    (before : Supplied m) : Supplied m' := by
  obtain ⟨frames, _, split, took, _⟩ := taken.took
  apply took.supplied before
  exact fun member => pool.free_ne_zero (split ▸ List.mem_append_left _ member)

end ObjectTaken

/-! ### Records and blocks -/

/-- The region list and the user's blocks are different objects in use; a block is
its pointer and the size asked for. -/
structure Records (v : View) (m : Machine) (head : Option Nat) (regions : List Region)
    (blocks : List (Nat × Nat)) : Prop where
  listed : Listed m head regions
  nodes : ∀ region ∈ regions, LiveObject v.slabs nodeSize region.node
  blockLive : ∀ block ∈ blocks, ∃ size, slabClass block.2 = some size ∧
    LiveObject v.slabs size block.1
  distinct : (regions.map Region.node ++ blocks.map Prod.fst).Nodup

theorem slabClass_regionSize : slabClass regionSize = some nodeSize := by
  decide

namespace Records

variable {ram : Ram} {root : Nat} {v v' : View} {m m' : Machine} {head : Option Nat}
  {regions front back : List Region} {blocks : List (Nat × Nat)} {prev cur region : Region}

theorem separate (records : Records v m head regions blocks) (inv : SlabInv m v.slabs) :
    Separate (regions.map Region.node) := by
  intro node member other member' address inside inside'
  obtain ⟨region, inRegions, rfl⟩ := List.mem_map.mp member
  obtain ⟨region', inRegions', rfl⟩ := List.mem_map.mp member'
  exact (inv.live_disjoint (records.nodes region inRegions) (records.nodes region' inRegions')
    inside inside').2

theorem nodes_nodup (records : Records v m head regions blocks) :
    (regions.map Region.node).Nodup :=
  (List.nodup_append.mp records.distinct).1

theorem short (records : Records v m head regions blocks) (inv : SlabInv m v.slabs) :
    regions.length < addressSpace := by
  have below : ∀ node ∈ regions.map Region.node, node < addressSpace - 1 := by
    intro node member
    obtain ⟨region, inRegions, rfl⟩ := List.mem_map.mp member
    obtain ⟨isSize, slab, inSlabs, inSlots, _⟩ := records.nodes region inRegions
    have placed := inv.placed nodeSize isSize slab inSlabs
    have second : InObject region.node nodeSize (region.node + 1) := by
      unfold InObject nodeSize
      omega
    have inPage := (slots_inPage inSlots second).1
    unfold InPage pageSize at inPage
    unfold pageSize addressSpace at placed
    unfold addressSpace
    omega
  have few := length_le_of_nodup records.nodes_nodup below
  rw [List.length_map] at few
  unfold addressSpace at *
  omega

/-- Records depend on their own objects and the contents of these. -/
theorem congr (records : Records v m head regions blocks)
    (live : ∀ size object, object ∈ regions.map Region.node ++ blocks.map Prod.fst →
      LiveObject v.slabs size object → LiveObject v'.slabs size object)
    (same : ∀ size object, object ∈ regions.map Region.node ++ blocks.map Prod.fst →
      LiveObject v.slabs size object → ∀ address, InObject object size address →
        m'.memory address = m.memory address) :
    Records v' m' head regions blocks where
  listed := records.listed.congr fun region member =>
    same nodeSize region.node (List.mem_append_left _ (List.mem_map_of_mem member))
      (records.nodes region member)
  nodes := fun region member => live _ _ (List.mem_append_left _ (List.mem_map_of_mem member))
    (records.nodes region member)
  blockLive := by
    intro block member
    obtain ⟨size, classEq, isLive⟩ := records.blockLive block member
    exact ⟨size, classEq,
      live _ _ (List.mem_append_right _ (List.mem_map_of_mem member)) isLive⟩
  distinct := records.distinct

theorem objectTaken (records : Records v m head regions blocks) {request object : Nat}
    (pool : Pool ram v m) (taken : ObjectTaken ram v m request object v' m') :
    Records v' m' head regions blocks ∧ object ∉ regions.map Region.node ∧
      object ∉ blocks.map Prod.fst := by
  refine ⟨records.congr (fun _ _ _ => taken.live) (fun _ _ _ live _ => taken.quiet_live pool live),
    ?_, ?_⟩
  · intro member
    obtain ⟨region, inRegions, rfl⟩ := List.mem_map.mp member
    exact taken.fresh _ (records.nodes region inRegions)
  · intro member
    obtain ⟨block, inBlocks, rfl⟩ := List.mem_map.mp member
    obtain ⟨size, _, live⟩ := records.blockLive block inBlocks
    exact taken.fresh size live

/-- A block more. -/
theorem addBlock (records : Records v m head regions blocks) {request object size : Nat}
    (classEq : slabClass request = some size) (live : LiveObject v.slabs size object)
    (noNode : object ∉ regions.map Region.node) (noBlock : object ∉ blocks.map Prod.fst) :
    Records v m head regions ((object, request) :: blocks) where
  listed := records.listed
  nodes := records.nodes
  blockLive := by
    intro block member
    rcases List.mem_cons.mp member with rfl | older
    · exact ⟨size, classEq, live⟩
    · exact records.blockLive block older
  distinct := by
    rw [List.map_cons]
    apply List.nodup_middle.mpr
    refine List.nodup_cons.mpr ⟨?_, records.distinct⟩
    rw [List.mem_append, not_or]
    exact ⟨noNode, noBlock⟩

/-- The new record, linked between two neighbours. -/
theorem insert (records : Records v m head (front ++ prev :: cur :: back) blocks)
    (inv : SlabInv m v.slabs) {node : Nat} (live : LiveObject v.slabs nodeSize node)
    (noNode : node ∉ (front ++ prev :: cur :: back).map Region.node)
    (noBlock : node ∉ blocks.map Prod.fst) (base length : Nat) (flags : VMMFlags)
    (backing : Backing) :
    Records v
      (setRegionNext (setRegionNext (writeRegion m node base length flags) prev.node (some node))
        node (some cur.node)) head
      (front ++ prev :: ⟨node, base, length, backing⟩ :: cur :: back) blocks where
  listed := by
    apply records.listed.insert base length flags backing records.nodes_nodup noNode
    intro x inX y inY address inside inside'
    have isLive : ∀ z ∈ node :: (front ++ prev :: cur :: back).map Region.node,
        LiveObject v.slabs nodeSize z := by
      intro z member
      rcases List.mem_cons.mp member with rfl | inList
      · exact live
      · obtain ⟨region, inRegions, rfl⟩ := List.mem_map.mp inList
        exact records.nodes region inRegions
    exact (inv.live_disjoint (isLive x inX) (isLive y inY) inside inside').2
  nodes := by
    intro region member
    simp only [List.mem_append, List.mem_cons] at member
    rcases member with inFront | rfl | rfl | rest
    · exact records.nodes region (by simp [inFront])
    · exact records.nodes _ (by simp)
    · exact live
    · exact records.nodes region (by simp [rest])
  blockLive := records.blockLive
  distinct := by
    have older := records.distinct
    have place : (front ++ prev :: ⟨node, base, length, backing⟩ :: cur :: back).map Region.node =
        (front ++ [prev]).map Region.node ++ node :: (cur :: back).map Region.node := by
      simp
    have place' : (front ++ prev :: cur :: back).map Region.node =
        (front ++ [prev]).map Region.node ++ (cur :: back).map Region.node := by
      simp
    rw [place'] at older noNode
    rw [place, List.append_assoc, List.cons_append]
    apply List.nodup_middle.mpr
    refine List.nodup_cons.mpr ⟨?_, by rwa [List.append_assoc] at older⟩
    rw [List.mem_append, not_or] at noNode
    simp only [List.mem_append, not_or]
    exact ⟨noNode.1, noNode.2, noBlock⟩

end Records

/-! ### Giving an object back -/

variable {ram : Ram} {node root : Nat} {v : View} {m m' : Machine}

variable {head : Option Nat} {blocks : List (Nat × Nat)} {base hhdm length : Nat} {flags : VMMFlags}
  {regions : List Region} {v' : View} {t : Machine}

theorem Records.slabDealloc {size object : Nat} (records : Records v m head regions blocks)
    (store : Store ram root v m) (live : LiveObject v.slabs size object)
    (absent : object ∉ regions.map Region.node ++ blocks.map Prod.fst) :
    ∃ slabs', Store ram root { v with slabs := slabs' } (slabDealloc object m) ∧
      entries ram { v with slabs := slabs' } (slabDealloc object m) = entries ram v m ∧
      Records { v with slabs := slabs' } (slabDealloc object m) head regions blocks ∧
      Writes (Owned ram.hhdm v.owner .slab) m (slabDealloc object m) := by
  obtain ⟨slabs', pool, lives, writes⟩ := store.toPool.slabDealloc live
  have inSlabs : Writes (Owned ram.hhdm v.owner .slab) m (Memory.slabDealloc object m) := by
    apply writes.mono
    rintro address (isPrivate | inside)
    · exact store.private_owned isPrivate
    · exact store.live_owned live inside
  have inTables : ∀ address, InTable ram.hhdm v.tables address →
      (Memory.slabDealloc object m).memory address = m.memory address := by
    intro address inside
    apply inSlabs.elsewhere
    intro isSlab
    have clash := isSlab.unique (store.table_owned inside)
    contradiction
  refine ⟨slabs', ?_, funext (leafEntry_congr inTables), ?_, inSlabs⟩
  · exact
      { toPool := pool
        shape := store.shape.congr inTables
        tableOwned := store.tableOwned }
  · apply records.congr
    · intro other object' member isLive
      refine (lives other object').mpr ⟨isLive, ?_⟩
      rintro ⟨_, rfl⟩
      exact absent member
    · intro other object' member isLive address inside
      apply writes.elsewhere
      rintro (isPrivate | inFreed)
      · exact store.slab.live_not_private isLive inside isPrivate
      · have same := (store.slab.live_disjoint isLive live inside inFreed).2
        exact absent (same ▸ member)

/-- Taking a record out of the list and giving its object back. -/
theorem Records.remove {front back : List Region} {prev region : Region}
    (records : Records v m head (front ++ prev :: region :: back) blocks)
    (store : Store ram root v m) :
    ∃ slabs' m', Memory.slabDealloc region.node
        (setRegionNext m prev.node (regionNext m region.node)) = m' ∧
      Store ram root { v with slabs := slabs' } m' ∧
      entries ram { v with slabs := slabs' } m' = entries ram v m ∧
      Records { v with slabs := slabs' } m' head (front ++ prev :: back) blocks ∧
      Writes (Owned ram.hhdm v.owner .slab) m m' := by
  have prevLive := records.nodes prev (by simp)
  have regionLive := records.nodes region (by simp)
  have separate := records.separate store.slab
  have linked := setRegionNext_writes m prev.node (regionNext m region.node)
  obtain ⟨after, sameEntries⟩ := store.writes prevLive linked
  have order : front ++ prev :: region :: back = (front ++ [prev]) ++ region :: back := by simp
  have order' : front ++ prev :: back = (front ++ [prev]) ++ back := by simp
  have distinct := records.distinct
  rw [order, List.map_append, List.map_cons, List.append_assoc, List.cons_append] at distinct
  obtain ⟨absent, distinct'⟩ := List.nodup_cons.mp (List.nodup_middle.mp distinct)
  have rest : Records v (setRegionNext m prev.node (regionNext m region.node)) head
      (front ++ prev :: back) blocks := by
    constructor
    · exact records.listed.remove records.nodes_nodup separate
    · intro other member
      apply records.nodes
      rw [List.mem_append, List.mem_cons] at member ⊢
      rcases member with inFront | isPrev | inBack
      · exact Or.inl inFront
      · exact Or.inr (Or.inl isPrev)
      · exact Or.inr (Or.inr (List.mem_cons_of_mem region inBack))
    · exact records.blockLive
    · rwa [order', List.map_append, List.append_assoc]
  obtain ⟨slabs', final, finalEntries, finalRecords, freed⟩ := rest.slabDealloc after regionLive
    (by rwa [order', List.map_append, List.append_assoc])
  refine ⟨slabs', _, rfl, final, finalEntries.trans sameEntries, finalRecords, ?_⟩
  exact Writes.trans (linked.mono fun address inside => store.live_owned prevLive inside) freed

/-! ### Making a record -/

/-- Writing and linking a record keeps the store. -/
theorem Store.linkRecord (store : Store ram root v m) {prev : Nat}
    (live : LiveObject v.slabs nodeSize node) (prevLive : LiveObject v.slabs nodeSize prev)
    (base length : Nat) (flags : VMMFlags) (next cell : Option Nat) :
    Store ram root v
        (setRegionNext (setRegionNext (writeRegion m node base length flags) prev cell) node next) ∧
      entries ram v
          (setRegionNext (setRegionNext (writeRegion m node base length flags) prev cell) node
            next) = entries ram v m := by
  obtain ⟨first, sameFirst⟩ := store.writes live (writeRegion_writes m node base length flags)
  obtain ⟨second, sameSecond⟩ := first.writes prevLive (setRegionNext_writes _ prev cell)
  obtain ⟨third, sameThird⟩ := second.writes live (setRegionNext_writes _ node next)
  exact ⟨third, sameThird.trans (sameSecond.trans sameFirst)⟩

/-- What `insertRegion` did: a record `node` for the first gap that is big enough. -/
structure Inserted (ram : Ram) (root : Nat) (v : View) (m : Machine) (head : Option Nat)
    (regions : List Region) (blocks : List (Nat × Nat)) (amount node : Nat) (v' : View)
    (m' : Machine) : Prop where
  store : Store ram root v' m'
  entries : entries ram v' m' = entries ram v m
  kept : ∀ frame, v.owner frame ≠ .free → v'.owner frame = v.owner frame
  took : ∃ taken, taken.length ≤ 1 ∧ v.free = taken ++ v'.free ∧ Took taken m m'
  place : ∃ front prev cur back, regions = front ++ prev :: cur :: back ∧
    findGap (wrap (alignUp amount pageSize + pageSize)) regions = some (prev, cur) ∧
    ∀ backing, Records v' m' head
      (front ++ prev :: ⟨node, wrap (prev.base + prev.length), alignUp amount pageSize, backing⟩ ::
        cur :: back) blocks

namespace Records

variable {pagemap : Pagemap} {amount : Nat}

theorem inserted (records : Records v m pagemap.khead regions blocks) (store : Store ram root v m)
    {front back : List Region} {prev cur : Region} {node : Nat}
    (split : regions = front ++ prev :: cur :: back)
    (found : findGap (wrap (alignUp amount pageSize + pageSize)) regions = some (prev, cur))
    (taken : ObjectTaken ram v m regionSize node v' m') (flags : VMMFlags) :
    Inserted ram root v m pagemap.khead regions blocks amount node v'
      (setRegionNext (setRegionNext (writeRegion m' node (wrap (prev.base + prev.length))
        (alignUp amount pageSize) flags) prev.node (some node)) node (some cur.node)) := by
  obtain ⟨after, noNode, noBlock⟩ := records.objectTaken store.toPool taken
  obtain ⟨afterStore, sameEntries⟩ := taken.store store
  obtain ⟨frames, few, splitFree, took, _⟩ := taken.took
  subst split
  have live := taken.new slabClass_regionSize
  have prevLive := after.nodes prev (by simp)
  obtain ⟨linked, linkedEntries⟩ := afterStore.linkRecord live prevLive
    (wrap (prev.base + prev.length)) (alignUp amount pageSize) flags (some cur.node) (some node)
  constructor
  case store => exact linked
  case entries => exact linkedEntries.trans sameEntries
  case kept => exact taken.kept store.toPool
  case took =>
    exact ⟨frames, few, splitFree, ((took.writes (writeRegion_writes _ _ _ _ _)).writes
      (setRegionNext_writes _ _ _)).writes (setRegionNext_writes _ _ _)⟩
  case place =>
    exact ⟨front, prev, cur, back, rfl, found, fun backing =>
      after.insert afterStore.slab live noNode noBlock _ _ flags backing⟩

theorem insertRegion_eq (records : Records v m pagemap.khead regions blocks)
    (inv : SlabInv m v.slabs) (kernel : flags.user = false) {prev cur : Region} {node : Nat}
    (found : findGap (wrap (alignUp amount pageSize + pageSize)) regions = some (prev, cur))
    {hhdm : Nat} (done : slabAlloc hhdm regionSize m = .ok (some node, m')) :
    insertRegion hhdm pagemap amount flags m =
      .ok (node, setRegionNext (setRegionNext (writeRegion m' node (wrap (prev.base + prev.length))
        (alignUp amount pageSize) flags) prev.node (some node)) node (some cur.node)) := by
  simp only [insertRegion, kernel, Bool.false_eq_true, if_false, bind, Except.bind,
    records.listed.calculateRegionLocation_eq (records.short inv), found, location,
    regionNew_eq done]

/-- What an insertion did that returned without having run out of pages. -/
theorem insertRegion_done (records : Records v m pagemap.khead regions blocks)
    (store : Store ram root v m) {node : Nat}
    (done : insertRegion ram.hhdm pagemap amount flags m = .ok (node, m'))
    (supplied : Supplied m') :
    ∃ v', Inserted ram root v m pagemap.khead regions blocks amount node v' m' := by
  have kernel : flags.user = false := by
    cases user : flags.user with
    | false => rfl
    | true => simp [insertRegion, user] at done
  cases found : findGap (wrap (alignUp amount pageSize + pageSize)) regions with
  | none =>
      simp [insertRegion, kernel, bind, Except.bind, found, location,
        records.listed.calculateRegionLocation_eq (records.short store.slab)] at done
  | some pair =>
      obtain ⟨prev, cur⟩ := pair
      obtain ⟨front, back, split, _, _⟩ := findGap_eq_some found
      cases allocated : slabAlloc ram.hhdm regionSize m with
      | error halt =>
          simp [insertRegion, kernel, bind, Except.bind, found, location, regionNew, allocated,
            records.listed.calculateRegionLocation_eq (records.short store.slab)] at done
      | ok answer =>
          obtain ⟨result, after⟩ := answer
          have statics : m'.pmmCalls = after.pmmCalls := by
            cases result with
            | none =>
                simp [insertRegion, kernel, bind, Except.bind, found, location, regionNew,
                  allocated, records.listed.calculateRegionLocation_eq
                    (records.short store.slab)] at done
            | some object =>
                rw [records.insertRegion_eq store.slab kernel found allocated] at done
                obtain ⟨_, rfl⟩ := Prod.mk.inj (Except.ok.inj done)
                rw [(setRegionNext_writes _ _ _).pmmCalls, (setRegionNext_writes _ _ _).pmmCalls,
                  (writeRegion_writes _ _ _ _ _).pmmCalls]
          have suppliedAfter : Supplied after := by
            rw [Supplied, ← statics]
            exact supplied
          obtain ⟨object, v', rfl, taken⟩ := store.toPool.slabAlloc_done (by decide) allocated
            suppliedAfter
          rw [records.insertRegion_eq store.slab kernel found allocated] at done
          obtain ⟨rfl, rfl⟩ := Prod.mk.inj (Except.ok.inj done)
          exact ⟨v', records.inserted store split found taken flags⟩

/-- An insertion runs when there is a gap and a page. -/
theorem insertRegion_runs (records : Records v m pagemap.khead regions blocks)
    (store : Store ram root v m) (kernel : flags.user = false) {prev cur : Region}
    (found : findGap (wrap (alignUp amount pageSize + pageSize)) regions = some (prev, cur))
    (left : v.free ≠ []) :
    ∃ node v' m', insertRegion ram.hhdm pagemap amount flags m = .ok (node, m') ∧
      Inserted ram root v m pagemap.khead regions blocks amount node v' m' := by
  obtain ⟨front, back, split, _, _⟩ := findGap_eq_some found
  obtain ⟨node, v', after, allocated, taken⟩ :=
    store.toPool.slabAlloc_runs (show regionSize ≤ 1024 by decide) left
  exact ⟨node, v', _, records.insertRegion_eq store.slab kernel found allocated,
    records.inserted store split found taken flags⟩

end Records

/-! ### Records at the head of the list -/

/-- A new record in front, written to an object that was taken for it. -/
theorem Records.prepend (records : Records v m head regions blocks) (store : Store ram root v m)
    (new : Region) (taken : ObjectTaken ram v m regionSize new.node v' t)
    (writes : Writes (InObject new.node nodeSize) t m') (next : regionNext m' new.node = head)
    (fields : regionBase m' new.node = new.base ∧ regionLength m' new.node = new.length) :
    Store ram root v' m' ∧ entries ram v' m' = entries ram v m ∧
      Records v' m' (some new.node) (new :: regions) blocks := by
  obtain ⟨after, noNode, noBlock⟩ := records.objectTaken store.toPool taken
  obtain ⟨afterStore, sameEntries⟩ := taken.store store
  have live := taken.new slabClass_regionSize
  obtain ⟨final, finalEntries⟩ := afterStore.writes live writes
  refine ⟨final, finalEntries.trans sameEntries, ?_⟩
  have kept : Records v' m' head regions blocks := by
    apply after.congr
    · exact fun _ _ _ isLive => isLive
    · intro size object member isLive address inside
      apply writes.elsewhere
      intro inNew
      have same := (afterStore.slab.live_disjoint isLive live inside inNew).2
      rcases List.mem_append.mp member with inRegions | inBlocks
      · exact noNode (same ▸ inRegions)
      · exact noBlock (same ▸ inBlocks)
  constructor
  · refine Listed.cons ?_ fields
    rw [next]
    exact kept.listed
  · intro region member
    rcases List.mem_cons.mp member with rfl | older
    · exact live
    · exact kept.nodes region older
  · exact kept.blockLive
  · rw [List.map_cons, List.cons_append]
    refine List.nodup_cons.mpr ⟨?_, kept.distinct⟩
    rw [List.mem_append, not_or]
    exact ⟨noNode, noBlock⟩

/-- The empty list. -/
theorem Records.none (v : View) (m : Machine) : Records v m none [] [] where
  listed :=
    { linked := rfl
      fields := fun _ member => absurd member List.not_mem_nil }
  nodes := fun _ member => absurd member List.not_mem_nil
  blockLive := fun _ member => absurd member List.not_mem_nil
  distinct := List.nodup_nil

theorem regionNew_ok (done : regionNew hhdm base length flags m = .ok (node, m')) :
    ∃ t, slabAlloc hhdm regionSize m = .ok (some node, t) ∧
      m' = writeRegion t node base length flags := by
  obtain ⟨⟨object, t⟩, allocated, rest⟩ := ok_of_bind done
  cases object with
  | none => contradiction
  | some object =>
      rw [regionNew_eq allocated] at done
      obtain ⟨rfl, rfl⟩ := Prod.mk.inj (Except.ok.inj done)
      exact ⟨t, allocated, rfl⟩

theorem regionNew_allocates (done : regionNew hhdm base length flags m = .ok (node, m')) :
    Allocates m m' := by
  obtain ⟨t, allocated, rfl⟩ := regionNew_ok done
  exact (slabAlloc_allocates allocated).trans
    (writeRegion_writes t node base length flags).allocates

theorem Store.regionNew_done (store : Store ram root v m)
    (done : regionNew ram.hhdm base length flags m = .ok (node, m')) (supplied : Supplied m') :
    ∃ v' t, ObjectTaken ram v m regionSize node v' t ∧
      m' = writeRegion t node base length flags := by
  obtain ⟨t, allocated, rfl⟩ := regionNew_ok done
  have suppliedBefore : Supplied t :=
    supplied.before (writeRegion_writes t node base length flags).grows
  obtain ⟨object, v', same, taken⟩ :=
    store.toPool.slabAlloc_done (by decide) allocated suppliedBefore
  obtain rfl : node = object := Option.some.inj same
  exact ⟨v', t, taken, rfl⟩

theorem Store.regionNew_runs (store : Store ram root v m) (left : v.free ≠ []) (base length : Nat)
    (flags : VMMFlags) :
    ∃ node v' t, regionNew ram.hhdm base length flags m =
        .ok (node, writeRegion t node base length flags) ∧
      ObjectTaken ram v m regionSize node v' t ∧ v.free.length ≤ v'.free.length + 1 := by
  obtain ⟨node, v', t, allocated, taken⟩ :=
    store.toPool.slabAlloc_runs (show regionSize ≤ 1024 by decide) left
  obtain ⟨frames, few, split, _⟩ := taken.took
  refine ⟨node, v', t, regionNew_eq allocated, taken, ?_⟩
  rw [split, List.length_append]
  omega

/-- A new record leaves the tables alone. -/
theorem ObjectTaken.written (taken : ObjectTaken ram v m regionSize node v' t)
    (store : Store ram root v m) (base length : Nat) (flags : VMMFlags) :
    Store ram root v' (writeRegion t node base length flags) :=
  ((taken.store store).1.writes (taken.new slabClass_regionSize)
    (writeRegion_writes t node base length flags)).1

end NyauxKernel.Memory
