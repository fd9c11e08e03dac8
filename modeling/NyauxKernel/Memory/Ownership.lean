/-
Who owns a frame.

Every frame that the page allocator manages belongs to one part of the kernel:
the free chain, the slabs, the page tables, or a page of a region.  Pages of
different frames are apart, so each part can be changed without a look at the
others.
-/

import NyauxKernel.Memory.SlabRuns
import NyauxKernel.Memory.TableWalk

namespace NyauxKernel.Memory

open RadixTree ExceptFold

/-! ### Owners -/

inductive Owner
  | outside
  | free
  | slab
  | table
  | page (number : Nat)
deriving DecidableEq

/-- A frame that can be linked and entered in a table, and whose page in the direct map is
inside the address space. -/
structure Usable (hhdm frame : Nat) : Prop where
  frameOk : FrameOk frame
  real : frame ≠ 0
  pageOk : PageOk hhdm frame

/-- The frames that the page allocator was given, and the direct map. -/
structure Ram where
  hhdm : Nat
  frames : List Nat
  usable : ∀ frame ∈ frames, Usable hhdm frame

/-- An address in the page of a frame with a given owner. -/
def Owned (hhdm : Nat) (owner : Nat → Owner) (who : Owner) (address : Nat) : Prop :=
  ∃ frame, frame % pageSize = 0 ∧ owner frame = who ∧ InPage (frame + hhdm) address

theorem Owned.unique {hhdm address : Nat} {owner : Nat → Owner} {who other : Owner}
    (first : Owned hhdm owner who address) (second : Owned hhdm owner other address) :
    who = other := by
  obtain ⟨frame, aligned, rfl, inside⟩ := first
  obtain ⟨frame', aligned', rfl, inside'⟩ := second
  rw [inPage_unique hhdm aligned aligned' inside inside']

/-- The owners after `frames` were given to `who`. -/
def assign (frames : List Nat) (who : Owner) (owner : Nat → Owner) : Nat → Owner :=
  fun frame => if frame ∈ frames then who else owner frame

variable {m m' : Machine} {frames taken : List Nat} {frame : Nat}

theorem assign_mem (who : Owner) (owner : Nat → Owner) (member : frame ∈ frames) :
    assign frames who owner frame = who :=
  if_pos member

theorem assign_not_mem (who : Owner) (owner : Nat → Owner) (absent : frame ∉ frames) :
    assign frames who owner frame = owner frame :=
  if_neg absent

theorem assign_nil (who : Owner) (owner : Nat → Owner) : assign [] who owner = owner :=
  funext fun _ => assign_not_mem who owner List.not_mem_nil

/-- What the machine's memory is used for. -/
structure View where
  owner : Nat → Owner
  free : List Nat
  slabs : Nat → List Slab
  tables : Nat → Nat → Option Nat

/-! ### The free chain and the slabs -/

structure Pool (ram : Ram) (v : View) (m : Machine) : Prop where
  chain : ∃ head, m.freelist = some head ∧ FreeChain ram.hhdm m.memory head v.free
  freeOwned : ∀ frame ∈ v.free, v.owner frame = .free
  managed : ∀ frame, v.owner frame ≠ .outside → frame ∈ ram.frames
  slab : SlabInv m v.slabs
  slabOwned : ∀ page, SlabPage v.slabs page →
    ∃ frame, page = frame + ram.hhdm ∧ v.owner frame = .slab

/-- No page was asked for while the free list was empty: `allocate_page` never took
frame zero. -/
def Supplied (m : Machine) : Prop := PmmCall.allocated 0 ∉ m.pmmCalls

theorem Supplied.before (supplied : Supplied m') (grows : Grows m m') : Supplied m :=
  fun member => supplied (grows.subset member)

theorem Took.ne_zero (took : Took taken m m') (supplied : Supplied m') : 0 ∉ taken := by
  intro member
  apply supplied
  rw [took.calls]
  exact List.mem_append_right _ (List.mem_map_of_mem member)

theorem Took.supplied (took : Took taken m m') (supplied : Supplied m) (nonzero : 0 ∉ taken) :
    Supplied m' := by
  intro member
  rw [took.calls] at member
  rcases List.mem_append.mp member with old | new
  · exact supplied old
  · obtain ⟨frame, inTaken, same⟩ := List.mem_map.mp new
    exact nonzero (PmmCall.allocated.inj same ▸ inTaken)

namespace Pool

variable {ram : Ram} {v : View}

theorem ready (pool : Pool ram v m) : m.freelist ≠ none := by
  obtain ⟨head, atHead, _⟩ := pool.chain
  rw [atHead]
  exact Option.some_ne_none head

theorem usable (pool : Pool ram v m) {frame : Nat} {who : Owner} (owned : v.owner frame = who)
    (inside : who ≠ .outside) : Usable ram.hhdm frame :=
  ram.usable frame (pool.managed frame (owned ▸ inside))

theorem free_nodup (pool : Pool ram v m) : v.free.Nodup := by
  obtain ⟨_, _, chain⟩ := pool.chain
  exact chain.distinct

theorem free_ne_zero (pool : Pool ram v m) : 0 ∉ v.free := by
  obtain ⟨_, _, chain⟩ := pool.chain
  exact chain.nonzero

theorem free_owned (pool : Pool ram v m) {frame address : Nat} (member : frame ∈ v.free)
    (inside : InPage (frame + ram.hhdm) address) : Owned ram.hhdm v.owner .free address := by
  have owned := pool.freeOwned frame member
  exact ⟨frame, (pool.usable owned (by decide)).frameOk.aligned, owned, inside⟩

theorem page_owned (pool : Pool ram v m) {page address : Nat} (isPage : SlabPage v.slabs page)
    (inside : InPage page address) : Owned ram.hhdm v.owner .slab address := by
  obtain ⟨frame, rfl, owned⟩ := pool.slabOwned page isPage
  exact ⟨frame, (pool.usable owned (by decide)).frameOk.aligned, owned, inside⟩

theorem private_owned (pool : Pool ram v m) {address : Nat}
    (isPrivate : SlabPrivate v.slabs address) : Owned ram.hhdm v.owner .slab address := by
  obtain ⟨size, isSize, slab, member, inside⟩ := isPrivate
  exact pool.page_owned ⟨size, isSize, slab, member, rfl⟩
    (pool.slab.private_inPage isSize member inside)

theorem live_owned (pool : Pool ram v m) {size object address : Nat}
    (live : LiveObject v.slabs size object) (inside : InObject object size address) :
    Owned ram.hhdm v.owner .slab address := by
  obtain ⟨isSize, slab, member, inSlots, _⟩ := live
  exact pool.page_owned ⟨size, isSize, slab, member, rfl⟩ (slots_inPage inSlots inside).1

/-- Memory that is neither free nor private to the slabs is free to change. -/
theorem congr (pool : Pool ram v m) (freelist : m'.freelist = m.freelist)
    (caches : m'.slabCaches = m.slabCaches)
    (sameFree : ∀ address, Owned ram.hhdm v.owner .free address →
      m'.memory address = m.memory address)
    (sameSlab : ∀ address, SlabPrivate v.slabs address → m'.memory address = m.memory address) :
    Pool ram v m' where
  chain := by
    obtain ⟨head, atHead, chain⟩ := pool.chain
    refine ⟨head, by rw [freelist, atHead], chain.congr ?_⟩
    intro frame member
    exact sameFree _ (pool.free_owned member (inPage_start _))
  freeOwned := pool.freeOwned
  managed := pool.managed
  slab := pool.slab.congr caches sameSlab
  slabOwned := pool.slabOwned

/-- The next page is there unless the chain is empty. -/
theorem free_of_head (pool : Pool ram v m) {phy : Nat} (atHead : m.freelist = some phy)
    (real : phy ≠ 0) : ∃ rest, v.free = phy :: rest := by
  obtain ⟨head, atHead', chain⟩ := pool.chain
  obtain rfl : phy = head := Option.some.inj (atHead.symm.trans atHead')
  cases list : v.free with
  | nil => exact absurd (chain.head_eq_zero_iff.mpr list) real
  | cons frame rest =>
      rw [list] at chain
      exact ⟨rest, by rw [chain.linked.1]⟩

/-- The first free frame goes to another owner. -/
theorem pop (pool : Pool ram v m) {phy : Nat} {rest : List Nat} (split : v.free = phy :: rest)
    (who : Owner) :
    m.freelist = some phy ∧
      Pool ram { v with owner := assign [phy] who v.owner, free := rest }
        (popped ram.hhdm m phy) := by
  obtain ⟨head, atHead, chain⟩ := pool.chain
  rw [split] at chain
  obtain ⟨rfl, tail⟩ := chain.pop
  have owned : v.owner head = .free := pool.freeOwned head (split ▸ List.mem_cons_self)
  have apart : head ∉ rest := (List.nodup_cons.mp chain.distinct).1
  refine ⟨atHead, ?_⟩
  constructor
  · exact ⟨_, rfl, tail⟩
  · intro frame member
    have other : frame ∉ [head] := by
      rw [List.mem_singleton]
      rintro rfl
      exact apart member
    exact (assign_not_mem who v.owner other).trans
      (pool.freeOwned frame (split ▸ List.mem_cons_of_mem head member))
  · intro frame inside
    by_cases same : frame ∈ [head]
    · rw [List.mem_singleton.mp same]
      exact pool.managed head (owned ▸ by decide)
    · exact pool.managed frame (assign_not_mem who v.owner same ▸ inside)
  · refine pool.slab.congr ?_ ?_
    · rfl
    · intro address isPrivate
      apply WordMemory.zero_outside
      intro inNew
      have clash := (pool.private_owned isPrivate).unique
        (pool.free_owned (split ▸ List.mem_cons_self) inNew)
      contradiction
  · intro page isPage
    obtain ⟨frame, pageEq, isSlab⟩ := pool.slabOwned page isPage
    refine ⟨frame, pageEq, (assign_not_mem who v.owner ?_).trans isSlab⟩
    rw [List.mem_singleton]
    rintro rfl
    rw [owned] at isSlab
    contradiction

end Pool

/-! ### Objects -/

/-- An object was taken for a request: from a slab that was there, or from one that
was made of a free frame. -/
structure ObjectTaken (ram : Ram) (v : View) (m : Machine) (request object : Nat) (v' : View)
    (m' : Machine) : Prop where
  served : ∃ size, slabClass request = some size ∧
    SlabInv.Served v.slabs size object m' v'.slabs
  pool : Pool ram v' m'
  took : ∃ taken, taken.length ≤ 1 ∧ v.free = taken ++ v'.free ∧ Took taken m m' ∧
    v'.owner = assign taken .slab v.owner
  tables : v'.tables = v.tables
  quiet : ∀ address, ¬SlabPrivate v.slabs address → ¬Owned ram.hhdm v.owner .free address →
    m'.memory address = m.memory address

namespace Pool

variable {ram : Ram} {v : View} {request : Nat}

variable {object phy size : Nat} {slabs' : Nat → List Slab}

theorem taken_present (pool : Pool ram v m) (classEq : slabClass request = some size)
    (served : SlabInv.Served v.slabs size object m' slabs')
    (writes : Writes (SlabPrivate v.slabs) m m')
    (pages : ∀ page, SlabPage slabs' page ↔ SlabPage v.slabs page) :
    ObjectTaken ram v m request object { v with slabs := slabs' } m' where
  served := ⟨size, classEq, served⟩
  pool :=
    { chain := by
        obtain ⟨head, atHead, chain⟩ := pool.chain
        refine ⟨head, by rw [writes.freelist, atHead], chain.congr ?_⟩
        intro frame member
        apply writes.elsewhere
        intro isPrivate
        have clash := (pool.private_owned isPrivate).unique
          (pool.free_owned member (inPage_start _))
        contradiction
      freeOwned := pool.freeOwned
      managed := pool.managed
      slab := served.inv
      slabOwned := fun page isPage => pool.slabOwned page ((pages page).mp isPage) }
  took := by
    refine ⟨[], Nat.zero_le 1, rfl, ?_, (assign_nil .slab v.owner).symm⟩
    exact
      { calls := by rw [writes.pmmCalls]; exact (List.append_nil _).symm
        ready := by rw [writes.freelist]; exact pool.ready
        slabCaches := writes.slabCaches
        kermap := writes.kermap
        cr3 := writes.cr3 }
  tables := rfl
  quiet := fun address outside _ => writes.elsewhere address outside

theorem taken_new (pool : Pool ram v m) {rest : List Nat} (split : v.free = phy :: rest)
    (classEq : slabClass request = some size)
    (served : SlabInv.Served v.slabs size object m' slabs')
    (writes : Writes (fun address => SlabPrivate v.slabs address ∨
      InPage (phy + ram.hhdm) address) (popped ram.hhdm m phy) m')
    (pages : ∀ page, SlabPage slabs' page ↔ SlabPage v.slabs page ∨ page = phy + ram.hhdm) :
    ObjectTaken ram v m request object
      { v with owner := assign [phy] .slab v.owner, free := rest, slabs := slabs' } m' := by
  have inFree : phy ∈ v.free := split ▸ List.mem_cons_self
  have popPool := (pool.pop split .slab).2
  constructor
  · exact ⟨size, classEq, served⟩
  · constructor
    · obtain ⟨head, atHead, chain⟩ := popPool.chain
      refine ⟨head, by rw [writes.freelist, atHead], chain.congr ?_⟩
      intro frame member
      apply writes.elsewhere
      have owned := popPool.free_owned member (inPage_start (frame + ram.hhdm))
      rintro (isPrivate | inNew)
      · have clash := (popPool.private_owned isPrivate).unique owned
        contradiction
      · have new : Owned ram.hhdm (assign [phy] .slab v.owner) .slab (frame + ram.hhdm) :=
          ⟨phy, (pool.usable (pool.freeOwned phy inFree) (by decide)).frameOk.aligned,
            assign_mem .slab v.owner List.mem_cons_self, inNew⟩
        have clash := new.unique owned
        contradiction
    · exact popPool.freeOwned
    · exact popPool.managed
    · exact served.inv
    · intro page isPage
      rcases (pages page).mp isPage with old | rfl
      · exact popPool.slabOwned page old
      · exact ⟨phy, rfl, assign_mem .slab v.owner List.mem_cons_self⟩
  · refine ⟨[phy], Nat.le_refl 1, split, ?_, rfl⟩
    exact
      { calls := writes.pmmCalls
        ready := by rw [writes.freelist]; exact Option.some_ne_none _
        slabCaches := writes.slabCaches
        kermap := writes.kermap
        cr3 := writes.cr3 }
  · rfl
  · intro address outside notFree
    rw [writes.elsewhere]
    · exact WordMemory.zero_outside fun inNew => notFree (pool.free_owned inFree inNew)
    · rintro (isPrivate | inNew)
      · exact outside isPrivate
      · exact notFree (pool.free_owned inFree inNew)

/-- A free frame can become a slab. -/
theorem pageReady (pool : Pool ram v m) (member : phy ∈ v.free) :
    PageReady ram.hhdm v.slabs phy where
  toPageOk := (pool.usable (pool.freeOwned phy member) (by decide)).pageOk
  unused := by
    intro isPage
    have clash := (pool.page_owned isPage (inPage_start _)).unique
      (pool.free_owned member (inPage_start _))
    contradiction

/-- `slab_alloc` on a machine that has a page left. -/
theorem slabAlloc_runs (pool : Pool ram v m) (small : request ≤ 1024) (left : v.free ≠ []) :
    ∃ object v' m', slabAlloc ram.hhdm request m = .ok (some object, m') ∧
      ObjectTaken ram v m request object v' m' := by
  obtain ⟨phy, rest, split⟩ := List.exists_cons_of_ne_nil left
  have atHead := (pool.pop split .slab).1
  obtain ⟨cache, member, classEq, allocEq⟩ := pool.slab.slabAlloc_eq ram.hhdm small
  rcases pool.slab.slabCacheAlloc_cases ram.hhdm member with
    ⟨object, m', slabs', allocated, served, writes, pages⟩ | ⟨_, grown⟩
  · refine ⟨object, _, m', ?_, pool.taken_present classEq served writes pages⟩
    rw [allocEq, allocated]
    rfl
  · obtain ⟨taken, object, m', slabs', takenEq, allocated, served, writes, pages⟩ :=
      grown phy atHead (pool.pageReady (split ▸ List.mem_cons_self))
    obtain rfl : popped ram.hhdm m phy = taken :=
      (Prod.mk.inj (Except.ok.inj ((allocatePage_popped atHead).symm.trans takenEq))).2
    refine ⟨object, _, m', ?_, pool.taken_new split classEq served writes pages⟩
    rw [allocEq, allocated]
    rfl

/-- What a `slab_alloc` did that returned without having run out of pages. -/
theorem slabAlloc_done (pool : Pool ram v m) (small : request ≤ 1024) {result : Option Nat}
    (done : slabAlloc ram.hhdm request m = .ok (result, m')) (supplied : Supplied m') :
    ∃ object v', result = some object ∧ ObjectTaken ram v m request object v' m' := by
  by_cases left : v.free = []
  · obtain ⟨cache, member, classEq, allocEq⟩ := pool.slab.slabAlloc_eq ram.hhdm small
    rw [allocEq] at done
    obtain ⟨⟨object, after⟩, allotted, rest⟩ := ok_of_bind done
    obtain ⟨rfl, rfl⟩ := Prod.mk.inj (Except.ok.inj rest)
    rcases pool.slab.slabCacheAlloc_cases ram.hhdm member with
      ⟨object', m', slabs', allocated, served, writes, pages⟩ | ⟨full, _⟩
    · obtain ⟨rfl, rfl⟩ := Prod.mk.inj (Except.ok.inj (allotted.symm.trans allocated))
      exact ⟨object, _, rfl, pool.taken_present classEq served writes pages⟩
    · -- a page was taken from the empty chain
      obtain ⟨phy, atHead, taken⟩ := pool.slab.full_takes_page member full allotted
      obtain ⟨head, atHead', chain⟩ := pool.chain
      obtain rfl : phy = head := Option.some.inj (atHead.symm.trans atHead')
      obtain rfl : phy = 0 := chain.head_eq_zero_iff.mpr left
      exact absurd (mem_calls_of_mem_takenFrames taken) supplied
  · obtain ⟨object, v', after, again, taken⟩ := pool.slabAlloc_runs small left
    obtain ⟨rfl, rfl⟩ := Prod.mk.inj (Except.ok.inj (done.symm.trans again))
    exact ⟨object, v', rfl, taken⟩

/-- An object was given back. -/
theorem slabDealloc (pool : Pool ram v m) (live : LiveObject v.slabs size object) :
    ∃ slabs', Pool ram { v with slabs := slabs' } (slabDealloc object m) ∧
      (∀ other o, LiveObject slabs' other o ↔
        LiveObject v.slabs other o ∧ ¬(other = size ∧ o = object)) ∧
      Writes (fun address => SlabPrivate v.slabs address ∨ InObject object size address) m
        (slabDealloc object m) := by
  obtain ⟨slabs', inv, lives, writes, pages⟩ := pool.slab.dealloc live
  refine ⟨slabs', ?_, lives, writes⟩
  constructor
  · obtain ⟨head, atHead, chain⟩ := pool.chain
    refine ⟨head, by rw [writes.freelist, atHead], chain.congr ?_⟩
    intro frame member
    apply writes.elsewhere
    have owned := pool.free_owned member (inPage_start (frame + ram.hhdm))
    rintro (isPrivate | inObject)
    · have clash := (pool.private_owned isPrivate).unique owned
      contradiction
    · have clash := (pool.live_owned live inObject).unique owned
      contradiction
  · exact pool.freeOwned
  · exact pool.managed
  · exact inv
  · exact fun page isPage => pool.slabOwned page ((pages page).mp isPage)

end Pool

end NyauxKernel.Memory
