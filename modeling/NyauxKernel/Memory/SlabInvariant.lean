/-
The representation invariant of the slab allocator.

Every cache is a finite chain of slabs of its size on distinct pages; in each
slab the free chain and the live objects are all the objects.  The allocator is
correct for any page allocator that hands out aligned, unused pages.
-/

import NyauxKernel.Memory.SlabShape

namespace NyauxKernel.Memory

open LinkPath

/-! ### The invariant -/

/-- The slabs of each cache, by the cache's size. -/
structure SlabInv (m : Machine) (slabs : Nat → List Slab) : Prop where
  sizes : m.slabCaches.map SlabCache.size = slabSizes
  linked : ∀ cache ∈ m.slabCaches,
    Path (fun page => m.memory (page + otherSlabsOffset)) cache.slabs
      ((slabs cache.size).map Slab.page) 0
  nonempty : ∀ size ∈ slabSizes, slabs size ≠ []
  shaped : ∀ size ∈ slabSizes, ∀ slab ∈ slabs size, SlabOk m.memory size slab
  placed : ∀ size ∈ slabSizes, ∀ slab ∈ slabs size,
    slab.page % pageSize = 0 ∧ 0 < slab.page ∧ slab.page + pageSize ≤ addressSpace
  distinct : ∀ size ∈ slabSizes, ((slabs size).map Slab.page).Nodup
  apart : ∀ size ∈ slabSizes, ∀ other ∈ slabSizes, ∀ slab ∈ slabs size,
    ∀ slab' ∈ slabs other, slab.page = slab'.page → size = other

/-- The page of a slab. -/
def SlabPage (slabs : Nat → List Slab) (page : Nat) : Prop :=
  ∃ size ∈ slabSizes, ∃ slab ∈ slabs size, slab.page = page

/-- An object of some slab that is not free. -/
def LiveObject (slabs : Nat → List Slab) (size object : Nat) : Prop :=
  size ∈ slabSizes ∧ ∃ slab ∈ slabs size, object ∈ slots slab.page size ∧ object ∉ slab.free

/-- A header word or a byte of a free object of some slab. -/
def SlabPrivate (slabs : Nat → List Slab) (address : Nat) : Prop :=
  ∃ size ∈ slabSizes, ∃ slab ∈ slabs size, slab.Private size address

theorem slabSizes_pos : ∀ size ∈ slabSizes, 0 < size := by
  decide

theorem slabSizes_le : ∀ size ∈ slabSizes, size ≤ pageSize - slabHeaderSize := by
  decide

/-- The frame `phy` makes an aligned page inside the address space. -/
structure PageOk (hhdm : Nat) (phy : Nat) : Prop where
  aligned : (phy + hhdm) % pageSize = 0
  real : 0 < phy + hhdm
  bounded : phy + hhdm + pageSize ≤ addressSpace

/-- The page of the frame `phy` is used by no slab. -/
structure PageReady (hhdm : Nat) (slabs : Nat → List Slab) (phy : Nat) : Prop
    extends PageOk hhdm phy where
  unused : ¬SlabPage slabs (phy + hhdm)

namespace SlabInv

variable {hhdm size object : Nat} {m m' : Machine} {slabs : Nat → List Slab} {slab slab' : Slab}
  {front back : List Slab}

variable {address other phy start : Nat} {last : Slab} {cache : SlabCache}

theorem slab_unique (inv : SlabInv m slabs) (isSize : size ∈ slabSizes)
    (isOther : other ∈ slabSizes) (member : slab ∈ slabs size) (member' : slab' ∈ slabs other)
    (same : slab.page = slab'.page) : size = other ∧ slab = slab' := by
  obtain rfl := inv.apart size isSize other isOther slab member slab' member' same
  exact ⟨rfl, List.inj_on_of_nodup_map (inv.distinct size isSize) member member' same⟩

/-- Private words lie in the slab's own page. -/
theorem private_inPage (inv : SlabInv m slabs) (isSize : size ∈ slabSizes)
    (member : slab ∈ slabs size) (inside : slab.Private size address) :
    InPage slab.page address := by
  rcases inside with ⟨low, high⟩ | ⟨object, free, inObject⟩
  · unfold InPage pageSize
    unfold slabHeaderSize at high
    omega
  · exact (slots_inPage ((inv.shaped size isSize slab member).inSlots object free) inObject).1

/-- Two slabs with a common address are one. -/
theorem slab_of_inPage (inv : SlabInv m slabs) (isSize : size ∈ slabSizes)
    (isOther : other ∈ slabSizes) (member : slab ∈ slabs size) (member' : slab' ∈ slabs other)
    (inside : InPage slab.page address) (inside' : InPage slab'.page address) :
    size = other ∧ slab = slab' := by
  apply inv.slab_unique isSize isOther member member'
  exact inPage_unique 0 (inv.placed size isSize slab member).1
    (inv.placed other isOther slab' member').1 inside inside'

/-- Live objects keep clear of private words. -/
theorem live_not_private (inv : SlabInv m slabs) (live : LiveObject slabs size object)
    (inside : InObject object size address) : ¬SlabPrivate slabs address := by
  rintro ⟨other, isOther, slab', member', isPrivate⟩
  obtain ⟨isSize, slab, member, inSlots, notFree⟩ := live
  have inPage := slots_inPage inSlots inside
  obtain ⟨rfl, rfl⟩ := inv.slab_of_inPage isSize isOther member member' inPage.1
    (inv.private_inPage isOther member' isPrivate)
  rcases isPrivate with ⟨_, high⟩ | ⟨free, isFree, inFree⟩
  · omega
  · have same := slots_disjoint inSlots ((inv.shaped size isSize slab member).inSlots free isFree)
      inside inFree
    exact notFree (same ▸ isFree)

/-- Live objects do not overlap. -/
theorem live_disjoint (inv : SlabInv m slabs) {object' : Nat} (live : LiveObject slabs size object)
    (live' : LiveObject slabs other object') (inside : InObject object size address)
    (inside' : InObject object' other address) : size = other ∧ object = object' := by
  obtain ⟨isSize, slab, member, inSlots, _⟩ := live
  obtain ⟨isOther, slab', member', inSlots', _⟩ := live'
  obtain ⟨rfl, rfl⟩ := inv.slab_of_inPage isSize isOther member member'
    (slots_inPage inSlots inside).1 (slots_inPage inSlots' inside').1
  exact ⟨rfl, slots_disjoint inSlots inSlots' inside inside'⟩

/-- The invariant rests on private words only. -/
theorem congr (inv : SlabInv m slabs) (caches : m'.slabCaches = m.slabCaches)
    (same : ∀ address, SlabPrivate slabs address → m'.memory address = m.memory address) :
    SlabInv m' slabs where
  sizes := by rw [caches, inv.sizes]
  linked := by
    intro cache member
    rw [caches] at member
    have isSize : cache.size ∈ slabSizes := inv.sizes ▸ List.mem_map_of_mem member
    apply (inv.linked cache member).congr
    intro page inPages
    obtain ⟨slab, inSlabs, rfl⟩ := List.mem_map.mp inPages
    exact same _ ⟨_, isSize, slab, inSlabs, slab.private_header _ (by decide)⟩
  nonempty := inv.nonempty
  shaped := by
    intro size isSize slab member
    apply (inv.shaped size isSize slab member).congr
    · intro offset below
      exact same _ ⟨size, isSize, slab, member,
        slab.private_header size (lt_trans below (by decide))⟩
    · intro object free
      exact same _ ⟨size, isSize, slab, member,
        Or.inr ⟨object, free, inObject_start object (slabSizes_pos size isSize)⟩⟩
  placed := inv.placed
  distinct := inv.distinct
  apart := inv.apart

/-- Another view of the same pages. -/
theorem ofSamePages (inv : SlabInv m slabs) {slabs' : Nat → List Slab}
    (pages : ∀ size, (slabs' size).map Slab.page = (slabs size).map Slab.page)
    (caches : m'.slabCaches = m.slabCaches)
    (links : ∀ size ∈ slabSizes, ∀ slab ∈ slabs size,
      m'.memory (slab.page + otherSlabsOffset) = m.memory (slab.page + otherSlabsOffset))
    (shaped : ∀ size ∈ slabSizes, ∀ slab ∈ slabs' size, SlabOk m'.memory size slab) :
    SlabInv m' slabs' := by
  have original : ∀ {size : Nat} {slab : Slab}, slab ∈ slabs' size →
      ∃ old ∈ slabs size, old.page = slab.page := by
    intro size slab member
    have inPages : slab.page ∈ (slabs size).map Slab.page :=
      pages size ▸ List.mem_map_of_mem member
    exact List.mem_map.mp inPages
  constructor
  case sizes => rw [caches, inv.sizes]
  case linked =>
    intro cache member
    rw [caches] at member
    have isSize : cache.size ∈ slabSizes := inv.sizes ▸ List.mem_map_of_mem member
    rw [pages]
    apply (inv.linked cache member).congr
    intro page inPages
    obtain ⟨slab, inSlabs, rfl⟩ := List.mem_map.mp inPages
    exact links _ isSize slab inSlabs
  case nonempty =>
    intro size isSize empty
    apply inv.nonempty size isSize
    have none := pages size
    rw [empty] at none
    exact List.map_eq_nil_iff.mp none.symm
  case shaped => exact shaped
  case placed =>
    intro size isSize slab member
    obtain ⟨old, inSlabs, same⟩ := original member
    rw [← same]
    exact inv.placed size isSize old inSlabs
  case distinct =>
    intro size isSize
    rw [pages]
    exact inv.distinct size isSize
  case apart =>
    intro size isSize other isOther slab member slab' member' same
    obtain ⟨old, inSlabs, samePage⟩ := original member
    obtain ⟨old', inSlabs', samePage'⟩ := original member'
    exact inv.apart size isSize other isOther old inSlabs old' inSlabs'
      (samePage.trans (same.trans samePage'.symm))

/-- Replacing the free chain of one slab, by writes to its page. -/
theorem replace (inv : SlabInv m slabs) (isSize : size ∈ slabSizes)
    (split : slabs size = front ++ slab :: back) (free : List Nat)
    (writes : Writes (InPage slab.page) m m')
    (otherSlabs : m'.memory (slab.page + otherSlabsOffset) =
      m.memory (slab.page + otherSlabsOffset))
    (shape : SlabOk m'.memory size ⟨slab.page, free⟩) :
    SlabInv m' (Function.update slabs size (front ++ ⟨slab.page, free⟩ :: back)) := by
  have member : slab ∈ slabs size := by rw [split]; simp
  -- every other slab is on another page, out of reach of the writes
  have quiet : ∀ {other : Nat} {slab' : Slab}, other ∈ slabSizes → slab' ∈ slabs other →
      slab' ≠ slab → ∀ address, InPage slab'.page address →
      m'.memory address = m.memory address := by
    intro other slab' isOther member' different address inside
    apply writes.elsewhere
    intro inside'
    exact different (inv.slab_of_inPage isOther isSize member' member inside inside').2
  have kept : ∀ {other : Nat} {slab' : Slab}, other ∈ slabSizes → slab' ∈ slabs other →
      slab' ≠ slab → SlabOk m'.memory other slab' := by
    intro other slab' isOther member' different
    apply (inv.shaped other isOther slab' member').congr
    · intro offset below
      exact quiet isOther member' different _ (inv.private_inPage isOther member'
        (slab'.private_header other (lt_trans below (by decide))))
    · intro object isFree
      exact quiet isOther member' different object (inv.private_inPage isOther member'
        (Or.inr ⟨object, isFree, inObject_start object (slabSizes_pos other isOther)⟩))
  apply inv.ofSamePages
  · intro other
    by_cases same : other = size
    · rw [same, Function.update_self, split, List.map_append, List.map_append, List.map_cons,
        List.map_cons]
    · rw [Function.update_of_ne same]
  · exact writes.slabCaches
  · intro other isOther slab' member'
    by_cases same : slab' = slab
    · rw [same]
      exact otherSlabs
    · exact quiet isOther member' same _
        (inv.private_inPage isOther member' (slab'.private_header _ (by decide)))
  · intro other isOther slab' member'
    by_cases same : other = size
    · rw [same, Function.update_self] at member'
      have distinct := inv.distinct size isSize
      rw [split, List.map_append, List.map_cons] at distinct
      have parts := List.nodup_append.mp distinct
      rcases List.mem_append.mp member' with before | after
      · rw [same]
        apply kept isSize (by rw [split]; exact List.mem_append_left _ before)
        rintro rfl
        exact parts.2.2 _ (List.mem_map_of_mem before) _ List.mem_cons_self rfl
      · rcases List.mem_cons.mp after with here | later
        · rw [same, here]
          exact shape
        · rw [same]
          apply kept isSize
            (by rw [split]; exact List.mem_append_right _ (List.mem_cons_of_mem _ later))
          rintro rfl
          exact (List.nodup_cons.mp parts.2.1).1 (List.mem_map_of_mem later)
    · rw [Function.update_of_ne same] at member'
      apply kept isOther member'
      rintro rfl
      exact same (inv.apart other isOther size isSize _ member' _ member rfl)

/-! ### A new slab behind the last one -/

theorem mem_update_append {new : Slab}
    (member : slab ∈ Function.update slabs size (slabs size ++ [new]) other) :
    slab ∈ slabs other ∨ other = size ∧ slab = new := by
  by_cases sameSize : other = size
  · rw [sameSize, Function.update_self] at member
    rcases List.mem_append.mp member with old | isNew
    · exact Or.inl (sameSize ▸ old)
    · exact Or.inr ⟨sameSize, List.mem_singleton.mp isNew⟩
  · rw [Function.update_of_ne sameSize] at member
    exact Or.inl member

section Append

/-- The one private word that changes is the link of the last slab. -/
theorem same_but_link (inv : SlabInv m slabs) (isSize : size ∈ slabSizes)
    (memberLast : last ∈ slabs size)
    (same : ∀ address, SlabPrivate slabs address → address ≠ last.page + otherSlabsOffset →
      m'.memory address = m.memory address)
    {other address : Nat} (isOther : other ∈ slabSizes) (member : slab ∈ slabs other)
    (isPrivate : slab.Private other address) (notLink : address ≠ slab.page + otherSlabsOffset) :
    m'.memory address = m.memory address := by
  have inPage := inv.private_inPage isOther member isPrivate
  apply same address ⟨other, isOther, slab, member, isPrivate⟩
  rintro rfl
  have inLast := inv.private_inPage isSize memberLast
    (last.private_header size (show otherSlabsOffset < slabHeaderSize by decide))
  obtain ⟨rfl, rfl⟩ := inv.slab_of_inPage isOther isSize member memberLast inPage inLast
  exact notLink rfl

theorem same_other_link (inv : SlabInv m slabs) (isSize : size ∈ slabSizes)
    (memberLast : last ∈ slabs size)
    (same : ∀ address, SlabPrivate slabs address → address ≠ last.page + otherSlabsOffset →
      m'.memory address = m.memory address)
    {other : Nat} (isOther : other ∈ slabSizes) (member : slab ∈ slabs other)
    (different : slab ≠ last) :
    m'.memory (slab.page + otherSlabsOffset) = m.memory (slab.page + otherSlabsOffset) := by
  apply same _ ⟨_, isOther, slab, member, slab.private_header _ (by decide)⟩
  intro equal
  exact different (inv.slab_unique isOther isSize member memberLast
    (Nat.add_right_cancel equal)).2

/-- The new slab ends the list of its cache. -/
theorem path_append_new (inv : SlabInv m slabs) (isSize : size ∈ slabSizes)
    (split : slabs size = front ++ [last]) {page start : Nat} {free : List Nat}
    (old : Path (fun page => m.memory (page + otherSlabsOffset)) start
      ((slabs size).map Slab.page) 0)
    (next : ∀ slab ∈ slabs size, slab ≠ last →
      m'.memory (slab.page + otherSlabsOffset) = m.memory (slab.page + otherSlabsOffset))
    (link : m'.memory (last.page + otherSlabsOffset) = page)
    (terminated : m'.memory (page + otherSlabsOffset) = 0) :
    Path (fun page => m'.memory (page + otherSlabsOffset)) start
      ((slabs size ++ [(⟨page, free⟩ : Slab)]).map Slab.page) 0 := by
  have distinct := inv.distinct size isSize
  rw [split, List.map_append] at distinct
  rw [List.map_append]
  rw [split, List.map_append] at old ⊢
  obtain ⟨toLast, _⟩ := (path_append _ _ _ _).mp old
  refine (path_append _ _ _ _).mpr ⟨(path_append _ _ _ _).mpr ⟨?_, ?_⟩, ?_⟩
  · apply toLast.congr
    intro inner inPages
    obtain ⟨slab, inFront, rfl⟩ := List.mem_map.mp inPages
    apply next slab (by rw [split]; exact List.mem_append_left _ inFront)
    rintro rfl
    exact (List.nodup_append.mp distinct).2.2 _ (List.mem_map_of_mem inFront) _
      List.mem_cons_self rfl
  · exact ⟨rfl, link⟩
  · exact ⟨rfl, terminated⟩

/-- Linking a new slab behind the last one of its cache. -/
theorem append (inv : SlabInv m slabs) (isSize : size ∈ slabSizes)
    (split : slabs size = front ++ [last]) {page : Nat} {free : List Nat}
    (aligned : page % pageSize = 0) (real : 0 < page) (bounded : page + pageSize ≤ addressSpace)
    (unused : ¬SlabPage slabs page) (caches : m'.slabCaches = m.slabCaches)
    (same : ∀ address, SlabPrivate slabs address → address ≠ last.page + otherSlabsOffset →
      m'.memory address = m.memory address)
    (link : m'.memory (last.page + otherSlabsOffset) = page)
    (terminated : m'.memory (page + otherSlabsOffset) = 0)
    (shape : SlabOk m'.memory size ⟨page, free⟩) :
    SlabInv m' (Function.update slabs size (slabs size ++ [⟨page, free⟩])) := by
  have memberLast : last ∈ slabs size := by rw [split]; simp
  constructor
  case sizes => rw [caches, inv.sizes]
  case linked =>
    intro cache member
    rw [caches] at member
    have old := inv.linked cache member
    have isCache : cache.size ∈ slabSizes := inv.sizes ▸ List.mem_map_of_mem member
    have next : ∀ slab ∈ slabs cache.size, slab ≠ last →
        m'.memory (slab.page + otherSlabsOffset) = m.memory (slab.page + otherSlabsOffset) :=
      fun slab inSlabs => inv.same_other_link isSize memberLast same isCache inSlabs
    by_cases sameSize : cache.size = size
    · rw [sameSize] at old next ⊢
      rw [Function.update_self]
      exact inv.path_append_new isSize split old next link terminated
    · rw [Function.update_of_ne sameSize]
      apply old.congr
      intro inner inPages
      obtain ⟨slab, inSlabs, rfl⟩ := List.mem_map.mp inPages
      apply next slab inSlabs
      rintro rfl
      exact sameSize (inv.apart _ isCache size isSize _ inSlabs _ memberLast rfl)
  case nonempty =>
    intro other isOther
    by_cases sameSize : other = size
    · rw [sameSize, Function.update_self]
      simp
    · rw [Function.update_of_ne sameSize]
      exact inv.nonempty other isOther
  case shaped =>
    intro other isOther slab member
    rcases mem_update_append member with old | ⟨rfl, rfl⟩
    · apply (inv.shaped other isOther slab old).congr
      · intro offset below
        apply inv.same_but_link isSize memberLast same isOther old
          (slab.private_header other (lt_trans below (by decide)))
        omega
      · intro object isFree
        apply inv.same_but_link isSize memberLast same isOther old
          (Or.inr ⟨object, isFree, inObject_start object (slabSizes_pos other isOther)⟩)
        have header := (inv.shaped other isOther slab old).header_lt isFree otherSlabsOffset
          (by decide)
        omega
    · exact shape
  case placed =>
    intro other isOther slab member
    rcases mem_update_append member with old | ⟨_, rfl⟩
    · exact inv.placed other isOther slab old
    · exact ⟨aligned, real, bounded⟩
  case distinct =>
    intro other isOther
    by_cases sameSize : other = size
    · rw [sameSize, Function.update_self, List.map_append, List.nodup_append]
      refine ⟨inv.distinct size isSize, List.nodup_singleton _, ?_⟩
      rintro old inOld new inNew rfl
      obtain ⟨slab, inSlabs, samePage⟩ := List.mem_map.mp inOld
      have isNew : old = page := List.mem_singleton.mp inNew
      exact unused ⟨size, isSize, slab, inSlabs, samePage.trans isNew⟩
    · rw [Function.update_of_ne sameSize]
      exact inv.distinct other isOther
  case apart =>
    intro one isOne two isTwo slab member slab' member' samePage
    rcases mem_update_append member with old | ⟨rfl, rfl⟩
    · rcases mem_update_append member' with old' | ⟨rfl, rfl⟩
      · exact inv.apart one isOne two isTwo slab old slab' old' samePage
      · exact absurd ⟨one, isOne, slab, old, samePage⟩ unused
    · rcases mem_update_append member' with old' | ⟨rfl, rfl⟩
      · exact absurd ⟨two, isTwo, slab', old', samePage.symm⟩ unused
      · rfl

end Append

/-! ### Live objects of changed views -/

theorem liveObject_other (different : other ≠ size) (list : List Slab) :
    LiveObject (Function.update slabs size list) other object ↔ LiveObject slabs other object := by
  unfold LiveObject
  rw [Function.update_of_ne different]

/-- An object of a slab is live unless it is free there. -/
theorem live_here (inv : SlabInv m slabs) (isSize : size ∈ slabSizes) (member : slab ∈ slabs size)
    (inSlots : object ∈ slots slab.page size) :
    LiveObject slabs size object ↔ object ∉ slab.free := by
  constructor
  · rintro ⟨_, slab', member', inSlots', notFree⟩
    have inside := inObject_start object (slabSizes_pos size isSize)
    obtain ⟨_, rfl⟩ := inv.slab_of_inPage isSize isSize member member'
      (slots_inPage inSlots inside).1 (slots_inPage inSlots' inside).1
    exact notFree
  · exact fun notFree => ⟨isSize, slab, member, inSlots, notFree⟩

theorem live_replaced (after : SlabInv m' (Function.update slabs size (front ++ slab :: back)))
    (isSize : size ∈ slabSizes) (inSlots : object ∈ slots slab.page size) :
    LiveObject (Function.update slabs size (front ++ slab :: back)) size object ↔
      object ∉ slab.free := by
  apply after.live_here isSize _ inSlots
  rw [Function.update_self]
  simp

/-- Objects of other slabs do not notice another free chain. -/
theorem live_elsewhere (split : slabs size = front ++ slab :: back) (free : List Nat)
    (outside : object ∉ slots slab.page size) :
    LiveObject (Function.update slabs size (front ++ ⟨slab.page, free⟩ :: back)) size object ↔
      LiveObject slabs size object := by
  unfold LiveObject
  rw [Function.update_self, split]
  simp only [List.mem_append, List.mem_cons, or_and_right, exists_or, exists_eq_left, outside,
    false_and, false_or]

/-- Taking an object out of a chain makes it live. -/
theorem liveObject_take (inv : SlabInv m slabs) (isSize : size ∈ slabSizes)
    (split : slabs size = front ++ slab :: back) (free : object ∈ slab.free)
    (after : SlabInv m'
      (Function.update slabs size (front ++ ⟨slab.page, slab.free.erase object⟩ :: back)))
    (other o : Nat) :
    LiveObject (Function.update slabs size
        (front ++ ⟨slab.page, slab.free.erase object⟩ :: back)) other o ↔
      LiveObject slabs other o ∨ other = size ∧ o = object := by
  have member : slab ∈ slabs size := by rw [split]; simp
  have ok := inv.shaped size isSize slab member
  by_cases same : other = size
  · subst same
    by_cases inSlots : o ∈ slots slab.page other
    · rw [inv.live_here isSize member inSlots, live_replaced after isSize inSlots,
        ok.distinct.mem_erase_iff]
      by_cases here : o = object
      · simp [here]
      · simp [here]
    · have different : o ≠ object := fun here => inSlots (here ▸ ok.inSlots object free)
      rw [live_elsewhere split _ inSlots]
      simp [different]
  · rw [liveObject_other same]
    simp [same]

/-- An object given back is no longer live. -/
theorem liveObject_return (inv : SlabInv m slabs) (isSize : size ∈ slabSizes)
    (split : slabs size = front ++ slab :: back) (inSlots : object ∈ slots slab.page size)
    (after : SlabInv m'
      (Function.update slabs size (front ++ ⟨slab.page, object :: slab.free⟩ :: back)))
    (other o : Nat) :
    LiveObject (Function.update slabs size (front ++ ⟨slab.page, object :: slab.free⟩ :: back))
        other o ↔
      LiveObject slabs other o ∧ ¬(other = size ∧ o = object) := by
  have member : slab ∈ slabs size := by rw [split]; simp
  by_cases same : other = size
  · subst same
    by_cases inside : o ∈ slots slab.page other
    · rw [inv.live_here isSize member inside, live_replaced after isSize inside, List.mem_cons,
        not_or]
      simp [and_comm]
    · have different : o ≠ object := fun here => inside (here ▸ inSlots)
      rw [live_elsewhere split _ inside]
      simp [different]
  · rw [liveObject_other same]
    simp [same]

/-- A slab in which everything is free adds no live object. -/
theorem liveObject_append {page : Nat} {free : List Nat}
    (all : ∀ object ∈ slots page size, object ∈ free) (other o : Nat) :
    LiveObject (Function.update slabs size (slabs size ++ [⟨page, free⟩])) other o ↔
      LiveObject slabs other o := by
  by_cases same : other = size
  · rw [same]
    unfold LiveObject
    rw [Function.update_self]
    simp only [List.mem_append, List.mem_singleton, or_and_right, exists_or, exists_eq_left]
    constructor
    · rintro ⟨isSize, old | ⟨inSlots, notFree⟩⟩
      · exact ⟨isSize, old⟩
      · exact absurd (all o inSlots) notFree
    · rintro ⟨isSize, old⟩
      exact ⟨isSize, Or.inl old⟩
  · exact liveObject_other same _

/-! ### Serving a request -/

/-- An object of `size` bytes was taken: it is new, zero, and the only change to the
live objects. -/
structure Served (slabs : Nat → List Slab) (size object : Nat) (m' : Machine)
    (slabs' : Nat → List Slab) : Prop where
  inv : SlabInv m' slabs'
  live : ∀ other o, LiveObject slabs' other o ↔
    LiveObject slabs other o ∨ other = size ∧ o = object
  fresh : ¬LiveObject slabs size object
  zeroed : ∀ address, InObject object size address → m'.memory address = 0

theorem slabPage_replace (split : slabs size = front ++ slab :: back) (free : List Nat)
    (page : Nat) :
    SlabPage (Function.update slabs size (front ++ ⟨slab.page, free⟩ :: back)) page ↔
      SlabPage slabs page := by
  unfold SlabPage
  apply exists_congr
  intro other
  apply and_congr_right
  intro _isOther
  by_cases same : other = size
  · rw [same, Function.update_self, split]
    simp only [List.mem_append, List.mem_cons, or_and_right, exists_or, exists_eq_left]
  · rw [Function.update_of_ne same]

theorem slabPage_append (isSize : size ∈ slabSizes) (new : Slab) (page : Nat) :
    SlabPage (Function.update slabs size (slabs size ++ [new])) page ↔
      SlabPage slabs page ∨ page = new.page := by
  constructor
  · rintro ⟨other, isOther, slab, member, rfl⟩
    rcases mem_update_append member with old | ⟨_, added⟩
    · exact Or.inl ⟨other, isOther, slab, old, rfl⟩
    · exact Or.inr (congrArg Slab.page added)
  · rintro (⟨other, isOther, slab, member, rfl⟩ | rfl)
    · refine ⟨other, isOther, slab, ?_, rfl⟩
      by_cases same : other = size
      · rw [same, Function.update_self]
        exact List.mem_append_left _ (same ▸ member)
      · rwa [Function.update_of_ne same]
    · refine ⟨size, isSize, new, ?_, rfl⟩
      rw [Function.update_self]
      simp

/-- The slabs once an object was taken out of one of them. -/
def withoutObject (slabs : Nat → List Slab) (size : Nat) (front : List Slab) (slab : Slab)
    (back : List Slab) (object : Nat) : Nat → List Slab :=
  Function.update slabs size (front ++ ⟨slab.page, slab.free.erase object⟩ :: back)

/-- Taking an object out of one slab of a cache. -/
theorem take (inv : SlabInv m slabs) (isSize : size ∈ slabSizes)
    (split : slabs size = front ++ slab :: back) (nonempty : slab.free ≠ []) :
    ∃ object ∈ slab.free, ∃ m', takeObject slab.page m = (object, m') ∧
      Served slabs size object m' (withoutObject slabs size front slab back object) ∧
      Writes (slab.Private size) m m' ∧
      ∀ page, SlabPage (withoutObject slabs size front slab back object) page ↔
        SlabPage slabs page := by
  have member : slab ∈ slabs size := by rw [split]; simp
  have positive := slabSizes_pos size isSize
  have ok := inv.shaped size isSize slab member
  obtain ⟨object, m', takeEq, taken⟩ := ok.takeObject positive nonempty
  have inPage : Writes (InPage slab.page) m m' :=
    taken.writes.mono fun address inside => inv.private_inPage isSize member inside
  have after := inv.replace isSize split _ inPage taken.otherSlabs taken.shape
  refine ⟨object, taken.free, m', takeEq, ?_, taken.writes, slabPage_replace split _⟩
  constructor
  · exact after
  · exact inv.liveObject_take isSize split taken.free after
  · intro live
    exact inv.live_not_private live (inObject_start object positive)
      ⟨size, isSize, slab, member, Or.inr ⟨object, taken.free, inObject_start object positive⟩⟩
  · exact taken.zeroed

/-- The search passes the full slabs in front of another one. -/
theorem slabHeaderAlloc_passes (pages : ∀ other ∈ front ++ slab :: back, 0 < other.page)
    (shaped : ∀ slab ∈ front, SlabOk m.memory size slab) (full : ∀ slab ∈ front, slab.free = [])
    (fuel : Nat) (linked : Path (fun page => m.memory (page + otherSlabsOffset)) start
      ((front ++ slab :: back).map Slab.page) 0) :
    slabHeaderAlloc hhdm (fuel + front.length) start m = slabHeaderAlloc hhdm fuel slab.page m ∧
      Path (fun page => m.memory (page + otherSlabsOffset)) slab.page
        ((slab :: back).map Slab.page) 0 := by
  induction front generalizing start with
  | nil =>
      obtain rfl : start = slab.page := linked.1
      exact ⟨rfl, linked⟩
  | cons first front inductionHypothesis =>
      obtain ⟨rfl, rest⟩ := linked
      have empty := (shaped first List.mem_cons_self).obj_eq_zero_iff.mpr
        (full first List.mem_cons_self)
      -- the next slab of the chain has a nonzero page
      have next : m.memory (first.page + otherSlabsOffset) ≠ 0 := by
        have start := rest.start_eq
        change m.memory (first.page + otherSlabsOffset) = _ at start
        rw [start]
        cases front with
        | nil => exact Nat.ne_of_gt (pages slab (by simp))
        | cons second front => exact Nat.ne_of_gt (pages second (by simp))
      rw [List.length_cons, ← Nat.add_assoc, slabHeaderAlloc, if_neg (not_not.mpr empty),
        if_pos next]
      exact inductionHypothesis (fun other member => pages other (List.mem_cons_of_mem _ member))
        (fun other member => shaped other (List.mem_cons_of_mem _ member))
        (fun other member => full other (List.mem_cons_of_mem _ member)) rest

/-- The search through a cache that is full ends at its last slab, behind which a
new one is linked. -/
theorem slabHeaderAlloc_full (inv : SlabInv m slabs) (isSize : size ∈ slabSizes)
    (split : slabs size = front ++ [last]) (full : ∀ slab ∈ slabs size, slab.free = []) (fuel : Nat)
    (linked : Path (fun page => m.memory (page + otherSlabsOffset)) start
      ((slabs size).map Slab.page) 0) :
    slabHeaderAlloc hhdm (fuel + 1 + front.length) start m = (do
      let (new, m) ← slabHeaderInit hhdm size m
      if new = 0 then .error unwrapNone
      else slabHeaderAlloc hhdm fuel new (m.write (last.page + otherSlabsOffset) new)) := by
  have inFront : ∀ slab ∈ front, slab ∈ slabs size := by
    intro slab member
    rw [split]
    exact List.mem_append_left _ member
  have memberLast : last ∈ slabs size := by rw [split]; simp
  have ok := inv.shaped size isSize last memberLast
  obtain ⟨passed, _, terminated⟩ := slabHeaderAlloc_passes
    (fun slab member => (inv.placed size isSize slab (split ▸ member)).2.1)
    (fun slab member => inv.shaped size isSize slab (inFront slab member))
    (fun slab member => full slab (inFront slab member)) (fuel + 1) (split ▸ linked)
  have none : m.memory (last.page + otherSlabsOffset) = 0 := terminated
  rw [passed, slabHeaderAlloc, if_neg (not_not.mpr (ok.obj_eq_zero_iff.mpr
    (full last memberLast))), if_neg (not_not.mpr none), ok.objSize]

/-- A cache has fewer slabs than there are addresses. -/
theorem length_lt (inv : SlabInv m slabs) (isSize : size ∈ slabSizes) :
    (slabs size).length < addressSpace := by
  have zero : 0 ∉ (slabs size).map Slab.page := by
    intro member
    obtain ⟨slab, inSlabs, null⟩ := List.mem_map.mp member
    exact absurd null (Nat.ne_of_gt (inv.placed size isSize slab inSlabs).2.1)
  have longer : (0 :: (slabs size).map Slab.page).length ≤ addressSpace := length_le_of_nodup
    (List.nodup_cons.mpr ⟨zero, inv.distinct size isSize⟩) (by
      intro page member
      rcases List.mem_cons.mp member with null | later
      · rw [null]
        exact Nat.two_pow_pos 64
      · obtain ⟨slab, inSlabs, rfl⟩ := List.mem_map.mp later
        have bounded := (inv.placed size isSize slab inSlabs).2.2
        unfold pageSize at bounded
        omega)
  rw [List.length_cons, List.length_map] at longer
  exact longer

theorem not_slabPrivate_of_inPage (inv : SlabInv m slabs) (ready : PageReady hhdm slabs phy)
    (isPrivate : SlabPrivate slabs address) : ¬InPage (phy + hhdm) address := by
  obtain ⟨other, isOther, slab, member, inside⟩ := isPrivate
  intro inNew
  have same := inPage_unique 0 (inv.placed other isOther slab member).1 ready.aligned
    (inv.private_inPage isOther member inside) inNew
  exact ready.unused ⟨other, isOther, slab, member, same⟩

theorem first_slot (page : Nat) (isSize : size ∈ slabSizes) :
    slot page size 0 ∈ slots page size :=
  mem_slots.mpr
    ⟨0, (Nat.one_le_div_iff (slabSizes_pos size isSize)).mpr (slabSizes_le size isSize), rfl⟩

theorem freshSlab_free_ne_nil (page : Nat) (isSize : size ∈ slabSizes) :
    (freshSlab page size).free ≠ [] := by
  intro empty
  have first := first_slot page isSize
  rw [List.reverse_eq_nil_iff.mp empty] at first
  exact absurd first List.not_mem_nil

/-- A slab was made on a page that was taken for it, and is linked behind the last one. -/
theorem link_fresh (inv : SlabInv m slabs) (isSize : size ∈ slabSizes)
    (split : slabs size = front ++ [last]) (head : m.freelist = some phy)
    (ready : PageReady hhdm slabs phy) {taken made : Machine}
    (takenEq : allocatePage hhdm m = .ok (phy + hhdm, taken))
    (madeWrites : Writes (InPage (phy + hhdm)) taken made)
    (shape : SlabOk made.memory size (freshSlab (phy + hhdm) size))
    (terminated : made.memory (phy + hhdm + otherSlabsOffset) = 0) :
    SlabInv (made.write (last.page + otherSlabsOffset) (phy + hhdm))
      (Function.update slabs size (slabs size ++ [freshSlab (phy + hhdm) size])) := by
  have positive := slabSizes_pos size isSize
  have memberLast : last ∈ slabs size := by rw [split]; simp
  have lastPrivate : SlabPrivate slabs (last.page + otherSlabsOffset) :=
    ⟨size, isSize, last, memberLast, last.private_header size (by decide)⟩
  have lastOutside := inv.not_slabPrivate_of_inPage ready lastPrivate
  have newNe : ∀ address, InPage (phy + hhdm) address → address ≠ last.page + otherSlabsOffset :=
    fun address inside same => lastOutside (same ▸ inside)
  have headerInside : ∀ offset, offset < slabHeaderSize →
      InPage (phy + hhdm) (phy + hhdm + offset) := by
    intro offset below
    unfold InPage pageSize
    unfold slabHeaderSize at below
    omega
  obtain ⟨other, sameHead, _, rfl⟩ := allocatePage_ok takenEq
  obtain rfl : phy = other := Option.some.inj (head.symm.trans sameHead)
  apply inv.append isSize split ready.aligned ready.real ready.bounded ready.unused
  · exact madeWrites.slabCaches
  · intro address isPrivate notLink
    have outside := inv.not_slabPrivate_of_inPage ready isPrivate
    rw [write_other _ _ notLink, madeWrites.elsewhere address outside]
    exact WordMemory.zero_outside outside
  · exact write_same _ _ _
  · rw [write_other _ _ (newNe _ (headerInside _ (by decide)))]
    exact terminated
  · apply shape.congr
    · intro offset below
      exact write_other _ _ (newNe _ (headerInside _ (lt_trans below (by decide))))
    · intro object isFree
      apply write_other
      apply newNe
      exact (slots_inPage (shape.inSlots object isFree) (inObject_start _ positive)).1

/-- A full cache grows by one slab on the page that `allocate_page` returns. -/
theorem grow (inv : SlabInv m slabs) (isSize : size ∈ slabSizes)
    (split : slabs size = front ++ [last]) (full : ∀ slab ∈ slabs size, slab.free = []) (fuel : Nat)
    (linked : Path (fun page => m.memory (page + otherSlabsOffset)) start
      ((slabs size).map Slab.page) 0) (head : m.freelist = some phy)
    (ready : PageReady hhdm slabs phy) :
    ∃ taken object m' slabs', allocatePage hhdm m = .ok (phy + hhdm, taken) ∧
      slabHeaderAlloc hhdm (fuel + 1 + 1 + front.length) start m = .ok (object, m') ∧
      Served slabs size object m' slabs' ∧
      Writes (fun address => SlabPrivate slabs address ∨ InPage (phy + hhdm) address) taken m' ∧
      ∀ page, SlabPage slabs' page ↔ SlabPage slabs page ∨ page = phy + hhdm := by
  have memberLast : last ∈ slabs size := by rw [split]; simp
  have lastPrivate : SlabPrivate slabs (last.page + otherSlabsOffset) :=
    ⟨size, isSize, last, memberLast, last.private_header size (by decide)⟩
  obtain ⟨taken, made, takenEq, madeEq, madeWrites, shape, terminated⟩ :=
    slabHeaderInit_eq hhdm (slabSizes_pos size isSize) (slabSizes_le size isSize) head
  have grown := inv.link_fresh isSize split head ready takenEq madeWrites shape terminated
  have nonempty := freshSlab_free_ne_nil (phy + hhdm) isSize
  have splitNew : Function.update slabs size (slabs size ++ [freshSlab (phy + hhdm) size]) size =
      slabs size ++ freshSlab (phy + hhdm) size :: [] :=
    Function.update_self _ _ _
  obtain ⟨object, _, m', takeEq, served, takeWrites, samePages⟩ :=
    grown.take isSize splitNew nonempty
  have newMember : freshSlab (phy + hhdm) size ∈
      Function.update slabs size (slabs size ++ [freshSlab (phy + hhdm) size]) size := by
    rw [splitNew]
    simp
  have old : ∀ other o, LiveObject (Function.update slabs size
      (slabs size ++ [freshSlab (phy + hhdm) size])) other o ↔ LiveObject slabs other o :=
    liveObject_append fun object inSlots => List.mem_reverse.mpr inSlots
  refine ⟨taken, object, m', withoutObject
    (Function.update slabs size (slabs size ++ [freshSlab (phy + hhdm) size])) size (slabs size)
    (freshSlab (phy + hhdm) size) [] object, takenEq, ?_, ?_, ?_, ?_⟩
  · rw [inv.slabHeaderAlloc_full isSize split full (fuel + 1) linked]
    simp only [madeEq, bind, Except.bind, if_neg (Nat.ne_of_gt ready.real)]
    have hasObject : (made.write (last.page + otherSlabsOffset) (phy + hhdm)).memory
        (phy + hhdm + objOffset) ≠ 0 :=
      (not_congr (grown.shaped size isSize _ newMember).obj_eq_zero_iff).mpr nonempty
    rw [slabHeaderAlloc, if_pos hasObject]
    exact congrArg Except.ok takeEq
  · constructor
    · exact served.inv
    · intro other o
      rw [served.live, old]
    · exact fun live => served.fresh ((old _ _).mpr live)
    · exact served.zeroed
  · apply Writes.trans
    · exact (madeWrites.mono fun address inside => Or.inr inside).andWrite (phy + hhdm)
        (Or.inl lastPrivate)
    · exact takeWrites.mono fun address inside =>
        Or.inr (grown.private_inPage isSize newMember inside)
  · intro page
    rw [samePages, slabPage_append isSize]
    rfl

/-- The caches are never without a slab. -/
theorem slabCacheAlloc_inited (inv : SlabInv m slabs) (hhdm : Nat) (member : cache ∈ m.slabCaches) :
    slabCacheAlloc hhdm cache m = slabHeaderAlloc hhdm addressSpace cache.slabs m := by
  have isSize : cache.size ∈ slabSizes := inv.sizes ▸ List.mem_map_of_mem member
  apply if_pos
  have start := (inv.linked cache member).start_eq
  cases list : slabs cache.size with
  | nil => exact absurd list (inv.nonempty cache.size isSize)
  | cons first rest =>
      rw [list] at start
      rw [start]
      exact Nat.ne_of_gt (inv.placed cache.size isSize first (by rw [list]; simp)).2.1

/-- The first slab of a cache that has a free object serves the request. -/
theorem slabCacheAlloc_first (inv : SlabInv m slabs) (hhdm : Nat) (member : cache ∈ m.slabCaches)
    (split : slabs cache.size = front ++ slab :: back) (full : ∀ other ∈ front, other.free = [])
    (nonempty : slab.free ≠ []) :
    ∃ object ∈ slab.free, ∃ m', slabCacheAlloc hhdm cache m = .ok (object, m') ∧
      Served slabs cache.size object m' (withoutObject slabs cache.size front slab back object) ∧
      Writes (SlabPrivate slabs) m m' ∧
      ∀ page, SlabPage (withoutObject slabs cache.size front slab back object) page ↔
        SlabPage slabs page := by
  have isSize : cache.size ∈ slabSizes := inv.sizes ▸ List.mem_map_of_mem member
  have linked := inv.linked cache member
  have inSlabs : ∀ other ∈ front, other ∈ slabs cache.size := by
    intro other inFront
    rw [split]
    exact List.mem_append_left _ inFront
  have slabIn : slab ∈ slabs cache.size := by rw [split]; simp
  obtain ⟨fuel, enough⟩ : ∃ fuel, addressSpace = fuel + 1 + front.length := by
    have short := inv.length_lt isSize
    rw [split, List.length_append] at short
    exact ⟨addressSpace - (1 + front.length), by omega⟩
  obtain ⟨object, isFree, m', takeEq, served, writes, pages⟩ := inv.take isSize split nonempty
  refine ⟨object, isFree, m', ?_, served, ?_, pages⟩
  · rw [inv.slabCacheAlloc_inited hhdm member, enough, (slabHeaderAlloc_passes
      (fun other inList => (inv.placed _ isSize other (split ▸ inList)).2.1)
      (fun other inFront => inv.shaped _ isSize other (inSlabs other inFront)) full _
      (split ▸ linked)).1, slabHeaderAlloc, if_pos ((not_congr
      (inv.shaped _ isSize slab slabIn).obj_eq_zero_iff).mpr nonempty), takeEq]
  · exact writes.mono fun address inside => ⟨_, isSize, slab, slabIn, inside⟩

/-- A request to a cache is served from its slabs, or the cache is full. -/
theorem slabCacheAlloc_cases (inv : SlabInv m slabs) (hhdm : Nat) (member : cache ∈ m.slabCaches) :
    (∃ object m' slabs', slabCacheAlloc hhdm cache m = .ok (object, m') ∧
        Served slabs cache.size object m' slabs' ∧ Writes (SlabPrivate slabs) m m' ∧
        ∀ page, SlabPage slabs' page ↔ SlabPage slabs page) ∨
      (∀ slab ∈ slabs cache.size, slab.free = []) ∧
        ∀ phy, m.freelist = some phy → PageReady hhdm slabs phy →
          ∃ taken object m' slabs', allocatePage hhdm m = .ok (phy + hhdm, taken) ∧
            slabCacheAlloc hhdm cache m = .ok (object, m') ∧
            Served slabs cache.size object m' slabs' ∧
            Writes (fun address => SlabPrivate slabs address ∨ InPage (phy + hhdm) address)
              taken m' ∧
            ∀ page, SlabPage slabs' page ↔ SlabPage slabs page ∨ page = phy + hhdm := by
  have isSize : cache.size ∈ slabSizes := inv.sizes ▸ List.mem_map_of_mem member
  cases found : (slabs cache.size).find? fun slab => slab.free ≠ [] with
  | some slab =>
      left
      obtain ⟨hasFree, front, back, split, before⟩ := List.find?_eq_some_iff_append.mp found
      have nonempty : slab.free ≠ [] := by simpa using hasFree
      have full : ∀ other ∈ front, other.free = [] := fun other inFront => by
        simpa using before other inFront
      obtain ⟨object, _, m', allocated, served, writes, pages⟩ :=
        inv.slabCacheAlloc_first hhdm member split full nonempty
      exact ⟨object, m', _, allocated, served, writes, pages⟩
  | none =>
      right
      have full : ∀ slab ∈ slabs cache.size, slab.free = [] := by
        intro slab inSlabs
        simpa using List.find?_eq_none.mp found slab inSlabs
      refine ⟨full, ?_⟩
      intro phy head ready
      obtain ⟨front, last, split⟩ := List.eq_nil_or_concat (slabs cache.size)
        |>.resolve_left (inv.nonempty _ isSize)
      rw [List.concat_eq_append] at split
      obtain ⟨fuel, enough⟩ : ∃ fuel, addressSpace = fuel + 1 + 1 + front.length := by
        have short := inv.length_lt isSize
        rw [split, List.length_append, List.length_singleton] at short
        exact ⟨addressSpace - (1 + 1 + front.length), by omega⟩
      rw [inv.slabCacheAlloc_inited hhdm member, enough]
      exact inv.grow isSize split full fuel (inv.linked cache member) head ready

/-- Giving back a live object. -/
theorem dealloc (inv : SlabInv m slabs) (live : LiveObject slabs size object) :
    ∃ slabs', SlabInv (slabDealloc object m) slabs' ∧
      (∀ other o, LiveObject slabs' other o ↔
        LiveObject slabs other o ∧ ¬(other = size ∧ o = object)) ∧
      Writes (fun address => SlabPrivate slabs address ∨ InObject object size address) m
        (slabDealloc object m) ∧
      ∀ page, SlabPage slabs' page ↔ SlabPage slabs page := by
  obtain ⟨isSize, slab, member, inSlots, notFree⟩ := live
  have positive := slabSizes_pos size isSize
  have placed := inv.placed size isSize slab member
  obtain ⟨front, back, split⟩ := List.append_of_mem member
  have returned := (inv.shaped size isSize slab member).slabDealloc positive inSlots notFree
    (alignDown_slot placed.1 placed.2.2 inSlots)
  have inPage : Writes (InPage slab.page) m (slabDealloc object m) := by
    apply returned.writes.mono
    rintro address (header | inObject)
    · exact inv.private_inPage isSize member (Or.inl header)
    · exact (slots_inPage inSlots inObject).1
  have after := inv.replace isSize split _ inPage returned.otherSlabs returned.shape
  refine ⟨_, after, inv.liveObject_return isSize split inSlots after, ?_, slabPage_replace split _⟩
  apply returned.writes.mono
  rintro address (header | inObject)
  · exact Or.inl ⟨size, isSize, slab, member, Or.inl header⟩
  · exact Or.inr inObject

end SlabInv

end NyauxKernel.Memory
