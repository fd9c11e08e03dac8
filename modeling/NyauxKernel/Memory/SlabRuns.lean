/-
Runs of the slab allocator.

The page allocator is only assumed to return aligned pages that no slab uses.
Between the calls, memory outside the slabs and inside live objects may change,
and so may the state of the page allocator.
-/

import NyauxKernel.Library.Folds
import NyauxKernel.Memory.Conservation
import NyauxKernel.Memory.SlabInvariant

namespace NyauxKernel.Memory

open LinkPath ExceptFold

/-! ### Size classes -/

/-- The size class that serves a request. -/
def slabClass (request : Nat) : Option Nat := slabSizes.find? fun size => ¬size < request

theorem slabSizes_sorted : slabSizes.Pairwise (· < ·) := by
  decide

variable {hhdm object request size : Nat} {m m' : Machine} {live : List Nat}

/-- Every request of at most 1024 bytes has a class, the smallest that is big
enough. -/
theorem slabClass_spec (small : request ≤ 1024) :
    ∃ size ∈ slabSizes, slabClass request = some size ∧ request ≤ size ∧
      ∀ other ∈ slabSizes, request ≤ other → size ≤ other := by
  cases found : slabClass request with
  | none =>
      have tooSmall := List.find?_eq_none.mp found 1024 (by decide)
      simp only [not_lt, decide_eq_true_eq] at tooSmall
      exact absurd small tooSmall
  | some size =>
      obtain ⟨fits, front, back, split, before⟩ := List.find?_eq_some_iff_append.mp found
      have member : size ∈ slabSizes := by rw [split]; simp
      refine ⟨size, member, rfl, by simpa using fits, ?_⟩
      intro other isOther enough
      rw [split] at isOther
      have sorted := slabSizes_sorted
      rw [split, List.pairwise_append] at sorted
      rcases List.mem_append.mp isOther with earlier | later
      · have passed := before other earlier
        simp only [not_lt, Bool.not_eq_eq_eq_not, Bool.not_true, decide_eq_false_iff_not] at passed
        exact absurd enough passed
      · rcases List.mem_cons.mp later with same | after
        · exact Nat.le_of_eq same.symm
        · exact Nat.le_of_lt ((List.pairwise_cons.mp sorted.2.1).1 other after)

theorem le_nextPowerOfTwo (small : request ≤ 1024) : request ≤ nextPowerOfTwo request := by
  unfold nextPowerOfTwo
  by_cases tiny : request ≤ 1
  · rw [if_pos tiny]
    exact tiny
  · rw [if_neg tiny]
    have above : request - 1 < 2 ^ (Nat.log2 (request - 1) + 1) := Nat.lt_log2_self
    have low : Nat.log2 (request - 1) < 10 := (Nat.log2_lt (by omega)).mpr (by omega)
    have inRange : 2 ^ (Nat.log2 (request - 1) + 1) < addressSpace :=
      Nat.pow_lt_pow_right (by decide) (by omega)
    rw [wrap, Nat.mod_eq_of_lt inRange]
    omega

variable {slabs slabs' : Nat → List Slab} {cache : SlabCache}

/-- A request goes to the cache of its class. -/
theorem SlabInv.slabAlloc_eq (inv : SlabInv m slabs) (hhdm : Nat) (small : request ≤ 1024) :
    ∃ cache ∈ m.slabCaches, slabClass request = some cache.size ∧
      slabAlloc hhdm request m = (do
        let (object, m) ← slabCacheAlloc hhdm cache m
        .ok (some object, m)) := by
  obtain ⟨size, _, classEq, _⟩ := slabClass_spec small
  have mapped := classEq
  rw [slabClass, ← inv.sizes, List.find?_map, Option.map_eq_some_iff] at mapped
  obtain ⟨cache, found, rfl⟩ := mapped
  refine ⟨cache, List.mem_of_find?_eq_some found, classEq, ?_⟩
  rw [slabAlloc, if_pos (le_nextPowerOfTwo small)]
  have same : m.slabCaches.find? (fun s => decide ¬s.size < request) = some cache := found
  rw [same]

/-! ### The record of calls -/

theorem linkObjects_calls (page size : Nat) (indices : List Nat) (state : Nat × Machine) :
    (indices.foldl (linkObjects page size) state).2.pmmCalls = state.2.pmmCalls := by
  induction indices generalizing state with
  | nil => rfl
  | cons index indices inductionHypothesis =>
      rw [List.foldl_cons, inductionHypothesis]
      rfl

theorem slabHeaderInit_calls {page : Nat} (done : slabHeaderInit hhdm size m = .ok (page, m')) :
    ∃ phy, m.freelist = some phy ∧ page = phy + hhdm ∧
      m'.pmmCalls = m.pmmCalls ++ [.allocated phy] := by
  cases allocated : allocatePage hhdm m with
  | error halt => simp [slabHeaderInit, allocated, bind, Except.bind] at done
  | ok result =>
      obtain ⟨taken, rest⟩ := result
      obtain ⟨phy, head, pageEq, machineEq⟩ := allocatePage_ok allocated
      simp only [slabHeaderInit, allocated, bind, Except.bind] at done
      obtain ⟨samePage, sameMachine⟩ := Prod.mk.inj (Except.ok.inj done)
      refine ⟨phy, head, samePage.symm.trans pageEq, ?_⟩
      rw [← sameMachine]
      change (List.foldl (linkObjects _ _) _ _).2.pmmCalls = _
      rw [linkObjects_calls, machineEq]

theorem takeObject_calls (curSlab : Nat) (m : Machine) :
    (takeObject curSlab m).2.pmmCalls = m.pmmCalls := by
  unfold takeObject
  simp only
  split
  · rfl
  · rfl

theorem slabHeaderAlloc_allocates (fuel curSlab : Nat)
    (done : slabHeaderAlloc hhdm fuel curSlab m = .ok (object, m')) : Allocates m m' := by
  induction fuel generalizing curSlab m with
  | zero => simp [slabHeaderAlloc] at done
  | succ fuel inductionHypothesis =>
      rw [slabHeaderAlloc] at done
      split at done
      · have calls := takeObject_calls curSlab m
        rw [Except.ok.inj done] at calls
        exact Allocates.of_eq calls
      · split at done
        · exact inductionHypothesis _ done
        · obtain ⟨⟨new, grown⟩, made, rest⟩ := ok_of_bind done
          obtain ⟨phy, _, _, calls⟩ := slabHeaderInit_calls made
          dsimp only at rest
          split at rest
          · contradiction
          · have later := inductionHypothesis _ rest
            have first : Allocates m grown := ⟨[phy], calls⟩
            exact Allocates.trans first later

theorem slabAlloc_allocates {result : Option Nat}
    (done : slabAlloc hhdm request m = .ok (result, m')) : Allocates m m' := by
  unfold slabAlloc at done
  split at done
  · split at done
    · obtain rfl : m = m' := (Prod.mk.inj (Except.ok.inj done)).2
      exact Allocates.refl m
    · obtain ⟨⟨object, after⟩, allotted, rest⟩ := ok_of_bind done
      obtain rfl : after = m' := (Prod.mk.inj (Except.ok.inj rest)).2
      unfold slabCacheAlloc at allotted
      split at allotted
      · exact slabHeaderAlloc_allocates _ _ allotted
      · contradiction
  · contradiction

/-- A cache that is full asks for a page. -/
theorem SlabInv.full_takes_page (inv : SlabInv m slabs) (member : cache ∈ m.slabCaches)
    (full : ∀ slab ∈ slabs cache.size, slab.free = [])
    (done : slabCacheAlloc hhdm cache m = .ok (object, m')) :
    ∃ phy, m.freelist = some phy ∧ phy ∈ takenFrames m m' := by
  have isSize : cache.size ∈ slabSizes := inv.sizes ▸ List.mem_map_of_mem member
  obtain ⟨front, last, split⟩ := List.eq_nil_or_concat (slabs cache.size)
    |>.resolve_left (inv.nonempty _ isSize)
  rw [List.concat_eq_append] at split
  obtain ⟨fuel, enough⟩ : ∃ fuel, addressSpace = fuel + 1 + front.length := by
    have short := inv.length_lt isSize
    rw [split, List.length_append, List.length_singleton] at short
    exact ⟨addressSpace - (1 + front.length), by omega⟩
  unfold slabCacheAlloc at done
  split at done
  · rw [enough, inv.slabHeaderAlloc_full isSize split full fuel (inv.linked cache member)] at done
    obtain ⟨⟨new, grown⟩, made, rest⟩ := ok_of_bind done
    obtain ⟨phy, head, _, calls⟩ := slabHeaderInit_calls made
    dsimp only at rest
    split at rest
    · contradiction
    · obtain ⟨more, later⟩ := (slabHeaderAlloc_allocates _ _ rest).grows
      have whole : m'.pmmCalls = m.pmmCalls ++ [phy].map .allocated ++ more := by
        rw [← later]
        change grown.pmmCalls ++ more = _
        rw [calls]
        rfl
      refine ⟨phy, head, ?_⟩
      rw [takenFrames_allocated whole]
      exact List.mem_append_left _ List.mem_cons_self
  · contradiction

/-! ### Slabs of a machine -/

/-- The slabs that a machine's caches lead to, with the size of their cache. -/
inductive IsSlab (m : Machine) : Nat → Nat → Prop
  | first (cache : SlabCache) (member : cache ∈ m.slabCaches) (real : cache.slabs ≠ 0) :
      IsSlab m cache.size cache.slabs
  | next {size page : Nat} (slab : IsSlab m size page)
      (real : m.memory (page + otherSlabsOffset) ≠ 0) :
      IsSlab m size (m.memory (page + otherSlabsOffset))

/-- Every page of a chain that starts at a slab is a slab. -/
theorem isSlab_of_path {start : Nat} {pages : List Nat}
    (path : Path (fun page => m.memory (page + otherSlabsOffset)) start pages 0)
    (nonzero : 0 ∉ pages) (isStart : start ≠ 0 → IsSlab m size start) :
    ∀ page ∈ pages, IsSlab m size page := by
  induction pages generalizing start with
  | nil =>
      intro page member
      exact absurd member List.not_mem_nil
  | cons first rest inductionHypothesis =>
      obtain ⟨rfl, tail⟩ := path
      have real : start ≠ 0 := fun zero => nonzero (zero ▸ List.mem_cons_self)
      intro page member
      rcases List.mem_cons.mp member with rfl | later
      · exact isStart real
      · exact inductionHypothesis tail (fun zero => nonzero (List.mem_cons_of_mem _ zero))
          (fun realNext => IsSlab.next (isStart real) realNext) page later

theorem SlabInv.isSlab_iff (inv : SlabInv m slabs) (size page : Nat) :
    IsSlab m size page ↔ size ∈ slabSizes ∧ ∃ slab ∈ slabs size, slab.page = page := by
  constructor
  · intro isSlab
    induction isSlab with
    | first cache member real =>
        have isSize : cache.size ∈ slabSizes := inv.sizes ▸ List.mem_map_of_mem member
        have start := (inv.linked cache member).start_eq
        refine ⟨isSize, ?_⟩
        cases list : slabs cache.size with
        | nil => exact absurd list (inv.nonempty _ isSize)
        | cons slab rest =>
            rw [list] at start
            exact ⟨slab, List.mem_cons_self, start.symm⟩
    | next slab real inductionHypothesis =>
        obtain ⟨isSize, slab, member, rfl⟩ := inductionHypothesis
        refine ⟨isSize, ?_⟩
        have hasCache := isSize
        rw [← inv.sizes] at hasCache
        obtain ⟨cache, inCaches, rfl⟩ := List.mem_map.mp hasCache
        have linked := inv.linked cache inCaches
        obtain ⟨front, back, split⟩ := List.append_of_mem member
        rw [split, List.map_append, List.map_cons] at linked
        have tail := ((path_append _ _ _ _).mp linked).2.2
        have start := tail.start_eq
        cases back with
        | nil => exact absurd start real
        | cons following back =>
            refine ⟨following, ?_, start.symm⟩
            rw [split]
            simp
  · rintro ⟨isSize, slab, member, rfl⟩
    have hasCache := isSize
    rw [← inv.sizes] at hasCache
    obtain ⟨cache, inCaches, rfl⟩ := List.mem_map.mp hasCache
    apply isSlab_of_path (inv.linked cache inCaches)
    · intro zero
      obtain ⟨other, inSlabs, null⟩ := List.mem_map.mp zero
      exact absurd null (Nat.ne_of_gt (inv.placed _ isSize other inSlabs).2.1)
    · exact fun real => IsSlab.first cache inCaches real
    · exact List.mem_map_of_mem member

/-! ### Initialisation -/

/-- The caches `done` are set up, each with one slab in which everything is free. -/
structure Inited (m : Machine) (done : List SlabCache) : Prop where
  caches : m.slabCaches.take done.length = done
  distinct : (done.map SlabCache.slabs).Nodup
  placed : ∀ cache ∈ done, cache.slabs % pageSize = 0 ∧ 0 < cache.slabs ∧
    cache.slabs + pageSize ≤ addressSpace
  shaped : ∀ cache ∈ done,
    SlabOk m.memory cache.size ⟨cache.slabs, (slots cache.slabs cache.size).reverse⟩
  terminated : ∀ cache ∈ done, m.memory (cache.slabs + otherSlabsOffset) = 0

/-- One more cache on a page that the others do not use. -/
theorem Inited.snoc {phy : Nat} {done : List SlabCache} (inited : Inited m done)
    (room : done.length < m.slabCaches.length) (positive : 0 < size)
    (fits : size ≤ pageSize - slabHeaderSize) (head : m.freelist = some phy)
    (pageOk : PageOk hhdm phy) (unused : phy + hhdm ∉ done.map SlabCache.slabs)
    (made : slabHeaderInit hhdm size m = .ok (phy + hhdm, m')) :
    Inited { m' with slabCaches := m'.slabCaches.set done.length ⟨size, phy + hhdm⟩ }
      (done ++ [⟨size, phy + hhdm⟩]) := by
  obtain ⟨taken, m'', takenEq, madeEq, writes, shape, terminated⟩ :=
    slabHeaderInit_eq hhdm positive fits head
  obtain rfl : m'' = m' := (Prod.mk.inj (Except.ok.inj (madeEq.symm.trans made))).2
  obtain ⟨phy', sameHead, _, rfl⟩ := allocatePage_ok takenEq
  obtain rfl : phy = phy' := Option.some.inj (head.symm.trans sameHead)
  have quiet : ∀ cache ∈ done, ∀ address, InPage cache.slabs address →
      m''.memory address = m.memory address := by
    intro cache member address inside
    have outside : ¬InPage (phy + hhdm) address := by
      intro inNew
      have same := inPage_unique 0 (inited.placed cache member).1 pageOk.aligned inside inNew
      exact unused (same ▸ List.mem_map_of_mem member)
    rw [writes.elsewhere address outside]
    exact WordMemory.zero_outside outside
  have headerInside : ∀ page offset, offset < slabHeaderSize → InPage page (page + offset) := by
    intro page offset below
    unfold InPage pageSize
    unfold slabHeaderSize at below
    omega
  have caches : m''.slabCaches = m.slabCaches := writes.slabCaches
  constructor
  case caches =>
    rw [List.length_append, List.length_singleton]
    change (m''.slabCaches.set done.length _).take (done.length + 1) = _
    rw [List.take_add_one, List.take_set_of_le (Nat.le_refl _), caches, inited.caches,
      List.getElem?_set_self room]
    rfl
  case distinct =>
    rw [List.map_append, List.nodup_append]
    refine ⟨inited.distinct, List.nodup_singleton _, ?_⟩
    rintro old inOld new inNew rfl
    have isNew : old = phy + hhdm := List.mem_singleton.mp inNew
    exact unused (isNew ▸ inOld)
  case placed =>
    intro cache member
    rcases List.mem_append.mp member with old | new
    · exact inited.placed cache old
    · rw [List.mem_singleton.mp new]
      exact ⟨pageOk.aligned, pageOk.real, pageOk.bounded⟩
  case shaped =>
    intro cache member
    rcases List.mem_append.mp member with old | new
    · have ok := inited.shaped cache old
      apply ok.congr
      · intro offset below
        exact quiet cache old _ (headerInside _ _ (lt_trans below (by decide)))
      · intro object free
        have inSlots := ok.inSlots object free
        have nonzero : 0 < cache.size := by
          obtain ⟨k, inRange, _⟩ := mem_slots.mp inSlots
          apply Nat.pos_of_ne_zero
          intro zero
          simp [objectCount, zero] at inRange
        exact quiet cache old _ (slots_inPage inSlots (inObject_start object nonzero)).1
    · rw [List.mem_singleton.mp new]
      exact shape
  case terminated =>
    intro cache member
    rcases List.mem_append.mp member with old | new
    · exact (quiet cache old _ (headerInside _ _ (by decide))).trans
        (inited.terminated cache old)
    · rw [List.mem_singleton.mp new]
      exact terminated

/-- `init_slab` takes one page a cache and sets the caches up on them. -/
theorem initSlabFrom_inited (sizes : List Nat)
    (fit : ∀ size ∈ sizes, 0 < size ∧ size ≤ pageSize - slabHeaderSize) :
    ∀ (m : Machine) (done : List SlabCache) (m' : Machine),
      done.length + sizes.length ≤ m.slabCaches.length →
      initSlabFrom hhdm done.length sizes m = .ok m' →
      ∃ frames, m'.pmmCalls = m.pmmCalls ++ frames.map .allocated ∧
        frames.length = sizes.length ∧ m'.slabCaches.length = m.slabCaches.length ∧
        (Inited m done → frames.Nodup → (∀ phy ∈ frames, PageOk hhdm phy) →
          (∀ phy ∈ frames, phy + hhdm ∉ done.map SlabCache.slabs) →
          Inited m' (done ++ (sizes.zip frames).map fun pair => ⟨pair.1, pair.2 + hhdm⟩)) := by
  induction sizes with
  | nil =>
      intro m done m' _room finished
      obtain rfl : m = m' := Except.ok.inj finished
      exact ⟨[], by simp, rfl, rfl, fun inited _ _ _ => by simpa using inited⟩
  | cons size sizes inductionHypothesis =>
      intro m done m' room finished
      obtain ⟨positive, fits⟩ := fit size List.mem_cons_self
      rw [List.length_cons] at room
      rw [initSlabFrom, slabCacheInit] at finished
      split at finished
      · contradiction
      · obtain ⟨_, outer, finished⟩ := ok_of_bind finished
        obtain ⟨⟨page, grown⟩, made, inner⟩ := ok_of_bind outer
        obtain rfl := Except.ok.inj inner
        obtain ⟨phy, head, rfl, calls⟩ := slabHeaderInit_calls made
        dsimp only at finished
        have sameLength : grown.slabCaches.length = m.slabCaches.length := by
          obtain ⟨taken, other, takenEq, madeEq, writes, _, _⟩ :=
            slabHeaderInit_eq hhdm positive fits head
          obtain rfl : other = grown :=
            (Prod.mk.inj (Except.ok.inj (madeEq.symm.trans made))).2
          obtain ⟨_, _, _, rfl⟩ := allocatePage_ok takenEq
          rw [writes.slabCaches]
        have index : (done ++ [(⟨size, phy + hhdm⟩ : SlabCache)]).length = done.length + 1 :=
          List.length_append
        rw [← index] at finished
        obtain ⟨frames, callsRest, lengthRest, cachesRest, initedRest⟩ :=
          inductionHypothesis
            (fun other member => fit other (List.mem_cons_of_mem size member)) _ _ m'
            (by rw [List.length_set, sameLength, index]; omega) finished
        refine ⟨phy :: frames, ?_, by rw [List.length_cons, List.length_cons, lengthRest],
          by rw [cachesRest, List.length_set, sameLength], ?_⟩
        · rw [callsRest, List.map_cons]
          change grown.pmmCalls ++ _ = _
          rw [calls, List.append_assoc]
          rfl
        · intro inited distinct pagesOk unused
          obtain ⟨notLater, distinctRest⟩ := List.nodup_cons.mp distinct
          have grownInited := inited.snoc (by omega) positive fits head
            (pagesOk phy List.mem_cons_self) (unused phy List.mem_cons_self) made
          have final := initedRest grownInited distinctRest
            (fun other member => pagesOk other (List.mem_cons_of_mem phy member)) (by
              intro other member present
              rw [List.map_append] at present
              rcases List.mem_append.mp present with old | new
              · exact unused other (List.mem_cons_of_mem phy member) old
              · have same : other = phy :=
                  Nat.add_right_cancel (List.mem_singleton.mp new)
                exact notLater (same ▸ member))
          rwa [List.append_assoc] at final

/-- The view of caches with one slab each. -/
def initialSlabs (caches : List SlabCache) (size : Nat) : List Slab :=
  match caches.find? fun cache => cache.size = size with
  | some cache => [⟨cache.slabs, (slots cache.slabs cache.size).reverse⟩]
  | none => []

theorem initialSlabs_eq {caches : List SlabCache} (sizes : (caches.map SlabCache.size).Nodup)
    (member : cache ∈ caches) :
    initialSlabs caches cache.size =
      [⟨cache.slabs, (slots cache.slabs cache.size).reverse⟩] := by
  unfold initialSlabs
  cases found : caches.find? fun other => other.size = cache.size with
  | none =>
      have absent := List.find?_eq_none.mp found cache member
      simp at absent
  | some other =>
      have inCaches := List.mem_of_find?_eq_some found
      have sameSize : other.size = cache.size := by simpa using List.find?_some found
      rw [List.inj_on_of_nodup_map sizes inCaches member sameSize]

theorem initialSlabs_not_live (caches : List SlabCache) (size object : Nat) :
    ¬LiveObject (initialSlabs caches) size object := by
  rintro ⟨_, slab, member, inSlots, notFree⟩
  unfold initialSlabs at member
  split at member
  · rename_i cache found
    obtain rfl : cache.size = size := by simpa using List.find?_some found
    rw [List.mem_singleton.mp member] at inSlots notFree
    exact notFree (List.mem_reverse.mpr inSlots)
  · exact absurd member List.not_mem_nil

/-- Once every cache is set up the invariant holds, with no object live. -/
theorem Inited.slabInv (inited : Inited m m.slabCaches)
    (sizes : m.slabCaches.map SlabCache.size = slabSizes) :
    SlabInv m (initialSlabs m.slabCaches) ∧
      ∀ size object, ¬LiveObject (initialSlabs m.slabCaches) size object := by
  have distinctSizes : (m.slabCaches.map SlabCache.size).Nodup := by
    rw [sizes]
    decide
  have cacheOf : ∀ size ∈ slabSizes, ∃ cache ∈ m.slabCaches, cache.size = size := by
    intro size isSize
    rw [← sizes] at isSize
    exact List.mem_map.mp isSize
  have slabOf : ∀ size ∈ slabSizes, ∀ slab ∈ initialSlabs m.slabCaches size,
      ∃ cache ∈ m.slabCaches, cache.size = size ∧
        slab = ⟨cache.slabs, (slots cache.slabs cache.size).reverse⟩ := by
    intro size isSize slab member
    obtain ⟨cache, inCaches, rfl⟩ := cacheOf size isSize
    rw [initialSlabs_eq distinctSizes inCaches] at member
    exact ⟨cache, inCaches, rfl, List.mem_singleton.mp member⟩
  constructor
  · constructor
    case sizes => exact sizes
    case linked =>
      intro cache member
      rw [initialSlabs_eq distinctSizes member]
      exact ⟨rfl, inited.terminated cache member⟩
    case nonempty =>
      intro size isSize
      obtain ⟨cache, inCaches, rfl⟩ := cacheOf size isSize
      rw [initialSlabs_eq distinctSizes inCaches]
      exact List.cons_ne_nil _ _
    case shaped =>
      intro size isSize slab member
      obtain ⟨cache, inCaches, rfl, rfl⟩ := slabOf size isSize slab member
      exact inited.shaped cache inCaches
    case placed =>
      intro size isSize slab member
      obtain ⟨cache, inCaches, rfl, rfl⟩ := slabOf size isSize slab member
      exact inited.placed cache inCaches
    case distinct =>
      intro size isSize
      obtain ⟨cache, inCaches, rfl⟩ := cacheOf size isSize
      rw [initialSlabs_eq distinctSizes inCaches]
      exact List.nodup_singleton _
    case apart =>
      intro size isSize other isOther slab member slab' member' samePage
      obtain ⟨cache, inCaches, rfl, rfl⟩ := slabOf size isSize slab member
      obtain ⟨cache', inCaches', rfl, rfl⟩ := slabOf other isOther slab' member'
      rw [List.inj_on_of_nodup_map inited.distinct inCaches inCaches' samePage]
  · exact initialSlabs_not_live m.slabCaches

/-- `init_slab` on seven distinct pages establishes the invariant. -/
theorem initSlab_slabInv (seven : m.slabCaches.length = 7) (done : initSlab hhdm m = .ok m')
    (distinct : (takenFrames m m').Nodup) (pagesOk : ∀ phy ∈ takenFrames m m', PageOk hhdm phy) :
    SlabInv m' (initialSlabs m'.slabCaches) ∧
      (∀ size object, ¬LiveObject (initialSlabs m'.slabCaches) size object) ∧
      ∀ page, SlabPage (initialSlabs m'.slabCaches) page →
        ∃ phy ∈ takenFrames m m', page = phy + hhdm := by
  obtain ⟨frames, calls, length, caches, inited⟩ := initSlabFrom_inited slabSizes
    (fun size member => ⟨slabSizes_pos size member, slabSizes_le size member⟩) m [] m'
    (by rw [seven]; decide) done
  have takenEq : takenFrames m m' = frames := by
    have whole : m'.pmmCalls = m.pmmCalls ++ frames.map .allocated ++ [] := by
      rw [List.append_nil, calls]
    rw [takenFrames_allocated whole]
    exact List.append_nil _
  rw [takenEq] at distinct pagesOk ⊢
  have start : Inited m [] :=
    { caches := rfl
      distinct := List.nodup_nil
      placed := fun _ member => absurd member List.not_mem_nil
      shaped := fun _ member => absurd member List.not_mem_nil
      terminated := fun _ member => absurd member List.not_mem_nil }
  have final := inited start distinct pagesOk (fun _ _ => List.not_mem_nil)
  rw [List.nil_append] at final
  have whole : (slabSizes.zip frames).map (fun pair => (⟨pair.1, pair.2 + hhdm⟩ : SlabCache)) =
      m'.slabCaches := by
    have taken := final.caches
    rw [List.length_map, List.length_zip, length, Nat.min_self] at taken
    rw [← taken]
    apply List.take_of_length_le
    rw [caches, seven]
    decide
  rw [whole] at final
  have sizes : m'.slabCaches.map SlabCache.size = slabSizes := by
    rw [← whole, List.map_map]
    exact List.map_fst_zip (Nat.le_of_eq length.symm)
  obtain ⟨inv, none⟩ := final.slabInv sizes
  refine ⟨inv, none, ?_⟩
  rintro page ⟨size, isSize, slab, member, rfl⟩
  unfold initialSlabs at member
  split at member
  · rename_i cache found
    rw [List.mem_singleton.mp member]
    have inCaches := List.mem_of_find?_eq_some found
    rw [← whole] at inCaches
    obtain ⟨pair, inZip, rfl⟩ := List.mem_map.mp inCaches
    exact ⟨pair.2, (List.of_mem_zip inZip).2, rfl⟩
  · exact absurd member List.not_mem_nil

/-! ### Runs -/

/-- A frame whose page can become a slab: aligned, and not a slab yet. -/
def UnusedPage (hhdm : Nat) (m : Machine) (phy : Nat) : Prop :=
  PageOk hhdm phy ∧ ∀ size, ¬IsSlab m size (phy + hhdm)

/-- The machines that runs of the slab allocator reach, with the objects that were
handed out and not given back.  Pages that the calls take from the page allocator
are unused. -/
inductive SlabReachable (hhdm : Nat) : Machine → List Nat → Prop
  | init {m m' : Machine} (seven : m.slabCaches.length = 7)
      (done : initSlab hhdm m = .ok m') (distinct : (takenFrames m m').Nodup)
      (pagesOk : ∀ phy ∈ takenFrames m m', PageOk hhdm phy) : SlabReachable hhdm m' []
  | alloc {m m' : Machine} {live : List Nat} {request object : Nat}
      (reached : SlabReachable hhdm m live) (small : request ≤ 1024)
      (done : slabAlloc hhdm request m = .ok (some object, m'))
      (unused : ∀ phy ∈ takenFrames m m', UnusedPage hhdm m phy) :
      SlabReachable hhdm m' (object :: live)
  | dealloc {m : Machine} {live : List Nat} {object : Nat}
      (reached : SlabReachable hhdm m live) (member : object ∈ live) :
      SlabReachable hhdm (slabDealloc object m) (live.erase object)
  | use {m m' : Machine} {live : List Nat} (reached : SlabReachable hhdm m live)
      (caches : m'.slabCaches = m.slabCaches)
      (kept : ∀ size page, IsSlab m size page → ∀ address, InPage page address →
        (∀ object ∈ live, object ∈ slots page size → ¬InObject object size address) →
        m'.memory address = m.memory address) : SlabReachable hhdm m' live

/-- The live objects of a view are the listed ones. -/
structure LiveIn (slabs : Nat → List Slab) (live : List Nat) : Prop where
  distinct : live.Nodup
  mem_iff : ∀ object, object ∈ live ↔ ∃ size, LiveObject slabs size object

namespace SlabInv

theorem live_size_unique (inv : SlabInv m slabs) {size other : Nat}
    (live : LiveObject slabs size object) (live' : LiveObject slabs other object) :
    size = other :=
  (inv.live_disjoint live live' (inObject_start object (slabSizes_pos size live.1))
    (inObject_start object (slabSizes_pos other live'.1))).1

theorem pageReady (inv : SlabInv m slabs) {phy : Nat} (unused : UnusedPage hhdm m phy) :
    PageReady hhdm slabs phy where
  toPageOk := unused.1
  unused := by
    rintro ⟨size, isSize, slab, member, same⟩
    exact unused.2 size ((inv.isSlab_iff size _).mpr ⟨isSize, slab, member, same⟩)

/-- What a successful request did, if the page it may have taken was unused. -/
theorem slabAlloc_served (inv : SlabInv m slabs) (small : request ≤ 1024)
    (done : slabAlloc hhdm request m = .ok (some object, m'))
    (unused : ∀ phy ∈ takenFrames m m', UnusedPage hhdm m phy) :
    ∃ size slabs', slabClass request = some size ∧ Served slabs size object m' slabs' := by
  obtain ⟨cache, member, classEq, allocEq⟩ := inv.slabAlloc_eq hhdm small
  rw [allocEq] at done
  obtain ⟨⟨object', m''⟩, served, rest⟩ := ok_of_bind done
  obtain ⟨sameObject, rfl⟩ := Prod.mk.inj (Except.ok.inj rest)
  obtain rfl : object' = object := Option.some.inj sameObject
  rcases inv.slabCacheAlloc_cases hhdm member with
    ⟨o, after, slabs', allocated, isServed, _⟩ | ⟨full, grown⟩
  · obtain ⟨rfl, rfl⟩ := Prod.mk.inj (Except.ok.inj (allocated.symm.trans served))
    exact ⟨cache.size, slabs', classEq, isServed⟩
  · obtain ⟨phy, head, taken⟩ := inv.full_takes_page member full served
    obtain ⟨_, o, after, slabs', _, allocated, isServed, _⟩ :=
      grown phy head (inv.pageReady (unused phy taken))
    obtain ⟨rfl, rfl⟩ := Prod.mk.inj (Except.ok.inj (allocated.symm.trans served))
    exact ⟨cache.size, slabs', classEq, isServed⟩

/-- A request returns, if the next page of the page allocator is unused. -/
theorem slabAlloc_returns (inv : SlabInv m slabs) (small : request ≤ 1024) {phy : Nat}
    (head : m.freelist = some phy) (unused : UnusedPage hhdm m phy) :
    ∃ object m' size slabs', slabAlloc hhdm request m = .ok (some object, m') ∧
      slabClass request = some size ∧ Served slabs size object m' slabs' := by
  obtain ⟨cache, member, classEq, allocEq⟩ := inv.slabAlloc_eq hhdm small
  rcases inv.slabCacheAlloc_cases hhdm member with
    ⟨object, m', slabs', allocated, served, _⟩ | ⟨_, grown⟩
  · refine ⟨object, m', cache.size, slabs', ?_, classEq, served⟩
    rw [allocEq, allocated]
    rfl
  · obtain ⟨_, object, m', slabs', _, allocated, served, _⟩ :=
      grown phy head (inv.pageReady unused)
    refine ⟨object, m', cache.size, slabs', ?_, classEq, served⟩
    rw [allocEq, allocated]
    rfl

end SlabInv

theorem LiveIn.served (liveIn : LiveIn slabs live)
    (served : SlabInv.Served slabs size object m' slabs') : LiveIn slabs' (object :: live) where
  distinct := by
    refine List.nodup_cons.mpr ⟨?_, liveIn.distinct⟩
    intro member
    obtain ⟨other, isLive⟩ := (liveIn.mem_iff object).mp member
    have new : LiveObject slabs' size object := (served.live _ _).mpr (Or.inr ⟨rfl, rfl⟩)
    have old : LiveObject slabs' other object := (served.live _ _).mpr (Or.inl isLive)
    obtain rfl := served.inv.live_size_unique new old
    exact served.fresh isLive
  mem_iff := by
    intro o
    rw [List.mem_cons, liveIn.mem_iff]
    constructor
    · rintro (rfl | ⟨other, isLive⟩)
      · exact ⟨size, (served.live _ _).mpr (Or.inr ⟨rfl, rfl⟩)⟩
      · exact ⟨other, (served.live _ _).mpr (Or.inl isLive)⟩
    · rintro ⟨other, isLive⟩
      rcases (served.live _ _).mp isLive with old | ⟨_, same⟩
      · exact Or.inr ⟨other, old⟩
      · exact Or.inl same

theorem LiveIn.perm {live' : List Nat} (liveIn : LiveIn slabs live) (order : live.Perm live') :
    LiveIn slabs live' where
  distinct := order.nodup_iff.mp liveIn.distinct
  mem_iff := fun object => order.mem_iff.symm.trans (liveIn.mem_iff object)

theorem LiveIn.returned {rest : List Nat} (liveIn : LiveIn slabs (object :: rest))
    (inv : SlabInv m slabs) (isLive : LiveObject slabs size object)
    (live' : ∀ other o, LiveObject slabs' other o ↔
      LiveObject slabs other o ∧ ¬(other = size ∧ o = object)) : LiveIn slabs' rest where
  distinct := (List.nodup_cons.mp liveIn.distinct).2
  mem_iff := by
    intro o
    constructor
    · intro member
      obtain ⟨other, isLiveOther⟩ := (liveIn.mem_iff o).mp (List.mem_cons_of_mem object member)
      refine ⟨other, (live' _ _).mpr ⟨isLiveOther, ?_⟩⟩
      rintro ⟨_, rfl⟩
      exact (List.nodup_cons.mp liveIn.distinct).1 member
    · rintro ⟨other, isLiveOther⟩
      obtain ⟨old, notBoth⟩ := (live' _ _).mp isLiveOther
      rcases List.mem_cons.mp ((liveIn.mem_iff o).mpr ⟨other, old⟩) with rfl | member
      · exact absurd ⟨inv.live_size_unique old isLive, rfl⟩ notBoth
      · exact member

theorem SlabReachable.slabInv (reached : SlabReachable hhdm m live) :
    ∃ slabs, SlabInv m slabs ∧ LiveIn slabs live := by
  induction reached with
  | init seven done distinct pagesOk =>
      obtain ⟨inv, none, _⟩ := initSlab_slabInv seven done distinct pagesOk
      refine ⟨_, inv, List.nodup_nil, ?_⟩
      intro object
      apply iff_of_false List.not_mem_nil
      rintro ⟨size, isLive⟩
      exact none size object isLive
  | alloc reached small done unused inductionHypothesis =>
      obtain ⟨slabs, inv, liveIn⟩ := inductionHypothesis
      obtain ⟨size, slabs', _, served⟩ := inv.slabAlloc_served small done unused
      exact ⟨slabs', served.inv, liveIn.served served⟩
  | dealloc reached member inductionHypothesis =>
      obtain ⟨slabs, inv, liveIn⟩ := inductionHypothesis
      obtain ⟨size, isLive⟩ := (liveIn.mem_iff _).mp member
      obtain ⟨slabs', inv', live', _, _⟩ := inv.dealloc isLive
      exact ⟨slabs', inv',
        (liveIn.perm (List.perm_cons_erase member)).returned inv isLive live'⟩
  | use reached caches kept inductionHypothesis =>
      obtain ⟨slabs, inv, liveIn⟩ := inductionHypothesis
      refine ⟨slabs, inv.congr caches ?_, liveIn⟩
      rintro address ⟨size, isSize, slab, member, isPrivate⟩
      apply kept size slab.page ((inv.isSlab_iff size _).mpr ⟨isSize, slab, member, rfl⟩) address
        (inv.private_inPage isSize member isPrivate)
      intro object inLive inSlots inside
      obtain ⟨other, isLive⟩ := (liveIn.mem_iff object).mp inLive
      obtain ⟨isOther, slab', member', inSlots', notFree⟩ := isLive
      have start := inObject_start object (slabSizes_pos size isSize)
      have start' := inObject_start object (slabSizes_pos other isOther)
      obtain ⟨rfl, rfl⟩ := inv.slab_of_inPage isSize isOther member member'
        (slots_inPage inSlots start).1 (slots_inPage inSlots' start').1
      exact inv.live_not_private ⟨isSize, slab, member, inSlots, notFree⟩ inside
        ⟨size, isSize, slab, member, isPrivate⟩

/-! ### The representation invariant -/

/-- The slabs of a cache: a chain without repetition, all of the cache's size, and
in each of them a free chain of the counted length that, with the live objects, is
all the objects of the slab. -/
def CacheShape (m : Machine) (live : List Nat) (cache : SlabCache) : Prop :=
  ∃ pages, Path (fun page => m.memory (page + otherSlabsOffset)) cache.slabs pages 0 ∧
    pages.Nodup ∧ ∀ page ∈ pages, m.memory (page + objSizeOffset) = cache.size ∧
      ∃ free, Path m.memory (m.memory (page + objOffset)) free 0 ∧ free.Nodup ∧
        m.memory (page + objAmOffset) = free.length ∧
        (∀ object ∈ free, object ∈ slots page cache.size ∧ object ∉ live) ∧
        ∀ object ∈ slots page cache.size, object ∈ free ∨ object ∈ live

/-- A returned object: of the smallest class that is big enough, zero, new, and in
the slab whose header its masked address is. -/
def GoodObject (m' : Machine) (live : List Nat) (request object : Nat) : Prop :=
  ∃ size ∈ slabSizes, request ≤ size ∧
    (∀ other ∈ slabSizes, request ≤ other → size ≤ other) ∧
    (∀ address, InObject object size address → m'.memory address = 0) ∧ object ∉ live ∧
    IsSlab m' size (alignDown object pageSize) ∧
    object ∈ slots (alignDown object pageSize) size

theorem SlabInv.cacheShape (inv : SlabInv m slabs) (liveIn : LiveIn slabs live)
    (member : cache ∈ m.slabCaches) : CacheShape m live cache := by
  have isSize : cache.size ∈ slabSizes := inv.sizes ▸ List.mem_map_of_mem member
  refine ⟨_, inv.linked cache member, inv.distinct _ isSize, ?_⟩
  intro page inPages
  obtain ⟨slab, inSlabs, rfl⟩ := List.mem_map.mp inPages
  have ok := inv.shaped _ isSize slab inSlabs
  refine ⟨ok.objSize, slab.free, ok.chain, ok.distinct, ok.objAm, ?_, ?_⟩
  · intro object free
    refine ⟨ok.inSlots object free, ?_⟩
    intro inLive
    obtain ⟨size, isLive⟩ := (liveIn.mem_iff object).mp inLive
    exact inv.live_not_private isLive (inObject_start object (slabSizes_pos size isLive.1))
      ⟨_, isSize, slab, inSlabs,
        Or.inr ⟨object, free, inObject_start object (slabSizes_pos _ isSize)⟩⟩
  · intro object inSlots
    by_cases free : object ∈ slab.free
    · exact Or.inl free
    · exact Or.inr ((liveIn.mem_iff object).mpr ⟨_, isSize, slab, inSlabs, inSlots, free⟩)

theorem LiveIn.goodObject (liveIn : LiveIn slabs live) (small : request ≤ 1024)
    (classEq : slabClass request = some size) (served : SlabInv.Served slabs size object m' slabs') :
    GoodObject m' live request object := by
  obtain ⟨size', isSize, classEq', enough, least⟩ := slabClass_spec small
  obtain rfl : size = size' := Option.some.inj (classEq.symm.trans classEq')
  have new := liveIn.served served
  obtain ⟨_, slab, member, inSlots, _⟩ := (served.live size object).mpr (Or.inr ⟨rfl, rfl⟩)
  have placed := served.inv.placed size isSize slab member
  have masked := alignDown_slot placed.1 placed.2.2 inSlots
  refine ⟨size, isSize, enough, least, served.zeroed, (List.nodup_cons.mp new.distinct).1, ?_, ?_⟩
  · rw [masked]
    exact (served.inv.isSlab_iff size _).mpr ⟨isSize, slab, member, rfl⟩
  · rwa [masked]

/-- In every run of the slab allocator each cache keeps its shape, and every
request returns a good object as long as the page allocator has an unused page. -/
theorem slab_representation (hhdm : Nat) (m : Machine) (live : List Nat)
    (reached : SlabReachable hhdm m live) :
    m.slabCaches.map SlabCache.size = slabSizes ∧ live.Nodup ∧
      (∀ cache ∈ m.slabCaches, CacheShape m live cache) ∧
      (∀ object ∈ live, ∃ size, IsSlab m size (alignDown object pageSize) ∧
        object ∈ slots (alignDown object pageSize) size) ∧
      (∀ request ≤ 1024, ∀ object m', slabAlloc hhdm request m = .ok (some object, m') →
        (∀ phy ∈ takenFrames m m', UnusedPage hhdm m phy) → GoodObject m' live request object) ∧
      ∀ request ≤ 1024, ∀ phy, m.freelist = some phy → UnusedPage hhdm m phy →
        ∃ object m', slabAlloc hhdm request m = .ok (some object, m') ∧
          GoodObject m' live request object := by
  obtain ⟨slabs, inv, liveIn⟩ := reached.slabInv
  refine ⟨inv.sizes, liveIn.distinct, fun cache => inv.cacheShape liveIn, ?_, ?_, ?_⟩
  · intro object inLive
    obtain ⟨size, isSize, slab, member, inSlots, _⟩ := (liveIn.mem_iff object).mp inLive
    have placed := inv.placed size isSize slab member
    have masked := alignDown_slot placed.1 placed.2.2 inSlots
    refine ⟨size, ?_, ?_⟩
    · rw [masked]
      exact (inv.isSlab_iff size _).mpr ⟨isSize, slab, member, rfl⟩
    · rwa [masked]
  · intro request small object m' done unused
    obtain ⟨size, slabs', classEq, served⟩ := inv.slabAlloc_served small done unused
    exact liveIn.goodObject small classEq served
  · intro request small phy head unused
    obtain ⟨object, m', size, slabs', done, classEq, served⟩ :=
      inv.slabAlloc_returns small head unused
    exact ⟨object, m', done, liveIn.goodObject small classEq served⟩

/-- While no object is live, a request needs no page. -/
theorem SlabReachable.first_alloc (reached : SlabReachable hhdm m []) (small : request ≤ 1024) :
    ∃ object m', slabAlloc hhdm request m = .ok (some object, m') ∧ takenFrames m m' = [] := by
  obtain ⟨slabs, inv, liveIn⟩ := reached.slabInv
  obtain ⟨cache, member, _, allocEq⟩ := inv.slabAlloc_eq hhdm small
  rcases inv.slabCacheAlloc_cases hhdm member with
    ⟨object, m', _, allocated, _, writes, _⟩ | ⟨full, _⟩
  · refine ⟨object, m', by rw [allocEq, allocated]; rfl, ?_⟩
    rw [takenFrames, writes.pmmCalls, List.drop_length]
    rfl
  · have isSize : cache.size ∈ slabSizes := inv.sizes ▸ List.mem_map_of_mem member
    obtain ⟨slab, inSlabs⟩ := List.exists_mem_of_ne_nil _ (inv.nonempty cache.size isSize)
    have first := SlabInv.first_slot slab.page isSize
    have notFree : slot slab.page cache.size 0 ∉ slab.free := by
      rw [full slab inSlabs]
      exact List.not_mem_nil
    exact absurd ((liveIn.mem_iff _).mpr ⟨_, isSize, slab, inSlabs, first, notFree⟩)
      List.not_mem_nil

/-! ### After `pmm::init` -/

theorem liveFrames_map_allocated (hhdm : Nat) (frames : List Nat) :
    liveFrames hhdm (frames.map .allocated) = frames.reverse := by
  have general : ∀ live : List Nat,
      (frames.map PmmCall.allocated).foldl (afterCall hhdm) live = frames.reverse ++ live := by
    induction frames with
    | nil => exact fun live => rfl
    | cons frame frames inductionHypothesis =>
        intro live
        rw [List.map_cons, List.foldl_cons, inductionHypothesis, List.reverse_cons,
          List.append_assoc]
        rfl
  rw [liveFrames, general, List.append_nil]

theorem initFreelist_caches (hhdm : Nat) (entries : List MemmapEntry) (m : Machine) :
    (initFreelist hhdm entries m).slabCaches = m.slabCaches := by
  rw [initFreelist_eq]
  induction entries.flatMap usablePages generalizing m with
  | nil => rfl
  | cons page pages inductionHypothesis =>
      rw [List.foldl_cons, inductionHypothesis]
      unfold initPage
      split
      · rfl
      · rfl

/-- The frames allocated after `pmm::init` are those of the caches. -/
theorem pmmInit_taken (map : MemoryMap) (fresh : m.freelist = none) (uncalled : m.pmmCalls = [])
    (seven : m.slabCaches.length = 7) (done : pmmInit map.hhdm map.entries m = .ok m') :
    (initFreelist map.hhdm map.entries m).slabCaches.length = 7 ∧
      liveFrames map.hhdm m'.pmmCalls =
        (takenFrames (initFreelist map.hhdm map.entries m) m').reverse ∧
      m'.pmmCalls = (takenFrames (initFreelist map.hhdm map.entries m) m').map .allocated := by
  have listed : (initFreelist map.hhdm map.entries m).slabCaches.length = 7 := by
    rw [initFreelist_caches, seven]
  have calls := (initFreelist_chain map fresh).2
  rw [uncalled] at calls
  obtain ⟨frames, callsEq, _, _, _⟩ := initSlabFrom_inited slabSizes
    (fun size member => ⟨slabSizes_pos size member, slabSizes_le size member⟩) _ [] m'
    (by rw [listed]; decide) done
  have whole : m'.pmmCalls = (initFreelist map.hhdm map.entries m).pmmCalls ++
      frames.map .allocated ++ [] := by
    rw [List.append_nil, callsEq]
  refine ⟨listed, ?_⟩
  rw [takenFrames_allocated whole, callsEq, calls, List.nil_append, liveFrames_map_allocated]
  simp

/-- With enough frames `pmm::init` leaves the caches set up on usable frames. -/
theorem pmmInit_slabReachable (map : MemoryMap) (fresh : m.freelist = none)
    (uncalled : m.pmmCalls = []) (seven : m.slabCaches.length = 7)
    (enough : slabSizes.length ≤ map.frames.length)
    (pagesOk : ∀ frame ∈ map.frames, PageOk map.hhdm frame) :
    ∃ m', pmmInit map.hhdm map.entries m = .ok m' ∧
      Conserved map m' (map.frames.reverse.drop slabSizes.length) ∧
      SlabReachable map.hhdm m' [] := by
  obtain ⟨m', initEq, conserved⟩ := pmmInit_conserved map fresh uncalled enough
  obtain ⟨listed, live, _⟩ := pmmInit_taken map fresh uncalled seven initEq
  refine ⟨m', initEq, conserved, SlabReachable.init listed initEq ?_ ?_⟩
  · have distinct := (List.nodup_append.mp conserved.nodup).2.1
    rwa [live, List.nodup_reverse] at distinct
  · intro phy member
    apply pagesOk
    apply (conserved.mem_frames_iff phy).mp
    rw [live, List.mem_reverse]
    exact Or.inr member

/-- The first object after `pmm::init`. -/
theorem slab_representation_low_map :
    ∃ m object m', SlabReachable (lowMap 9).hhdm m [] ∧
      slabAlloc (lowMap 9).hhdm 48 m = .ok (some object, m') ∧ GoodObject m' [] 48 object ∧
      (∀ cache ∈ m'.slabCaches, CacheShape m' [object] cache) ∧
      ∃ size, IsSlab m' size (alignDown object pageSize) ∧
        object ∈ slots (alignDown object pageSize) size := by
  have pagesOk : ∀ frame ∈ (lowMap 9).frames, PageOk (lowMap 9).hhdm frame := by
    have each : ∀ frame ∈ (lowMap 9).frames, (frame + (lowMap 9).hhdm) % pageSize = 0 ∧
        0 < frame + (lowMap 9).hhdm ∧ frame + (lowMap 9).hhdm + pageSize ≤ addressSpace := by
      decide
    exact fun frame member => ⟨(each frame member).1, (each frame member).2.1,
      (each frame member).2.2⟩
  obtain ⟨m, _, _, reached⟩ := pmmInit_slabReachable (lowMap 9) (m := bareMachine fun _ => 0)
    rfl rfl rfl (by decide) pagesOk
  obtain ⟨object, m', done, none⟩ := reached.first_alloc (show 48 ≤ 1024 by decide)
  have unused : ∀ phy ∈ takenFrames m m', UnusedPage (lowMap 9).hhdm m phy := by
    intro phy taken
    rw [none] at taken
    exact absurd taken List.not_mem_nil
  obtain ⟨_, _, _, _, good, _⟩ := slab_representation (lowMap 9).hhdm m [] reached
  obtain ⟨_, _, shapes, slabs, _⟩ := slab_representation (lowMap 9).hhdm m' [object]
    (reached.alloc (by decide) done unused)
  exact ⟨m, object, m', reached, done, good 48 (by decide) object m' done unused, shapes,
    slabs object List.mem_cons_self⟩

end NyauxKernel.Memory
