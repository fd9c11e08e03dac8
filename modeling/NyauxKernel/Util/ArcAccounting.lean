/-
Reference accounting of the lists of reference-counted items.

Along every run the strong count of an item is the number of its handles outside the
lists, plus one if it is in a list, plus one for every time it was cut out of a list by
`remove`.  The last part is a leak: without `remove` the counts are exact, and an item is
destroyed when its last handle goes and it is in no list.
-/

import NyauxKernel.Util.ArcLists

namespace NyauxKernel.Lists

section Counting

variable {ι T : Type}

/-! ### Items that are alive -/

/-- The items there were at the start are alive or were destroyed once, and there are no
others. -/
structure Alive (start : T → Nat) (heap : ArcHeap T) : Prop where
  existed : ∀ item, 0 < heap.strong item → 0 < start item
  destroyed : ∀ item, item ∈ heap.destroyed ↔ 0 < start item ∧ heap.strong item = 0
  once : heap.destroyed.Nodup

variable {start : T → Nat} {heap : ArcHeap T} {contents : ι → List T} {index : ι} {items : List T}
  {item : T}

theorem Alive.relinked (alive : Alive start heap) (nodes : Nodes) :
    Alive start { heap with nodes := nodes } where
  existed := alive.existed
  destroyed := alive.destroyed
  once := alive.once

/-! ### Counting members -/

variable [DecidableEq ι]

open Classical in
/-- How many of the lists hold the item, if no two do. -/
noncomputable def listedCount (contents : ι → List T) (item : T) : Nat :=
  if Listed contents item then 1 else 0

theorem ArcState.pool_put (s : ArcState ι T) (index : ι) (list : ArcInvasiveList)
    (heap : ArcHeap T) (handles : T → Nat) :
    (s.put index list heap handles).pool = s.pool.put index (list.inner, heap.nodes) :=
  congrArg (Pool.mk heap.nodes) (OwningList.inner_update s.lists index list)

theorem listed_update
    (apart : ∀ left right item, item ∈ contents left → item ∈ contents right → left = right) :
    Listed (Function.update contents index items) item ↔
      item ∈ items ∨ (Listed contents item ∧ item ∉ contents index) := by
  constructor
  · rintro ⟨other, member⟩
    by_cases chosen : other = index
    · subst chosen
      rw [Function.update_self] at member
      exact Or.inl member
    · rw [Function.update_of_ne chosen] at member
      exact Or.inr ⟨⟨other, member⟩, fun mine => chosen (apart other index item member mine)⟩
  · rintro (member | ⟨⟨other, member⟩, absent⟩)
    · exact ⟨index, by rwa [Function.update_self]⟩
    · have different : other ≠ index := by
        rintro rfl
        exact absent member
      exact ⟨other, by rwa [Function.update_of_ne different]⟩

variable [DecidableEq T]

/-- Another sequence for one list: its old members are given up for the new ones. -/
theorem listedCount_update
    (apart : ∀ left right item, item ∈ contents left → item ∈ contents right → left = right)
    (own : ∀ item ∈ items, item ∈ contents index ∨ ¬Listed contents item) (item : T) :
    listedCount (Function.update contents index items) item +
        (if item ∈ contents index then 1 else 0) =
      listedCount contents item + if item ∈ items then 1 else 0 := by
  classical
  unfold listedCount
  simp only [listed_update apart]
  by_cases mine : item ∈ contents index
  · have listed : Listed contents item := ⟨index, mine⟩
    simp [mine, listed, Nat.add_comm]
  · by_cases inside : item ∈ items
    · have unlisted : ¬Listed contents item := (own item inside).resolve_left mine
      simp [mine, inside, unlisted]
    · simp [mine, inside]

theorem listedCount_linked
    (apart : ∀ left right item, item ∈ contents left → item ∈ contents right → left = right)
    (unlisted : ¬Listed contents item)
    (members : ∀ other, other ∈ items ↔ other = item ∨ other ∈ contents index) (other : T) :
    listedCount (Function.update contents index items) other =
      listedCount contents other + if other = item then 1 else 0 := by
  have own : ∀ member ∈ items, member ∈ contents index ∨ ¬Listed contents member := by
    intro member inside
    rcases (members member).mp inside with rfl | older
    · exact Or.inr unlisted
    · exact Or.inl older
  have updated := listedCount_update apart own other
  rw [if_congr (members other) rfl rfl] at updated
  by_cases same : other = item
  · have absent : other ∉ contents index := fun mine => unlisted ⟨index, same ▸ mine⟩
    rw [if_neg absent, if_pos (Or.inl same)] at updated
    rw [if_pos same]
    exact updated
  · simp only [same, false_or, if_false] at updated ⊢
    omega

theorem listedCount_unlinked
    (apart : ∀ left right item, item ∈ contents left → item ∈ contents right → left = right)
    (member : item ∈ contents index)
    (members : ∀ other, other ∈ items ↔ other ∈ contents index ∧ other ≠ item) (other : T) :
    listedCount contents other =
      listedCount (Function.update contents index items) other + if other = item then 1 else 0 := by
  have own : ∀ kept ∈ items, kept ∈ contents index ∨ ¬Listed contents kept :=
    fun kept inside => Or.inl ((members kept).mp inside).1
  have updated := listedCount_update apart own other
  rw [if_congr (members other) rfl rfl] at updated
  by_cases same : other = item
  · rw [if_pos (same ▸ member), if_neg fun both => both.2 same] at updated
    rw [if_pos same]
    omega
  · simp only [same, ne_eq, not_false_eq_true, and_true, if_false] at updated ⊢
    omega

theorem giveHandle_add {handles : T → Nat} {given : T} (held : 0 < handles given) (item : T) :
    giveHandle handles given item + (if item = given then 1 else 0) = handles item := by
  unfold giveHandle
  by_cases same : item = given
  · subst same
    rw [Function.update_self, if_pos rfl]
    omega
  · rw [Function.update_of_ne same, if_neg same, Nat.add_zero]

theorem getHandle_eq (handles : T → Nat) (got item : T) :
    getHandle handles got item = handles item + if item = got then 1 else 0 := by
  unfold getHandle
  by_cases same : item = got
  · subst same
    rw [Function.update_self, if_pos rfl]
  · rw [Function.update_of_ne same, if_neg same, Nat.add_zero]

theorem ArcHeap.cloneArc_strong (heap : ArcHeap T) (cloned item : T) :
    (heap.cloneArc cloned).strong item = heap.strong item + if item = cloned then 1 else 0 :=
  getHandle_eq heap.strong cloned item

/-! ### Dropping and cloning -/

theorem Alive.released {heap' : ArcHeap T} (alive : Alive start heap)
    (released : Released heap items heap') : Alive start heap' where
  existed := by
    intro item held
    apply alive.existed
    rw [released.strong]
    omega
  destroyed := by
    intro item
    rw [released.destroyed, alive.destroyed]
    have counted := released.strong item
    have existed := alive.existed item
    constructor
    · rintro (⟨began, zero⟩ | ⟨dropped, last⟩)
      · exact ⟨began, by omega⟩
      · rw [if_pos dropped] at counted
        exact ⟨existed (by omega), by omega⟩
    · rintro ⟨began, zero⟩
      by_cases dropped : item ∈ items
      · rw [if_pos dropped] at counted
        exact Or.inr ⟨dropped, by omega⟩
      · rw [if_neg dropped] at counted
        exact Or.inl ⟨began, by omega⟩
  once := released.distinct alive.once fun item member => ((alive.destroyed item).mp member).2

theorem Alive.cloneArc (alive : Alive start heap) (held : 0 < heap.strong item) :
    Alive start (heap.cloneArc item) where
  existed := by
    intro other present
    rw [heap.cloneArc_strong] at present
    by_cases same : other = item
    · exact same ▸ alive.existed item held
    · rw [if_neg same] at present
      exact alive.existed other present
  destroyed := by
    intro other
    rw [heap.cloneArc_strong]
    refine (alive.destroyed other).trans (and_congr_right fun _ => ?_)
    by_cases same : other = item
    · subst same
      rw [if_pos rfl]
      omega
    · rw [if_neg same, Nat.add_zero]
  once := alive.once

end Counting

variable {ι T : Type} [HasListNode T] [DecidableEq T]

/-! ### The counts -/

/-- The lists hold `contents`, and `removed` are the items that `remove` cut out. -/
structure ArcInv (start : T → Nat) (removed : List T) (s : ArcState ι T)
    (contents : ι → List T) : Prop where
  represents : Represents s.pool contents
  counts : ∀ item, s.heap.strong item =
    s.handles item + listedCount contents item + removed.count item
  alive : Alive start s.heap

namespace ArcInv

variable {start : T → Nat} {removed : List T} {s : ArcState ι T} {contents : ι → List T}

theorem start_inv (handles : T → Nat) :
    ArcInv handles [] (ArcState.start ι handles) (fun _ => []) where
  represents := Represents.new
  counts := by
    intro item
    have unlisted : ¬Listed (fun _ : ι => ([] : List T)) item := by
      rintro ⟨index, member⟩
      exact List.not_mem_nil member
    change handles item = handles item + listedCount _ item + 0
    rw [listedCount, if_neg unlisted, Nat.add_zero]
  alive :=
    { existed := fun _ held => held
      destroyed := by
        intro item
        change item ∈ [] ↔ 0 < handles item ∧ handles item = 0
        constructor
        · intro member
          exact absurd member List.not_mem_nil
        · rintro ⟨began, none⟩
          omega
      once := List.nodup_nil }

theorem inList_iff (inv : ArcInv start removed s contents) (item : T) :
    s.InList item ↔ Listed contents item := by
  constructor
  · rintro ⟨index, items, found, member⟩
    have known := inv.represents.iter_eq index
    rw [show (s.pool.lists index).iter s.pool.nodes = some items from found] at known
    exact ⟨index, Option.some.inj known ▸ member⟩
  · rintro ⟨index, member⟩
    exact ⟨index, contents index, inv.represents.iter_eq index, member⟩

theorem held (inv : ArcInv start removed s contents) {item : T} (handle : 0 < s.handles item) :
    0 < s.heap.strong item := by
  have counted := inv.counts item
  omega

theorem listed_held (inv : ArcInv start removed s contents) {item : T}
    (listed : Listed contents item) : 0 < s.heap.strong item := by
  have counted := inv.counts item
  rw [listedCount, if_pos listed] at counted
  omega

end ArcInv

/-- The strong count is the number of handles outside the lists, plus one for a member. -/
def Accounted (s : ArcState ι T) : Prop :=
  ∀ item, (s.InList item → s.heap.strong item = s.handles item + 1) ∧
    (¬s.InList item → s.heap.strong item = s.handles item)

theorem ArcInv.accounted_iff {start : T → Nat} {removed : List T} {s : ArcState ι T}
    {contents : ι → List T} (inv : ArcInv start removed s contents) :
    Accounted s ↔ removed = [] := by
  constructor
  · intro accounted
    refine List.eq_nil_iff_forall_not_mem.mpr ?_
    intro item cut
    have some := List.count_pos_iff.mpr cut
    have counted := inv.counts item
    obtain ⟨inside, outside⟩ := accounted item
    rw [inv.inList_iff] at inside outside
    unfold listedCount at counted
    by_cases listed : Listed contents item
    · rw [if_pos listed, inside listed] at counted
      omega
    · rw [if_neg listed, outside listed] at counted
      omega
  · rintro rfl item
    have counted := inv.counts item
    rw [inv.inList_iff]
    unfold listedCount at counted
    constructor
    · intro listed
      rwa [if_pos listed] at counted
    · intro unlisted
      rwa [if_neg unlisted] at counted

variable [DecidableEq ι]

/-! ### Pushes and pops of the inner list -/

/-- What a push does: it is refused if the item is in a list, and done otherwise. -/
inductive Pushed (pool : Pool ι) (contents : ι → List T) (index : ι) (item : T) :
    Except Unit Unit × InvasiveList × Nodes → Prop
  | refused {update : InvasiveList × Nodes}
      (represents : Represents (pool.put index update) contents) :
      Pushed pool contents index item (.error (), update)
  | linked {update : InvasiveList × Nodes} (items : List T) (unlisted : ¬Listed contents item)
      (represents : Represents (pool.put index update) (Function.update contents index items))
      (members : ∀ other, other ∈ items ↔ other = item ∨ other ∈ contents index) :
      Pushed pool contents index item (.ok (), update)

/-- What a pop does: it takes a member, if there is one. -/
inductive Popped (pool : Pool ι) (contents : ι → List T) (index : ι) :
    Option T × InvasiveList × Nodes → Prop
  | empty {update : InvasiveList × Nodes}
      (represents : Represents (pool.put index update) contents) :
      Popped pool contents index (none, update)
  | unlinked {update : InvasiveList × Nodes} (item : T) (items : List T)
      (member : item ∈ contents index)
      (represents : Represents (pool.put index update) (Function.update contents index items))
      (members : ∀ other, other ∈ items ↔ other ∈ contents index ∧ other ≠ item) :
      Popped pool contents index (some item, update)

namespace Represents

variable {pool : Pool ι} {contents : ι → List T}

theorem pushedFront (represents : Represents pool contents) (index : ι) (item : T) :
    Pushed pool contents index item ((pool.lists index).pushFront pool.nodes item) := by
  obtain ⟨pool', stepEq, after⟩ := represents.pushFront index item
  simp only [Pool.step, Option.some.injEq, Prod.mk.injEq] at stepEq
  obtain ⟨reply, rfl⟩ := stepEq
  generalize (pool.lists index).pushFront pool.nodes item = outcome at reply after ⊢
  obtain ⟨result, update⟩ := outcome
  by_cases listed : Listed contents item
  · simp only [dequeStep, if_pos listed, Reply.result.injEq] at reply after
    subst reply
    exact Pushed.refused after
  · simp only [dequeStep, if_neg listed, Reply.result.injEq] at reply after
    subst reply
    exact Pushed.linked _ listed after fun other => List.mem_cons

theorem pushedBack (represents : Represents pool contents) (index : ι) (item : T) :
    Pushed pool contents index item ((pool.lists index).pushBack pool.nodes item) := by
  obtain ⟨pool', stepEq, after⟩ := represents.pushBack index item
  simp only [Pool.step, Option.some.injEq, Prod.mk.injEq] at stepEq
  obtain ⟨reply, rfl⟩ := stepEq
  generalize (pool.lists index).pushBack pool.nodes item = outcome at reply after ⊢
  obtain ⟨result, update⟩ := outcome
  by_cases listed : Listed contents item
  · simp only [dequeStep, if_pos listed, Reply.result.injEq] at reply after
    subst reply
    exact Pushed.refused after
  · simp only [dequeStep, if_neg listed, Reply.result.injEq] at reply after
    subst reply
    refine Pushed.linked _ listed after fun other => ?_
    rw [List.mem_append, List.mem_singleton, or_comm]

theorem poppedFront (represents : Represents pool contents) (index : ι) :
    Popped pool contents index ((pool.lists index).popFront (T := T) pool.nodes) := by
  obtain ⟨pool', stepEq, after⟩ := represents.popFront index
  simp only [Pool.step, Option.some.injEq, Prod.mk.injEq] at stepEq
  obtain ⟨reply, rfl⟩ := stepEq
  generalize (pool.lists index).popFront (T := T) pool.nodes = outcome at reply after ⊢
  obtain ⟨result, update⟩ := outcome
  have distinct := represents.nodup index
  simp only [dequeStep, Reply.item.injEq] at reply after
  subst reply
  cases found : contents index with
  | nil =>
      rw [found, List.tail_nil, ← found, Function.update_eq_self] at after
      exact Popped.empty after
  | cons item rest =>
      rw [found] at after distinct
      refine Popped.unlinked item rest (found ▸ List.mem_cons_self) after fun other => ?_
      have absent := (List.nodup_cons.mp distinct).1
      rw [found, List.mem_cons]
      constructor
      · intro member
        exact ⟨Or.inr member, fun same => absent (same ▸ member)⟩
      · rintro ⟨same | member, different⟩
        · exact absurd same different
        · exact member

theorem poppedBack (represents : Represents pool contents) (index : ι) :
    Popped pool contents index ((pool.lists index).popBack (T := T) pool.nodes) := by
  obtain ⟨pool', stepEq, after⟩ := represents.popBack index
  simp only [Pool.step, Option.some.injEq, Prod.mk.injEq] at stepEq
  obtain ⟨reply, rfl⟩ := stepEq
  generalize (pool.lists index).popBack (T := T) pool.nodes = outcome at reply after ⊢
  obtain ⟨result, update⟩ := outcome
  have distinct := represents.nodup index
  simp only [dequeStep, Reply.item.injEq] at reply after
  subst reply
  rcases List.eq_nil_or_concat (contents index) with found | ⟨rest, item, found⟩
  · rw [found, List.dropLast_nil, ← found, Function.update_eq_self] at after
    rw [found]
    exact Popped.empty after
  · rw [List.concat_eq_append] at found
    rw [found, List.dropLast_concat] at after
    rw [found] at distinct
    rw [found, List.getLast?_concat]
    refine Popped.unlinked item rest ?_ after fun other => ?_
    · rw [found]
      exact List.mem_append_right rest List.mem_cons_self
    · have absent : item ∉ rest := fun present =>
        (List.nodup_append.mp distinct).2.2 item present item List.mem_cons_self rfl
      rw [found, List.mem_append, List.mem_singleton]
      constructor
      · intro member
        exact ⟨Or.inl member, fun same => absent (same ▸ member)⟩
      · rintro ⟨member | same, different⟩
        · exact member
        · exact absurd same different

end Represents

/-! ### The counts along a run -/

namespace ArcInv

variable {start : T → Nat} {removed : List T} {s : ArcState ι T} {contents : ι → List T}

variable {item : T} {index : ι} {op : ArcOp ι T}

theorem clone (inv : ArcInv start removed s contents) (handle : 0 < s.handles item) :
    ∃ s', s.step (.clone item) = some s' ∧ ArcInv start removed s' contents := by
  refine ⟨_, rfl, inv.represents, ?_, inv.alive.cloneArc (inv.held handle)⟩
  intro other
  have counted := inv.counts other
  have got := getHandle_eq s.handles item other
  rw [s.heap.cloneArc_strong]
  change _ = getHandle s.handles item other + _ + _
  omega

theorem dropHandle (inv : ArcInv start removed s contents) (handle : 0 < s.handles item) :
    ∃ s', s.step (.dropHandle item) = some s' ∧ ArcInv start removed s' contents := by
  obtain ⟨heap', dropped, nodesEq, released⟩ := s.heap.dropArc_eq (inv.held handle)
  let s' : ArcState ι T := { s with heap := heap', handles := giveHandle s.handles item }
  refine ⟨s', by rw [ArcState.step, dropped, Option.map_some], ?_, ?_, ?_⟩
  · have same : s'.pool = s.pool := congrArg (fun nodes => Pool.mk nodes s.pool.lists) nodesEq
    rw [same]
    exact inv.represents
  · intro other
    have counted := inv.counts other
    have given := giveHandle_add handle other
    have strong := released.strong other
    rw [if_congr List.mem_singleton rfl rfl] at strong
    change heap'.strong other = giveHandle s.handles item other + _ + _
    omega
  · exact inv.alive.released released

theorem push (inv : ArcInv start removed s contents)
    {push : InvasiveList → Nodes → T → Except Unit Unit × InvasiveList × Nodes}
    (handle : 0 < s.handles item)
    (pushed : Pushed s.pool contents index item (push (s.lists index).inner s.heap.nodes item)) :
    ∃ s' contents',
      s.afterPush index item (ArcHeap.items.pushWith push (s.lists index) s.heap item) =
        some s' ∧
      ArcInv start removed s' contents' := by
  unfold ItemHeap.pushWith
  change Pushed _ _ _ _ (push (s.lists index).inner (ArcHeap.items.nodes s.heap) item) at pushed
  generalize push (s.lists index).inner (ArcHeap.items.nodes s.heap) item = outcome at pushed ⊢
  have given := giveHandle_add handle
  cases pushed with
  | @refused update represents =>
      let relinked : ArcHeap T := { s.heap with nodes := update.2 }
      obtain ⟨heap', dropped, nodesEq, released⟩ := relinked.dropArc_eq (inv.held handle)
      let s' := s.put index { inner := update.1 } heap' (giveHandle s.handles item)
      refine ⟨s', contents, ?_, ?_, ?_, ?_⟩
      · change s.afterPush index item ((relinked.dropArc item).map _) = _
        rw [dropped]
        rfl
      · rw [s.pool_put, nodesEq]
        exact represents
      · intro other
        have counted := inv.counts other
        have kept := given other
        have strong : s.heap.strong other = _ := released.strong other
        rw [if_congr List.mem_singleton rfl rfl] at strong
        change heap'.strong other = giveHandle s.handles item other + _ + _
        omega
      · exact (inv.alive.relinked update.2).released released
  | @linked update items unlisted represents members =>
      refine ⟨_, Function.update contents index items, rfl, ?_, ?_, inv.alive.relinked update.2⟩
      · rw [s.pool_put]
        exact represents
      · intro other
        have counted := inv.counts other
        have kept := given other
        have linked := listedCount_linked inv.represents.apart unlisted members other
        change s.heap.strong other = giveHandle s.handles item other + listedCount _ other + _
        omega

theorem pop (inv : ArcInv start removed s contents)
    {pop : InvasiveList → Nodes → Option T × InvasiveList × Nodes}
    (popped : Popped s.pool contents index (pop (s.lists index).inner s.heap.nodes)) :
    ∃ contents', ArcInv start removed
      (s.afterPop index (ArcHeap.items.popWith pop (s.lists index) s.heap)) contents' := by
  unfold ItemHeap.popWith
  change Popped _ _ _ (pop (s.lists index).inner (ArcHeap.items.nodes s.heap)) at popped
  generalize pop (s.lists index).inner (ArcHeap.items.nodes s.heap) = outcome at popped ⊢
  cases popped with
  | @empty update represents =>
      refine ⟨contents, ?_, inv.counts, inv.alive.relinked update.2⟩
      unfold ArcState.afterPop
      rw [s.pool_put]
      exact represents
  | @unlinked update item items member represents members =>
      refine ⟨Function.update contents index items, ?_, ?_, inv.alive.relinked update.2⟩
      · unfold ArcState.afterPop
        rw [s.pool_put]
        exact represents
      · intro other
        have counted := inv.counts other
        have got := getHandle_eq s.handles item other
        have unlinked := listedCount_unlinked inv.represents.apart member members other
        change s.heap.strong other = getHandle s.handles item other + listedCount _ other + _
        omega

/-- The item is no longer a member, and its count is what it was. -/
theorem remove (inv : ArcInv start removed s contents) (member : item ∈ contents index) :
    ∃ s' contents', s.step (.remove index item) = some s' ∧
      ArcInv start (removed ++ [item]) s' contents' := by
  have found := inv.represents.contains_eq index item
  rw [decide_eq_true member] at found
  have result : (s.lists index).remove s.heap item =
      some ({ inner := ((s.lists index).inner.remove s.heap.nodes item).1 },
        { s.heap with nodes := ((s.lists index).inner.remove s.heap.nodes item).2 }) := by
    unfold ArcInvasiveList.remove ItemHeap.remove
    rw [show (s.lists index).inner.contains (ArcHeap.items.nodes s.heap) item = some true from found]
    rfl
  refine ⟨_, Function.update contents index ((contents index).erase item),
    by rw [ArcState.step, result, Option.map_some], ?_, ?_,
    inv.alive.relinked ((s.lists index).inner.remove s.heap.nodes item).2⟩
  · rw [s.pool_put]
    exact inv.represents.removed index item member
  · intro other
    have counted := inv.counts other
    have members : ∀ kept, kept ∈ (contents index).erase item ↔
        kept ∈ contents index ∧ kept ≠ item := by
      intro kept
      rw [(inv.represents.nodup index).mem_erase_iff, and_comm]
    have unlinked := listedCount_unlinked inv.represents.apart member members other
    have cut : [item].count other = if other = item then 1 else 0 := by
      by_cases same : other = item
      · simp [same]
      · simp [same, Ne.symm same]
    rw [List.count_append, cut]
    change s.heap.strong other = s.handles other + listedCount _ other + _
    omega

theorem clear (inv : ArcInv start removed s contents) (index : ι) :
    ∃ heap' contents', (s.lists index).clear s.heap = some (ArcInvasiveList.new, heap') ∧
      ArcInv start removed (s.put index ArcInvasiveList.new heap' s.handles) contents' := by
  obtain ⟨heap', result, released, news, same⟩ :=
    ArcInvasiveList.clear_eq (inv.represents.shape index)
      (fun item member => inv.listed_held ⟨index, member⟩)
  refine ⟨heap', Function.update contents index [], result, ?_, ?_, inv.alive.released released⟩
  · rw [s.pool_put]
    exact inv.represents.put index (contents index) [] (Shape.nil_new _ _ rfl rfl) same
      (fun _ member => Or.inl member) (fun _ member => absurd member List.not_mem_nil)
      (fun _ member => member) (fun item member _absent => news item member)
  · intro item
    have counted := inv.counts item
    have emptied : listedCount (Function.update contents index []) item +
        (if item ∈ contents index then 1 else 0) = listedCount contents item + _ :=
      listedCount_update inv.represents.apart (fun _ member => absurd member List.not_mem_nil) item
    have strong := released.strong item
    rw [if_neg List.not_mem_nil] at emptied
    change heap'.strong item = s.handles item + listedCount _ item + _
    omega

theorem step_kept (inv : ArcInv start removed s contents) (enabled : Enabled s op)
    (keeps : op.removes = none) :
    ∃ s' contents', s.step op = some s' ∧ ArcInv start removed s' contents' := by
  cases op with
  | clone item =>
      obtain ⟨s', done, after⟩ := inv.clone (enabled.handle item rfl)
      exact ⟨s', contents, done, after⟩
  | dropHandle item =>
      obtain ⟨s', done, after⟩ := inv.dropHandle (enabled.handle item rfl)
      exact ⟨s', contents, done, after⟩
  | pushFront index item =>
      exact inv.push (enabled.handle item rfl) (inv.represents.pushedFront index item)
  | pushBack index item =>
      exact inv.push (enabled.handle item rfl) (inv.represents.pushedBack index item)
  | popFront index =>
      obtain ⟨contents', after⟩ := inv.pop (inv.represents.poppedFront index)
      exact ⟨_, contents', rfl, after⟩
  | popBack index =>
      obtain ⟨contents', after⟩ := inv.pop (inv.represents.poppedBack index)
      exact ⟨_, contents', rfl, after⟩
  | remove index item => cases keeps
  | clear index =>
      obtain ⟨heap', contents', result, after⟩ := inv.clear index
      exact ⟨_, contents', by rw [ArcState.step, result, Option.map_some], after⟩
  | dropList index =>
      obtain ⟨heap', contents', result, after⟩ := inv.clear index
      have dropped : (s.lists index).drop s.heap = _ :=
        (ArcHeap.items.drop_eq (s.lists index) s.heap).trans result
      exact ⟨_, contents', by rw [ArcState.step, dropped, Option.map_some], after⟩

/-- Every call that a caller can make is carried out, and only `remove` leaves a count. -/
theorem step (inv : ArcInv start removed s contents) (enabled : Enabled s op) :
    ∃ s' contents', s.step op = some s' ∧
      ArcInv start (removed ++ op.removes.toList) s' contents' := by
  cases keeps : op.removes with
  | none =>
      rw [Option.toList_none, List.append_nil]
      exact inv.step_kept enabled keeps
  | some item =>
      cases op with
      | remove index removedItem =>
          obtain rfl := Option.some.inj keeps
          obtain ⟨items, found, member⟩ := enabled.member index removedItem rfl
          have known := inv.represents.iter_eq index
          rw [show (s.pool.lists index).iter s.pool.nodes = some items from found] at known
          exact inv.remove (Option.some.inj known ▸ member)
      | _ => cases keeps

/-- A call that was carried out with the handle it needs was one that could be made. -/
theorem enabled (inv : ArcInv start removed s contents) {s' : ArcState ι T}
    (handle : ∀ item ∈ op.needs, 0 < s.handles item) (done : s.step op = some s') :
    Enabled s op := by
  refine ⟨handle, ?_⟩
  rintro index item rfl
  have found : (s.lists index).inner.contains (ArcHeap.items.nodes s.heap) item = _ :=
    inv.represents.contains_eq index item
  refine ⟨contents index, inv.represents.iter_eq index, ?_⟩
  by_contra absent
  rw [decide_eq_false absent] at found
  rw [ArcState.step, ArcInvasiveList.remove, ItemHeap.remove, found] at done
  exact absurd done (by simp)

end ArcInv

theorem ArcRun.inv {handles : T → Nat} {ops : List (ArcOp ι T)} {s : ArcState ι T}
    (run : ArcRun (ArcState.start ι handles) ops s) :
    ∃ contents, ArcInv handles (ops.filterMap ArcOp.removes) s contents := by
  induction run with
  | nil => exact ⟨_, ArcInv.start_inv handles⟩
  | @snoc ops s s' op before handle done inductionHypothesis =>
      obtain ⟨contents, inv⟩ := inductionHypothesis
      obtain ⟨next, contents', stepEq, after⟩ := inv.step (inv.enabled handle done)
      obtain rfl := Option.some.inj (done.symm.trans stepEq)
      refine ⟨contents', ?_⟩
      rw [List.filterMap_append]
      cases cut : op.removes with
      | none => simpa [cut] using after
      | some item => simpa [cut] using after

/-- In every state of a run over any number of lists, from any number of handles of each
item, the counts are exact if and only if the run called no `remove`.  Without `remove`
no item is destroyed twice, and the items that were destroyed are those with no handle and
in no list.  Every call that a caller can make is carried out. -/
theorem arc_list_accounting {handles : T → Nat} {ops : List (ArcOp ι T)} {s : ArcState ι T}
    (run : ArcRun (ArcState.start ι handles) ops s) :
    (Accounted s ↔ ∀ op ∈ ops, op.removes = none) ∧
    ((∀ op ∈ ops, op.removes = none) → s.heap.destroyed.Nodup ∧
      ∀ item, 0 < handles item →
        (item ∈ s.heap.destroyed ↔ s.handles item = 0 ∧ ¬s.InList item)) ∧
    ∀ op, Enabled s op → ∃ s', s.step op = some s' := by
  obtain ⟨contents, inv⟩ := run.inv
  have exact : Accounted s ↔ ∀ op ∈ ops, op.removes = none :=
    inv.accounted_iff.trans List.filterMap_eq_nil_iff
  refine ⟨exact, ?_, ?_⟩
  · intro none
    refine ⟨inv.alive.once, fun item began => ?_⟩
    obtain ⟨inside, outside⟩ := exact.mpr none item
    rw [inv.alive.destroyed]
    constructor
    · rintro ⟨_, zero⟩
      by_cases listed : s.InList item
      · have counted := inside listed
        omega
      · exact ⟨by rw [← outside listed, zero], listed⟩
    · rintro ⟨gone, unlisted⟩
      exact ⟨began, by rw [outside unlisted, gone]⟩
  · intro op enabled
    obtain ⟨s', _, done, _⟩ := inv.step enabled
    exact ⟨s', done⟩

theorem sampleItem_address : 1 < 16 ∧ 16 < addressSpace := by decide

def sampleItem : NodePointer := ⟨16, sampleItem_address⟩

/-- An item is pushed, taken out again and dropped. -/
theorem arc_list_accounting_pop :
    ∃ s : ArcState Bool NodePointer,
      ArcRun (ArcState.start Bool fun _ => 1)
        [.pushBack true sampleItem, .popFront true, .dropHandle sampleItem] s ∧
      Accounted s ∧ s.heap.destroyed = [sampleItem] := by
  have run : ArcRun (ArcState.start Bool fun _ : NodePointer => 1)
      [.pushBack true sampleItem, .popFront true, .dropHandle sampleItem] _ :=
    ((ArcRun.nil.snoc (.pushBack true sampleItem) (by decide) rfl).snoc (.popFront true)
      (by decide) rfl).snoc (.dropHandle sampleItem) (by decide) rfl
  exact ⟨_, run, (arc_list_accounting run).1.mpr (by decide), rfl⟩

/-- An item that is cut out by `remove` keeps the count of its raw pointer: no handle is
left and no list has it, and it is never destroyed. -/
theorem removed_item_leaks :
    ∃ s : ArcState Unit NodePointer,
      ArcRun (ArcState.start Unit fun _ => 1) [.pushBack () sampleItem, .remove () sampleItem] s ∧
      s.handles sampleItem = 0 ∧ ¬s.InList sampleItem ∧ s.heap.strong sampleItem = 1 ∧
      sampleItem ∉ s.heap.destroyed := by
  have run : ArcRun (ArcState.start Unit fun _ : NodePointer => 1)
      [.pushBack () sampleItem, .remove () sampleItem] _ :=
    (ArcRun.nil.snoc (.pushBack () sampleItem) (by decide) rfl).snoc (.remove () sampleItem)
      (by decide) rfl
  refine ⟨_, run, rfl, ?_, rfl, List.not_mem_nil⟩
  rintro ⟨index, items, found, member⟩
  obtain rfl : [] = items := Option.some.inj found
  exact List.not_mem_nil member

end NyauxKernel.Lists
