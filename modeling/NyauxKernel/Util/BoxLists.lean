/-
The list of boxed items of `util/lists/mod.rs`.

A box has one owner.  The owner of a member is its list, which turned the box into a raw
pointer when the item was pushed; a box that is dropped frees its item, and the address
can be given to a new box later.
-/

import NyauxKernel.Util.ArcAccounting

namespace NyauxKernel.Lists

/-- The embedded nodes, and the items that are allocated. -/
structure BoxHeap (T : Type) where
  nodes : Nodes
  alive : T → Bool

abbrev BoxInvasiveList : Type := OwningList

def BoxInvasiveList.new : BoxInvasiveList := OwningList.new

section Model

variable {ι T : Type} [HasListNode T] [DecidableEq ι] [DecidableEq T]

/-- `drop` of a box; `none` if the item was freed already. -/
def BoxHeap.dropBox (heap : BoxHeap T) (item : T) : Option (BoxHeap T) :=
  if heap.alive item then
    some { heap with alive := Function.update heap.alive item false }
  else none

/-- A new box at a free address.  The node of a new item is in no list. -/
def BoxHeap.newBox (heap : BoxHeap T) (item : T) : Option (BoxHeap T) :=
  if heap.alive item then none
  else some
    { nodes := Function.update heap.nodes (listNode item) InvasiveListNode.new
      alive := Function.update heap.alive item true }

/-- The items of a heap are dropped by their boxes. -/
def BoxHeap.items : ItemHeap (BoxHeap T) T where
  nodes := BoxHeap.nodes
  setNodes := fun heap nodes => { heap with nodes := nodes }
  dropItem := BoxHeap.dropBox
  nodes_setNodes := fun _ _ => rfl
  setNodes_nodes := fun _ => rfl
  setNodes_setNodes := fun _ _ _ => rfl
  dropItem_setNodes := by
    intro heap changed item
    unfold BoxHeap.dropBox
    dsimp only
    cases heap.alive item with
    | false => rfl
    | true => rfl

namespace BoxInvasiveList

def pushFront (list : BoxInvasiveList) (heap : BoxHeap T) (item : T) :
    Option (Except Unit Unit × BoxInvasiveList × BoxHeap T) :=
  BoxHeap.items.pushWith InvasiveList.pushFront list heap item

def pushBack (list : BoxInvasiveList) (heap : BoxHeap T) (item : T) :
    Option (Except Unit Unit × BoxInvasiveList × BoxHeap T) :=
  BoxHeap.items.pushWith InvasiveList.pushBack list heap item

def popFront (list : BoxInvasiveList) (heap : BoxHeap T) :
    Option T × BoxInvasiveList × BoxHeap T :=
  BoxHeap.items.popWith InvasiveList.popFront list heap

def popBack (list : BoxInvasiveList) (heap : BoxHeap T) :
    Option T × BoxInvasiveList × BoxHeap T :=
  BoxHeap.items.popWith InvasiveList.popBack list heap

def clear (list : BoxInvasiveList) (heap : BoxHeap T) : Option (BoxInvasiveList × BoxHeap T) :=
  BoxHeap.items.clear list heap

def remove (list : BoxInvasiveList) (heap : BoxHeap T) (thing : T) :
    Option (BoxInvasiveList × BoxHeap T) :=
  BoxHeap.items.remove list heap thing

def drop (list : BoxInvasiveList) (heap : BoxHeap T) : Option (BoxInvasiveList × BoxHeap T) :=
  BoxHeap.items.drop list heap

end BoxInvasiveList

/-! ### Lists and boxes -/

/-- Some lists, and the boxes that callers own. -/
structure BoxState (ι T : Type) where
  heap : BoxHeap T
  lists : ι → BoxInvasiveList
  owned : T → Bool

/-- New lists, and no boxes. -/
def BoxState.start (ι T : Type) : BoxState ι T :=
  { heap := { nodes := fun _ => InvasiveListNode.new, alive := fun _ => false }
    lists := fun _ => BoxInvasiveList.new
    owned := fun _ => false }

inductive BoxOp (ι T : Type)
  | newBox (item : T)
  | dropBox (item : T)
  | pushFront (list : ι) (item : T)
  | pushBack (list : ι) (item : T)
  | popFront (list : ι)
  | popBack (list : ι)
  | remove (list : ι) (item : T)
  | clear (list : ι)
  | dropList (list : ι)

/-- The item whose box the caller gives away. -/
def BoxOp.needs : BoxOp ι T → Option T
  | .dropBox item | .pushFront _ item | .pushBack _ item => some item
  | .newBox _ | .popFront _ | .popBack _ | .remove _ _ | .clear _ | .dropList _ => none

namespace BoxState

def put (s : BoxState ι T) (index : ι) (list : BoxInvasiveList) (heap : BoxHeap T)
    (owned : T → Bool) : BoxState ι T :=
  { heap := heap
    lists := Function.update s.lists index list
    owned := owned }

def afterPush (s : BoxState ι T) (index : ι) (item : T)
    (outcome : Option (Except Unit Unit × BoxInvasiveList × BoxHeap T)) : Option (BoxState ι T) :=
  outcome.map fun (_, list, heap) => s.put index list heap (Function.update s.owned item false)

def afterPop (s : BoxState ι T) (index : ι)
    (outcome : Option T × BoxInvasiveList × BoxHeap T) : BoxState ι T :=
  s.put index outcome.2.1 outcome.2.2
    (outcome.1.elim s.owned fun item => Function.update s.owned item true)

/-- One call; `none` if it panics or drops a box of an item that is gone. -/
def step (s : BoxState ι T) : BoxOp ι T → Option (BoxState ι T)
  | .newBox item =>
      (s.heap.newBox item).map fun heap =>
        { s with heap := heap, owned := Function.update s.owned item true }
  | .dropBox item =>
      (s.heap.dropBox item).map fun heap =>
        { s with heap := heap, owned := Function.update s.owned item false }
  | .pushFront index item => s.afterPush index item ((s.lists index).pushFront s.heap item)
  | .pushBack index item => s.afterPush index item ((s.lists index).pushBack s.heap item)
  | .popFront index => some (s.afterPop index ((s.lists index).popFront s.heap))
  | .popBack index => some (s.afterPop index ((s.lists index).popBack s.heap))
  | .remove index item =>
      ((s.lists index).remove s.heap item).map fun (list, heap) => s.put index list heap s.owned
  | .clear index =>
      ((s.lists index).clear s.heap).map fun (list, heap) => s.put index list heap s.owned
  | .dropList index =>
      ((s.lists index).drop s.heap).map fun (list, heap) => s.put index list heap s.owned

/-- The lists and their nodes, without the boxes. -/
def pool (s : BoxState ι T) : Pool ι :=
  { nodes := s.heap.nodes
    lists := fun index => (s.lists index).inner }

end BoxState

/-- A call that a caller can make: with a box where one is given away, a new box at a free
address, and `remove` with a member. -/
structure BoxEnabled (s : BoxState ι T) (op : BoxOp ι T) : Prop where
  box : ∀ item ∈ op.needs, s.owned item = true
  free : ∀ item, op = .newBox item → s.heap.alive item = false
  member : ∀ index item, op = .remove index item →
    ∃ items, (s.lists index).inner.iter s.heap.nodes = some items ∧ item ∈ items

/-- The states that calls lead to. -/
inductive BoxRun (start : BoxState ι T) : List (BoxOp ι T) → BoxState ι T → Prop
  | nil : BoxRun start [] start
  | snoc {ops : List (BoxOp ι T)} {s s' : BoxState ι T} (op : BoxOp ι T)
      (before : BoxRun start ops s) (box : ∀ item ∈ op.needs, s.owned item = true)
      (done : s.step op = some s') : BoxRun start (ops ++ [op]) s'

end Model

/-! ### Boxes and members -/

variable {ι T : Type}

theorem BoxState.pool_put [DecidableEq ι] (s : BoxState ι T) (index : ι) (list : BoxInvasiveList)
    (heap : BoxHeap T) (owned : T → Bool) :
    (s.put index list heap owned).pool = s.pool.put index (list.inner, heap.nodes) :=
  congrArg (Pool.mk heap.nodes) (OwningList.inner_update s.lists index list)

variable [HasListNode T]

/-- The lists hold `contents`.  Members and owned items are alive, and no member is owned by
a caller. -/
structure BoxInv (s : BoxState ι T) (contents : ι → List T) : Prop where
  represents : Represents s.pool contents
  listed : ∀ item, Listed contents item → s.heap.alive item = true
  owned : ∀ item, s.owned item = true → s.heap.alive item = true ∧ ¬Listed contents item

theorem BoxInv.start_inv : BoxInv (BoxState.start ι T) (fun _ => []) where
  represents := Represents.new
  listed := by
    rintro item ⟨index, member⟩
    exact absurd member List.not_mem_nil
  owned := fun _item impossible => absurd impossible Bool.false_ne_true

variable {s s' : BoxState ι T} {contents : ι → List T} {index : ι} {item : T}

/-- A member leaves its list: it is owned by the caller then, or by no one. -/
theorem BoxInv.unlinked [DecidableEq ι] (inv : BoxInv s contents) {items : List T}
    (member : item ∈ contents index)
    (represents : Represents s'.pool (Function.update contents index items))
    (members : ∀ other, other ∈ items ↔ other ∈ contents index ∧ other ≠ item)
    (alive : s'.heap.alive = s.heap.alive)
    (owned : ∀ other, s'.owned other = true → other = item ∨ s.owned other = true) :
    BoxInv s' (Function.update contents index items) := by
  have older : ∀ other, Listed (Function.update contents index items) other →
      Listed contents other ∧ other ≠ item := by
    intro other listed
    rcases (listed_update inv.represents.apart).mp listed with inside | ⟨before, absent⟩
    · rcases (members other).mp inside with ⟨mine, different⟩
      exact ⟨⟨index, mine⟩, different⟩
    · refine ⟨before, ?_⟩
      rintro rfl
      exact absent member
  refine ⟨represents, ?_, ?_⟩
  · intro other listed
    rw [alive]
    exact inv.listed other (older other listed).1
  · intro other owns
    rw [alive]
    rcases owned other owns with rfl | before
    · exact ⟨inv.listed other ⟨index, member⟩, fun listed => (older other listed).2 rfl⟩
    · rcases inv.owned other before with ⟨held, apart⟩
      exact ⟨held, fun listed => apart (older other listed).1⟩

variable [DecidableEq T]

/-- The box of an owned item is dropped, or is given to a list that refuses it. -/
theorem BoxInv.dropped (inv : BoxInv s contents) (owns : s.owned item = true)
    (represents : Represents s'.pool contents)
    (alive : s'.heap.alive = Function.update s.heap.alive item false)
    (owned : s'.owned = Function.update s.owned item false) : BoxInv s' contents := by
  refine ⟨represents, ?_, ?_⟩
  · intro other listed
    have different : other ≠ item := by
      rintro rfl
      exact (inv.owned other owns).2 listed
    rw [alive, Function.update_of_ne different]
    exact inv.listed other listed
  · intro other still
    have different : other ≠ item := by
      rintro rfl
      rw [owned, Function.update_self] at still
      cases still
    rw [owned, Function.update_of_ne different] at still
    rw [alive, Function.update_of_ne different]
    exact inv.owned other still

omit [HasListNode T] in
/-- The boxes of several items are dropped. -/
theorem BoxHeap.dropAll_eq {items : List T} (distinct : items.Nodup) (heap : BoxHeap T)
    (held : ∀ item ∈ items, heap.alive item = true) :
    ∃ heap', items.foldlM BoxHeap.dropBox heap = some heap' ∧
      ∀ item, item ∉ items → heap'.alive item = heap.alive item := by
  induction items generalizing heap with
  | nil => exact ⟨heap, rfl, fun _ _ => rfl⟩
  | cons item rest inductionHypothesis =>
      rcases List.nodup_cons.mp distinct with ⟨outside, restDistinct⟩
      let freed : BoxHeap T := { heap with alive := Function.update heap.alive item false }
      have dropped : heap.dropBox item = some freed := if_pos (held item List.mem_cons_self)
      rcases inductionHypothesis restDistinct freed (by
        intro other member
        have different : other ≠ item := by
          rintro rfl
          exact outside member
        change Function.update heap.alive item false other = true
        rw [Function.update_of_ne different]
        exact held other (List.mem_cons_of_mem item member)) with ⟨heap', result, kept⟩
      refine ⟨heap', ?_, ?_⟩
      · rw [List.foldlM_cons, dropped]
        exact result
      · intro other absent
        rw [List.mem_cons, not_or] at absent
        rw [kept other absent.2]
        exact Function.update_of_ne absent.1 _ _

theorem BoxInvasiveList.clear_eq {items : List T} {list : BoxInvasiveList} {heap : BoxHeap T}
    (shape : Shape heap.nodes list.inner (items.map listNode))
    (held : ∀ item ∈ items, heap.alive item = true) :
    ∃ heap', list.clear heap = some (new, heap') ∧
      InvasiveList.clearLoop addressSpace list.inner.first heap.nodes = some heap'.nodes ∧
      ∀ item, item ∉ items → heap'.alive item = heap.alive item := by
  rcases BoxHeap.items.clear_eq shape with ⟨nodes, looped, _, _, clearEq⟩
  rcases heap.dropAll_eq (shape.distinct.of_map listNode) held with ⟨heap', dropped, kept⟩
  refine ⟨{ heap' with nodes := nodes }, ?_, looped, kept⟩
  rw [clear, clearEq, show items.foldlM BoxHeap.items.dropItem heap = _ from dropped]
  rfl

variable [DecidableEq ι]

/-- A plain list whose loop of `clear` detached the members may start again as a new list. -/
theorem Represents.cleared {pool : Pool ι} (represents : Represents pool contents) {nodes : Nodes}
    (looped : InvasiveList.clearLoop addressSpace (pool.lists index).first pool.nodes =
      some nodes) :
    Represents (pool.put index (InvasiveList.new, nodes)) (Function.update contents index []) := by
  rcases (represents.shape index).clear (map_listNode_lt _) with
    ⟨list', nodes', outcome, _, detached, same⟩
  unfold InvasiveList.clear at outcome
  rw [looped] at outcome
  cases outcome
  apply represents.put index (contents index) [] (Shape.nil_new _ _ rfl rfl) same
  · exact fun _ member => Or.inl member
  · exact fun _ member => absurd member List.not_mem_nil
  · exact fun _ member => member
  · exact fun item member _ => detached _ (mem_map_listNode.mpr member)

namespace BoxInv

/-- A new box has its own address, and its node is detached as all free nodes are. -/
theorem newBox (inv : BoxInv s contents) {item : T} (free : s.heap.alive item = false) :
    ∃ s', s.step (.newBox item) = some s' ∧ s'.pool = s.pool ∧ BoxInv s' contents := by
  have unlisted : ¬Listed contents item := by
    intro listed
    rw [inv.listed item listed] at free
    cases free
  have detached : s.heap.nodes (listNode item) = InvasiveListNode.new :=
    inv.represents.detached item unlisted
  have nodes : Function.update s.heap.nodes (listNode item) InvasiveListNode.new = s.heap.nodes := by
    rw [← detached, Function.update_eq_self]
  let heap' : BoxHeap T :=
    { nodes := Function.update s.heap.nodes (listNode item) InvasiveListNode.new
      alive := Function.update s.heap.alive item true }
  have made : s.heap.newBox item = some heap' := by
    unfold BoxHeap.newBox
    rw [free]
    rfl
  let s' : BoxState ι T := { s with heap := heap', owned := Function.update s.owned item true }
  have pool : s'.pool = s.pool := congrArg (fun nodes => Pool.mk nodes s.pool.lists) nodes
  have alive : ∀ other, s.heap.alive other = true → s'.heap.alive other = true := by
    intro other held
    change Function.update s.heap.alive item true other = true
    by_cases same : other = item
    · rw [same, Function.update_self]
    · rw [Function.update_of_ne same, held]
  refine ⟨s', by rw [BoxState.step, made, Option.map_some], pool, ?_, ?_, ?_⟩
  · rw [pool]
    exact inv.represents
  · intro other listed
    exact alive other (inv.listed other listed)
  · intro other owns
    by_cases same : other = item
    · subst same
      exact ⟨Function.update_self .., unlisted⟩
    · rw [show s'.owned other = s.owned other from Function.update_of_ne same _ _] at owns
      exact ⟨alive other (inv.owned other owns).1, (inv.owned other owns).2⟩

theorem push (inv : BoxInv s contents) {index : ι} {item : T}
    {push : InvasiveList → Nodes → T → Except Unit Unit × InvasiveList × Nodes}
    (owns : s.owned item = true)
    (pushed : Pushed s.pool contents index item (push (s.lists index).inner s.heap.nodes item)) :
    ∃ s' contents',
      s.afterPush index item (BoxHeap.items.pushWith push (s.lists index) s.heap item) =
        some s' ∧
      BoxInv s' contents' := by
  have held := (inv.owned item owns).1
  unfold ItemHeap.pushWith
  change Pushed _ _ _ _ (push (s.lists index).inner (BoxHeap.items.nodes s.heap) item) at pushed
  generalize push (s.lists index).inner (BoxHeap.items.nodes s.heap) item = outcome at pushed ⊢
  cases pushed with
  | @refused update represents =>
      let heap' : BoxHeap T :=
        { nodes := update.2, alive := Function.update s.heap.alive item false }
      have freed : (BoxHeap.items.setNodes s.heap update.2).dropBox item = some heap' :=
        if_pos held
      refine ⟨s.put index { inner := update.1 } heap' (Function.update s.owned item false),
        contents, ?_, inv.dropped owns ?_ rfl rfl⟩
      · change s.afterPush index item ((BoxHeap.dropBox _ item).map _) = _
        rw [freed]
        rfl
      · rw [s.pool_put]
        exact represents
  | @linked update items unlisted represents members =>
      refine ⟨_, Function.update contents index items, rfl, ?_, ?_, ?_⟩
      · rw [s.pool_put]
        exact represents
      · intro other listed
        change s.heap.alive other = true
        rcases (listed_update inv.represents.apart).mp listed with inside | ⟨before, _⟩
        · rcases (members other).mp inside with same | older
          · rw [same]
            exact held
          · exact inv.listed other ⟨index, older⟩
        · exact inv.listed other before
      · intro other still
        change Function.update s.owned item false other = true at still
        have different : other ≠ item := by
          rintro rfl
          rw [Function.update_self] at still
          cases still
        rw [Function.update_of_ne different] at still
        rcases inv.owned other still with ⟨alive, apart⟩
        refine ⟨alive, ?_⟩
        intro listed
        rcases (listed_update inv.represents.apart).mp listed with inside | ⟨before, _⟩
        · rcases (members other).mp inside with same | older
          · exact different same
          · exact apart ⟨index, older⟩
        · exact apart before

theorem pop (inv : BoxInv s contents) {index : ι}
    {pop : InvasiveList → Nodes → Option T × InvasiveList × Nodes}
    (popped : Popped s.pool contents index (pop (s.lists index).inner s.heap.nodes)) :
    ∃ contents', BoxInv
      (s.afterPop index (BoxHeap.items.popWith pop (s.lists index) s.heap)) contents' := by
  unfold ItemHeap.popWith
  change Popped _ _ _ (pop (s.lists index).inner (BoxHeap.items.nodes s.heap)) at popped
  generalize pop (s.lists index).inner (BoxHeap.items.nodes s.heap) = outcome at popped ⊢
  cases popped with
  | @empty update represents =>
      refine ⟨contents, ?_, inv.listed, inv.owned⟩
      unfold BoxState.afterPop
      rw [s.pool_put]
      exact represents
  | @unlinked update item items member represents members =>
      refine ⟨_, inv.unlinked member ?_ members rfl ?_⟩
      · unfold BoxState.afterPop
        rw [s.pool_put]
        exact represents
      · intro other owns
        change Function.update s.owned item true other = true at owns
        by_cases same : other = item
        · exact Or.inl same
        · rw [Function.update_of_ne same] at owns
          exact Or.inr owns

theorem remove (inv : BoxInv s contents) {index : ι} {item : T}
    (member : item ∈ contents index) :
    ∃ s' contents', s.step (.remove index item) = some s' ∧ BoxInv s' contents' := by
  have found := inv.represents.contains_eq index item
  rw [decide_eq_true member] at found
  let update := (s.lists index).inner.remove s.heap.nodes item
  let s' := s.put index { inner := update.1 } { s.heap with nodes := update.2 } s.owned
  have done : s.step (.remove index item) = some s' := by
    rw [BoxState.step, BoxInvasiveList.remove, ItemHeap.remove,
      show (s.lists index).inner.contains (BoxHeap.items.nodes s.heap) item = some true from found]
    rfl
  have represents : Represents s'.pool
      (Function.update contents index ((contents index).erase item)) := by
    rw [s.pool_put]
    exact inv.represents.removed index item member
  refine ⟨s', _, done, inv.unlinked member represents ?_ rfl ?_⟩
  · intro other
    rw [(inv.represents.nodup index).mem_erase_iff, and_comm]
  · exact fun _ owns => Or.inr owns

theorem clear (inv : BoxInv s contents) (index : ι) :
    ∃ heap', (s.lists index).clear s.heap = some (BoxInvasiveList.new, heap') ∧
      BoxInv (s.put index BoxInvasiveList.new heap' s.owned)
        (Function.update contents index []) := by
  rcases BoxInvasiveList.clear_eq (inv.represents.shape index)
    (fun item member => inv.listed item ⟨index, member⟩) with ⟨heap', result, plain, kept⟩
  refine ⟨heap', result, ?_, ?_, ?_⟩
  · rw [s.pool_put]
    exact inv.represents.cleared plain
  · intro other listed
    change heap'.alive other = true
    rcases (listed_update inv.represents.apart).mp listed with inside | ⟨before, absent⟩
    · exact absurd inside List.not_mem_nil
    · rw [kept other absent]
      exact inv.listed other before
  · intro other owns
    rcases inv.owned other owns with ⟨alive, apart⟩
    change heap'.alive other = true ∧ _
    rw [kept other fun member => apart ⟨index, member⟩]
    refine ⟨alive, ?_⟩
    intro listed
    rcases (listed_update inv.represents.apart).mp listed with inside | ⟨before, _⟩
    · exact absurd inside List.not_mem_nil
    · exact apart before

/-- Every call that a caller can make is carried out: no box is freed twice. -/
theorem step (inv : BoxInv s contents) {op : BoxOp ι T} (enabled : BoxEnabled s op) :
    ∃ s' contents', s.step op = some s' ∧ BoxInv s' contents' := by
  cases op with
  | newBox item =>
      rcases inv.newBox (enabled.free item rfl) with ⟨s', done, _, after⟩
      exact ⟨s', contents, done, after⟩
  | dropBox item =>
      have owns := enabled.box item rfl
      let heap' : BoxHeap T := { s.heap with alive := Function.update s.heap.alive item false }
      have freed : s.heap.dropBox item = some heap' := if_pos (inv.owned item owns).1
      let s' : BoxState ι T :=
        { s with heap := heap', owned := Function.update s.owned item false }
      refine ⟨s', contents, ?_, inv.dropped owns inv.represents rfl rfl⟩
      rw [BoxState.step, freed]
      rfl
  | pushFront index item =>
      exact inv.push (enabled.box item rfl) (inv.represents.pushedFront index item)
  | pushBack index item =>
      exact inv.push (enabled.box item rfl) (inv.represents.pushedBack index item)
  | popFront index =>
      rcases inv.pop (inv.represents.poppedFront index) with ⟨contents', after⟩
      exact ⟨_, contents', rfl, after⟩
  | popBack index =>
      rcases inv.pop (inv.represents.poppedBack index) with ⟨contents', after⟩
      exact ⟨_, contents', rfl, after⟩
  | remove index item =>
      rcases enabled.member index item rfl with ⟨items, found, member⟩
      have known := inv.represents.iter_eq index
      rw [show (s.pool.lists index).iter s.pool.nodes = some items from found] at known
      exact inv.remove (Option.some.inj known ▸ member)
  | clear index =>
      rcases inv.clear index with ⟨heap', result, after⟩
      refine ⟨_, _, ?_, after⟩
      rw [BoxState.step, result]
      rfl
  | dropList index =>
      rcases inv.clear index with ⟨heap', result, after⟩
      refine ⟨_, _, ?_, after⟩
      rw [BoxState.step, BoxInvasiveList.drop, BoxHeap.items.drop_eq,
        show BoxHeap.items.clear (s.lists index) s.heap = _ from result]
      rfl

/-- A call that was carried out with the box it needs was one that could be made. -/
theorem enabled (inv : BoxInv s contents) {op : BoxOp ι T} {s' : BoxState ι T}
    (box : ∀ item ∈ op.needs, s.owned item = true) (done : s.step op = some s') :
    BoxEnabled s op := by
  refine ⟨box, ?_, ?_⟩
  · rintro item rfl
    cases taken : s.heap.alive item with
    | false => rfl
    | true =>
        rw [BoxState.step, BoxHeap.newBox, if_pos taken] at done
        cases done
  · rintro index item rfl
    have found : (s.lists index).inner.contains (BoxHeap.items.nodes s.heap) item = _ :=
      inv.represents.contains_eq index item
    refine ⟨contents index, inv.represents.iter_eq index, ?_⟩
    by_contra absent
    rw [decide_eq_false absent] at found
    rw [BoxState.step, BoxInvasiveList.remove, ItemHeap.remove, found] at done
    exact absurd done (by simp)

end BoxInv

theorem BoxRun.inv {ops : List (BoxOp ι T)} (run : BoxRun (BoxState.start ι T) ops s) :
    ∃ contents, BoxInv s contents := by
  induction run with
  | nil => exact ⟨_, BoxInv.start_inv⟩
  | @snoc ops s s' op before box done inductionHypothesis =>
      rcases inductionHypothesis with ⟨contents, inv⟩
      rcases inv.step (inv.enabled box done) with ⟨next, contents', stepEq, after⟩
      cases Option.some.inj (done.symm.trans stepEq)
      exact ⟨contents', after⟩

end NyauxKernel.Lists
