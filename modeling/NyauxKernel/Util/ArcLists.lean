/-
The list of reference-counted items of `util/lists/mod.rs`.

A member of the list is held by one handle that was turned into a raw pointer when the
item was pushed.  The strong count of an item is the number of its handles, raw or not;
the last handle that is dropped destroys the item.
-/

import NyauxKernel.Util.OwnedLists

namespace NyauxKernel.Lists

/-- The embedded nodes, the strong counts, and the items that were destroyed. -/
structure ArcHeap (T : Type) where
  nodes : Nodes
  strong : T → Nat
  destroyed : List T

abbrev ArcInvasiveList : Type := OwningList

def ArcInvasiveList.new : ArcInvasiveList := OwningList.new

section Handles

variable {T : Type} [DecidableEq T]

/-- `drop` of a handle; `none` if the item is gone already. -/
def ArcHeap.dropArc (heap : ArcHeap T) (item : T) : Option (ArcHeap T) :=
  match heap.strong item with
  | 0 => none
  | count + 1 => some
      { heap with
        strong := Function.update heap.strong item count
        destroyed := if count = 0 then item :: heap.destroyed else heap.destroyed }

def ArcHeap.cloneArc (heap : ArcHeap T) (item : T) : ArcHeap T :=
  { heap with strong := Function.update heap.strong item (heap.strong item + 1) }

/-- One handle of each of the items was dropped. -/
structure Released (heap : ArcHeap T) (items : List T) (heap' : ArcHeap T) : Prop where
  strong : ∀ item, heap.strong item = heap'.strong item + if item ∈ items then 1 else 0
  destroyed : ∀ item, item ∈ heap'.destroyed ↔
    item ∈ heap.destroyed ∨ (item ∈ items ∧ heap.strong item = 1)
  distinct : heap.destroyed.Nodup → (∀ item ∈ heap.destroyed, heap.strong item = 0) →
    heap'.destroyed.Nodup

theorem Released.nil (heap : ArcHeap T) : Released heap [] heap where
  strong := fun item => by simp
  destroyed := fun item => by simp
  distinct := fun nodup _ => nodup

theorem ArcHeap.dropArc_eq (heap : ArcHeap T) {item : T} (held : 0 < heap.strong item) :
    ∃ heap', heap.dropArc item = some heap' ∧ heap'.nodes = heap.nodes ∧
      Released heap [item] heap' := by
  obtain ⟨count, countEq⟩ := Nat.exists_eq_succ_of_ne_zero (Nat.ne_of_gt held)
  let heap' : ArcHeap T :=
    { heap with
      strong := Function.update heap.strong item count
      destroyed := if count = 0 then item :: heap.destroyed else heap.destroyed }
  refine ⟨heap', by rw [ArcHeap.dropArc, countEq], rfl, ?_, ?_, ?_⟩
  · intro other
    change _ = Function.update heap.strong item count other + _
    by_cases same : other = item
    · subst same
      simp [countEq]
    · simp [same]
  · intro other
    change other ∈ (if count = 0 then item :: heap.destroyed else heap.destroyed) ↔ _
    by_cases last : count = 0
    · rw [if_pos last, List.mem_cons, List.mem_singleton]
      constructor
      · rintro (rfl | older)
        · exact Or.inr ⟨rfl, by omega⟩
        · exact Or.inl older
      · rintro (older | ⟨rfl, _⟩)
        · exact Or.inr older
        · exact Or.inl rfl
    · rw [if_neg last, List.mem_singleton]
      constructor
      · exact Or.inl
      · rintro (older | ⟨rfl, one⟩)
        · exact older
        · omega
  · intro nodup gone
    change (if count = 0 then item :: heap.destroyed else heap.destroyed).Nodup
    split
    · refine List.nodup_cons.mpr ⟨?_, nodup⟩
      intro member
      have zero := gone item member
      omega
    · exact nodup

theorem Released.cons {heap middle heap' : ArcHeap T} {first : T} {rest : List T}
    (one : Released heap [first] middle) (others : Released middle rest heap')
    (apart : first ∉ rest) : Released heap (first :: rest) heap' where
  strong := by
    intro item
    rw [one.strong, others.strong]
    by_cases same : item = first
    · subst same
      simp [apart]
    · simp [same]
  destroyed := by
    intro item
    rw [others.destroyed, one.destroyed]
    have counted := one.strong item
    by_cases same : item = first
    · subst same
      simp [apart]
    · rw [if_neg (by simpa using same), Nat.add_zero] at counted
      simp [same, counted]
  distinct := by
    intro nodup gone
    apply others.distinct (one.distinct nodup gone)
    intro item member
    have counted := one.strong item
    rcases (one.destroyed item).mp member with older | ⟨isFirst, last⟩
    · have zero := gone item older
      omega
    · rw [if_pos isFirst] at counted
      omega

/-- One handle of each of several items is dropped. -/
theorem ArcHeap.dropAll_eq {items : List T} (distinct : items.Nodup) (heap : ArcHeap T)
    (held : ∀ item ∈ items, 0 < heap.strong item) :
    ∃ heap', items.foldlM ArcHeap.dropArc heap = some heap' ∧ Released heap items heap' := by
  induction items generalizing heap with
  | nil => exact ⟨heap, rfl, Released.nil heap⟩
  | cons item rest inductionHypothesis =>
      obtain ⟨outside, restDistinct⟩ := List.nodup_cons.mp distinct
      obtain ⟨middle, dropped, _, one⟩ := heap.dropArc_eq (held item List.mem_cons_self)
      obtain ⟨heap', result, others⟩ := inductionHypothesis restDistinct middle (by
        intro other member
        have counted := one.strong other
        have differ : other ∉ [item] := by
          rw [List.mem_singleton]
          rintro rfl
          exact outside member
        rw [if_neg differ, Nat.add_zero] at counted
        rw [← counted]
        exact held other (List.mem_cons_of_mem item member))
      refine ⟨heap', ?_, one.cons others outside⟩
      rw [List.foldlM_cons, dropped]
      exact result

/-- The items of a heap are dropped by their handles. -/
def ArcHeap.items : ItemHeap (ArcHeap T) T where
  nodes := ArcHeap.nodes
  setNodes := fun heap nodes => { heap with nodes := nodes }
  dropItem := ArcHeap.dropArc
  nodes_setNodes := fun _ _ => rfl
  setNodes_nodes := fun _ => rfl
  setNodes_setNodes := fun _ _ _ => rfl
  dropItem_setNodes := by
    intro heap changed item
    unfold ArcHeap.dropArc
    dsimp only
    cases heap.strong item with
    | zero => rfl
    | succ count => rfl

end Handles

variable {ι T : Type} [HasListNode T] [DecidableEq ι] [DecidableEq T]

namespace ArcInvasiveList

def pushFront (list : ArcInvasiveList) (heap : ArcHeap T) (item : T) :
    Option (Except Unit Unit × ArcInvasiveList × ArcHeap T) :=
  ArcHeap.items.pushWith InvasiveList.pushFront list heap item

def pushBack (list : ArcInvasiveList) (heap : ArcHeap T) (item : T) :
    Option (Except Unit Unit × ArcInvasiveList × ArcHeap T) :=
  ArcHeap.items.pushWith InvasiveList.pushBack list heap item

def popFront (list : ArcInvasiveList) (heap : ArcHeap T) :
    Option T × ArcInvasiveList × ArcHeap T :=
  ArcHeap.items.popWith InvasiveList.popFront list heap

def popBack (list : ArcInvasiveList) (heap : ArcHeap T) :
    Option T × ArcInvasiveList × ArcHeap T :=
  ArcHeap.items.popWith InvasiveList.popBack list heap

def clear (list : ArcInvasiveList) (heap : ArcHeap T) : Option (ArcInvasiveList × ArcHeap T) :=
  ArcHeap.items.clear list heap

def remove (list : ArcInvasiveList) (heap : ArcHeap T) (thing : T) :
    Option (ArcInvasiveList × ArcHeap T) :=
  ArcHeap.items.remove list heap thing

def drop (list : ArcInvasiveList) (heap : ArcHeap T) : Option (ArcInvasiveList × ArcHeap T) :=
  ArcHeap.items.drop list heap

end ArcInvasiveList

/-! ### Lists and handles -/

/-- Some lists, and the number of handles of each item that are in no list. -/
structure ArcState (ι T : Type) where
  heap : ArcHeap T
  lists : ι → ArcInvasiveList
  handles : T → Nat

/-- New lists, and items with some handles each. -/
def ArcState.start (ι : Type) (handles : T → Nat) : ArcState ι T :=
  { heap := { nodes := fun _ => InvasiveListNode.new, strong := handles, destroyed := [] }
    lists := fun _ => ArcInvasiveList.new
    handles := handles }

inductive ArcOp (ι T : Type)
  | clone (item : T)
  | dropHandle (item : T)
  | pushFront (list : ι) (item : T)
  | pushBack (list : ι) (item : T)
  | popFront (list : ι)
  | popBack (list : ι)
  | remove (list : ι) (item : T)
  | clear (list : ι)
  | dropList (list : ι)

/-- The item that a handle is needed of. -/
def ArcOp.needs : ArcOp ι T → Option T
  | .clone item | .dropHandle item | .pushFront _ item | .pushBack _ item => some item
  | .popFront _ | .popBack _ | .remove _ _ | .clear _ | .dropList _ => none

def ArcOp.removes : ArcOp ι T → Option T
  | .remove _ item => some item
  | _ => none

/-- A handle that the caller gives away. -/
def giveHandle (handles : T → Nat) (item : T) : T → Nat :=
  Function.update handles item (handles item - 1)

/-- A handle that the caller gets. -/
def getHandle (handles : T → Nat) (item : T) : T → Nat :=
  Function.update handles item (handles item + 1)

namespace ArcState

def put (s : ArcState ι T) (index : ι) (list : ArcInvasiveList) (heap : ArcHeap T)
    (handles : T → Nat) : ArcState ι T :=
  { heap := heap
    lists := Function.update s.lists index list
    handles := handles }

def afterPush (s : ArcState ι T) (index : ι) (item : T)
    (outcome : Option (Except Unit Unit × ArcInvasiveList × ArcHeap T)) : Option (ArcState ι T) :=
  outcome.map fun (_, list, heap) => s.put index list heap (giveHandle s.handles item)

def afterPop (s : ArcState ι T) (index : ι)
    (outcome : Option T × ArcInvasiveList × ArcHeap T) : ArcState ι T :=
  s.put index outcome.2.1 outcome.2.2 (outcome.1.elim s.handles (getHandle s.handles))

/-- One call; `none` if it panics or drops a handle of an item that is gone. -/
def step (s : ArcState ι T) : ArcOp ι T → Option (ArcState ι T)
  | .clone item =>
      some { s with heap := s.heap.cloneArc item, handles := getHandle s.handles item }
  | .dropHandle item =>
      (s.heap.dropArc item).map fun heap =>
        { s with heap := heap, handles := giveHandle s.handles item }
  | .pushFront index item => s.afterPush index item ((s.lists index).pushFront s.heap item)
  | .pushBack index item => s.afterPush index item ((s.lists index).pushBack s.heap item)
  | .popFront index => some (s.afterPop index ((s.lists index).popFront s.heap))
  | .popBack index => some (s.afterPop index ((s.lists index).popBack s.heap))
  | .remove index item =>
      ((s.lists index).remove s.heap item).map fun (list, heap) => s.put index list heap s.handles
  | .clear index =>
      ((s.lists index).clear s.heap).map fun (list, heap) => s.put index list heap s.handles
  | .dropList index =>
      ((s.lists index).drop s.heap).map fun (list, heap) => s.put index list heap s.handles

/-- The item is a member of one of the lists. -/
def InList (s : ArcState ι T) (item : T) : Prop :=
  ∃ index items, (s.lists index).inner.iter s.heap.nodes = some items ∧ item ∈ items

/-- The list and its nodes, without the counts. -/
def pool (s : ArcState ι T) : Pool ι :=
  { nodes := s.heap.nodes
    lists := fun index => (s.lists index).inner }

end ArcState

/-- A call that a caller can make: with a handle where one is needed, and `remove` with a
member. -/
structure Enabled (s : ArcState ι T) (op : ArcOp ι T) : Prop where
  handle : ∀ item ∈ op.needs, 0 < s.handles item
  member : ∀ index item, op = .remove index item →
    ∃ items, (s.lists index).inner.iter s.heap.nodes = some items ∧ item ∈ items

/-- The states that calls lead to. -/
inductive ArcRun (start : ArcState ι T) : List (ArcOp ι T) → ArcState ι T → Prop
  | nil : ArcRun start [] start
  | snoc {ops : List (ArcOp ι T)} {s s' : ArcState ι T} (op : ArcOp ι T)
      (before : ArcRun start ops s) (handle : ∀ item ∈ op.needs, 0 < s.handles item)
      (done : s.step op = some s') : ArcRun start (ops ++ [op]) s'

theorem ArcInvasiveList.clear_eq {items : List T} {list : ArcInvasiveList} {heap : ArcHeap T}
    (shape : Shape heap.nodes list.inner (items.map listNode))
    (held : ∀ item ∈ items, 0 < heap.strong item) :
    ∃ heap', list.clear heap = some (new, heap') ∧ Released heap items heap' ∧
      (∀ item ∈ items, heap'.nodes (listNode item) = InvasiveListNode.new) ∧
      SameOutside (items.map listNode) heap.nodes heap'.nodes := by
  obtain ⟨nodes, _, news, same, clearEq⟩ := ArcHeap.items.clear_eq shape
  obtain ⟨heap', dropped, released⟩ :=
    heap.dropAll_eq (shape.distinct.of_map listNode) held
  refine ⟨{ heap' with nodes := nodes }, ?_,
    ⟨released.strong, released.destroyed, released.distinct⟩, news, same⟩
  rw [clear, clearEq, show items.foldlM ArcHeap.items.dropItem heap = _ from dropped]
  rfl

end NyauxKernel.Lists
