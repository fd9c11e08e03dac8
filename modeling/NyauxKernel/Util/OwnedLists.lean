/-
What `ArcInvasiveList` and `BoxInvasiveList` of `util/lists/mod.rs` have in common.

Both wrap a plain list whose members they own through raw pointers.  They differ only in
what it means to drop an owner of an item.
-/

import NyauxKernel.Util.ListRefinement

namespace NyauxKernel.Lists

/-- Heaps of items with embedded nodes.  `dropItem` drops an owner of an item, or fails if the
item is gone; it neither reads the nodes nor writes them. -/
structure ItemHeap (H T : Type) where
  nodes : H → Nodes
  setNodes : H → Nodes → H
  dropItem : H → T → Option H
  nodes_setNodes : ∀ heap changed, nodes (setNodes heap changed) = changed
  setNodes_nodes : ∀ heap, setNodes heap (nodes heap) = heap
  setNodes_setNodes : ∀ heap first second,
    setNodes (setNodes heap first) second = setNodes heap second
  dropItem_setNodes : ∀ heap changed item,
    dropItem (setNodes heap changed) item = (dropItem heap item).map (setNodes · changed)

structure OwningList where
  inner : InvasiveList

def OwningList.new : OwningList := { inner := InvasiveList.new }

theorem OwningList.inner_update {ι : Type} [DecidableEq ι] (lists : ι → OwningList) (index : ι)
    (list : OwningList) :
    (fun other => (Function.update lists index list other).inner) =
      Function.update (fun other => (lists other).inner) index list.inner := by
  funext other
  exact Function.apply_update (fun _ => OwningList.inner) lists index list other

namespace ItemHeap

variable {H T : Type} (items : ItemHeap H T)

/-- A push of the inner list; a rejected item is dropped. -/
def pushWith (push : InvasiveList → Nodes → T → Except Unit Unit × InvasiveList × Nodes)
    (list : OwningList) (heap : H) (item : T) : Option (Except Unit Unit × OwningList × H) :=
  let (res, inner, nodes) := push list.inner (items.nodes heap) item
  match res with
  | .error _ =>
      (items.dropItem (items.setNodes heap nodes) item).map fun heap =>
        (res, { inner := inner }, heap)
  | .ok _ => some (res, { inner := inner }, items.setNodes heap nodes)

/-- A pop of the inner list; the raw pointer becomes an owner again. -/
def popWith (pop : InvasiveList → Nodes → Option T × InvasiveList × Nodes)
    (list : OwningList) (heap : H) : Option T × OwningList × H :=
  let (raw, inner, nodes) := pop list.inner (items.nodes heap)
  (raw, { inner := inner }, items.setNodes heap nodes)

variable [HasListNode T]

/-- The loop of `clear`, which drops the owner of each member. -/
def clearLoop : Nat → Nat → H → Option H
  | 0, _, _ => none
  | fuel + 1, cur, heap =>
      if cur > 1 then do
        let next := (items.nodes heap cur).next
        let nodes := (items.nodes heap).setNext cur 0
        let nodes := nodes.setPrev cur 0
        let heap ← items.dropItem (items.setNodes heap nodes) (fromNode cur)
        clearLoop fuel next heap
      else some heap

def clear (list : OwningList) (heap : H) : Option (OwningList × H) :=
  (items.clearLoop addressSpace list.inner.first heap).map fun heap =>
    ({ inner := { first := 0, last := 0, len := 0 } }, heap)

/-- `remove`, which asserts that the item is a member.  No owner is made of the raw
pointer. -/
def remove [DecidableEq T] (list : OwningList) (heap : H) (thing : T) :
    Option (OwningList × H) := do
  let found ← list.inner.contains (items.nodes heap) thing
  if found then
    let (inner, nodes) := list.inner.remove (items.nodes heap) thing
    some ({ inner := inner }, items.setNodes heap nodes)
  else none

/-- `drop`: the list is cleared, and then the inner list. -/
def drop (list : OwningList) (heap : H) : Option (OwningList × H) := do
  let (list, heap) ← items.clear list heap
  let (inner, nodes) ← list.inner.clear (items.nodes heap)
  some ({ inner := inner }, items.setNodes heap nodes)

variable {items} {heap heap' : H} {list list' : OwningList}

omit [HasListNode T] in
theorem dropItem_nodes {item : T} (dropped : items.dropItem heap item = some heap') :
    items.nodes heap' = items.nodes heap := by
  have again := items.dropItem_setNodes heap (items.nodes heap) item
  rw [items.setNodes_nodes, dropped] at again
  rw [Option.some.inj again, items.nodes_setNodes]

omit [HasListNode T] in
theorem pushWith_inner
    {push : InvasiveList → Nodes → T → Except Unit Unit × InvasiveList × Nodes} {item : T}
    {res : Except Unit Unit} (done : items.pushWith push list heap item = some (res, list', heap')) :
    (list'.inner, items.nodes heap') = (push list.inner (items.nodes heap) item).2 := by
  unfold pushWith at done
  generalize push list.inner (items.nodes heap) item = outcome at done ⊢
  rcases outcome with ⟨result, update⟩
  cases result with
  | error value =>
      rcases Option.map_eq_some_iff.mp done with ⟨dropped, drop, same⟩
      cases same
      rw [dropItem_nodes drop, items.nodes_setNodes]
  | ok value =>
      cases done
      rw [items.nodes_setNodes]

omit [HasListNode T] in
/-- Owners can be dropped before the nodes change or afterwards. -/
theorem dropAll_setNodes (members : List T) (heap : H) (changed : Nodes) :
    members.foldlM items.dropItem (items.setNodes heap changed) =
      (members.foldlM items.dropItem heap).map (items.setNodes · changed) := by
  induction members generalizing heap with
  | nil => rfl
  | cons first rest inductionHypothesis =>
      rw [List.foldlM_cons, List.foldlM_cons, items.dropItem_setNodes]
      cases items.dropItem heap first with
      | none => rfl
      | some dropped => exact inductionHypothesis dropped

/-- The loop detaches the members as the loop of the plain list does, and drops an owner of
each. -/
theorem clearLoop_eq {members : List T} {start fuel : Nat} {nodes : Nodes}
    (path : LinkPath.Path (items.nodes heap).nextOf start (members.map listNode) 1)
    (distinct : members.Nodup)
    (looped : InvasiveList.clearLoop fuel start (items.nodes heap) = some nodes) :
    items.clearLoop fuel start heap =
      (members.foldlM items.dropItem heap).map (items.setNodes · nodes) := by
  induction members generalizing start fuel heap with
  | nil =>
      obtain rfl : start = 1 := path
      cases fuel with
      | zero => cases looped
      | succ fuel =>
          cases looped
          exact congrArg some (items.setNodes_nodes heap).symm
  | cons item rest inductionHypothesis =>
      cases fuel with
      | zero => cases looped
      | succ fuel =>
          obtain ⟨rfl, tail⟩ := path
          obtain ⟨outside, restDistinct⟩ := List.nodup_cons.mp distinct
          rw [InvasiveList.clearLoop, if_pos (one_lt_listNode item)] at looped
          rw [clearLoop, if_pos (one_lt_listNode item), fromNode_listNode, List.foldlM_cons]
          dsimp only
          rw [items.dropItem_setNodes]
          cases items.dropItem heap item with
          | none => rfl
          | some dropped =>
              change items.clearLoop fuel _ (items.setNodes dropped _) = _
              rw [inductionHypothesis (by
                rw [items.nodes_setNodes]
                apply path_behind tail outside
                intro address differ
                exact (setPrev_of_ne _ _ _ differ).trans (setNext_of_ne _ _ _ differ))
                restDistinct (by rw [items.nodes_setNodes]; exact looped),
                dropAll_setNodes, Option.map_map]
              congr 1
              funext last
              exact items.setNodes_setNodes last _ nodes

variable (items)

theorem clear_eq {members : List T}
    (shape : Shape (items.nodes heap) list.inner (members.map listNode)) :
    ∃ nodes, InvasiveList.clearLoop addressSpace list.inner.first (items.nodes heap) =
        some nodes ∧
      (∀ item ∈ members, nodes (listNode item) = InvasiveListNode.new) ∧
      SameOutside (members.map listNode) (items.nodes heap) nodes ∧
      items.clear list heap = (members.foldlM items.dropItem heap).map fun heap =>
        (OwningList.new, items.setNodes heap nodes) := by
  obtain ⟨_, nodes, outcome, _, detached, same⟩ := shape.clear (map_listNode_lt members)
  obtain ⟨_, looped, last⟩ := Option.map_eq_some_iff.mp outcome
  cases last
  refine ⟨nodes, looped, fun item member => detached _ (mem_map_listNode.mpr member), same, ?_⟩
  unfold clear
  by_cases empty : members = []
  · subst empty
    have null : list.inner.first = 0 := shape.first_eq
    rw [null] at looped ⊢
    cases looped
    exact congrArg (fun heap => some (OwningList.new, heap)) (items.setNodes_nodes heap).symm
  · have path := shape.forward fun none => empty (List.map_eq_nil_iff.mp none)
    rw [clearLoop_eq path (shape.distinct.of_map listNode) looped, Option.map_map]
    rfl

variable {items}

theorem clearLoop_nodes {fuel cur : Nat} (done : items.clearLoop fuel cur heap = some heap') :
    InvasiveList.clearLoop fuel cur (items.nodes heap) = some (items.nodes heap') := by
  induction fuel generalizing cur heap with
  | zero => cases done
  | succ fuel inductionHypothesis =>
      rw [clearLoop] at done
      rw [InvasiveList.clearLoop]
      by_cases real : cur > 1
      · rw [if_pos real] at done ⊢
        rcases Option.bind_eq_some_iff.mp done with ⟨dropped, drop, rest⟩
        have after := inductionHypothesis rest
        rwa [dropItem_nodes drop, items.nodes_setNodes] at after
      · rw [if_neg real] at done ⊢
        cases done
        rfl

/-- The members are detached and the list starts again as a new one. -/
theorem clear_inner (done : items.clear list heap = some (list', heap')) :
    list' = OwningList.new ∧
      InvasiveList.clearLoop addressSpace list.inner.first (items.nodes heap) =
        some (items.nodes heap') := by
  rcases Option.map_eq_some_iff.mp done with ⟨cleared, looped, same⟩
  cases same
  exact ⟨rfl, clearLoop_nodes looped⟩

/-- The item is a member, and is removed from the inner list. -/
theorem remove_inner [DecidableEq T] {thing : T}
    (done : items.remove list heap thing = some (list', heap')) :
    list.inner.contains (items.nodes heap) thing = some true ∧
      (list'.inner, items.nodes heap') = list.inner.remove (items.nodes heap) thing := by
  rcases Option.bind_eq_some_iff.mp done with ⟨answer, found, taken⟩
  cases answer with
  | false => cases taken
  | true =>
      cases taken
      rw [items.nodes_setNodes]
      exact ⟨found, rfl⟩

variable (items)

/-- The inner list is empty by then, and its `clear` changes nothing. -/
theorem drop_eq (list : OwningList) (heap : H) : items.drop list heap = items.clear list heap := by
  unfold drop
  cases cleared : items.clear list heap with
  | none => rfl
  | some outcome =>
      rcases outcome with ⟨emptied, released⟩
      have fresh := (clear_inner cleared).1
      subst fresh
      exact congrArg (fun heap => some (OwningList.new, heap)) (items.setNodes_nodes released)

variable {items}

theorem drop_inner (done : items.drop list heap = some (list', heap')) :
    list' = OwningList.new ∧
      InvasiveList.clearLoop addressSpace list.inner.first (items.nodes heap) =
        some (items.nodes heap') := by
  rw [items.drop_eq] at done
  exact clear_inner done

end ItemHeap

end NyauxKernel.Lists
