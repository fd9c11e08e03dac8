/-
Any number of intrusive lists over one pool of nodes, refining independent
double-ended sequences.

The abstract state gives each list its sequence of items.  The pool represents
it when every list is linked both ways along its sequence, no item is in two
lists, and every other node is detached.  Each operation answers as its abstract
counterpart does and keeps that relation, so every run does.
-/

import NyauxKernel.Util.ListShape

namespace NyauxKernel.Lists

open LinkPath DoublyLinked

/-- All nodes together with the heads of all lists. -/
structure Pool (ι : Type) where
  nodes : Nodes
  lists : ι → InvasiveList

def Pool.new (ι : Type) : Pool ι :=
  { nodes := fun _ => InvasiveListNode.new
    lists := fun _ => InvasiveList.new }

inductive Op (ι T : Type)
  | pushFront (list : ι) (item : T)
  | pushBack (list : ι) (item : T)
  | popFront (list : ι)
  | popBack (list : ι)
  | front (list : ι)
  | back (list : ι)
  | contains (list : ι) (item : T)
  | remove (list : ι) (item : T)
  | tryRemove (list : ι) (item : T)
  | clear (list : ι)
  | iter (list : ι)
deriving DecidableEq

inductive Reply (T : Type)
  | result (value : Except Unit Unit)
  | item (value : Option T)
  | answer (value : Bool)
  | items (value : List T)
  | done

variable {ι T : Type} [HasListNode T]

theorem listNode_injective {left right : T} (same : listNode left = listNode right) :
    left = right := by
  rw [← fromNode_listNode left, same, fromNode_listNode]

theorem mem_map_listNode {item : T} {items : List T} :
    listNode item ∈ items.map listNode ↔ item ∈ items := by
  constructor
  · intro member
    obtain ⟨other, present, same⟩ := List.mem_map.mp member
    rw [← listNode_injective same]
    exact present
  · exact List.mem_map_of_mem

/-- The chain behind a member does not go through its node. -/
theorem path_behind {nodes nodes' : Nodes} {item : T} {rest : List T} {start : Nat}
    (tail : LinkPath.Path nodes.nextOf start (rest.map listNode) 1) (outside : item ∉ rest)
    (same : ∀ address, address ≠ listNode item → nodes' address = nodes address) :
    LinkPath.Path nodes'.nextOf start (rest.map listNode) 1 := by
  refine tail.congr ?_
  intro cell member
  rcases List.mem_map.mp member with ⟨other, inRest, rfl⟩
  have differ : listNode other ≠ listNode item :=
    fun equal => outside (listNode_injective equal ▸ inRest)
  exact congrArg InvasiveListNode.next (same (listNode other) differ)

theorem map_listNode_lt (items : List T) :
    ∀ cell ∈ items.map listNode, cell < addressSpace := by
  intro cell member
  obtain ⟨item, _present, rfl⟩ := List.mem_map.mp member
  exact listNode_lt item

theorem map_fromNode_listNode (items : List T) :
    (items.map listNode).map fromNode = items := by
  rw [List.map_map]
  conv_rhs => rw [← List.map_id items]
  refine List.map_congr_left ?_
  intro item _member
  exact fromNode_listNode item

/-- The item is in some list. -/
def Listed (contents : ι → List T) (item : T) : Prop :=
  ∃ index, item ∈ contents index

/-- The pool of nodes represents these sequences. -/
structure Represents (pool : Pool ι) (contents : ι → List T) : Prop where
  shape : ∀ index, Shape pool.nodes (pool.lists index) ((contents index).map listNode)
  apart : ∀ left right item, item ∈ contents left → item ∈ contents right → left = right
  detached : ∀ item : T, ¬Listed contents item →
    pool.nodes (listNode item) = InvasiveListNode.new

namespace Represents

variable {pool : Pool ι} {contents : ι → List T}

theorem nodup (represents : Represents pool contents) (index : ι) :
    (contents index).Nodup :=
  (represents.shape index).distinct.of_map listNode

theorem new : Represents (Pool.new ι) (fun _ => ([] : List T)) :=
  { shape := fun _index => Shape.nil_new _ _ rfl rfl
    apart := fun _left _right _item member => absurd member List.not_mem_nil
    detached := fun _item _unlisted => rfl }

/-- A listed node carries no null link. -/
theorem links_ne_zero (represents : Represents pool contents) {item : T}
    (listed : Listed contents item) :
    (pool.nodes (listNode item)).prev ≠ 0 ∧ (pool.nodes (listNode item)).next ≠ 0 := by
  obtain ⟨index, member⟩ := listed
  obtain ⟨front, back, split⟩ := List.append_of_mem member
  have shape := represents.shape index
  rw [split, List.map_append, List.map_cons] at shape
  obtain ⟨prevEq, nextEq⟩ := shape.links
  constructor
  · rw [prevEq]
    by_cases empty : front.map listNode = []
    · rw [empty]
      exact Nat.one_ne_zero
    · have real := (shape.last_member empty).2
      omega
  · rw [nextEq]
    by_cases empty : back.map listNode = []
    · rw [empty]
      exact Nat.one_ne_zero
    · have real := (shape.head_member empty).2
      omega

theorem next_eq_zero_iff (represents : Represents pool contents) (item : T) :
    (pool.nodes (listNode item)).next = 0 ↔ ¬Listed contents item := by
  constructor
  · intro null listed
    exact (represents.links_ne_zero listed).2 null
  · intro unlisted
    rw [represents.detached item unlisted]
    rfl

theorem front_eq (represents : Represents pool contents) (index : ι) :
    (pool.lists index).front = (contents index).head? := by
  have first := (represents.shape index).first_eq
  unfold InvasiveList.front
  cases found : contents index with
  | nil =>
      rw [found] at first
      exact if_pos first
  | cons item rest =>
      rw [found, List.map_cons, List.headD_cons] at first
      have real : 1 < listNode item := one_lt_listNode item
      have nonNull : (pool.lists index).first ≠ 0 := by omega
      rw [if_neg nonNull, first, fromNode_listNode, List.head?_cons]

theorem back_eq (represents : Represents pool contents) (index : ι) :
    (pool.lists index).back = (contents index).getLast? := by
  have last := (represents.shape index).last_eq
  unfold InvasiveList.back
  rcases List.eq_nil_or_concat (contents index) with found | ⟨rest, item, found⟩
  · rw [found] at last ⊢
    exact if_pos last
  · rw [List.concat_eq_append] at found
    rw [found, List.map_append, List.map_singleton, List.getLastD_concat] at last
    have real : 1 < listNode item := one_lt_listNode item
    have nonNull : (pool.lists index).last ≠ 0 := by omega
    rw [if_neg nonNull, last, fromNode_listNode, found, List.getLast?_concat]

theorem iter_eq (represents : Represents pool contents) (index : ι) :
    (pool.lists index).iter pool.nodes = some (contents index) := by
  unfold InvasiveList.iter
  rw [collect_eq_walk, (represents.shape index).walk_forward (map_listNode_lt _),
    Option.map_some, map_fromNode_listNode]

theorem contains_eq [DecidableEq T] (represents : Represents pool contents) (index : ι) (item : T) :
    (pool.lists index).contains pool.nodes item =
      some (decide (item ∈ contents index)) := by
  unfold InvasiveList.contains
  by_cases listed : Listed contents item
  · rw [if_neg (represents.links_ne_zero listed).2]
    exact containsLoop_eq item _ _ _ (represents.iter_eq index)
  · rw [if_pos ((represents.next_eq_zero_iff item).mpr listed)]
    have absent : item ∉ contents index := fun member => listed ⟨index, member⟩
    rw [decide_eq_false absent]

end Represents

/-! ### Calls on the pool and on the sequences -/

section Calls

variable [DecidableEq ι] [DecidableEq T]

def Pool.put (pool : Pool ι) (index : ι) (update : InvasiveList × Nodes) : Pool ι :=
  { nodes := update.2
    lists := Function.update pool.lists index update.1 }

/-- One call on one of the lists; `none` if its loop never ends. -/
def Pool.step (pool : Pool ι) : Op ι T → Option (Reply T × Pool ι)
  | .pushFront index item =>
      let outcome := (pool.lists index).pushFront pool.nodes item
      some (.result outcome.1, pool.put index outcome.2)
  | .pushBack index item =>
      let outcome := (pool.lists index).pushBack pool.nodes item
      some (.result outcome.1, pool.put index outcome.2)
  | .popFront index =>
      let outcome := (pool.lists index).popFront pool.nodes
      some (.item outcome.1, pool.put index outcome.2)
  | .popBack index =>
      let outcome := (pool.lists index).popBack pool.nodes
      some (.item outcome.1, pool.put index outcome.2)
  | .front index => some (.item (pool.lists index).front, pool)
  | .back index => some (.item (pool.lists index).back, pool)
  | .contains index item =>
      ((pool.lists index).contains pool.nodes item).map fun found => (.answer found, pool)
  | .remove index item =>
      some (.done, pool.put index ((pool.lists index).remove pool.nodes item))
  | .tryRemove index item =>
      some (.done, pool.put index ((pool.lists index).tryRemove pool.nodes item))
  | .clear index =>
      ((pool.lists index).clear pool.nodes).map fun cleared =>
        (.done, pool.put index cleared)
  | .iter index =>
      ((pool.lists index).iter pool.nodes).map fun found => (.items found, pool)

def Pool.run (pool : Pool ι) : List (Op ι T) → Option (List (Reply T) × Pool ι)
  | [] => some ([], pool)
  | op :: rest => do
      let (reply, pool) ← pool.step op
      let (replies, pool) ← pool.run rest
      return (reply :: replies, pool)

/-! ### The abstract sequences -/

open Classical in
/-- The double-ended sequences that the lists are meant to be. -/
noncomputable def dequeStep (contents : ι → List T) : Op ι T → Reply T × (ι → List T)
  | .pushFront index item =>
      if Listed contents item then (.result (.error ()), contents)
      else (.result (.ok ()), Function.update contents index (item :: contents index))
  | .pushBack index item =>
      if Listed contents item then (.result (.error ()), contents)
      else (.result (.ok ()), Function.update contents index (contents index ++ [item]))
  | .popFront index =>
      (.item (contents index).head?,
        Function.update contents index (contents index).tail)
  | .popBack index =>
      (.item (contents index).getLast?,
        Function.update contents index (contents index).dropLast)
  | .front index => (.item (contents index).head?, contents)
  | .back index => (.item (contents index).getLast?, contents)
  | .contains index item => (.answer (decide (item ∈ contents index)), contents)
  | .remove index item =>
      (.done, Function.update contents index ((contents index).erase item))
  | .tryRemove index item =>
      (.done, Function.update contents index ((contents index).erase item))
  | .clear index => (.done, Function.update contents index [])
  | .iter index => (.items (contents index), contents)

noncomputable def dequeRun (contents : ι → List T) :
    List (Op ι T) → List (Reply T) × (ι → List T)
  | [] => ([], contents)
  | op :: rest =>
      let outcome := dequeStep contents op
      let following := dequeRun outcome.2 rest
      (outcome.1 :: following.1, following.2)

/-- What the callers promise: `remove` is given a member of the list, and
`try_remove` a member of it or an item in no list. -/
def Allowed (contents : ι → List T) : Op ι T → Prop
  | .remove index item => item ∈ contents index
  | .tryRemove index item => item ∈ contents index ∨ ¬Listed contents item
  | _ => True

def AllowedRun (contents : ι → List T) : List (Op ι T) → Prop
  | [] => True
  | op :: rest => Allowed contents op ∧ AllowedRun (dequeStep contents op).2 rest

/-! ### One step -/

namespace Represents

variable {pool : Pool ι} {contents : ι → List T}

/-- One list may be rewritten as long as only its own items and unlisted items
are touched, and the touched items it drops are detached. -/
theorem put (represents : Represents pool contents) (index : ι)
    {list : InvasiveList} {nodes : Nodes} (touched items : List T)
    (shape : Shape nodes list (items.map listNode))
    (same : SameOutside (touched.map listNode) pool.nodes nodes)
    (own : ∀ item ∈ touched, item ∈ contents index ∨ ¬Listed contents item)
    (inside : ∀ item ∈ items, item ∈ touched)
    (kept : ∀ item ∈ contents index, item ∈ touched)
    (dropped : ∀ item ∈ touched, item ∉ items →
      nodes (listNode item) = InvasiveListNode.new) :
    Represents (pool.put index (list, nodes)) (Function.update contents index items) := by
  have foreign : ∀ other, other ≠ index → ∀ item ∈ contents other, item ∉ touched := by
    intro other different item member present
    rcases own item present with mine | unlisted
    · exact different (represents.apart other index item member mine)
    · exact unlisted ⟨other, member⟩
  refine { shape := ?_, apart := ?_, detached := ?_ }
  · intro other
    by_cases chosen : other = index
    · subst chosen
      simp only [Pool.put, Function.update_self]
      exact shape
    · simp only [Pool.put, Function.update_of_ne chosen]
      refine (represents.shape other).frame same ?_
      intro cell member touchedCell
      obtain ⟨item, present, rfl⟩ := List.mem_map.mp member
      exact foreign other chosen item present (mem_map_listNode.mp touchedCell)
  · intro left right item leftMember rightMember
    by_cases leftChosen : left = index
    · by_cases rightChosen : right = index
      · rw [leftChosen, rightChosen]
      · subst leftChosen
        rw [Function.update_self] at leftMember
        rw [Function.update_of_ne rightChosen] at rightMember
        exact absurd (inside item leftMember) (foreign right rightChosen item rightMember)
    · rw [Function.update_of_ne leftChosen] at leftMember
      by_cases rightChosen : right = index
      · subst rightChosen
        rw [Function.update_self] at rightMember
        exact absurd (inside item rightMember) (foreign left leftChosen item leftMember)
      · rw [Function.update_of_ne rightChosen] at rightMember
        exact represents.apart left right item leftMember rightMember
  · intro item unlisted
    have absent : item ∉ items := by
      intro member
      refine unlisted ⟨index, ?_⟩
      rw [Function.update_self]
      exact member
    by_cases present : item ∈ touched
    · exact dropped item present absent
    · change nodes (listNode item) = InvasiveListNode.new
      rw [same _ (fun member => present (mem_map_listNode.mp member))]
      refine represents.detached item ?_
      rintro ⟨other, member⟩
      by_cases chosen : other = index
      · subst chosen
        exact present (kept item member)
      · refine unlisted ⟨other, ?_⟩
        rw [Function.update_of_ne chosen]
        exact member

theorem pushFront (represents : Represents pool contents) (index : ι) (item : T) :
    ∃ pool', pool.step (.pushFront index item) =
        some ((dequeStep contents (.pushFront index item)).1, pool') ∧
      Represents pool' (dequeStep contents (.pushFront index item)).2 := by
  by_cases listed : Listed contents item
  · have linked := (represents.links_ne_zero listed).2
    refine ⟨pool, ?_, ?_⟩
    · simp [Pool.step, InvasiveList.pushFront, linked, dequeStep, listed, Pool.put]
    · simpa [dequeStep, listed] using represents
  · have outside : listNode item ∉ (contents index).map listNode :=
      fun member => listed ⟨index, mem_map_listNode.mp member⟩
    obtain ⟨list, nodes, outcome, shape, same⟩ := (represents.shape index).pushFront outside
      ((represents.next_eq_zero_iff item).mpr listed)
    refine ⟨pool.put index (list, nodes), ?_, ?_⟩
    · simp [Pool.step, outcome, dequeStep, listed]
    · simp only [dequeStep, listed, if_false]
      refine represents.put index (item :: contents index) _ shape same ?_
        (fun _ member => member) (fun _ member => List.mem_cons_of_mem item member)
        (fun _ member absent => absurd member absent)
      intro other member
      rcases List.mem_cons.mp member with rfl | older
      · exact Or.inr listed
      · exact Or.inl older

theorem pushBack (represents : Represents pool contents) (index : ι) (item : T) :
    ∃ pool', pool.step (.pushBack index item) =
        some ((dequeStep contents (.pushBack index item)).1, pool') ∧
      Represents pool' (dequeStep contents (.pushBack index item)).2 := by
  by_cases listed : Listed contents item
  · have linked := (represents.links_ne_zero listed).2
    refine ⟨pool, ?_, ?_⟩
    · simp [Pool.step, InvasiveList.pushBack, linked, dequeStep, listed, Pool.put]
    · simpa [dequeStep, listed] using represents
  · have outside : listNode item ∉ (contents index).map listNode :=
      fun member => listed ⟨index, mem_map_listNode.mp member⟩
    obtain ⟨list, nodes, outcome, shape, same⟩ := (represents.shape index).pushBack outside
      ((represents.next_eq_zero_iff item).mpr listed)
    have cells : (contents index).map listNode ++ [listNode item] =
        (contents index ++ [item]).map listNode := by
      rw [List.map_append, List.map_singleton]
    rw [cells] at shape same
    refine ⟨pool.put index (list, nodes), ?_, ?_⟩
    · simp [Pool.step, outcome, dequeStep, listed]
    · simp only [dequeStep, listed, if_false]
      refine represents.put index (contents index ++ [item]) _ shape same ?_
        (fun _ member => member) (fun _ member => List.mem_append_left [item] member)
        (fun _ member absent => absurd member absent)
      intro other member
      rcases List.mem_append.mp member with older | newest
      · exact Or.inl older
      · rw [List.mem_singleton.mp newest]
        exact Or.inr listed

/-- Cutting a member out of its list is `erase` on the sequence. -/
theorem removed (represents : Represents pool contents) (index : ι) (item : T)
    (member : item ∈ contents index) :
    Represents (pool.put index ((pool.lists index).remove pool.nodes item))
      (Function.update contents index ((contents index).erase item)) := by
  obtain ⟨front, back, split⟩ := List.append_of_mem member
  have distinct := represents.nodup index
  have shape := represents.shape index
  rw [split] at distinct
  rw [split, List.map_append, List.map_cons] at shape
  obtain ⟨_, tailDistinct, across⟩ := List.nodup_append.mp distinct
  have absentFront : item ∉ front := fun present =>
    across item present item List.mem_cons_self rfl
  have absentBack : item ∉ back := (List.nodup_cons.mp tailDistinct).1
  have erased : (contents index).erase item = front ++ back := by
    rw [split, List.erase_append_right _ absentFront, List.erase_cons_head]
  obtain ⟨shape', detached, same⟩ := shape.remove
  rw [← List.map_cons, ← List.map_append, ← split] at same
  rw [← List.map_append] at shape'
  rw [erased]
  refine represents.put index (contents index) _ shape' same
    (fun _ present => Or.inl present) ?_ (fun _ present => present) ?_
  · intro other present
    rw [split]
    rcases List.mem_append.mp present with earlier | later
    · exact List.mem_append_left _ earlier
    · exact List.mem_append_right _ (List.mem_cons_of_mem item later)
  · intro other present absent
    rw [split] at present
    rcases List.mem_append.mp present with earlier | later
    · exact absurd (List.mem_append_left back earlier) absent
    · rcases List.mem_cons.mp later with rfl | beyond
      · exact detached
      · exact absurd (List.mem_append_right front beyond) absent

theorem popFront (represents : Represents pool contents) (index : ι) :
    ∃ pool', pool.step (T := T) (.popFront index) =
        some ((dequeStep contents (.popFront index)).1, pool') ∧
      Represents pool' (dequeStep contents (.popFront index)).2 := by
  have shape := represents.shape index
  cases found : contents index with
  | nil =>
      rw [found] at shape
      have null : (pool.lists index).first = 0 := shape.first_eq
      have unchanged : pool.put index (pool.lists index, pool.nodes) = pool := by
        simp [Pool.put]
      refine ⟨pool, ?_, ?_⟩
      · simp [Pool.step, InvasiveList.popFront, null, dequeStep, found, unchanged]
      · have same : Function.update contents index [] = contents := by
          rw [← found, Function.update_eq_self]
        simpa [dequeStep, found, same] using represents
  | cons item rest =>
      rw [found, List.map_cons] at shape
      have member : item ∈ contents index := by
        rw [found]
        exact List.mem_cons_self
      have removed := represents.removed index item member
      rw [found, List.erase_cons_head] at removed
      refine ⟨pool.put index ((pool.lists index).remove pool.nodes item), ?_, ?_⟩
      · simp only [Pool.step, shape.popFront_eq, dequeStep, found, List.head?_cons]
      · simpa only [dequeStep, found, List.tail_cons] using removed

theorem popBack (represents : Represents pool contents) (index : ι) :
    ∃ pool', pool.step (T := T) (.popBack index) =
        some ((dequeStep contents (.popBack index)).1, pool') ∧
      Represents pool' (dequeStep contents (.popBack index)).2 := by
  have shape := represents.shape index
  rcases List.eq_nil_or_concat (contents index) with found | ⟨rest, item, found⟩
  · rw [found] at shape
    have null : (pool.lists index).last = 0 := shape.last_eq
    have unchanged : pool.put index (pool.lists index, pool.nodes) = pool := by
      simp [Pool.put]
    refine ⟨pool, ?_, ?_⟩
    · simp [Pool.step, InvasiveList.popBack, null, dequeStep, found, unchanged]
    · have same : Function.update contents index [] = contents := by
        rw [← found, Function.update_eq_self]
      simpa [dequeStep, found, same] using represents
  · rw [List.concat_eq_append] at found
    rw [found, List.map_append, List.map_singleton] at shape
    have member : item ∈ contents index := by
      rw [found]
      exact List.mem_append_right rest List.mem_cons_self
    have distinct := represents.nodup index
    rw [found] at distinct
    have absent : item ∉ rest := fun present =>
      (List.nodup_append.mp distinct).2.2 item present item List.mem_cons_self rfl
    have removed := represents.removed index item member
    rw [found, List.erase_append_right _ absent, List.erase_cons_head,
      List.append_nil] at removed
    refine ⟨pool.put index ((pool.lists index).remove pool.nodes item), ?_, ?_⟩
    · simp only [Pool.step, shape.popBack_eq, dequeStep, found, List.getLast?_concat]
    · simpa only [dequeStep, found, List.dropLast_concat] using removed

theorem tryRemove (represents : Represents pool contents) (index : ι) (item : T)
    (allowed : item ∈ contents index ∨ ¬Listed contents item) :
    Represents (pool.put index ((pool.lists index).tryRemove pool.nodes item))
      (Function.update contents index ((contents index).erase item)) := by
  unfold InvasiveList.tryRemove InvasiveListNode.isInList
  rcases allowed with member | unlisted
  · have linked := (represents.links_ne_zero ⟨index, member⟩).1
    rw [if_pos (bne_iff_ne.mpr linked)]
    exact represents.removed index item member
  · have detached := represents.detached item unlisted
    have absent : item ∉ contents index := fun member => unlisted ⟨index, member⟩
    rw [detached, if_neg (by decide), List.erase_of_not_mem absent, Function.update_eq_self]
    have unchanged : pool.put index (pool.lists index, pool.nodes) = pool := by
      simp [Pool.put]
    rw [unchanged]
    exact represents

theorem clear (represents : Represents pool contents) (index : ι) :
    ∃ pool', pool.step (T := T) (.clear index) =
        some ((dequeStep contents (.clear index)).1, pool') ∧
      Represents pool' (dequeStep contents (.clear index)).2 := by
  obtain ⟨list, nodes, outcome, shape, detached, same⟩ :=
    (represents.shape index).clear (map_listNode_lt _)
  refine ⟨pool.put index (list, nodes), ?_, ?_⟩
  · simp [Pool.step, outcome, dequeStep]
  · refine represents.put index (contents index) [] shape same
      (fun _ member => Or.inl member) (fun _ member => absurd member List.not_mem_nil)
      (fun _ member => member) ?_
    intro item member _absent
    exact detached _ (mem_map_listNode.mpr member)

/-- Every call answers as its abstract counterpart and keeps the relation. -/
theorem step (represents : Represents pool contents) (op : Op ι T)
    (allowed : Allowed contents op) :
    ∃ pool', pool.step op = some ((dequeStep contents op).1, pool') ∧
      Represents pool' (dequeStep contents op).2 := by
  cases op with
  | pushFront index item => exact represents.pushFront index item
  | pushBack index item => exact represents.pushBack index item
  | popFront index => exact represents.popFront index
  | popBack index => exact represents.popBack index
  | front index =>
      refine ⟨pool, ?_, represents⟩
      simp [Pool.step, dequeStep, represents.front_eq index]
  | back index =>
      refine ⟨pool, ?_, represents⟩
      simp [Pool.step, dequeStep, represents.back_eq index]
  | contains index item =>
      refine ⟨pool, ?_, represents⟩
      simp [Pool.step, dequeStep, represents.contains_eq index item]
  | remove index item => exact ⟨_, rfl, represents.removed index item allowed⟩
  | tryRemove index item => exact ⟨_, rfl, represents.tryRemove index item allowed⟩
  | clear index => exact represents.clear index
  | iter index =>
      refine ⟨pool, ?_, represents⟩
      simp [Pool.step, dequeStep, represents.iter_eq index]

theorem run (represents : Represents pool contents) (ops : List (Op ι T))
    (allowed : AllowedRun contents ops) :
    ∃ pool', pool.run ops = some ((dequeRun contents ops).1, pool') ∧
      Represents pool' (dequeRun contents ops).2 := by
  induction ops generalizing pool contents with
  | nil => exact ⟨pool, rfl, represents⟩
  | cons op rest ih =>
      obtain ⟨allowedOp, allowedRest⟩ := allowed
      obtain ⟨middle, stepEq, middleRepresents⟩ := represents.step op allowedOp
      obtain ⟨final, restEq, finalRepresents⟩ := ih middleRepresents allowedRest
      refine ⟨final, ?_, finalRepresents⟩
      simp [Pool.run, stepEq, restEq, dequeRun]

end Represents

/-- From detached nodes and new lists, every allowed run of calls terminates and
answers as independent double-ended sequences do.  In the state it reaches the
links spell each sequence forwards and backwards, no node is in two lists or
twice in one, exactly the unlisted nodes have null links, and pushing a listed
node is refused without any change. -/
theorem lists_refine_deques (ops : List (Op ι T))
    (allowed : AllowedRun (fun _ => []) ops) :
    ∃ (pool : Pool ι) (replies : List (Reply T)) (contents : ι → List T),
      dequeRun (fun _ => []) ops = (replies, contents) ∧
      (Pool.new ι).run ops = some (replies, pool) ∧
      (∀ index,
        walk pool.nodes.nextOf (fun cell => decide (cell ≤ 1)) addressSpace
            (pool.lists index).first = some ((contents index).map listNode) ∧
        walk pool.nodes.prevOf (fun cell => decide (cell ≤ 1)) addressSpace
            (pool.lists index).last = some ((contents index).map listNode).reverse ∧
        (contents index).Nodup) ∧
      (∀ left right item, item ∈ contents left → item ∈ contents right → left = right) ∧
      (∀ item : T, ((pool.nodes (listNode item)).prev = 0 ↔ ¬Listed contents item) ∧
        ((pool.nodes (listNode item)).next = 0 ↔ ¬Listed contents item)) ∧
      (∀ index item, Listed contents item →
        pool.step (.pushFront index item) = some (.result (.error ()), pool) ∧
        pool.step (.pushBack index item) = some (.result (.error ()), pool)) := by
  obtain ⟨pool, runEq, represents⟩ := Represents.new.run ops allowed
  refine ⟨pool, _, _, rfl, runEq, ?_, represents.apart, ?_, ?_⟩
  · intro index
    have shape := represents.shape index
    exact ⟨shape.walk_forward (map_listNode_lt _), shape.walk_backward (map_listNode_lt _),
      represents.nodup index⟩
  · intro item
    refine ⟨?_, represents.next_eq_zero_iff item⟩
    constructor
    · intro null listed
      exact (represents.links_ne_zero listed).1 null
    · intro unlisted
      rw [represents.detached item unlisted]
      rfl
  · intro index item listed
    have linked := (represents.links_ne_zero listed).2
    constructor
    · simp [Pool.step, InvasiveList.pushFront, linked, Pool.put]
    · simp [Pool.step, InvasiveList.pushBack, linked, Pool.put]

end Calls

/-- Two lists: an item is removed from the first one and moved to the second. -/
theorem lists_refine_deques_move :
    ∃ (pool : Pool Bool) (replies : List (Reply NodePointer)) (contents : Bool → _),
      dequeRun (fun _ => []) [.pushBack true ⟨16, by decide⟩,
        .pushFront true ⟨32, by decide⟩, .remove true ⟨16, by decide⟩,
        .pushBack false ⟨16, by decide⟩, .popBack true] = (replies, contents) ∧
      (Pool.new Bool).run [.pushBack true ⟨16, by decide⟩,
        .pushFront true ⟨32, by decide⟩, .remove true ⟨16, by decide⟩,
        .pushBack false ⟨16, by decide⟩, .popBack true] = some (replies, pool) := by
  obtain ⟨pool, replies, contents, abstract, concrete, _⟩ :=
    lists_refine_deques (ι := Bool) (T := NodePointer)
      [.pushBack true ⟨16, by decide⟩, .pushFront true ⟨32, by decide⟩,
        .remove true ⟨16, by decide⟩, .pushBack false ⟨16, by decide⟩, .popBack true]
      (by simp [AllowedRun, Allowed, dequeStep, Listed, Subtype.ext_iff])
  exact ⟨pool, replies, contents, abstract, concrete⟩

end NyauxKernel.Lists
