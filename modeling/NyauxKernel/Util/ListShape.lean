/-
One intrusive list against the addresses of its nodes.

Each operation is described by what it does to the node sequence of its own
list, together with the frame it leaves: every node outside that sequence keeps
both links.
-/

import NyauxKernel.Library.DoublyLinked
import NyauxKernel.Util.Lists
import Mathlib.Data.List.Nodup

namespace NyauxKernel.Lists

open LinkPath DoublyLinked

def Nodes.prevOf (nodes : Nodes) (address : Nat) : Nat := (nodes address).prev

def Nodes.nextOf (nodes : Nodes) (address : Nat) : Nat := (nodes address).next

section Links

variable (nodes : Nodes) (address link : Nat)

@[simp] theorem prevOf_setPrev :
    (nodes.setPrev address link).prevOf = Function.update nodes.prevOf address link := by
  funext other
  by_cases same : other = address
  · subst same
    simp [Nodes.prevOf, Nodes.setPrev]
  · simp [Nodes.prevOf, Nodes.setPrev, same]

@[simp] theorem nextOf_setPrev : (nodes.setPrev address link).nextOf = nodes.nextOf := by
  funext other
  by_cases same : other = address
  · subst same
    simp [Nodes.nextOf, Nodes.setPrev]
  · simp [Nodes.nextOf, Nodes.setPrev, same]

@[simp] theorem prevOf_setNext : (nodes.setNext address link).prevOf = nodes.prevOf := by
  funext other
  by_cases same : other = address
  · subst same
    simp [Nodes.prevOf, Nodes.setNext]
  · simp [Nodes.prevOf, Nodes.setNext, same]

@[simp] theorem nextOf_setNext :
    (nodes.setNext address link).nextOf = Function.update nodes.nextOf address link := by
  funext other
  by_cases same : other = address
  · subst same
    simp [Nodes.nextOf, Nodes.setNext]
  · simp [Nodes.nextOf, Nodes.setNext, same]

theorem setPrev_of_ne {other : Nat} (apart : other ≠ address) :
    nodes.setPrev address link other = nodes other :=
  Function.update_of_ne apart _ _

theorem setNext_of_ne {other : Nat} (apart : other ≠ address) :
    nodes.setNext address link other = nodes other :=
  Function.update_of_ne apart _ _

end Links

/-- The list head and the shared nodes represent this sequence of addresses. -/
structure Shape (nodes : Nodes) (list : InvasiveList) (cells : List Nat) : Prop where
  linked : Segment nodes.prevOf nodes.nextOf 1 cells 1
  first_eq : list.first = cells.headD 0
  last_eq : list.last = cells.getLastD 0
  distinct : cells.Nodup
  real : ∀ cell ∈ cells, 1 < cell

/-- Two node storages agree outside the listed addresses. -/
def SameOutside (cells : List Nat) (before after : Nodes) : Prop :=
  ∀ address, address ∉ cells → after address = before address

theorem segment_of_same {before after : Nodes} {cells : List Nat} {left right : Nat}
    (segment : Segment before.prevOf before.nextOf left cells right)
    (same : ∀ cell ∈ cells, after cell = before cell) :
    Segment after.prevOf after.nextOf left cells right := by
  refine segment.congr ?_ ?_
  · intro cell member
    simp only [Nodes.prevOf, same cell member]
  · intro cell member
    simp only [Nodes.nextOf, same cell member]

/-- Lists on other nodes do not notice an operation. -/
theorem Shape.frame {before after : Nodes} {list : InvasiveList} {cells touched : List Nat}
    (shape : Shape before list cells) (same : SameOutside touched before after)
    (apart : ∀ cell ∈ cells, cell ∉ touched) : Shape after list cells :=
  { linked := segment_of_same shape.linked (fun cell member => same cell (apart cell member))
    first_eq := shape.first_eq
    last_eq := shape.last_eq
    distinct := shape.distinct
    real := shape.real }

theorem Shape.nil_new (nodes : Nodes) (list : InvasiveList)
    (first_eq : list.first = 0) (last_eq : list.last = 0) : Shape nodes list [] :=
  { linked := trivial
    first_eq := first_eq
    last_eq := last_eq
    distinct := List.nodup_nil
    real := fun _cell member => absurd member List.not_mem_nil }

section Operations

variable {T : Type} [HasListNode T] {nodes : Nodes} {list : InvasiveList}

variable {back cells front rest : List Nat} {item : T} {cell : Nat}

/-- The state after linking a detached node in front. -/
theorem Shape.pushFront (shape : Shape nodes list cells) (outside : listNode item ∉ cells)
    (detached : (nodes (listNode item)).next = 0) :
    ∃ list' nodes', list.pushFront nodes item = (.ok (), list', nodes') ∧
      Shape nodes' list' (listNode item :: cells) ∧
      SameOutside (listNode item :: cells) nodes nodes' := by
  have realItem : 1 < listNode item := one_lt_listNode item
  unfold InvasiveList.pushFront
  rw [if_neg (not_not.mpr detached)]
  cases cells with
  | nil =>
      have empty : list.first = 0 := shape.first_eq
      simp only [empty, ne_eq, not_true_eq_false, if_false]
      refine ⟨_, _, rfl, ?_, ?_⟩
      · exact
          { linked := by
              rw [segment_cons]
              simp
            first_eq := rfl
            last_eq := rfl
            distinct := List.nodup_singleton _
            real := by
              intro cell member
              rw [List.mem_singleton.mp member]
              exact realItem }
      · intro address away
        have apart : address ≠ listNode item := fun same => away (same ▸ List.mem_cons_self)
        rw [setPrev_of_ne _ _ _ apart, setNext_of_ne _ _ _ apart]
  | cons head rest =>
      have headEq : list.first = head := shape.first_eq
      have realHead : 1 < head := shape.real head List.mem_cons_self
      have headApart : head ≠ listNode item := fun same => outside (same ▸ List.mem_cons_self)
      have nonNull : list.first ≠ 0 := by omega
      have link : max list.first 1 = head := by omega
      rw [if_pos nonNull, link, headEq]
      refine ⟨_, _, rfl, ?_, ?_⟩
      · have tail : Segment ((nodes.setNext (listNode item) head).setPrev
            (listNode item) 1).prevOf ((nodes.setNext (listNode item) head).setPrev
            (listNode item) 1).nextOf 1 (head :: rest) 1 := by
          refine segment_of_same shape.linked ?_
          intro cell member
          have apart : cell ≠ listNode item := fun same => outside (same ▸ member)
          rw [setPrev_of_ne _ _ _ apart, setNext_of_ne _ _ _ apart]
        exact
          { linked := by
              rw [segment_cons, prevOf_setPrev, nextOf_setPrev]
              refine ⟨?_, ?_, tail.setBefore shape.distinct⟩
              · rw [Function.update_of_ne headApart.symm]
                simp
              · simp
            first_eq := rfl
            last_eq := by
              rw [List.getLastD_cons, List.getLastD_cons, ← List.getLastD_cons]
              exact shape.last_eq
            distinct := List.nodup_cons.mpr ⟨outside, shape.distinct⟩
            real := by
              intro cell member
              rcases List.mem_cons.mp member with same | later
              · rw [same]
                exact realItem
              · exact shape.real cell later }
      · intro address away
        rw [List.mem_cons, not_or] at away
        have headAway : address ≠ head := fun same => away.2 (same ▸ List.mem_cons_self)
        rw [setPrev_of_ne _ _ _ headAway, setPrev_of_ne _ _ _ away.1,
          setNext_of_ne _ _ _ away.1]

theorem Shape.pushBack (shape : Shape nodes list cells) (outside : listNode item ∉ cells)
    (detached : (nodes (listNode item)).next = 0) :
    ∃ list' nodes', list.pushBack nodes item = (.ok (), list', nodes') ∧
      Shape nodes' list' (cells ++ [listNode item]) ∧
      SameOutside (cells ++ [listNode item]) nodes nodes' := by
  have realItem : 1 < listNode item := one_lt_listNode item
  have real : ∀ cell ∈ cells ++ [listNode item], 1 < cell := by
    intro cell member
    rcases List.mem_append.mp member with earlier | newest
    · exact shape.real cell earlier
    · rw [List.mem_singleton.mp newest]
      exact realItem
  have distinct : (cells ++ [listNode item]).Nodup := by
    refine List.nodup_append.mpr ⟨shape.distinct, List.nodup_singleton _, ?_⟩
    intro cell member other single same
    rw [List.mem_singleton.mp single] at same
    exact outside (same ▸ member)
  unfold InvasiveList.pushBack
  rw [if_neg (not_not.mpr detached)]
  rcases List.eq_nil_or_concat cells with empty | ⟨front, last, split⟩
  · subst empty
    have null : list.last = 0 := shape.last_eq
    simp only [null, ne_eq, not_true_eq_false, if_false]
    refine ⟨_, _, rfl, ?_, ?_⟩
    · exact
        { linked := by
            rw [List.nil_append, segment_cons]
            simp
          first_eq := rfl
          last_eq := rfl
          distinct := distinct
          real := real }
    · intro address away
      have apart : address ≠ listNode item := fun same => away (same ▸ List.mem_cons_self)
      rw [setNext_of_ne _ _ _ apart, setPrev_of_ne _ _ _ apart]
  · rw [List.concat_eq_append] at split
    subst split
    have lastEq : list.last = last := by
      rw [shape.last_eq]
      exact List.getLastD_concat
    have lastMember : last ∈ front ++ [last] := List.mem_append_right front List.mem_cons_self
    have realLast : 1 < last := shape.real last lastMember
    have lastApart : last ≠ listNode item := fun same => outside (same ▸ lastMember)
    have nonNull : list.last ≠ 0 := by omega
    have link : max list.last 1 = last := by omega
    rw [if_pos nonNull, link, lastEq]
    refine ⟨_, _, rfl, ?_, ?_⟩
    · have initial : Segment ((nodes.setPrev (listNode item) last).setNext
          (listNode item) 1).prevOf ((nodes.setPrev (listNode item) last).setNext
          (listNode item) 1).nextOf 1 (front ++ [last]) 1 := by
        refine segment_of_same shape.linked ?_
        intro cell member
        have apart : cell ≠ listNode item := fun same => outside (same ▸ member)
        rw [setNext_of_ne _ _ _ apart, setPrev_of_ne _ _ _ apart]
      exact
        { linked := by
            rw [segment_append, prevOf_setNext, nextOf_setNext, List.getLastD_concat]
            refine ⟨initial.setAfter shape.distinct, ?_, ?_, trivial⟩
            · simp
            · rw [Function.update_of_ne lastApart.symm]
              simp
          first_eq := by
            rw [headD_append]
            have head := shape.first_eq
            cases front with
            | nil => exact head
            | cons cell rest => exact head
          last_eq := List.getLastD_concat.symm
          distinct := distinct
          real := real }
    · intro address away
      rw [List.mem_append, not_or, List.mem_singleton] at away
      have lastAway : address ≠ last := fun same => away.1 (same ▸ lastMember)
      rw [setNext_of_ne _ _ _ lastAway, setNext_of_ne _ _ _ away.2,
        setPrev_of_ne _ _ _ away.2]

/-- The links around a member of the sequence. -/
theorem Shape.links (shape : Shape nodes list (front ++ cell :: back)) :
    (nodes cell).prev = front.getLastD 1 ∧ (nodes cell).next = back.headD 1 :=
  shape.linked.links

theorem Shape.split_apart (shape : Shape nodes list (front ++ cell :: back)) :
    front.Nodup ∧ back.Nodup ∧ cell ∉ front ∧ cell ∉ back ∧
      ∀ other ∈ front, other ∉ back := by
  obtain ⟨frontNodup, tailNodup, across⟩ := List.nodup_append.mp shape.distinct
  obtain ⟨cellBack, backNodup⟩ := List.nodup_cons.mp tailNodup
  refine ⟨frontNodup, backNodup, ?_, cellBack, ?_⟩
  · intro member
    exact across cell member cell List.mem_cons_self rfl
  · intro other member later
    exact across other member other (List.mem_cons_of_mem cell later) rfl

/-- The head pointers after a member is cut out, from either neighbour list. -/
theorem remove_heads (shape : Shape nodes list (front ++ cell :: back)) :
    (if back = [] then (if front = [] then 0 else front.getLastD 1) else list.last) =
        (front ++ back).getLastD 0 ∧
      (if front = [] then (if back = [] then 0 else back.headD 1) else list.first) =
        (front ++ back).headD 0 := by
  have first := shape.first_eq
  have last := shape.last_eq
  constructor
  · rcases List.eq_nil_or_concat front with rfl | ⟨initial, final, rfl⟩
    · cases back with
      | nil => rfl
      | cons head rest =>
          rw [if_neg (List.cons_ne_nil head rest), last]
          simp
    · cases back with
      | nil => simp
      | cons head rest =>
          rw [if_neg (List.cons_ne_nil head rest), last]
          simp
  · cases front with
    | nil =>
        cases back with
        | nil => rfl
        | cons head rest => rfl
    | cons head rest => exact first

/-- The storage after the right neighbour of a removed cell was relinked. -/
def relinkRight (nodes : Nodes) (front back : List Nat) : Nodes :=
  if back = [] then nodes else nodes.setPrev (back.headD 1) (front.getLastD 1)

/-- The storage after the left neighbour of a removed cell was relinked. -/
def relinkLeft (nodes : Nodes) (front back : List Nat) : Nodes :=
  if front = [] then nodes else nodes.setNext (front.getLastD 1) (back.headD 1)

theorem Shape.last_member (shape : Shape nodes list (front ++ cell :: back)) (nonempty : front ≠ []) :
    front.getLastD 1 ∈ front ∧ 1 < front.getLastD 1 := by
  have member : front.getLastD 1 ∈ front := by
    rcases List.eq_nil_or_concat front with rfl | ⟨initial, final, rfl⟩
    · exact absurd rfl nonempty
    · simp
  exact ⟨member, shape.real _ (List.mem_append_left _ member)⟩

theorem Shape.head_member (shape : Shape nodes list (front ++ cell :: back)) (nonempty : back ≠ []) :
    back.headD 1 ∈ back ∧ 1 < back.headD 1 := by
  have member : back.headD 1 ∈ back := by
    cases back with
    | nil => exact absurd rfl nonempty
    | cons head rest => exact List.mem_cons_self
  exact ⟨member, shape.real _ (List.mem_append_right _ (List.mem_cons_of_mem cell member))⟩

theorem Shape.remove_eq (shape : Shape nodes list (front ++ listNode item :: back)) :
    list.remove nodes item =
      ({ first := (front ++ back).headD 0
         last := (front ++ back).getLastD 0
         len := list.len - 1 },
        Function.update (relinkLeft (relinkRight nodes front back) front back)
          (listNode item) InvasiveListNode.new) := by
  obtain ⟨prevEq, nextEq⟩ := shape.links
  obtain ⟨_, _, frontAway, backAway, _⟩ := shape.split_apart
  obtain ⟨lastEq, firstEq⟩ := remove_heads shape
  have kept : relinkRight nodes front back (listNode item) = nodes (listNode item) := by
    unfold relinkRight
    by_cases empty : back = []
    · rw [if_pos empty]
    · rw [if_neg empty]
      refine setPrev_of_ne _ _ _ ?_
      intro same
      exact backAway (same ▸ (shape.head_member empty).1)
  have right : (if (nodes (listNode item)).next > 1 then
        (list, nodes.setPrev (nodes (listNode item)).next (nodes (listNode item)).prev)
      else if (nodes (listNode item)).prev = 1 then ({ list with last := 0 }, nodes)
      else ({ list with last := (nodes (listNode item)).prev }, nodes)) =
        ({ list with last := (front ++ back).getLastD 0 }, relinkRight nodes front back) := by
    rw [← lastEq, prevEq, nextEq]
    unfold relinkRight
    by_cases noBack : back = []
    · by_cases noFront : front = []
      · simp [noBack, noFront]
      · have real := (shape.last_member noFront).2
        have notEnd : front.getLastD 1 ≠ 1 := by omega
        rw [if_neg (by simp [noBack]), if_neg notEnd]
        simp [noBack, noFront]
    · have real := (shape.head_member noBack).2
      rw [if_pos real]
      simp [noBack]
  have left : (if (nodes (listNode item)).prev > 1 then
        ({ list with last := (front ++ back).getLastD 0 },
          (relinkRight nodes front back).setNext (nodes (listNode item)).prev
            (nodes (listNode item)).next)
      else if (nodes (listNode item)).next = 1 then
        ({ first := 0, last := (front ++ back).getLastD 0, len := list.len },
          relinkRight nodes front back)
      else
        ({ first := (nodes (listNode item)).next, last := (front ++ back).getLastD 0,
           len := list.len }, relinkRight nodes front back)) =
        (({ first := (front ++ back).headD 0, last := (front ++ back).getLastD 0,
            len := list.len } : InvasiveList),
          relinkLeft (relinkRight nodes front back) front back) := by
    rw [← firstEq, prevEq, nextEq]
    unfold relinkLeft
    by_cases noFront : front = []
    · by_cases noBack : back = []
      · simp [noBack, noFront]
      · have real := (shape.head_member noBack).2
        have notEnd : back.headD 1 ≠ 1 := by omega
        rw [if_neg (by simp [noFront]), if_neg notEnd]
        simp [noBack, noFront]
    · have real := (shape.last_member noFront).2
      rw [if_pos real]
      simp [noFront]
  unfold InvasiveList.remove
  simp only [right, kept, left]

/-- Cutting out a member rewrites at most its two neighbours. -/
theorem Shape.remove (shape : Shape nodes list (front ++ listNode item :: back)) :
    Shape (list.remove nodes item).2 (list.remove nodes item).1 (front ++ back) ∧
      (list.remove nodes item).2 (listNode item) = InvasiveListNode.new ∧
      SameOutside (front ++ listNode item :: back) nodes (list.remove nodes item).2 := by
  obtain ⟨frontNodup, backNodup, frontAway, backAway, across⟩ := shape.split_apart
  obtain ⟨frontSegment, _left, _right, backSegment⟩ :=
    (segment_append _ _ _ _).mp shape.linked
  have backRelinked : Segment (relinkRight nodes front back).prevOf
      (relinkRight nodes front back).nextOf (front.getLastD 1) back 1 := by
    unfold relinkRight
    cases back with
    | nil => trivial
    | cons head rest =>
        rw [if_neg (List.cons_ne_nil head rest), prevOf_setPrev, nextOf_setPrev]
        exact backSegment.setBefore backNodup
  have frontKept : ∀ cell ∈ front, relinkRight nodes front back cell = nodes cell := by
    intro cell member
    unfold relinkRight
    by_cases empty : back = []
    · rw [if_pos empty]
    · rw [if_neg empty]
      refine setPrev_of_ne _ _ _ ?_
      intro same
      exact across cell member (same ▸ (shape.head_member empty).1)
  have frontRelinked : Segment (relinkLeft (relinkRight nodes front back) front back).prevOf
      (relinkLeft (relinkRight nodes front back) front back).nextOf 1 front
        (back.headD 1) := by
    unfold relinkLeft
    rcases List.eq_nil_or_concat front with empty | ⟨initial, final, split⟩
    · rw [empty]
      trivial
    · rw [List.concat_eq_append] at split
      have nonempty : front ≠ [] := by
        rw [split]
        exact List.append_ne_nil_of_right_ne_nil _ (List.cons_ne_nil _ _)
      have final_eq : front.getLastD 1 = final := by
        rw [split]
        exact List.getLastD_concat
      rw [if_neg nonempty, prevOf_setNext, nextOf_setNext, final_eq]
      have initialSegment := segment_of_same frontSegment frontKept
      rw [split] at initialSegment frontNodup ⊢
      exact initialSegment.setAfter frontNodup
  have backKept : ∀ cell ∈ back, relinkLeft (relinkRight nodes front back) front back cell =
      relinkRight nodes front back cell := by
    intro cell member
    unfold relinkLeft
    by_cases empty : front = []
    · rw [if_pos empty]
    · rw [if_neg empty]
      refine setNext_of_ne _ _ _ ?_
      intro same
      exact across _ (shape.last_member empty).1 (same ▸ member)
  rw [shape.remove_eq]
  refine ⟨?_, Function.update_self .., ?_⟩
  · exact
      { linked := by
          have joined := (segment_append 1 1 front back).mpr
            ⟨frontRelinked, segment_of_same backRelinked backKept⟩
          refine segment_of_same joined ?_
          intro cell member
          refine Function.update_of_ne ?_ _ _
          intro same
          rcases List.mem_append.mp member with inFront | inBack
          · exact frontAway (same ▸ inFront)
          · exact backAway (same ▸ inBack)
        first_eq := rfl
        last_eq := rfl
        distinct := List.nodup_append.mpr ⟨frontNodup, backNodup, fun cell member other later same =>
          across cell member (same ▸ later)⟩
        real := by
          intro cell member
          refine shape.real cell ?_
          rcases List.mem_append.mp member with inFront | inBack
          · exact List.mem_append_left _ inFront
          · exact List.mem_append_right _ (List.mem_cons_of_mem _ inBack) }
  · intro address away
    rw [List.mem_append, List.mem_cons, not_or, not_or] at away
    obtain ⟨awayFront, awayItem, awayBack⟩ := away
    change Function.update (relinkLeft (relinkRight nodes front back) front back)
      (listNode item) InvasiveListNode.new address = nodes address
    rw [Function.update_of_ne awayItem]
    have leftSame : relinkLeft (relinkRight nodes front back) front back address =
        relinkRight nodes front back address := by
      unfold relinkLeft
      by_cases empty : front = []
      · rw [if_pos empty]
      · rw [if_neg empty]
        refine setNext_of_ne _ _ _ ?_
        intro same
        exact awayFront (same ▸ (shape.last_member empty).1)
    rw [leftSame]
    unfold relinkRight
    by_cases empty : back = []
    · rw [if_pos empty]
    · rw [if_neg empty]
      refine setPrev_of_ne _ _ _ ?_
      intro same
      exact awayBack (same ▸ (shape.head_member empty).1)

/-- Popping the front of a nonempty list removes its first item. -/
theorem Shape.popFront_eq (shape : Shape nodes list (listNode item :: rest)) :
    list.popFront nodes = (some item, list.remove nodes item) := by
  have atFront : Shape nodes list ([] ++ listNode item :: rest) := shape
  obtain ⟨_prevEq, nextEq⟩ := atFront.links
  have firstEq : list.first = listNode item := shape.first_eq
  have lastEq := shape.last_eq
  have realItem : 1 < listNode item := one_lt_listNode item
  have nonNull : list.first ≠ 0 := by omega
  rw [atFront.remove_eq]
  unfold InvasiveList.popFront
  rw [if_neg nonNull]
  simp only [firstEq, fromNode_listNode, nextEq]
  cases rest with
  | nil => simp [relinkLeft, relinkRight]
  | cons head rest =>
      have realHead : 1 < head := shape.real head (List.mem_cons_of_mem _ List.mem_cons_self)
      have apart : listNode item ≠ head := fun same =>
        (List.nodup_cons.mp shape.distinct).1 (same ▸ List.mem_cons_self)
      have link : (nodes.setPrev head 1 (listNode item)).next = head := by
        rw [setPrev_of_ne _ _ _ apart]
        exact nextEq
      have lastRest : list.last = (head :: rest).getLastD 0 := by
        rw [lastEq, List.getLastD_cons, List.getLastD_cons, List.getLastD_cons]
      simp only [List.headD_cons, gt_iff_lt, realHead, if_true, link, lastRest,
        List.nil_append]
      simp [relinkLeft, relinkRight]

theorem Shape.popBack_eq (shape : Shape nodes list (rest ++ [listNode item])) :
    list.popBack nodes = (some item, list.remove nodes item) := by
  obtain ⟨prevEq, _nextEq⟩ := shape.links
  have firstEq := shape.first_eq
  have lastEq : list.last = listNode item := by
    rw [shape.last_eq]
    exact List.getLastD_concat
  have realItem : 1 < listNode item := one_lt_listNode item
  have nonNull : list.last ≠ 0 := by omega
  rw [shape.remove_eq]
  unfold InvasiveList.popBack
  rw [if_neg nonNull]
  simp only [lastEq, fromNode_listNode, prevEq]
  by_cases empty : rest = []
  · subst empty
    simp [relinkLeft, relinkRight]
  · obtain ⟨member, real⟩ := shape.last_member empty
    obtain ⟨_, _, away, _, _⟩ := shape.split_apart
    have apart : listNode item ≠ rest.getLastD 1 := fun same => away (same ▸ member)
    have link : (nodes.setNext (rest.getLastD 1) 1 (listNode item)).prev =
        rest.getLastD 1 := by
      rw [setNext_of_ne _ _ _ apart]
      exact prevEq
    have firstRest : list.first = (rest ++ []).headD 0 := by
      rw [firstEq, List.append_nil, headD_append]
      cases rest with
      | nil => exact absurd rfl empty
      | cons head rest => rfl
    have lastRest : rest.getLastD 1 = (rest ++ []).getLastD 0 := by
      rw [List.append_nil]
      rcases List.eq_nil_or_concat rest with none | ⟨initial, final, split⟩
      · exact absurd none empty
      · rw [split, List.concat_eq_append, List.getLastD_concat, List.getLastD_concat]
    simp only [gt_iff_lt, real, if_true, link, firstRest]
    rw [← lastRest]
    simp [relinkLeft, relinkRight, empty]

/-- The loop of `clear` detaches the cells of its chain and nothing else. -/
theorem clearLoop_eq {start fuel : Nat} (path : Path nodes.nextOf start cells 1)
    (distinct : cells.Nodup) (real : ∀ cell ∈ cells, 1 < cell) (enough : cells.length < fuel) :
    ∃ nodes', InvasiveList.clearLoop fuel start nodes = some nodes' ∧
      (∀ cell ∈ cells, nodes' cell = InvasiveListNode.new) ∧
      SameOutside cells nodes nodes' := by
  induction cells generalizing start fuel nodes with
  | nil =>
      cases fuel with
      | zero => exact absurd enough (Nat.not_lt_zero _)
      | succ fuel =>
          obtain rfl : start = 1 := path
          refine ⟨nodes, rfl, ?_, fun _ _ => rfl⟩
          intro cell member
          exact absurd member List.not_mem_nil
  | cons cell rest ih =>
      cases fuel with
      | zero => exact absurd enough (Nat.not_lt_zero _)
      | succ fuel =>
          obtain ⟨rfl, tail⟩ := path
          obtain ⟨outside, restDistinct⟩ := List.nodup_cons.mp distinct
          have realStart := real start List.mem_cons_self
          have cleared : (nodes.setNext start 0).setPrev start 0 =
              Function.update nodes start InvasiveListNode.new := by
            simp [Nodes.setNext, Nodes.setPrev, InvasiveListNode.new]
          have tail' : Path (Nodes.nextOf (Function.update nodes start InvasiveListNode.new))
              (nodes start).next rest 1 := by
            refine tail.congr ?_
            intro other member
            have apart : other ≠ start := fun same => outside (same ▸ member)
            simp only [Nodes.nextOf, Function.update_of_ne apart]
          obtain ⟨nodes', result, detached, same⟩ := ih tail' restDistinct
            (fun other member => real other (List.mem_cons_of_mem start member))
            (Nat.lt_of_succ_lt_succ enough)
          refine ⟨nodes', ?_, ?_, ?_⟩
          · rw [InvasiveList.clearLoop, if_pos realStart]
            simp only [cleared]
            exact result
          · intro other member
            rcases List.mem_cons.mp member with atStart | later
            · rw [atStart, same start outside]
              exact Function.update_self ..
            · exact detached other later
          · intro address away
            rw [List.mem_cons, not_or] at away
            rw [same address away.2]
            exact Function.update_of_ne away.1 _ _

theorem Shape.length_lt (shape : Shape nodes list cells)
    (below : ∀ cell ∈ cells, cell < addressSpace) : cells.length < addressSpace := by
  have zero : 0 ∉ cells := fun member => absurd (shape.real 0 member) (by omega)
  have longer : (0 :: cells).length ≤ addressSpace := length_le_of_nodup
    (List.nodup_cons.mpr ⟨zero, shape.distinct⟩) (by
      intro cell member
      rcases List.mem_cons.mp member with null | later
      · rw [null]
        exact Nat.two_pow_pos 64
      · exact below cell later)
  rw [List.length_cons] at longer
  omega

/-- The forward chain of a nonempty list starts at its head pointer. -/
theorem Shape.forward (shape : Shape nodes list cells) (nonempty : cells ≠ []) :
    Path nodes.nextOf list.first cells 1 := by
  have path := shape.linked.forward
  rw [shape.first_eq]
  cases cells with
  | nil => exact absurd rfl nonempty
  | cons cell rest => exact path

theorem Shape.backward (shape : Shape nodes list cells) (nonempty : cells ≠ []) :
    Path nodes.prevOf list.last cells.reverse 1 := by
  have path := shape.linked.backward
  rw [shape.last_eq]
  cases cells with
  | nil => exact absurd rfl nonempty
  | cons cell rest =>
      rw [List.getLastD_cons] at path ⊢
      exact path

theorem Shape.clear (shape : Shape nodes list cells) (below : ∀ cell ∈ cells, cell < addressSpace) :
    ∃ list' nodes', list.clear nodes = some (list', nodes') ∧ Shape nodes' list' [] ∧
      (∀ cell ∈ cells, nodes' cell = InvasiveListNode.new) ∧
      SameOutside cells nodes nodes' := by
  unfold InvasiveList.clear
  by_cases empty : cells = []
  · subst empty
    have null : list.first = 0 := shape.first_eq
    refine ⟨{ list with first := 0, last := 0 }, nodes, ?_,
      Shape.nil_new _ _ rfl rfl, ?_, fun _ _ => rfl⟩
    · rw [null]
      rfl
    · intro cell member
      exact absurd member List.not_mem_nil
  · obtain ⟨nodes', result, detached, same⟩ := clearLoop_eq (shape.forward empty)
      shape.distinct shape.real (shape.length_lt below)
    refine ⟨{ list with first := 0, last := 0 }, nodes', ?_,
      Shape.nil_new _ _ rfl rfl, detached, same⟩
    rw [result]
    rfl

/-- An iterator collects what walking the links visits. -/
theorem collect_eq_walk (fuel cur : Nat) :
    InvasiveListIter.collect (T := T) nodes fuel cur =
      (walk nodes.nextOf (fun cell => decide (cell ≤ 1)) fuel cur).map
        (List.map fromNode) := by
  induction fuel generalizing cur with
  | zero => rfl
  | succ fuel ih =>
      unfold InvasiveListIter.collect InvasiveListIter.next walk
      by_cases stop : cur ≤ 1
      · simp [stop]
      · simp only [stop, if_false, decide_false, Bool.false_eq_true, ih, Option.map_map]
        rfl

theorem Shape.walk_forward (shape : Shape nodes list cells)
    (below : ∀ cell ∈ cells, cell < addressSpace) :
    walk nodes.nextOf (fun cell => decide (cell ≤ 1)) addressSpace list.first =
      some cells := by
  by_cases empty : cells = []
  · subst empty
    have null : list.first = 0 := shape.first_eq
    rw [null]
    rfl
  · refine (shape.forward empty).walk_eq rfl ?_ (shape.length_lt below)
    intro cell member
    have real := shape.real cell member
    exact decide_eq_false (by omega)

theorem Shape.walk_backward (shape : Shape nodes list cells)
    (below : ∀ cell ∈ cells, cell < addressSpace) :
    walk nodes.prevOf (fun cell => decide (cell ≤ 1)) addressSpace list.last =
      some cells.reverse := by
  by_cases empty : cells = []
  · subst empty
    have null : list.last = 0 := shape.last_eq
    rw [null]
    rfl
  · refine (shape.backward empty).walk_eq rfl ?_ ?_
    · intro cell member
      have real := shape.real cell (List.mem_reverse.mp member)
      exact decide_eq_false (by omega)
    · rw [List.length_reverse]
      exact shape.length_lt below

theorem containsLoop_eq [DecidableEq T] (thing : T) (fuel cur : Nat) (items : List T)
    (collected : InvasiveListIter.collect nodes fuel cur = some items) :
    InvasiveList.containsLoop nodes thing fuel cur = some (decide (thing ∈ items)) := by
  induction fuel generalizing cur items with
  | zero => cases collected
  | succ fuel ih =>
      unfold InvasiveListIter.collect at collected
      unfold InvasiveList.containsLoop
      cases found : InvasiveListIter.next (T := T) nodes cur with
      | none =>
          rw [found] at collected
          cases collected
          simp
      | some pair =>
          obtain ⟨elem, following⟩ := pair
          rw [found] at collected
          obtain ⟨rest, restCollected, rfl⟩ := Option.map_eq_some_iff.mp collected
          by_cases same : elem = thing
          · simp [same]
          · have different : ¬thing = elem := fun equal => same equal.symm
            simp only [same, if_false, ih following rest restCollected, List.mem_cons,
              different, false_or]

end Operations

end NyauxKernel.Lists
