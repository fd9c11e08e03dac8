/-
The intrusive list of `util/lists/mod.rs`.

Links are addresses with two sentinels: null marks a node that is in no list and
one marks an end of a list.  The list head uses null for an empty list.  Items
are pointers to objects that embed a node; the functions below thread the node
storage that all lists share.  Debug assertions are compiled out by default.
-/

import NyauxKernel.Word
import Mathlib.Logic.Function.Basic

namespace NyauxKernel.Lists

structure InvasiveListNode where
  prev : Nat
  next : Nat
deriving DecidableEq, Repr

def InvasiveListNode.new : InvasiveListNode :=
  { prev := 0, next := 0 }

def InvasiveListNode.isInList (node : InvasiveListNode) : Bool :=
  node.prev != 0

/-- `HasListNode`: item pointers and the addresses of their embedded nodes.  A
node of a live object has a real address, above both sentinels. -/
class HasListNode (T : Type) where
  fromNode : Nat → T
  listNode : T → Nat
  fromNode_listNode : ∀ item, fromNode (listNode item) = item
  one_lt_listNode : ∀ item, 1 < listNode item
  listNode_lt : ∀ item, listNode item < addressSpace

export HasListNode (fromNode listNode fromNode_listNode one_lt_listNode listNode_lt)

/-- Pointers to bare nodes: `InvasiveListNode` is its own node, at offset zero. -/
abbrev NodePointer := { address : Nat // 1 < address ∧ address < addressSpace }

instance : HasListNode NodePointer where
  fromNode address :=
    if real : 1 < address ∧ address < addressSpace then ⟨address, real⟩
    else ⟨2, by decide⟩
  listNode item := item.val
  fromNode_listNode item := dif_pos item.property
  one_lt_listNode item := item.property.1
  listNode_lt item := item.property.2

/-- The nodes of every object, indexed by address. -/
abbrev Nodes := Nat → InvasiveListNode

def Nodes.setPrev (nodes : Nodes) (address link : Nat) : Nodes :=
  Function.update nodes address { nodes address with prev := link }

def Nodes.setNext (nodes : Nodes) (address link : Nat) : Nodes :=
  Function.update nodes address { nodes address with next := link }

structure InvasiveList where
  first : Nat
  last : Nat
  len : UInt64
deriving DecidableEq, Repr

def InvasiveList.new : InvasiveList :=
  { first := 0, last := 0, len := 0 }

variable {T : Type} [HasListNode T]

/-- `InvasiveListIter::next`: the current item and the next iterator state. -/
def InvasiveListIter.next (nodes : Nodes) (cur : Nat) : Option (T × Nat) :=
  if cur ≤ 1 then none
  else some (fromNode cur, (nodes cur).next)

/-- Runs an iterator to its end; `none` if it never ends. -/
def InvasiveListIter.collect (nodes : Nodes) : Nat → Nat → Option (List T)
  | 0, _ => none
  | fuel + 1, cur =>
      match InvasiveListIter.next nodes cur with
      | none => some []
      | some (elem, cur) =>
          (InvasiveListIter.collect nodes fuel cur).map (elem :: ·)

def InvasiveList.iter (list : InvasiveList) (nodes : Nodes) : Option (List T) :=
  InvasiveListIter.collect nodes addressSpace list.first

/-- The loop of `consistency_check`, with the first assertion that fails as its error;
`none` if the chain never ends. -/
def InvasiveList.consistencyCheckLoop (list : InvasiveList) (nodes : Nodes) :
    Nat → Nat → Nat → UInt64 → Option (Except String Unit)
  | 0, _, _, _ => none
  | fuel + 1, prev, cur, len =>
      if cur > 1 then
        if (nodes cur).prev ≠ prev then some (.error "InvasiveList has broken prev link")
        else if list.len < len + 1 then some (.error "InvasiveList has too many elements")
        else list.consistencyCheckLoop nodes fuel cur (nodes cur).next (len + 1)
      else if len ≠ list.len then some (.error "InvasiveList has too few elements")
      else some (.ok ())

/-- `consistency_check` of the `dlist_debug` build. -/
def InvasiveList.consistencyCheck (list : InvasiveList) (nodes : Nodes) :
    Option (Except String Unit) :=
  list.consistencyCheckLoop nodes addressSpace 1 list.first 0

def InvasiveList.pushFront (list : InvasiveList) (nodes : Nodes) (item : T) :
    Except Unit Unit × InvasiveList × Nodes :=
  let node := listNode item
  if (nodes node).next ≠ 0 then (.error (), list, nodes)
  else
    let nodes := nodes.setNext node (max list.first 1)
    let nodes := nodes.setPrev node 1
    if list.first ≠ 0 then
      (.ok (), { list with first := node, len := list.len + 1 },
        nodes.setPrev list.first node)
    else
      (.ok (), { first := node, last := node, len := list.len + 1 }, nodes)

def InvasiveList.popFront (list : InvasiveList) (nodes : Nodes) :
    Option T × InvasiveList × Nodes :=
  if list.first = 0 then (none, list, nodes)
  else
    let node := list.first
    if (nodes node).next > 1 then
      let nodes := nodes.setPrev (nodes node).next 1
      (some (fromNode node),
        { list with first := (nodes node).next, len := list.len - 1 },
        Function.update nodes node InvasiveListNode.new)
    else
      (some (fromNode node), { first := 0, last := 0, len := list.len - 1 },
        Function.update nodes node InvasiveListNode.new)

def InvasiveList.front (list : InvasiveList) : Option T :=
  if list.first = 0 then none else some (fromNode list.first)

def InvasiveList.pushBack (list : InvasiveList) (nodes : Nodes) (item : T) :
    Except Unit Unit × InvasiveList × Nodes :=
  let node := listNode item
  if (nodes node).next ≠ 0 then (.error (), list, nodes)
  else
    let nodes := nodes.setPrev node (max list.last 1)
    let nodes := nodes.setNext node 1
    if list.last ≠ 0 then
      (.ok (), { list with last := node, len := list.len + 1 },
        nodes.setNext list.last node)
    else
      (.ok (), { first := node, last := node, len := list.len + 1 }, nodes)

def InvasiveList.popBack (list : InvasiveList) (nodes : Nodes) :
    Option T × InvasiveList × Nodes :=
  if list.last = 0 then (none, list, nodes)
  else
    let node := list.last
    if (nodes node).prev > 1 then
      let nodes := nodes.setNext (nodes node).prev 1
      (some (fromNode node),
        { list with last := (nodes node).prev, len := list.len - 1 },
        Function.update nodes node InvasiveListNode.new)
    else
      (some (fromNode node), { first := 0, last := 0, len := list.len - 1 },
        Function.update nodes node InvasiveListNode.new)

def InvasiveList.back (list : InvasiveList) : Option T :=
  if list.last = 0 then none else some (fromNode list.last)

/-- The loop of `clear`; `none` if the chain never ends. -/
def InvasiveList.clearLoop : Nat → Nat → Nodes → Option Nodes
  | 0, _, _ => none
  | fuel + 1, cur, nodes =>
      if cur > 1 then
        let next := (nodes cur).next
        let nodes := nodes.setNext cur 0
        let nodes := nodes.setPrev cur 0
        InvasiveList.clearLoop fuel next nodes
      else some nodes

/-- `clear` leaves `len` as it was. -/
def InvasiveList.clear (list : InvasiveList) (nodes : Nodes) :
    Option (InvasiveList × Nodes) :=
  (InvasiveList.clearLoop addressSpace list.first nodes).map fun nodes =>
    ({ list with first := 0, last := 0 }, nodes)

/-- The loop of `contains` over the list's iterator. -/
def InvasiveList.containsLoop [DecidableEq T] (nodes : Nodes) (thing : T) :
    Nat → Nat → Option Bool
  | 0, _ => none
  | fuel + 1, cur =>
      match InvasiveListIter.next (T := T) nodes cur with
      | none => some false
      | some (elem, cur) =>
          if elem = thing then some true
          else InvasiveList.containsLoop nodes thing fuel cur

def InvasiveList.contains [DecidableEq T] (list : InvasiveList) (nodes : Nodes)
    (thing : T) : Option Bool :=
  if (nodes (listNode thing)).next = 0 then some false
  else InvasiveList.containsLoop nodes thing addressSpace list.first

def InvasiveList.remove (list : InvasiveList) (nodes : Nodes) (item : T) :
    InvasiveList × Nodes :=
  let node := listNode item
  let (list, nodes) :=
    if (nodes node).next > 1 then
      (list, nodes.setPrev (nodes node).next (nodes node).prev)
    else if (nodes node).prev = 1 then ({ list with last := 0 }, nodes)
    else ({ list with last := (nodes node).prev }, nodes)
  let (list, nodes) :=
    if (nodes node).prev > 1 then
      (list, nodes.setNext (nodes node).prev (nodes node).next)
    else if (nodes node).next = 1 then ({ list with first := 0 }, nodes)
    else ({ list with first := (nodes node).next }, nodes)
  ({ list with len := list.len - 1 },
    Function.update nodes node InvasiveListNode.new)

def InvasiveList.tryRemove (list : InvasiveList) (nodes : Nodes) (item : T) :
    InvasiveList × Nodes :=
  if (nodes (listNode item)).isInList then list.remove nodes item
  else (list, nodes)

end NyauxKernel.Lists
