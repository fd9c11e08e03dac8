/-
The length word of the lists of `util/lists/mod.rs`.

`len` is kept beside the links by every call.  `InvasiveList::clear` forgets it; the other
calls, and the `clear` of the lists of handles and of boxes, keep it equal to the number of
members.
-/

import NyauxKernel.Util.BoxLists

namespace NyauxKernel.Lists

open LinkPath DoublyLinked

variable {ι T : Type} [HasListNode T]

/-! ### What each call does to the length word -/

section Word

variable (list : InvasiveList) (nodes : Nodes) (item : T)

theorem pushFront_len : (list.pushFront nodes item).2.1.len =
    if (nodes (listNode item)).next ≠ 0 then list.len else list.len + 1 := by
  unfold InvasiveList.pushFront
  by_cases linked : (nodes (listNode item)).next ≠ 0
  · rw [if_pos linked, if_pos linked]
  · rw [if_neg linked, if_neg linked]
    by_cases filled : list.first ≠ 0
    · simp only [if_pos filled]
    · simp only [if_neg filled]

theorem pushBack_len : (list.pushBack nodes item).2.1.len =
    if (nodes (listNode item)).next ≠ 0 then list.len else list.len + 1 := by
  unfold InvasiveList.pushBack
  by_cases linked : (nodes (listNode item)).next ≠ 0
  · rw [if_pos linked, if_pos linked]
  · rw [if_neg linked, if_neg linked]
    by_cases filled : list.last ≠ 0
    · simp only [if_pos filled]
    · simp only [if_neg filled]

theorem popFront_len : (list.popFront (T := T) nodes).2.1.len =
    if list.first = 0 then list.len else list.len - 1 := by
  unfold InvasiveList.popFront
  by_cases empty : list.first = 0
  · rw [if_pos empty, if_pos empty]
  · rw [if_neg empty, if_neg empty]
    by_cases more : (nodes list.first).next > 1
    · simp only [if_pos more]
    · simp only [if_neg more]

theorem popBack_len : (list.popBack (T := T) nodes).2.1.len =
    if list.last = 0 then list.len else list.len - 1 := by
  unfold InvasiveList.popBack
  by_cases empty : list.last = 0
  · rw [if_pos empty, if_pos empty]
  · rw [if_neg empty, if_neg empty]
    by_cases more : (nodes list.last).prev > 1
    · simp only [if_pos more]
    · simp only [if_neg more]

theorem remove_len : (list.remove nodes item).1.len = list.len - 1 := by
  unfold InvasiveList.remove
  dsimp only
  congr 1
  split_ifs <;> rfl

theorem clear_len {list' : InvasiveList} {nodes' : Nodes}
    (cleared : list.clear nodes = some (list', nodes')) : list'.len = list.len := by
  unfold InvasiveList.clear at cleared
  cases looped : InvasiveList.clearLoop addressSpace list.first nodes with
  | none =>
      rw [looped] at cleared
      cases cleared
  | some detached =>
      rw [looped] at cleared
      cases cleared
      rfl

end Word

/-! ### The check -/

variable {pool : Pool ι} {contents : ι → List T} {list : InvasiveList} {nodes : Nodes}
  {cells : List Nat}

/-- Walking the rest of the chain, the check finds what is left of the count. -/
theorem consistencyCheckLoop_eq {prev cur fuel : Nat} {len : UInt64}
    (linked : Segment nodes.prevOf nodes.nextOf prev cells 1) (start : cur = cells.headD cur)
    (stop : cells = [] → cur ≤ 1) (real : ∀ cell ∈ cells, 1 < cell) (enough : cells.length < fuel)
    (rest : list.len.toNat = len.toNat + cells.length) :
    list.consistencyCheckLoop nodes fuel prev cur len = some (.ok ()) := by
  induction cells generalizing prev cur fuel len with
  | nil =>
      cases fuel with
      | zero => exact absurd enough (Nat.not_lt_zero _)
      | succ fuel =>
          have ended : ¬cur > 1 := Nat.not_lt.mpr (stop rfl)
          have same : len = list.len := UInt64.toNat_inj.mp rest.symm
          rw [InvasiveList.consistencyCheckLoop, if_neg ended, if_neg (not_not.mpr same)]
  | cons cell others inductionHypothesis =>
      cases fuel with
      | zero => exact absurd enough (Nat.not_lt_zero _)
      | succ fuel =>
          rcases linked with ⟨prevEq, nextEq, tail⟩
          rw [List.headD_cons] at start
          subst start
          rw [List.length_cons] at enough rest
          have below : list.len.toNat < 2 ^ 64 := list.len.toNat_lt
          have grown : (len + 1).toNat = len.toNat + 1 := by
            rw [UInt64.toNat_add, UInt64.toNat_one, Nat.mod_eq_of_lt (by omega)]
          have fits : ¬list.len < len + 1 := by
            rw [UInt64.lt_iff_toNat_lt, grown]
            omega
          have backward : ¬(nodes cur).prev ≠ prev := not_not.mpr prevEq
          rw [InvasiveList.consistencyCheckLoop, if_pos (real cur List.mem_cons_self),
            if_neg backward, if_neg fits]
          have next : (nodes cur).next = others.headD 1 := nextEq
          apply inductionHypothesis tail
          · rw [next]
            cases others with
            | nil => rfl
            | cons head beyond => rfl
          · intro none
            rw [next, none]
            exact Nat.le_refl 1
          · intro other member
            exact real other (List.mem_cons_of_mem cur member)
          · omega
          · rw [grown]
            omega

theorem Shape.consistencyCheck (shape : Shape nodes list cells)
    (below : ∀ cell ∈ cells, cell < addressSpace) (counted : list.len.toNat = cells.length) :
    list.consistencyCheck nodes = some (.ok ()) := by
  apply consistencyCheckLoop_eq shape.linked _ _ shape.real (shape.length_lt below)
  · rw [counted, UInt64.toNat_zero, Nat.zero_add]
  · rw [shape.first_eq]
    cases cells with
    | nil => rfl
    | cons cell rest => rfl
  · rintro rfl
    rw [shape.first_eq]
    exact Nat.zero_le 1

/-! ### Counted lists -/

/-- The length word of a list is the number of its reachable members; `consistency_check`
passes; and where a call takes a member out, the word can be decremented. -/
structure LenExact (T : Type) [HasListNode T] [DecidableEq T] (nodes : Nodes)
    (list : InvasiveList) : Prop where
  counted : ∃ items : List T, list.iter nodes = some items ∧ list.len.toNat = items.length
  checked : list.consistencyCheck nodes = some (.ok ())
  positive : list.first ≠ 0 ∨ list.last ≠ 0 ∨
    (∃ item : T, list.contains nodes item = some true) → list.len ≠ 0

def Counted (pool : Pool ι) (contents : ι → List T) : Prop :=
  ∀ index, (pool.lists index).len.toNat = (contents index).length

theorem Represents.length_lt (represents : Represents pool contents) (index : ι) :
    (contents index).length < addressSpace := by
  have short := (represents.shape index).length_lt (map_listNode_lt _)
  rwa [List.length_map] at short

theorem Represents.first_eq_zero_iff (represents : Represents pool contents) (index : ι) :
    (pool.lists index).first = 0 ↔ contents index = [] := by
  rw [(represents.shape index).first_eq]
  cases contents index with
  | nil => exact ⟨fun _ => rfl, fun _ => rfl⟩
  | cons item rest =>
      have real := one_lt_listNode item
      rw [List.map_cons, List.headD_cons]
      constructor
      · intro zero
        omega
      · intro impossible
        cases impossible

theorem Represents.last_eq_zero_iff (represents : Represents pool contents) (index : ι) :
    (pool.lists index).last = 0 ↔ contents index = [] := by
  rw [(represents.shape index).last_eq]
  rcases List.eq_nil_or_concat (contents index) with found | ⟨rest, item, found⟩
  · rw [found]
    exact ⟨fun _ => rfl, fun _ => rfl⟩
  · have real := one_lt_listNode item
    rw [found, List.concat_eq_append, List.map_append, List.map_singleton, List.getLastD_concat]
    constructor
    · intro zero
      omega
    · intro impossible
      simp at impossible

theorem Represents.lenExact [DecidableEq T] (represents : Represents pool contents)
    (counted : Counted pool contents) (index : ι) :
    LenExact T pool.nodes (pool.lists index) where
  counted := ⟨contents index, represents.iter_eq index, counted index⟩
  checked := by
    apply (represents.shape index).consistencyCheck (map_listNode_lt _)
    rw [List.length_map]
    exact counted index
  positive := by
    intro taken zero
    have none : contents index = [] := by
      apply List.length_eq_zero_iff.mp
      rw [← counted index, zero]
      rfl
    have shape := represents.shape index
    rw [none] at shape
    rcases taken with first | last | ⟨item, found⟩
    · exact first shape.first_eq
    · exact last shape.last_eq
    · rw [represents.contains_eq index item, none] at found
      simp at found

theorem Represents.counted_of_lenExact [DecidableEq T] (represents : Represents pool contents)
    (lengths : ∀ index, LenExact T pool.nodes (pool.lists index)) : Counted pool contents := by
  intro index
  rcases (lengths index).counted with ⟨items, found, counted⟩
  rw [represents.iter_eq index] at found
  rw [counted, ← Option.some.inj found]

/-! ### One call -/

section Put

variable {ι T : Type} [DecidableEq ι] {pool : Pool ι} {contents : ι → List T}

theorem counted_put (counted : Counted pool contents) (index : ι) (update : InvasiveList × Nodes)
    (items : List T) :
    Counted (pool.put index update) (Function.update contents index items) ↔
      update.1.len.toNat = items.length := by
  constructor
  · intro after
    have here := after index
    simpa only [Pool.put, Function.update_self] using here
  · intro here other
    by_cases chosen : other = index
    · subst chosen
      simpa only [Pool.put, Function.update_self] using here
    · simpa only [Pool.put, Function.update_of_ne chosen] using counted other

variable {index : ι} {update : InvasiveList × Nodes} {fewer : List T}

theorem Counted.kept (counted : Counted pool contents) (len : update.1.len = (pool.lists index).len) :
    Counted (pool.put index update) contents := by
  have same := (counted_put counted index update (contents index)).mpr (len ▸ counted index)
  rwa [Function.update_eq_self] at same

theorem Counted.taken (counted : Counted pool contents)
    (len : update.1.len = (pool.lists index).len - 1)
    (less : (contents index).length = fewer.length + 1) :
    Counted (pool.put index update) (Function.update contents index fewer) := by
  apply (counted_put counted index update fewer).mpr
  have before := counted index
  have positive : (1 : UInt64) ≤ (pool.lists index).len := by
    rw [UInt64.le_iff_toNat_le, UInt64.toNat_one]
    omega
  rw [len, UInt64.toNat_sub_of_le _ _ positive, UInt64.toNat_one]
  omega

theorem Counted.linked (counted : Counted pool contents) {more : List T}
    (len : update.1.len = (pool.lists index).len + 1)
    (longer : more.length = (contents index).length + 1) (short : more.length < addressSpace) :
    Counted (pool.put index update) (Function.update contents index more) := by
  apply (counted_put counted index update more).mpr
  have fits : (pool.lists index).len.toNat + 1 < 2 ^ 64 := by
    rw [counted index, ← longer]
    exact short
  rw [len, UInt64.toNat_add, UInt64.toNat_one, Nat.mod_eq_of_lt fits, counted index, longer]

/-- A pop from either end, by what it does to the word. -/
theorem Counted.popped (counted : Counted pool contents) {endpoint : Nat}
    (len : update.1.len = if endpoint = 0 then (pool.lists index).len else (pool.lists index).len - 1)
    (null : endpoint = 0 ↔ contents index = []) (none : contents index = [] → fewer = [])
    (less : contents index ≠ [] → (contents index).length = fewer.length + 1) :
    Counted (pool.put index update) (Function.update contents index fewer) := by
  by_cases empty : contents index = []
  · rw [if_pos (null.mpr empty)] at len
    have kept := counted.kept len
    rw [none empty, ← empty, Function.update_eq_self]
    exact kept
  · rw [if_neg (mt null.mp empty)] at len
    exact counted.taken len (less empty)

end Put

/-- `clear` is called on an empty list only. -/
def ClearsEmpty (contents : ι → List T) : Op ι T → Prop
  | .clear index => contents index = []
  | _ => True

section Calls

variable [DecidableEq ι]

/-- A push in front or at the end, by what it does to the word. -/
theorem Represents.counted_push (represents : Represents pool contents)
    (counted : Counted pool contents) {index : ι} {item : T} {update : InvasiveList × Nodes}
    (len : update.1.len = if (pool.nodes (listNode item)).next ≠ 0 then (pool.lists index).len
      else (pool.lists index).len + 1) :
    (Listed contents item → Counted (pool.put index update) contents) ∧
    (¬Listed contents item → ∀ more, more.length = (contents index).length + 1 →
      Represents (pool.put index update) (Function.update contents index more) →
      Counted (pool.put index update) (Function.update contents index more)) := by
  constructor
  · intro listed
    rw [if_pos (represents.links_ne_zero listed).2] at len
    exact counted.kept len
  · intro unlisted more longer after
    rw [if_neg (not_not.mpr ((represents.next_eq_zero_iff item).mpr unlisted))] at len
    apply counted.linked len longer
    have short := after.length_lt index
    rwa [Function.update_self] at short

variable [DecidableEq T]

/-- A call keeps the count unless it is a `clear` of a list with members. -/
theorem Represents.counted_step (represents : Represents pool contents)
    (counted : Counted pool contents) {op : Op ι T} (allowed : Allowed contents op)
    {reply : Reply T} {pool' : Pool ι} (done : pool.step op = some (reply, pool')) :
    Counted pool' (dequeStep contents op).2 ↔ ClearsEmpty contents op := by
  rcases represents.step op allowed with ⟨reached, stepEq, after⟩
  have same : reached = pool' := by
    rw [done] at stepEq
    exact (Prod.mk.inj (Option.some.inj stepEq)).2.symm
  subst same
  cases op with
  | pushFront index item =>
      refine iff_of_true ?_ trivial
      cases done
      have push := represents.counted_push counted
        (pushFront_len (pool.lists index) pool.nodes item)
      by_cases listed : Listed contents item
      · simp only [dequeStep, if_pos listed] at after ⊢
        exact push.1 listed
      · simp only [dequeStep, if_neg listed] at after ⊢
        exact push.2 listed _ List.length_cons after
  | pushBack index item =>
      refine iff_of_true ?_ trivial
      cases done
      have push := represents.counted_push counted
        (pushBack_len (pool.lists index) pool.nodes item)
      by_cases listed : Listed contents item
      · simp only [dequeStep, if_pos listed] at after ⊢
        exact push.1 listed
      · simp only [dequeStep, if_neg listed] at after ⊢
        exact push.2 listed _ List.length_append after
  | popFront index =>
      refine iff_of_true ?_ trivial
      cases done
      apply counted.popped (popFront_len (pool.lists index) pool.nodes)
        (represents.first_eq_zero_iff index)
      · intro empty
        rw [empty, List.tail_nil]
      · intro filled
        have positive := List.length_pos_iff.mpr filled
        rw [List.length_tail]
        omega
  | popBack index =>
      refine iff_of_true ?_ trivial
      cases done
      apply counted.popped (popBack_len (pool.lists index) pool.nodes)
        (represents.last_eq_zero_iff index)
      · intro empty
        rw [empty, List.dropLast_nil]
      · intro filled
        have positive := List.length_pos_iff.mpr filled
        rw [List.length_dropLast]
        omega
  | front index =>
      cases done
      exact iff_of_true counted trivial
  | back index =>
      cases done
      exact iff_of_true counted trivial
  | contains index item =>
      rw [Pool.step, represents.contains_eq index item] at done
      cases done
      exact iff_of_true counted trivial
  | remove index item =>
      refine iff_of_true ?_ trivial
      cases done
      exact counted.taken (remove_len (pool.lists index) pool.nodes item)
        (List.length_erase_add_one allowed).symm
  | tryRemove index item =>
      refine iff_of_true ?_ trivial
      cases done
      unfold InvasiveList.tryRemove InvasiveListNode.isInList
      rcases allowed with member | unlisted
      · have linked := (represents.links_ne_zero ⟨index, member⟩).1
        rw [if_pos (bne_iff_ne.mpr linked)]
        exact counted.taken (remove_len (pool.lists index) pool.nodes item)
          (List.length_erase_add_one member).symm
      · have absent : item ∉ contents index := fun member => unlisted ⟨index, member⟩
        rw [represents.detached item unlisted, if_neg (by decide)]
        simp only [dequeStep, List.erase_of_not_mem absent, Function.update_eq_self]
        exact counted.kept rfl
  | clear index =>
      rw [Pool.step] at done
      cases cleared : (pool.lists index).clear pool.nodes with
      | none =>
          rw [cleared] at done
          cases done
      | some update =>
          rw [cleared] at done
          cases done
          have len := clear_len (pool.lists index) pool.nodes cleared
          refine (counted_put counted index update []).trans ?_
          rw [len, counted index]
          exact List.length_eq_zero_iff
  | iter index =>
      rw [Pool.step, represents.iter_eq index] at done
      cases done
      exact iff_of_true counted trivial

/-! ### Runs of calls on plain lists -/

def ClearsEmptyRun (contents : ι → List T) : List (Op ι T) → Prop
  | [] => True
  | op :: rest => ClearsEmpty contents op ∧ ClearsEmptyRun (dequeStep contents op).2 rest

/-- The calls return, and the length words are exact in every state they lead through. -/
def ExactAlong (pool : Pool ι) (ops : List (Op ι T)) : Prop :=
  ∀ count, ∃ replies pool', pool.run (ops.take count) = some (replies, pool') ∧
    ∀ index, LenExact T pool'.nodes (pool'.lists index)

theorem Represents.exactAlong_iff (represents : Represents pool contents)
    (counted : Counted pool contents) (ops : List (Op ι T)) (allowed : AllowedRun contents ops) :
    ExactAlong pool ops ↔ ClearsEmptyRun contents ops := by
  induction ops generalizing pool contents with
  | nil =>
      refine iff_of_true ?_ trivial
      intro count
      rw [List.take_nil]
      exact ⟨[], pool, rfl, represents.lenExact counted⟩
  | cons op rest inductionHypothesis =>
      rcases allowed with ⟨allowedOp, allowedRest⟩
      rcases represents.step op allowedOp with ⟨next, stepEq, after⟩
      have runCons : ∀ count, pool.run ((op :: rest).take (count + 1)) =
          (next.run (rest.take count)).map fun outcome =>
            ((dequeStep contents op).1 :: outcome.1, outcome.2) := by
        intro count
        cases reached : next.run (rest.take count) with
        | none => simp [Pool.run, stepEq, reached]
        | some outcome => simp [Pool.run, stepEq, reached]
      have one := represents.counted_step counted allowedOp stepEq
      constructor
      · intro along
        have counts : Counted next (dequeStep contents op).2 := by
          rcases along 1 with ⟨replies, pool', done, lengths⟩
          rw [runCons, List.take_zero] at done
          cases done
          exact after.counted_of_lenExact lengths
        refine ⟨one.mp counts, (inductionHypothesis after counts allowedRest).mp ?_⟩
        intro count
        rcases along (count + 1) with ⟨replies, pool', done, lengths⟩
        rw [runCons, Option.map_eq_some_iff] at done
        rcases done with ⟨outcome, reached, same⟩
        cases same
        exact ⟨outcome.1, outcome.2, reached, lengths⟩
      · rintro ⟨clearsOp, clearsRest⟩ count
        have counts := one.mpr clearsOp
        have later := (inductionHypothesis after counts allowedRest).mpr clearsRest
        cases count with
        | zero => exact ⟨[], pool, rfl, represents.lenExact counted⟩
        | succ count =>
            rcases later count with ⟨replies, pool', done, lengths⟩
            refine ⟨(dequeStep contents op).1 :: replies, pool', ?_, lengths⟩
            rw [runCons, done]
            rfl

end Calls

/-! ### Lists of handles and of boxes -/

section Owners

variable [DecidableEq ι] [DecidableEq T]

/-- What a call on a list of handles or of boxes does to the inner lists. -/
inductive InnerStep (T : Type) [HasListNode T] [DecidableEq T] (pool : Pool ι) : Pool ι → Prop
  | same : InnerStep T pool pool
  | call {pool' : Pool ι} {reply : Reply T} (op : Op ι T)
      (allowed : ∀ contents, Represents pool contents →
        Allowed contents op ∧ ClearsEmpty contents op)
      (done : pool.step op = some (reply, pool')) : InnerStep T pool pool'
  | cleared (index : ι) {nodes : Nodes}
      (looped : InvasiveList.clearLoop addressSpace (pool.lists index).first pool.nodes =
        some nodes) : InnerStep T pool (pool.put index (InvasiveList.new, nodes))

/-- The inner lists represent some sequences and are counted. -/
def Balanced (T : Type) [HasListNode T] (pool : Pool ι) : Prop :=
  ∃ contents : ι → List T, Represents pool contents ∧ Counted pool contents

theorem Balanced.step {pool' : Pool ι} (balanced : Balanced T pool)
    (step : InnerStep T pool pool') : Balanced T pool' := by
  rcases balanced with ⟨contents, represents, counted⟩
  cases step with
  | same => exact ⟨contents, represents, counted⟩
  | call op allowed done =>
      rcases allowed contents represents with ⟨allowedOp, clears⟩
      rcases represents.step op allowedOp with ⟨reached, stepEq, after⟩
      have counts := (represents.counted_step counted allowedOp done).mpr clears
      rw [done] at stepEq
      cases stepEq
      exact ⟨_, after, counts⟩
  | cleared index looped =>
      refine ⟨Function.update contents index [], represents.cleared looped, ?_⟩
      exact (counted_put counted index _ []).mpr rfl

/-- A push of an inner list, whether the item is taken or refused. -/
theorem InnerStep.push {index : ι} {item : T} {update : InvasiveList × Nodes}
    (pushed : update = ((pool.lists index).pushFront pool.nodes item).2 ∨
      update = ((pool.lists index).pushBack pool.nodes item).2) :
    InnerStep T pool (pool.put index update) := by
  rcases pushed with rfl | rfl
  · exact InnerStep.call (.pushFront index item) (fun _ _ => ⟨trivial, trivial⟩) rfl
  · exact InnerStep.call (.pushBack index item) (fun _ _ => ⟨trivial, trivial⟩) rfl

theorem InnerStep.remove {index : ι} {item : T} {update : InvasiveList × Nodes}
    (found : (pool.lists index).contains pool.nodes item = some true)
    (removed : update = (pool.lists index).remove pool.nodes item) :
    InnerStep T pool (pool.put index update) := by
  subst removed
  refine InnerStep.call (.remove index item) ?_ rfl
  intro contents represents
  rw [represents.contains_eq index item] at found
  have member : item ∈ contents index := of_decide_eq_true (Option.some.inj found)
  exact ⟨member, trivial⟩

/-- Every call on the lists of handles is, for the inner lists, one that keeps the count. -/
theorem ArcState.step_inner {s s' : ArcState ι T} {op : ArcOp ι T} (done : s.step op = some s') :
    InnerStep T s.pool s'.pool := by
  cases op with
  | clone item =>
      cases done
      exact InnerStep.same
  | dropHandle item =>
      rcases Option.map_eq_some_iff.mp done with ⟨heap, dropped, rfl⟩
      have kept : ({ s with heap := heap, handles := giveHandle s.handles item } :
          ArcState ι T).pool = s.pool :=
        congrArg (fun nodes => Pool.mk nodes s.pool.lists) (ArcHeap.items.dropItem_nodes dropped)
      rw [kept]
      exact InnerStep.same
  | pushFront index item =>
      rcases Option.map_eq_some_iff.mp done with ⟨⟨res, list, heap⟩, pushed, rfl⟩
      rw [s.pool_put]
      exact InnerStep.push (Or.inl (ItemHeap.pushWith_inner pushed))
  | pushBack index item =>
      rcases Option.map_eq_some_iff.mp done with ⟨⟨res, list, heap⟩, pushed, rfl⟩
      rw [s.pool_put]
      exact InnerStep.push (Or.inr (ItemHeap.pushWith_inner pushed))
  | popFront index =>
      cases done
      rw [ArcState.afterPop, s.pool_put]
      exact InnerStep.call (.popFront index) (fun _ _ => ⟨trivial, trivial⟩) rfl
  | popBack index =>
      cases done
      rw [ArcState.afterPop, s.pool_put]
      exact InnerStep.call (.popBack index) (fun _ _ => ⟨trivial, trivial⟩) rfl
  | remove index item =>
      rcases Option.map_eq_some_iff.mp done with ⟨⟨list, heap⟩, removed, rfl⟩
      rcases ItemHeap.remove_inner removed with ⟨found, after⟩
      rw [s.pool_put]
      exact InnerStep.remove found after
  | clear index =>
      rcases Option.map_eq_some_iff.mp done with ⟨⟨list, heap⟩, cleared, rfl⟩
      rcases ItemHeap.clear_inner cleared with ⟨rfl, looped⟩
      rw [s.pool_put]
      exact InnerStep.cleared index looped
  | dropList index =>
      rcases Option.map_eq_some_iff.mp done with ⟨⟨list, heap⟩, dropped, rfl⟩
      rcases ItemHeap.drop_inner dropped with ⟨rfl, looped⟩
      rw [s.pool_put]
      exact InnerStep.cleared index looped

theorem ArcRun.balanced {handles : T → Nat} {ops : List (ArcOp ι T)} {s : ArcState ι T}
    (run : ArcRun (ArcState.start ι handles) ops s) : Balanced T s.pool := by
  induction run with
  | nil => exact ⟨fun _ => [], Represents.new, fun _ => rfl⟩
  | snoc op before handle done inductionHypothesis =>
      exact inductionHypothesis.step (ArcState.step_inner done)

/-- Every call on the lists of boxes, too. -/
theorem BoxInv.step_inner {s s' : BoxState ι T} {contents : ι → List T} (inv : BoxInv s contents)
    {op : BoxOp ι T} (enabled : BoxEnabled s op) (done : s.step op = some s') :
    InnerStep T s.pool s'.pool := by
  cases op with
  | newBox item =>
      rcases inv.newBox (enabled.free item rfl) with ⟨made, stepEq, pool, _⟩
      cases Option.some.inj (done.symm.trans stepEq)
      rw [pool]
      exact InnerStep.same
  | dropBox item =>
      rcases Option.map_eq_some_iff.mp done with ⟨heap, dropped, rfl⟩
      have kept : ({ s with heap := heap, owned := Function.update s.owned item false } :
          BoxState ι T).pool = s.pool :=
        congrArg (fun nodes => Pool.mk nodes s.pool.lists) (BoxHeap.items.dropItem_nodes dropped)
      rw [kept]
      exact InnerStep.same
  | pushFront index item =>
      rcases Option.map_eq_some_iff.mp done with ⟨⟨res, list, heap⟩, pushed, rfl⟩
      rw [s.pool_put]
      exact InnerStep.push (Or.inl (ItemHeap.pushWith_inner pushed))
  | pushBack index item =>
      rcases Option.map_eq_some_iff.mp done with ⟨⟨res, list, heap⟩, pushed, rfl⟩
      rw [s.pool_put]
      exact InnerStep.push (Or.inr (ItemHeap.pushWith_inner pushed))
  | popFront index =>
      cases done
      rw [BoxState.afterPop, s.pool_put]
      exact InnerStep.call (.popFront index) (fun _ _ => ⟨trivial, trivial⟩) rfl
  | popBack index =>
      cases done
      rw [BoxState.afterPop, s.pool_put]
      exact InnerStep.call (.popBack index) (fun _ _ => ⟨trivial, trivial⟩) rfl
  | remove index item =>
      rcases Option.map_eq_some_iff.mp done with ⟨⟨list, heap⟩, removed, rfl⟩
      rcases ItemHeap.remove_inner removed with ⟨found, after⟩
      rw [s.pool_put]
      exact InnerStep.remove found after
  | clear index =>
      rcases Option.map_eq_some_iff.mp done with ⟨⟨list, heap⟩, cleared, rfl⟩
      rcases ItemHeap.clear_inner cleared with ⟨rfl, looped⟩
      rw [s.pool_put]
      exact InnerStep.cleared index looped
  | dropList index =>
      rcases Option.map_eq_some_iff.mp done with ⟨⟨list, heap⟩, dropped, rfl⟩
      rcases ItemHeap.drop_inner dropped with ⟨rfl, looped⟩
      rw [s.pool_put]
      exact InnerStep.cleared index looped

theorem BoxRun.balanced {ops : List (BoxOp ι T)} {s : BoxState ι T}
    (run : BoxRun (BoxState.start ι T) ops s) : Balanced T s.pool := by
  induction run with
  | nil => exact ⟨fun _ => [], Represents.new, fun _ => rfl⟩
  | snoc op before box done inductionHypothesis =>
      rcases before.inv with ⟨contents, inv⟩
      exact inductionHypothesis.step (inv.step_inner (inv.enabled box done) done)

/-- For any number of plain lists that share their nodes and every run of allowed calls from
new lists, `len` is exact in every state of the run if and only if `clear` is only called on
empty lists.  For lists of handles and for lists of boxes it is exact in every state of every
run, and every call that a caller can make is carried out. -/
theorem list_lengths_exact :
    (∀ ops : List (Op ι T), AllowedRun (fun _ => []) ops →
      (ExactAlong (Pool.new ι) ops ↔ ClearsEmptyRun (fun _ => []) ops)) ∧
    (∀ (handles : T → Nat) (ops : List (ArcOp ι T)) (s : ArcState ι T),
      ArcRun (ArcState.start ι handles) ops s →
      (∀ index, LenExact T s.heap.nodes (s.lists index).inner) ∧
      ∀ op, Enabled s op → ∃ s', s.step op = some s') ∧
    ∀ (ops : List (BoxOp ι T)) (s : BoxState ι T), BoxRun (BoxState.start ι T) ops s →
      (∀ index, LenExact T s.heap.nodes (s.lists index).inner) ∧
      ∀ op, BoxEnabled s op → ∃ s', s.step op = some s' := by
  refine ⟨?_, ?_, ?_⟩
  · intro ops allowed
    exact Represents.new.exactAlong_iff (fun _ => rfl) ops allowed
  · intro handles ops s run
    rcases run.balanced with ⟨contents, represents, counted⟩
    refine ⟨represents.lenExact counted, ?_⟩
    intro op enabled
    rcases run.inv with ⟨_, inv⟩
    rcases inv.step enabled with ⟨s', _, done, _⟩
    exact ⟨s', done⟩
  · intro ops s run
    rcases run.balanced with ⟨contents, represents, counted⟩
    refine ⟨represents.lenExact counted, ?_⟩
    intro op enabled
    rcases run.inv with ⟨_, inv⟩
    rcases inv.step enabled with ⟨s', _, done, _⟩
    exact ⟨s', done⟩

end Owners

/-- An item goes through a list and the empty list is cleared: the words stay exact. -/
theorem list_lengths_exact_pop :
    AllowedRun (fun _ : Bool => []) [.pushBack true sampleItem, .popFront true, .clear true] ∧
    ExactAlong (Pool.new Bool) [.pushBack true sampleItem, .popFront true, .clear true] := by
  have allowed : AllowedRun (fun _ : Bool => [])
      [.pushBack true sampleItem, .popFront true, .clear true] := ⟨trivial, trivial, trivial, trivial⟩
  refine ⟨allowed, (list_lengths_exact.1 _ allowed).mpr ⟨trivial, trivial, ?_, trivial⟩⟩
  simp [ClearsEmpty, dequeStep, Listed]

/-- After `clear` the length word of a list is still one while no member is reachable, and
the next push makes `consistency_check` fail. -/
theorem cleared_list_keeps_len :
    ∃ (cleared pushed : Pool Unit) (first second : List (Reply NodePointer)),
      (Pool.new Unit).run [.pushBack () sampleItem, .clear ()] = some (first, cleared) ∧
      (cleared.lists ()).iter (T := NodePointer) cleared.nodes = some [] ∧
      (cleared.lists ()).len = 1 ∧
      cleared.run [.pushBack () sampleItem] = some (second, pushed) ∧
      (pushed.lists ()).consistencyCheck pushed.nodes =
        some (.error "InvasiveList has too few elements") :=
  ⟨_, _, _, _, rfl, rfl, rfl, rfl, rfl⟩

end NyauxKernel.Lists
