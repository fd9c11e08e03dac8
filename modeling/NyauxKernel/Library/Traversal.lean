/-
Depth-first traversal without a record of what was visited.

Places hold items in a fixed order, and an item may lead to another place.  The traversal
lists the items of a place and, behind an item that leads on, everything below it.  It ends
exactly when no infinite chain of places starts at the place, lists the items of all
reachable places, and lists none twice if the places form a tree.
-/

import NyauxKernel.Library.LinkWalk
import Mathlib.Logic.Relation
import Mathlib.Data.List.Nodup

namespace Traversal

variable {β ι : Type} (items : β → List ι) (child : ι → Option β)

/-- An item is appended to `done`; if it leads to a place, `go` lists what is there. -/
def enter (go : β → List ι → Option (List ι)) (done : List ι) (item : ι) : Option (List ι) :=
  match child item with
  | none => some (done ++ [item])
  | some below => go below (done ++ [item])

/-- The traversal, with a bound on the depth of the recursion.  It appends to `done`. -/
def explore : Nat → β → List ι → Option (List ι)
  | 0, _, _ => none
  | fuel + 1, place, done => (items place).foldlM (enter child (explore fuel)) done

/-- An item of the first place leads to the second. -/
def Edge (place below : β) : Prop := ∃ item ∈ items place, child item = some below

abbrev Reaches (place below : β) : Prop := Relation.ReflTransGen (Edge items child) place below

/-- What the traversal lists for one item. -/
def visit (fuel : Nat) (item : ι) : Option (List ι) :=
  match child item with
  | none => some [item]
  | some below => (explore items child fuel below []).map (item :: ·)

/-- What the traversal lists for some items of one place. -/
def visitAll (fuel : Nat) : List ι → Option (List ι)
  | [] => some []
  | item :: rest => do
      let first ← visit items child fuel item
      let later ← visitAll fuel rest
      some (first ++ later)

/-! ### The accumulator -/

theorem foldlM_flatMap {α β γ : Type} (list : List α) (f : α → List β) (g : γ → β → Option γ)
    (init : γ) :
    (list.flatMap f).foldlM g init = list.foldlM (fun acc x => (f x).foldlM g acc) init := by
  induction list generalizing init with
  | nil => rfl
  | cons head tail inductionHypothesis =>
      rw [List.flatMap_cons, List.foldlM_append, List.foldlM_cons]
      simp only [inductionHypothesis]

variable {items child}

variable {fuel : Nat} {item : ι} {first list : List ι} {place : β}

theorem foldlM_eq_visitAll (appends : ∀ place done, explore items child fuel place done =
      (explore items child fuel place []).map (done ++ ·)) (rest done : List ι) :
    rest.foldlM (enter child (explore items child fuel)) done =
      (visitAll items child fuel rest).map (done ++ ·) := by
  induction rest generalizing done with
  | nil => simp [visitAll]
  | cons item rest inductionHypothesis =>
      rw [List.foldlM_cons, visitAll, visit, enter]
      cases leads : child item with
      | none =>
          simp only [bind, Option.bind_some, inductionHypothesis]
          cases visitAll items child fuel rest with
          | none => rfl
          | some later => simp
      | some below =>
          simp only [bind, appends below (done ++ [item])]
          cases explore items child fuel below [] with
          | none => rfl
          | some list =>
              simp only [Option.map_some, Option.bind_some, inductionHypothesis]
              cases visitAll items child fuel rest with
              | none => rfl
              | some later => simp

/-- The traversal appends the same items to any list. -/
theorem explore_append (fuel : Nat) (place : β) (done : List ι) :
    explore items child fuel place done =
      (explore items child fuel place []).map (done ++ ·) := by
  induction fuel generalizing place done with
  | zero => rfl
  | succ fuel inductionHypothesis =>
      rw [explore, explore, foldlM_eq_visitAll inductionHypothesis,
        foldlM_eq_visitAll inductionHypothesis]
      cases visitAll items child fuel (items place) with
      | none => rfl
      | some list => simp

theorem explore_succ (fuel : Nat) (place : β) :
    explore items child (fuel + 1) place [] = visitAll items child fuel (items place) := by
  rw [explore, foldlM_eq_visitAll (explore_append fuel)]
  simp

/-! ### Lists of items -/

theorem visitAll_cons_eq_some {rest : List ι} :
    visitAll items child fuel (item :: rest) = some list ↔
      ∃ first later, visit items child fuel item = some first ∧
        visitAll items child fuel rest = some later ∧ list = first ++ later := by
  rw [visitAll]
  cases visit items child fuel item with
  | none => simp
  | some first =>
      cases visitAll items child fuel rest with
      | none => simp
      | some later => simp [eq_comm]

/-- Some items are listed exactly when each of them is. -/
theorem visitAll_isSome (list : List ι) :
    (visitAll items child fuel list).isSome ↔
      ∀ item ∈ list, (visit items child fuel item).isSome := by
  induction list with
  | nil => simp [visitAll]
  | cons item rest inductionHypothesis =>
      rw [List.forall_mem_cons, ← inductionHypothesis, visitAll]
      cases visit items child fuel item with
      | none => simp
      | some first =>
          cases visitAll items child fuel rest with
          | none => simp
          | some later => simp

theorem mem_visitAll {items' : List ι} {other : ι}
    (listed : visitAll items child fuel items' = some list) :
    other ∈ list ↔ ∃ item ∈ items', ∃ first, visit items child fuel item = some first ∧
      other ∈ first := by
  induction items' generalizing list with
  | nil =>
      cases listed
      simp
  | cons item rest inductionHypothesis =>
      rcases visitAll_cons_eq_some.mp listed with ⟨first, later, visited, listedLater, rfl⟩
      rw [List.mem_append, inductionHypothesis listedLater]
      constructor
      · intro either
        rcases either with inFirst | ⟨next, inRest, found⟩
        · exact ⟨item, List.mem_cons_self, first, visited, inFirst⟩
        · exact ⟨next, List.mem_cons_of_mem item inRest, found⟩
      · intro found
        rcases found with ⟨next, member, listNext, visitedNext, inNext⟩
        rcases List.mem_cons.mp member with same | inRest
        · rw [same, visited] at visitedNext
          cases visitedNext
          exact Or.inl inNext
        · exact Or.inr ⟨next, inRest, listNext, visitedNext, inNext⟩

theorem visit_isSome :
    (visit items child fuel item).isSome ↔
      ∀ below, child item = some below → (explore items child fuel below []).isSome := by
  rw [visit]
  cases child item with
  | none => simp
  | some below => simp

/-! ### Termination -/

theorem explore_isSome_succ (ends : (explore items child fuel place []).isSome) :
    (explore items child (fuel + 1) place []).isSome := by
  induction fuel generalizing place with
  | zero => contradiction
  | succ fuel inductionHypothesis =>
      rw [explore_succ, visitAll_isSome] at ends ⊢
      intro item member
      rw [visit_isSome]
      intro below leads
      exact inductionHypothesis (visit_isSome.mp (ends item member) below leads)

theorem visit_isSome_mono {fuel' : Nat} (more : fuel ≤ fuel')
    (ends : (visit items child fuel item).isSome) : (visit items child fuel' item).isSome := by
  induction more with
  | refl => exact ends
  | step _ inductionHypothesis =>
      rw [visit_isSome] at inductionHypothesis ⊢
      intro below leads
      exact explore_isSome_succ (inductionHypothesis below leads)

/-- One depth is enough for finitely many items. -/
theorem exists_common_fuel (list : List ι)
    (each : ∀ item ∈ list, ∃ fuel, (visit items child fuel item).isSome) :
    ∃ fuel, ∀ item ∈ list, (visit items child fuel item).isSome := by
  induction list with
  | nil => exact ⟨0, fun _ member => absurd member List.not_mem_nil⟩
  | cons item rest inductionHypothesis =>
      rcases inductionHypothesis (fun next member => each next (List.mem_cons_of_mem item member))
        with ⟨fuelRest, endsRest⟩
      rcases each item List.mem_cons_self with ⟨fuelItem, endsItem⟩
      refine ⟨max fuelItem fuelRest, ?_⟩
      intro next member
      rcases List.mem_cons.mp member with same | inRest
      · rw [same]
        exact visit_isSome_mono (Nat.le_max_left _ _) endsItem
      · exact visit_isSome_mono (Nat.le_max_right _ _) (endsRest next inRest)

/-- The traversal ends exactly when no chain of places goes on for ever. -/
theorem ends_iff_acc (place : β) :
    (∃ fuel, (explore items child fuel place []).isSome) ↔
      Acc (fun below above => Edge items child above below) place := by
  constructor
  · intro finite
    rcases finite with ⟨fuel, ends⟩
    induction fuel generalizing place with
    | zero => contradiction
    | succ fuel inductionHypothesis =>
        rw [explore_succ, visitAll_isSome] at ends
        constructor
        intro below edge
        rcases edge with ⟨item, member, leads⟩
        exact inductionHypothesis below (visit_isSome.mp (ends item member) below leads)
  · intro accessible
    induction accessible with
    | intro place _ inductionHypothesis =>
        have each : ∀ item ∈ items place, ∃ fuel, (visit items child fuel item).isSome := by
          intro item member
          cases leads : child item with
          | none => exact ⟨0, by simp [visit, leads]⟩
          | some below =>
              rcases inductionHypothesis below ⟨item, member, leads⟩ with ⟨fuel, ends⟩
              refine ⟨fuel, visit_isSome.mpr ?_⟩
              intro other leadsOther
              rw [leads] at leadsOther
              cases leadsOther
              exact ends
        rcases exists_common_fuel (items place) each with ⟨fuel, enough⟩
        refine ⟨fuel + 1, ?_⟩
        rw [explore_succ, visitAll_isSome]
        exact enough

/-! ### Cycles -/

theorem not_rel_of_acc {r : β → β → Prop} (accessible : Acc r place) : ¬r place place := by
  induction accessible with
  | intro place _ inductionHypothesis =>
      intro loop
      exact inductionHypothesis place loop loop

/-- From a place where the traversal ends no cycle is reached. -/
theorem no_cycle_of_acc {below : β}
    (accessible : Acc (fun below above => Edge items child above below) place)
    (reached : Reaches items child place below) :
    ¬Relation.TransGen (Edge items child) below below := by
  have accessibleBelow : Acc (fun below above => Edge items child above below) below := by
    induction reached with
    | refl => exact accessible
    | tail _ edge inductionHypothesis => exact inductionHypothesis.inv edge
  have accessibleTrans : Acc (Relation.TransGen fun below above => Edge items child above below)
      below := accessibleBelow.transGen
  intro loop
  exact not_rel_of_acc accessibleTrans (Relation.transGen_swap.mpr loop)

/-- With finitely many places, a chain that goes on for ever runs into a cycle. -/
theorem ends_iff_no_cycle [Finite β] (place : β) :
    (∃ fuel, (explore items child fuel place []).isSome) ↔
      ∀ below, Reaches items child place below →
        ¬Relation.TransGen (Edge items child) below below := by
  rw [ends_iff_acc]
  constructor
  · intro accessible below reached
    exact no_cycle_of_acc accessible reached
  · intro acyclic
    have transitive (first second third : β)
        (lower : Relation.TransGen (Edge items child) second first)
        (upper : Relation.TransGen (Edge items child) third second) :
        Relation.TransGen (Edge items child) third first :=
      upper.trans lower
    apply LinkWalk.ahead_induction
      (fun below above => Relation.TransGen (Edge items child) above below) transitive acyclic ?_
      Relation.ReflTransGen.refl
    intro above reached inductionHypothesis
    constructor
    intro below edge
    exact inductionHypothesis below (reached.tail edge) (Relation.TransGen.single edge)

/-! ### What is listed -/

/-- An item is listed before everything below it. -/
theorem visit_eq_some (visited : visit items child fuel item = some first) :
    child item = none ∧ first = [item] ∨
      ∃ below list, child item = some below ∧ explore items child fuel below [] = some list ∧
        first = item :: list := by
  rw [visit] at visited
  cases leads : child item with
  | none =>
      rw [leads] at visited
      exact Or.inl ⟨rfl, (Option.some.inj visited).symm⟩
  | some below =>
      rw [leads] at visited
      rcases Option.map_eq_some_iff.mp visited with ⟨list, listed, same⟩
      exact Or.inr ⟨below, list, rfl, listed, same.symm⟩

/-- What is listed for an item: the item, or something that lives below it. -/
theorem mem_visit {listed : ι} (visited : visit items child fuel item = some first)
    (member : listed ∈ first) :
    listed = item ∨ ∃ below list, child item = some below ∧
      explore items child fuel below [] = some list ∧ listed ∈ list := by
  rcases visit_eq_some visited with ⟨_, rfl⟩ | ⟨below, list, leads, listedBelow, rfl⟩
  · exact Or.inl (List.mem_singleton.mp member)
  · rcases List.mem_cons.mp member with same | inList
    · exact Or.inl same
    · exact Or.inr ⟨below, list, leads, listedBelow, inList⟩

/-- The traversal lists the items of the reachable places. -/
theorem mem_explore (listed : explore items child fuel place [] = some list) (other : ι) :
    other ∈ list ↔ ∃ below, Reaches items child place below ∧ other ∈ items below := by
  induction fuel generalizing place list with
  | zero => contradiction
  | succ fuel inductionHypothesis =>
      rw [explore_succ] at listed
      rw [mem_visitAll listed]
      constructor
      · intro found
        rcases found with ⟨item, member, first, visited, inFirst⟩
        rcases visit_eq_some visited with ⟨_, rfl⟩ | ⟨below, list, leads, listedBelow, rfl⟩
        · rw [List.mem_singleton.mp inFirst]
          exact ⟨place, Relation.ReflTransGen.refl, member⟩
        · rcases List.mem_cons.mp inFirst with same | inBelow
          · rw [same]
            exact ⟨place, Relation.ReflTransGen.refl, member⟩
          · rcases (inductionHypothesis listedBelow).mp inBelow with ⟨home, reached, atHome⟩
            exact ⟨home, Relation.ReflTransGen.head ⟨item, member, leads⟩ reached, atHome⟩
      · intro found
        rcases found with ⟨home, reached, atHome⟩
        have each := (visitAll_isSome (items place)).mp (by rw [listed]; rfl)
        rcases Relation.ReflTransGen.cases_head reached with same | ⟨below, edge, onward⟩
        · rw [← same] at atHome
          rcases Option.isSome_iff_exists.mp (each other atHome) with ⟨first, visited⟩
          refine ⟨other, atHome, first, visited, ?_⟩
          rcases visit_eq_some visited with ⟨_, rfl⟩ | ⟨_, _, _, _, rfl⟩
          · exact List.mem_cons_self
          · exact List.mem_cons_self
        · rcases edge with ⟨item, member, leads⟩
          rcases Option.isSome_iff_exists.mp (each item member) with ⟨first, visited⟩
          refine ⟨item, member, first, visited, ?_⟩
          rcases visit_eq_some visited with ⟨nowhere, _⟩ | ⟨place', list', leads', listed', rfl⟩
          · rw [leads] at nowhere
            contradiction
          · rw [leads] at leads'
            cases leads'
            exact List.mem_cons_of_mem item
              ((inductionHypothesis listed').mpr ⟨home, onward, atHome⟩)

/-! ### Trees -/

variable (items child) in
/-- Below `root` every item has one place, and no place has two items that lead to it. -/
structure Unshared (root : β) : Prop where
  distinct : ∀ place, Reaches items child root place → (items place).Nodup
  home : ∀ place place' item, item ∈ items place → item ∈ items place' → place = place'
  unique : ∀ place place' item other below, Reaches items child root place →
    Reaches items child root place' → item ∈ items place → other ∈ items place' →
    child item = some below → child other = some below → item = other

section Tree

variable {root : β} (unshared : Unshared items child root)

include unshared

variable {below : β} {other : ι}

/-- Two places above a third are one above the other. -/
theorem Unshared.comparable {first second : β} (reachedFirst : Reaches items child root first)
    (reachedSecond : Reaches items child root second) (fromFirst : Reaches items child first below)
    (fromSecond : Reaches items child second below) :
    Reaches items child first second ∨ Reaches items child second first := by
  induction fromFirst with
  | refl => exact Or.inr fromSecond
  | @tail above below fromFirst edge inductionHypothesis =>
      rcases Relation.ReflTransGen.cases_tail fromSecond with same | ⟨above', fromSecond', edge'⟩
      · rw [← same]
        exact Or.inl (fromFirst.tail edge)
      · rcases edge with ⟨item, member, leads⟩
        rcases edge' with ⟨item', member', leads'⟩
        have same := unshared.unique above above' item item' below
          (reachedFirst.trans fromFirst) (reachedSecond.trans fromSecond') member member' leads
          leads'
        subst same
        have sameHome := unshared.home above above' item member member'
        subst sameHome
        exact inductionHypothesis fromSecond'

/-- Different items of one place lead to places with nothing below both. -/
theorem Unshared.apart {left right : β} (reached : Reaches items child root place)
    (acyclic : ¬Relation.TransGen (Edge items child) place place) (member : item ∈ items place)
    (memberOther : other ∈ items place) (leads : child item = some left)
    (leadsOther : child other = some right) (fromLeft : Reaches items child left below)
    (fromRight : Reaches items child right below) : item = other := by
  have edgeLeft : Edge items child place left := ⟨item, member, leads⟩
  have edgeRight : Edge items child place right := ⟨other, memberOther, leadsOther⟩
  -- a place below a child of `place` that leads back to a child of `place` is `place` itself
  have closing {start stop : β} {last : ι} (edge : Edge items child place start)
      (memberLast : last ∈ items place) (leadsLast : child last = some stop)
      (onward : Reaches items child start stop) : start = stop := by
    rcases Relation.ReflTransGen.cases_tail onward with same | ⟨above, reachedAbove, edgeAbove⟩
    · exact same.symm
    · rcases edgeAbove with ⟨item', member', leads'⟩
      have sameItem := unshared.unique above place item' last stop
        ((reached.tail edge).trans reachedAbove) reached member' memberLast leads' leadsLast
      subst sameItem
      have sameHome := unshared.home above place item' member' memberLast
      subst sameHome
      exact absurd (Relation.TransGen.head' edge reachedAbove) acyclic
  have samePlace : left = right := by
    rcases unshared.comparable (reached.tail edgeLeft) (reached.tail edgeRight) fromLeft fromRight
      with onward | onward
    · exact closing edgeLeft memberOther leadsOther onward
    · exact (closing edgeRight member leads onward).symm
  rw [samePlace] at leads
  exact unshared.unique place place item other right reached reached member memberOther leads
    leadsOther

/-- Below a child of a place nothing of the place itself is listed. -/
theorem Unshared.not_listed (acyclic : ¬Relation.TransGen (Edge items child) place place)
    (member : item ∈ items place) (leads : child item = some below)
    (listed : explore items child fuel below [] = some list) (atPlace : other ∈ items place) :
    other ∉ list := by
  intro inList
  rcases (mem_explore listed other).mp inList with ⟨home, reached, atHome⟩
  rw [← unshared.home place home other atPlace atHome] at reached
  exact acyclic (Relation.TransGen.head' ⟨item, member, leads⟩ reached)

theorem Unshared.visits_disjoint {first firstOther : List ι}
    (reached : Reaches items child root place)
    (acyclic : ¬Relation.TransGen (Edge items child) place place) (member : item ∈ items place)
    (memberOther : other ∈ items place) (different : item ≠ other)
    (visited : visit items child fuel item = some first)
    (visitedOther : visit items child fuel other = some firstOther) :
    List.Disjoint first firstOther := by
  intro listed inFirst inOther
  rcases mem_visit visited inFirst with same | ⟨below, list, leads, listedBelow, inList⟩
  · rcases mem_visit visitedOther inOther with sameOther |
      ⟨belowOther, listOther, leadsOther, listedOther, inListOther⟩
    · exact different (same.symm.trans sameOther)
    · rw [same] at inListOther
      exact unshared.not_listed acyclic memberOther leadsOther listedOther member inListOther
  · rcases mem_visit visitedOther inOther with sameOther |
      ⟨belowOther, listOther, leadsOther, listedOther, inListOther⟩
    · rw [sameOther] at inList
      exact unshared.not_listed acyclic member leads listedBelow memberOther inList
    · rcases (mem_explore listedBelow listed).mp inList with ⟨home, fromLeft, atHome⟩
      rcases (mem_explore listedOther listed).mp inListOther with ⟨home', fromRight, atHome'⟩
      rw [← unshared.home home home' listed atHome atHome'] at fromRight
      exact different (unshared.apart reached acyclic member memberOther leads leadsOther
        fromLeft fromRight)

theorem Unshared.visitAll_nodup (reached : Reaches items child root place)
    (acyclic : ¬Relation.TransGen (Edge items child) place place)
    (each : ∀ item ∈ items place, ∀ first, visit items child fuel item = some first → first.Nodup)
    {rest : List ι} (inside : rest ⊆ items place) (distinct : rest.Nodup)
    (listed : visitAll items child fuel rest = some list) : list.Nodup := by
  induction rest generalizing list with
  | nil =>
      cases listed
      exact List.nodup_nil
  | cons item rest inductionHypothesis =>
      rcases visitAll_cons_eq_some.mp listed with ⟨first, later, visited, listedLater, rfl⟩
      rcases List.nodup_cons.mp distinct with ⟨notInRest, distinctRest⟩
      have member : item ∈ items place := inside List.mem_cons_self
      have insideRest : rest ⊆ items place :=
        fun other inRest => inside (List.mem_cons_of_mem item inRest)
      apply List.Nodup.append (each item member first visited)
        (inductionHypothesis insideRest distinctRest listedLater)
      intro listedItem inFirst inLater
      rcases (mem_visitAll listedLater).mp inLater with ⟨other, inRest, second, visitedOther, inSecond⟩
      have different : item ≠ other := by
        intro same
        exact notInRest (by rwa [same])
      exact unshared.visits_disjoint reached acyclic member (insideRest inRest) different visited
        visitedOther inFirst inSecond

/-- The traversal of a tree lists nothing twice. -/
theorem Unshared.explore_nodup (reached : Reaches items child root place)
    (listed : explore items child fuel place [] = some list) : list.Nodup := by
  induction fuel generalizing place list with
  | zero => contradiction
  | succ fuel inductionHypothesis =>
      have accessible := (ends_iff_acc place).mp ⟨fuel + 1, by rw [listed]; rfl⟩
      have acyclic := no_cycle_of_acc accessible Relation.ReflTransGen.refl
      rw [explore_succ] at listed
      apply unshared.visitAll_nodup reached acyclic ?_ (List.Subset.refl _)
        (unshared.distinct place reached) listed
      intro item member first visited
      rcases visit_eq_some visited with ⟨_, rfl⟩ | ⟨below, list, leads, listedBelow, rfl⟩
      · exact List.nodup_singleton item
      · apply List.nodup_cons.mpr
        exact ⟨unshared.not_listed acyclic member leads listedBelow member,
          inductionHypothesis (reached.tail ⟨item, member, leads⟩) listedBelow⟩

end Tree

end Traversal
