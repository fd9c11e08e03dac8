/-
Loops that follow links without a record of what they have met.

The loop does something at a place and goes on to the next one, until there is none.  It
ends exactly when it meets no place again, and then it has met every place once.
-/

import Mathlib.Data.Fintype.EquivFin
import Mathlib.Data.List.Nodup
import Mathlib.Order.WellFounded

namespace LinkWalk

variable {α σ : Type}

/-- The loop, with a bound on the number of rounds. -/
def walk (next : α → Option α) (step : σ → α → σ) : Nat → Option α → σ → Option σ
  | _, none, state => some state
  | 0, some _, _ => none
  | fuel + 1, some place, state => walk next step fuel (next place) (step state place)

/-- The loop ends, and these are the places it has met. -/
inductive Visits (next : α → Option α) : Option α → List α → Prop
  | done : Visits next none []
  | go {place : α} {places : List α} (later : Visits next (next place) places) :
      Visits next (some place) (place :: places)

/-- The loop meets a place, whether it ends or not. -/
inductive Met (next : α → Option α) : Option α → α → Prop
  | here (place : α) : Met next (some place) place
  | later {place other : α} (behind : Met next (next place) other) : Met next (some place) other

variable {next : α → Option α} {step : σ → α → σ}

/-! ### The function and the relation -/

variable {start : Option α} {places : List α} {place : α}

theorem walk_of_visits (visits : Visits next start places) (state : σ) :
    walk next step places.length start state = some (places.foldl step state) := by
  induction visits generalizing state with
  | done => rfl
  | go later inductionHypothesis =>
      rw [List.length_cons, walk, inductionHypothesis, List.foldl_cons]

theorem visits_of_walk {fuel : Nat} {state result : σ}
    (ended : walk next step fuel start state = some result) :
    ∃ places, Visits next start places ∧ result = places.foldl step state := by
  induction fuel generalizing start state with
  | zero =>
      cases start with
      | none =>
          cases ended
          exact ⟨[], Visits.done, rfl⟩
      | some place => cases ended
  | succ fuel inductionHypothesis =>
      cases start with
      | none =>
          cases ended
          exact ⟨[], Visits.done, rfl⟩
      | some place =>
          rcases inductionHypothesis ended with ⟨places, visits, same⟩
          exact ⟨place :: places, Visits.go visits, same⟩

/-! ### No place twice -/

theorem Visits.unique {places' : List α} (visits : Visits next start places)
    (visits' : Visits next start places') : places = places' := by
  induction visits generalizing places' with
  | done =>
      cases visits'
      rfl
  | go later inductionHypothesis =>
      cases visits' with
      | go later' => rw [inductionHypothesis later']

/-- From a place that was met the loop does what it did then. -/
theorem Visits.from_met (visits : Visits next start places) (met : Met next start place) :
    ∃ rest, Visits next (some place) rest ∧ rest.length ≤ places.length := by
  induction met generalizing places with
  | here place => exact ⟨places, visits, Nat.le_refl _⟩
  | later behind inductionHypothesis =>
      cases visits with
      | go later =>
          rcases inductionHypothesis later with ⟨rest, visitsRest, shorter⟩
          exact ⟨rest, visitsRest, Nat.le_succ_of_le shorter⟩

theorem Visits.not_met_again (visits : Visits next (some place) places) :
    ¬Met next (next place) place := by
  intro again
  cases visits with
  | go later =>
      rcases later.from_met again with ⟨rest, visitsRest, shorter⟩
      have same := visitsRest.unique (Visits.go later)
      rw [same, List.length_cons] at shorter
      omega

theorem Visits.met_iff (visits : Visits next start places) (place : α) :
    Met next start place ↔ place ∈ places := by
  induction visits with
  | done =>
      constructor
      · intro met
        cases met
      · intro member
        cases member
  | @go first places later inductionHypothesis =>
      rw [List.mem_cons, ← inductionHypothesis]
      constructor
      · intro met
        cases met with
        | here => exact Or.inl rfl
        | later behind => exact Or.inr behind
      · intro either
        cases either with
        | inl same => rw [same]; exact Met.here first
        | inr behind => exact Met.later behind

theorem Visits.nodup (visits : Visits next start places) : places.Nodup := by
  induction visits with
  | done => exact List.nodup_nil
  | go later inductionHypothesis =>
      rw [List.nodup_cons, ← later.met_iff]
      exact ⟨(Visits.go later).not_met_again, inductionHypothesis⟩

/-! ### The end of the loop -/

theorem Met.trans {other : α} (met : Met next start place) (behind : Met next (next place) other) :
    Met next start other := by
  induction met with
  | here place => exact Met.later behind
  | later _ inductionHypothesis => exact Met.later (inductionHypothesis behind)

/-- Induction on the places that are still ahead, where finitely many are reached and none of them
lies behind itself. -/
theorem ahead_induction [Finite α] (behind : α → α → Prop) {reached : α → Prop}
    (transitive : ∀ first second third, behind first second → behind second third →
      behind first third) (fresh : ∀ place, reached place → ¬behind place place) {motive : α → Prop}
    (step : ∀ place, reached place →
      (∀ other, reached other → behind other place → motive other) → motive place)
    (here : reached place) : motive place := by
  let Reached := { place : α // reached place }
  let ahead : Reached → Reached → Prop := fun later earlier => behind later.1 earlier.1
  have isTrans : IsTrans Reached ahead := ⟨fun _ _ _ => transitive _ _ _⟩
  have irreflexive : Std.Irrefl ahead := ⟨fun place => fresh place.1 place.2⟩
  have finite : Finite Reached := Subtype.finite
  have founded := Finite.wellFounded_of_trans_of_irrefl ahead
  have all (place : Reached) : motive place.1 := by
    induction place using founded.induction with
    | _ place inductionHypothesis =>
        apply step place.1 place.2
        intro other reachedOther later
        exact inductionHypothesis ⟨other, reachedOther⟩ later
  exact all ⟨place, here⟩

/-- With finitely many places, the loop ends if and only if it meets no place again. -/
theorem ends_iff_not_met_again [Finite α] (start : α) :
    (∃ places, Visits next (some start) places) ↔
      ∀ place, Met next (some start) place → ¬Met next (next place) place := by
  constructor
  · intro ends place met
    rcases ends with ⟨places, visits⟩
    rcases visits.from_met met with ⟨rest, visitsRest, _⟩
    exact visitsRest.not_met_again
  · intro fresh
    have transitive (first second third : α) (later : Met next (next second) first)
        (latest : Met next (next third) second) : Met next (next third) first :=
      latest.trans later
    apply ahead_induction (fun later place => Met next (next place) later) transitive fresh ?_
      (Met.here start)
    intro place met inductionHypothesis
    cases onward : next place with
    | none =>
        refine ⟨[place], Visits.go ?_⟩
        rw [onward]
        exact Visits.done
    | some other =>
        have ahead : Met next (next place) other := by
          rw [onward]
          exact Met.here other
        rcases inductionHypothesis other (met.trans ahead) ahead with ⟨places, visits⟩
        refine ⟨place :: places, Visits.go ?_⟩
        rw [onward]
        exact visits

/-- A place that links to itself holds the loop for ever. -/
theorem walk_self_link (link : next place = some place) (fuel : Nat) (state : σ) :
    walk next step fuel (some place) state = none := by
  induction fuel generalizing state with
  | zero => rfl
  | succ fuel inductionHypothesis =>
      rw [walk, link]
      exact inductionHypothesis _

end LinkWalk
