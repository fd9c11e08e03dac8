/-
`Once` of `util/mod.rs`, step by step.

A caller runs the code of `call_once` and `get` one access at a time: the compare-exchange,
the closure, the store of its value, the store of the state byte, and the loads.  Callers
are CPUs and the handlers that interrupt them; there may be any number of them.
-/

import Mathlib.Logic.Function.Basic
import Mathlib.Logic.Relation

namespace NyauxKernel.OnceCell

/-- The values `UNINIT`, `RUNNING` and `DONE` of the state byte. -/
inductive OnceState
  | uninit
  | running
  | done
deriving DecidableEq, Repr

structure Once (α : Type) where
  state : OnceState
  data : Option α

def Once.new (α : Type) : Once α := { state := .uninit, data := none }

/-- `get`, if nothing happens between its load of the state and its read of the data. -/
def Once.get {α : Type} (once : Once α) : Option α :=
  if once.state = .done then once.data else none

/-- Where a caller is: at the compare-exchange of `call_once`, in its closure, at the two
stores behind it or at the load of the spin loop; or at the load or the read of `get`. -/
inductive Pc (α : Type)
  | idle
  | exchange
  | closure
  | write (value : α)
  | publish
  | spin
  | load
  | read

/-- The caller has won the compare-exchange and is still in `call_once`. -/
def Pc.Storing {α : Type} : Pc α → Prop
  | .closure | .write _ | .publish => True
  | .idle | .exchange | .spin | .load | .read => False

/-- The cell and its callers.  `closures` and `values` remember whose closures were run and
what they returned. -/
structure System (ι α : Type) where
  once : Once α
  pcs : ι → Pc α
  closures : List ι
  values : List α

def System.start (ι α : Type) : System ι α :=
  { once := Once.new α
    pcs := fun _ => .idle
    closures := []
    values := [] }

/-- A caller calls `call_once` or `get`, its closure returns a value, or it makes the next
access of the code it is in. -/
inductive Act (α : Type)
  | callOnce
  | get
  | finish (value : α)
  | advance

/-- What a call returns. -/
inductive Result (α : Type)
  | unit
  | got (value : Option α)

variable {ι α : Type}

/-- What the call of this caller returns, if its next access is its last one. -/
def System.returned (s : System ι α) (caller : ι) : Option (Result α) :=
  match s.pcs caller with
  | .publish => some .unit
  | .spin => if s.once.state = .done then some .unit else none
  | .load => if s.once.state = .done then none else some (.got none)
  | .read => some (.got s.once.data)
  | .idle | .exchange | .closure | .write _ => none

/-! ### The three phases of a cell -/

/-- How far the one caller that won has come. -/
inductive Progress (s : System ι α) (winner : ι) : Prop
  | closure (here : s.pcs winner = .closure) (values : s.values = []) : Progress s winner
  | write (value : α) (here : s.pcs winner = .write value) (values : s.values = [value]) :
      Progress s winner
  | publish (value : α) (here : s.pcs winner = .publish) (values : s.values = [value])
      (data : s.once.data = some value) : Progress s winner

/-- No caller has won; one has and is still in `call_once`; or its value is there. -/
inductive Phase (s : System ι α) : Prop
  | uninit (state : s.once.state = .uninit) (closures : s.closures = [])
      (values : s.values = []) (none : ∀ caller, ¬(s.pcs caller).Storing) : Phase s
  | running (winner : ι) (state : s.once.state = .running) (closures : s.closures = [winner])
      (progress : Progress s winner)
      (others : ∀ caller, (s.pcs caller).Storing → caller = winner) : Phase s
  | done (winner : ι) (value : α) (state : s.once.state = .done)
      (closures : s.closures = [winner]) (values : s.values = [value])
      (data : s.once.data = some value) (none : ∀ caller, ¬(s.pcs caller).Storing) : Phase s

/-- A caller that is about to read the data has seen that it is there. -/
structure OnceInv (s : System ι α) : Prop where
  phase : Phase s
  reads : ∀ caller, s.pcs caller = .read → s.once.state = .done

theorem OnceInv.start : OnceInv (System.start ι α) where
  phase := Phase.uninit rfl rfl rfl fun _ => not_false
  reads := fun _ impossible => nomatch impossible

variable {s s' : System ι α} {caller : ι} {once : Once α} {value : α}

theorem Progress.storing {winner : ι} (progress : Progress s winner) : (s.pcs winner).Storing := by
  cases progress with
  | closure here => exact here ▸ trivial
  | write value here => exact here ▸ trivial
  | publish value here => exact here ▸ trivial

/-- Where the winner is, the cell is running and nobody else has won. -/
theorem OnceInv.winner (inv : OnceInv s) (storing : (s.pcs caller).Storing) :
    s.once.state = .running ∧ s.closures = [caller] ∧ Progress s caller ∧
      ∀ other, (s.pcs other).Storing → other = caller := by
  cases inv.phase with
  | uninit state closures values none => exact absurd storing (none caller)
  | running winner state closures progress others =>
      cases others caller storing
      exact ⟨state, closures, progress, others⟩
  | done winner value state closures values data none => exact absurd storing (none caller)

theorem Once.get_of_done (state : once.state = .done) : once.get = once.data :=
  if_pos state

theorem Once.get_of_ne (state : once.state ≠ .done) : once.get = none :=
  if_neg state

/-- The closure's value is what `get` returns once the winner has left `call_once`; until
then it returns nothing. -/
theorem OnceInv.get_cases (inv : OnceInv s) :
    (s.once.get = none ∧ ∀ caller ∈ s.closures, (s.pcs caller).Storing) ∨
      ∃ value, s.values = [value] ∧ s.once.get = some value := by
  cases inv.phase with
  | uninit state closures values none =>
      refine Or.inl ⟨Once.get_of_ne (by rw [state]; decide), ?_⟩
      intro caller member
      rw [closures] at member
      exact absurd member List.not_mem_nil
  | running winner state closures progress others =>
      refine Or.inl ⟨Once.get_of_ne (by rw [state]; decide), ?_⟩
      intro caller member
      rw [closures, List.mem_singleton] at member
      rw [member]
      exact progress.storing
  | done winner value state closures values data none =>
      exact Or.inr ⟨value, values, (Once.get_of_done state).trans data⟩

theorem OnceInv.closures_le_one (inv : OnceInv s) : s.closures.length ≤ 1 := by
  cases inv.phase with
  | uninit state closures => simp [closures]
  | running winner state closures => simp [closures]
  | done winner value state closures => simp [closures]

/-- A `get` returns what the cell holds when it returns. -/
theorem OnceInv.returned_got {result : Option α} (inv : OnceInv s)
    (returned : s.returned caller = some (.got result)) : result = s.once.get := by
  unfold System.returned at returned
  cases here : s.pcs caller with
  | load =>
      simp only [here] at returned
      by_cases finished : s.once.state = .done
      · rw [if_pos finished] at returned
        cases returned
      · rw [if_neg finished] at returned
        cases returned
        exact (Once.get_of_ne finished).symm
  | read =>
      simp only [here] at returned
      cases returned
      exact (Once.get_of_done (inv.reads caller here)).symm
  | spin =>
      simp only [here] at returned
      split at returned <;> cases returned
  | _ =>
      rw [here] at returned
      cases returned

/-! ### Steps -/

variable [DecidableEq ι]

def System.goto (s : System ι α) (caller : ι) (pc : Pc α) : System ι α :=
  { s with pcs := Function.update s.pcs caller pc }

def System.advance (s : System ι α) (caller : ι) : Option (System ι α) :=
  match s.pcs caller with
  | .exchange =>
      if s.once.state = .uninit then
        some { s.goto caller .closure with
          once := { s.once with state := .running }
          closures := caller :: s.closures }
      else some (s.goto caller .spin)
  | .write value =>
      some { s.goto caller .publish with once := { s.once with data := some value } }
  | .publish => some { s.goto caller .idle with once := { s.once with state := .done } }
  | .spin =>
      if s.once.state = .done then some (s.goto caller .idle) else some (s.goto caller .spin)
  | .load =>
      if s.once.state = .done then some (s.goto caller .read) else some (s.goto caller .idle)
  | .read => some (s.goto caller .idle)
  | .idle | .closure => none

def System.step (s : System ι α) (caller : ι) : Act α → Option (System ι α)
  | .callOnce =>
      match s.pcs caller with
      | .idle => some (s.goto caller .exchange)
      | _ => none
  | .get =>
      match s.pcs caller with
      | .idle => some (s.goto caller .load)
      | _ => none
  | .finish value =>
      match s.pcs caller with
      | .closure => some { s.goto caller (.write value) with values := value :: s.values }
      | _ => none
  | .advance => s.advance caller

/-- The states that steps of the callers lead to, in any order. -/
def Steps : System ι α → System ι α → Prop :=
  Relation.ReflTransGen fun s s' => ∃ caller act, s.step caller act = some s'

/-! ### What a step can do -/

/-- The steps, by what they change. -/
inductive Moved (s : System ι α) (caller : ι) : System ι α → Prop
  | idle {pc : Pc α} (before : ¬(s.pcs caller).Storing) (after : ¬pc.Storing)
      (reads : pc = .read → s.once.state = .done) : Moved s caller (s.goto caller pc)
  | won (before : s.pcs caller = .exchange) (uninit : s.once.state = .uninit) :
      Moved s caller { s.goto caller .closure with
        once := { s.once with state := .running }
        closures := caller :: s.closures }
  | finished (value : α) (before : s.pcs caller = .closure) :
      Moved s caller { s.goto caller (.write value) with values := value :: s.values }
  | wrote (value : α) (before : s.pcs caller = .write value) :
      Moved s caller { s.goto caller .publish with once := { s.once with data := some value } }
  | published (before : s.pcs caller = .publish) :
      Moved s caller { s.goto caller .idle with once := { s.once with state := .done } }

theorem System.advance_moved (done : s.advance caller = some s') : Moved s caller s' := by
  unfold System.advance at done
  cases here : s.pcs caller with
  | idle =>
      rw [here] at done
      cases done
  | exchange =>
      simp only [here] at done
      by_cases uninit : s.once.state = .uninit
      · rw [if_pos uninit] at done
        cases done
        exact Moved.won here uninit
      · rw [if_neg uninit] at done
        cases done
        exact Moved.idle (here ▸ not_false) not_false nofun
  | closure =>
      rw [here] at done
      cases done
  | write value =>
      rw [here] at done
      cases done
      exact Moved.wrote value here
  | publish =>
      rw [here] at done
      cases done
      exact Moved.published here
  | spin =>
      simp only [here] at done
      by_cases finished : s.once.state = .done
      · rw [if_pos finished] at done
        cases done
        exact Moved.idle (here ▸ not_false) not_false nofun
      · rw [if_neg finished] at done
        cases done
        exact Moved.idle (here ▸ not_false) not_false nofun
  | load =>
      simp only [here] at done
      by_cases finished : s.once.state = .done
      · rw [if_pos finished] at done
        cases done
        exact Moved.idle (here ▸ not_false) not_false (fun _ => finished)
      · rw [if_neg finished] at done
        cases done
        exact Moved.idle (here ▸ not_false) not_false nofun
  | read =>
      rw [here] at done
      cases done
      exact Moved.idle (here ▸ not_false) not_false nofun

theorem System.step_moved {act : Act α} (done : s.step caller act = some s') :
    Moved s caller s' := by
  cases act with
  | callOnce =>
      cases here : s.pcs caller with
      | idle =>
          simp only [System.step, here] at done
          cases done
          exact Moved.idle (here ▸ not_false) not_false nofun
      | _ =>
          simp only [System.step, here] at done
          cases done
  | get =>
      cases here : s.pcs caller with
      | idle =>
          simp only [System.step, here] at done
          cases done
          exact Moved.idle (here ▸ not_false) not_false nofun
      | _ =>
          simp only [System.step, here] at done
          cases done
  | finish value =>
      cases here : s.pcs caller with
      | closure =>
          simp only [System.step, here] at done
          cases done
          exact Moved.finished value here
      | _ =>
          simp only [System.step, here] at done
          cases done
  | advance => exact System.advance_moved done

section Goto

variable {pc : Pc α}

theorem goto_self (s : System ι α) (caller : ι) (pc : Pc α) : (s.goto caller pc).pcs caller = pc :=
  Function.update_self ..

theorem goto_of_ne {other : ι} (different : other ≠ caller) :
    (s.goto caller pc).pcs other = s.pcs other :=
  Function.update_of_ne different _ _

theorem goto_storing (pc : Pc α) (after : ¬pc.Storing) {other : ι}
    (storing : ((s.goto caller pc).pcs other).Storing) :
    other ≠ caller ∧ (s.pcs other).Storing := by
  by_cases same : other = caller
  · rw [same, goto_self] at storing
    exact absurd storing after
  · rw [goto_of_ne same] at storing
    exact ⟨same, storing⟩

theorem goto_read (pc : Pc α) (after : pc ≠ .read) {other : ι}
    (reading : (s.goto caller pc).pcs other = .read) : s.pcs other = .read := by
  by_cases same : other = caller
  · rw [same, goto_self] at reading
    exact absurd reading after
  · rwa [goto_of_ne same] at reading

end Goto

/-- A step of a caller that has not won leaves the phase as it is. -/
theorem OnceInv.idle (inv : OnceInv s) {pc : Pc α} (before : ¬(s.pcs caller).Storing)
    (after : ¬pc.Storing) (reads : pc = .read → s.once.state = .done) :
    OnceInv (s.goto caller pc) where
  phase := by
    cases inv.phase with
    | uninit state closures values none =>
        exact Phase.uninit state closures values
          fun other storing => none other (goto_storing pc after storing).2
    | running winner state closures progress others =>
        have different : winner ≠ caller := by
          rintro rfl
          exact before progress.storing
        refine Phase.running winner state closures ?_
          fun other storing => others other (goto_storing pc after storing).2
        cases progress with
        | closure here values => exact Progress.closure ((goto_of_ne different).trans here) values
        | write value here values =>
            exact Progress.write value ((goto_of_ne different).trans here) values
        | publish value here values data =>
            exact Progress.publish value ((goto_of_ne different).trans here) values data
    | done winner value state closures values data none =>
        exact Phase.done winner value state closures values data
          fun other storing => none other (goto_storing pc after storing).2
  reads := by
    intro other reading
    by_cases same : other = caller
    · rw [same, goto_self] at reading
      exact reads reading
    · rw [goto_of_ne same] at reading
      exact inv.reads other reading

theorem OnceInv.step (inv : OnceInv s) (moved : Moved s caller s') : OnceInv s' := by
  cases moved with
  | idle before after reads => exact inv.idle before after reads
  | won before uninit =>
      cases inv.phase with
      | uninit state closures values none =>
          refine ⟨Phase.running caller rfl (congrArg (caller :: ·) closures)
            (Progress.closure (goto_self s caller _) values) ?_, ?_⟩
          · intro other storing
            by_contra different
            exact none other ((goto_of_ne different).symm ▸ storing)
          · intro other reading
            have seen := inv.reads other (goto_read .closure nofun reading)
            exact absurd (seen.symm.trans uninit) (by decide)
      | running winner state => exact absurd (state.symm.trans uninit) (by decide)
      | done winner value state => exact absurd (state.symm.trans uninit) (by decide)
  | finished value before =>
      have storing : (s.pcs caller).Storing := before ▸ trivial
      rcases inv.winner storing with ⟨state, closures, progress, others⟩
      cases progress with
      | closure here values =>
          refine ⟨Phase.running caller state closures (Progress.write value (goto_self s caller _)
            (congrArg (value :: ·) values)) ?_, ?_⟩
          · intro other storing
            by_contra different
            exact different (others other ((goto_of_ne different).symm ▸ storing))
          · intro other reading
            exact inv.reads other (goto_read (.write value) nofun reading)
      | write value here => cases before.symm.trans here
      | publish value here => cases before.symm.trans here
  | wrote value before =>
      have storing : (s.pcs caller).Storing := before ▸ trivial
      rcases inv.winner storing with ⟨state, closures, progress, others⟩
      cases progress with
      | closure here => cases before.symm.trans here
      | write written here values =>
          cases before.symm.trans here
          refine ⟨Phase.running caller state closures (Progress.publish value (goto_self s caller _)
            values rfl) ?_, ?_⟩
          · intro other storing
            by_contra different
            exact different (others other ((goto_of_ne different).symm ▸ storing))
          · intro other reading
            exact inv.reads other (goto_read .publish nofun reading)
      | publish value here => cases before.symm.trans here
  | published before =>
      have storing : (s.pcs caller).Storing := before ▸ trivial
      rcases inv.winner storing with ⟨state, closures, progress, others⟩
      cases progress with
      | closure here => cases before.symm.trans here
      | write value here => cases before.symm.trans here
      | publish value here values data =>
          refine ⟨Phase.done caller value rfl closures values data ?_, fun _ _ => rfl⟩
          intro other storing
          rcases goto_storing .idle not_false storing with ⟨different, before⟩
          exact different (others other before)

theorem Steps.inv (steps : Steps s s') (inv : OnceInv s) : OnceInv s' := by
  induction steps with
  | refl => exact inv
  | tail _ step inductionHypothesis =>
      rcases step with ⟨caller, act, done⟩
      exact inductionHypothesis.step (System.step_moved done)

/-! ### The value -/

/-- A value that is there stays there. -/
theorem OnceInv.get_kept (inv : OnceInv s) (moved : Moved s caller s')
    (present : s.once.get = some value) : s'.once.get = some value := by
  have state : s.once.state = .done := by
    by_contra early
    rw [Once.get_of_ne early] at present
    cases present
  have outside : ∀ {pc : Pc α}, s.pcs caller = pc → ¬pc.Storing := by
    rintro pc rfl storing
    exact absurd (state.symm.trans (inv.winner storing).1) (by decide)
  cases moved with
  | idle => exact present
  | won before uninit => exact absurd (state.symm.trans uninit) (by decide)
  | finished value before => exact absurd trivial (outside before)
  | wrote value before => exact absurd trivial (outside before)
  | published before => exact absurd trivial (outside before)

theorem Steps.get_kept (steps : Steps s s') (inv : OnceInv s) (present : s.once.get = some value) :
    s'.once.get = some value := by
  induction steps with
  | refl => exact present
  | tail before step inductionHypothesis =>
      rcases step with ⟨caller, act, done⟩
      exact (Steps.inv before inv).get_kept (System.step_moved done) inductionHypothesis

/-- A `call_once` returns after its own store of the state, or after it saw that of
another. -/
theorem OnceInv.returned_unit (inv : OnceInv s) (returned : s.returned caller = some .unit)
    (done : s.advance caller = some s') : ∃ value, s'.once.get = some value := by
  have after := inv.step (System.advance_moved done)
  have state : s'.once.state = .done := by
    unfold System.returned at returned
    unfold System.advance at done
    cases here : s.pcs caller with
    | publish =>
        rw [here] at done
        cases done
        rfl
    | spin =>
        simp only [here] at returned done
        by_cases finished : s.once.state = .done
        · rw [if_pos finished] at done
          cases done
          exact finished
        · rw [if_neg finished] at returned
          cases returned
    | load =>
        simp only [here] at returned
        split at returned <;> cases returned
    | _ =>
        rw [here] at returned
        cases returned
  cases after.phase with
  | uninit early => cases state.symm.trans early
  | running winner early => cases state.symm.trans early
  | done winner value _ closures values data => exact ⟨value, (Once.get_of_done state).trans data⟩

end NyauxKernel.OnceCell
