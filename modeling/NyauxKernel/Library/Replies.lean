/-
Machines that answer calls, and when two of them cannot be told apart.

A call gives an answer and a new state, or it ends the run.  Two machines give the same
answers to all calls if a relation between their states is kept by every call that both
answer alike.
-/

namespace Replies

variable {σ τ κ ρ ε : Type}

/-- The answers to the calls, up to the one that ends the run. -/
def run (step : σ → κ → Except ε (ρ × σ)) : σ → List κ → List (Except ε ρ)
  | _, [] => []
  | state, call :: rest =>
      match step state call with
      | .error panic => [.error panic]
      | .ok (reply, state) => .ok reply :: run step state rest

/-- The same answer, and related states. -/
inductive Agree (related : σ → τ → Prop) : Except ε (ρ × σ) → Except ε (ρ × τ) → Prop
  | error (panic : ε) : Agree related (.error panic) (.error panic)
  | ok (reply : ρ) {state : σ} {state' : τ} (after : related state state') :
      Agree related (.ok (reply, state)) (.ok (reply, state'))

theorem run_eq {step : σ → κ → Except ε (ρ × σ)} {step' : τ → κ → Except ε (ρ × τ)}
    {related : σ → τ → Prop}
    (agrees : ∀ state state' call, related state state' →
      Agree related (step state call) (step' state' call))
    (calls : List κ) {state : σ} {state' : τ} (before : related state state') :
    run step state calls = run step' state' calls := by
  induction calls generalizing state state' with
  | nil => rfl
  | cons call rest inductionHypothesis =>
      have agree := agrees state state' call before
      rw [run, run]
      generalize step state call = result at agree
      generalize step' state' call = result' at agree
      cases agree with
      | error panic => rfl
      | ok reply after => exact congrArg (Except.ok reply :: ·) (inductionHypothesis after)

end Replies
