/-
Code that accesses a device which changes by itself.

Code is a tree: an access, and for each answer what is done after it.  The device may change
between any two accesses.  A precondition therefore has to hold in whatever state the device
has changed to, and the rule for an access asks for an assertion that these changes keep.
-/

import Mathlib.Logic.Relation

namespace DeviceCode

/-- The accesses to a device, and what each is answered with. -/
structure Interface where
  Access : Type
  Answer : Access → Type

inductive Code (I : Interface) (α : Type) : Type
  | ret (value : α)
  | access (a : I.Access) (next : I.Answer a → Code I α)

/-- A device answers an access or faults, and changes by itself. -/
structure Device (I : Interface) (State : Type) where
  respond : State → (a : I.Access) → Option (I.Answer a × State)
  Changes : State → State → Prop

variable {I : Interface} {State α β : Type}

def Code.bind : Code I α → (α → Code I β) → Code I β
  | .ret value, next => next value
  | .access a after, next => .access a fun answer => (after answer).bind next

instance : Monad (Code I) where
  pure := Code.ret
  bind := Code.bind

def perform (a : I.Access) : Code I (I.Answer a) := .access a .ret

@[simp]
theorem pure_bind (value : α) (next : α → Code I β) : (pure value >>= next) = next value := rfl

@[simp]
theorem perform_bind (a : I.Access) (next : I.Answer a → Code I β) :
    (perform a >>= next) = .access a next := rfl

namespace Device

variable (device : Device I State)

/-- What the device may have become. -/
def Later : State → State → Prop := Relation.ReflTransGen device.Changes

/-- The device keeps the assertion by itself. -/
def Stable (P : State → Prop) : Prop := ∀ s s', P s → device.Changes s s' → P s'

/-- From the state, the code does not fault and returns in a state that meets `post`, whatever
the device does in between. -/
def Ensures : Code I α → (α → State → Prop) → State → Prop
  | .ret value, post, s => ∀ s', device.Later s s' → post value s'
  | .access a next, post, s => ∀ s', device.Later s s' →
      ∃ answer s'', device.respond s' a = some (answer, s'') ∧ Ensures (next answer) post s''

/-- One step: of the device or of the code. -/
inductive Step : Code I α × State → Code I α × State → Prop
  | changes {code : Code I α} {s s' : State} (change : device.Changes s s') :
      Step (code, s) (code, s')
  | access {a : I.Access} {next : I.Answer a → Code I α} {s s' : State} {answer : I.Answer a}
      (done : device.respond s a = some (answer, s')) : Step (.access a next, s) (next answer, s')

variable {device} {P : State → Prop} {post : α → State → Prop} {code : Code I α} {s s' : State}

theorem Stable.later (stable : device.Stable P) (later : device.Later s s') (holds : P s) :
    P s' := by
  induction later with
  | refl => exact holds
  | tail _ change inductionHypothesis => exact stable _ _ inductionHypothesis change

theorem Ensures.later (ensures : device.Ensures code post s) (later : device.Later s s') :
    device.Ensures code post s' := by
  cases code with
  | ret value => exact fun s'' after => ensures s'' (later.trans after)
  | access a next => exact fun s'' after => ensures s'' (later.trans after)

/-! ### Rules -/

theorem Ensures.ret {value : α} (stable : device.Stable (post value)) (holds : post value s) :
    device.Ensures (.ret value) post s := fun _ later => stable.later later holds

theorem Ensures.access {a : I.Access} {next : I.Answer a → Code I α} (stable : device.Stable P)
    (holds : P s)
    (responds : ∀ s', P s' → ∃ answer s'', device.respond s' a = some (answer, s'') ∧
      device.Ensures (next answer) post s'') :
    device.Ensures (.access a next) post s :=
  fun s' later => responds s' (stable.later later holds)

/-- The sequence of two parts. -/
theorem Ensures.seq {next : α → Code I β} {final : β → State → Prop}
    (first : device.Ensures code post s)
    (second : ∀ value s, post value s → device.Ensures (next value) final s) :
    device.Ensures (code >>= next) final s := by
  induction code generalizing s with
  | ret value => exact second value s (first s Relation.ReflTransGen.refl)
  | access a after inductionHypothesis =>
      intro s' later
      rcases first s' later with ⟨answer, s'', responded, rest⟩
      exact ⟨answer, s'', responded, inductionHypothesis answer rest⟩

/-! ### Runs -/

theorem Ensures.step {code' : Code I α} (ensures : device.Ensures code post s)
    (step : device.Step (code, s) (code', s')) : device.Ensures code' post s' := by
  cases step with
  | changes change => exact ensures.later (Relation.ReflTransGen.single change)
  | access done =>
      rcases ensures s Relation.ReflTransGen.refl with ⟨answer, after, responded, rest⟩
      rcases Prod.mk.inj (Option.some.inj (responded.symm.trans done)) with ⟨rfl, rfl⟩
      exact rest

theorem Ensures.responds {a : I.Access} {next : I.Answer a → Code I α}
    (ensures : device.Ensures (.access a next) post s) : (device.respond s a).isSome = true := by
  rcases ensures s Relation.ReflTransGen.refl with ⟨answer, after, responded, _⟩
  rw [responded]
  rfl

/-- The code comes to its end. -/
theorem Ensures.returns (ensures : device.Ensures code post s) :
    ∃ value s', Relation.ReflTransGen device.Step (code, s) (.ret value, s') := by
  induction code generalizing s with
  | ret value => exact ⟨value, s, Relation.ReflTransGen.refl⟩
  | access a next inductionHypothesis =>
      rcases ensures s Relation.ReflTransGen.refl with ⟨answer, after, responded, rest⟩
      rcases inductionHypothesis answer rest with ⟨value, s', run⟩
      exact ⟨value, s', Relation.ReflTransGen.head (Step.access responded) run⟩

theorem Ensures.returned {value : α} (ensures : device.Ensures (.ret value) post s) :
    post value s := ensures s Relation.ReflTransGen.refl

end Device

end DeviceCode
