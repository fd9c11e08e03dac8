/-
Loops that can fail, as folds in `Except`.

A run of such a loop is described by a relation between the states before and
after one turn; what is said of the relation then holds of the loop.
-/

import Mathlib.Data.List.Basic

namespace ExceptFold

variable {ε σ α β γ : Type} {f : σ → α → Except ε σ}

/-- A sequence of two computations that succeeds. -/
theorem ok_of_bind {first : Except ε α} {second : α → Except ε β} {b : β}
    (done : (first >>= second) = .ok b) : ∃ a, first = .ok a ∧ second a = .ok b := by
  cases first with
  | error e => contradiction
  | ok a => exact ⟨a, rfl, done⟩

theorem foldlM_cons_ok {a : α} {items : List α} {s s' : σ}
    (done : (a :: items).foldlM f s = .ok s') :
    ∃ mid, f s a = .ok mid ∧ items.foldlM f mid = .ok s' := by
  rw [List.foldlM_cons] at done
  exact ok_of_bind done

theorem foldlM_cons_eq {a : α} {items : List α} {s mid : σ} (first : f s a = .ok mid) :
    (a :: items).foldlM f s = items.foldlM f mid := by
  rw [List.foldlM_cons, first]
  rfl

/-- A preorder that every turn respects is respected by the loop. -/
theorem rel_of_foldlM (rel : σ → σ → Prop) (refl : ∀ s, rel s s)
    (trans : ∀ {a b c}, rel a b → rel b c → rel a c)
    (turn : ∀ {s a s'}, f s a = .ok s' → rel s s') (items : List α) {s s' : σ}
    (done : items.foldlM f s = .ok s') : rel s s' := by
  induction items generalizing s with
  | nil =>
      obtain rfl : s = s' := Except.ok.inj done
      exact refl s
  | cons a items inductionHypothesis =>
      obtain ⟨mid, first, rest⟩ := foldlM_cons_ok done
      exact trans (turn first) (inductionHypothesis rest)

/-- Turns one after the other, with what is known about the state carried along. -/
inductive Steps (step : γ → σ → α → γ → σ → Prop) : γ → σ → List α → γ → σ → Prop
  | nil {g : γ} {s : σ} : Steps step g s [] g s
  | cons {g mid g' : γ} {s t s' : σ} {a : α} {items : List α} (first : step g s a mid t)
      (rest : Steps step mid t items g' s') : Steps step g s (a :: items) g' s'

/-- A loop that ends in a state that is fine went through turns of the relation, if
only states that are fine lead to such a state. -/
theorem Steps.of_foldlM {step : γ → σ → α → γ → σ → Prop} (inv : γ → σ → Prop)
    (fine : σ → Prop)
    (back : ∀ {s a s'}, f s a = .ok s' → fine s' → fine s)
    (turn : ∀ {g s a s'}, inv g s → f s a = .ok s' → fine s' → ∃ g', step g s a g' s')
    (keeps : ∀ {g s a g' s'}, step g s a g' s' → inv g' s') (items : List α) {g : γ} {s s' : σ}
    (start : inv g s) (done : items.foldlM f s = .ok s') (good : fine s') :
    ∃ g', Steps step g s items g' s' := by
  induction items generalizing g s with
  | nil =>
      obtain rfl : s = s' := Except.ok.inj done
      exact ⟨g, Steps.nil⟩
  | cons a items inductionHypothesis =>
      obtain ⟨mid, first, rest⟩ := foldlM_cons_ok done
      have midFine : fine mid := rel_of_foldlM (fun s s' => fine s' → fine s)
        (fun _ => id) (fun first second last => first (second last))
        (fun turned => back turned) items rest good
      obtain ⟨g', stepped⟩ := turn start first midFine
      obtain ⟨g'', steps⟩ := inductionHypothesis (keeps stepped) rest
      exact ⟨g'', Steps.cons stepped steps⟩

end ExceptFold
