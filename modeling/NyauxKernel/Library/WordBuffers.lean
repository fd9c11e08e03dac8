/-
Buffers in a word addressed memory: a list of words at every eighth address.
-/

import Mathlib.Data.List.GetD
import Mathlib.Logic.Function.Basic

namespace WordBuffers

/-- The memory with the words of a list at every eighth address from `start`. -/
def store (memory : Nat → Nat) (start : Nat) : List Nat → Nat → Nat
  | [] => memory
  | word :: words => store (Function.update memory start word) (start + 8) words

/-- The words at every eighth address from `start`. -/
def load (memory : Nat → Nat) (start count : Nat) : List Nat :=
  (List.range count).map fun i => memory (start + 8 * i)

theorem store_outside {start address : Nat} (words : List Nat) (memory : Nat → Nat)
    (outside : ¬(start ≤ address ∧ address < start + 8 * words.length)) :
    store memory start words address = memory address := by
  induction words generalizing memory start with
  | nil => rfl
  | cons word words inductionHypothesis =>
      rw [List.length_cons] at outside
      rw [store, inductionHypothesis _ (by omega)]
      exact Function.update_of_ne (by omega) _ _

/-- A place of the buffer holds the word of the list, or the old one behind its end. -/
theorem store_word (memory : Nat → Nat) (start : Nat) (words : List Nat) (i : Nat) :
    store memory start words (start + 8 * i) = words.getD i (memory (start + 8 * i)) := by
  induction words generalizing memory start i with
  | nil => rfl
  | cons word words inductionHypothesis =>
      rw [store]
      cases i with
      | zero =>
          rw [store_outside words _ (by omega)]
          exact Function.update_self _ _ _
      | succ i =>
          have place : start + 8 * (i + 1) = start + 8 + 8 * i := by omega
          rw [place, inductionHypothesis, List.getD_cons_succ,
            Function.update_of_ne (by omega)]

theorem load_eq {memory : Nat → Nat} {start : Nat} {words : List Nat}
    (holds : ∀ i, i < words.length → memory (start + 8 * i) = words.getD i 0) :
    load memory start words.length = words := by
  apply List.ext_getElem
  · rw [load, List.length_map, List.length_range]
  · intro i _inLoad inWords
    rw [← List.getD_eq_getElem words 0 inWords, ← holds i inWords]
    simp [load]

end WordBuffers
