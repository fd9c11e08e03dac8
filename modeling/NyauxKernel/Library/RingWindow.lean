/-
Bounded rings read and written through free-running positions.

A history lists everything ever written to a ring of `size` slots, the entry of
position `i` having been written to slot `i % size`.  A reader that has consumed
the positions below `low` still needs the slots of the positions from `low` on.
The lemmas say when one more write is safe for that reader.
-/

import Mathlib.Data.List.Basic
import Mathlib.Data.Nat.ModEq
import Mathlib.Logic.Function.Basic

namespace RingWindow

variable {α : Type}

/-- The ring still stores every history entry from position `low` on. -/
def Holds (size : Nat) (ring : Nat → α) (history : List α) (low : Nat) : Prop :=
  ∀ position, low ≤ position → position < history.length →
    history[position]? = some (ring (position % size))

variable {low size : Nat} {ring : Nat → α} {history : List α}

/-- Positions less than one turn apart never share a slot. -/
theorem slot_ne {first second : Nat} (before : first < second) (near : second < first + size) :
    first % size ≠ second % size := by
  intro same
  have divides : size ∣ second - first := (Nat.modEq_iff_dvd' before.le).mp same
  have positive : 0 < second - first := Nat.sub_pos_of_lt before
  have turn := Nat.le_of_dvd positive divides
  omega

theorem Holds.nil (size : Nat) (ring : Nat → α) (low : Nat) :
    Holds size ring [] low := by
  intro position _above below
  exact absurd below (Nat.not_lt_zero position)

/-- A write one past the history is safe while fewer than `size` positions are
pending. -/
theorem Holds.push (holds : Holds size ring history low) (room : history.length < low + size)
    (value : α) :
    Holds size (Function.update ring (history.length % size) value)
      (history ++ [value]) low := by
  intro position above below
  rw [List.length_append, List.length_singleton] at below
  by_cases newest : position = history.length
  · subst newest
    rw [Function.update_self, List.getElem?_concat_length]
  · have older : position < history.length := by omega
    have apart : position % size ≠ history.length % size :=
      slot_ne older (by omega)
    rw [Function.update_of_ne apart, List.getElem?_append_left older]
    exact holds position above older

/-- Consuming positions only weakens what the ring has to store. -/
theorem Holds.advance {high : Nat} (holds : Holds size ring history low) (later : low ≤ high) :
    Holds size ring history high := by
  intro position above below
  exact holds position (Nat.le_trans later above) below

/-- The slot of the first pending position extends what was read by one entry. -/
theorem Holds.take_succ (holds : Holds size ring history low) (pending : low < history.length) :
    history.take (low + 1) = history.take low ++ [ring (low % size)] := by
  rw [List.take_add_one, holds low (Nat.le_refl low) pending]
  rfl

end RingWindow
