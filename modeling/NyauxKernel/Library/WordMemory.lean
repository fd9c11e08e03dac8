/-
Word addressed memories: filling a range with zero, and agreement on a set of
addresses.
-/

import Mathlib.Data.List.Basic
import Mathlib.Logic.Function.Basic

namespace WordMemory

/-- Zero in the range of `count` addresses from `start`, the old content elsewhere. -/
def zero (memory : Nat → Nat) (start count : Nat) : Nat → Nat :=
  fun address => if start ≤ address ∧ address < start + count then 0 else memory address

theorem zero_inside {memory : Nat → Nat} {start count address : Nat} (low : start ≤ address)
    (high : address < start + count) : zero memory start count address = 0 :=
  if_pos ⟨low, high⟩

theorem zero_outside {memory : Nat → Nat} {start count address : Nat}
    (outside : ¬(start ≤ address ∧ address < start + count)) :
    zero memory start count address = memory address :=
  if_neg outside

end WordMemory
