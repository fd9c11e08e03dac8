/-
Sixty-four bit words as natural numbers, with the helpers of `main.rs`.

Arithmetic that can leave the word range is reduced explicitly, as the release
build wraps.  Pointer chasing loops take `addressSpace` as fuel: a loop that
visits each address at most once ends within it, and one that does not end
within it revisits a cell and never ends.
-/

import NyauxKernel.Library.BitFields
import Mathlib.Data.Nat.Bitwise

namespace NyauxKernel

/-- The number of addresses, and the modulus of `u64` and `usize` arithmetic. -/
def addressSpace : Nat := 2 ^ 64

def pageSize : Nat := 4096

/-- `align_up`: `(value + alignment - 1) & !(alignment - 1)` in wrapping `u64`
arithmetic. -/
def alignUp (value alignment : Nat) : Nat :=
  ((value + alignment - 1) % addressSpace) &&&
    ((addressSpace - 1) ^^^ (alignment - 1))

/-- `align_down`: `value & !(alignment - 1)`. -/
def alignDown (value alignment : Nat) : Nat :=
  value &&& ((addressSpace - 1) ^^^ (alignment - 1))

/-- Masking with the complement of the low `k` bits rounds down to a multiple of
`2 ^ k`. -/
theorem and_not_low (value k : Nat) (inside : value < addressSpace) :
    value &&& ((addressSpace - 1) ^^^ (2 ^ k - 1)) = value / 2 ^ k * 2 ^ k :=
  BitFields.and_not_low_bits k inside

theorem alignDown_eq (value k : Nat) (inside : value < addressSpace) :
    alignDown value (2 ^ k) = value / 2 ^ k * 2 ^ k :=
  and_not_low value k inside

theorem alignUp_eq (value k : Nat) (inside : value + 2 ^ k - 1 < addressSpace) :
    alignUp value (2 ^ k) = (value + 2 ^ k - 1) / 2 ^ k * 2 ^ k := by
  rw [alignUp, Nat.mod_eq_of_lt inside]
  exact and_not_low _ k inside

end NyauxKernel
