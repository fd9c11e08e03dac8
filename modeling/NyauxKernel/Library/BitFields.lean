/-
Bit fields of a number.

A record without padding is the number that has its members side by side, the first member
in the lowest bits.  A reader takes out a field by its first bit and its width, and need not
know where one member ends and the next begins.
-/

import Mathlib.Algebra.Order.Ring.Nat
import Mathlib.Data.Nat.Bitwise
import Mathlib.Tactic.Ring

namespace BitFields

/-- The `width` bits of `value` from bit `start` on. -/
def field (value start width : Nat) : Nat := value / 2 ^ start % 2 ^ width

/-- Members with their widths, the first in the lowest bits. -/
def pack : List (Nat × Nat) → Nat
  | [] => 0
  | (width, value) :: members => value % 2 ^ width + 2 ^ width * pack members

theorem field_lt (value start width : Nat) : field value start width < 2 ^ width :=
  Nat.mod_lt _ (Nat.two_pow_pos width)

theorem pack_lt (members : List (Nat × Nat)) :
    pack members < 2 ^ (members.map Prod.fst).sum := by
  induction members with
  | nil => exact Nat.one_pos
  | cons member members inductionHypothesis =>
      rcases member with ⟨width, value⟩
      rw [pack, List.map_cons, List.sum_cons, pow_add]
      calc value % 2 ^ width + 2 ^ width * pack members
          < 2 ^ width + 2 ^ width * pack members :=
            Nat.add_lt_add_right (Nat.mod_lt _ (Nat.two_pow_pos width)) _
        _ = 2 ^ width * (pack members + 1) := by ring
        _ ≤ 2 ^ width * 2 ^ (members.map Prod.fst).sum := Nat.mul_le_mul_left _ inductionHypothesis

theorem field_all {value width : Nat} (small : value < 2 ^ width) :
    field value 0 width = value := by
  rw [field, pow_zero, Nat.div_one, Nat.mod_eq_of_lt small]

/-- A field of a field is a field. -/
theorem field_field (value start width : Nat) {first count : Nat}
    (inside : first + count ≤ width) :
    field (field value start width) first count = field value (start + first) count := by
  have split : width = first + (width - first) := by omega
  rw [field, field, field, split, pow_add, Nat.mod_mul_right_div_self, Nat.div_div_eq_div_mul,
    ← pow_add, Nat.mod_mod_of_dvd _ (pow_dvd_pow 2 (by omega))]

/-- Two neighbouring fields are one. -/
theorem field_join (value start low high : Nat) :
    field value start low + 2 ^ low * field value (start + low) high =
      field value start (low + high) := by
  rw [field, field, field, pow_add 2 start low, ← Nat.div_div_eq_div_mul, pow_add 2 low high,
    Nat.mod_mul]

/-- A field inside the first member. -/
theorem field_pack_head (width value : Nat) (members : List (Nat × Nat)) {start count : Nat}
    (inside : start + count ≤ width) :
    field (pack ((width, value) :: members)) start count = field value start count := by
  have whole : field (pack ((width, value) :: members)) 0 width = field value 0 width := by
    rw [pack, field, field, pow_zero, Nat.div_one, Nat.div_one, Nat.add_mul_mod_self_left,
      Nat.mod_mod]
  rw [← Nat.zero_add start, ← field_field _ 0 width inside, whole, field_field _ 0 width inside]

/-- A field behind the first member. -/
theorem field_pack_tail (width value : Nat) (members : List (Nat × Nat)) {start count : Nat}
    (behind : width ≤ start) :
    field (pack ((width, value) :: members)) start count =
      field (pack members) (start - width) count := by
  have split : start = width + (start - width) := by omega
  have low : (value % 2 ^ width + 2 ^ width * pack members) / 2 ^ width = pack members := by
    rw [Nat.add_mul_div_left _ _ (Nat.two_pow_pos width),
      Nat.div_eq_of_lt (Nat.mod_lt _ (Nat.two_pow_pos width)), Nat.zero_add]
  rw [field, split, pow_add, ← Nat.div_div_eq_div_mul, pack, low, Nat.add_sub_cancel_left, field]

/-! ### Masks -/

/-- Masking with the complement of the low `k` bits rounds down to a multiple of `2 ^ k`. -/
theorem and_not_low_bits {value width : Nat} (k : Nat) (inside : value < 2 ^ width) :
    value &&& ((2 ^ width - 1) ^^^ (2 ^ k - 1)) = value / 2 ^ k * 2 ^ k := by
  have rounded : value / 2 ^ k * 2 ^ k = (value >>> k) <<< k := by
    rw [Nat.shiftRight_eq_div_pow, Nat.shiftLeft_eq]
  rw [rounded]
  apply Nat.eq_of_testBit_eq
  intro bit
  rw [Nat.testBit_and, Nat.testBit_xor, Nat.testBit_two_pow_sub_one, Nat.testBit_two_pow_sub_one,
    Nat.testBit_shiftLeft, Nat.testBit_shiftRight]
  have clear (behind : ¬bit < width) : value.testBit bit = false :=
    Nat.testBit_lt_two_pow (lt_of_lt_of_le inside (Nat.pow_le_pow_right (by decide) (by omega)))
  by_cases low : bit < k
  · have small : ¬k ≤ bit := by omega
    by_cases inWord : bit < width
    · simp [low, small, inWord]
    · simp [small, clear inWord]
  · have same : k + (bit - k) = bit := by omega
    by_cases inWord : bit < width
    · simp [low, inWord, same, Nat.le_of_not_lt low]
    · simp [same, clear inWord]

end BitFields
