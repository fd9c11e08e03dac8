/-
Stacks of words that grow downwards in a memory with wrapping addresses.

A list of values lies in memory when its words are at consecutive addresses, eight bytes
apart.  Values that are pushed one after the other lie there in the opposite order, on top of
what was there before.
-/

import Mathlib.Data.UInt
import Mathlib.Logic.Function.Basic

namespace StackWords

/-- The words from the address on, upwards. -/
def Holds (words : UInt64 → UInt64) (address : UInt64) : List UInt64 → Prop
  | [] => True
  | value :: rest => words address = value ∧ Holds words (address + 8) rest

/-- The memory and the top of the stack after the values were pushed, the first one first. -/
def pushAll (words : UInt64 → UInt64) (top : UInt64) : List UInt64 → (UInt64 → UInt64) × UInt64
  | [] => (words, top)
  | value :: rest => pushAll (Function.update words (top - 8) value) (top - 8) rest

variable {words : UInt64 → UInt64} {address top : UInt64} {values below : List UInt64}

/-! ### Addresses -/

theorem slot_succ (address : UInt64) (index : Nat) :
    address + 8 + 8 * UInt64.ofNat index = address + 8 * UInt64.ofNat (index + 1) := by
  rw [UInt64.ofNat_add, UInt64.mul_add, UInt64.add_assoc,
    UInt64.add_comm (8 * UInt64.ofNat index)]
  rfl

/-- A word that is pushed is below the next words. -/
theorem slot_ne_pushed (top : UInt64) {index : Nat} (near : index < 2 ^ 60) :
    top + 8 * UInt64.ofNat index ≠ top - 8 := by
  intro same
  have numbers := congrArg UInt64.toNat same
  rw [UInt64.toNat_add, UInt64.toNat_mul, UInt64.toNat_sub, UInt64.toNat_ofNat'] at numbers
  have small := top.toNat_lt
  change (top.toNat + 8 * (index % 2 ^ 64) % 2 ^ 64) % 2 ^ 64 =
    (2 ^ 64 - 8 + top.toNat) % 2 ^ 64 at numbers
  omega

/-! ### Lists in memory -/

theorem Holds.keep {words' : UInt64 → UInt64} (holds : Holds words address values)
    (same : ∀ index < values.length, words' (address + 8 * UInt64.ofNat index) =
      words (address + 8 * UInt64.ofNat index)) :
    Holds words' address values := by
  induction values generalizing address with
  | nil => trivial
  | cons value rest inductionHypothesis =>
      rcases holds with ⟨here, later⟩
      constructor
      · have first := same 0 (Nat.zero_lt_succ _)
        change words' (address + 0) = words (address + 0) at first
        rw [UInt64.add_zero] at first
        rw [first, here]
      · apply inductionHypothesis later
        intro index inside
        rw [slot_succ]
        exact same (index + 1) (Nat.succ_lt_succ inside)

theorem holds_append {more : List UInt64} :
    Holds words address (values ++ more) ↔
      Holds words address values ∧
        Holds words (address + 8 * UInt64.ofNat values.length) more := by
  induction values generalizing address with
  | nil =>
      change Holds words address more ↔ True ∧ Holds words (address + 0) more
      rw [UInt64.add_zero, true_and]
  | cons value rest inductionHypothesis =>
      change (_ ∧ Holds words (address + 8) (rest ++ more)) ↔ (_ ∧ _) ∧ _
      rw [inductionHypothesis, slot_succ, and_assoc]
      rfl

/-! ### Pushed values -/

theorem pushAll_nil (words : UInt64 → UInt64) (top : UInt64) :
    pushAll words top [] = (words, top) := rfl

theorem pushAll_append (words : UInt64 → UInt64) (top : UInt64) (values more : List UInt64) :
    pushAll words top (values ++ more) =
      pushAll (pushAll words top values).1 (pushAll words top values).2 more := by
  induction values generalizing words top with
  | nil => rfl
  | cons value rest inductionHypothesis => exact inductionHypothesis _ _

theorem pushAll_top (words : UInt64 → UInt64) (top : UInt64) (values : List UInt64) :
    (pushAll words top values).2 = top - 8 * UInt64.ofNat values.length := by
  induction values generalizing words top with
  | nil =>
      change top = top - 0
      rw [UInt64.sub_zero]
  | cons value rest inductionHypothesis =>
      rw [pushAll, inductionHypothesis, List.length_cons, UInt64.ofNat_add, UInt64.mul_add,
        UInt64.add_comm, ← sub_sub]
      rfl

/-- Pushed values lie in memory, the last one first, before what was on the stack. -/
theorem holds_pushAll (holds : Holds words top below)
    (near : values.length + below.length < 2 ^ 60) :
    Holds (pushAll words top values).1 (pushAll words top values).2 (values.reverse ++ below) := by
  induction values generalizing words top below with
  | nil => exact holds
  | cons value rest inductionHypothesis =>
      rw [List.length_cons] at near
      have pushed : Holds (Function.update words (top - 8) value) (top - 8) (value :: below) := by
        constructor
        · exact Function.update_self _ _ _
        · rw [UInt64.sub_add_cancel]
          apply holds.keep
          intro index inside
          exact Function.update_of_ne (slot_ne_pushed top (by omega)) _ _
      rw [pushAll, List.reverse_cons, List.append_assoc]
      apply inductionHypothesis pushed
      rw [List.length_cons]
      omega

/-- Nothing but the pushed words changes. -/
theorem pushAll_keeps
    (outside : ∀ index < values.length, address ≠ top - 8 * UInt64.ofNat (index + 1)) :
    (pushAll words top values).1 address = words address := by
  induction values generalizing words top with
  | nil => rfl
  | cons value rest inductionHypothesis =>
      have first := outside 0 (Nat.zero_lt_succ _)
      change address ≠ top - 8 at first
      rw [pushAll, inductionHypothesis, Function.update_of_ne first]
      intro index inside
      have later := outside (index + 1) (Nat.succ_lt_succ inside)
      rw [UInt64.ofNat_add, UInt64.mul_add, UInt64.add_comm, ← sub_sub] at later
      exact later

-- A stack is known by these lemmas; unfolding it word by word is slow.
attribute [irreducible] pushAll

end StackWords
