/-
Round robin over a list.

The first of the waiting members takes a turn and goes to the end.  Any window of as many
turns as there are members is a rotation of the members.
-/

import Mathlib.Data.List.Rotate

namespace NyauxKernel.RoundRobin

variable {α : Type*}

/-- The members that take the next turns. -/
def served : Nat → List α → List α
  | 0, _ => []
  | _ + 1, [] => []
  | turns + 1, first :: rest => first :: served turns (rest ++ [first])

theorem served_nil (turns : Nat) : served turns ([] : List α) = [] := by
  cases turns with
  | zero => rfl
  | succ turns => rfl

theorem served_succ (turns : Nat) (first : α) (rest : List α) :
    served (turns + 1) (first :: rest) = first :: served turns (rest ++ [first]) := rfl

theorem length_served (turns : Nat) {order : List α} (nonempty : order ≠ []) :
    (served turns order).length = turns := by
  induction turns generalizing order with
  | zero => rfl
  | succ turns inductionHypothesis =>
      cases order with
      | nil => exact absurd rfl nonempty
      | cons first rest =>
          rw [served_succ, List.length_cons, inductionHypothesis (List.concat_ne_nil first rest)]

theorem served_add (turns more : Nat) (order : List α) :
    served (turns + more) order = served turns order ++ served more (order.rotate turns) := by
  induction turns generalizing order with
  | zero => rw [Nat.zero_add, List.rotate_zero, served, List.nil_append]
  | succ turns inductionHypothesis =>
      cases order with
      | nil => rw [served_nil, served_nil, List.rotate_nil, served_nil, List.nil_append]
      | cons first rest =>
          rw [Nat.add_right_comm, served_succ, served_succ, inductionHypothesis,
            List.rotate_cons_succ, List.cons_append]

theorem served_append (front back : List α) : served front.length (front ++ back) = front := by
  induction front generalizing back with
  | nil => rfl
  | cons first rest inductionHypothesis =>
      rw [List.length_cons, List.cons_append, served_succ, List.append_assoc, inductionHypothesis]

theorem served_length (order : List α) : served order.length order = order := by
  have all := served_append order []
  rwa [List.append_nil] at all

/-- In a window of as many turns as there are members each of them has its turn. -/
theorem window_eq_rotate {skipped turns : Nat} {order : List α}
    (inside : skipped + order.length ≤ turns) :
    ((served turns order).drop skipped).take order.length = order.rotate skipped := by
  cases order with
  | nil => rw [served_nil, List.drop_nil, List.take_nil, List.rotate_nil]
  | cons first rest =>
      obtain ⟨more, rfl⟩ := Nat.exists_eq_add_of_le inside
      have front := length_served skipped (List.cons_ne_nil first rest)
      have rotated := served_length ((first :: rest).rotate skipped)
      rw [List.length_rotate] at rotated
      rw [Nat.add_assoc, served_add, List.drop_left' front, served_add, rotated,
        List.take_left' (List.length_rotate ..)]

end NyauxKernel.RoundRobin
