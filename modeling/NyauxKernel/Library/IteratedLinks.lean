/-
Cells met when links are followed a given number of times.

Lists that share one successor function are kept apart by their lengths alone: what
lies behind the last cell of a list is never read.  One redirected link can cut a list
in two or join two lists.
-/

import Mathlib.Data.List.Iterate
import Mathlib.Data.List.Nodup
import Mathlib.Logic.Function.Iterate

namespace IteratedLinks

variable {α : Type} {next next' : α → α}

/-- Only the links of the cells matter. -/
theorem iterate_congr {n : Nat} {start : α}
    (same : ∀ cell ∈ List.iterate next start n, next' cell = next cell) :
    List.iterate next' start n = List.iterate next start n ∧
      next'^[n] start = next^[n] start := by
  induction n generalizing start with
  | zero => exact ⟨rfl, rfl⟩
  | succ n inductionHypothesis =>
      have first : next' start = next start := same start List.mem_cons_self
      obtain ⟨cells, finish⟩ := inductionHypothesis fun cell member =>
        same cell (List.mem_cons_of_mem start member)
      constructor
      · rw [List.iterate, List.iterate, first, cells]
      · rw [Function.iterate_succ_apply, Function.iterate_succ_apply, first, finish]

theorem iterate_concat (next : α → α) (start : α) (n : Nat) :
    List.iterate next start (n + 1) = List.iterate next start n ++ [next^[n] start] :=
  List.iterate_add next start n 1

/-- Cells that are linked in the order of their numbers. -/
theorem iterate_eq_map_range' (place : Nat → α) (n k : Nat)
    (steps : ∀ i, i + 1 < k + n → next (place i) = place (i + 1)) :
    List.iterate next (place k) n = (List.range' k n).map place := by
  induction n generalizing k with
  | zero => rfl
  | succ n inductionHypothesis =>
      rw [List.iterate, List.range'_succ, List.map_cons]
      congr 1
      cases n with
      | zero => rfl
      | succ n =>
          rw [steps k (by omega)]
          exact inductionHypothesis (k + 1) fun i below => steps i (by omega)

variable [DecidableEq α]

theorem iterate_update_of_not_mem {n : Nat} {start last : α} (stop : α)
    (absent : last ∉ List.iterate next start n) :
    List.iterate (Function.update next last stop) start n = List.iterate next start n ∧
      (Function.update next last stop)^[n] start = next^[n] start := by
  apply iterate_congr
  intro cell member
  apply Function.update_of_ne
  rintro rfl
  exact absent member

/-- The link of the last cell can be redirected. -/
theorem iterate_redirect {n : Nat} {start last : α} (stop : α)
    (distinct : (List.iterate next start (n + 1)).Nodup) (isLast : next^[n] start = last) :
    List.iterate (Function.update next last stop) start (n + 1) = List.iterate next start (n + 1) ∧
      (Function.update next last stop)^[n + 1] start = stop := by
  rw [iterate_concat, List.nodup_append, isLast] at distinct
  have absent : last ∉ List.iterate next start n :=
    fun member => distinct.2.2 last member last List.mem_cons_self rfl
  obtain ⟨cells, finish⟩ := iterate_update_of_not_mem stop absent
  constructor
  · rw [iterate_concat, iterate_concat, cells, finish]
  · rw [Function.iterate_succ_apply', finish, isLast, Function.update_self]

end IteratedLinks
