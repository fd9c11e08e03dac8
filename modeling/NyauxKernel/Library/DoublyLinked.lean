/-
Doubly linked segments over separate `prev` and `next` link functions.

A segment is delimited by the link value found before its first cell and the one
found after its last cell.  Splitting, joining and rewriting either delimiter
cover every local surgery on such a list.
-/

import NyauxKernel.Library.Path

namespace DoublyLinked

open LinkPath

variable {α : Type} {prev next prev' next' : α → α}

/-- The cells are linked both ways, from `before` on the left to `after` on the
right. -/
def Segment (prev next : α → α) : α → List α → α → Prop
  | _, [], _ => True
  | before, cell :: rest, after =>
      prev cell = before ∧ next cell = rest.headD after ∧
        Segment prev next cell rest after

@[simp] theorem segment_nil (before after : α) :
    Segment prev next before [] after :=
  trivial

theorem segment_cons (before after cell : α) (rest : List α) :
    Segment prev next before (cell :: rest) after ↔
      prev cell = before ∧ next cell = rest.headD after ∧
        Segment prev next cell rest after :=
  Iff.rfl

theorem headD_append (front back : List α) (after : α) :
    (front ++ back).headD after = front.headD (back.headD after) := by
  cases front with
  | nil => rfl
  | cons cell rest => rfl

theorem segment_append (before after : α) (front back : List α) :
    Segment prev next before (front ++ back) after ↔
      Segment prev next before front (back.headD after) ∧
        Segment prev next (front.getLastD before) back after := by
  induction front generalizing before with
  | nil => exact (and_iff_right trivial).symm
  | cons cell front ih =>
      rw [List.cons_append, List.getLastD_cons, segment_cons, segment_cons, ih,
        headD_append, and_assoc, and_assoc]

variable {after before : α} {cells : List α}

theorem Segment.congr (segment : Segment prev next before cells after)
    (samePrev : ∀ cell ∈ cells, prev' cell = prev cell)
    (sameNext : ∀ cell ∈ cells, next' cell = next cell) :
    Segment prev' next' before cells after := by
  induction cells generalizing before with
  | nil => trivial
  | cons cell rest ih =>
      obtain ⟨left, right, tail⟩ := segment
      refine ⟨?_, ?_, ?_⟩
      · rw [samePrev cell List.mem_cons_self, left]
      · rw [sameNext cell List.mem_cons_self, right]
      · exact ih tail
          (fun other member => samePrev other (List.mem_cons_of_mem cell member))
          (fun other member => sameNext other (List.mem_cons_of_mem cell member))

section Update

variable [DecidableEq α]

/-- Rewriting the first cell's left link moves the left delimiter. -/
theorem Segment.setBefore {before before' after cell : α} {rest : List α}
    (segment : Segment prev next before (cell :: rest) after)
    (distinct : (cell :: rest).Nodup) :
    Segment (Function.update prev cell before') next before' (cell :: rest) after := by
  obtain ⟨_left, right, tail⟩ := segment
  refine ⟨Function.update_self .., right, ?_⟩
  refine tail.congr ?_ (fun _ _ => rfl)
  intro other member
  have apart : other ≠ cell := by
    intro same
    exact (List.nodup_cons.mp distinct).1 (same ▸ member)
  exact Function.update_of_ne apart _ _

/-- Rewriting the last cell's right link moves the right delimiter. -/
theorem Segment.setAfter {before after after' cell : α} {front : List α}
    (segment : Segment prev next before (front ++ [cell]) after)
    (distinct : (front ++ [cell]).Nodup) :
    Segment prev (Function.update next cell after') before (front ++ [cell]) after' := by
  rw [segment_append] at segment ⊢
  obtain ⟨front', left, _right, _tail⟩ := segment
  refine ⟨?_, left, Function.update_self .., trivial⟩
  refine front'.congr (fun _ _ => rfl) ?_
  intro other member
  have apart : other ≠ cell := by
    intro same
    exact (List.nodup_append.mp distinct).2.2 other member cell List.mem_cons_self same
  exact Function.update_of_ne apart _ _

end Update

theorem Segment.forward (segment : Segment prev next before cells after) :
    Path next (cells.headD after) cells after := by
  induction cells generalizing before with
  | nil => rfl
  | cons cell rest ih =>
      obtain ⟨_left, right, tail⟩ := segment
      refine ⟨rfl, ?_⟩
      rw [right]
      exact ih tail

theorem Segment.backward (segment : Segment prev next before cells after) :
    Path prev (cells.getLastD before) cells.reverse before := by
  induction cells generalizing before with
  | nil => rfl
  | cons cell rest ih =>
      obtain ⟨left, _right, tail⟩ := segment
      rw [List.getLastD_cons, List.reverse_cons, path_append]
      refine ⟨ih tail, rfl, ?_⟩
      exact left

/-- The links of a cell in the middle of a segment. -/
theorem Segment.links {cell : α} {front back : List α}
    (segment : Segment prev next before (front ++ cell :: back) after) :
    prev cell = front.getLastD before ∧ next cell = back.headD after := by
  obtain ⟨_front, left, right, _tail⟩ := (segment_append _ _ _ _).mp segment
  exact ⟨left, right⟩

end DoublyLinked
