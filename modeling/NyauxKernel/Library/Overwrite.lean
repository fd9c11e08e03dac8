/-
Arrays that grow when they are written behind their end.

The specification is the history of the writes, the latest first: the array reaches as far
as the furthest write, and a cell holds what the latest write that covers it put there.  A
list that is filled up and overwritten in place keeps to it.
-/

import Mathlib.Data.List.Basic

namespace ZeroExtended

variable {α : Type}

structure Write (α : Type) where
  offset : Nat
  data : List α

def Write.stop (write : Write α) : Nat := write.offset + write.data.length

/-- The latest write that covers a cell decides. -/
def latest : List (Write α) → Nat → Option α
  | [], _ => none
  | write :: older, i =>
      if write.offset ≤ i ∧ i < write.stop then write.data[i - write.offset]?
      else latest older i

/-- Where the furthest write ends. -/
def extent : List (Write α) → Nat
  | [] => 0
  | write :: older => max write.stop (extent older)

/-- The list is filled up to the end of the write, and then overwritten. -/
def overwrite (fill : α) (cells : List α) (write : Write α) : List α :=
  let grown :=
    if write.stop > cells.length then
      cells ++ List.replicate (write.stop - cells.length) fill
    else cells
  grown.take write.offset ++ write.data ++ grown.drop write.stop

/-- The list holds what the history says. -/
structure Holds (fill : α) (cells : List α) (writes : List (Write α)) : Prop where
  length_eq : cells.length = extent writes
  cell_eq : ∀ i < cells.length, cells[i]? = some ((latest writes i).getD fill)

theorem latest_behind (writes : List (Write α)) {i : Nat} (behind : extent writes ≤ i) :
    latest writes i = none := by
  induction writes with
  | nil => rfl
  | cons write older inductionHypothesis =>
      rw [extent] at behind
      have outside : ¬(write.offset ≤ i ∧ i < write.stop) := by omega
      rw [latest, if_neg outside]
      exact inductionHypothesis (by omega)

/-! ### One write -/

/-- Replacing cells that are all there. -/
theorem replace_getElem? {cells data : List α} {offset : Nat}
    (inside : offset + data.length ≤ cells.length) (i : Nat) :
    (cells.take offset ++ data ++ cells.drop (offset + data.length))[i]? =
      if offset ≤ i ∧ i < offset + data.length then data[i - offset]? else cells[i]? := by
  have front : (cells.take offset).length = offset := by
    rw [List.length_take]
    omega
  by_cases before : i < offset
  · rw [if_neg (by omega), List.append_assoc, List.getElem?_append_left (by omega),
      List.getElem?_take_of_lt before]
  · by_cases within : i < offset + data.length
    · rw [if_pos ⟨by omega, within⟩,
        List.getElem?_append_left (by rw [List.length_append]; omega),
        List.getElem?_append_right (by omega), front]
    · rw [if_neg (by omega), List.getElem?_append_right (by rw [List.length_append]; omega),
        List.getElem?_drop, List.length_append, front]
      congr 1
      omega

theorem fill_getElem? (fill : α) (cells : List α) (count i : Nat) :
    (cells ++ List.replicate count fill)[i]? =
      if i < cells.length then cells[i]?
      else if i < cells.length + count then some fill else none := by
  by_cases inside : i < cells.length
  · rw [if_pos inside, List.getElem?_append_left inside]
  · rw [if_neg inside, List.getElem?_append_right (by omega), List.getElem?_replicate]
    by_cases filled : i < cells.length + count
    · rw [if_pos filled, if_pos (by omega)]
    · rw [if_neg filled, if_neg (by omega)]

theorem overwrite_length (fill : α) (cells : List α) (write : Write α) :
    (overwrite fill cells write).length = max cells.length write.stop := by
  have stop : write.stop = write.offset + write.data.length := rfl
  unfold overwrite
  by_cases longer : write.stop > cells.length
  · simp only [if_pos longer, List.length_append, List.length_take, List.length_drop,
      List.length_replicate]
    omega
  · simp only [if_neg longer, List.length_append, List.length_take, List.length_drop]
    omega

/-- A cell after a write: written, as it was, or filled in. -/
theorem overwrite_getElem? (fill : α) (cells : List α) (write : Write α) (i : Nat) :
    (overwrite fill cells write)[i]? =
      if write.offset ≤ i ∧ i < write.stop then write.data[i - write.offset]?
      else if i < cells.length then cells[i]?
      else if i < write.stop then some fill else none := by
  unfold overwrite
  by_cases longer : write.stop > cells.length
  · have filled : cells.length + (write.stop - cells.length) = write.stop := by omega
    have inside : write.offset + write.data.length ≤
        (cells ++ List.replicate (write.stop - cells.length) fill).length := by
      rw [List.length_append, List.length_replicate, filled]
      exact Nat.le_refl write.stop
    simp only [if_pos longer]
    refine (replace_getElem? inside i).trans ?_
    rw [fill_getElem?, filled]
    rfl
  · have inside : write.offset + write.data.length ≤ cells.length := Nat.not_lt.mp longer
    simp only [if_neg longer]
    refine (replace_getElem? inside i).trans ?_
    by_cases covered : write.offset ≤ i ∧ i < write.offset + write.data.length
    · rw [if_pos covered, if_pos (show write.offset ≤ i ∧ i < write.stop from covered)]
    · rw [if_neg covered, if_neg (show ¬(write.offset ≤ i ∧ i < write.stop) from covered)]
      by_cases old : i < cells.length
      · rw [if_pos old]
      · rw [if_neg old, if_neg (by omega), List.getElem?_eq_none (by omega)]

namespace Holds

variable {fill : α} {cells : List α} {writes : List (Write α)}

theorem empty : Holds fill [] [] where
  length_eq := rfl
  cell_eq := fun i below => absurd below (Nat.not_lt_zero i)

theorem overwrite (holds : Holds fill cells writes) (write : Write α) :
    Holds fill (ZeroExtended.overwrite fill cells write) (write :: writes) where
  length_eq := by
    rw [overwrite_length, holds.length_eq, extent, Nat.max_comm]
  cell_eq := by
    intro i below
    rw [overwrite_length] at below
    rw [overwrite_getElem?, latest]
    by_cases covered : write.offset ≤ i ∧ i < write.stop
    · have inData : i - write.offset < write.data.length := by
        unfold Write.stop at covered
        omega
      rw [if_pos covered, if_pos covered, List.getElem?_eq_getElem inData]
      rfl
    · rw [if_neg covered, if_neg covered]
      by_cases old : i < cells.length
      · rw [if_pos old, holds.cell_eq i old]
      · rw [if_neg old, if_pos (by omega)]
        rw [latest_behind writes (by rw [← holds.length_eq]; omega)]
        rfl

end Holds

end ZeroExtended
