/-
Chains of links in a heap, seen through a successor function.

A path lists the cells met when links are followed from a start until a finish
is met.  Paths compose, depend only on the links of their own cells, and are
found again by any loop that has enough fuel.
-/

import Mathlib.Data.List.Basic
import Mathlib.Data.List.Perm.Subperm
import Mathlib.Logic.Function.Basic

namespace LinkPath

variable {α : Type} {next next' : α → α}

/-- Following `next` from `start` meets exactly `cells` before `finish`. -/
def Path (next : α → α) : α → List α → α → Prop
  | start, [], finish => start = finish
  | start, cell :: rest, finish => start = cell ∧ Path next (next cell) rest finish

@[simp] theorem path_nil (start finish : α) :
    Path next start [] finish ↔ start = finish :=
  Iff.rfl

@[simp] theorem path_cons (start cell finish : α) (rest : List α) :
    Path next start (cell :: rest) finish ↔
      start = cell ∧ Path next (next cell) rest finish :=
  Iff.rfl

variable {cell finish start : α} {cells : List α}

theorem Path.start_eq (path : Path next start cells finish) : start = cells.headD finish := by
  cases cells with
  | nil => exact path
  | cons cell rest => exact path.1

theorem path_append (start finish : α) (front back : List α) :
    Path next start (front ++ back) finish ↔
      Path next start front (back.headD finish) ∧
        Path next (back.headD finish) back finish := by
  induction front generalizing start with
  | nil =>
      constructor
      · intro path
        have atBack : start = back.headD finish := Path.start_eq path
        exact ⟨atBack, atBack ▸ path⟩
      · rintro ⟨same, path⟩
        have atStart : start = back.headD finish := same
        rw [List.nil_append, atStart]
        exact path
  | cons cell front ih =>
      rw [List.cons_append, path_cons, path_cons, ih, and_assoc]

/-- Only the links of the listed cells matter. -/
theorem Path.congr (path : Path next start cells finish)
    (same : ∀ cell ∈ cells, next' cell = next cell) : Path next' start cells finish := by
  induction cells generalizing start with
  | nil => exact path
  | cons cell rest ih =>
      refine ⟨path.1, ?_⟩
      rw [same cell List.mem_cons_self]
      exact ih path.2 (fun other member => same other (List.mem_cons_of_mem cell member))

/-- Links that never leave a set of cells never lead out of it. -/
theorem Path.inside {inside : α → Prop} (path : Path next start cells finish)
    (closed : ∀ cell, inside cell → inside (next cell)) (atStart : inside start) :
    inside finish := by
  induction cells generalizing start with
  | nil => exact path ▸ atStart
  | cons cell rest ih =>
      obtain ⟨rfl, tail⟩ := path
      exact ih tail (closed start atStart)

/-- The link of a listed cell is listed or the end. -/
theorem Path.next_mem (path : Path next start cells finish) (member : cell ∈ cells) :
    next cell ∈ cells ∨ next cell = finish := by
  obtain ⟨front, back, rfl⟩ := List.append_of_mem member
  have atNext : next cell = back.headD finish := ((path_append _ _ _ _).mp path).2.2.start_eq
  cases back with
  | nil => exact Or.inr atNext
  | cons head rest =>
      left
      rw [atNext]
      simp

/-- The cells that links lead to before `finish` is met. -/
inductive Reaches (next : α → α) (finish start : α) : α → Prop
  | start (going : start ≠ finish) : Reaches next finish start start
  | next {cell : α} (before : Reaches next finish start cell) (going : next cell ≠ finish) :
      Reaches next finish start (next cell)

theorem Path.reaches {first : α} (path : Path next first cells finish) (stops : finish ∉ cells)
    (atFirst : first ≠ finish → Reaches next finish start first) :
    ∀ cell ∈ cells, Reaches next finish start cell := by
  induction cells generalizing first with
  | nil => exact fun cell member => absurd member List.not_mem_nil
  | cons head rest ih =>
      obtain ⟨rfl, tail⟩ := path
      have here := atFirst fun same => stops (same ▸ List.mem_cons_self)
      intro cell member
      rcases List.mem_cons.mp member with rfl | later
      · exact here
      · exact ih tail (fun inRest => stops (List.mem_cons_of_mem _ inRest)) (Reaches.next here) cell later

/-- The cells of a path are those that can be reached. -/
theorem Path.reaches_iff (path : Path next start cells finish) (stops : finish ∉ cells) :
    Reaches next finish start cell ↔ cell ∈ cells := by
  constructor
  · intro reaches
    induction reaches with
    | start going =>
        have atStart := path.start_eq
        cases cells with
        | nil => exact absurd atStart going
        | cons head rest => exact atStart ▸ List.mem_cons_self
    | @next cell before going ih =>
        exact (path.next_mem ih).resolve_right going
  · exact path.reaches stops Reaches.start cell

/-- The loop that collects cells until `stop` holds. -/
def walk (next : α → α) (stop : α → Bool) : Nat → α → Option (List α)
  | 0, _ => none
  | fuel + 1, cell =>
      if stop cell then some []
      else (walk next stop fuel (next cell)).map (cell :: ·)

theorem Path.walk_eq {stop : α → Bool} {fuel : Nat} (path : Path next start cells finish)
    (stops : stop finish = true) (continues : ∀ cell ∈ cells, stop cell = false)
    (enough : cells.length < fuel) : walk next stop fuel start = some cells := by
  induction cells generalizing start fuel with
  | nil =>
      cases fuel with
      | zero => exact absurd enough (Nat.not_lt_zero _)
      | succ fuel =>
          obtain rfl : start = finish := path
          rw [walk, if_pos stops]
  | cons cell rest ih =>
      cases fuel with
      | zero => exact absurd enough (Nat.not_lt_zero _)
      | succ fuel =>
          obtain ⟨rfl, tail⟩ := path
          have going : ¬stop start = true := by
            rw [continues start List.mem_cons_self]
            exact Bool.false_ne_true
          have found := ih tail
            (fun other member => continues other (List.mem_cons_of_mem start member))
            (Nat.lt_of_succ_lt_succ enough)
          rw [walk, if_neg going, found]
          rfl

/-- Distinct numbers below a bound are at most that many. -/
theorem length_le_of_nodup {cells : List Nat} {bound : Nat} (distinct : cells.Nodup)
    (below : ∀ cell ∈ cells, cell < bound) : cells.length ≤ bound := by
  have inside : cells ⊆ List.range bound :=
    fun cell member => List.mem_range.mpr (below cell member)
  have shorter := (List.subperm_of_subset distinct inside).length_le
  rwa [List.length_range] at shorter

end LinkPath
