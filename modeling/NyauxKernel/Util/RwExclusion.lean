/-
Exclusion of readers and writers.

The word of a reader-writer lock is the greatest value while there is one writer and no
reader, and the number of readers otherwise.  Guards may be dropped in any order.
-/

import NyauxKernel.Util.SpinLocks
import Mathlib.Algebra.BigOperators.Group.Finset.Basic
import Mathlib.Data.Fintype.Basic

namespace NyauxKernel.Locks

section Effects

variable {σ ρ : Type}

/-- A value that is to be exchanged is not one of the two greatest, and a guard that is
being dropped is live. -/
def Frame.Safe (frame : Frame σ ρ) : Prop :=
  match frame.pc with
  | .exchange _ _ old => old < u32Max - 1
  | .load guard _ | .release guard _ => guard ∈ frame.held
  | _ => True

structure Cpu.Safe (cpu : Cpu σ ρ) : Prop where
  frame : cpu.frame.Safe
  below : ∀ frame ∈ cpu.below, frame.Safe

variable [DecidableEq σ] [DecidableEq ρ]

/-- What an action does to the words and to the guards of its CPU. -/
inductive Effect (shared : Shared σ ρ) (guards : List (Guard σ ρ)) :
    (ρ → UInt32) → List (Guard σ ρ) → Prop
  | same : Effect shared guards shared.words guards
  | spin (lock : σ) (prev : Bool) :
      Effect shared guards shared.words ({ target := .spin lock, prev := prev } :: guards)
  | read (lock : ρ) (prev : Bool) (below : shared.words lock < u32Max - 1) :
      Effect shared guards (Function.update shared.words lock (shared.words lock + 1))
        ({ target := .read lock, prev := prev } :: guards)
  | write (lock : ρ) (prev : Bool) (free : shared.words lock = 0) :
      Effect shared guards (Function.update shared.words lock u32Max)
        ({ target := .write lock, prev := prev } :: guards)
  | release (guard : Guard σ ρ) (live : guard ∈ guards) :
      Effect shared guards (shared.release guard.target).words (guards.erase guard)

variable {cpu cpu' : Cpu σ ρ} {shared shared' : Shared σ ρ}

theorem Cpu.Safe.moved (safe : cpu.Safe) {act : Act σ ρ}
    (moved : Moved cpu shared act shared' cpu') :
    cpu'.Safe ∧ Effect shared cpu.guards shared'.words cpu'.guards := by
  have frameSafe := safe.frame
  unfold Frame.Safe at frameSafe
  cases moved with
  | lock target idle => exact ⟨⟨trivial, safe.below⟩, .same⟩
  | unlock guard idle live =>
      refine ⟨⟨?_, safe.below⟩, .same⟩
      unfold Frame.Safe Cpu.goto Guard.dropPc
      cases guard.target with
      | spin lock => exact live
      | read lock => exact live
      | write lock => exact live
  | disable here => exact ⟨⟨trivial, safe.below⟩, .same⟩
  | retry trying => exact ⟨⟨trivial, safe.below⟩, .same⟩
  | takeSpin here free => exact ⟨⟨trivial, safe.below⟩, .spin _ _⟩
  | see here small => exact ⟨⟨small, safe.below⟩, .same⟩
  | @takeRead lock prev spurious here =>
      rw [here] at frameSafe
      exact ⟨⟨trivial, safe.below⟩, .read lock prev frameSafe⟩
  | takeWrite here free => exact ⟨⟨trivial, safe.below⟩, .write _ _ free⟩
  | pause here => exact ⟨⟨trivial, safe.below⟩, .same⟩
  | store here => exact ⟨⟨trivial, safe.below⟩, .same⟩
  | load here =>
      rw [here] at frameSafe
      exact ⟨⟨frameSafe, safe.below⟩, .same⟩
  | @release guard prev spurious here =>
      rw [here] at frameSafe
      have erased : (cpu.drop guard (.restore prev)).guards = cpu.guards.erase guard :=
        (List.erase_append_left _ frameSafe).symm
      rw [erased]
      exact ⟨⟨trivial, safe.below⟩, .release guard (List.mem_append_left _ frameSafe)⟩
  | restore here => exact ⟨⟨trivial, safe.below⟩, .same⟩
  | interrupt enabled =>
      refine ⟨⟨trivial, ?_⟩, .same⟩
      intro frame member
      rcases List.mem_cons.mp member with rfl | older
      · exact safe.frame
      · exact safe.below frame older
  | @iret frame below idle none interrupted =>
      have frames := safe.below
      rw [interrupted] at frames
      have same : cpu.guards = frame.held ++ below.flatMap Frame.held := by
        rw [Cpu.guards, none, interrupted, List.nil_append, List.flatMap_cons]
      rw [same]
      exact ⟨⟨frames frame List.mem_cons_self,
        fun other member => frames other (List.mem_cons_of_mem frame member)⟩, .same⟩
  | setInterrupts value idle none =>
      refine ⟨⟨?_, safe.below⟩, .same⟩
      unfold Frame.Safe
      rw [idle]
      trivial

end Effects

/-! ### Counting guards -/

section Counting

variable {ι σ ρ : Type} [Fintype ι]

/-- How many live guards of all CPUs there are of a kind. -/
def System.count (s : System ι σ ρ) (kind : Guard σ ρ → Bool) : Nat :=
  ∑ index, (s.cpus index).guards.countP kind

/-- Only the guards of the CPU that acts count anew. -/
theorem count_update [DecidableEq ι] (s : System ι σ ρ) (shared : Shared σ ρ) (index : ι)
    (cpu : Cpu σ ρ) (kind : Guard σ ρ → Bool) :
    System.count { shared := shared, cpus := Function.update s.cpus index cpu } kind +
        (s.cpus index).guards.countP kind =
      s.count kind + cpu.guards.countP kind := by
  have member := Finset.mem_univ index
  change (∑ other, (Function.update s.cpus index cpu other).guards.countP kind) + _ =
    (∑ other, (s.cpus other).guards.countP kind) + _
  rw [← Finset.add_sum_erase _ _ member, ← Finset.add_sum_erase _ _ member, Function.update_self]
  have others : ∀ other ∈ Finset.univ.erase index,
      (Function.update s.cpus index cpu other).guards.countP kind =
        (s.cpus other).guards.countP kind := by
    intro other inside
    rw [Function.update_of_ne (Finset.ne_of_mem_erase inside)]
  rw [Finset.sum_congr rfl others]
  omega

variable [DecidableEq σ] [DecidableEq ρ]

def System.readers (s : System ι σ ρ) (lock : ρ) : Nat :=
  s.count fun guard => guard.target = .read lock

def System.writers (s : System ι σ ρ) (lock : ρ) : Nat :=
  s.count fun guard => guard.target = .write lock

/-- One writer and no reader, or no writer and as many readers as the word says. -/
def WordOk (word : UInt32) (readers writers : Nat) : Prop :=
  (word = u32Max ∧ writers = 1 ∧ readers = 0) ∨
    (word.toNat = readers ∧ writers = 0 ∧ readers < u32Max.toNat)

namespace WordOk

variable {word : UInt32} {readers writers : Nat}

theorem read (ok : WordOk word readers writers) (below : word < u32Max - 1) :
    WordOk (word + 1) (readers + 1) writers := by
  have small : word.toNat < u32Max.toNat - 1 := UInt32.lt_iff_toNat_lt.mp below
  have max : u32Max.toNat = 4294967295 := rfl
  rcases ok with ⟨rfl, _⟩ | ⟨count, none, _⟩
  · omega
  · refine Or.inr ⟨?_, none, by omega⟩
    rw [UInt32.toNat_add, UInt32.toNat_one, count]
    omega

theorem write (ok : WordOk word readers writers) (free : word = 0) :
    WordOk u32Max readers (writers + 1) := by
  rcases ok with ⟨full, _⟩ | ⟨count, none, _⟩
  · rw [free] at full
    cases full
  · rw [free] at count
    exact Or.inl ⟨rfl, by rw [none], count.symm⟩

theorem dropRead (ok : WordOk word (readers + 1) writers) : WordOk (word - 1) readers writers := by
  rcases ok with ⟨_, _, none⟩ | ⟨count, none, bound⟩
  · cases none
  · have one : (1 : UInt32) ≤ word := by
      rw [UInt32.le_iff_toNat_le, count]
      exact Nat.le_add_left 1 readers
    refine Or.inr ⟨?_, none, Nat.lt_of_succ_lt bound⟩
    rw [UInt32.toNat_sub_of_le _ _ one, count]
    rfl

theorem dropWrite (ok : WordOk word readers (writers + 1)) : WordOk 0 readers writers := by
  rcases ok with ⟨_, one, none⟩ | ⟨_, none, _⟩
  · exact Or.inr ⟨none.symm, Nat.succ.inj one, by rw [none]; decide⟩
  · cases none

end WordOk

end Counting

/-! ### The words along a run -/

section Words

variable {ι σ ρ : Type} [DecidableEq σ] [DecidableEq ρ]

theorem countP_erase_add {guards : List (Guard σ ρ)} {guard : Guard σ ρ} (live : guard ∈ guards)
    (kind : Guard σ ρ → Bool) :
    (guards.erase guard).countP kind + (if kind guard then 1 else 0) = guards.countP kind := by
  have perm := (List.perm_cons_erase live).countP_eq kind
  rw [List.countP_cons] at perm
  exact perm.symm

/-- The words stay right when the counts of all guards change as those of one CPU do. -/
theorem Effect.wordOk {shared : Shared σ ρ} {guards guards' : List (Guard σ ρ)}
    {words : ρ → UInt32} {lock : ρ} {readers writers readers' writers' : Nat}
    (effect : Effect shared guards words guards')
    (ok : WordOk (shared.words lock) readers writers)
    (readersEq : readers' + guards.countP (fun guard => guard.target = .read lock) =
      readers + guards'.countP (fun guard => guard.target = .read lock))
    (writersEq : writers' + guards.countP (fun guard => guard.target = .write lock) =
      writers + guards'.countP (fun guard => guard.target = .write lock)) :
    WordOk (words lock) readers' writers' := by
  have unchanged (readersSame : readers' = readers) (writersSame : writers' = writers)
      (wordSame : words lock = shared.words lock) : WordOk (words lock) readers' writers' := by
    rw [readersSame, writersSame, wordSame]
    exact ok
  cases effect with
  | same => exact unchanged (by omega) (by omega) rfl
  | spin taken prev =>
      simp only [reduceCtorEq, decide_false, Bool.false_eq_true, not_false_eq_true,
        List.countP_cons_of_neg] at readersEq writersEq
      exact unchanged (by omega) (by omega) rfl
  | read taken prev below =>
      by_cases same : taken = lock
      · subst same
        simp only [decide_true, List.countP_cons_of_pos, reduceCtorEq, decide_false,
          Bool.false_eq_true, not_false_eq_true, List.countP_cons_of_neg] at readersEq writersEq
        obtain rfl : readers' = readers + 1 := by omega
        obtain rfl : writers' = writers := by omega
        rw [Function.update_self]
        exact ok.read below
      · simp only [Target.read.injEq, same, decide_false, Bool.false_eq_true, not_false_eq_true,
          List.countP_cons_of_neg, reduceCtorEq] at readersEq writersEq
        exact unchanged (by omega) (by omega) (Function.update_of_ne (Ne.symm same) _ _)
  | write taken prev free =>
      by_cases same : taken = lock
      · subst same
        simp only [reduceCtorEq, decide_false, Bool.false_eq_true, not_false_eq_true,
          List.countP_cons_of_neg, decide_true, List.countP_cons_of_pos] at readersEq writersEq
        obtain rfl : readers' = readers := by omega
        obtain rfl : writers' = writers + 1 := by omega
        rw [Function.update_self]
        exact ok.write free
      · simp only [reduceCtorEq, decide_false, Bool.false_eq_true, not_false_eq_true,
          List.countP_cons_of_neg, Target.write.injEq, same] at readersEq writersEq
        exact unchanged (by omega) (by omega) (Function.update_of_ne (Ne.symm same) _ _)
  | release guard live =>
      have readersLeft := countP_erase_add live (fun guard => guard.target = .read lock)
      have writersLeft := countP_erase_add live (fun guard => guard.target = .write lock)
      simp only [decide_eq_true_eq] at readersLeft writersLeft
      cases targetEq : guard.target with
      | spin dropped =>
          rw [targetEq] at unchanged
          simp only [targetEq, reduceCtorEq, if_false] at readersLeft writersLeft
          exact unchanged (by omega) (by omega) rfl
      | read dropped =>
          rw [targetEq] at unchanged
          simp only [targetEq, Target.read.injEq, reduceCtorEq, if_false] at readersLeft writersLeft
          by_cases same : dropped = lock
          · subst same
            rw [if_pos rfl] at readersLeft
            obtain rfl : readers = readers' + 1 := by omega
            obtain rfl : writers' = writers := by omega
            change WordOk (Function.update shared.words dropped _ dropped) _ _
            rw [Function.update_self]
            exact ok.dropRead
          · rw [if_neg same] at readersLeft
            exact unchanged (by omega) (by omega) (Function.update_of_ne (Ne.symm same) _ _)
      | write dropped =>
          rw [targetEq] at unchanged
          simp only [targetEq, Target.write.injEq, reduceCtorEq, if_false] at readersLeft writersLeft
          by_cases same : dropped = lock
          · subst same
            rw [if_pos rfl] at writersLeft
            obtain rfl : readers' = readers := by omega
            obtain rfl : writers = writers' + 1 := by omega
            change WordOk (Function.update shared.words dropped _ dropped) _ _
            rw [Function.update_self]
            exact ok.dropWrite
          · rw [if_neg same] at writersLeft
            exact unchanged (by omega) (by omega) (Function.update_of_ne (Ne.symm same) _ _)

variable [Fintype ι]

structure RwInv (s : System ι σ ρ) : Prop where
  safe : ∀ index, (s.cpus index).Safe
  words : ∀ lock, WordOk (s.shared.words lock) (s.readers lock) (s.writers lock)

theorem RwInv.start (interrupts : ι → Bool) :
    RwInv (System.start interrupts : System ι σ ρ) where
  safe := fun _ => ⟨trivial, fun _ member => absurd member List.not_mem_nil⟩
  words := by
    intro lock
    have none : ∀ kind : Guard σ ρ → Bool,
        System.count (System.start interrupts : System ι σ ρ) kind = 0 :=
      fun _ => Finset.sum_const_zero
    exact Or.inr ⟨(none _).symm, none _, by rw [System.readers, none]; decide⟩

variable [DecidableEq ι]

theorem RwInv.step {s s' : System ι σ ρ} (inv : RwInv s) {index : ι} {act : Act σ ρ}
    (done : s.step index act = some s') : RwInv s' := by
  obtain ⟨shared, cpu, moved, rfl⟩ := System.step_moved done
  obtain ⟨safe, effect⟩ := (inv.safe index).moved moved
  constructor
  · intro other
    by_cases same : other = index
    · subst same
      change (Function.update s.cpus other cpu other).Safe
      rw [Function.update_self]
      exact safe
    · change (Function.update s.cpus index cpu other).Safe
      rw [Function.update_of_ne same]
      exact inv.safe other
  · intro lock
    exact effect.wordOk (inv.words lock) (count_update s shared index cpu _)
      (count_update s shared index cpu _)

/-- For any number of CPUs and any order of their accesses, with interrupts and spurious
failures at any point and guards dropped in any order: the word of a lock is `u32::MAX`
with one live write guard and no read guard, or the number of live read guards, which is
less than `u32::MAX`, with no write guard. -/
theorem reader_writer_exclusion {interrupts : ι → Bool} {s : System ι σ ρ}
    (reachable : Reachable (fun _ _ _ => True) (System.start interrupts) s) (lock : ρ) :
    (s.shared.words lock = u32Max ∧ s.writers lock = 1 ∧ s.readers lock = 0) ∨
      ((s.shared.words lock).toNat = s.readers lock ∧ s.writers lock = 0 ∧
        s.readers lock < u32Max.toNat) := by
  have inv : RwInv s := by
    induction reachable with
    | refl => exact RwInv.start interrupts
    | tail _ step inductionHypothesis =>
        obtain ⟨index, act, _, done⟩ := step
        exact inductionHypothesis.step done
  exact inv.words lock

/-- Two CPUs: one reads, and the other one has to wait to write. -/
theorem reader_writer_exclusion_waiting :
    ∃ s : System Bool Unit Unit,
      Reachable (fun _ _ _ => True) (System.start fun _ => true) s ∧
      s.shared.words () = 1 ∧ s.readers () = 1 ∧ s.writers () = 0 := by
  have step {s s' : System Bool Unit Unit} (index : Bool) (act : Act Unit Unit)
      (before : Reachable (fun _ _ _ => True) (System.start fun _ => true) s)
      (done : s.step index act = some s') :
      Reachable (fun _ _ _ => True) (System.start fun _ => true) s' :=
    before.tail ⟨index, act, trivial, done⟩
  have called := step false (.lock (.read ())) .refl rfl
  have disabled := step false (.advance false) called rfl
  have seen := step false (.advance false) disabled rfl
  have taken := step false (.advance false) seen rfl
  have writer := step true (.lock (.write ())) taken rfl
  have writerDisabled := step true (.advance false) writer rfl
  have refused := step true (.advance false) writerDisabled rfl
  rcases reader_writer_exclusion refused () with ⟨full, _⟩ | ⟨count, none, _⟩
  · exact absurd full (by decide)
  · exact ⟨_, refused, rfl, count.symm, none⟩

end Words

end NyauxKernel.Locks
