/-
The data behind `SpinLockB` and `RWSpinLock`.

A holder reads the data through its guard and, if the guard allows it, writes it back later;
between the two it works on what it has read.  Locks are taken and guards dropped in any
order, and interrupt handlers do the same.  Although a change of the data takes two accesses,
no change is lost: the data is what the changes give when each of them is done at once.
-/

import NyauxKernel.Util.SpinExclusion

namespace NyauxKernel.Locks

section Data

variable {ι σ ρ α : Type}

/-- `DerefMut` is there for the guards of spin locks and of writers. -/
def Target.exclusive : Target σ ρ → Bool
  | .spin _ => true
  | .read _ => false
  | .write _ => true

/-- The locks with their data.  `views` is what a holder has last read or written through
its guard, and `log` the changes that were written, in order; no step reads the log. -/
structure Guarded (ι σ ρ α : Type) where
  system : System ι σ ρ
  data : σ ⊕ ρ → α
  views : ι → Guard σ ρ → Option α
  log : List ((σ ⊕ ρ) × (α → α))

def Guarded.start (interrupts : ι → Bool) (data : σ ⊕ ρ → α) : Guarded ι σ ρ α :=
  { system := System.start interrupts, data := data, views := fun _ _ => none, log := [] }

/-- A step of the locks, a read of the data, or a write of a change of what was read. -/
inductive DataAct (σ ρ α : Type)
  | locks (act : Act σ ρ)
  | load (guard : Guard σ ρ)
  | store (guard : Guard σ ρ) (change : α → α)

variable [DecidableEq ι] [DecidableEq σ] [DecidableEq ρ]

/-- The CPU is outside of the code of the locks and its running activity has the guard. -/
def Cpu.holds (cpu : Cpu σ ρ) (guard : Guard σ ρ) : Bool :=
  match cpu.frame.pc with
  | .idle => cpu.frame.held.contains guard
  | _ => false

def Guarded.see (s : Guarded ι σ ρ α) (index : ι) (guard : Guard σ ρ) (value : α) :
    ι → Guard σ ρ → Option α :=
  Function.update s.views index (Function.update (s.views index) guard (some value))

def Guarded.step (s : Guarded ι σ ρ α) (index : ι) : DataAct σ ρ α → Option (Guarded ι σ ρ α)
  | .locks act =>
      (s.system.step index act).map fun system =>
        { s with
          system := system
          -- a guard that is taken now has not been read through
          views := fun other guard =>
            if (s.system.cpus other).guards.contains guard then s.views other guard else none }
  | .load guard =>
      if (s.system.cpus index).holds guard then
        some { s with views := s.see index guard (s.data guard.target.cell) }
      else none
  | .store guard change =>
      if (s.system.cpus index).holds guard ∧ guard.target.exclusive = true then
        (s.views index guard).map fun value =>
          { s with
            data := Function.update s.data guard.target.cell (change value)
            views := s.see index guard (change value)
            log := s.log ++ [(guard.target.cell, change)] }
      else none

/-- The states that steps of the CPUs lead to, in any order. -/
def GuardedReachable (start : Guarded ι σ ρ α) : Guarded ι σ ρ α → Prop :=
  Relation.ReflTransGen (fun s s' => ∃ index act, s.step index act = some s') start

/-- A change that is done at once. -/
def atomically (data : σ ⊕ ρ → α) (entry : (σ ⊕ ρ) × (α → α)) : σ ⊕ ρ → α :=
  Function.update data entry.1 (entry.2 (data entry.1))

end Data

/-! ### The holder is alone -/

section Alone

variable {ι σ ρ : Type} [Fintype ι] [DecidableEq ι]

/-- One guard of a kind is one guard of one CPU. -/
theorem System.unique_of_count {s : System ι σ ρ} {kind : Guard σ ρ → Bool}
    (one : s.count kind = 1) {index other : ι} {guard guard' : Guard σ ρ}
    (live : guard ∈ (s.cpus index).guards) (isKind : kind guard = true)
    (live' : guard' ∈ (s.cpus other).guards) (isKind' : kind guard' = true) :
    other = index ∧ guard' = guard := by
  have here : 0 < (s.cpus index).guards.countP kind :=
    List.countP_pos_iff.mpr ⟨guard, live, isKind⟩
  have there : 0 < (s.cpus other).guards.countP kind :=
    List.countP_pos_iff.mpr ⟨guard', live', isKind'⟩
  have split := Finset.add_sum_erase Finset.univ (fun cpu => (s.cpus cpu).guards.countP kind)
    (Finset.mem_univ index)
  have total : ∑ cpu, (s.cpus cpu).guards.countP kind = 1 := one
  have same : other = index := by
    by_contra different
    have rest := Finset.single_le_sum (f := fun cpu => (s.cpus cpu).guards.countP kind)
      (fun _ _ => Nat.zero_le _)
      (Finset.mem_erase.mpr ⟨different, Finset.mem_univ other⟩)
    omega
  subst same
  refine ⟨rfl, ?_⟩
  have single : ((s.cpus other).guards.filter kind).length = 1 := by
    rw [← List.countP_eq_length_filter]
    omega
  obtain ⟨only, isOnly⟩ := List.length_eq_one_iff.mp single
  have first : guard ∈ (s.cpus other).guards.filter kind := List.mem_filter.mpr ⟨live, isKind⟩
  have second : guard' ∈ (s.cpus other).guards.filter kind :=
    List.mem_filter.mpr ⟨live', isKind'⟩
  rw [isOnly, List.mem_singleton] at first second
  rw [first, second]

variable [DecidableEq σ] [DecidableEq ρ]

/-- While a guard that may write is live, there is no other guard of its lock. -/
theorem Exclusive.alone {s : System ι σ ρ} (exclusive : Exclusive s) {index other : ι}
    {guard guard' : Guard σ ρ} (live : guard ∈ (s.cpus index).guards)
    (mayWrite : guard.target.exclusive = true) (live' : guard' ∈ (s.cpus other).guards)
    (sameLock : guard'.target.cell = guard.target.cell) : other = index ∧ guard' = guard := by
  cases targetEq : guard.target with
  | spin lock =>
      have isSpin : guard'.target = .spin lock := by
        rw [targetEq] at sameLock
        cases otherEq : guard'.target with
        | spin lock' =>
            rw [otherEq] at sameLock
            rw [Sum.inl.inj sameLock]
        | read lock' => rw [otherEq] at sameLock; cases sameLock
        | write lock' => rw [otherEq] at sameLock; cases sameLock
      have one := exclusive.spins lock
      rw [exclusive.locked live targetEq] at one
      exact System.unique_of_count one live (decide_eq_true targetEq) live'
        (decide_eq_true isSpin)
  | read lock =>
      rw [targetEq] at mayWrite
      cases mayWrite
  | write lock =>
      have writing : 0 < s.writers lock := System.count_pos live (decide_eq_true targetEq)
      rcases exclusive.rw.words lock with ⟨_, one, none⟩ | ⟨_, none, _⟩
      · have isWrite : guard'.target = .write lock := by
          rw [targetEq] at sameLock
          cases otherEq : guard'.target with
          | spin lock' => rw [otherEq] at sameLock; cases sameLock
          | read lock' =>
              rw [otherEq] at sameLock
              have reading : 0 < s.readers lock := System.count_pos live'
                (decide_eq_true (otherEq.trans (congrArg Target.read (Sum.inr.inj sameLock))))
              exact absurd none (Nat.ne_of_gt reading)
          | write lock' =>
              rw [otherEq] at sameLock
              rw [Sum.inr.inj sameLock]
        exact System.unique_of_count one live (decide_eq_true targetEq) live'
          (decide_eq_true isWrite)
      · exact absurd none (Nat.ne_of_gt writing)

end Alone

/-! ### Runs -/

section Runs

variable {ι σ ρ α : Type} [DecidableEq ι] [DecidableEq σ] [DecidableEq ρ]

theorem Cpu.holds_live {cpu : Cpu σ ρ} {guard : Guard σ ρ} (holds : cpu.holds guard = true) :
    guard ∈ cpu.guards := by
  unfold Cpu.holds at holds
  split at holds
  · exact List.mem_append_left _ (List.contains_iff_mem.mp holds)
  · cases holds

theorem see_eq_some {s : Guarded ι σ ρ α} {index other : ι} {guard guard' : Guard σ ρ}
    {value value' : α} (sees : s.see index guard value other guard' = some value') :
    (other = index ∧ guard' = guard ∧ value' = value) ∨
      (¬(other = index ∧ guard' = guard) ∧ s.views other guard' = some value') := by
  unfold Guarded.see at sees
  by_cases sameCpu : other = index
  · subst sameCpu
    rw [Function.update_self] at sees
    by_cases sameGuard : guard' = guard
    · subst sameGuard
      rw [Function.update_self] at sees
      exact Or.inl ⟨rfl, rfl, (Option.some.inj sees).symm⟩
    · rw [Function.update_of_ne sameGuard] at sees
      exact Or.inr ⟨fun both => sameGuard both.2, sees⟩
  · rw [Function.update_of_ne sameCpu] at sees
    exact Or.inr ⟨fun both => sameCpu both.1, sees⟩

variable [Fintype ι]

/-- What holds in every state: a holder sees the data as it is. -/
structure GuardedInv (initial : σ ⊕ ρ → α) (s : Guarded ι σ ρ α) : Prop where
  exclusive : Exclusive s.system
  current : ∀ index guard value, guard ∈ (s.system.cpus index).guards →
    s.views index guard = some value → value = s.data guard.target.cell
  logged : s.data = s.log.foldl atomically initial

theorem GuardedInv.step {initial : σ ⊕ ρ → α} {s s' : Guarded ι σ ρ α}
    (inv : GuardedInv initial s) {index : ι} {act : DataAct σ ρ α}
    (done : s.step index act = some s') : GuardedInv initial s' := by
  cases act with
  | locks act =>
      obtain ⟨system, stepped, rfl⟩ := Option.map_eq_some_iff.mp done
      refine ⟨inv.exclusive.step stepped, ?_, inv.logged⟩
      intro other guard value _live sees
      dsimp only at sees
      split at sees
      · rename_i wasLive
        exact inv.current other guard value (List.contains_iff_mem.mp wasLive) sees
      · cases sees
  | load guard =>
      simp only [Guarded.step] at done
      split at done
      · cases done
        refine ⟨inv.exclusive, ?_, inv.logged⟩
        intro other guard' value live sees
        rcases see_eq_some sees with ⟨_, rfl, rfl⟩ | ⟨_, before⟩
        · rfl
        · exact inv.current other guard' value live before
      · cases done
  | store guard change =>
      simp only [Guarded.step] at done
      split at done
      · rename_i allowed
        obtain ⟨value, sees, rfl⟩ := Option.map_eq_some_iff.mp done
        have live := Cpu.holds_live allowed.1
        have isCurrent := inv.current index guard value live sees
        refine ⟨inv.exclusive, ?_, ?_⟩
        · intro other guard' value' live' sees'
          rcases see_eq_some sees' with ⟨_, rfl, rfl⟩ | ⟨apart, before⟩
          · exact (Function.update_self _ (change value) s.data).symm
          · -- another guard of the same lock would be this one
            have otherLock : guard'.target.cell ≠ guard.target.cell := fun sameLock =>
              apart (inv.exclusive.alone live allowed.2 live' sameLock)
            rw [inv.current other guard' value' live' before]
            exact (Function.update_of_ne otherLock (change value) s.data).symm
        · rw [List.foldl_append, ← inv.logged, isCurrent]
          rfl
      · cases done

/-- No change is lost.  For any number of CPUs, any locks, any order of all accesses and
any order in which guards are dropped: the data behind the locks is what the changes give
when each is done at once, in the order in which they were written; and what a holder has
read through a live guard is still what is there. -/
theorem guarded_changes_are_atomic {interrupts : ι → Bool} {initial : σ ⊕ ρ → α}
    {s : Guarded ι σ ρ α} (reached : GuardedReachable (Guarded.start interrupts initial) s) :
    s.data = s.log.foldl atomically initial ∧
    ∀ index guard value, guard ∈ (s.system.cpus index).guards →
      s.views index guard = some value → value = s.data guard.target.cell := by
  have inv : GuardedInv initial s := by
    induction reached with
    | refl =>
        exact
          { exclusive := Exclusive.start interrupts
            current := fun _ _ _ _ sees => by cases sees
            logged := rfl }
    | tail _ step inductionHypothesis =>
        obtain ⟨index, act, done⟩ := step
        exact inductionHypothesis.step done
  exact ⟨inv.logged, inv.current⟩

/-- Two CPUs count up one number behind a spin lock. -/
theorem guarded_changes_are_atomic_two :
    ∃ s : Guarded Bool Unit Unit Nat,
      GuardedReachable (Guarded.start (fun _ => true) fun _ => 0) s ∧
      s.log.length = 2 ∧ s.data (.inl ()) = 2 := by
  have step {s s' : Guarded Bool Unit Unit Nat} (index : Bool) (act : DataAct Unit Unit Nat)
      (before : GuardedReachable (Guarded.start (fun _ => true) fun _ => 0) s)
      (done : s.step index act = some s') :
      GuardedReachable (Guarded.start (fun _ => true) fun _ => 0) s' :=
    before.tail ⟨index, act, done⟩
  let guard : Guard Unit Unit := { target := .spin (), prev := true }
  have called := step false (.locks (.lock (.spin ()))) .refl rfl
  have disabled := step false (.locks (.advance false)) called rfl
  have taken := step false (.locks (.advance false)) disabled rfl
  have stored := step false (.locks (.advance false)) taken rfl
  have read := step false (.load guard) stored rfl
  have other := step true (.locks (.lock (.spin ()))) read rfl
  have otherDisabled := step true (.locks (.advance false)) other rfl
  have refused := step true (.locks (.advance false)) otherDisabled rfl
  have written := step false (.store guard (· + 1)) refused rfl
  have unlocks := step false (.locks (.unlock guard)) written rfl
  have loaded := step false (.locks (.advance false)) unlocks rfl
  have released := step false (.locks (.advance false)) loaded rfl
  have again := step true (.locks (.advance false)) released rfl
  have disabledAgain := step true (.locks (.advance false)) again rfl
  have takenThen := step true (.locks (.advance false)) disabledAgain rfl
  have storedThen := step true (.locks (.advance false)) takenThen rfl
  have readThen := step true (.load guard) storedThen rfl
  have writtenThen := step true (.store guard (· + 1)) readThen rfl
  obtain ⟨logged, _⟩ := guarded_changes_are_atomic writtenThen
  exact ⟨_, writtenThen, rfl, congrFun logged (.inl ())⟩

end Runs

end NyauxKernel.Locks
