/-
Holders of locks.

A spin lock is taken exactly while one guard of it is live, in whatever order guards are
dropped.  With nested locks the guard that others wait for is always one of an activity that
runs, with interrupts off: nobody waits for a lock of an interrupted activity.
-/

import NyauxKernel.Util.InterruptState
import NyauxKernel.Util.RwExclusion
import Mathlib.Algebra.Order.BigOperators.Group.Finset

namespace NyauxKernel.Locks

section Spins

variable {σ ρ : Type} [DecidableEq σ]

theorem Shared.setSpin_locked (shared : Shared σ ρ) (changed lock : σ) (spin : SpinLock) :
    ((shared.setSpin changed spin).spins lock).locked =
      if changed = lock then spin.locked else (shared.spins lock).locked := by
  by_cases same : changed = lock
  · rw [if_pos same, ← same]
    exact congrArg SpinLock.locked (Function.update_self _ _ _)
  · rw [if_neg same]
    exact congrArg SpinLock.locked (Function.update_of_ne (Ne.symm same) _ _)

variable [DecidableEq ρ]

/-- The guards of a spin lock. -/
def ofSpin (lock : σ) (guard : Guard σ ρ) : Bool := guard.target = .spin lock

theorem Shared.release_locked (shared : Shared σ ρ) (target : Target σ ρ) (lock : σ) :
    ((shared.release target).spins lock).locked =
      if target = .spin lock then false else (shared.spins lock).locked := by
  cases target with
  | spin dropped =>
      rw [Shared.release, Shared.setSpin_locked]
      simp
  | read dropped => rfl
  | write dropped => rfl

/-- A spin lock is taken and given back together with a guard of it. -/
theorem Moved.spin_balance {cpu cpu' : Cpu σ ρ} {shared shared' : Shared σ ρ} {act : Act σ ρ}
    (moved : Moved cpu shared act shared' cpu') (safe : cpu.Safe) (lock : σ)
    (held : ∀ guard ∈ cpu.guards, guard.target = .spin lock → (shared.spins lock).locked = true) :
    cpu'.guards.countP (ofSpin lock) + (shared.spins lock).locked.toNat =
      cpu.guards.countP (ofSpin lock) + (shared'.spins lock).locked.toNat := by
  have taken : ∀ (guard : Guard σ ρ) (pc : Pc σ ρ), (cpu.take guard pc).guards.countP (ofSpin lock) =
      cpu.guards.countP (ofSpin lock) + if ofSpin lock guard then 1 else 0 :=
    fun _ _ => List.countP_cons
  cases moved with
  | lock target idle => rfl
  | unlock guard idle live => rfl
  | disable here => rfl
  | retry trying => rfl
  | @takeSpin free prev spurious here isFree =>
      rw [taken, Shared.setSpin_locked]
      by_cases same : free = lock
      · subst same
        simp [isFree, ofSpin]
      · simp [ofSpin, same]
  | see here small => rfl
  | takeRead here =>
      rw [taken]
      simp [Shared.setWord, ofSpin]
  | takeWrite here free =>
      rw [taken]
      simp [Shared.setWord, ofSpin]
  | pause here => rfl
  | @store stored prev spurious here =>
      rw [Shared.setSpin_locked]
      by_cases same : stored = lock
      · subst same
        simp [Cpu.guards, Cpu.goto]
      · simp [Cpu.guards, Cpu.goto, same]
  | load here => rfl
  | @release guard prev spurious here =>
      have live := safe.frame
      unfold Frame.Safe at live
      rw [here] at live
      have erased : (cpu.drop guard (.restore prev)).guards = cpu.guards.erase guard :=
        (List.erase_append_left _ live).symm
      have inGuards : guard ∈ cpu.guards := List.mem_append_left _ live
      have counts := countP_erase_add inGuards (ofSpin lock)
      rw [erased, Shared.release_locked, ← counts]
      by_cases isSpin : guard.target = .spin lock
      · simp [ofSpin, isSpin, held guard inGuards isSpin]
      · simp [ofSpin, isSpin]
  | restore here => rfl
  | interrupt enabled => rfl
  | @iret frame below idle none interrupted =>
      have same : cpu.guards = frame.held ++ below.flatMap Frame.held := by
        rw [Cpu.guards, none, interrupted, List.nil_append, List.flatMap_cons]
      rw [same]
      rfl
  | setInterrupts value idle none => rfl

end Spins

section Runs

variable {ι σ ρ : Type} [Fintype ι]

variable {s : System ι σ ρ} {kind : Guard σ ρ → Bool}

theorem System.count_pos {index : ι} {guard : Guard σ ρ} (live : guard ∈ (s.cpus index).guards)
    (isKind : kind guard = true) : 0 < s.count kind := by
  have here : 0 < (s.cpus index).guards.countP kind := List.countP_pos_iff.mpr ⟨guard, live, isKind⟩
  exact Nat.lt_of_lt_of_le here
    (Finset.single_le_sum (f := fun other => (s.cpus other).guards.countP kind)
      (fun _ _ => Nat.zero_le _) (Finset.mem_univ index))

theorem System.exists_of_count_pos (positive : 0 < s.count kind) :
    ∃ index, ∃ guard ∈ (s.cpus index).guards, kind guard = true := by
  obtain ⟨index, _, some⟩ := Finset.exists_ne_zero_of_sum_ne_zero (Nat.ne_of_gt positive)
  obtain ⟨guard, live, isKind⟩ := List.countP_pos_iff.mp (Nat.pos_of_ne_zero some)
  exact ⟨index, guard, live, isKind⟩

variable [DecidableEq σ] [DecidableEq ρ]

/-- What holds of locks in any run: a spin lock is taken while it has a guard, and has one
at most. -/
structure Exclusive (s : System ι σ ρ) : Prop where
  rw : RwInv s
  spins : ∀ lock, s.count (ofSpin lock) = (s.shared.spins lock).locked.toNat

namespace Exclusive

variable {s' : System ι σ ρ}

theorem start (interrupts : ι → Bool) : Exclusive (System.start interrupts : System ι σ ρ) where
  rw := RwInv.start interrupts
  spins := fun _ => Finset.sum_const_zero

theorem locked (exclusive : Exclusive s) {index : ι} {guard : Guard σ ρ} {lock : σ}
    (live : guard ∈ (s.cpus index).guards) (isSpin : guard.target = .spin lock) :
    (s.shared.spins lock).locked = true := by
  have isKind : ofSpin lock guard = true := decide_eq_true isSpin
  have positive := System.count_pos live isKind
  have count := exclusive.spins lock
  cases flag : (s.shared.spins lock).locked with
  | true => rfl
  | false =>
      rw [flag] at count
      exact absurd count (Nat.ne_of_gt positive)

variable [DecidableEq ι]

theorem step (exclusive : Exclusive s) {index : ι} {act : Act σ ρ}
    (done : s.step index act = some s') : Exclusive s' := by
  refine ⟨exclusive.rw.step done, ?_⟩
  obtain ⟨shared, cpu, moved, rfl⟩ := System.step_moved done
  intro lock
  have balance := moved.spin_balance (exclusive.rw.safe index) lock
    (fun guard live isSpin => exclusive.locked live isSpin)
  have counts := count_update s shared index cpu (ofSpin lock)
  have before := exclusive.spins lock
  change System.count _ _ = (shared.spins lock).locked.toNat
  omega

theorem reachable {allowed : System ι σ ρ → ι → Act σ ρ → Prop} {interrupts : ι → Bool}
    (reached : Reachable allowed (System.start interrupts) s) : Exclusive s := by
  induction reached with
  | refl => exact start interrupts
  | tail _ step inductionHypothesis =>
      obtain ⟨index, act, _, done⟩ := step
      exact inductionHypothesis.step done

end Exclusive

/-! ### Whom a CPU waits for -/

/-- The lock that a call takes. -/
def Target.cell {σ ρ : Type} : Target σ ρ → σ ⊕ ρ
  | .spin lock => .inl lock
  | .read lock => .inr lock
  | .write lock => .inr lock

/-- A CPU that begins to wait was refused a lock. -/
theorem Moved.refused {cpu cpu' : Cpu σ ρ} {shared shared' : Shared σ ρ} {spurious : Bool}
    (moved : Moved cpu shared (.advance spurious) shared' cpu') {target : Target σ ρ} {prev : Bool}
    (waits : cpu'.frame.pc = .pause target prev) :
    Refused shared spurious target cpu.frame.pc := by
  cases moved with
  | retry trying refused =>
      cases waits
      exact refused
  | disable here => cases waits
  | takeSpin here free => cases waits
  | see here small => cases waits
  | takeRead here => cases waits
  | takeWrite here free => cases waits
  | pause here => cases waits
  | store here => cases waits
  | load here => cases waits
  | release here => cases waits
  | restore here => cases waits

/-- A spin lock that is taken has a live guard. -/
theorem Exclusive.guarded_spin (exclusive : Exclusive s) {lock : σ}
    (locked : (s.shared.spins lock).locked = true) :
    ∃ holder, ∃ guard ∈ (s.cpus holder).guards, guard.target.cell = .inl lock := by
  have count := exclusive.spins lock
  rw [locked] at count
  obtain ⟨holder, guard, live, isSpin⟩ := System.exists_of_count_pos
    (Nat.lt_of_lt_of_eq Nat.one_pos count.symm)
  exact ⟨holder, guard, live, by rw [of_decide_eq_true isSpin]; rfl⟩

/-- A word that is not zero has a writer or a reader. -/
theorem Exclusive.guarded_word (exclusive : Exclusive s) {lock : ρ}
    (nonzero : s.shared.words lock ≠ 0) :
    ∃ holder, ∃ guard ∈ (s.cpus holder).guards, guard.target.cell = .inr lock := by
  rcases exclusive.rw.words lock with ⟨_, one, _⟩ | ⟨readers, _, _⟩
  · obtain ⟨holder, guard, live, isWrite⟩ := System.exists_of_count_pos
      (Nat.lt_of_lt_of_eq Nat.one_pos one.symm)
    exact ⟨holder, guard, live, by rw [of_decide_eq_true isWrite]; rfl⟩
  · have positive : 0 < s.readers lock := by
      rw [← readers]
      exact Nat.pos_of_ne_zero fun zero => nonzero (UInt32.toNat_inj.mp zero)
    obtain ⟨holder, guard, live, isRead⟩ := System.exists_of_count_pos positive
    exact ⟨holder, guard, live, by rw [of_decide_eq_true isRead]; rfl⟩

variable [DecidableEq ι]

/-- A CPU waits for activities that run.  With any number of CPUs, any order of their
accesses, interrupts at any point and nested locks: no activity that was interrupted holds a
lock; and when a CPU begins to wait, then because of a live guard of that lock, whose holder is
the running activity of some CPU with interrupts off, because the word has changed since
`lock_read` loaded it, or because a weak compare-exchange failed for no reason. -/
theorem waits_for_running_holder {interrupts : ι → Bool} {s : System ι σ ρ}
    (reached : Reachable Nested (System.start interrupts) s) :
    (∀ index, ∀ frame ∈ (s.cpus index).below, frame.held = []) ∧
    ∀ index spurious target prev s', s.step index (.advance spurious) = some s' →
      (s'.cpus index).frame.pc = .pause target prev →
      (∃ holder, ∃ guard ∈ (s.cpus holder).frame.held,
        guard.target.cell = target.cell ∧ (s.cpus holder).interrupts = false) ∨
      (∃ lock prev old, target = .read lock ∧
        (s.cpus index).frame.pc = .exchange lock prev old ∧ s.shared.words lock ≠ old) ∨
      (s.cpus index).frame.pc.Weak ∧ spurious = true := by
  have inv := LockInv.reachable reached
  have exclusive := Exclusive.reachable reached
  -- a live guard is one of an activity that runs
  have running {cell : σ ⊕ ρ}
      (guarded : ∃ holder, ∃ guard ∈ (s.cpus holder).guards, guard.target.cell = cell) :
      ∃ holder, ∃ guard ∈ (s.cpus holder).frame.held,
        guard.target.cell = cell ∧ (s.cpus holder).interrupts = false := by
    obtain ⟨holder, guard, live, sameLock⟩ := guarded
    have ok := inv.cpus holder
    rcases List.mem_append.mp live with here | below
    · exact ⟨holder, guard, here, sameLock, ok.interrupts_eq_false (List.ne_nil_of_mem here)⟩
    · obtain ⟨frame, member, inFrame⟩ := List.mem_flatMap.mp below
      rw [(ok.below frame member).1] at inFrame
      exact absurd inFrame List.not_mem_nil
  constructor
  · exact fun index frame member => ((inv.cpus index).below frame member).1
  · intro index spurious target prev s' done waits
    obtain ⟨shared, cpu, moved, rfl⟩ := System.step_moved done
    change (Function.update s.cpus index cpu index).frame.pc = _ at waits
    rw [Function.update_self] at waits
    have refused := moved.refused waits
    generalize atPc : (s.cpus index).frame.pc = pc at refused
    cases refused with
    | taken locked => exact Or.inl (running (exclusive.guarded_spin locked))
    | @full lock _ high =>
        have nonzero : s.shared.words lock ≠ 0 := by
          intro zero
          rw [zero] at high
          exact absurd high (by decide)
        exact Or.inl (running (exclusive.guarded_word nonzero))
    | inUse nonzero => exact Or.inl (running (exclusive.guarded_word nonzero))
    | changed differs => exact Or.inr (Or.inl ⟨_, _, _, rfl, rfl, differs⟩)
    | weak mayFail fails => exact Or.inr (Or.inr ⟨mayFail, fails⟩)

/-- Two CPUs: one holds a reader-writer lock for writing, and the other one waits to read. -/
theorem waits_for_running_holder_two :
    ∃ s s' : System Bool Unit Unit,
      Reachable Nested (System.start fun _ => true) s ∧
      s.step true (.advance false) = some s' ∧
      (s'.cpus true).frame.pc = .pause (.read ()) true ∧
      ∃ holder, ∃ guard ∈ (s.cpus holder).frame.held,
        guard.target.cell = .inr () ∧ (s.cpus holder).interrupts = false := by
  have step {s s' : System Bool Unit Unit} (index : Bool) (act : Act Unit Unit)
      (before : Reachable Nested (System.start fun _ => true) s)
      (calls : ∀ guard, act ≠ .unlock guard) (done : s.step index act = some s') :
      Reachable Nested (System.start fun _ => true) s' :=
    before.tail ⟨index, act, fun guard same => absurd same (calls guard), done⟩
  have called := step false (.lock (.write ())) .refl nofun rfl
  have disabled := step false (.advance false) called nofun rfl
  have taken := step false (.advance false) disabled nofun rfl
  have other := step true (.lock (.read ())) taken nofun rfl
  have tries := step true (.advance false) other nofun rfl
  obtain ⟨_, waits⟩ := waits_for_running_holder tries
  rcases waits true false (.read ()) true _ rfl rfl with holds | ⟨_, _, _, _, here, _⟩ | weak
  · exact ⟨_, _, tries, rfl, rfl, holds⟩
  · cases here
  · exact absurd weak.2 Bool.false_ne_true

end Runs

end NyauxKernel.Locks
