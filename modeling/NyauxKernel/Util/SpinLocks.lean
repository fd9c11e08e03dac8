/-
The spin locks of `util/mod.rs`, step by step.

A CPU runs the code of `SpinLock::lock`, `SpinLock::unlock`, `RWSpinLock::lock_read`,
`RWSpinLock::lock_write` and of the drops of their guards one access at a time: an access
to a lock, or a change of its interrupt flag.  While the flag is set an interrupt may come
in between, and its handler uses locks in the same way before it returns.
-/

import Mathlib.Logic.Function.Basic
import Mathlib.Logic.Relation

namespace NyauxKernel.Locks

/-- `SpinLock`: the lock, and the interrupt flag from before it was taken. -/
structure SpinLock where
  locked : Bool
  prev : Bool
deriving DecidableEq, Repr

def SpinLock.new : SpinLock := { locked := false, prev := false }

def u32Max : UInt32 := 0xFFFFFFFF

/-- All locks: the spin locks and the words of the reader-writer locks. -/
structure Shared (σ ρ : Type) where
  spins : σ → SpinLock
  words : ρ → UInt32

/-- What a call takes. -/
inductive Target (σ ρ : Type)
  | spin (lock : σ)
  | read (lock : ρ)
  | write (lock : ρ)
deriving DecidableEq

/-- A lock that is held, with the interrupt flag that the call found.  The guards of a
reader-writer lock carry the flag; for a spin lock it is remembered here only to say what
`unlock` should read. -/
structure Guard (σ ρ : Type) where
  target : Target σ ρ
  prev : Bool
deriving DecidableEq

/-- Where a CPU is in the code of the locks. -/
inductive Pc (σ ρ : Type)
  | idle
  | disable (target : Target σ ρ) (prev : Bool)
  | attempt (target : Target σ ρ) (prev : Bool)
  | exchange (lock : ρ) (prev : Bool) (old : UInt32)
  | pause (target : Target σ ρ) (prev : Bool)
  | store (lock : σ) (prev : Bool)
  | load (guard : Guard σ ρ) (lock : σ)
  | release (guard : Guard σ ρ) (prev : Bool)
  | restore (prev : Bool)

/-- An activity of a CPU: a program or the handler of an interrupt.  The held locks have
the last one first.  `outside` is the interrupt flag of the activity outside of locks. -/
structure Frame (σ ρ : Type) where
  pc : Pc σ ρ
  held : List (Guard σ ρ)
  outside : Bool

def Frame.new {σ ρ : Type} (outside : Bool) : Frame σ ρ :=
  { pc := .idle, held := [], outside := outside }

/-- A CPU, with the activities that were interrupted. -/
structure Cpu (σ ρ : Type) where
  interrupts : Bool
  frame : Frame σ ρ
  below : List (Frame σ ρ)

inductive Act (σ ρ : Type)
  | lock (target : Target σ ρ)
  | unlock (guard : Guard σ ρ)
  | advance (spurious : Bool)
  | interrupt
  | iret
  | setInterrupts (value : Bool)

section Steps

variable {σ ρ : Type}

/-- All live guards of the CPU. -/
def Cpu.guards (cpu : Cpu σ ρ) : List (Guard σ ρ) :=
  cpu.frame.held ++ cpu.below.flatMap Frame.held

def Cpu.goto (cpu : Cpu σ ρ) (pc : Pc σ ρ) : Cpu σ ρ :=
  { cpu with frame := { cpu.frame with pc := pc } }

/-- The lock is taken: the guard is live from here on. -/
def Cpu.take (cpu : Cpu σ ρ) (guard : Guard σ ρ) (pc : Pc σ ρ) : Cpu σ ρ :=
  { cpu with frame := { cpu.frame with pc := pc, held := guard :: cpu.frame.held } }

/-- `if prev { Processor::enable_interrupts() }`. -/
def Cpu.enableIf (cpu : Cpu σ ρ) (prev : Bool) : Cpu σ ρ :=
  { cpu with interrupts := if prev then true else cpu.interrupts }

/-- `unlock` begins with a load of the saved flag; a guard has it at hand. -/
def Guard.dropPc (guard : Guard σ ρ) : Pc σ ρ :=
  match guard.target with
  | .spin lock => .load guard lock
  | .read _ | .write _ => .release guard guard.prev

variable [DecidableEq σ] [DecidableEq ρ]

def Shared.setSpin (shared : Shared σ ρ) (lock : σ) (value : SpinLock) : Shared σ ρ :=
  { shared with spins := Function.update shared.spins lock value }

def Shared.setWord (shared : Shared σ ρ) (lock : ρ) (value : UInt32) : Shared σ ρ :=
  { shared with words := Function.update shared.words lock value }

/-- The store or the `fetch_sub` that gives a lock back. -/
def Shared.release (shared : Shared σ ρ) : Target σ ρ → Shared σ ρ
  | .spin lock => shared.setSpin lock { shared.spins lock with locked := false }
  | .read lock => shared.setWord lock (shared.words lock - 1)
  | .write lock => shared.setWord lock 0

/-- The lock is given back, and its guard is gone. -/
def Cpu.drop (cpu : Cpu σ ρ) (guard : Guard σ ρ) (pc : Pc σ ρ) : Cpu σ ρ :=
  { cpu with frame := { cpu.frame with pc := pc, held := cpu.frame.held.erase guard } }

/-- The next access of the code that the CPU is in.  A weak compare-exchange may fail for
no reason. -/
def Cpu.advance (cpu : Cpu σ ρ) (shared : Shared σ ρ) (spurious : Bool) :
    Option (Shared σ ρ × Cpu σ ρ) :=
  match cpu.frame.pc with
  | .idle => none
  | .disable target prev =>
      some (shared, { cpu.goto (.attempt target prev) with interrupts := false })
  | .attempt (.spin lock) prev =>
      -- swap(true)
      if (shared.spins lock).locked then some (shared, cpu.goto (.pause (.spin lock) prev))
      else some (shared.setSpin lock { shared.spins lock with locked := true },
        cpu.take { target := .spin lock, prev := prev } (.store lock prev))
  | .attempt (.read lock) prev =>
      let old := shared.words lock
      if old ≥ u32Max - 1 then some (shared, cpu.goto (.pause (.read lock) prev))
      else some (shared, cpu.goto (.exchange lock prev old))
  | .attempt (.write lock) prev =>
      if spurious = false ∧ shared.words lock = 0 then
        some (shared.setWord lock u32Max, cpu.take { target := .write lock, prev := prev } .idle)
      else some (shared, cpu.goto (.pause (.write lock) prev))
  | .exchange lock prev old =>
      if spurious = false ∧ shared.words lock = old then
        some (shared.setWord lock (old + 1), cpu.take { target := .read lock, prev := prev } .idle)
      else some (shared, cpu.goto (.pause (.read lock) prev))
  | .pause target prev => some (shared, (cpu.enableIf prev).goto (.disable target prev))
  | .store lock prev =>
      some (shared.setSpin lock { shared.spins lock with prev := prev }, cpu.goto .idle)
  | .load guard lock => some (shared, cpu.goto (.release guard (shared.spins lock).prev))
  | .release guard prev => some (shared.release guard.target, cpu.drop guard (.restore prev))
  | .restore prev => some (shared, (cpu.enableIf prev).goto .idle)

/-- One action of a CPU.  It calls the locks, and sets its flag itself, only outside of
their code; it sets its flag only without a lock. -/
def Cpu.act (cpu : Cpu σ ρ) (shared : Shared σ ρ) : Act σ ρ → Option (Shared σ ρ × Cpu σ ρ)
  | .lock target =>
      match cpu.frame.pc with
      | .idle => some (shared, cpu.goto (.disable target cpu.interrupts))
      | _ => none
  | .unlock guard =>
      match cpu.frame.pc with
      | .idle => if guard ∈ cpu.frame.held then some (shared, cpu.goto guard.dropPc) else none
      | _ => none
  | .advance spurious => cpu.advance shared spurious
  | .interrupt =>
      if cpu.interrupts then
        some (shared,
          { interrupts := false, frame := Frame.new false, below := cpu.frame :: cpu.below })
      else none
  | .iret =>
      match cpu.frame.pc, cpu.frame.held, cpu.below with
      | .idle, [], frame :: below =>
          some (shared, { interrupts := true, frame := frame, below := below })
      | _, _, _ => none
  | .setInterrupts value =>
      match cpu.frame.pc, cpu.frame.held with
      | .idle, [] =>
          some (shared,
            { cpu with interrupts := value, frame := { cpu.frame with outside := value } })
      | _, _ => none

/-! ### What an action can do -/

/-- The CPU is at an access that takes the lock or has to be tried again. -/
def Frame.Trying (frame : Frame σ ρ) (target : Target σ ρ) (prev : Bool) : Prop :=
  frame.pc = .attempt target prev ∨
    ∃ lock old, target = .read lock ∧ frame.pc = .exchange lock prev old

/-- The accesses that may fail for no reason. -/
def Pc.Weak : Pc σ ρ → Prop
  | .attempt (.write _) _ => True
  | .exchange _ _ _ => True
  | _ => False

/-- Why an access does not take the lock. -/
inductive Refused (shared : Shared σ ρ) (spurious : Bool) : Target σ ρ → Pc σ ρ → Prop
  | taken {lock : σ} {prev : Bool} (locked : (shared.spins lock).locked = true) :
      Refused shared spurious (.spin lock) (.attempt (.spin lock) prev)
  | full {lock : ρ} {prev : Bool} (high : shared.words lock ≥ u32Max - 1) :
      Refused shared spurious (.read lock) (.attempt (.read lock) prev)
  | inUse {lock : ρ} {prev : Bool} (nonzero : shared.words lock ≠ 0) :
      Refused shared spurious (.write lock) (.attempt (.write lock) prev)
  | changed {lock : ρ} {prev : Bool} {old : UInt32} (differs : shared.words lock ≠ old) :
      Refused shared spurious (.read lock) (.exchange lock prev old)
  | weak {target : Target σ ρ} {pc : Pc σ ρ} (mayFail : pc.Weak) (fails : spurious = true) :
      Refused shared spurious target pc

/-- The moves of a CPU, one for each access. -/
inductive Moved (cpu : Cpu σ ρ) (shared : Shared σ ρ) :
    Act σ ρ → Shared σ ρ → Cpu σ ρ → Prop
  | lock (target : Target σ ρ) (idle : cpu.frame.pc = .idle) :
      Moved cpu shared (.lock target) shared (cpu.goto (.disable target cpu.interrupts))
  | unlock (guard : Guard σ ρ) (idle : cpu.frame.pc = .idle) (live : guard ∈ cpu.frame.held) :
      Moved cpu shared (.unlock guard) shared (cpu.goto guard.dropPc)
  | disable {target : Target σ ρ} {prev spurious : Bool}
      (here : cpu.frame.pc = .disable target prev) :
      Moved cpu shared (.advance spurious) shared
        { cpu.goto (.attempt target prev) with interrupts := false }
  | retry {target : Target σ ρ} {prev spurious : Bool} (trying : cpu.frame.Trying target prev)
      (refused : Refused shared spurious target cpu.frame.pc) :
      Moved cpu shared (.advance spurious) shared (cpu.goto (.pause target prev))
  | takeSpin {lock : σ} {prev spurious : Bool} (here : cpu.frame.pc = .attempt (.spin lock) prev)
      (free : (shared.spins lock).locked = false) :
      Moved cpu shared (.advance spurious)
        (shared.setSpin lock { shared.spins lock with locked := true })
        (cpu.take { target := .spin lock, prev := prev } (.store lock prev))
  | see {lock : ρ} {prev spurious : Bool} (here : cpu.frame.pc = .attempt (.read lock) prev)
      (small : shared.words lock < u32Max - 1) :
      Moved cpu shared (.advance spurious) shared
        (cpu.goto (.exchange lock prev (shared.words lock)))
  | takeRead {lock : ρ} {prev spurious : Bool}
      (here : cpu.frame.pc = .exchange lock prev (shared.words lock)) :
      Moved cpu shared (.advance spurious) (shared.setWord lock (shared.words lock + 1))
        (cpu.take { target := .read lock, prev := prev } .idle)
  | takeWrite {lock : ρ} {prev spurious : Bool}
      (here : cpu.frame.pc = .attempt (.write lock) prev) (free : shared.words lock = 0) :
      Moved cpu shared (.advance spurious) (shared.setWord lock u32Max)
        (cpu.take { target := .write lock, prev := prev } .idle)
  | pause {target : Target σ ρ} {prev spurious : Bool}
      (here : cpu.frame.pc = .pause target prev) :
      Moved cpu shared (.advance spurious) shared
        ((cpu.enableIf prev).goto (.disable target prev))
  | store {lock : σ} {prev spurious : Bool} (here : cpu.frame.pc = .store lock prev) :
      Moved cpu shared (.advance spurious)
        (shared.setSpin lock { shared.spins lock with prev := prev }) (cpu.goto .idle)
  | load {guard : Guard σ ρ} {lock : σ} {spurious : Bool}
      (here : cpu.frame.pc = .load guard lock) :
      Moved cpu shared (.advance spurious) shared
        (cpu.goto (.release guard (shared.spins lock).prev))
  | release {guard : Guard σ ρ} {prev spurious : Bool}
      (here : cpu.frame.pc = .release guard prev) :
      Moved cpu shared (.advance spurious) (shared.release guard.target)
        (cpu.drop guard (.restore prev))
  | restore {prev spurious : Bool} (here : cpu.frame.pc = .restore prev) :
      Moved cpu shared (.advance spurious) shared ((cpu.enableIf prev).goto .idle)
  | interrupt (enabled : cpu.interrupts = true) :
      Moved cpu shared .interrupt shared
        { interrupts := false, frame := Frame.new false, below := cpu.frame :: cpu.below }
  | iret {frame : Frame σ ρ} {below : List (Frame σ ρ)} (idle : cpu.frame.pc = .idle)
      (none : cpu.frame.held = []) (interrupted : cpu.below = frame :: below) :
      Moved cpu shared .iret shared { interrupts := true, frame := frame, below := below }
  | setInterrupts (value : Bool) (idle : cpu.frame.pc = .idle) (none : cpu.frame.held = []) :
      Moved cpu shared (.setInterrupts value) shared
        { cpu with interrupts := value, frame := { cpu.frame with outside := value } }

theorem refused_weak {spurious : Bool} {word expected : UInt32}
    (failed : ¬(spurious = false ∧ word = expected)) : spurious = true ∨ word ≠ expected := by
  cases spurious with
  | true => exact Or.inl rfl
  | false => exact Or.inr fun same => failed ⟨rfl, same⟩

theorem Cpu.advance_moved {cpu cpu' : Cpu σ ρ} {shared shared' : Shared σ ρ} {spurious : Bool}
    (done : cpu.advance shared spurious = some (shared', cpu')) :
    Moved cpu shared (.advance spurious) shared' cpu' := by
  unfold Cpu.advance at done
  split at done
  case h_1 => cases done
  case h_2 here =>
      cases done
      exact .disable here
  case h_3 here =>
      split at done
      · rename_i locked
        cases done
        exact .retry (Or.inl here) (here ▸ .taken locked)
      · rename_i free
        cases done
        exact .takeSpin here (Bool.not_eq_true _ ▸ free)
  case h_4 here =>
      dsimp only at done
      split at done
      · rename_i high
        cases done
        exact .retry (Or.inl here) (here ▸ .full high)
      · rename_i small
        cases done
        exact .see here (UInt32.not_le.mp small)
  case h_5 here =>
      split at done
      · rename_i free
        cases done
        exact .takeWrite here free.2
      · rename_i failed
        cases done
        refine .retry (Or.inl here) (here ▸ ?_)
        rcases refused_weak failed with fails | nonzero
        · exact .weak trivial fails
        · exact .inUse nonzero
  case h_6 lock prev old here =>
      split at done
      · rename_i matched
        cases done
        obtain ⟨_, rfl⟩ := matched
        exact .takeRead here
      · rename_i failed
        cases done
        refine .retry (Or.inr ⟨lock, old, rfl, here⟩) (here ▸ ?_)
        rcases refused_weak failed with fails | differs
        · exact .weak trivial fails
        · exact .changed differs
  case h_7 here =>
      cases done
      exact .pause here
  case h_8 here =>
      cases done
      exact .store here
  case h_9 here =>
      cases done
      exact .load here
  case h_10 here =>
      cases done
      exact .release here
  case h_11 here =>
      cases done
      exact .restore here

theorem Cpu.act_moved {cpu cpu' : Cpu σ ρ} {shared shared' : Shared σ ρ} {act : Act σ ρ}
    (done : cpu.act shared act = some (shared', cpu')) : Moved cpu shared act shared' cpu' := by
  cases act with
  | lock target =>
      simp only [Cpu.act] at done
      split at done
      · rename_i idle
        cases done
        exact .lock target idle
      · cases done
  | unlock guard =>
      simp only [Cpu.act] at done
      split at done
      · rename_i idle
        split at done
        · rename_i live
          cases done
          exact .unlock guard idle live
        · cases done
      · cases done
  | advance spurious => exact Cpu.advance_moved done
  | interrupt =>
      simp only [Cpu.act] at done
      split at done
      · rename_i enabled
        cases done
        exact .interrupt enabled
      · cases done
  | iret =>
      simp only [Cpu.act] at done
      split at done
      · rename_i idle none interrupted
        cases done
        exact .iret idle none interrupted
      · cases done
  | setInterrupts value =>
      simp only [Cpu.act] at done
      split at done
      · rename_i idle none
        cases done
        exact .setInterrupts value idle none
      · cases done

end Steps

structure System (ι σ ρ : Type) where
  shared : Shared σ ρ
  cpus : ι → Cpu σ ρ

section Systems

variable {ι σ ρ : Type}

/-- New locks, and each CPU with its own interrupt flag. -/
def System.start (interrupts : ι → Bool) : System ι σ ρ :=
  { shared := { spins := fun _ => SpinLock.new, words := fun _ => 0 }
    cpus := fun index =>
      { interrupts := interrupts index, frame := Frame.new (interrupts index), below := [] } }

variable [DecidableEq ι] [DecidableEq σ] [DecidableEq ρ]

def System.step (s : System ι σ ρ) (index : ι) (act : Act σ ρ) : Option (System ι σ ρ) :=
  ((s.cpus index).act s.shared act).map fun (shared, cpu) =>
    { shared := shared, cpus := Function.update s.cpus index cpu }

theorem System.step_moved {s s' : System ι σ ρ} {index : ι} {act : Act σ ρ}
    (done : s.step index act = some s') :
    ∃ shared cpu, Moved (s.cpus index) s.shared act shared cpu ∧
      s' = { shared := shared, cpus := Function.update s.cpus index cpu } := by
  obtain ⟨⟨shared, cpu⟩, acted, rfl⟩ := Option.map_eq_some_iff.mp done
  exact ⟨shared, cpu, Cpu.act_moved acted, rfl⟩

/-- The states that allowed actions of the CPUs lead to, in any order. -/
def Reachable (allowed : System ι σ ρ → ι → Act σ ρ → Prop) (start : System ι σ ρ) :
    System ι σ ρ → Prop :=
  Relation.ReflTransGen
    (fun s s' => ∃ index act, allowed s index act ∧ s.step index act = some s') start

end Systems

end NyauxKernel.Locks
