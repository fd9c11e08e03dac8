/-
Threads on the processor: the timer's interrupt from the stub through `idt_handler` and
`sched_yield` back to a thread.

Between interrupts the current thread may do anything to the registers and to memory.  The
contexts that the scheduler switches are the words that the stub has pushed, so a thread
goes on with the registers that it had when it was interrupted.
-/

import NyauxKernel.Scheduler.Contexts
import NyauxKernel.X86.Interrupts

namespace NyauxKernel.Scheduler

open NyauxKernel.Lists X86

/-! ### The handler -/

inductive HandlerPanic
  | pageFault
  | unhandled (vector : UInt64)
  | sched (panic : SchedPanic)
deriving DecidableEq, Repr

section Handler

variable {T : Type} [DecidableEq T] [HasListNode T]

/-- `idt_handler`; `preempt` is what `can_prempt` reads. -/
def idtHandler (preempt : Bool) (s : Sched T) (frame : X8664Context) :
    Except HandlerPanic (Sched T × X8664Context) :=
  if frame.int = 0xe then .error .pageFault
  else if frame.int = 0xff then .ok (s, frame)
  else if frame.int = 0x21 then
    if preempt then (s.schedYield frame).mapError .sched else .ok (s, frame)
  else .error (.unhandled frame.int)

theorem idtHandler_timer (s : Sched T) {frame : X8664Context} (timer : frame.int = 0x21) :
    idtHandler true s frame = (s.schedYield frame).mapError .sched := by
  rw [idtHandler, timer]
  rfl

/-- For other vectors than those of `idtHandlerReturns` the handler does not come back. -/
theorem idtHandlerReturns_of_ok {preempt : Bool} {s s' : Sched T} {frame frame' : X8664Context}
    {vector : UInt8} (int : frame.int = vector.toUInt64)
    (done : idtHandler preempt s frame = .ok (s', frame')) : idtHandlerReturns vector = true := by
  rw [idtHandler, int] at done
  rw [idtHandlerReturns, Bool.or_eq_true, beq_iff_eq, beq_iff_eq]
  split at done
  · cases done
  · split at done
    case isTrue spurious => exact Or.inl (UInt8.toUInt64_inj.mp spurious)
    case isFalse =>
      split at done
      case isTrue timer => exact Or.inr (UInt8.toUInt64_inj.mp timer)
      case isFalse => cases done

end Handler

/-! ### Runs -/

/-- A processor and its scheduler. -/
structure ThreadedCpu (T : Type) where
  cpu : Cpu
  sched : Sched T

/-- The registers are those of the context. -/
def Loaded (cpu : Cpu) (frame : X8664Context) : Prop :=
  cpu.context frame.int frame.error = frame

variable {T : Type} [DecidableEq T] [HasListNode T]

/-- The timer interrupts the processor, and its handler comes back with this frame. -/
structure Tick (stub : UInt8 → UInt64) (tss : Tss) (m : ThreadedCpu T) (frame : X8664Context)
    (m' : ThreadedCpu T) : Prop where
  enabled : m.cpu.rflags &&& interruptFlag ≠ 0
  handled : ∃ handled : Cpu, Returned (m.cpu.enter stub tss 0x21 0) handled ∧
    frameAt handled.words handled.rsp = frame ∧ m'.cpu = handled.leave
  yielded : idtHandler true m.sched
    (frameAt (m.cpu.enter stub tss 0x21 0).words (m.cpu.enter stub tss 0x21 0).rsp) =
      .ok (m'.sched, frame)

/-- The runs of the threads of a processor, with what the scheduler has done. -/
inductive ThreadRun (stub : UInt8 → UInt64) (entry stack : T → UInt64) (start : ThreadedCpu T) :
    List (SchedEvent T) → ThreadedCpu T → Prop
  | nil : ThreadRun stub entry stack start [] start
  | code {events : List (SchedEvent T)} {m : ThreadedCpu T}
      (before : ThreadRun stub entry stack start events m) (cpu : Cpu) :
      ThreadRun stub entry stack start events { m with cpu := cpu }
  | spawn {events : List (SchedEvent T)} {m : ThreadedCpu T} {s : Sched T} {thr : T}
      {timeslice : UInt64} (before : ThreadRun stub entry stack start events m)
      (new : ∀ queue, m.sched.cpu.runQueue.inner.iter m.sched.heap.nodes = some queue →
        thr ∉ m.sched.cpu.members queue)
      (done : m.sched.spawn thr (stack thr) (entry thr) timeslice = .ok s) :
      ThreadRun stub entry stack start (events ++ [.made thr]) { m with sched := s }
  | tick {events : List (SchedEvent T)} {m m' : ThreadedCpu T} {tss : Tss} {frame : X8664Context}
      {next : T} (before : ThreadRun stub entry stack start events m)
      (tick : Tick stub tss m frame m') (current : m'.sched.cpu.curThread = some next) :
      ThreadRun stub entry stack start
        (events ++ [.switch m.sched.cpu.curThread (m.cpu.context 0x21 0) next frame]) m'

section Ticks

variable {stub : UInt8 → UInt64} {tss : Tss} {m m' : ThreadedCpu T} {frame : X8664Context}

/-- The scheduler is given the registers of the interrupted thread. -/
theorem timer_frame (cpu : Cpu) (stub : UInt8 → UInt64) (tss : Tss) :
    frameAt (cpu.enter stub tss 0x21 0).words (cpu.enter stub tss 0x21 0).rsp =
      cpu.context 0x21 0 :=
  (cpu.enter_entered stub tss 0x21 0).frame

theorem Tick.schedYield (tick : Tick stub tss m frame m') :
    m.sched.schedYield (m.cpu.context 0x21 0) = .ok (m'.sched, frame) := by
  have done := tick.yielded
  rw [timer_frame, idtHandler_timer m.sched rfl] at done
  cases outcome : m.sched.schedYield (m.cpu.context 0x21 0) with
  | error panic =>
      rw [outcome] at done
      cases done
  | ok result =>
      rw [outcome] at done
      exact congrArg Except.ok (Except.ok.inj done)

theorem Tick.loaded (tick : Tick stub tss m frame m') : Loaded m'.cpu frame := by
  rcases tick.handled with ⟨handled, _, left, resumed⟩
  have context := handled.leave_context
  rw [left] at context
  rw [resumed]
  exact context

theorem Tick.rflags (tick : Tick stub tss m frame m') : m'.cpu.rflags = frame.rflags :=
  congrArg X8664Context.rflags tick.loaded

end Ticks

section Runs

variable {stub : UInt8 → UInt64} {entry stack : T → UInt64} {start m : ThreadedCpu T}
  {events : List (SchedEvent T)}

/-- What the processor does is a run of the scheduler. -/
theorem ThreadRun.trace (run : ThreadRun stub entry stack start events m) :
    SchedTrace entry stack start.sched events m.sched := by
  induction run with
  | nil => exact SchedTrace.nil
  | code _ cpu inductionHypothesis => exact inductionHypothesis
  | spawn _ new done inductionHypothesis => exact SchedTrace.spawn inductionHypothesis new done
  | tick _ tick current inductionHypothesis =>
      exact SchedTrace.yield inductionHypothesis tick.schedYield current

/-- Threads are interrupted only while interrupts are enabled. -/
theorem ThreadRun.enabled (run : ThreadRun stub entry stack start events m) {thr : T}
    {frame : X8664Context} (last : lastPreempted events thr = some frame) :
    frame.rflags &&& interruptFlag ≠ 0 := by
  induction run with
  | nil => cases last
  | code _ cpu inductionHypothesis => exact inductionHypothesis last
  | spawn _ new done inductionHypothesis =>
      rw [lastPreempted_concat, SchedEvent.preempts, Option.none_or] at last
      exact inductionHypothesis last
  | @tick events m m' tss resumed next _ tick current inductionHypothesis =>
      rw [lastPreempted_concat, SchedEvent.preempts] at last
      by_cases interrupted : m.sched.cpu.curThread = some thr
      · rw [if_pos interrupted, Option.some_or] at last
        cases last
        exact tick.enabled
      · rw [if_neg interrupted, Option.none_or] at last
        exact inductionHypothesis last

theorem prepared_enabled {entry stack : UInt64} {frame : X8664Context}
    (made : prepared entry stack = some frame) : frame.rflags &&& interruptFlag ≠ 0 := by
  cases made
  change (0x202 : UInt64) &&& interruptFlag ≠ 0
  decide

/-- Any context can be left in the place of the frame. -/
theorem exists_frameAt (address : UInt64) (frame : X8664Context) :
    ∃ words, frameAt words address = frame := by
  have lengths : (contextWords frame).reverse.length + ([] : List UInt64).length < 2 ^ 60 := by
    change 22 + 0 < 2 ^ 60
    decide
  have holds := StackWords.holds_pushAll
    (show StackWords.Holds (fun _ => 0) (address + 176) [] from trivial) lengths
  rw [StackWords.pushAll_top, List.reverse_reverse, List.append_nil] at holds
  have place : address + 176 - 8 * UInt64.ofNat (contextWords frame).reverse.length = address := by
    change address + 176 - 176 = address
    exact UInt64.add_sub_cancel address 176
  rw [place] at holds
  exact ⟨_, frameAt_of_holds holds⟩

theorem Tick.of_yield (stub : UInt8 → UInt64) (tss : Tss) (m : ThreadedCpu T) {s : Sched T}
    {frame : X8664Context} (enabled : m.cpu.rflags &&& interruptFlag ≠ 0)
    (done : m.sched.schedYield (m.cpu.context 0x21 0) = .ok (s, frame)) :
    ∃ cpu, Tick stub tss m frame { cpu := cpu, sched := s } := by
  have entered := m.cpu.enter_entered stub tss 0x21 0
  rcases exists_frameAt (m.cpu.enter stub tss 0x21 0).rsp frame with ⟨words, left⟩
  let handled : Cpu := { m.cpu.enter stub tss 0x21 0 with words := words }
  refine ⟨handled.leave, enabled, ⟨handled, ⟨rfl, entered.privileged, rfl, rfl⟩, left, rfl⟩, ?_⟩
  rw [timer_frame, idtHandler_timer m.sched rfl, done]
  rfl

end Runs

/-- On every run of a processor, on which the current thread does anything to the registers
between the interrupts and threads are made, the timer's interrupt does not panic, and after it
the processor has the registers that its new thread had when it was last interrupted, or those
that a new thread is made with, and interrupts are enabled again. -/
theorem threads_keep_registers {stub : UInt8 → UInt64} {entry stack : T → UInt64}
    {start m : ThreadedCpu T} {events : List (SchedEvent T)} {queue : List T} (tss : Tss)
    (runnable : Runnable start.sched queue)
    (made : ∀ thr ∈ queue ++ start.sched.cpu.idleThread.toList,
      prepared (entry thr) (stack thr) = some (start.sched.threads thr).cpucontext)
    (run : ThreadRun stub entry stack start events m)
    (enabled : m.cpu.rflags &&& interruptFlag ≠ 0) :
    (∃ frame m', Tick stub tss m frame m') ∧
      ∀ frame m', Tick stub tss m frame m' →
        ∃ next, m'.sched.cpu.curThread = some next ∧ Loaded m'.cpu frame ∧
          ResumedContext entry stack start.sched events
            (.switch m.sched.cpu.curThread (m.cpu.context 0x21 0) next frame) next frame ∧
          m'.cpu.rflags &&& interruptFlag ≠ 0 := by
  rcases run.trace.integrity runnable made with ⟨waiting, integrity⟩
  rcases integrity.runnable.yield (m.cpu.context 0x21 0) with
    ⟨s', frame', next, queue', done, yielded⟩
  constructor
  · rcases Tick.of_yield stub tss m enabled done with ⟨cpu, tick⟩
    exact ⟨frame', _, tick⟩
  · intro frame m' tick
    rcases Prod.mk.inj (Except.ok.inj (tick.schedYield.symm.trans done)) with ⟨schedEq, frameEq⟩
    rw [frameEq] at tick ⊢
    have resumed := yielded.resumedContext integrity
    refine ⟨next, by rw [schedEq, yielded.current], tick.loaded, resumed, ?_⟩
    rw [tick.rflags]
    rcases resumed with last | ⟨_, _, fresh⟩
    · have current : m'.sched.cpu.curThread = some next := by
        rw [schedEq, yielded.current]
      exact (ThreadRun.tick run tick current).enabled last
    · exact prepared_enabled fresh

/-- The processor in the loop at the end of `sched_init`. -/
def haltedCpu : Cpu :=
  { reg := fun _ => 0, rip := 0xFFFFFFFF80000000, cs := 8, rflags := 0x202
    rsp := 0xFFFF800000080000, ss := 16, gsBase := 0xFFFF800000200000, kernelGsBase := 0
    zero := false, words := fun _ => 0 }

/-- The processor in a thread with a seven in each register. -/
def busyCpu : Cpu := { haltedCpu with reg := fun _ => 7 }

/-- A thread that is interrupted with a seven in each register goes on with them after another
one. -/
theorem threads_keep_registers_boot :
    ∃ (start m m' : ThreadedCpu NodePointer) (events : List (SchedEvent NodePointer)),
      ThreadRun sampleStubs sampleEntry sampleStack start events m ∧
      m.sched.cpu.curThread = some sampleWorker ∧
      Tick sampleStubs sampleTss m (busyCpu.context 0x21 0) m' ∧
      m'.sched.cpu.curThread = some sampleKernel ∧ Loaded m'.cpu (busyCpu.context 0x21 0) := by
  have enabled : haltedCpu.rflags &&& interruptFlag ≠ 0 := by decide
  rcases turns (haltedCpu.context 0x21 0) (busyCpu.context 0x21 0) (haltedCpu.context 0x21 0) with
    ⟨start, s, t, u, v, f', g', h', turns⟩
  have initial : ThreadRun sampleStubs sampleEntry sampleStack { cpu := haltedCpu, sched := start } []
      { cpu := haltedCpu, sched := start } := ThreadRun.nil
  have spawned := ThreadRun.spawn initial turns.new turns.spawned
  rcases Tick.of_yield sampleStubs sampleTss { cpu := haltedCpu, sched := s } enabled turns.first with
    ⟨_, tick⟩
  have kernel := (ThreadRun.tick spawned tick turns.kernel).code busyCpu
  rcases Tick.of_yield sampleStubs sampleTss { cpu := busyCpu, sched := t } enabled turns.second with
    ⟨_, tick'⟩
  have worker := (ThreadRun.tick kernel tick' turns.worker).code haltedCpu
  rcases threads_keep_registers sampleTss turns.runnable turns.made worker enabled with
    ⟨⟨frame, m', tick''⟩, resumes⟩
  rcases resumes frame m' tick'' with ⟨next, isNext, loaded, resumed, _⟩
  rcases Prod.mk.inj (Except.ok.inj (tick''.schedYield.symm.trans turns.third)) with ⟨isSched, _⟩
  rw [isSched] at isNext
  obtain rfl := Option.some.inj (turns.again.symm.trans isNext)
  have last := turnEvents_last (haltedCpu.context 0x21 0) f' (busyCpu.context 0x21 0) g'
    (haltedCpu.context 0x21 0) frame
  dsimp only at resumed
  rw [turns.none, turns.kernel, turns.worker] at resumed
  rcases resumed with preempted | ⟨never, _⟩
  · obtain rfl := Option.some.inj (preempted.symm.trans last)
    exact ⟨_, _, m', _, worker, turns.worker, tick'', by rw [isSched, turns.again], loaded⟩
  · cases never.symm.trans last

end NyauxKernel.Scheduler
