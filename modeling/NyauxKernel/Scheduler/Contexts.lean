/-
Register contexts across preemption.

A trace records which thread each timer interrupt preempted and resumed, and with which
frames.  A thread that is not current has the frame of its last preemption saved, or, if
it has not run, the context it was made with.
-/

import NyauxKernel.Scheduler.Rotation

namespace NyauxKernel.Scheduler

open NyauxKernel.Lists

/-- A yield with the thread and the frame it found and those it left, or a new thread. -/
inductive SchedEvent (T : Type)
  | switch (old : Option T) (frame : X8664Context) (next : T) (resumed : X8664Context)
  | made (thr : T)

section Events

variable {T : Type} [DecidableEq T]

/-- The frame with which the event preempts the thread. -/
def SchedEvent.preempts (thr : T) : SchedEvent T → Option X8664Context
  | .switch old frame _ _ => if old = some thr then some frame else none
  | .made _ => none

/-- The frame with which the thread was last preempted. -/
def lastPreempted (events : List (SchedEvent T)) (thr : T) : Option X8664Context :=
  (events.filterMap (SchedEvent.preempts thr)).getLast?

theorem lastPreempted_concat (events : List (SchedEvent T)) (event : SchedEvent T) (thr : T) :
    lastPreempted (events ++ [event]) thr =
      (event.preempts thr).or (lastPreempted events thr) := by
  unfold lastPreempted
  rw [List.filterMap_append]
  cases preempted : event.preempts thr with
  | none =>
      rw [List.filterMap_cons_none preempted, List.filterMap_nil, List.append_nil, Option.none_or]
  | some frame =>
      rw [List.filterMap_cons_some preempted, List.filterMap_nil, List.getLast?_concat,
        Option.some_or]

end Events

variable {T : Type}

def SchedEvent.Resumes (thr : T) : SchedEvent T → Prop
  | .switch _ _ next _ => next = thr
  | .made _ => False

/-- The thread was current at the start or was resumed since. -/
def Ran (start : Sched T) (events : List (SchedEvent T)) (thr : T) : Prop :=
  start.cpu.curThread = some thr ∨ ∃ event ∈ events, event.Resumes thr

variable {s s' start : Sched T} {events : List (SchedEvent T)} {next thr : T}
  {queue queue' : List T} {frame frame' : X8664Context} {event : SchedEvent T}

theorem ran_concat :
    Ran start (events ++ [event]) thr ↔ Ran start events thr ∨ event.Resumes thr := by
  unfold Ran
  constructor
  · rintro (current | ⟨found, member, resumes⟩)
    · exact Or.inl (Or.inl current)
    · rcases List.mem_append.mp member with older | newest
      · exact Or.inl (Or.inr ⟨found, older, resumes⟩)
      · exact Or.inr (List.mem_singleton.mp newest ▸ resumes)
  · rintro ((current | ⟨found, member, resumes⟩) | resumes)
    · exact Or.inl current
    · exact Or.inr ⟨found, List.mem_append_left _ member, resumes⟩
    · exact Or.inr ⟨event, List.mem_append_right _ List.mem_cons_self, resumes⟩

/-- The context that a thread with this entry and stack is made with. -/
def prepared (entry stack : UInt64) : Option X8664Context :=
  prepareThread X8664Context.zeroed entry (stack + stackSize) false

variable [DecidableEq T]

/-- The context is that of the last preemption, or that of a thread that has not run. -/
def Expected (entry stack : T → UInt64) (start : Sched T) (events : List (SchedEvent T))
    (thr : T) (context : X8664Context) : Prop :=
  lastPreempted events thr = some context ∨
    (lastPreempted events thr = none ∧ ¬Ran start events thr ∧
      prepared (entry thr) (stack thr) = some context)

/-- An event that neither preempts nor resumes the thread is no news for it. -/
theorem expected_concat {entry stack : T → UInt64} {context : X8664Context}
    (expected : Expected entry stack start events thr context) (kept : event.preempts thr = none)
    (other : ¬event.Resumes thr) : Expected entry stack start (events ++ [event]) thr context := by
  unfold Expected
  rw [lastPreempted_concat, kept, Option.none_or, ran_concat]
  rcases expected with last | ⟨never, idle, made⟩
  · exact Or.inl last
  · exact Or.inr ⟨never, not_or.mpr ⟨idle, other⟩, made⟩

variable [HasListNode T]

/-- The runs, with the entry and the stack of each thread given beforehand. -/
inductive SchedTrace (entry stack : T → UInt64) (start : Sched T) :
    List (SchedEvent T) → Sched T → Prop
  | nil : SchedTrace entry stack start [] start
  | yield {events : List (SchedEvent T)} {s s' : Sched T} {frame frame' : X8664Context} {next : T}
      (before : SchedTrace entry stack start events s)
      (done : s.schedYield frame = .ok (s', frame')) (current : s'.cpu.curThread = some next) :
      SchedTrace entry stack start
        (events ++ [.switch s.cpu.curThread frame next frame']) s'
  | spawn {events : List (SchedEvent T)} {s s' : Sched T} {thr : T} {timeslice : UInt64}
      (before : SchedTrace entry stack start events s)
      (new : ∀ queue, s.cpu.runQueue.inner.iter s.heap.nodes = some queue →
        thr ∉ s.cpu.members queue)
      (done : s.spawn thr (stack thr) (entry thr) timeslice = .ok s') :
      SchedTrace entry stack start (events ++ [.made thr]) s'

structure Integrity (entry stack : T → UInt64) (start : Sched T) (events : List (SchedEvent T))
    (s : Sched T) (queue : List T) : Prop where
  runnable : Runnable s queue
  contexts : ∀ thr ∈ s.cpu.members queue, s.cpu.curThread ≠ some thr →
    Expected entry stack start events thr (s.threads thr).cpucontext
  strangers : ∀ thr, thr ∉ s.cpu.members queue →
    lastPreempted events thr = none ∧ ¬Ran start events thr

namespace Integrity

variable {entry stack : T → UInt64}

theorem stranger_concat (integrity : Integrity entry stack start events s queue) {thr : T}
    {event : SchedEvent T} (outside : thr ∉ s.cpu.members queue)
    (kept : event.preempts thr = none) (other : ¬event.Resumes thr) :
    lastPreempted (events ++ [event]) thr = none ∧ ¬Ran start (events ++ [event]) thr := by
  obtain ⟨never, idle⟩ := integrity.strangers thr outside
  rw [lastPreempted_concat, kept, Option.none_or, ran_concat]
  exact ⟨never, not_or.mpr ⟨idle, other⟩⟩

end Integrity

theorem Yielded.context_of_ne (yielded : Yielded s queue frame s' frame' next queue')
    (other : s.cpu.curThread ≠ some thr) : s'.threads thr = s.threads thr := by
  rw [yielded.threads]
  cases current : s.cpu.curThread with
  | none => rfl
  | some old =>
      have differs : thr ≠ old := by
        rintro rfl
        exact other current
      exact Function.update_of_ne differs _ _

theorem Yielded.context_of_current (yielded : Yielded s queue frame s' frame' next queue')
    (current : s.cpu.curThread = some thr) : (s'.threads thr).cpucontext = frame := by
  rw [yielded.threads, current, saveFrame, Function.update_self]

theorem Yielded.next_mem (yielded : Yielded s queue frame s' frame' next queue') :
    next ∈ s.cpu.members queue :=
  yielded.members_perm.mem_iff.mp (mem_members_current yielded.current)

namespace Integrity

variable {entry stack : T → UInt64}

theorem yielded (integrity : Integrity entry stack start events s queue) {s' : Sched T}
    {queue' : List T} {frame frame' : X8664Context} {next : T}
    (yielded : Yielded s queue frame s' frame' next queue') :
    Integrity entry stack start (events ++ [.switch s.cpu.curThread frame next frame']) s'
      queue' where
  runnable := yielded.runnable
  contexts := by
    intro thr member away
    rw [yielded.current] at away
    have inside := yielded.members_perm.mem_iff.mp member
    by_cases current : s.cpu.curThread = some thr
    · left
      rw [lastPreempted_concat, SchedEvent.preempts, if_pos current, Option.some_or,
        yielded.context_of_current current]
    · rw [yielded.context_of_ne current]
      exact expected_concat (integrity.contexts thr inside current) (if_neg current)
        (fun same => away (congrArg some same))
  strangers := by
    intro thr outside
    have before : thr ∉ s.cpu.members queue := mt yielded.members_perm.mem_iff.mpr outside
    refine integrity.stranger_concat before (if_neg fun current => ?_) ?_
    · exact before (mem_members_current current)
    · rintro rfl
      exact before yielded.next_mem

theorem spawned (integrity : Integrity entry stack start events s queue) {s' : Sched T} {thr : T}
    {thread : Thread} {timeslice : UInt64} (new : thr ∉ s.cpu.members queue)
    (threadEq : Thread.new (stack thr) (entry thr) timeslice false = some thread)
    (spawned : Spawned s queue thr thread s') :
    Integrity entry stack start (events ++ [.made thr]) s' (queue ++ [thr]) where
  runnable := spawned.runnable
  contexts := by
    intro other member away
    rw [spawned.current] at away
    refine expected_concat ?_ rfl (fun resumes => resumes)
    rcases List.mem_append.mp ((members_spawned spawned.current spawned.idle).mem_iff.mp member)
      with older | isNew
    · have differs : other ≠ thr := fun equal => new (equal ▸ older)
      rw [spawned.threads, Function.update_of_ne differs]
      exact integrity.contexts other older away
    · obtain rfl := List.mem_singleton.mp isNew
      obtain ⟨never, idle⟩ := integrity.strangers other new
      rw [spawned.threads, Function.update_self]
      refine Or.inr ⟨never, idle, ?_⟩
      obtain rfl := Option.some.inj threadEq
      rfl
  strangers := by
    intro other outside
    refine integrity.stranger_concat ?_ rfl (fun resumes => resumes)
    intro member
    exact outside ((members_spawned spawned.current spawned.idle).mem_iff.mpr
      (List.mem_append_left _ member))

end Integrity

theorem SchedTrace.integrity {entry stack : T → UInt64} (runnable : Runnable start queue)
    (made : ∀ thr ∈ queue ++ start.cpu.idleThread.toList,
      prepared (entry thr) (stack thr) = some (start.threads thr).cpucontext)
    (trace : SchedTrace entry stack start events s) :
    ∃ queue', Integrity entry stack start events s queue' := by
  induction trace with
  | nil =>
      refine ⟨queue, runnable, ?_, ?_⟩
      · intro thr member away
        refine Or.inr ⟨rfl, ?_, made thr ?_⟩
        · rintro (current | ⟨_, none, _⟩)
          · exact away current
          · exact List.not_mem_nil none
        · rcases List.mem_append.mp member with ordered | idle
          · rcases List.mem_append.mp ordered with queued | current
            · exact List.mem_append_left _ queued
            · exact absurd (Option.mem_toList.mp current) away
          · exact List.mem_append_right _ idle
      · intro thr outside
        refine ⟨rfl, ?_⟩
        rintro (current | ⟨_, none, _⟩)
        · exact outside (mem_members_current current)
        · exact List.not_mem_nil none
  | @yield events s s' frame frame' next before done current inductionHypothesis =>
      obtain ⟨queue', integrity⟩ := inductionHypothesis
      obtain ⟨s'', frame'', next', queue'', done', yielded⟩ := integrity.runnable.yield frame
      obtain ⟨rfl, rfl⟩ := Prod.mk.inj (Except.ok.inj (done.symm.trans done'))
      obtain rfl := Option.some.inj (current.symm.trans yielded.current)
      exact ⟨queue'', integrity.yielded yielded⟩
  | @spawn events s s' thr timeslice before new done inductionHypothesis =>
      obtain ⟨queue', integrity⟩ := inductionHypothesis
      have fresh := new queue' integrity.runnable.iter_eq
      obtain ⟨thread, s'', threadEq, done', spawned⟩ :=
        integrity.runnable.toArranged.spawn fresh (stack thr) (entry thr) timeslice
      obtain rfl := Except.ok.inj (done.symm.trans done')
      exact ⟨_, integrity.spawned fresh threadEq spawned⟩

/-- The context of the thread that an interrupt resumes: that of its last interruption, which
may be this one, or that of a thread that has not run. -/
def ResumedContext (entry stack : T → UInt64) (start : Sched T) (events : List (SchedEvent T))
    (switch : SchedEvent T) (next : T) (frame : X8664Context) : Prop :=
  lastPreempted (events ++ [switch]) next = some frame ∨
    (lastPreempted (events ++ [switch]) next = none ∧ ¬Ran start events next ∧
      prepared (entry next) (stack next) = some frame)

theorem Yielded.resumedContext {entry stack : T → UInt64}
    (integrity : Integrity entry stack start events s queue)
    (yielded : Yielded s queue frame s' frame' next queue') :
    ResumedContext entry stack start events (.switch s.cpu.curThread frame next frame') next
      frame' := by
  rw [ResumedContext, lastPreempted_concat, SchedEvent.preempts]
  by_cases current : s.cpu.curThread = some next
  · rw [if_pos current, Option.some_or, yielded.resumed, yielded.context_of_current current]
    exact Or.inl rfl
  · rw [if_neg current, Option.none_or, yielded.resumed, yielded.context_of_ne current]
    exact integrity.contexts next yielded.next_mem current

/-- After any timer interrupts and any new threads, the next interrupt resumes a thread
with the frame that it was last preempted with, or with the context it was made with if it
has not run.  The saved contexts of threads that are not switched out do not change, and a
thread that is alone keeps its frame. -/
theorem context_integrity {entry stack : T → UInt64} {start s : Sched T}
    {events : List (SchedEvent T)} {queue : List T} (runnable : Runnable start queue)
    (made : ∀ thr ∈ queue ++ start.cpu.idleThread.toList,
      prepared (entry thr) (stack thr) = some (start.threads thr).cpucontext)
    (trace : SchedTrace entry stack start events s) (frame : X8664Context) :
    ∃ s' frame' next, s.schedYield frame = .ok (s', frame') ∧ s'.cpu.curThread = some next ∧
      (lastPreempted (events ++ [.switch s.cpu.curThread frame next frame']) next = some frame' ∨
        (lastPreempted (events ++ [.switch s.cpu.curThread frame next frame']) next = none ∧
          ¬Ran start events next ∧ prepared (entry next) (stack next) = some frame')) ∧
      (∀ thr, s.cpu.curThread ≠ some thr →
        (s'.threads thr).cpucontext = (s.threads thr).cpucontext) ∧
      (∀ thr, s.cpu.curThread = some thr →
        s.cpu.runQueue.inner.iter s.heap.nodes = some ([] : List T) →
        next = thr ∧ frame' = frame) := by
  obtain ⟨waiting, integrity⟩ := trace.integrity runnable made
  obtain ⟨s', frame', next, queue', done, yielded⟩ := integrity.runnable.yield frame
  refine ⟨s', frame', next, done, yielded.current, ?_, ?_, ?_⟩
  · exact yielded.resumedContext integrity
  · intro thr other
    rw [yielded.context_of_ne other]
  · intro thr current alone
    obtain rfl := Option.some.inj (integrity.runnable.iter_eq.symm.trans alone)
    have order : s.cpu.order [] = [thr] := by
      rw [CpuLocal.order, current, Option.toList_some, List.nil_append]
    rcases yielded.picked with ⟨picked, _⟩ | ⟨none, _⟩
    · obtain rfl : thr = next := (List.cons.inj (order.symm.trans picked)).1
      exact ⟨rfl, by rw [yielded.resumed, yielded.context_of_current current]⟩
    · exact absurd (order.symm.trans none) (List.cons_ne_nil thr [])

def sampleIdle : NodePointer := ⟨16, by decide⟩

def sampleKernel : NodePointer := ⟨32, by decide⟩

/-- The entries and stacks of the two threads of `sched_init`. -/
def sampleEntry (thr : NodePointer) : UInt64 := if thr = sampleKernel then 3 else 1

def sampleStack (thr : NodePointer) : UInt64 := if thr = sampleKernel then 4 else 2

def sampleWorker : NodePointer := ⟨48, by decide⟩

/-- Two interrupts after `sched_init` and the making of another thread. -/
def turnEvents (f f' g g' : X8664Context) : List (SchedEvent NodePointer) :=
  [.made sampleWorker, .switch none f sampleKernel f',
    .switch (some sampleKernel) g sampleWorker g']

theorem turnEvents_last (f f' g g' h h' : X8664Context) :
    lastPreempted (turnEvents f f' g g' ++ [.switch (some sampleWorker) h sampleKernel h'])
      sampleKernel = some g := rfl

/-- The kernel's thread and another one take turns at three interrupts. -/
structure Turns (f g h : X8664Context) (start s t u v : Sched NodePointer)
    (f' g' h' : X8664Context) : Prop where
  runnable : Runnable start [sampleKernel]
  made : ∀ thr ∈ [sampleKernel] ++ start.cpu.idleThread.toList,
    prepared (sampleEntry thr) (sampleStack thr) = some (start.threads thr).cpucontext
  new : ∀ queue, start.cpu.runQueue.inner.iter start.heap.nodes = some queue →
    sampleWorker ∉ start.cpu.members queue
  spawned : start.spawn sampleWorker (sampleStack sampleWorker) (sampleEntry sampleWorker) 5 = .ok s
  none : s.cpu.curThread = none
  first : s.schedYield f = .ok (t, f')
  kernel : t.cpu.curThread = some sampleKernel
  second : t.schedYield g = .ok (u, g')
  worker : u.cpu.curThread = some sampleWorker
  third : u.schedYield h = .ok (v, h')
  again : v.cpu.curThread = some sampleKernel

theorem turns (f g h : X8664Context) : ∃ start s t u v f' g' h', Turns f g h start s t u v f' g' h' := by
  obtain ⟨start, done, runnable, current, idle, kernelMade, idleMade⟩ :=
    schedInit_runnable sampleIdle sampleKernel (by decide) 1 2 3 4
  have members : start.cpu.members [sampleKernel] = [sampleKernel, sampleIdle] := by
    rw [CpuLocal.members, CpuLocal.order, current, idle]
    rfl
  have new : sampleWorker ∉ start.cpu.members [sampleKernel] := by
    rw [members]
    decide
  obtain ⟨_, s, _, spawnEq, spawned⟩ := runnable.toArranged.spawn new (sampleStack sampleWorker)
    (sampleEntry sampleWorker) 5
  have none : s.cpu.curThread = none := spawned.current.trans current
  obtain ⟨t, f', _, _, first, yielded⟩ := spawned.runnable.yield f
  obtain ⟨rfl, rfl⟩ := yielded.rotates (by rw [CpuLocal.order, none]; rfl)
  obtain ⟨u, g', _, _, second, yielded'⟩ := yielded.runnable.yield g
  obtain ⟨rfl, rfl⟩ := yielded'.rotates (by rw [CpuLocal.order, yielded.current]; rfl)
  obtain ⟨v, h', _, _, third, yielded''⟩ := yielded'.runnable.yield h
  obtain ⟨rfl, _⟩ := yielded''.rotates (by rw [CpuLocal.order, yielded'.current]; rfl)
  refine ⟨start, s, t, u, v, f', g', h', runnable, ?_, ?_, spawnEq, none, first, yielded.current,
    second, yielded'.current, third, yielded''.current⟩
  · intro thr member
    rw [idle] at member
    rcases List.mem_append.mp member with isKernel | isIdle
    · rw [List.mem_singleton.mp isKernel, ← Option.some.inj kernelMade]
      rfl
    · rw [List.mem_singleton.mp isIdle, ← Option.some.inj idleMade]
      rfl
  · intro queue listed
    rwa [← Option.some.inj (runnable.iter_eq.symm.trans listed)]

/-- A thread that was preempted with a seven in `rax` is resumed with it after another one. -/
theorem context_integrity_boot :
    ∃ (start s s' : Sched NodePointer) (events : List (SchedEvent NodePointer)),
      SchedTrace sampleEntry sampleStack start events s ∧
      s.cpu.curThread = some sampleWorker ∧
      s.schedYield X8664Context.zeroed = .ok (s', { X8664Context.zeroed with rax := 7 }) ∧
      s'.cpu.curThread = some sampleKernel := by
  obtain ⟨start, s, t, u, v, f', g', h', turns⟩ := turns X8664Context.zeroed
    { X8664Context.zeroed with rax := 7 } X8664Context.zeroed
  have trace := SchedTrace.yield (SchedTrace.yield
    (SchedTrace.spawn SchedTrace.nil turns.new turns.spawned) turns.first turns.kernel)
    turns.second turns.worker
  obtain ⟨v', h'', next, yieldEq, isNext, expected, _⟩ :=
    context_integrity turns.runnable turns.made trace X8664Context.zeroed
  obtain ⟨rfl, rfl⟩ := Prod.mk.inj (Except.ok.inj (yieldEq.symm.trans turns.third))
  obtain rfl := Option.some.inj (turns.again.symm.trans isNext)
  have last := turnEvents_last X8664Context.zeroed f' { X8664Context.zeroed with rax := 7 } g'
    X8664Context.zeroed h''
  rw [turns.none, turns.kernel, turns.worker] at expected
  refine ⟨start, u, v', _, trace, turns.worker, ?_, turns.again⟩
  rcases expected with preempted | ⟨never, _⟩
  · rw [yieldEq, ← Option.some.inj (preempted.symm.trans last)]
  · cases never.symm.trans last

end NyauxKernel.Scheduler
