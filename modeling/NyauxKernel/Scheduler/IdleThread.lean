/-
When the idle thread runs.

The idle thread waits in its own slot until no other thread is left.  From then on it is
the current thread like any other, and the next yield puts it into the queue.  It is last
as long as no yield finds it current with a thread in the queue.
-/

import NyauxKernel.Scheduler.Contexts

namespace NyauxKernel.Scheduler

open NyauxKernel.Lists

variable {T : Type} [HasListNode T]

/-- The thread is a member of the queue. -/
def Sched.Queued (s : Sched T) (thr : T) : Prop :=
  ∃ queue, s.cpu.runQueue.inner.iter s.heap.nodes = some queue ∧ thr ∈ queue

variable {s s' : Sched T} {queue queue' : List T} {idle next : T}

theorem Arranged.queued_iff (arranged : Arranged s queue) (thr : T) :
    s.Queued thr ↔ thr ∈ queue := by
  constructor
  · rintro ⟨found, walked, member⟩
    rw [arranged.iter_eq] at walked
    rw [Option.some.inj walked]
    exact member
  · intro member
    exact ⟨queue, arranged.iter_eq, member⟩

/-- No thread but the idle one is current or queued. -/
def Sched.NoOther (s : Sched T) (idle : T) : Prop :=
  ∀ thr, s.cpu.curThread = some thr ∨ s.Queued thr → thr = idle

def SchedOp.IsYield {T : Type} (op : SchedOp T) : Prop :=
  op.spawned = none

/-- The idle thread is in its slot or it is the current thread. -/
structure IdleApart (s : Sched T) (queue : List T) (idle : T) : Prop where
  runnable : Runnable s queue
  place : s.cpu.idleThread = some idle ∨ s.cpu.curThread = some idle

theorem IdleApart.not_queued (apart : IdleApart s queue idle) : idle ∉ queue := by
  rcases apart.place with waiting | current
  · intro member
    exact apart.runnable.idle_apart waiting (List.mem_append_left _ member)
  · exact apart.runnable.current_apart current

variable [DecidableEq T]

/-- Along these calls, none of which fails, the idle thread is never a member of the queue,
and a yield makes it current only if there is no other thread. -/
def IdleLast (idle : T) (s : Sched T) : List (SchedOp T) → Prop
  | [] => ¬s.Queued idle
  | op :: rest => ¬s.Queued idle ∧
      match s.step op with
      | .ok s' => (op.IsYield → s'.cpu.curThread = some idle → s.NoOther idle) ∧
          IdleLast idle s' rest
      | .error _ => False

/-- No yield of these calls finds the idle thread current and another thread in the
queue. -/
def LeavesIdle (idle : T) (s : Sched T) : List (SchedOp T) → Prop
  | [] => True
  | op :: rest => (op.IsYield → s.cpu.curThread = some idle → ∀ thr, ¬s.Queued thr) ∧
      match s.step op with
      | .ok s' => LeavesIdle idle s' rest
      | .error _ => False

/-- A yield that does not find the idle thread current with others in the queue. -/
theorem IdleApart.yielded {frame frame' : X8664Context} (apart : IdleApart s queue idle)
    (leaves : s.cpu.curThread = some idle → queue = [])
    (yielded : Yielded s queue frame s' frame' next queue') :
    IdleApart s' queue' idle ∧ (next = idle → s.NoOther idle) := by
  have queued := apart.runnable.queued_iff
  rcases yielded.picked with ⟨order, kept⟩ | ⟨order, waiting, _, _⟩
  · rcases apart.place with waiting | current
    · refine ⟨⟨yielded.runnable, Or.inl (kept.trans waiting)⟩, ?_⟩
      rintro rfl
      have away := apart.runnable.idle_apart waiting
      rw [order] at away
      exact absurd List.mem_cons_self away
    · have empty := leaves current
      have alone : s.cpu.order queue = [idle] := by
        rw [CpuLocal.order, current, empty]
        rfl
      have same : next = idle := (List.cons.inj (order.symm.trans alone)).1
      refine ⟨⟨yielded.runnable, Or.inr (same ▸ yielded.current)⟩, ?_⟩
      intro _ thr present
      rcases present with isCurrent | member
      · exact Option.some.inj (isCurrent.symm.trans current)
      · rw [queued, empty] at member
        exact absurd member List.not_mem_nil
  · have none : ∀ thr, ¬(s.cpu.curThread = some thr ∨ s.Queued thr) := by
      intro thr present
      have member : thr ∈ s.cpu.order queue := by
        rcases present with isCurrent | member
        · exact List.mem_append_right _ (Option.mem_toList.mpr isCurrent)
        · exact List.mem_append_left _ ((queued thr).mp member)
      rw [order] at member
      exact absurd member List.not_mem_nil
    have same : next = idle := by
      rcases apart.place with slot | current
      · exact Option.some.inj (waiting.symm.trans slot)
      · exact absurd (Or.inl current) (none idle)
    exact ⟨⟨yielded.runnable, Or.inr (same ▸ yielded.current)⟩,
      fun _ thr present => absurd present (none thr)⟩

/-- A yield that finds it so puts the idle thread into the queue. -/
theorem Yielded.idle_queued {frame frame' : X8664Context}
    (yielded : Yielded s queue frame s' frame' next queue') (current : s.cpu.curThread = some idle)
    (others : queue ≠ []) : s'.Queued idle := by
  rw [yielded.runnable.queued_iff]
  cases queue with
  | nil => exact absurd rfl others
  | cons first rest =>
      have order : s.cpu.order (first :: rest) = first :: (rest ++ [idle]) := by
        rw [CpuLocal.order, current]
        rfl
      rcases yielded.picked with ⟨picked, _⟩ | ⟨none, _⟩
      · rw [order] at picked
        rw [← (List.cons.inj picked).2]
        exact List.mem_append_right rest List.mem_cons_self
      · rw [order] at none
        cases none

theorem IdleLast.not_queued {ops : List (SchedOp T)} (last : IdleLast idle s ops) :
    ¬s.Queued idle := by
  cases ops with
  | nil => exact last
  | cons op rest => exact last.1

theorem IdleApart.idleLast_iff (apart : IdleApart s queue idle) (ops : List (SchedOp T))
    (new : (s.cpu.members queue ++ ops.filterMap SchedOp.spawned).Nodup) :
    IdleLast idle s ops ↔ LeavesIdle idle s ops := by
  induction ops generalizing s queue with
  | nil => exact iff_of_true (mt (apart.runnable.queued_iff idle).mp apart.not_queued) trivial
  | cons op rest inductionHypothesis =>
      have queued := apart.runnable.queued_iff
      have outside : ¬s.Queued idle := mt (queued idle).mp apart.not_queued
      cases op with
      | yield frame =>
          rcases apart.runnable.yield frame with ⟨s', frame', next, queue', done, yielded⟩
          have stepEq : s.step (.yield frame) = .ok s' := by
            rw [Sched.step, done]
            rfl
          simp only [IdleLast, LeavesIdle, stepEq]
          by_cases busy : s.cpu.curThread = some idle ∧ queue ≠ []
          · -- The idle thread is queued from here on, and neither side holds.
            apply iff_of_false
            · rintro ⟨_, _, last⟩
              exact last.not_queued (yielded.idle_queued busy.1 busy.2)
            · rintro ⟨leaves, _⟩
              rcases List.exists_mem_of_ne_nil queue busy.2 with ⟨thr, member⟩
              exact leaves rfl busy.1 thr ((queued thr).mpr member)
          · have leaves : s.cpu.curThread = some idle → queue = [] := by
              intro current
              by_contra others
              exact busy ⟨current, others⟩
            rcases apart.yielded leaves yielded with ⟨apart', alone⟩
            have new' : (s'.cpu.members queue' ++ rest.filterMap SchedOp.spawned).Nodup :=
              (yielded.members_perm.append_right _).nodup_iff.mpr new
            have rest' := inductionHypothesis apart' new'
            constructor
            · rintro ⟨_, _, last⟩
              refine ⟨?_, rest'.mp last⟩
              intro _ current thr member
              rw [queued, leaves current] at member
              exact absurd member List.not_mem_nil
            · rintro ⟨_, later⟩
              refine ⟨outside, ?_, rest'.mpr later⟩
              intro _ current
              exact alone (Option.some.inj (yielded.current.symm.trans current))
      | spawn thr stack func timeslice =>
          have split : (SchedOp.spawn thr stack func timeslice :: rest).filterMap SchedOp.spawned =
              [thr] ++ rest.filterMap SchedOp.spawned := rfl
          rw [split, ← List.append_assoc] at new
          have fresh : thr ∉ s.cpu.members queue := by
            intro member
            have first := (List.nodup_append.mp new).1
            exact (List.nodup_append.mp first).2.2 thr member thr List.mem_cons_self rfl
          rcases apart.runnable.toArranged.spawn fresh stack func timeslice
            with ⟨thread, s', _, done, spawned⟩
          have stepEq : s.step (.spawn thr stack func timeslice) = .ok s' := done
          have apart' : IdleApart s' (queue ++ [thr]) idle := by
            refine ⟨spawned.runnable, ?_⟩
            rw [spawned.idle, spawned.current]
            exact apart.place
          have new' : (s'.cpu.members (queue ++ [thr]) ++
              rest.filterMap SchedOp.spawned).Nodup :=
            ((members_spawned spawned.current spawned.idle).append_right _).nodup_iff.mpr new
          have rest' := inductionHypothesis apart' new'
          have noYield : ¬(SchedOp.spawn thr stack func timeslice).IsYield := by
            intro impossible
            cases impossible
          simp only [IdleLast, LeavesIdle, stepEq]
          constructor
          · rintro ⟨_, _, last⟩
            exact ⟨fun isYield => absurd isYield noYield, rest'.mp last⟩
          · rintro ⟨_, later⟩
            exact ⟨outside, fun isYield => absurd isYield noYield, rest'.mpr later⟩

/-- From every state with an idle thread in its slot and any queue and current thread, and
for any calls of `sched_yield` and any new threads: the idle thread is never a member of the
queue and is only made current when there is no other thread, if and only if no yield finds
it current while a thread is queued. -/
theorem idle_thread_last_iff {s : Sched T} {queue : List T} {idle : T}
    (runnable : Runnable s queue) (waiting : s.cpu.idleThread = some idle)
    (ops : List (SchedOp T))
    (new : (s.cpu.members queue ++ ops.filterMap SchedOp.spawned).Nodup) :
    IdleLast idle s ops ↔ LeavesIdle idle s ops :=
  IdleApart.idleLast_iff ⟨runnable, Or.inl waiting⟩ ops new

/-- After `sched_init` two yields leave the idle thread in its slot. -/
theorem idle_thread_last_iff_boot :
    ∃ s : Sched NodePointer,
      (Sched.boot NodePointer).schedInit sampleIdle sampleKernel 1 2 3 4 = .ok s ∧
      IdleLast sampleIdle s [.yield X8664Context.zeroed, .yield X8664Context.zeroed] := by
  rcases schedInit_runnable sampleIdle sampleKernel (by decide) 1 2 3 4 with
    ⟨s, done, runnable, current, waiting, _⟩
  refine ⟨s, done, (idle_thread_last_iff runnable waiting _ ?_).mpr ?_⟩
  · exact runnable.distinct.append List.nodup_nil (List.disjoint_nil_right _)
  · rcases runnable.yield X8664Context.zeroed with ⟨s', frame, next, queue', first, yielded⟩
    rcases yielded.runnable.yield X8664Context.zeroed with ⟨s'', _, _, _, second, _⟩
    have order : s.cpu.order [sampleKernel] = [sampleKernel] := by
      rw [CpuLocal.order, current]
      rfl
    have kernel : s'.cpu.curThread = some sampleKernel := by
      rcases yielded.picked with ⟨picked, _⟩ | ⟨none, _⟩
      · rw [yielded.current, (List.cons.inj (order.symm.trans picked)).1]
      · cases order.symm.trans none
    simp only [LeavesIdle, Sched.step, first, second, Except.map, current, kernel]
    refine ⟨?_, ?_, trivial⟩
    · intro _ impossible
      cases impossible
    · intro _ impossible
      exact absurd impossible (by decide)

/-- A CPU with an idle thread and no other. -/
def loneIdle (idle : T) (thread : Thread) : Sched T :=
  let s := (Sched.boot T).arcNew idle thread
  { s with cpu := { s.cpu with idleThread := some idle } }

theorem loneIdle_runnable (idle : T) (thread : Thread) : Runnable (loneIdle idle thread) [] where
  shape := Shape.nil_new _ _ rfl rfl
  current := by
    intro thr impossible
    cases impossible
  idle := by
    intro thr present
    cases present
    exact Function.update_self ..
  distinct := List.nodup_singleton idle
  held := by
    intro thr member
    rw [List.mem_singleton.mp member]
    change 0 < Function.update (fun _ => 0) idle 1 idle
    rw [Function.update_self]
    exact Nat.one_pos
  nonempty := List.cons_ne_nil idle []

def sampleThread : Thread :=
  { stackPtr := 0, cpucontext := X8664Context.zeroed, timesliceInMs := 10 }

/-- The idle thread runs alone, a thread arrives, and the next yield puts the idle thread
into the queue.  One more yield makes it current although the other thread is there. -/
theorem idle_thread_queued :
    ∃ s s' : Sched NodePointer, Runnable (loneIdle sampleIdle sampleThread) [] ∧
      (loneIdle sampleIdle sampleThread).cpu.idleThread = some sampleIdle ∧
      (loneIdle sampleIdle sampleThread).run [.yield X8664Context.zeroed,
        .spawn sampleKernel 4 3 1, .yield X8664Context.zeroed] = .ok s ∧
      s.Queued sampleIdle ∧ s.cpu.curThread = some sampleKernel ∧
      s.run [.yield X8664Context.zeroed] = .ok s' ∧ s'.cpu.curThread = some sampleIdle :=
  ⟨_, _, loneIdle_runnable _ _, rfl, rfl, ⟨_, rfl, List.mem_cons_self⟩, rfl, rfl, rfl⟩

end NyauxKernel.Scheduler
