/-
The scheduler's threads along a run.

Waiting threads and the current one form an order: the queue, then the current thread.  A
yield gives the CPU to the first of the order and moves it to the end, so the scheduler
is a round robin.  The idle thread joins the order when there is no other thread.
-/

import NyauxKernel.Scheduler.Threads
import NyauxKernel.Library.RoundRobin

namespace NyauxKernel.Scheduler

open NyauxKernel.Lists

/-- The threads that take turns, the next one first. -/
def CpuLocal.order {T : Type} (cpu : CpuLocal T) (queue : List T) : List T :=
  queue ++ cpu.curThread.toList

def CpuLocal.members {T : Type} (cpu : CpuLocal T) (queue : List T) : List T :=
  cpu.order queue ++ cpu.idleThread.toList

section Saving

variable {T : Type} [DecidableEq T]

/-- The records after the frame of the old thread was saved. -/
def saveFrame (threads : T → Thread) (oldThread : Option T) (frame : X8664Context) :
    T → Thread :=
  match oldThread with
  | some oldThr => Function.update threads oldThr { threads oldThr with cpucontext := frame }
  | none => threads

/-- The heap with another handle of the old thread. -/
def cloneOld (heap : ArcHeap T) (oldThread : Option T) : ArcHeap T :=
  oldThread.elim heap heap.cloneArc

theorem dropArc_cloneArc {heap : ArcHeap T} {thr : T} (held : 0 < heap.strong thr)
    (nodes : Nodes) :
    ({ heap.cloneArc thr with nodes := nodes } : ArcHeap T).dropArc thr =
      some { heap with nodes := nodes } := by
  have others : heap.strong thr ≠ 0 := Nat.ne_of_gt held
  simp [ArcHeap.dropArc, ArcHeap.cloneArc, others]

theorem contextSwitch_done {s : Sched T} {heap : ArcHeap T} {nodes : Nodes}
    {oldThread : Option T} (newThread : T) (frame : X8664Context)
    (held : ∀ thr ∈ oldThread, 0 < heap.strong thr)
    (heapEq : s.heap = { cloneOld heap oldThread with nodes := nodes }) :
    s.contextSwitch oldThread newThread frame =
      .ok ({ s with
              heap := { heap with nodes := nodes }
              threads := saveFrame s.threads oldThread frame },
        (saveFrame s.threads oldThread frame newThread).cpucontext) := by
  cases oldThread with
  | none =>
      have same : s.heap = { heap with nodes := nodes } := heapEq
      unfold Sched.contextSwitch saveFrame
      rw [← same]
  | some thr =>
      have dropped : s.heap.dropArc thr = some { heap with nodes := nodes } := by
        rw [heapEq]
        exact dropArc_cloneArc (held thr rfl) nodes
      simp only [Sched.contextSwitch, saveFrame, dropped]

end Saving

variable {T : Type} [HasListNode T]

/-- The queue is linked along `queue`, the current and the idle thread are in no list, and
all these threads differ and are held by a handle. -/
structure Arranged (s : Sched T) (queue : List T) : Prop where
  shape : Shape s.heap.nodes s.cpu.runQueue.inner (queue.map listNode)
  current : ∀ thr ∈ s.cpu.curThread, s.heap.nodes (listNode thr) = InvasiveListNode.new
  idle : ∀ thr ∈ s.cpu.idleThread, s.heap.nodes (listNode thr) = InvasiveListNode.new
  distinct : (s.cpu.members queue).Nodup
  held : ∀ thr ∈ s.cpu.members queue, 0 < s.heap.strong thr

/-- A state that the scheduler can run from: there is at least one thread. -/
structure Runnable (s : Sched T) (queue : List T) : Prop extends Arranged s queue where
  nonempty : s.cpu.members queue ≠ []

theorem mem_members_current {T : Type} {cpu : CpuLocal T} {queue : List T} {thr : T}
    (present : thr ∈ cpu.curThread) : thr ∈ cpu.members queue :=
  List.mem_append_left _ (List.mem_append_right _ (Option.mem_toList.mpr present))

theorem mem_members_idle {T : Type} {cpu : CpuLocal T} {queue : List T} {thr : T}
    (present : thr ∈ cpu.idleThread) : thr ∈ cpu.members queue :=
  List.mem_append_right _ (Option.mem_toList.mpr present)

variable {s : Sched T} {next : T}

theorem Arranged.idle_apart {queue : List T} (arranged : Arranged s queue) {thr : T}
    (present : thr ∈ s.cpu.idleThread) : thr ∉ s.cpu.order queue := fun member =>
  (List.nodup_append.mp arranged.distinct).2.2 thr member thr (Option.mem_toList.mpr present) rfl

theorem Arranged.iter_eq {queue : List T} (arranged : Arranged s queue) :
    s.cpu.runQueue.inner.iter s.heap.nodes = some queue := by
  unfold InvasiveList.iter
  rw [collect_eq_walk, arranged.shape.walk_forward (map_listNode_lt queue), Option.map_some,
    map_fromNode_listNode]

theorem Arranged.current_apart {queue : List T} (arranged : Arranged s queue) {thr : T}
    (present : thr ∈ s.cpu.curThread) : thr ∉ queue := fun member =>
  (List.nodup_append.mp (List.nodup_append.mp arranged.distinct).1).2.2 thr member thr
    (Option.mem_toList.mpr present) rfl

/-! ### The parts of a yield -/

variable [DecidableEq T]

theorem nextThread_front {rest : List T}
    (shape : Shape s.heap.nodes s.cpu.runQueue.inner ((next :: rest).map listNode)) :
    ∃ list nodes,
      s.nextThread = .ok (next, { s with
        heap := { s.heap with nodes := nodes }
        cpu := { s.cpu with runQueue := { inner := list } } }) ∧
      Shape nodes list (rest.map listNode) ∧
      nodes (listNode next) = InvasiveListNode.new ∧
      SameOutside ((next :: rest).map listNode) s.heap.nodes nodes := by
  have atFront : Shape s.heap.nodes s.cpu.runQueue.inner
      ([] ++ listNode next :: rest.map listNode) := shape
  obtain ⟨shape', detached, same⟩ := atFront.remove
  refine ⟨_, _, ?_, shape', detached, same⟩
  unfold Sched.nextThread ArcInvasiveList.popFront ItemHeap.popWith
  dsimp only [ArcHeap.items]
  rw [Shape.popFront_eq shape]

theorem nextThread_idle {idle : T}
    (shape : Shape s.heap.nodes s.cpu.runQueue.inner (([] : List T).map listNode))
    (present : s.cpu.idleThread = some idle) :
    s.nextThread = .ok (idle, { s with cpu := { s.cpu with idleThread := none } }) := by
  have null : s.cpu.runQueue.inner.first = 0 := shape.first_eq
  have empty : s.cpu.runQueue.inner.popFront (T := T) s.heap.nodes =
      (none, s.cpu.runQueue.inner, s.heap.nodes) := if_pos null
  unfold Sched.nextThread ArcInvasiveList.popFront ItemHeap.popWith
  dsimp only [ArcHeap.items]
  rw [empty]
  simp only [present]

theorem enqueue_done {queue : List T} {thr : T}
    (shape : Shape s.heap.nodes s.cpu.runQueue.inner (queue.map listNode)) (outside : thr ∉ queue)
    (detached : s.heap.nodes (listNode thr) = InvasiveListNode.new) :
    ∃ list nodes,
      s.enqueue thr = .ok { s with
        heap := { s.heap with nodes := nodes }
        cpu := { s.cpu with runQueue := { inner := list } } } ∧
      Shape nodes list ((queue ++ [thr]).map listNode) ∧
      SameOutside ((queue ++ [thr]).map listNode) s.heap.nodes nodes := by
  obtain ⟨list, nodes, pushed, shape', same⟩ :=
    shape.pushBack (mt mem_map_listNode.mp outside) (by rw [detached]; rfl)
  rw [List.map_append, List.map_singleton]
  refine ⟨list, nodes, ?_, shape', same⟩
  unfold Sched.enqueue ArcInvasiveList.pushBack ItemHeap.pushWith
  dsimp only [ArcHeap.items]
  rw [pushed]

theorem swapOut_done {queue : List T} (runnable : Runnable s queue) :
    ∃ list nodes,
      s.swapOut = .ok (s.cpu.curThread, { s with
        heap := { cloneOld s.heap s.cpu.curThread with nodes := nodes }
        cpu := { s.cpu with runQueue := { inner := list }, curThread := none } }) ∧
      Shape nodes list ((s.cpu.order queue).map listNode) ∧
      SameOutside ((s.cpu.order queue).map listNode) s.heap.nodes nodes := by
  unfold Sched.swapOut CpuLocal.order
  cases current : s.cpu.curThread with
  | none =>
      have shape := runnable.shape
      refine ⟨s.cpu.runQueue.inner, s.heap.nodes, ?_, ?_, fun _ _ => rfl⟩
      · have same : { s.cpu with curThread := none } = s.cpu := by rw [← current]
        change Except.ok (none, s) =
          Except.ok (none, { s with cpu := { s.cpu with curThread := none } })
        rw [same]
      · rw [Option.toList_none, List.append_nil]
        exact shape
  | some thr =>
      have outside : thr ∉ queue := runnable.current_apart current
      let cloned : Sched T :=
        { s with heap := s.heap.cloneArc thr, cpu := { s.cpu with curThread := none } }
      obtain ⟨list, nodes, done, shape, same⟩ :=
        enqueue_done (s := cloned) runnable.shape outside (runnable.current thr current)
      refine ⟨list, nodes, ?_, shape, same⟩
      change (cloned.enqueue thr).bind _ = _
      rw [done]
      rfl

/-! ### One yield -/

/-- What a yield does: `next` was the first of the order and is the current thread now, or
it is the idle thread and there was no other. -/
structure Yielded (s : Sched T) (queue : List T) (frame : X8664Context) (s' : Sched T)
    (frame' : X8664Context) (next : T) (queue' : List T) : Prop where
  runnable : Runnable s' queue'
  current : s'.cpu.curThread = some next
  picked : (s.cpu.order queue = next :: queue' ∧ s'.cpu.idleThread = s.cpu.idleThread) ∨
    (s.cpu.order queue = [] ∧ s.cpu.idleThread = some next ∧ queue' = [] ∧
      s'.cpu.idleThread = none)
  threads : s'.threads = saveFrame s.threads s.cpu.curThread frame
  resumed : frame' = (s'.threads next).cpucontext
  timer : s'.timer = (s'.threads next).timesliceInMs
  strong : s'.heap.strong = s.heap.strong
  destroyed : s'.heap.destroyed = s.heap.destroyed

theorem Yielded.rotates {s' : Sched T} {queue queue' rest : List T} {frame frame' : X8664Context}
    {first : T} (yielded : Yielded s queue frame s' frame' next queue')
    (order : s.cpu.order queue = first :: rest) : next = first ∧ queue' = rest := by
  rcases yielded.picked with ⟨picked, _⟩ | ⟨none, _⟩
  · exact List.cons.inj (picked.symm.trans order)
  · cases none.symm.trans order

/-- Who yields and who is next does not change the threads as a whole. -/
theorem Yielded.members_perm {s' : Sched T} {queue queue' : List T} {frame frame' : X8664Context}
    (yielded : Yielded s queue frame s' frame' next queue') :
    (s'.cpu.members queue').Perm (s.cpu.members queue) := by
  unfold CpuLocal.members
  have order' : s'.cpu.order queue' = queue' ++ [next] := by
    rw [CpuLocal.order, yielded.current, Option.toList_some]
  rcases yielded.picked with ⟨order, idle⟩ | ⟨order, idle, empty, gone⟩
  · rw [order', order, idle]
    exact (List.perm_append_singleton next queue').append_right _
  · rw [order', order, idle, empty, gone]
    exact List.Perm.refl _

theorem schedYield_done {swapped picked switched : Sched T} {old : Option T}
    {frame frame' : X8664Context} (first : s.swapOut = .ok (old, swapped))
    (second : swapped.nextThread = .ok (next, picked))
    (third : picked.contextSwitch old next frame = .ok (switched, frame')) :
    s.schedYield frame =
      .ok ({ switched with
              timer := (switched.threads next).timesliceInMs
              cpu := { switched.cpu with curThread := some next } }, frame') := by
  unfold Sched.schedYield
  rw [first]
  change swapped.nextThread.bind _ = _
  rw [second]
  change (picked.contextSwitch old next frame).bind _ = _
  rw [third]
  rfl

theorem Runnable.yield {queue : List T} (runnable : Runnable s queue) (frame : X8664Context) :
    ∃ s' frame' next queue', s.schedYield frame = .ok (s', frame') ∧
      Yielded s queue frame s' frame' next queue' := by
  obtain ⟨list, nodes, swapped, shape, same⟩ := swapOut_done runnable
  have heldCurrent : ∀ thr ∈ s.cpu.curThread, 0 < s.heap.strong thr := by
    intro thr current
    exact runnable.held thr (mem_members_current current)
  have distinct := runnable.distinct
  unfold CpuLocal.members at distinct
  have idleDetached : ∀ thr ∈ s.cpu.idleThread, nodes (listNode thr) = InvasiveListNode.new := by
    intro thr present
    rw [same _ (mt mem_map_listNode.mp (runnable.idle_apart present))]
    exact runnable.idle thr present
  have nonempty := runnable.nonempty
  have held := runnable.held
  unfold CpuLocal.members at nonempty held
  cases order : s.cpu.order queue with
  | nil =>
      rw [order] at shape distinct nonempty held
      cases idleEq : s.cpu.idleThread with
      | none =>
          rw [idleEq] at nonempty
          exact absurd rfl nonempty
      | some idle =>
          rw [idleEq] at held
          have second := nextThread_idle (s := { s with
            heap := { cloneOld s.heap s.cpu.curThread with nodes := nodes }
            cpu := { s.cpu with runQueue := { inner := list }, curThread := none } }) shape idleEq
          have done := schedYield_done swapped second
            (contextSwitch_done idle frame heldCurrent rfl)
          refine ⟨_, _, idle, [], done, ?_, rfl, Or.inr ⟨order, idleEq, rfl, rfl⟩, rfl, rfl, rfl,
            rfl, rfl⟩
          exact
            { shape := shape
              current := by
                intro thr current
                exact Option.some.inj current ▸ idleDetached idle idleEq
              idle := by
                rintro thr ⟨⟩
              distinct := List.nodup_singleton idle
              nonempty := List.cons_ne_nil idle []
              held := held }
  | cons next rest =>
      rw [order] at shape same distinct held
      obtain ⟨list', nodes', second, shape', detached, same'⟩ := nextThread_front (s := { s with
        heap := { cloneOld s.heap s.cpu.curThread with nodes := nodes }
        cpu := { s.cpu with runQueue := { inner := list }, curThread := none } }) shape
      have done := schedYield_done swapped second
        (contextSwitch_done next frame heldCurrent rfl)
      have rotated : (rest ++ [next] ++ s.cpu.idleThread.toList).Perm
          (next :: rest ++ s.cpu.idleThread.toList) :=
        (List.perm_append_singleton next rest).append_right _
      refine ⟨_, _, next, rest, done, ?_, rfl, Or.inl ⟨order, rfl⟩, rfl, rfl, rfl, rfl, rfl⟩
      exact
        { shape := shape'
          current := by
            intro thr current
            exact Option.some.inj current ▸ detached
          idle := by
            intro thr present
            have away := runnable.idle_apart present
            rw [order] at away
            exact (same' _ (mt mem_map_listNode.mp away)).trans (idleDetached thr present)
          distinct := rotated.nodup_iff.mpr distinct
          nonempty := by
            change rest ++ [next] ++ s.cpu.idleThread.toList ≠ []
            simp
          held := fun thr member => held thr (rotated.mem_iff.mp member) }

/-! ### New threads -/

/-- What queueing a new thread does. -/
structure Spawned (s : Sched T) (queue : List T) (thr : T) (thread : Thread) (s' : Sched T) :
    Prop where
  runnable : Runnable s' (queue ++ [thr])
  current : s'.cpu.curThread = s.cpu.curThread
  idle : s'.cpu.idleThread = s.cpu.idleThread
  threads : s'.threads = Function.update s.threads thr thread
  destroyed : s'.heap.destroyed = s.heap.destroyed

theorem members_spawned {T : Type} {cpu cpu' : CpuLocal T} {queue : List T} {thr : T}
    (current : cpu'.curThread = cpu.curThread) (idle : cpu'.idleThread = cpu.idleThread) :
    (cpu'.members (queue ++ [thr])).Perm (cpu.members queue ++ [thr]) := by
  unfold CpuLocal.members CpuLocal.order
  rw [current, idle]
  simp only [List.append_assoc]
  refine List.Perm.append_left queue ?_
  rw [← List.append_assoc _ _ [thr]]
  exact List.perm_append_comm

theorem Arranged.spawn {queue : List T} {thr : T} (arranged : Arranged s queue)
    (new : thr ∉ s.cpu.members queue) (stack func timeslice : UInt64) :
    ∃ thread s', Thread.new stack func timeslice false = some thread ∧
      s.spawn thr stack func timeslice = .ok s' ∧ Spawned s queue thr thread s' := by
  obtain ⟨thread, threadEq⟩ : ∃ thread, Thread.new stack func timeslice false = some thread :=
    ⟨_, rfl⟩
  have outside : thr ∉ queue := fun member =>
    new (List.mem_append_left _ (List.mem_append_left _ member))
  have made : SameOutside [listNode thr] s.heap.nodes (s.arcNew thr thread).heap.nodes := by
    intro address away
    exact Function.update_of_ne (mt List.mem_singleton.mpr away) _ _
  have shape' : Shape (s.arcNew thr thread).heap.nodes s.cpu.runQueue.inner
      (queue.map listNode) := by
    refine arranged.shape.frame made ?_
    intro cell member atNew
    rw [List.mem_singleton.mp atNew] at member
    exact outside (mem_map_listNode.mp member)
  obtain ⟨list, nodes, done, linked, same⟩ :=
    enqueue_done (s := s.arcNew thr thread) shape' outside (Function.update_self ..)
  -- The nodes outside the queue stay as they were.
  have kept : ∀ other ∈ s.cpu.members queue, other ∉ queue →
      nodes (listNode other) = s.heap.nodes (listNode other) := by
    intro other member away
    have differs : other ≠ thr := fun equal => new (equal ▸ member)
    have apart : listNode other ∉ (queue ++ [thr]).map listNode := by
      rw [mem_map_listNode, List.mem_append, List.mem_singleton]
      exact not_or.mpr ⟨away, differs⟩
    rw [same _ apart]
    exact made _ (fun atNew => differs (listNode_injective (List.mem_singleton.mp atNew)))
  have perm : ((s.arcNew thr thread).cpu.members (queue ++ [thr])).Perm
      (s.cpu.members queue ++ [thr]) := members_spawned rfl rfl
  have called : s.spawn thr stack func timeslice = (s.arcNew thr thread).enqueue thr := by
    rw [Sched.spawn, threadEq]
  refine ⟨thread, _, threadEq, called.trans done, ?_, rfl, rfl, rfl, rfl⟩
  exact
    { shape := linked
      current := by
        intro other present
        exact (kept other (mem_members_current present) (arranged.current_apart present)).trans
          (arranged.current other present)
      idle := by
        intro other present
        have away : other ∉ queue := fun member =>
          arranged.idle_apart present (List.mem_append_left _ member)
        exact (kept other (mem_members_idle present) away).trans (arranged.idle other present)
      distinct := by
        refine perm.nodup_iff.mpr (List.nodup_append.mpr
          ⟨arranged.distinct, List.nodup_singleton thr, ?_⟩)
        rintro left member right isNew rfl
        exact new (List.mem_singleton.mp isNew ▸ member)
      held := by
        intro other member
        change 0 < Function.update s.heap.strong thr 1 other
        rcases List.mem_append.mp (perm.mem_iff.mp member) with older | isNew
        · have differs : other ≠ thr := fun equal => new (equal ▸ older)
          rw [Function.update_of_ne differs]
          exact arranged.held other older
        · rw [List.mem_singleton.mp isNew, Function.update_self]
          exact Nat.one_pos
      nonempty := by
        intro none
        have empty := none ▸ perm
        simp at empty }

/-! ### Runs -/

inductive SchedOp (T : Type)
  | yield (frame : X8664Context)
  | spawn (thr : T) (stack func timeslice : UInt64)

def SchedOp.spawned : SchedOp T → Option T
  | .yield _ => none
  | .spawn thr _ _ _ => some thr

def Sched.step (s : Sched T) : SchedOp T → Except SchedPanic (Sched T)
  | .yield frame => (s.schedYield frame).map Prod.fst
  | .spawn thr stack func timeslice => s.spawn thr stack func timeslice

def Sched.run (s : Sched T) : List (SchedOp T) → Except SchedPanic (Sched T)
  | [] => .ok s
  | op :: rest => do
      let s ← s.step op
      s.run rest

/-- Yields, with the threads that they make current. -/
def Sched.yields (s : Sched T) :
    List X8664Context → Except SchedPanic (List (Option T) × Sched T)
  | [] => .ok ([], s)
  | frame :: rest => do
      let (s, _) ← s.schedYield frame
      let (following, s') ← s.yields rest
      .ok (s.cpu.curThread :: following, s')

theorem Runnable.step {queue : List T} (runnable : Runnable s queue) {op : SchedOp T}
    (new : ∀ thr ∈ op.spawned, thr ∉ s.cpu.members queue) :
    ∃ s' queue', s.step op = .ok s' ∧ Runnable s' queue' ∧
      (s'.cpu.members queue').Perm (s.cpu.members queue ++ op.spawned.toList) ∧
      s'.heap.destroyed = s.heap.destroyed := by
  cases op with
  | yield frame =>
      obtain ⟨s', frame', next, queue', done, yielded⟩ := runnable.yield frame
      refine ⟨s', queue', ?_, yielded.runnable, ?_, yielded.destroyed⟩
      · rw [Sched.step, done]
        rfl
      · rw [SchedOp.spawned, Option.toList_none, List.append_nil]
        exact yielded.members_perm
  | spawn thr stack func timeslice =>
      obtain ⟨thread, s', _, done, spawned⟩ :=
        runnable.toArranged.spawn (new thr rfl) stack func timeslice
      exact ⟨s', queue ++ [thr], done, spawned.runnable,
        members_spawned spawned.current spawned.idle, spawned.destroyed⟩

theorem Runnable.run {queue : List T} (runnable : Runnable s queue) {ops : List (SchedOp T)}
    (new : (s.cpu.members queue ++ ops.filterMap SchedOp.spawned).Nodup) :
    ∃ s' queue', s.run ops = .ok s' ∧ Runnable s' queue' ∧
      (s'.cpu.members queue').Perm
        (s.cpu.members queue ++ ops.filterMap SchedOp.spawned) ∧
      s'.heap.destroyed = s.heap.destroyed := by
  induction ops generalizing s queue with
  | nil =>
      refine ⟨s, queue, rfl, runnable, ?_, rfl⟩
      rw [List.filterMap_nil, List.append_nil]
  | cons op rest inductionHypothesis =>
      have split : (op :: rest).filterMap SchedOp.spawned =
          op.spawned.toList ++ rest.filterMap SchedOp.spawned := by
        cases spawnedEq : op.spawned with
        | none => rw [List.filterMap_cons_none spawnedEq, Option.toList_none, List.nil_append]
        | some thr =>
            rw [List.filterMap_cons_some spawnedEq, Option.toList_some, List.singleton_append]
      rw [split] at new ⊢
      have fresh : ∀ thr ∈ op.spawned, thr ∉ s.cpu.members queue := by
        intro thr present member
        exact (List.nodup_append.mp new).2.2 thr member thr
          (List.mem_append_left _ (Option.mem_toList.mpr present)) rfl
      obtain ⟨middle, queueMiddle, stepEq, runnableMiddle, perm, destroyed⟩ := runnable.step fresh
      rw [← List.append_assoc] at new ⊢
      have grown := perm.append_right (rest.filterMap SchedOp.spawned)
      obtain ⟨s', queue', runEq, runnable', perm', destroyed'⟩ :=
        inductionHypothesis runnableMiddle (grown.nodup_iff.mpr new)
      refine ⟨s', queue', ?_, runnable', perm'.trans grown, destroyed'.trans destroyed⟩
      rw [Sched.run, stepEq]
      exact runEq

/-- As long as there is an order, yields serve it in turns. -/
theorem Runnable.yields {queue : List T} (runnable : Runnable s queue) (frames : List X8664Context) :
    ∃ currents s', s.yields frames = .ok (currents, s') ∧
      (s.cpu.order queue ≠ [] →
        currents = (RoundRobin.served frames.length (s.cpu.order queue)).map some) := by
  induction frames generalizing s queue with
  | nil => exact ⟨[], s, rfl, fun _ => rfl⟩
  | cons frame rest inductionHypothesis =>
      obtain ⟨middle, frame', next, queue', done, yielded⟩ := runnable.yield frame
      obtain ⟨following, s', following_eq, served⟩ := inductionHypothesis yielded.runnable
      have order' : middle.cpu.order queue' = queue' ++ [next] := by
        rw [CpuLocal.order, yielded.current, Option.toList_some]
      rw [order'] at served
      refine ⟨some next :: following, s', ?_, ?_⟩
      · rw [Sched.yields, done]
        change (middle.yields rest).bind _ = _
        rw [following_eq]
        change Except.ok (middle.cpu.curThread :: following, s') = _
        rw [yielded.current]
      · intro nonempty
        rcases yielded.picked with ⟨order, _⟩ | ⟨order, _⟩
        · rw [order, List.length_cons, RoundRobin.served_succ, List.map_cons,
            served (List.concat_ne_nil next queue')]
        · exact absurd order nonempty

/-- From every state with a thread, any calls of `sched_yield` and any new threads leave
the threads of the CPU as they were, with the new ones added.  No call panics, no thread is
destroyed, and the current thread is in no list.  Without new threads, in every
`n` consecutive yields each of the `n` threads that take turns becomes current once. -/
theorem scheduler_conserves_and_rotates {s : Sched T} {queue : List T}
    (runnable : Runnable s queue) :
    (∀ ops : List (SchedOp T),
      (s.cpu.members queue ++ ops.filterMap SchedOp.spawned).Nodup →
      ∃ s' queue', s.run ops = .ok s' ∧ Runnable s' queue' ∧
        s'.cpu.runQueue.inner.iter s'.heap.nodes = some queue' ∧
        (s'.cpu.members queue').Perm
          (s.cpu.members queue ++ ops.filterMap SchedOp.spawned) ∧
        s'.heap.destroyed = s.heap.destroyed ∧
        ∀ thr ∈ s'.cpu.curThread, thr ∉ queue' ∧
          s'.heap.nodes (listNode thr) = InvasiveListNode.new) ∧
    ∀ frames : List X8664Context, ∃ currents s', s.yields frames = .ok (currents, s') ∧
      ∀ skipped, skipped + (s.cpu.order queue).length ≤ frames.length →
        ∀ thr ∈ s.cpu.order queue,
          ((currents.drop skipped).take (s.cpu.order queue).length).count (some thr) = 1 := by
  constructor
  · intro ops new
    obtain ⟨s', queue', runEq, runnable', perm, destroyed⟩ := runnable.run new
    refine ⟨s', queue', runEq, runnable', runnable'.iter_eq, perm, destroyed,
      fun thr present => ?_⟩
    exact ⟨runnable'.current_apart present, runnable'.current thr present⟩
  · intro frames
    obtain ⟨currents, s', yieldsEq, served⟩ := runnable.yields frames
    refine ⟨currents, s', yieldsEq, ?_⟩
    intro skipped inside thr member
    have window := RoundRobin.window_eq_rotate inside
    have distinct : (s.cpu.order queue).Nodup := (List.nodup_append.mp runnable.distinct).1
    rw [served (List.ne_nil_of_mem member), ← List.map_drop, ← List.map_take, window]
    refine List.count_eq_one_of_mem ?_ ?_
    · exact (List.nodup_rotate.mpr distinct).map (Option.some_injective T)
    · exact List.mem_map_of_mem (List.mem_rotate.mpr member)

/-- The state before `sched_init`. -/
def Sched.boot (T : Type) : Sched T :=
  { heap := { nodes := fun _ => InvasiveListNode.new, strong := fun _ => 0, destroyed := [] }
    threads := fun _ =>
      { stackPtr := 0, cpucontext := X8664Context.zeroed, timesliceInMs := 0 }
    cpu := { runQueue := ArcInvasiveList.new, curThread := none, idleThread := none }
    timer := 0 }

theorem schedInit_runnable (idle kernel : T) (differ : idle ≠ kernel)
    (useless idleStack kentry kernelStack : UInt64) :
    ∃ s, (Sched.boot T).schedInit idle kernel useless idleStack kentry kernelStack = .ok s ∧
      Runnable s [kernel] ∧ s.cpu.curThread = none ∧ s.cpu.idleThread = some idle ∧
      Thread.new kernelStack kentry 1 false = some (s.threads kernel) ∧
      Thread.new idleStack useless 10 false = some (s.threads idle) := by
  have arranged : Arranged (Sched.boot T) [] :=
    { shape := Shape.nil_new _ _ rfl rfl
      current := by
        rintro thr ⟨⟩
      idle := by
        rintro thr ⟨⟩
      distinct := List.nodup_nil
      held := fun _ member => absurd member List.not_mem_nil }
  have new : kernel ∉ (Sched.boot T).cpu.members [] := List.not_mem_nil
  obtain ⟨thread, s, threadEq, done, spawned⟩ := arranged.spawn new kernelStack kentry 1
  obtain ⟨idleThread, idleEq⟩ : ∃ thread, Thread.new idleStack useless 10 false = some thread :=
    ⟨_, rfl⟩
  have current : s.cpu.curThread = none := spawned.current
  have made : SameOutside [listNode idle] s.heap.nodes (s.arcNew idle idleThread).heap.nodes := by
    intro address away
    exact Function.update_of_ne (mt List.mem_singleton.mpr away) _ _
  let s' : Sched T :=
    { s.arcNew idle idleThread with timer := 10, cpu := { s.cpu with idleThread := some idle } }
  have members : s'.cpu.members [kernel] = [kernel, idle] := by
    simp [CpuLocal.members, CpuLocal.order, s', current]
  refine ⟨s', ?_, ?_, current, rfl, ?_, ?_⟩
  · rw [Sched.schedInit, idleEq]
    change ((Sched.boot T).spawn kernel kernelStack kentry 1).bind _ = _
    rw [done]
    rfl
  · exact
      { shape := by
          refine spawned.runnable.shape.frame made ?_
          intro cell member atIdle
          rw [List.mem_singleton.mp atIdle, mem_map_listNode] at member
          exact differ (List.mem_singleton.mp member)
        current := by
          intro thr present
          rw [show s'.cpu.curThread = none from current] at present
          cases present
        idle := by
          intro thr present
          obtain rfl : idle = thr := Option.some.inj present
          exact Function.update_self ..
        distinct := by
          rw [members]
          simp [differ.symm]
        held := by
          intro thr member
          rw [members] at member
          change 0 < Function.update s.heap.strong idle 1 thr
          by_cases same : thr = idle
          · rw [same, Function.update_self]
            exact Nat.one_pos
          · rw [Function.update_of_ne same]
            refine spawned.runnable.held thr ?_
            simp only [List.mem_cons, List.not_mem_nil, or_false] at member
            rw [member.resolve_right same]
            simp [CpuLocal.members, CpuLocal.order]
        nonempty := by
          rw [members]
          exact List.cons_ne_nil kernel [idle] }
  · change _ = some (Function.update s.threads idle idleThread kernel)
    rw [Function.update_of_ne differ.symm, spawned.threads, Function.update_self]
    exact threadEq
  · change _ = some (Function.update s.threads idle idleThread idle)
    rw [Function.update_self]
    exact idleEq

/-- The state that `sched_init` leaves, three yields and a new thread. -/
theorem scheduler_conserves_and_rotates_boot :
    ∃ s s' : Sched NodePointer, ∃ queue',
      (Sched.boot NodePointer).schedInit ⟨16, by decide⟩ ⟨32, by decide⟩ 1 2 3 4 = .ok s ∧
      s.run [.yield X8664Context.zeroed, .spawn ⟨48, by decide⟩ 5 6 7,
        .yield X8664Context.zeroed, .yield X8664Context.zeroed] = .ok s' ∧
      (s'.cpu.members queue').Perm [⟨32, by decide⟩, ⟨16, by decide⟩, ⟨48, by decide⟩] := by
  obtain ⟨s, done, runnable, current, idle, _⟩ := schedInit_runnable
    (⟨16, by decide⟩ : NodePointer) ⟨32, by decide⟩ (by decide) 1 2 3 4
  have members : s.cpu.members [⟨32, by decide⟩] = [⟨32, by decide⟩, ⟨16, by decide⟩] := by
    rw [CpuLocal.members, CpuLocal.order, current, idle]
    rfl
  obtain ⟨s', queue', runEq, _, _, perm, _⟩ := (scheduler_conserves_and_rotates runnable).1
    [.yield X8664Context.zeroed, .spawn ⟨48, by decide⟩ 5 6 7, .yield X8664Context.zeroed,
      .yield X8664Context.zeroed] (by rw [members]; decide)
  rw [members] at perm
  exact ⟨s, s', queue', done, runEq, perm⟩

end NyauxKernel.Scheduler
