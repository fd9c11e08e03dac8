/-
Threads and the scheduler of `scheduler/mod.rs`, with `Prepare_thread` and
`context_switch` of `arch/x86_64/mod.rs`.

A CPU has a current thread, a queue of threads that wait and a thread that runs when no
other can.  Threads are pointers; their records and their embedded list nodes are in the
state.  A yield happens in an interrupt with the scheduler's lock held, and is one step.
-/

import NyauxKernel.Util.ArcLists

namespace NyauxKernel.Scheduler

open NyauxKernel.Lists

/-- `x86_64Context`, the words an interrupt saves.  The array in a thread is these words. -/
structure X8664Context where
  r15 : UInt64
  r14 : UInt64
  r13 : UInt64
  r12 : UInt64
  r11 : UInt64
  r10 : UInt64
  r9 : UInt64
  r8 : UInt64
  rsi : UInt64
  rdi : UInt64
  rbp : UInt64
  rdx : UInt64
  rcx : UInt64
  rbx : UInt64
  rax : UInt64
  int : UInt64
  error : UInt64
  rip : UInt64
  cs : UInt64
  rflags : UInt64
  rsp : UInt64
  ss : UInt64
deriving DecidableEq, Repr

def X8664Context.zeroed : X8664Context :=
  { r15 := 0, r14 := 0, r13 := 0, r12 := 0, r11 := 0, r10 := 0, r9 := 0, r8 := 0
    rsi := 0, rdi := 0, rbp := 0, rdx := 0, rcx := 0, rbx := 0, rax := 0
    int := 0, error := 0, rip := 0, cs := 0, rflags := 0, rsp := 0, ss := 0 }

/-- `offset_of!(GdtTable, kernelcode)`: one descriptor of eight bytes is before it. -/
def kernelcode : UInt64 := 8

def kerneldata : UInt64 := 16

/-- `Prepare_thread`; `none` is the `todo!()` for user threads. -/
def prepareThread (slice : X8664Context) (entry stackPtr : UInt64) (user : Bool) :
    Option X8664Context :=
  if user then none
  else some
    { slice with
      rip := entry
      rsp := stackPtr
      cs := kernelcode
      ss := kerneldata
      rflags := 0x202 }

/-- `thread`; its list node is with the nodes of the heap. -/
structure Thread where
  stackPtr : UInt64
  cpucontext : X8664Context
  timesliceInMs : UInt64
deriving DecidableEq, Repr

def stackSize : UInt64 := 0x40000

/-- `thread::new`, with the stack that `vmm_alloc` gave. -/
def Thread.new (stack func timeslice : UInt64) (user : Bool) : Option Thread := do
  let stackPt := stack + stackSize
  let cpuctx ← prepareThread X8664Context.zeroed func stackPt user
  some { stackPtr := stackPt, cpucontext := cpuctx, timesliceInMs := timeslice }

/-- The part of `cpu_local` that the scheduler uses. -/
structure CpuLocal (T : Type) where
  runQueue : ArcInvasiveList
  curThread : Option T
  idleThread : Option T

structure Sched (T : Type) where
  heap : ArcHeap T
  threads : T → Thread
  cpu : CpuLocal T
  timer : UInt64

/-- The ways a call can fail: `todo!()`, the `unwrap` of a rejected `push_back`, the
`expect` of the idle thread, and a drop of a handle whose item is gone. -/
inductive SchedPanic
  | todo
  | rejected
  | noIdleThread
  | freed
deriving DecidableEq, Repr

variable {T : Type} [DecidableEq T]

/-- `Arc::new`: a record with an unlinked node and one handle. -/
def Sched.arcNew [HasListNode T] (s : Sched T) (thr : T) (thread : Thread) : Sched T :=
  { s with
    heap :=
      { s.heap with
        nodes := Function.update s.heap.nodes (listNode thr) InvasiveListNode.new
        strong := Function.update s.heap.strong thr 1 }
    threads := Function.update s.threads thr thread }

/-- `context_switch`.  The context of the old thread is written before that of the new
thread is read, and the two may be one thread. -/
def Sched.contextSwitch (s : Sched T) (oldThread : Option T) (newThread : T)
    (frame : X8664Context) : Except SchedPanic (Sched T × X8664Context) :=
  match oldThread with
  | some oldThr =>
      let threads :=
        Function.update s.threads oldThr { s.threads oldThr with cpucontext := frame }
      match s.heap.dropArc oldThr with
      | some heap => .ok ({ s with heap := heap, threads := threads },
          (threads newThread).cpucontext)
      | none => .error .freed
  | none => .ok (s, (s.threads newThread).cpucontext)

variable [HasListNode T]

/-- `run_queue.push_back(thr).unwrap()`. -/
def Sched.enqueue (s : Sched T) (thr : T) : Except SchedPanic (Sched T) :=
  match s.cpu.runQueue.pushBack s.heap thr with
  | some (.ok _, queue, heap) =>
      .ok { s with heap := heap, cpu := { s.cpu with runQueue := queue } }
  | some (.error _, _, _) => .error .rejected
  | none => .error .freed

/-- The first part of `sched_yield`: the current thread goes to the end of the queue, and
another handle of it is kept to save the frame. -/
def Sched.swapOut (s : Sched T) : Except SchedPanic (Option T × Sched T) :=
  match s.cpu.curThread with
  | some oldThr => do
      let s := { s with heap := s.heap.cloneArc oldThr, cpu := { s.cpu with curThread := none } }
      let s ← s.enqueue oldThr
      .ok (some oldThr, s)
  | none => .ok (none, s)

/-- The second part: the first thread of the queue, or the idle thread. -/
def Sched.nextThread (s : Sched T) : Except SchedPanic (T × Sched T) :=
  let (front, queue, heap) := s.cpu.runQueue.popFront s.heap
  let s := { s with heap := heap, cpu := { s.cpu with runQueue := queue } }
  match front with
  | some thr => .ok (thr, s)
  | none =>
      match s.cpu.idleThread with
      | some idle => .ok (idle, { s with cpu := { s.cpu with idleThread := none } })
      | none => .error .noIdleThread

def Sched.schedYield (s : Sched T) (cpuframe : X8664Context) :
    Except SchedPanic (Sched T × X8664Context) := do
  let (oldregs, s) ← s.swapOut
  let (next, s) ← s.nextThread
  let (s, cpuframe) ← s.contextSwitch oldregs next cpuframe
  .ok ({ s with
          timer := (s.threads next).timesliceInMs
          cpu := { s.cpu with curThread := some next } }, cpuframe)

/-- A new thread is made and queued. -/
def Sched.spawn (s : Sched T) (thr : T) (stack func timeslice : UInt64) :
    Except SchedPanic (Sched T) :=
  match Thread.new stack func timeslice false with
  | some thread => (s.arcNew thr thread).enqueue thr
  | none => .error .todo

/-- `sched_init`, with the addresses of `useless` and `kentry` and the stacks of the two
threads. -/
def Sched.schedInit (s : Sched T) (idle kernel : T)
    (useless idleStack kentry kernelStack : UInt64) : Except SchedPanic (Sched T) :=
  match Thread.new idleStack useless 10 false with
  | some idleThread => do
      let s ← s.spawn kernel kernelStack kentry 1
      let s := s.arcNew idle idleThread
      .ok { s with timer := 10, cpu := { s.cpu with idleThread := some idle } }
  | none => .error .todo

end NyauxKernel.Scheduler
