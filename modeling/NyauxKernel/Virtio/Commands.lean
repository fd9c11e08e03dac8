/-
The commands of the GPU driver in `virtio/mod.rs`.

A command takes a chain of two descriptors and writes its head and the descriptor with
the next number, without a look at the link between them.
-/

import NyauxKernel.Virtio.Queue
import NyauxKernel.Virtio.PoolInvariant

namespace NyauxKernel.Virtio

open FreelistDescPool

structure VirtioGpuCtrlHdr where
  typ : UInt32
  flags : UInt32
  fenceId : UInt64
  ctxId : UInt32
  ringIdx : UInt8
  padding : UInt8 × UInt8 × UInt8
deriving DecidableEq, Repr

/-- `size_of::<virtio_gpu_ctrl_hdr>()`. -/
def ctrlHdrSize : UInt32 := 24

/-- What a command is made for: its type `B`, the size of its answer `T`, and the pages
that it gets from the page allocator. -/
structure Request where
  typ : UInt32
  answerSize : UInt32
  req : UInt64
  resp : UInt64

/-- The header in the request page. -/
def Request.header (request : Request) : VirtioGpuCtrlHdr :=
  { typ := request.typ
    flags := 0
    fenceId := 0
    ctxId := 0
    ringIdx := 0
    padding := (0, 0, 0) }

/-- What a command returns: `(virtq_used_elem, *mut T, *mut virtio_gpu_ctrl_hdr)`. -/
structure Command where
  used : VirtqUsedElem
  resp : UInt64
  req : UInt64
deriving DecidableEq, Repr

/-- The queue and the headers in the request pages. -/
structure Gpu where
  vq : Virtq
  headers : UInt64 → VirtioGpuCtrlHdr

/-- The device answers the chain that was submitted last. -/
def Virtq.respond (vq : Virtq) (len : UInt32) : Virtq :=
  let chain := vq.availRing ((vq.availIdx - 1).toNat % vq.desc.queueSize)
  vq.post { id := chain.toUInt32, len := len }

/-- The two descriptors of a command.  They are written through unchecked pointers. -/
def FreelistDescPool.describe (pool : FreelistDescPool) (hhdm : UInt64) (request : Request)
    (head : UInt16) : FreelistDescPool :=
  (pool.set head
      { addr := request.req - hhdm, len := ctrlHdrSize, flags := descNext, next := head + 1 }).set
    (head + 1)
      { addr := request.resp - hhdm, len := request.answerSize, flags := descWrite, next := 0 }

/-- `submit_simple_command_and_await_response`, with the length that the device answers.
The result is `none` where the source panics or waits for ever. -/
def Gpu.submitSimpleCommandAndAwaitResponse (gpu : Gpu) (hhdm : UInt64) (request : Request)
    (len : UInt32) : Option (Command × Gpu) := do
  let (result, desc) ← gpu.vq.desc.allocateChain 2
  match result with
  | .error _ => none
  | .ok head =>
      let headers := Function.update gpu.headers request.req request.header
      match { gpu.vq with desc := desc.describe hhdm request head }.submitToQueue head with
      | (.error _, _) => none
      | (.ok _, vq) =>
          let (used, vq) ← (vq.respond len).readUsedQueueBlocking
          some ({ used := used, resp := request.resp, req := request.req },
            { vq := vq, headers := headers })

/-- `simple_command_cleanup`.  The pages go back to the page allocator. -/
def Gpu.simpleCommandCleanup (gpu : Gpu) (command : Command) : Option Gpu := do
  let desc ← gpu.vq.desc.deallocateChain command.used.id.toUInt16
  some { gpu with vq := { gpu.vq with desc := desc } }

/-- The states that commands lead to, with the commands that were answered and not cleaned
up. -/
inductive CommandRun (hhdm : UInt64) (queueSize : Nat) : Gpu → List Command → Prop
  | new {vq : Virtq} (headers : UInt64 → VirtioGpuCtrlHdr) (created : Virtq.new queueSize = some vq) :
      CommandRun hhdm queueSize { vq := vq, headers := headers } []
  | submit {gpu gpu' : Gpu} {pending : List Command} {command : Command} (request : Request)
      (len : UInt32) (before : CommandRun hhdm queueSize gpu pending)
      (done : gpu.submitSimpleCommandAndAwaitResponse hhdm request len = some (command, gpu')) :
      CommandRun hhdm queueSize gpu' (command :: pending)
  | cleanup {gpu gpu' : Gpu} {pending : List Command} {command : Command}
      (before : CommandRun hhdm queueSize gpu pending) (member : command ∈ pending)
      (done : gpu.simpleCommandCleanup command = some gpu') :
      CommandRun hhdm queueSize gpu' (pending.erase command)

/-! ### Pairs -/

def Command.head (command : Command) : UInt16 := command.used.id.toUInt16

def Command.chain (command : Command) : UInt16 × UInt16 := (command.head, 2)

/-- An even descriptor and the one behind it, again and again. -/
inductive Paired : List UInt16 → Prop
  | nil : Paired []
  | cons {index : UInt16} {rest : List UInt16} (even : index.toNat % 2 = 0) (paired : Paired rest) :
      Paired (index :: (index + 1) :: rest)

theorem Paired.split {first second : UInt16} {rest : List UInt16}
    (paired : Paired (first :: second :: rest)) :
    first.toNat % 2 = 0 ∧ second = first + 1 ∧ Paired rest := by
  generalize whole : first :: second :: rest = cells at paired
  cases paired with
  | nil => contradiction
  | cons even tail =>
      obtain ⟨rfl, others⟩ := List.cons.inj whole
      obtain ⟨rfl, rfl⟩ := List.cons.inj others
      exact ⟨even, rfl, tail⟩

variable {size : Nat} {gpu : Gpu} {pending : List Command}

theorem paired_indices (even : size % 2 = 0) (small : size < 2 ^ 16) : Paired (indices size) := by
  -- the indices from `k` on, two at a time
  have paired : ∀ n k, k % 2 = 0 → k + 2 * n < 2 ^ 16 →
      Paired ((List.range' k (2 * n)).map UInt16.ofNat) := by
    intro n
    induction n with
    | zero => exact fun _ _ _ => Paired.nil
    | succ n inductionHypothesis =>
        intro k evenStart inside
        have rest := inductionHypothesis (k + 2) (by omega) (by omega)
        rw [Nat.mul_succ, List.range'_succ, List.range'_succ, List.map_cons, List.map_cons,
          UInt16.ofNat_add k 1]
        exact Paired.cons (by rw [toNat_ofNat_lt (by omega)]; exact evenStart) rest
  have whole := paired (size / 2) 0 rfl (by omega)
  rw [indices, List.range_eq_range']
  rwa [show 2 * (size / 2) = size by omega] at whole

/-- The next number of an even one. -/
theorem toNat_succ_of_even {index : UInt16} (even : index.toNat % 2 = 0) :
    (index + 1).toNat = index.toNat + 1 := by
  have below := index.toNat_lt
  rw [UInt16.toNat_add, UInt16.toNat_one]
  omega

variable {pool pool' : FreelistDescPool} {live : List (UInt16 × UInt16)} {command : Command}
  {hhdm : UInt64}

theorem FreelistDescPool.PoolInv.perm {live' : List (UInt16 × UInt16)}
    (inv : PoolInv size pool live) (order : live.Perm live') :
    PoolInv size pool live' where
  queueSize := inv.queueSize
  covers := ((order.symm.flatMap_right pool.ofChain).append_left _).trans inv.covers
  chains := fun chain member => inv.chains chain (order.mem_iff.mpr member)

/-! ### The invariant -/

structure CommandInv (size : Nat) (gpu : Gpu) (pending : List Command) : Prop where
  pool : PoolInv size gpu.vq.desc (pending.map Command.chain)
  free : Paired gpu.vq.desc.free
  pairs : ∀ command ∈ pending, command.head.toNat % 2 = 0 ∧
    gpu.vq.desc.ofChain command.chain = [command.head, command.head + 1]
  answered : gpu.vq.usedIdx = gpu.vq.consumerUsedIdx
  taken : gpu.vq.availIdx = gpu.vq.consumerUsedIdx

theorem CommandInv.new (even : size % 2 = 0) (small : size < 2 ^ 16) {vq : Virtq}
    (headers : UInt64 → VirtioGpuCtrlHdr) (created : Virtq.new size = some vq) :
    CommandInv size { vq := vq, headers := headers } [] := by
  obtain ⟨desc, made, rest⟩ := Option.bind_eq_some_iff.mp created
  obtain rfl := Option.some.inj rest
  refine ⟨PoolInv.new small made, ?_, fun _ member => absurd member List.not_mem_nil, rfl, rfl⟩
  change Paired desc.free
  rw [(PoolInv.free_new small made).1]
  exact paired_indices even small

theorem Virtq.submit_last (vq : Virtq) (head : UInt16) (len : UInt32) :
    (vq.submit head).respond len = (vq.submit head).post { id := head.toUInt32, len := len } := by
  have last : (vq.submit head).availRing
      (((vq.submit head).availIdx - 1).toNat % (vq.submit head).desc.queueSize) = head := by
    change Function.update vq.availRing (vq.availIdx.toNat % vq.desc.queueSize) head
      ((vq.availIdx + 1 - 1).toNat % vq.desc.queueSize) = head
    rw [UInt16.add_sub_cancel, Function.update_self]
  rw [Virtq.respond, last]

/-- One round trip through an empty queue. -/
theorem Virtq.round_trip (vq : Virtq) (answered : vq.usedIdx = vq.consumerUsedIdx)
    (taken : vq.availIdx = vq.consumerUsedIdx) (positive : 0 < vq.desc.queueSize)
    (small : vq.desc.queueSize < 2 ^ 16) (head : UInt16) (len : UInt32) :
    vq.submitToQueue head = (.ok (), vq.submit head) ∧
      ∃ vq', ((vq.submit head).respond len).readUsedQueueBlocking =
          some ({ id := head.toUInt32, len := len }, vq') ∧
        vq'.desc = vq.desc ∧ vq'.usedIdx = vq'.consumerUsedIdx ∧
        vq'.availIdx = vq'.consumerUsedIdx := by
  constructor
  · unfold Virtq.submitToQueue
    rw [taken, UInt16.sub_self]
    apply if_neg
    rw [ge_iff_le, UInt16.le_iff_toNat_le, toNat_ofNat_lt small]
    exact Nat.not_le_of_gt positive
  · have newer : vq.consumerUsedIdx + 1 ≠ vq.consumerUsedIdx := by
      intro same
      have numbers := congrArg UInt16.toNat same
      have below := vq.consumerUsedIdx.toNat_lt
      rw [UInt16.toNat_add, UInt16.toNat_one] at numbers
      omega
    rw [vq.submit_last head len]
    let after := (vq.submit head).post { id := head.toUInt32, len := len }
    refine ⟨{ after with consumerUsedIdx := vq.consumerUsedIdx + 1 }, ?_, rfl,
      congrArg (· + 1) answered, congrArg (· + 1) taken⟩
    have pending : ¬after.usedIdx = after.consumerUsedIdx := by
      change ¬vq.usedIdx + 1 = vq.consumerUsedIdx
      rw [answered]
      exact newer
    have answer : after.usedRing (vq.consumerUsedIdx.toNat % vq.desc.queueSize) =
        { id := head.toUInt32, len := len } := by
      rw [← answered]
      exact Function.update_self ..
    rw [Virtq.readUsedQueueBlocking, if_neg pending]
    exact congrArg (fun element => some (element, _)) answer

/-- The chain of a command is a pair. -/
theorem FreelistDescPool.PoolInv.Taken.pair (taken : PoolInv.Taken size pool live 2 pool')
    (paired : Paired pool.free) (enough : 2 ≤ pool.numFree.toNat) :
    pool.head.toNat % 2 = 0 ∧ pool'.ofChain (pool.head, 2) = [pool.head, pool.head + 1] ∧
      pool.link pool.head = pool.head + 1 ∧ Paired pool'.free := by
  have start : pool.free = pool.head :: pool.link pool.head ::
      pool.reached (pool.link (pool.link pool.head)) (pool.numFree.toNat - 2) :=
    PoolInv.free_split pool enough
  have split : pool.free = pool.head :: pool'.link pool.head :: pool'.free := taken.split
  rw [split] at paired start
  obtain ⟨even, next, rest⟩ := paired.split
  have linked : pool'.link pool.head = pool.link pool.head :=
    (List.cons.inj (List.cons.inj start).2).1
  refine ⟨even, ?_, linked ▸ next, rest⟩
  change [pool.head, pool'.link pool.head] = _
  rw [next]

/-- The two descriptors of a command are written where they are. -/
theorem FreelistDescPool.PoolInv.Taken.describe (taken : PoolInv.Taken size pool live 2 pool')
    (paired : Paired pool.free) (enough : 2 ≤ pool.numFree.toNat) (hhdm : UInt64)
    (request : Request) :
    PoolInv size (pool'.describe hhdm request pool.head) ((pool.head, 2) :: live) ∧
      (pool'.describe hhdm request pool.head).free = pool'.free ∧
      (pool'.describe hhdm request pool.head).ofChain = pool'.ofChain := by
  obtain ⟨_, pairEq, linked, _⟩ := taken.pair paired enough
  have next : pool'.link pool.head = pool.head + 1 := (List.cons.inj (List.cons.inj pairEq).2).1
  have cut : pool'.link (pool.head + 1) = 0 := by
    have atLast : pool'.link (pool.link pool.head) = 0 := taken.cut
    rwa [linked] at atLast
  have chain : Chain pool' pool.head 2 := taken.inv.chains _ List.mem_cons_self
  have goesOn : pool'.Continues pool.head := (chain.flags 0 (by decide)).mpr (by decide)
  obtain ⟨inv, freeEq, chains⟩ := taken.inv.rewrite pool.head
    { addr := request.req - hhdm, len := ctrlHdrSize, flags := descNext, next := pool.head + 1 }
    (iff_of_true (show descNext &&& descNext ≠ 0 by decide) goesOn) next.symm
  have links : (pool'.set pool.head
      { addr := request.req - hhdm, len := ctrlHdrSize, flags := descNext,
        next := pool.head + 1 }).link = pool'.link := set_link_same next.symm
  have chain' : Chain (pool'.set pool.head _) pool.head 2 := inv.chains _ List.mem_cons_self
  have ends := mt (chain'.flags 1 (by decide)).mp (by decide)
  rw [links] at ends
  obtain ⟨inv', freeEq', chains'⟩ := inv.rewrite (pool.head + 1)
    { addr := request.resp - hhdm, len := request.answerSize, flags := descWrite, next := 0 }
    (iff_of_false (show ¬descWrite &&& descNext ≠ 0 by decide) (next ▸ ends))
    (by rw [links, cut])
  exact ⟨inv', freeEq'.trans freeEq, chains'.trans chains⟩

/-- A command that can get its descriptors returns, with its head as the answer's id. -/
theorem CommandInv.submit_returns (inv : CommandInv size gpu pending) (small : size < 2 ^ 16)
    (enough : 2 ≤ gpu.vq.desc.numFree.toNat) (hhdm : UInt64) (request : Request) (len : UInt32) :
    ∃ desc' command gpu', gpu.vq.desc.allocateChain 2 = some (.ok gpu.vq.desc.head, desc') ∧
      gpu.submitSimpleCommandAndAwaitResponse hhdm request len = some (command, gpu') ∧
      PoolInv.Taken size gpu.vq.desc (pending.map Command.chain) 2 desc' ∧
      command.head = gpu.vq.desc.head ∧
      gpu'.vq.desc = desc'.describe hhdm request gpu.vq.desc.head ∧
      CommandInv size gpu' (command :: pending) := by
  have accepted : ¬((2 : UInt16) = 0 ∨ gpu.vq.desc.numFree < 2) := by
    rintro (zero | short)
    · exact absurd zero (by decide)
    · rw [UInt16.lt_iff_toNat_lt] at short
      exact absurd enough (Nat.not_le_of_gt short)
  obtain ⟨desc', done, taken⟩ := inv.pool.allocate_returns small accepted
  obtain ⟨even, pairEq, _, rest⟩ := taken.pair inv.free enough
  obtain ⟨pool, freeEq, chains⟩ := taken.describe inv.free enough hhdm request
  have positive : 0 < size := by
    have total := inv.pool.total
    omega
  obtain ⟨submitted, vq', read, descEq, answered', taken'⟩ :=
    Virtq.round_trip { gpu.vq with desc := desc'.describe hhdm request gpu.vq.desc.head }
      inv.answered inv.taken (by rw [pool.queueSize]; exact positive)
      (by rw [pool.queueSize]; exact small) gpu.vq.desc.head len
  let command : Command :=
    { used := { id := gpu.vq.desc.head.toUInt32, len := len }
      resp := request.resp
      req := request.req }
  have headEq : command.head = gpu.vq.desc.head := UInt16.toUInt16_toUInt32 _
  have descEq' : vq'.desc = desc'.describe hhdm request gpu.vq.desc.head := descEq
  have pairs : ∀ old ∈ pending, desc'.ofChain old.chain = [old.head, old.head + 1] := by
    intro old member
    rw [taken.others _ (List.mem_map_of_mem member)]
    exact (inv.pairs old member).2
  let headers := Function.update gpu.headers request.req request.header
  refine ⟨desc', command, { vq := vq', headers := headers }, done, ?_, taken, headEq, descEq', ?_⟩
  · rw [Gpu.submitSimpleCommandAndAwaitResponse, done]
    change (match Virtq.submitToQueue _ gpu.vq.desc.head with
      | (.error _, _) => none
      | (.ok _, vq) => _) = _
    rw [submitted]
    change (Virtq.readUsedQueueBlocking _).bind _ = _
    rw [read]
    rfl
  · constructor
    · rw [List.map_cons, descEq', Command.chain, headEq]
      exact pool
    · rw [descEq', freeEq]
      exact rest
    · intro old member
      rw [descEq', chains]
      rcases List.mem_cons.mp member with rfl | older
      · rw [Command.chain, headEq]
        exact ⟨even, pairEq⟩
      · exact ⟨(inv.pairs old older).1, pairs old older⟩
    · exact answered'
    · exact taken'

theorem CommandInv.cleanup_returns (inv : CommandInv size gpu pending) (small : size < 2 ^ 16)
    (member : command ∈ pending) :
    ∃ gpu', gpu.simpleCommandCleanup command = some gpu' ∧
      CommandInv size gpu' (pending.erase command) := by
  have inChains : command.chain ∈ pending.map Command.chain := List.mem_map_of_mem member
  obtain ⟨desc', done, returned⟩ := inv.pool.deallocate_returns small inChains
  have order : ((pending.map Command.chain).erase command.chain).Perm
      ((pending.erase command).map Command.chain) :=
    ((List.perm_cons_erase inChains).symm.trans
      ((List.perm_cons_erase member).map Command.chain)).cons_inv
  obtain ⟨even, pairEq⟩ := inv.pairs command member
  refine ⟨{ gpu with vq := { gpu.vq with desc := desc' } }, ?_, ?_⟩
  · rw [Gpu.simpleCommandCleanup]
    change (gpu.vq.desc.deallocateChain command.chain.1).bind _ = _
    rw [done]
    rfl
  · constructor
    · exact returned.inv.perm order
    · change Paired desc'.free
      rw [returned.joined, pairEq]
      exact Paired.cons even inv.free
    · intro other inRest
      obtain ⟨evenOther, pairOther⟩ := inv.pairs other (List.mem_of_mem_erase inRest)
      refine ⟨evenOther, ?_⟩
      change desc'.ofChain other.chain = _
      rw [returned.others _ (order.mem_iff.mpr (List.mem_map_of_mem inRest)), pairOther]
    · exact inv.answered
    · exact inv.taken

/-- Commands that returned got their descriptors. -/
theorem Gpu.submit_enough {gpu' : Gpu} {request : Request} {len : UInt32}
    (done : gpu.submitSimpleCommandAndAwaitResponse hhdm request len = some (command, gpu')) :
    2 ≤ gpu.vq.desc.numFree.toNat := by
  by_contra few
  have short : gpu.vq.desc.numFree < 2 := by
    rw [UInt16.lt_iff_toNat_lt]
    exact Nat.lt_of_not_le few
  rw [Gpu.submitSimpleCommandAndAwaitResponse, allocateChain_refused (Or.inr short)] at done
  contradiction

theorem CommandRun.inv (even : size % 2 = 0) (small : size < 2 ^ 16)
    (run : CommandRun hhdm size gpu pending) : CommandInv size gpu pending := by
  induction run with
  | new headers created => exact CommandInv.new even small headers created
  | submit request len before done inductionHypothesis =>
      obtain ⟨_, _, _, _, returned, _, _, _, inv⟩ := inductionHypothesis.submit_returns small
        (Gpu.submit_enough done) hhdm request len
      obtain ⟨rfl, rfl⟩ := Prod.mk.inj (Option.some.inj (done.symm.trans returned))
      exact inv
  | cleanup before member done inductionHypothesis =>
      obtain ⟨gpu', returned, inv⟩ := inductionHypothesis.cleanup_returns small member
      obtain rfl := Option.some.inj (done.symm.trans returned)
      exact inv

/-! ### The descriptors of a command -/

/-- What holds of a chain that `allocate_chain(2)` returned: it is the head and the
descriptor with the next number, in the table, not free and of no other command. -/
structure OwnPair (size : Nat) (pool : FreelistDescPool) (pending : List Command) (head : UInt16) :
    Prop where
  chain : pool.ofChain (head, 2) = [head, head + 1]
  next : (head + 1).toNat = head.toNat + 1
  inside : head.toNat + 1 < size
  notFree : ∀ index ∈ [head, head + 1], index ∉ pool.free
  notOther : ∀ index ∈ [head, head + 1], ∀ command ∈ pending,
    index ∉ [command.head, command.head + 1]

theorem CommandInv.ownPair (inv : CommandInv size gpu pending) (small : size < 2 ^ 16)
    (enough : 2 ≤ gpu.vq.desc.numFree.toNat) {desc' : FreelistDescPool}
    (taken : PoolInv.Taken size gpu.vq.desc (pending.map Command.chain) 2 desc') :
    OwnPair size desc' pending gpu.vq.desc.head := by
  obtain ⟨even, pairEq, _, _⟩ := taken.pair inv.free enough
  have next := toNat_succ_of_even even
  have live : ∀ index ∈ [gpu.vq.desc.head, gpu.vq.desc.head + 1],
      index ∈ desc'.ofChain (gpu.vq.desc.head, 2) := fun index member => pairEq ▸ member
  have disjoint := (List.pairwise_cons.mp (taken.inv.chains_disjoint small)).1
  refine ⟨pairEq, next, ?_, ?_, ?_⟩
  · rw [← next]
    apply taken.inv.inside small
    refine List.mem_append_right _ (List.mem_flatMap.mpr ⟨_, List.mem_cons_self, ?_⟩)
    exact live _ (by simp)
  · exact fun index member isFree =>
      taken.inv.free_unused small isFree List.mem_cons_self (live index member)
  · intro index member command isPending inOther
    have inChains : command.chain ∈ pending.map Command.chain := List.mem_map_of_mem isPending
    refine disjoint command.chain inChains (live index member) ?_
    rw [taken.others _ inChains, (inv.pairs command isPending).2]
    exact inOther

/-- Commands touch only their own descriptors.  In every state of every run of commands and
cleanups on a queue of even size: the chain that `allocate_chain(2)` returns is the head and
the descriptor with the next number, which is in the table, not free and of no other
command; a command changes no other descriptor; commands with descriptors left and cleanups
of pending commands return; and with nothing pending all descriptors are free. -/
theorem commands_own_descriptors (hhdm : UInt64) (size : Nat) (even : size % 2 = 0)
    (small : size ≤ 256) (gpu : Gpu) (pending : List Command)
    (run : CommandRun hhdm size gpu pending) :
    (∀ head desc, gpu.vq.desc.allocateChain 2 = some (.ok head, desc) →
      OwnPair size desc pending head) ∧
    (∀ request len command gpu',
      gpu.submitSimpleCommandAndAwaitResponse hhdm request len = some (command, gpu') →
      command.head = gpu.vq.desc.head ∧
      ∀ index, index ∉ [command.head, command.head + 1] →
        gpu'.vq.desc.virtqDescPool index.toNat = gpu.vq.desc.virtqDescPool index.toNat) ∧
    (2 ≤ gpu.vq.desc.numFree.toNat → ∀ request len, ∃ command gpu',
      gpu.submitSimpleCommandAndAwaitResponse hhdm request len = some (command, gpu')) ∧
    (∀ command ∈ pending, ∃ gpu', gpu.simpleCommandCleanup command = some gpu') ∧
    (pending = [] → gpu.vq.desc.numFree.toNat = size) := by
  have narrow : size < 2 ^ 16 := by omega
  have inv := run.inv even narrow
  refine ⟨?_, ?_, ?_, ?_, ?_⟩
  · intro head desc done
    by_cases refused : (2 : UInt16) = 0 ∨ gpu.vq.desc.numFree < 2
    · rw [allocateChain_refused refused] at done
      have impossible := (Prod.mk.inj (Option.some.inj done)).1
      contradiction
    · have enough : 2 ≤ gpu.vq.desc.numFree.toNat :=
        UInt16.le_iff_toNat_le.mp (UInt16.not_lt.mp (not_or.mp refused).2)
      obtain ⟨desc', returned, taken⟩ := inv.pool.allocate_returns narrow refused
      obtain ⟨same, rfl⟩ := Prod.mk.inj (Option.some.inj (done.symm.trans returned))
      obtain rfl := Except.ok.inj same
      exact inv.ownPair narrow enough taken
  · intro request len command gpu' done
    have enough := Gpu.submit_enough done
    obtain ⟨desc', _, _, _, returned, taken, headEq, descEq, _⟩ :=
      inv.submit_returns narrow enough hhdm request len
    obtain ⟨rfl, rfl⟩ := Prod.mk.inj (Option.some.inj (done.symm.trans returned))
    refine ⟨headEq, ?_⟩
    intro index absent
    have pairEq := (inv.ownPair narrow enough taken).chain
    rw [headEq] at absent
    obtain ⟨notHead, notNext⟩ : index ≠ gpu.vq.desc.head ∧ index ≠ gpu.vq.desc.head + 1 := by
      simpa using absent
    rw [descEq, describe, set_other _ notNext, set_other _ notHead]
    exact taken.quiet index (pairEq ▸ absent)
  · intro enough request len
    obtain ⟨_, command, gpu', _, returned, _⟩ := inv.submit_returns narrow enough hhdm request len
    exact ⟨command, gpu', returned⟩
  · intro command member
    obtain ⟨gpu', returned, _⟩ := inv.cleanup_returns narrow member
    exact ⟨gpu', returned⟩
  · rintro rfl
    exact inv.pool.total

theorem commands_own_descriptors_four :
    ∃ gpu command, CommandRun 0 4 gpu [command] ∧ ∃ gpu', CommandRun 0 4 gpu' [] ∧
      gpu'.vq.desc.numFree.toNat = 4 := by
  let request : Request := { typ := 0x100, answerSize := 408, req := 0x1000, resp := 0x2000 }
  obtain ⟨vq, created⟩ : ∃ vq, Virtq.new 4 = some vq := ⟨_, rfl⟩
  have begun : CommandRun 0 4 { vq := vq, headers := fun _ => request.header } [] :=
    CommandRun.new _ created
  obtain ⟨_, _, returns, _, whole⟩ :=
    commands_own_descriptors 0 4 (by decide) (by decide) _ _ begun
  obtain ⟨command, gpu, done⟩ := returns (by rw [whole rfl]; decide) request 24
  have run := CommandRun.submit _ _ begun done
  obtain ⟨_, _, _, cleans, _⟩ := commands_own_descriptors 0 4 (by decide) (by decide) _ _ run
  obtain ⟨gpu', cleaned⟩ := cleans command List.mem_cons_self
  have ended := CommandRun.cleanup run List.mem_cons_self cleaned
  rw [List.erase_cons_head] at ended
  exact ⟨gpu, command, run, gpu', ended,
    (commands_own_descriptors 0 4 (by decide) (by decide) _ _ ended).2.2.2.2 rfl⟩

end NyauxKernel.Virtio
