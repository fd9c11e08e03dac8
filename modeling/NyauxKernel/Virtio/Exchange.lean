/-
Commands of the GPU driver in `virtio/mod.rs` as calls to the device.

The request and the answer are in pages of the page allocator, and the device reaches them
through the descriptors alone: it takes the next chain of the available ring, follows it,
reads what the readable descriptors point to and writes its answer where the writable ones
point to.  It works on whole words.
-/

import NyauxKernel.Memory.PageClients
import NyauxKernel.Virtio.Commands

namespace NyauxKernel.Virtio

open FreelistDescPool Memory WordBuffers

/-- The words of a header in memory. -/
def VirtioGpuCtrlHdr.words (header : VirtioGpuCtrlHdr) : List Nat :=
  [BitFields.pack [(32, header.typ.toNat), (32, header.flags.toNat)],
    header.fenceId.toNat,
    BitFields.pack [(32, header.ctxId.toNat), (8, header.ringIdx.toNat),
      (8, header.padding.1.toNat), (8, header.padding.2.1.toNat), (8, header.padding.2.2.toNat)]]

/-! ### The device -/

/-- The descriptors of a chain, as the device follows it. -/
def FreelistDescPool.follow (pool : FreelistDescPool) : Nat → UInt16 → List VirtqDesc
  | 0, _ => []
  | fuel + 1, index =>
      let desc := pool.virtqDescPool index.toNat
      desc :: if desc.flags &&& descNext ≠ 0 then pool.follow fuel desc.next else []

def VirtqDesc.writable (desc : VirtqDesc) : Bool := desc.flags &&& descWrite ≠ 0

/-- The number of words that a descriptor has room for. -/
def VirtqDesc.room (desc : VirtqDesc) : Nat := desc.len.toNat / 8

/-- What the readable descriptors of a chain point to. -/
def gather (hhdm : Nat) (memory : Nat → Nat) (descs : List VirtqDesc) : List Nat :=
  (descs.filter fun desc => !desc.writable).flatMap fun desc =>
    load memory (desc.addr.toNat + hhdm) desc.room

/-- Words written to where descriptors point to, as far as there is room. -/
def scatter (hhdm : Nat) (memory : Nat → Nat) : List VirtqDesc → List Nat → Nat → Nat
  | [], _ => memory
  | desc :: descs, words =>
      scatter hhdm (store memory (desc.addr.toNat + hhdm) (words.take desc.room)) descs
        (words.drop desc.room)

/-- The queue, the device's place in the available ring, and memory. -/
structure Exchange where
  vq : Virtq
  position : UInt16
  m : Machine

/-- The device serves the next chain of the available ring, if there is one. -/
def Exchange.serve (exchange : Exchange) (hhdm : Nat) (device : List Nat → List Nat) :
    Option Exchange :=
  if exchange.position = exchange.vq.availIdx then none
  else
    let q := exchange.vq.desc.queueSize
    let chain := exchange.vq.availRing (exchange.position.toNat % q)
    let descs := exchange.vq.desc.follow q chain
    let writable := descs.filter VirtqDesc.writable
    let answer := device (gather hhdm exchange.m.memory descs)
    let len := 8 * min answer.length (writable.map VirtqDesc.room).sum
    some
      { vq := exchange.vq.post { id := chain.toUInt32, len := UInt32.ofNat len }
        position := exchange.position + 1
        m := { exchange.m with memory := scatter hhdm exchange.m.memory writable answer } }

/-! ### The driver -/

/-- The request for a command whose pages are at `req` and `resp`. -/
def requestAt (typ answerSize : UInt32) (req resp : Nat) : Request :=
  { typ := typ
    answerSize := answerSize
    req := UInt64.ofNat req
    resp := UInt64.ofNat resp }

/-- `submit_simple_command_and_await_response` for the command `typ` with an answer of
`answerSize` bytes.  The device serves the queue while the driver waits.  The result is
`none` where the source panics or waits for ever. -/
def Exchange.submitSimpleCommandAndAwaitResponse (exchange : Exchange) (hhdm : Nat)
    (device : List Nat → List Nat) (typ answerSize : UInt32) : Option (Command × Exchange) := do
  let (result, desc) ← exchange.vq.desc.allocateChain 2
  match result with
  | .error _ => none
  | .ok head =>
      let (req, m) ← (allocatePage hhdm exchange.m).toOption
      let (resp, m) ← (allocatePage hhdm m).toOption
      let request := requestAt typ answerSize req resp
      let m := { m with memory := store m.memory req request.header.words }
      match { exchange.vq with
          desc := desc.describe (UInt64.ofNat hhdm) request head }.submitToQueue head with
      | (.error _, _) => none
      | (.ok _, vq) =>
          let served ← { exchange with vq := vq, m := m }.serve hhdm device
          let (used, vq) ← served.vq.readUsedQueueBlocking
          some ({ used := used, resp := request.resp, req := request.req },
            { served with vq := vq })

/-- `simple_command_cleanup`. -/
def Exchange.simpleCommandCleanup (exchange : Exchange) (hhdm : Nat) (command : Command) :
    Option Exchange := do
  let desc ← exchange.vq.desc.deallocateChain command.used.id.toUInt16
  let m ← (deallocatePage hhdm command.resp.toNat exchange.m).toOption
  let m ← (deallocatePage hhdm command.req.toNat m).toOption
  some { exchange with vq := { exchange.vq with desc := desc }, m := m }

/-! ### Runs -/

/-- A command that was answered and not cleaned up, with the words of the answer. -/
structure Sent where
  typ : UInt32
  answerSize : UInt32
  answer : List Nat
  command : Command
deriving DecidableEq

/-- The words of the request of a command. -/
def requestWords (typ : UInt32) : List Nat := (requestAt typ 0 0 0).header.words

def Sent.frames (hhdm : Nat) (sent : Sent) : List Nat :=
  [sent.command.resp.toNat - hhdm, sent.command.req.toNat - hhdm]

/-- The states that commands and cleanups lead to, each command with a device of its own
choice, with the pending commands and the frames that others own.  In between, the rest of
the kernel may do anything that leaves the pages of the pending commands alone. -/
inductive ExchangeRun (map : MemoryMap) (size : Nat) : Exchange → List Sent → List Nat → Prop
  | new {vq : Virtq} {m : Machine} (created : Virtq.new size = some vq)
      (reached : PmmReachable map m) :
      ExchangeRun map size { vq := vq, position := 0, m := m } []
        (liveFrames map.hhdm m.pmmCalls)
  | submit {exchange exchange' : Exchange} {pending : List Sent} {others : List Nat}
      {command : Command} (device : List Nat → List Nat) (typ answerSize : UInt32)
      (before : ExchangeRun map size exchange pending others)
      (fits : answerSize.toNat ≤ pageSize) (left : FramesLeft map.hhdm exchange.m 2)
      (done : exchange.submitSimpleCommandAndAwaitResponse map.hhdm device typ answerSize =
        some (command, exchange')) :
      ExchangeRun map size exchange'
        ({ typ := typ, answerSize := answerSize, answer := device (requestWords typ),
           command := command } :: pending) others
  | cleanup {exchange exchange' : Exchange} {pending : List Sent} {others : List Nat}
      {sent : Sent} (before : ExchangeRun map size exchange pending others)
      (member : sent ∈ pending)
      (done : exchange.simpleCommandCleanup map.hhdm sent.command = some exchange') :
      ExchangeRun map size exchange' (pending.erase sent) others
  | elsewhere {exchange : Exchange} {pending : List Sent} {others others' frames : List Nat}
      (m : Machine) (before : ExchangeRun map size exchange pending others)
      (conserved : Conserved map m frames)
      (owned : (liveFrames map.hhdm m.pmmCalls).Perm
        (pending.flatMap (Sent.frames map.hhdm) ++ others'))
      (kept : ∀ sent ∈ pending, ∀ frame ∈ sent.frames map.hhdm,
        PageKept map.hhdm exchange.m m frame) :
      ExchangeRun map size { exchange with m := m } pending others'

/-- The pages of a command: its request, and the answer as far as it fits. -/
structure Answered (hhdm : Nat) (memory : Nat → Nat) (sent : Sent) : Prop where
  mapped : hhdm ≤ sent.command.req.toNat ∧ hhdm ≤ sent.command.resp.toNat
  request : PageHolds memory sent.command.req.toNat (requestWords sent.typ)
  response : PageHolds memory sent.command.resp.toNat
    (sent.answer.take (sent.answerSize.toNat / 8))

variable {hhdm req resp size : Nat} {m : Machine} {head : UInt16} {vq vq' : Virtq}
  {answerSize typ : UInt32} {exchange : Exchange} {map : MemoryMap} {used : VirtqUsedElem}
  {command : Command} {desc : FreelistDescPool} {device : List Nat → List Nat}
  {pending : List Command}

theorem Answered.kept {m' : Machine} {sent : Sent} (answered : Answered hhdm m.memory sent)
    (kept : ∀ frame ∈ sent.frames hhdm, PageKept hhdm m m' frame) :
    Answered hhdm m'.memory sent := by
  have request := kept (sent.command.req.toNat - hhdm) (by simp [Sent.frames])
  have response := kept (sent.command.resp.toNat - hhdm) (by simp [Sent.frames])
  refine ⟨answered.mapped, ?_, ?_⟩
  · rw [← Nat.sub_add_cancel answered.mapped.1]
    apply request.holds
    rw [Nat.sub_add_cancel answered.mapped.1]
    exact answered.request
  · rw [← Nat.sub_add_cancel answered.mapped.2]
    apply response.holds
    rw [Nat.sub_add_cancel answered.mapped.2]
    exact answered.response

/-! ### One answer -/

/-- The descriptor of the request. -/
def requestDesc (hhdm : UInt64) (request : Request) (head : UInt16) : VirtqDesc :=
  { addr := request.req - hhdm, len := ctrlHdrSize, flags := descNext, next := head + 1 }

/-- The descriptor of the answer. -/
def answerDesc (hhdm : UInt64) (request : Request) : VirtqDesc :=
  { addr := request.resp - hhdm, len := request.answerSize, flags := descWrite, next := 0 }

theorem requestDesc_writable (hhdm : UInt64) (request : Request) (head : UInt16) :
    (requestDesc hhdm request head).writable = false := by
  change decide (descNext &&& descWrite ≠ 0) = false
  decide

theorem requestDesc_room (hhdm : UInt64) (request : Request) (head : UInt16) :
    (requestDesc hhdm request head).room = 3 := by
  change ctrlHdrSize.toNat / 8 = 3
  decide

theorem answerDesc_writable (hhdm : UInt64) (request : Request) :
    (answerDesc hhdm request).writable = true := by
  change decide (descWrite &&& descWrite ≠ 0) = true
  decide

/-- The chain of a command, as the device follows it. -/
theorem FreelistDescPool.follow_describe (pool : FreelistDescPool) (hhdm : UInt64)
    (request : Request) (next : (head + 1).toNat = head.toNat + 1) {fuel : Nat} (enough : 2 ≤ fuel) :
    (pool.describe hhdm request head).follow fuel head =
      [requestDesc hhdm request head, answerDesc hhdm request] := by
  obtain ⟨fuel, rfl⟩ := Nat.exists_eq_add_of_le' enough
  have first : (pool.describe hhdm request head).virtqDescPool head.toNat =
      requestDesc hhdm request head := by
    have different : head.toNat ≠ (head + 1).toNat := by omega
    exact (Function.update_of_ne different _ _).trans (Function.update_self _ _ _)
  have second : (pool.describe hhdm request head).virtqDescPool (head + 1).toNat =
      answerDesc hhdm request := Function.update_self _ _ _
  rw [follow, first]
  change _ :: (if descNext &&& descNext ≠ 0 then
    (pool.describe hhdm request head).follow (fuel + 1) (head + 1) else []) = _
  rw [if_pos (by decide), follow, second]
  change _ :: _ :: (if descWrite &&& descNext ≠ 0 then
    (pool.describe hhdm request head).follow fuel 0 else []) = _
  rw [if_neg (by decide)]

/-- A page of the direct map, from its physical address. -/
theorem direct_address {page : Nat} (mapped : hhdm ≤ page ∧ page < addressSpace) :
    (UInt64.ofNat page - UInt64.ofNat hhdm).toNat + hhdm = page := by
  unfold addressSpace at mapped
  rw [UInt64.toNat_sub, UInt64.toNat_ofNat', UInt64.toNat_ofNat']
  omega

/-- The device answers the request in the page of the command that was submitted last. -/
theorem Exchange.serve_command {pool : FreelistDescPool} (device : List Nat → List Nat)
    (described : vq.desc =
      pool.describe (UInt64.ofNat hhdm) (requestAt typ answerSize req resp) head)
    (next : (head + 1).toNat = head.toNat + 1) (size : 2 ≤ vq.desc.queueSize)
    (reqMapped : hhdm ≤ req ∧ req < addressSpace) (respMapped : hhdm ≤ resp ∧ resp < addressSpace)
    (holds : PageHolds m.memory req (requestWords typ)) :
    ∃ len, { vq := vq.submit head, position := vq.availIdx, m := m : Exchange }.serve hhdm device =
      some
        { vq := (vq.submit head).respond len
          position := vq.availIdx + 1
          m := { m with
            memory := store m.memory resp
              ((device (requestWords typ)).take (answerSize.toNat / 8)) } } := by
  have waiting : ¬vq.availIdx = (vq.submit head).availIdx := by
    intro same
    have numbers := congrArg UInt16.toNat same
    have below := vq.availIdx.toNat_lt
    change vq.availIdx.toNat = (vq.availIdx + 1).toNat at numbers
    rw [UInt16.toNat_add, UInt16.toNat_one] at numbers
    omega
  have chain : (vq.submit head).availRing
      (vq.availIdx.toNat % (vq.submit head).desc.queueSize) = head :=
    Function.update_self _ _ _
  have descs : (vq.submit head).desc.follow (vq.submit head).desc.queueSize head =
      [requestDesc (UInt64.ofNat hhdm) (requestAt typ answerSize req resp) head,
        answerDesc (UInt64.ofNat hhdm) (requestAt typ answerSize req resp)] := by
    change vq.desc.follow vq.desc.queueSize head = _
    rw [described] at size ⊢
    exact follow_describe pool _ _ next size
  have read : gather hhdm m.memory
      [requestDesc (UInt64.ofNat hhdm) (requestAt typ answerSize req resp) head,
        answerDesc (UInt64.ofNat hhdm) (requestAt typ answerSize req resp)] = requestWords typ := by
    simp only [gather, List.filter_cons, requestDesc_writable, answerDesc_writable, Bool.not_false,
      Bool.not_true, if_true, Bool.false_eq_true, if_false, List.filter_nil, List.flatMap_cons,
      List.flatMap_nil, List.append_nil, requestDesc_room]
    change load m.memory ((UInt64.ofNat req - UInt64.ofNat hhdm).toNat + hhdm) 3 = _
    rw [direct_address reqMapped]
    exact holds.load (show 3 ≤ pageSize / 8 by decide)
  have written : ∀ words, scatter hhdm m.memory
      [answerDesc (UInt64.ofNat hhdm) (requestAt typ answerSize req resp)] words =
      store m.memory resp (words.take (answerSize.toNat / 8)) := by
    intro words
    change store m.memory ((UInt64.ofNat resp - UInt64.ofNat hhdm).toNat + hhdm) _ = _
    rw [direct_address respMapped]
    rfl
  have writable : [requestDesc (UInt64.ofNat hhdm) (requestAt typ answerSize req resp) head,
        answerDesc (UInt64.ofNat hhdm) (requestAt typ answerSize req resp)].filter
      VirtqDesc.writable =
      [answerDesc (UInt64.ofNat hhdm) (requestAt typ answerSize req resp)] := by
    rw [List.filter_cons_of_neg (by simp [requestDesc_writable]),
      List.filter_cons_of_pos (answerDesc_writable _ _), List.filter_nil]
  rw [Exchange.serve, if_neg waiting]
  simp only [chain, descs, read, writable, written, Virtq.submit_last]
  exact ⟨_, rfl⟩

/-! ### Pages of the page allocator -/

/-- The pages of a command: taken, and filled with the request and then the answer. -/
theorem command_pages {first second : Nat} {frames : List Nat}
    (conserved : Conserved map m (first :: second :: frames)) (typ : UInt32) {answer : List Nat}
    (fits : answer.length ≤ pageSize / 8) :
    ∃ m₁ m₂, allocatePage map.hhdm m = .ok (first + map.hhdm, m₁) ∧
      allocatePage map.hhdm m₁ = .ok (second + map.hhdm, m₂) ∧
      let asked := { m₂ with memory := store m₂.memory (first + map.hhdm) (requestWords typ) }
      let done := { asked with memory := store asked.memory (second + map.hhdm) answer }
      PageHolds asked.memory (first + map.hhdm) (requestWords typ) ∧
      PageHolds done.memory (first + map.hhdm) (requestWords typ) ∧
      PageHolds done.memory (second + map.hhdm) answer ∧ Conserved map done frames ∧
      liveFrames map.hhdm done.pmmCalls = second :: first :: liveFrames map.hhdm m.pmmCalls ∧
      ∀ other ∈ liveFrames map.hhdm m.pmmCalls, PageKept map.hhdm m done other := by
  obtain ⟨m₁, done₁, conserved₁, live₁, empty₁, kept₁⟩ := conserved.take
  obtain ⟨m₂, done₂, conserved₂, live₂, empty₂, kept₂⟩ := conserved₁.take
  rw [live₁] at live₂ kept₂
  have distinct := (List.nodup_append.mp conserved₂.nodup).2.1
  rw [live₂, List.nodup_cons, List.nodup_cons] at distinct
  have different : second ≠ first := fun same => distinct.1 (same ▸ List.mem_cons_self)
  have firstLive : first ∈ liveFrames map.hhdm m₂.pmmCalls := by
    rw [live₂]
    simp
  have secondLive : second ∈ liveFrames map.hhdm m₂.pmmCalls := by
    rw [live₂]
    simp
  obtain ⟨conserved₃, kept₃⟩ := conserved₂.fill firstLive
    (show (requestWords typ).length ≤ pageSize / 8 from Nat.le_of_ble_eq_true rfl)
  obtain ⟨conserved₄, kept₄⟩ := conserved₃.fill secondLive fits
  change ∀ other ∈ liveFrames map.hhdm m₂.pmmCalls, _ at kept₄
  rw [live₂] at kept₃ kept₄
  have request := PageHolds.store (requestWords typ) ((kept₂ first (by simp)).holds empty₁)
  have response := PageHolds.store answer ((kept₃ second (by simp) different).holds empty₂)
  refine ⟨m₁, m₂, done₁, done₂, request, ?_, response, conserved₄, live₂, ?_⟩
  · exact (kept₄ first (by simp) different.symm).holds request
  · intro other live
    have inBoth : other ∈ second :: first :: liveFrames map.hhdm m.pmmCalls :=
      List.mem_cons_of_mem _ (List.mem_cons_of_mem _ live)
    have notFirst : other ≠ first := fun same => distinct.2.1 (same ▸ live)
    have notSecond : other ≠ second := fun same =>
      distinct.1 (same ▸ List.mem_cons_of_mem _ live)
    exact (((kept₁ other live).trans (kept₂ other (List.mem_cons_of_mem _ live))).trans
      (kept₃ other inBoth notFirst)).trans (kept₄ other inBoth notSecond)

/-! ### The parts of a command -/

theorem Virtq.submitToQueue_ok (done : vq.submitToQueue head = (.ok (), vq')) :
    vq' = vq.submit head := by
  unfold Virtq.submitToQueue at done
  dsimp only at done
  split at done
  · exact absurd (congrArg Prod.fst done) (by simp)
  · exact (congrArg Prod.snd done).symm

theorem Virtq.readUsed_availIdx (done : vq.readUsedQueueBlocking = some (used, vq')) :
    vq'.availIdx = vq.availIdx := by
  unfold Virtq.readUsedQueueBlocking at done
  split at done
  · contradiction
  · rw [← (Prod.mk.inj (Option.some.inj done)).2]

theorem Gpu.submit_parts {gpu gpu' : Gpu} {hhdm : UInt64} {request : Request} {len : UInt32}
    (chain : gpu.vq.desc.allocateChain 2 = some (.ok head, desc))
    (done : gpu.submitSimpleCommandAndAwaitResponse hhdm request len = some (command, gpu')) :
    let vq := { gpu.vq with desc := desc.describe hhdm request head }
    ∃ used, vq.submitToQueue head = (.ok (), vq.submit head) ∧
      ((vq.submit head).respond len).readUsedQueueBlocking = some (used, gpu'.vq) ∧
      command = { used := used, resp := request.resp, req := request.req } := by
  intro vq
  rw [Gpu.submitSimpleCommandAndAwaitResponse, chain] at done
  change (match vq.submitToQueue head with
    | (.error _, _) => none
    | (.ok _, vq) => ((vq.respond len).readUsedQueueBlocking).bind fun result =>
        some (({ used := result.1, resp := request.resp, req := request.req } : Command),
          ({ vq := result.2, headers := _ } : Gpu))) = some (command, gpu') at done
  rcases submitted : vq.submitToQueue head with ⟨_ | _, vq'⟩
  · rw [submitted] at done
    contradiction
  · rw [submitted] at done
    obtain rfl := Virtq.submitToQueue_ok submitted
    obtain ⟨⟨used, last⟩, read, rest⟩ := Option.bind_eq_some_iff.mp done
    obtain ⟨rfl, rfl⟩ := Prod.mk.inj (Option.some.inj rest)
    exact ⟨used, rfl, read, rfl⟩

theorem Exchange.submit_eq {served : Exchange} {m₁ m₂ : Machine}
    (chain : exchange.vq.desc.allocateChain 2 = some (.ok head, desc))
    (first : allocatePage hhdm exchange.m = .ok (req, m₁))
    (second : allocatePage hhdm m₁ = .ok (resp, m₂))
    (submitted : Virtq.submitToQueue { exchange.vq with
        desc := (desc.describe (UInt64.ofNat hhdm) (requestAt typ answerSize req resp) head) }
      head = (.ok (), vq)) (answered : Exchange.serve
        { vq := vq
          position := exchange.position
          m := { m₂ with memory := store m₂.memory req (requestWords typ) } }
      hhdm device = some served) (read : served.vq.readUsedQueueBlocking = some (used, vq')) :
    exchange.submitSimpleCommandAndAwaitResponse hhdm device typ answerSize =
      some ({ used := used, resp := UInt64.ofNat resp, req := UInt64.ofNat req },
        { served with vq := vq' }) := by
  rw [Exchange.submitSimpleCommandAndAwaitResponse, chain]
  simp only [Option.bind_eq_bind, Option.bind_some, first, second, Except.toOption, submitted]
  change (Exchange.serve
      { vq := vq
        position := exchange.position
        m := { m₂ with memory := store m₂.memory req (requestWords typ) } } hhdm device).bind _ = _
  rw [answered, Option.bind_some, read]
  rfl

/-! ### The invariant -/

/-- The driver without the pages of its commands. -/
def Exchange.gpu (exchange : Exchange) : Gpu :=
  { vq := exchange.vq, headers := fun _ => (requestAt 0 0 0 0).header }

structure ExchangeInv (map : MemoryMap) (size : Nat) (exchange : Exchange) (pending : List Sent)
    (others : List Nat) : Prop where
  queue : CommandInv size exchange.gpu (pending.map Sent.command)
  position : exchange.position = exchange.vq.availIdx
  conserved : ∃ frames, Conserved map exchange.m frames
  owned : (liveFrames map.hhdm exchange.m.pmmCalls).Perm
    (pending.flatMap (Sent.frames map.hhdm) ++ others)
  answered : ∀ sent ∈ pending, Answered map.hhdm exchange.m.memory sent

theorem CommandInv.of_vq {gpu gpu' : Gpu} (inv : CommandInv size gpu pending)
    (same : gpu'.vq = gpu.vq) : CommandInv size gpu' pending := by
  constructor <;> rw [same]
  · exact inv.pool
  · exact inv.free
  · exact inv.pairs
  · exact inv.answered
  · exact inv.taken

theorem CommandInv.perm {gpu : Gpu} {pending' : List Command} (inv : CommandInv size gpu pending)
    (order : pending.Perm pending') :
    CommandInv size gpu pending' where
  pool := inv.pool.perm (order.map Command.chain)
  free := inv.free
  pairs := fun command member => inv.pairs command (order.mem_iff.mpr member)
  answered := inv.answered
  taken := inv.taken

namespace ExchangeInv

variable {pending : List Sent} {others : List Nat}

theorem new {vq : Virtq} {m : Machine} (even : size % 2 = 0) (small : size < 2 ^ 16)
    (created : Virtq.new size = some vq) (reached : PmmReachable map m) :
    ExchangeInv map size { vq := vq, position := 0, m := m } []
      (liveFrames map.hhdm m.pmmCalls) where
  queue := CommandInv.new even small _ created
  position := by
    obtain ⟨desc, _, rest⟩ := Option.bind_eq_some_iff.mp created
    rw [← Option.some.inj rest]
  conserved := reached.conserved
  owned := List.Perm.refl _
  answered := fun _ member => absurd member List.not_mem_nil

/-- The frames of pending commands are allocated. -/
theorem frame_live (inv : ExchangeInv map size exchange pending others) {sent : Sent}
    (member : sent ∈ pending) {frame : Nat} (ofSent : frame ∈ sent.frames map.hhdm) :
    frame ∈ liveFrames map.hhdm exchange.m.pmmCalls :=
  inv.owned.mem_iff.mpr
    (List.mem_append_left _ (List.mem_flatMap.mpr ⟨sent, member, ofSent⟩))

/-- The first two frames of a chain that has them. -/
theorem two_frames (inv : ExchangeInv map size exchange pending others)
    (left : FramesLeft map.hhdm exchange.m 2) :
    ∃ first second frames, Conserved map exchange.m (first :: second :: frames) := by
  obtain ⟨frames, conserved⟩ := inv.conserved
  match frames, conserved.framesLeft left with
  | first :: second :: frames, _ => exact ⟨first, second, frames, conserved⟩

/-- The part of the queue in a command: the device follows its descriptors to the request,
and its answer is the one that is read. -/
theorem submit_served (inv : ExchangeInv map size exchange pending others) (small : size < 2 ^ 16)
    (enough : 2 ≤ exchange.vq.desc.numFree.toNat) (device : List Nat → List Nat)
    (typ answerSize : UInt32) {req resp : Nat} {m₁ m₂ : Machine}
    (reqMapped : map.hhdm ≤ req ∧ req < addressSpace)
    (respMapped : map.hhdm ≤ resp ∧ resp < addressSpace)
    (first : allocatePage map.hhdm exchange.m = .ok (req, m₁))
    (second : allocatePage map.hhdm m₁ = .ok (resp, m₂))
    (request : PageHolds (store m₂.memory req (requestWords typ)) req (requestWords typ)) :
    ∃ used exchange',
      let command : Command := { used := used, resp := UInt64.ofNat resp, req := UInt64.ofNat req }
      exchange.submitSimpleCommandAndAwaitResponse map.hhdm device typ answerSize =
        some (command, exchange') ∧
      exchange'.m = { m₂ with
        memory := store (store m₂.memory req (requestWords typ)) resp
          ((device (requestWords typ)).take (answerSize.toNat / 8)) } ∧
      exchange'.position = exchange'.vq.availIdx ∧
      CommandInv size exchange'.gpu (command :: pending.map Sent.command) := by
  let asked := requestAt typ answerSize req resp
  obtain ⟨desc, _, gpu₀, chain, _, taken, _, described, inv₀⟩ :=
    inv.queue.submit_returns small enough (UInt64.ofNat map.hhdm) asked 0
  have own := inv.queue.ownPair small enough taken
  have queueSize : (desc.describe (UInt64.ofNat map.hhdm) asked
      exchange.vq.desc.head).queueSize = size := by
    have sizes := inv₀.pool.queueSize
    rwa [described] at sizes
  let vq := { exchange.vq with
    desc := desc.describe (UInt64.ofNat map.hhdm) asked exchange.vq.desc.head }
  have isDescribed : vq.desc =
      desc.describe (UInt64.ofNat map.hhdm) asked exchange.vq.desc.head := rfl
  let m₃ := { m₂ with memory := store m₂.memory req (requestWords typ) }
  have holds : PageHolds m₃.memory req (requestWords typ) := request
  obtain ⟨len, served⟩ := Exchange.serve_command device isDescribed own.next
    (by rw [queueSize]; exact Nat.le_trans (by omega) own.inside) reqMapped respMapped holds
  -- the length that the device reports is known only now
  obtain ⟨desc', command, gpu', chain', done, _, _, _, inv'⟩ :=
    inv.queue.submit_returns small enough (UInt64.ofNat map.hhdm) asked len
  obtain rfl : desc' = desc := (Prod.mk.inj (Option.some.inj (chain'.symm.trans chain))).2
  obtain ⟨used, submitted, read, rfl⟩ := Gpu.submit_parts chain done
  rw [← show exchange.position = vq.availIdx from inv.position] at served
  refine ⟨used, _, Exchange.submit_eq chain first second submitted served read, rfl, ?_,
    inv'.of_vq rfl⟩
  change exchange.position + 1 = gpu'.vq.availIdx
  rw [Virtq.readUsed_availIdx read, inv.position]
  rfl

theorem submit_returns (inv : ExchangeInv map size exchange pending others)
    (small : size < 2 ^ 16) (addressed : map.Addressed)
    (enough : 2 ≤ exchange.vq.desc.numFree.toNat) (left : FramesLeft map.hhdm exchange.m 2)
    (device : List Nat → List Nat) (typ : UInt32) {answerSize : UInt32}
    (fits : answerSize.toNat ≤ pageSize) :
    ∃ command exchange',
      exchange.submitSimpleCommandAndAwaitResponse map.hhdm device typ answerSize =
        some (command, exchange') ∧
      ExchangeInv map size exchange'
        ({ typ := typ, answerSize := answerSize, answer := device (requestWords typ),
           command := command } :: pending) others := by
  obtain ⟨first, second, frames, conserved⟩ := inv.two_frames left
  have mapped : ∀ frame ∈ first :: second :: frames,
      map.hhdm ≤ frame + map.hhdm ∧ frame + map.hhdm < addressSpace := fun frame member =>
    ⟨Nat.le_add_left _ _, addressed frame ((conserved.mem_frames_iff frame).mp (Or.inl member))⟩
  have firstMapped := mapped first (by simp)
  have secondMapped := mapped second (by simp)
  have short : ((device (requestWords typ)).take (answerSize.toNat / 8)).length ≤ pageSize / 8 :=
    (List.length_take_le _ _).trans (Nat.div_le_div_right fits)
  obtain ⟨m₁, m₂, done₁, done₂, request, request', response, conserved', live, kept⟩ :=
    command_pages conserved typ short
  obtain ⟨used, exchange', done, memory, position, queue⟩ := inv.submit_served small enough device
    typ answerSize firstMapped secondMapped done₁ done₂ request
  have firstEq : (UInt64.ofNat (first + map.hhdm)).toNat = first + map.hhdm :=
    UInt64.toNat_ofNat_of_lt' firstMapped.2
  have secondEq : (UInt64.ofNat (second + map.hhdm)).toNat = second + map.hhdm :=
    UInt64.toNat_ofNat_of_lt' secondMapped.2
  refine ⟨_, exchange', done, ?_⟩
  constructor
  case queue => exact queue
  case position => exact position
  case conserved => exact ⟨frames, by rw [memory]; exact conserved'⟩
  case owned =>
    rw [memory, live, List.flatMap_cons, Sent.frames, firstEq, secondEq, Nat.add_sub_cancel,
      Nat.add_sub_cancel, List.append_assoc]
    exact inv.owned.append_left [second, first]
  case answered =>
    rw [memory]
    intro sent member
    rcases List.mem_cons.mp member with rfl | older
    · constructor
      · rw [firstEq, secondEq]
        exact ⟨firstMapped.1, secondMapped.1⟩
      · rw [firstEq]
        exact request'
      · rw [secondEq]
        exact response
    · exact (inv.answered sent older).kept fun frame ofSent =>
        kept frame (inv.frame_live older ofSent)

theorem cleanup_returns (inv : ExchangeInv map size exchange pending others)
    (small : size < 2 ^ 16) {sent : Sent} (member : sent ∈ pending) :
    ∃ exchange', exchange.simpleCommandCleanup map.hhdm sent.command = some exchange' ∧
      ExchangeInv map size exchange' (pending.erase sent) others := by
  obtain ⟨frames, conserved⟩ := inv.conserved
  obtain ⟨gpu', cleaned, queue⟩ := inv.queue.cleanup_returns small (List.mem_map_of_mem member)
  obtain ⟨desc, chain, rest⟩ := Option.bind_eq_some_iff.mp cleaned
  obtain rfl := Option.some.inj rest
  -- the frames in the order in which they are given back
  let resp := sent.command.resp.toNat - map.hhdm
  let req := sent.command.req.toNat - map.hhdm
  have mapped := (inv.answered sent member).mapped
  have owned : (liveFrames map.hhdm exchange.m.pmmCalls).Perm
      (resp :: req :: ((pending.erase sent).flatMap (Sent.frames map.hhdm) ++ others)) :=
    inv.owned.trans (((List.perm_cons_erase member).flatMap_right _).append_right others)
  obtain ⟨m₁, done₁, conserved₁, owned₁, kept₁⟩ := conserved.give owned
  obtain ⟨m₂, done₂, conserved₂, owned₂, kept₂⟩ := conserved₁.give owned₁
  refine ⟨{ exchange with vq := { exchange.vq with desc := desc }, m := m₂ }, ?_, ?_⟩
  · rw [Nat.sub_add_cancel mapped.2] at done₁
    rw [Nat.sub_add_cancel mapped.1] at done₂
    rw [Exchange.simpleCommandCleanup]
    change (exchange.gpu.vq.desc.deallocateChain sent.command.used.id.toUInt16).bind _ = _
    rw [chain, Option.bind_some, done₁]
    change ((deallocatePage map.hhdm sent.command.req.toNat m₁).toOption).bind _ = _
    rw [done₂]
    rfl
  · constructor
    case queue =>
      have order : ((pending.map Sent.command).erase sent.command).Perm
          ((pending.erase sent).map Sent.command) :=
        ((List.perm_cons_erase (List.mem_map_of_mem member)).symm.trans
          ((List.perm_cons_erase member).map Sent.command)).cons_inv
      exact (queue.perm order).of_vq rfl
    case position => exact inv.position
    case conserved => exact ⟨_, conserved₂⟩
    case owned => exact owned₂
    case answered =>
      intro other inRest
      apply (inv.answered other (List.mem_of_mem_erase inRest)).kept
      intro frame ofOther
      have isOwned : frame ∈ (pending.erase sent).flatMap (Sent.frames map.hhdm) ++ others :=
        List.mem_append_left _ (List.mem_flatMap.mpr ⟨other, inRest, ofOther⟩)
      exact (kept₁ frame (List.mem_cons_of_mem _ isOwned)).trans (kept₂ frame isOwned)

end ExchangeInv

/-- Commands that returned got their descriptors. -/
theorem Exchange.submit_enough {exchange' : Exchange}
    (done : exchange.submitSimpleCommandAndAwaitResponse hhdm device typ answerSize =
      some (command, exchange')) : 2 ≤ exchange.vq.desc.numFree.toNat := by
  by_contra few
  have short : exchange.vq.desc.numFree < 2 := by
    rw [UInt16.lt_iff_toNat_lt]
    exact Nat.lt_of_not_le few
  rw [Exchange.submitSimpleCommandAndAwaitResponse, allocateChain_refused (Or.inr short)] at done
  contradiction

theorem ExchangeRun.inv (even : size % 2 = 0) (small : size < 2 ^ 16) (addressed : map.Addressed)
    {pending : List Sent} {others : List Nat} (run : ExchangeRun map size exchange pending others) :
    ExchangeInv map size exchange pending others := by
  induction run with
  | new created reached => exact ExchangeInv.new even small created reached
  | submit device typ answerSize before fits left done inductionHypothesis =>
      obtain ⟨_, _, returned, inv⟩ := inductionHypothesis.submit_returns small addressed
        (Exchange.submit_enough done) left device typ fits
      obtain ⟨rfl, rfl⟩ := Prod.mk.inj (Option.some.inj (done.symm.trans returned))
      exact inv
  | cleanup before member done inductionHypothesis =>
      obtain ⟨_, returned, inv⟩ := inductionHypothesis.cleanup_returns small member
      obtain rfl := Option.some.inj (done.symm.trans returned)
      exact inv
  | elsewhere m before conserved owned kept inductionHypothesis =>
      exact
        { queue := inductionHypothesis.queue.of_vq rfl
          position := inductionHypothesis.position
          conserved := ⟨_, conserved⟩
          owned := owned
          answered := fun sent member =>
            (inductionHypothesis.answered sent member).kept (kept sent member) }

/-- A command is a call to the device.  In every run of commands and cleanups, whatever the
devices answer and whatever the rest of the kernel does with its own pages: a command with
two descriptors and two frames left returns; from then on until its cleanup, its request
page holds the request that the device was given and its answer page the device's answer to
it, as far as there is room, and zeros behind it; the pages of pending commands are distinct;
they and the pages of others are all the pages that are allocated; and a pending command can
be cleaned up. -/
theorem commands_are_calls (map : MemoryMap) (addressed : map.Addressed) (size : Nat)
    (even : size % 2 = 0) (small : size ≤ 256) (exchange : Exchange) (pending : List Sent)
    (others : List Nat) (run : ExchangeRun map size exchange pending others) :
    (∀ sent ∈ pending, Answered map.hhdm exchange.m.memory sent) ∧
    (pending.flatMap (Sent.frames map.hhdm)).Nodup ∧
    (liveFrames map.hhdm exchange.m.pmmCalls).Perm
      (pending.flatMap (Sent.frames map.hhdm) ++ others) ∧
    (∀ device typ answerSize, answerSize.toNat ≤ pageSize →
      2 ≤ exchange.vq.desc.numFree.toNat → FramesLeft map.hhdm exchange.m 2 →
      ∃ command exchange',
        exchange.submitSimpleCommandAndAwaitResponse map.hhdm device typ answerSize =
          some (command, exchange')) ∧
    (∀ sent ∈ pending, ∃ exchange',
      exchange.simpleCommandCleanup map.hhdm sent.command = some exchange') := by
  have narrow : size < 2 ^ 16 := by omega
  have inv := run.inv even narrow addressed
  obtain ⟨frames, conserved⟩ := inv.conserved
  have live := (List.nodup_append.mp conserved.nodup).2.1
  refine ⟨inv.answered, ?_, inv.owned, ?_, ?_⟩
  · exact (List.nodup_append.mp (inv.owned.nodup_iff.mp live)).1
  · intro device typ answerSize fits enough left
    obtain ⟨command, exchange', returned, _⟩ :=
      inv.submit_returns narrow addressed enough left device typ fits
    exact ⟨command, exchange', returned⟩
  · intro sent member
    obtain ⟨exchange', returned, _⟩ := inv.cleanup_returns narrow member
    exact ⟨exchange', returned⟩

theorem commands_are_calls_low_map :
    ∃ exchange sent others, ExchangeRun (lowMap 9) 4 exchange [sent] others ∧
      sent.typ = 0x100 ∧ sent.answer = [0x1101, 7] ∧
      Answered (lowMap 9).hhdm exchange.m.memory sent ∧
      ∃ exchange', ExchangeRun (lowMap 9) 4 exchange' [] others ∧
        (liveFrames (lowMap 9).hhdm exchange'.m.pmmCalls).Perm others := by
  have addressed : (lowMap 9).Addressed := by
    unfold MemoryMap.Addressed
    decide
  obtain ⟨m, initEq, conserved⟩ := pmmInit_conserved (lowMap 9) (m := bareMachine fun _ => 0)
    rfl rfl (by decide)
  have reached : PmmReachable (lowMap 9) m :=
    PmmReachable.init (m := bareMachine fun _ => 0) rfl rfl (by decide) initEq
  obtain ⟨vq, created⟩ : ∃ vq, Virtq.new 4 = some vq := ⟨_, rfl⟩
  have begun : ExchangeRun (lowMap 9) 4 _ [] _ := ExchangeRun.new created reached
  have left : FramesLeft (lowMap 9).hhdm m 2 := by
    obtain ⟨head, freelist, chain⟩ := conserved.chain
    exact ⟨head, _, freelist, chain, by decide⟩
  have free : 2 ≤ vq.desc.numFree.toNat := by
    obtain rfl := Option.some.inj created
    decide
  obtain ⟨_, _, _, returns, _⟩ :=
    commands_are_calls (lowMap 9) addressed 4 (by decide) (by decide) _ _ _ begun
  obtain ⟨command, exchange, done⟩ :=
    returns (fun _ => [0x1101, 7]) 0x100 408 (by decide) free left
  have run := ExchangeRun.submit _ _ _ begun (by decide) left done
  obtain ⟨answered, _, _, _, cleans⟩ :=
    commands_are_calls (lowMap 9) addressed 4 (by decide) (by decide) _ _ _ run
  obtain ⟨exchange', cleaned⟩ := cleans _ List.mem_cons_self
  have ended := ExchangeRun.cleanup run List.mem_cons_self cleaned
  rw [List.erase_cons_head] at ended
  obtain ⟨_, _, owned, _, _⟩ :=
    commands_are_calls (lowMap 9) addressed 4 (by decide) (by decide) _ _ _ ended
  exact ⟨exchange, _, _, run, rfl, rfl, answered _ List.mem_cons_self, exchange', ended, owned⟩

end NyauxKernel.Virtio
