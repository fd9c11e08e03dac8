/-
The split virtqueue of `virtio/mod.rs` between the driver and a device.

Three free-running sixteen-bit indices are shared: the driver advances
`avail.idx` and its private `consumer_used_idx`, the device advances `used.idx`
and its private position in the available ring.  A step of the system is one
driver call or one device action.  The histories kept beside the queue record
what each party handed over; no step reads them.
-/

import NyauxKernel.Library.RingWindow
import NyauxKernel.Virtio.DescriptorPool
import Mathlib.Data.List.Perm.Basic
import Mathlib.Logic.Relation

namespace NyauxKernel.Virtio

structure VirtqUsedElem where
  id : UInt32
  len : UInt32
deriving DecidableEq, Repr

/-- Driver state together with the two shared rings it points to. -/
structure Virtq where
  consumerUsedIdx : UInt16
  desc : FreelistDescPool
  availIdx : UInt16
  availRing : Nat → UInt16
  usedIdx : UInt16
  usedRing : Nat → VirtqUsedElem

/-- `virtq::new`: both ring pages come zeroed from the frame allocator. -/
def Virtq.new (queueSize : Nat) : Option Virtq := do
  let desc ← FreelistDescPool.new queueSize
  return {
    consumerUsedIdx := 0
    desc := desc
    availIdx := 0
    availRing := fun _ => 0
    usedIdx := 0
    usedRing := fun _ => { id := 0, len := 0 } }

def Virtq.submit (vq : Virtq) (commandChain : UInt16) : Virtq :=
  let q := vq.desc.queueSize
  { vq with
    availRing := Function.update vq.availRing (vq.availIdx.toNat % q) commandChain
    availIdx := vq.availIdx + 1 }

def Virtq.submitToQueue (vq : Virtq) (commandChain : UInt16) :
    Except Unit Unit × Virtq :=
  let la := vq.availIdx - vq.consumerUsedIdx
  if la ≥ UInt16.ofNat vq.desc.queueSize then (.error (), vq)
  else (.ok (), vq.submit commandChain)

/-- `virtq::read_used_queue_blocking`.  The result is `none` while the source
keeps spinning because the device has posted nothing new. -/
def Virtq.readUsedQueueBlocking (vq : Virtq) : Option (VirtqUsedElem × Virtq) :=
  if vq.usedIdx = vq.consumerUsedIdx then none
  else
    let q := vq.desc.queueSize
    let cal := vq.usedRing (vq.consumerUsedIdx.toNat % q)
    some (cal, { vq with consumerUsedIdx := vq.consumerUsedIdx + 1 })

/-- The device side: its own position in the available ring and the chains it
has taken and not completed. -/
structure Device where
  availIdx : UInt16
  inFlight : List UInt16

/-- The queue, its device, and the histories of the four hand-overs. -/
structure System where
  vq : Virtq
  device : Device
  submitted : List UInt16
  taken : List UInt16
  posted : List VirtqUsedElem
  received : List VirtqUsedElem

def System.start (vq : Virtq) : System :=
  { vq := vq
    device := { availIdx := 0, inFlight := [] }
    submitted := []
    taken := []
    posted := []
    received := [] }

/-- A driver submission; a rejected one is not recorded. -/
def System.submit (system : System) (chain : UInt16) : System :=
  match system.vq.submitToQueue chain with
  | (.ok _, vq) => { system with vq := vq, submitted := system.submitted ++ [chain] }
  | (.error _, vq) => { system with vq := vq }

/-- The chain the device finds at its own position of the available ring. -/
def System.nextAvail (system : System) : UInt16 :=
  system.vq.availRing (system.device.availIdx.toNat % system.vq.desc.queueSize)

def System.take (system : System) : System :=
  { system with
    device :=
      { availIdx := system.device.availIdx + 1
        inFlight := system.device.inFlight ++ [system.nextAvail] }
    taken := system.taken ++ [system.nextAvail] }

/-- The device writes the used element and then advances `used.idx`. -/
def Virtq.post (vq : Virtq) (element : VirtqUsedElem) : Virtq :=
  { vq with
    usedRing := Function.update vq.usedRing (vq.usedIdx.toNat % vq.desc.queueSize) element
    usedIdx := vq.usedIdx + 1 }

def System.complete (system : System) (chain : UInt16) (len : UInt32) : System :=
  let element : VirtqUsedElem := { id := chain.toUInt32, len := len }
  { system with
    vq := system.vq.post element
    device := { system.device with inFlight := system.device.inFlight.erase chain }
    posted := system.posted ++ [element] }

inductive Step : System → System → Prop
  | submit (system : System) (chain : UInt16) : Step system (system.submit chain)
  | receive (system : System) (element : VirtqUsedElem) (vq : Virtq)
      (ready : system.vq.readUsedQueueBlocking = some (element, vq)) :
      Step system { system with vq := vq, received := system.received ++ [element] }
  | take (system : System)
      (available : system.device.availIdx ≠ system.vq.availIdx) :
      Step system system.take
  | complete (system : System) (chain : UInt16) (len : UInt32)
      (held : chain ∈ system.device.inFlight) :
      Step system (system.complete chain len)

/-- Every state a run of driver and device steps can reach from a new queue. -/
def Reachable (queueSize : Nat) (system : System) : Prop :=
  ∃ vq, Virtq.new queueSize = some vq ∧
    Relation.ReflTransGen Step (System.start vq) system

/-- Submitted chains whose completion the driver has not read yet. -/
def System.outstanding (system : System) : Nat :=
  system.submitted.length - system.received.length

end NyauxKernel.Virtio
