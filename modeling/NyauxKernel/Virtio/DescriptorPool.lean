/-
Descriptor table of a split virtqueue, as `virtio/mod.rs` lays it out.

The table is one zeroed page cast to `queue_size` descriptors.  Creation links
every descriptor to its successor and leaves the whole table free.  Free descriptors
and the descriptors of a chain are linked by the same field.
-/

import Mathlib.Logic.Function.Basic

namespace NyauxKernel.Virtio

structure VirtqDesc where
  addr : UInt64
  len : UInt32
  flags : UInt16
  next : UInt16
deriving DecidableEq, Repr

/-- `VIRTQ_DESC_F_NEXT`. -/
def descNext : UInt16 := 1

/-- `VIRTQ_DESC_F_WRITE`. -/
def descWrite : UInt16 := 2

structure FreelistDescPool where
  virtqDescPool : Nat → VirtqDesc
  queueSize : Nat
  head : UInt16
  numFree : UInt16

namespace FreelistDescPool

/-- `freelistdescpool::new`.  The write to entry `queue_size - 1` is out of range
for an empty table, and the source panics there. -/
def new (queueSize : Nat) : Option FreelistDescPool :=
  if queueSize = 0 then none
  else some
    { virtqDescPool := fun index =>
        { addr := 0
          len := 0
          flags := 0
          next := if index + 1 < queueSize then UInt16.ofNat index + 1 else 0 }
      queueSize := queueSize
      head := 0
      numFree := UInt16.ofNat queueSize }

/-- `t[index]` of the slice over the table, which panics out of range. -/
def get? (pool : FreelistDescPool) (index : UInt16) : Option VirtqDesc :=
  if index.toNat < pool.queueSize then some (pool.virtqDescPool index.toNat) else none

/-- A write through a pointer to a descriptor. -/
def set (pool : FreelistDescPool) (index : UInt16) (desc : VirtqDesc) : FreelistDescPool :=
  { pool with virtqDescPool := Function.update pool.virtqDescPool index.toNat desc }

/-- The loop of `allocate_chain`: the next `count` descriptors are marked as not last. -/
def allocateLoop : Nat → UInt16 → FreelistDescPool → Option (UInt16 × FreelistDescPool)
  | 0, cur, pool => some (cur, pool)
  | count + 1, cur, pool => do
      let desc ← pool.get? cur
      allocateLoop count desc.next (pool.set cur { desc with flags := desc.flags ||| descNext })

/-- `allocate_chain`.  The result is `none` where the source panics. -/
def allocateChain (pool : FreelistDescPool) (chainlength : UInt16) :
    Option (Except Unit UInt16 × FreelistDescPool) :=
  if chainlength = 0 ∨ pool.numFree < chainlength then some (.error (), pool)
  else do
    let (cur, marked) ← allocateLoop (chainlength - 1).toNat pool.head pool
    let o ← marked.get? cur
    some (.ok pool.head,
      { marked.set cur { o with flags := o.flags &&& ~~~descNext, next := 0 } with
        numFree := marked.numFree - chainlength
        head := o.next })

/-- The loop of `deallocate_chain`.  Each turn clears a flag, so it ends after at most
`queue_size` turns. -/
def deallocateLoop : Nat → UInt16 → FreelistDescPool → Option (UInt16 × FreelistDescPool)
  | 0, _, _ => none
  | fuel + 1, cur, pool => do
      let desc ← pool.get? cur
      if desc.flags &&& descNext ≠ 0 then
        deallocateLoop fuel desc.next
          { pool.set cur { desc with flags := 0 } with numFree := pool.numFree + 1 }
      else some (cur, pool)

/-- `deallocate_chain`, which always answers `Ok`.  The result is `none` where the source
panics. -/
def deallocateChain (pool : FreelistDescPool) (headofthechain : UInt16) :
    Option FreelistDescPool := do
  let (cur, cleared) ← deallocateLoop (pool.queueSize + 1) headofthechain pool
  let desc ← cleared.get? cur
  some
    { cleared.set cur { desc with next := cleared.head, flags := 0 } with
      numFree := cleared.numFree + 1
      head := headofthechain }

end FreelistDescPool

end NyauxKernel.Virtio
