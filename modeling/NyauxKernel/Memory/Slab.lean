/-
The slab allocator of `memory/slab.rs`.

A slab is one page: a header of four words (`obj_am`, `obj_size`, `obj`,
`other_slabs`) followed by objects of one size.  The first word of a free object
is its link.
-/

import NyauxKernel.Memory.Pmm

namespace NyauxKernel.Memory

def slabHeaderSize : Nat := 32

def objAmOffset : Nat := 0
def objSizeOffset : Nat := 8
def objOffset : Nat := 16
def otherSlabsOffset : Nat := 24

/-- Writing a whole `slab_header`. -/
def writeSlabHeader (page objAm objSize obj otherSlabs : Nat) (m : Machine) : Machine :=
  (((m.write (page + objAmOffset) objAm).write (page + objSizeOffset) objSize).write
    (page + objOffset) obj).write (page + otherSlabsOffset) otherSlabs

/-- The loop of `slab_header::init`: object `i` is linked in front of the chain
built so far. -/
def linkObjects (page size : Nat) (state : Nat × Machine) (i : Nat) : Nat × Machine :=
  let newObj := page + slabHeaderSize + i * size
  (newObj, state.2.write newObj state.1)

/-- `slab_header::init`. -/
def slabHeaderInit (hhdm size : Nat) (m : Machine) : Except Halt (Nat × Machine) := do
  let (page, m) ← allocatePage hhdm m
  let objAm := (pageSize - slabHeaderSize) / size
  let (obj, m) := (List.range' 1 (objAm - 1)).foldl (linkObjects page size)
    (page + slabHeaderSize, m)
  .ok (page, writeSlabHeader page objAm size obj 0 m)

/-- Taking an object out of a slab whose chain is not empty: the second object of
the chain, or the only one. -/
def takeObject (curSlab : Nat) (m : Machine) : Nat × Machine :=
  let obj := m.memory (curSlab + objOffset)
  let bro := m.memory obj
  if bro ≠ 0 then
    let m := m.write obj (m.memory bro)
    let m := m.writeBytes bro (m.memory (curSlab + objSizeOffset))
    let m := m.write (curSlab + objAmOffset)
      (wrap (m.memory (curSlab + objAmOffset) + addressSpace - 1))
    (bro, m)
  else
    let m := m.writeBytes obj (m.memory (curSlab + objSizeOffset))
    let m := m.write (curSlab + objAmOffset)
      (wrap (m.memory (curSlab + objAmOffset) + addressSpace - 1))
    let re := m.memory (curSlab + objOffset)
    (re, m.write (curSlab + objOffset) 0)

/-- `slab_header::alloc`: the first slab of the chain with a free object serves the
request; at the end of the chain a new slab is linked. -/
def slabHeaderAlloc (hhdm : Nat) : Nat → Nat → Machine → Except Halt (Nat × Machine)
  | 0, _, _ => .error .diverges
  | fuel + 1, curSlab, m =>
      if m.memory (curSlab + objOffset) ≠ 0 then .ok (takeObject curSlab m)
      else if m.memory (curSlab + otherSlabsOffset) ≠ 0 then
        slabHeaderAlloc hhdm fuel (m.memory (curSlab + otherSlabsOffset)) m
      else do
        let sz := m.memory (curSlab + objSizeOffset)
        let (new, m) ← slabHeaderInit hhdm sz m
        if new = 0 then .error unwrapNone
        else slabHeaderAlloc hhdm fuel new (m.write (curSlab + otherSlabsOffset) new)

/-- `slabcache::init`, with its `unwrap`. -/
def slabCacheInit (hhdm size : Nat) (m : Machine) : Except Halt (SlabCache × Machine) := do
  if slabHeaderSize + size > pageSize then .error (unwrapErr "()")
  else
    let (h, m) ← slabHeaderInit hhdm size m
    .ok ({ size := size, slabs := h }, m)

/-- `slabcache::alloc`. -/
def slabCacheAlloc (hhdm : Nat) (cache : SlabCache) (m : Machine) :
    Except Halt (Nat × Machine) :=
  if cache.slabs ≠ 0 then slabHeaderAlloc hhdm addressSpace cache.slabs m
  else .error (.panic "slab cache not inited yet")

def slabSizes : List Nat := [16, 32, 64, 128, 256, 512, 1024]

/-- The statements of `init_slab`, one cache after another. -/
def initSlabFrom (hhdm : Nat) : Nat → List Nat → Machine → Except Halt Machine
  | _, [], m => .ok m
  | index, size :: sizes, m => do
      let (cache, m) ← slabCacheInit hhdm size m
      initSlabFrom hhdm (index + 1) sizes
        { m with slabCaches := m.slabCaches.set index cache }

def initSlab (hhdm : Nat) (m : Machine) : Except Halt Machine :=
  initSlabFrom hhdm 0 slabSizes m

/-- `usize::next_power_of_two` of the release build, which wraps to zero. -/
def nextPowerOfTwo (value : Nat) : Nat :=
  if value ≤ 1 then 1 else wrap (2 ^ (Nat.log2 (value - 1) + 1))

/-- `slab_alloc`; `none` is `Err(())`. -/
def slabAlloc (hhdm size : Nat) (m : Machine) : Except Halt (Option Nat × Machine) :=
  if size ≤ nextPowerOfTwo size then
    match m.slabCaches.find? fun s => ¬s.size < size with
    | none => .ok (none, m)
    | some s => do
        let (object, m) ← slabCacheAlloc hhdm s m
        .ok (some object, m)
  else .error (.panic "assertion failed: size <= size.next_power_of_two()")

def slabDealloc (addr : Nat) (m : Machine) : Machine :=
  if addr = 0 then m
  else
    let hehe := alignDown addr pageSize
    let sizeofobj := m.memory (hehe + objSizeOffset)
    let m := m.writeBytes addr sizeofobj
    let old := m.memory (hehe + objOffset)
    let m := if old = 0 then m else m.write addr old
    let m := m.write (hehe + objOffset) addr
    m.write (hehe + objAmOffset) (wrap (m.memory (hehe + objAmOffset) + 1))

/-- `pmm::init`. -/
def pmmInit (hhdm : Nat) (entries : List MemmapEntry) (m : Machine) : Except Halt Machine :=
  initSlab hhdm (initFreelist hhdm entries m)

end NyauxKernel.Memory
