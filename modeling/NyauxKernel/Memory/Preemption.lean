/-
Threads that share the heap on one CPU.

`NAlloc::alloc` runs under its `SpinLock`, so with interrupts off, and is one step.
`NAlloc::dealloc` takes no lock: `slab_dealloc` is a sequence of accesses to the slab
header and to the object, and the timer may switch threads between two of them.
-/

import NyauxKernel.Memory.Isolation

namespace NyauxKernel.Memory

open LinkPath

/-! ### The accesses of `slab_dealloc` -/

structure SlabHeader where
  objAm : Nat
  objSize : Nat
  obj : Nat
  otherSlabs : Nat
deriving DecidableEq, Repr

/-- `hehe.read()`. -/
def readSlabHeader (hehe : Nat) (m : Machine) : SlabHeader where
  objAm := m.memory (hehe + objAmOffset)
  objSize := m.memory (hehe + objSizeOffset)
  obj := m.memory (hehe + objOffset)
  otherSlabs := m.memory (hehe + otherSlabsOffset)

/-- The access that a call of `slab_dealloc` makes next, with what it has read. -/
inductive DeallocPc
  | readSize
  | zero (sizeofobj : Nat)
  | readOld
  | link (old : Nat)
  | readHeader
  | writeHeader (e : SlabHeader)
deriving DecidableEq, Repr

/-- One access of `slab_dealloc(addr)`, with the access that follows it. -/
def slabDeallocAccess (addr : Nat) (m : Machine) : DeallocPc → Option DeallocPc × Machine
  | .readSize => (some (.zero (readSlabHeader (alignDown addr pageSize) m).objSize), m)
  | .zero sizeofobj => (some .readOld, m.writeBytes addr sizeofobj)
  | .readOld =>
      let old := (readSlabHeader (alignDown addr pageSize) m).obj
      (some (if old = 0 then .readHeader else .link old), m)
  | .link old => (some .readHeader, m.write addr old)
  | .readHeader =>
      let e := readSlabHeader (alignDown addr pageSize) m
      (some (.writeHeader { e with obj := addr, objAm := wrap (e.objAm + 1) }), m)
  | .writeHeader e =>
      (none, writeSlabHeader (alignDown addr pageSize) e.objAm e.objSize e.obj e.otherSlabs m)

/-! ### Threads -/

/-- What a caller of `NAlloc::alloc` got. -/
structure Block (T : Type) where
  thread : T
  ptr : Nat
  size : Nat
deriving DecidableEq, Repr

/-- A call of `NAlloc::dealloc` that has not returned. -/
structure DeallocCall (T : Type) where
  block : Block T
  pc : DeallocPc
deriving DecidableEq, Repr

structure Threads (T : Type) where
  m : Machine
  current : T
  interrupts : T → Bool
  calls : List (DeallocCall T)
  owned : List (Block T)

namespace Threads

variable {T : Type}

/-- The threads start when `pmm::init` is done. -/
def start (m : Machine) (current : T) (interrupts : T → Bool) : Threads T :=
  { m, current, interrupts, calls := [], owned := [] }

/-- The current thread is in no call. -/
def Idle (s : Threads T) : Prop := ∀ call ∈ s.calls, call.block.thread ≠ s.current

variable [DecidableEq T]

/-- The next access of a call. -/
def access (s : Threads T) (call : DeallocCall T) : Threads T :=
  let (next, m) := slabDeallocAccess call.block.ptr s.m call.pc
  { s with
    m := m
    calls := (next.toList.map fun pc => ⟨call.block, pc⟩) ++ s.calls.erase call }

/-- What the CPU does next. -/
inductive Step (hhdm : Nat) (s : Threads T) : Threads T → Prop
  | preempt (next : T) (enabled : s.interrupts s.current = true) :
      Step hhdm s { s with current := next }
  | setInterrupts (enabled : Bool) (idle : s.Idle) :
      Step hhdm s { s with interrupts := Function.update s.interrupts s.current enabled }
  | alloc {size ptr : Nat} {m' : Machine} (idle : s.Idle) (small : size ≤ 1024)
      (done : NAlloc.alloc hhdm size s.m = .ok (ptr, m')) :
      Step hhdm s { s with m := m', owned := ⟨s.current, ptr, size⟩ :: s.owned }
  | dealloc {block : Block T} (idle : s.Idle) (member : block ∈ s.owned)
      (mine : block.thread = s.current) :
      Step hhdm s { s with
        calls := ⟨block, .readSize⟩ :: s.calls
        owned := s.owned.erase block }
  | access {call : DeallocCall T} (member : call ∈ s.calls)
      (mine : call.block.thread = s.current) : Step hhdm s (s.access call)
  | use {memory : Nat → Nat} (idle : s.Idle)
      (own : ∀ address, memory address ≠ s.m.memory address → ∃ block ∈ s.owned,
        block.thread = s.current ∧ InObject block.ptr block.size address) :
      Step hhdm s { s with m := { s.m with memory := memory } }
  | give {block : Block T} (next : T) (idle : s.Idle) (member : block ∈ s.owned)
      (mine : block.thread = s.current) :
      Step hhdm s { s with owned := { block with thread := next } :: s.owned.erase block }

end Threads

/-! ### How far a call is -/

/-- The object is zero but for a link to the head of its slab's chain. -/
def Linked (size ptr : Nat) (m : Machine) : Prop :=
  m.memory ptr = (readSlabHeader (alignDown ptr pageSize) m).obj ∧
    ∀ address, InObject ptr size address → address ≠ ptr → m.memory address = 0

/-- What a call has done before its next access. -/
def Progress (size ptr : Nat) (m : Machine) : DeallocPc → Prop
  | .readSize => True
  | .zero sizeofobj => sizeofobj = size
  | .readOld => ∀ address, InObject ptr size address → m.memory address = 0
  | .link old => old = (readSlabHeader (alignDown ptr pageSize) m).obj ∧
      ∀ address, InObject ptr size address → m.memory address = 0
  | .readHeader => Linked size ptr m
  | .writeHeader e => Linked size ptr m ∧
      e = { readSlabHeader (alignDown ptr pageSize) m with
        obj := ptr
        objAm := wrap ((readSlabHeader (alignDown ptr pageSize) m).objAm + 1) }

/-- Only the header of its slab and the object itself matter to a call. -/
theorem Progress.congr {size ptr : Nat} {m m' : Machine} {pc : DeallocPc} (positive : 0 < size)
    (progress : Progress size ptr m pc)
    (header : readSlabHeader (alignDown ptr pageSize) m' =
      readSlabHeader (alignDown ptr pageSize) m)
    (object : ∀ address, InObject ptr size address → m'.memory address = m.memory address) :
    Progress size ptr m' pc := by
  have linked : Linked size ptr m → Linked size ptr m' := by
    rintro ⟨first, rest⟩
    constructor
    · rw [object ptr (inObject_start ptr positive), header]
      exact first
    · intro address inside other
      rw [object address inside]
      exact rest address inside other
  cases pc with
  | readSize => trivial
  | zero sizeofobj => exact progress
  | readOld => exact fun address inside => (object address inside).trans (progress address inside)
  | link old =>
      obtain ⟨oldEq, zeroed⟩ := progress
      refine ⟨?_, fun address inside => (object address inside).trans (zeroed address inside)⟩
      rw [header]
      exact oldEq
  | readHeader => exact linked progress
  | writeHeader e =>
      obtain ⟨isLinked, read⟩ := progress
      refine ⟨linked isLinked, ?_⟩
      rw [header]
      exact read

section Accesses

variable {size ptr : Nat} {m : Machine} {slabs : Nat → List Slab}

/-- The header of a live object's slab, read through its masked address. -/
theorem SlabInv.header_of_live (inv : SlabInv m slabs) (live : LiveObject slabs size ptr) :
    (readSlabHeader (alignDown ptr pageSize) m).objSize = size ∧
      alignDown ptr pageSize + slabHeaderSize ≤ ptr := by
  obtain ⟨isSize, slab, member, inSlots, _⟩ := live
  have placed := inv.placed size isSize slab member
  rw [alignDown_slot placed.1 placed.2.2 inSlots]
  exact ⟨(inv.shaped size isSize slab member).objSize, (slots_bounds inSlots).1⟩

/-- Before its last access a call writes to its own object only. -/
theorem Progress.access (inv : SlabInv m slabs) (live : LiveObject slabs size ptr)
    {pc next : DeallocPc} {m' : Machine} (progress : Progress size ptr m pc)
    (accessed : slabDeallocAccess ptr m pc = (some next, m')) :
    Writes (InObject ptr size) m m' ∧ Progress size ptr m' next := by
  obtain ⟨objSize, below⟩ := inv.header_of_live live
  have positive := slabSizes_pos size live.1
  cases pc with
  | readSize =>
      obtain ⟨nextEq, rfl⟩ := Prod.mk.inj accessed
      obtain rfl := Option.some.inj nextEq
      exact ⟨Writes.refl m, objSize⟩
  | zero sizeofobj =>
      obtain ⟨nextEq, rfl⟩ := Prod.mk.inj accessed
      obtain rfl := Option.some.inj nextEq
      obtain rfl : sizeofobj = size := progress
      exact ⟨Writes.writeBytes m fun _ low high => ⟨low, high⟩,
        fun _ inside => WordMemory.zero_inside inside.1 inside.2⟩
  | readOld =>
      obtain ⟨nextEq, rfl⟩ := Prod.mk.inj accessed
      obtain rfl := Option.some.inj nextEq
      refine ⟨Writes.refl m, ?_⟩
      split
      · rename_i null
        refine ⟨?_, fun address inside _ => progress address inside⟩
        rw [null]
        exact progress ptr (inObject_start ptr positive)
      · exact ⟨rfl, progress⟩
  | link old =>
      obtain ⟨nextEq, rfl⟩ := Prod.mk.inj accessed
      obtain rfl := Option.some.inj nextEq
      obtain ⟨oldEq, zeroed⟩ := progress
      refine ⟨Writes.write m (inObject_start ptr positive), ?_, ?_⟩
      · have objBelow : alignDown ptr pageSize + objOffset ≠ ptr := by
          have headerSize : objOffset < slabHeaderSize := by decide
          omega
        change Function.update m.memory ptr old ptr =
          Function.update m.memory ptr old (alignDown ptr pageSize + objOffset)
        rw [Function.update_self, Function.update_of_ne objBelow]
        exact oldEq
      · intro address inside other
        change Function.update m.memory ptr old address = 0
        rw [Function.update_of_ne other]
        exact zeroed address inside
  | readHeader =>
      obtain ⟨nextEq, rfl⟩ := Prod.mk.inj accessed
      obtain rfl := Option.some.inj nextEq
      exact ⟨Writes.refl m, progress, rfl⟩
  | writeHeader e => exact absurd (Prod.mk.inj accessed).1 nofun

/-- Zeroing and linking the object once more changes nothing. -/
theorem Linked.again (linked : Linked size ptr m) (positive : 0 < size)
    (below : alignDown ptr pageSize + slabHeaderSize ≤ ptr) :
    (let zeroed := m.writeBytes ptr size
     let old := zeroed.memory (alignDown ptr pageSize + objOffset)
     if old = 0 then zeroed else zeroed.write ptr old) = m := by
  obtain ⟨first, rest⟩ := linked
  have oldEq : (m.writeBytes ptr size).memory (alignDown ptr pageSize + objOffset) =
      m.memory ptr := by
    rw [first]
    apply WordMemory.zero_outside
    have inHeader : objOffset < slabHeaderSize := by decide
    omega
  have words : ∀ address, address ≠ ptr →
      WordMemory.zero m.memory ptr size address = m.memory address := by
    intro address other
    by_cases inside : InObject ptr size address
    · rw [WordMemory.zero_inside inside.1 inside.2, rest address inside other]
    · exact WordMemory.zero_outside inside
  have atPtr : WordMemory.zero m.memory ptr size ptr = 0 :=
    WordMemory.zero_inside (Nat.le_refl ptr) (Nat.lt_add_of_pos_right positive)
  simp only [oldEq]
  split
  · rename_i null
    have same : WordMemory.zero m.memory ptr size = m.memory := by
      funext address
      by_cases here : address = ptr
      · rw [here, atPtr, null]
      · exact words address here
    change { m with memory := WordMemory.zero m.memory ptr size } = m
    rw [same]
  · have same : Function.update (WordMemory.zero m.memory ptr size) ptr (m.memory ptr) =
        m.memory := by
      funext address
      by_cases here : address = ptr
      · rw [here, Function.update_self]
      · rw [Function.update_of_ne here, words address here]
    change { m with memory := Function.update (WordMemory.zero m.memory ptr size) ptr _ } = m
    rw [same]

/-- Writing a whole header back in which two words changed. -/
theorem writeSlabHeader_eq (page objAm obj : Nat) (m : Machine) :
    writeSlabHeader page objAm (readSlabHeader page m).objSize obj
        (readSlabHeader page m).otherSlabs m =
      (m.write (page + objOffset) obj).write (page + objAmOffset) objAm := by
  have same : (writeSlabHeader page objAm (readSlabHeader page m).objSize obj
      (readSlabHeader page m).otherSlabs m).memory =
      ((m.write (page + objOffset) obj).write (page + objAmOffset) objAm).memory := by
    funext address
    simp only [writeSlabHeader, readSlabHeader, Machine.write, Function.update_apply, objAmOffset,
      objSizeOffset, objOffset, otherSlabsOffset]
    grind
  exact congrArg (fun memory => { m with memory := memory }) same

/-- The last access completes what `slab_dealloc` does in one go, if the header and
the object are as the call left them. -/
theorem Progress.finish (inv : SlabInv m slabs) (live : LiveObject slabs size ptr)
    {pc : DeallocPc} {m' : Machine} (progress : Progress size ptr m pc)
    (accessed : slabDeallocAccess ptr m pc = (none, m')) : m' = slabDealloc ptr m := by
  obtain ⟨objSize, below⟩ := inv.header_of_live live
  have positive := slabSizes_pos size live.1
  cases pc with
  | readSize => exact absurd (Prod.mk.inj accessed).1 nofun
  | zero sizeofobj => exact absurd (Prod.mk.inj accessed).1 nofun
  | readOld => exact absurd (Prod.mk.inj accessed).1 nofun
  | link old => exact absurd (Prod.mk.inj accessed).1 nofun
  | readHeader => exact absurd (Prod.mk.inj accessed).1 nofun
  | writeHeader e =>
      obtain ⟨_, rfl⟩ := Prod.mk.inj accessed
      obtain ⟨linked, rfl⟩ := progress
      have again := linked.again positive below
      have real : ptr ≠ 0 := Nat.ne_of_gt (Nat.lt_of_lt_of_le (by decide)
        (Nat.le_trans (Nat.le_add_left slabHeaderSize _) below))
      have count : (m.write (alignDown ptr pageSize + objOffset) ptr).memory
          (alignDown ptr pageSize + objAmOffset) =
            (readSlabHeader (alignDown ptr pageSize) m).objAm :=
        Function.update_of_ne (by simp [objAmOffset, objOffset]) _ _
      simp only at again
      rw [slabDealloc, if_neg real]
      simp only
      rw [show m.memory (alignDown ptr pageSize + objSizeOffset) = size from objSize, again,
        count, writeSlabHeader_eq]

end Accesses

end NyauxKernel.Memory
