/-
The shape of slabs in memory, and the effect of the slab functions on it.

A slab is seen as its page and the list of its free objects in chain order.  The
shape rests on the header words and on the first word of each free object only,
so whatever is written to live objects leaves it alone.
-/

import NyauxKernel.Memory.FreeList
import NyauxKernel.Memory.Slab

namespace NyauxKernel.Memory

open LinkPath

/-! ### Object places -/

/-- The place of object `k` in the slab at `page`. -/
def slot (page size k : Nat) : Nat := page + slabHeaderSize + k * size

def objectCount (size : Nat) : Nat := (pageSize - slabHeaderSize) / size

def slots (page size : Nat) : List Nat := (List.range (objectCount size)).map (slot page size)

/-- The addresses of the object at `object`. -/
def InObject (object size address : Nat) : Prop := object ≤ address ∧ address < object + size

variable {object page size : Nat}

theorem slot_injective (positive : 0 < size) {k l : Nat}
    (same : slot page size k = slot page size l) : k = l := by
  unfold slot at same
  exact Nat.eq_of_mul_eq_mul_right positive (by omega)

theorem mem_slots :
    object ∈ slots page size ↔ ∃ k < objectCount size, object = slot page size k := by
  unfold slots
  rw [List.mem_map]
  constructor
  · rintro ⟨k, inRange, rfl⟩
    exact ⟨k, List.mem_range.mp inRange, rfl⟩
  · rintro ⟨k, below, rfl⟩
    exact ⟨k, List.mem_range.mpr below, rfl⟩

/-- An object lies behind the header and inside the page. -/
theorem slots_bounds (member : object ∈ slots page size) :
    page + slabHeaderSize ≤ object ∧ object + size ≤ page + pageSize := by
  obtain ⟨k, below, rfl⟩ := mem_slots.mp member
  have room : (k + 1) * size ≤ pageSize - slabHeaderSize :=
    le_trans (Nat.mul_le_mul_right size below) (Nat.div_mul_le_self _ _)
  rw [Nat.succ_mul] at room
  unfold slot pageSize slabHeaderSize at *
  omega

theorem slots_inPage {address : Nat} (member : object ∈ slots page size)
    (inside : InObject object size address) :
    InPage page address ∧ page + slabHeaderSize ≤ address := by
  have bounds := slots_bounds member
  unfold InPage InObject slabHeaderSize at *
  omega

theorem inObject_start (object : Nat) (positive : 0 < size) : InObject object size object := by
  unfold InObject
  omega

/-- Objects of one slab do not overlap. -/
theorem slots_disjoint {other address : Nat} (member : object ∈ slots page size)
    (memberOther : other ∈ slots page size) (inside : InObject object size address)
    (insideOther : InObject other size address) : object = other := by
  obtain ⟨k, _, rfl⟩ := mem_slots.mp member
  obtain ⟨l, _, rfl⟩ := mem_slots.mp memberOther
  unfold InObject slot at *
  have quotient : ∀ i, page + slabHeaderSize + i * size ≤ address →
      address < page + slabHeaderSize + i * size + size →
      (address - (page + slabHeaderSize)) / size = i := by
    intro i low high
    apply Nat.div_eq_of_lt_le
    · omega
    · rw [Nat.succ_mul]
      omega
  have same : k = l := (quotient k inside.1 inside.2).symm.trans
    (quotient l insideOther.1 insideOther.2)
  rw [same]

/-- Masking the address of an object gives its page. -/
theorem alignDown_slot (aligned : page % pageSize = 0) (below : page + pageSize ≤ addressSpace)
    (member : object ∈ slots page size) : alignDown object pageSize = page := by
  obtain ⟨k, inRange, rfl⟩ := mem_slots.mp member
  have bounds := slots_bounds member
  have positive : 0 < size := Nat.pos_of_ne_zero (by
    rintro rfl
    simp [objectCount] at inRange)
  have inside : slot page size k < addressSpace := by omega
  have rounded := alignDown_eq _ 12 inside
  change alignDown (slot page size k) pageSize = _ at rounded
  rw [rounded]
  unfold pageSize slabHeaderSize at *
  omega

/-! ### A new slab -/

/-- The loop of `slab_header::init` chains the objects backwards. -/
theorem linkObjects_chain (positive : 0 < size) (m : Machine)
    (terminated : m.memory (slot page size 0) = 0) (count : Nat) :
    ∃ m', (List.range' 1 count).foldl (linkObjects page size) (page + slabHeaderSize, m) =
        (slot page size count, m') ∧
      Path m'.memory (slot page size count)
        ((List.range (count + 1)).map (slot page size)).reverse 0 ∧
      Writes (fun address => ∃ k, 1 ≤ k ∧ k ≤ count ∧ address = slot page size k) m m' := by
  induction count with
  | zero =>
      refine ⟨m, ?_, ?_, Writes.refl m⟩
      · simp [slot]
      · simpa using terminated
  | succ count inductionHypothesis =>
      obtain ⟨m', folded, chain, writes⟩ := inductionHypothesis
      refine ⟨m'.write (slot page size (count + 1)) (slot page size count), ?_, ?_, ?_⟩
      · rw [List.range'_1_concat, List.foldl_append, folded, Nat.add_comm 1 count]
        rfl
      · rw [List.range_succ, List.map_append, List.reverse_append]
        refine ⟨rfl, ?_⟩
        have link : (m'.write (slot page size (count + 1)) (slot page size count)).memory
            (slot page size (count + 1)) = slot page size count := Function.update_self _ _ _
        rw [link]
        apply chain.congr
        intro object member
        apply Function.update_of_ne
        rintro rfl
        obtain ⟨k, inRange, same⟩ := List.mem_map.mp (List.mem_reverse.mp member)
        have bound := List.mem_range.mp inRange
        have equal := slot_injective positive same
        omega
      · apply Writes.trans
        · apply writes.mono
          rintro address ⟨k, low, high, same⟩
          exact ⟨k, low, Nat.le_succ_of_le high, same⟩
        · exact Writes.write m' ⟨count + 1, by omega, Nat.le_refl _, rfl⟩

/-- A slab by its page and its free objects in chain order. -/
structure Slab where
  page : Nat
  free : List Nat

/-- The header and the chain of a slab of objects of `size` bytes. -/
structure SlabOk (memory : Nat → Nat) (size : Nat) (slab : Slab) : Prop where
  objAm : memory (slab.page + objAmOffset) = slab.free.length
  objSize : memory (slab.page + objSizeOffset) = size
  chain : Path memory (memory (slab.page + objOffset)) slab.free 0
  distinct : slab.free.Nodup
  inSlots : ∀ object ∈ slab.free, object ∈ slots slab.page size

theorem slots_nodup (positive : 0 < size) : (slots page size).Nodup := by
  apply List.Nodup.map _ List.nodup_range
  intro k l same
  exact slot_injective positive same

section Header

variable (page objAm objSize obj otherSlabs : Nat) (m : Machine)

theorem writeSlabHeader_objAm :
    (writeSlabHeader page objAm objSize obj otherSlabs m).memory (page + objAmOffset) = objAm := by
  simp [writeSlabHeader, Machine.write, objAmOffset, objSizeOffset, objOffset,
    otherSlabsOffset]

theorem writeSlabHeader_objSize :
    (writeSlabHeader page objAm objSize obj otherSlabs m).memory (page + objSizeOffset) =
      objSize := by
  simp [writeSlabHeader, Machine.write, objSizeOffset, objOffset, otherSlabsOffset]

theorem writeSlabHeader_obj :
    (writeSlabHeader page objAm objSize obj otherSlabs m).memory (page + objOffset) = obj := by
  simp [writeSlabHeader, Machine.write, objOffset, otherSlabsOffset]

theorem writeSlabHeader_otherSlabs :
    (writeSlabHeader page objAm objSize obj otherSlabs m).memory (page + otherSlabsOffset) =
      otherSlabs :=
  Function.update_self _ _ _

theorem writeSlabHeader_writes :
    Writes (fun address => page ≤ address ∧ address < page + slabHeaderSize) m
      (writeSlabHeader page objAm objSize obj otherSlabs m) := by
  have inside : ∀ offset, offset < slabHeaderSize →
      page ≤ page + offset ∧ page + offset < page + slabHeaderSize := by
    intro offset below
    omega
  exact ((((Writes.refl m).andWrite objAm (inside _ (by decide))).andWrite objSize
    (inside _ (by decide))).andWrite obj (inside _ (by decide))).andWrite otherSlabs
    (inside _ (by decide))

end Header

/-- A slab whose objects are all free. -/
def freshSlab (page size : Nat) : Slab := ⟨page, (slots page size).reverse⟩

/-- `slab_header::init` takes one page and makes a slab of it in which every object
is free. -/
theorem slabHeaderInit_eq (hhdm : Nat) {phy : Nat} {m : Machine} (positive : 0 < size)
    (fits : size ≤ pageSize - slabHeaderSize) (head : m.freelist = some phy) :
    ∃ taken m', allocatePage hhdm m = .ok (phy + hhdm, taken) ∧
      slabHeaderInit hhdm size m = .ok (phy + hhdm, m') ∧
      Writes (InPage (phy + hhdm)) taken m' ∧
      SlabOk m'.memory size (freshSlab (phy + hhdm) size) ∧
      m'.memory (phy + hhdm + otherSlabsOffset) = 0 := by
  obtain ⟨taken, takenEq⟩ : ∃ taken, allocatePage hhdm m = .ok (phy + hhdm, taken) :=
    ⟨_, allocatePage_eq head⟩
  have count : objectCount size = objectCount size - 1 + 1 :=
    (Nat.sub_add_cancel ((Nat.one_le_div_iff positive).mpr fits)).symm
  have zeroSlot : slot (phy + hhdm) size 0 ∈ slots (phy + hhdm) size :=
    mem_slots.mpr ⟨0, by omega, rfl⟩
  have terminated : taken.memory (slot (phy + hhdm) size 0) = 0 := by
    obtain ⟨other, sameHead, _, rfl⟩ := allocatePage_ok takenEq
    obtain rfl : phy = other := Option.some.inj (head.symm.trans sameHead)
    have inside := (slots_inPage zeroSlot (inObject_start _ positive)).1
    exact WordMemory.zero_inside inside.1 inside.2
  obtain ⟨linked, folded, chain, writes⟩ :=
    linkObjects_chain positive taken terminated (objectCount size - 1)
  rw [← count] at chain
  have header := writeSlabHeader_writes (phy + hhdm) (objectCount size) size
    (slot (phy + hhdm) size (objectCount size - 1)) 0 linked
  refine ⟨taken, writeSlabHeader (phy + hhdm) (objectCount size) size
    (slot (phy + hhdm) size (objectCount size - 1)) 0 linked, takenEq, ?_, ?_, ?_,
    writeSlabHeader_otherSlabs _ _ _ _ _ _⟩
  · simp only [slabHeaderInit, takenEq, bind, Except.bind]
    simp only [objectCount] at folded ⊢
    rw [folded]
  · apply Writes.trans
    · apply writes.mono
      rintro address ⟨k, _, high, rfl⟩
      exact (slots_inPage (mem_slots.mpr ⟨k, by omega, rfl⟩) (inObject_start _ positive)).1
    · apply header.mono
      rintro address ⟨low, high⟩
      unfold InPage pageSize
      unfold slabHeaderSize at high
      omega
  · unfold freshSlab
    constructor
    · rw [writeSlabHeader_objAm, List.length_reverse, slots, List.length_map, List.length_range]
    · exact writeSlabHeader_objSize _ _ _ _ _ _
    · rw [writeSlabHeader_obj]
      apply chain.congr
      intro object member
      apply header.elsewhere
      have bounds := slots_bounds (List.mem_reverse.mp member)
      omega
    · exact List.nodup_reverse.mpr (slots_nodup positive)
    · intro object member
      exact List.mem_reverse.mp member

/-! ### Taking an object -/

/-- The words the shape of a slab rests on, and the free objects. -/
def Slab.Private (slab : Slab) (size address : Nat) : Prop :=
  (slab.page ≤ address ∧ address < slab.page + slabHeaderSize) ∨
    ∃ object ∈ slab.free, InObject object size address

theorem Slab.private_header (slab : Slab) (size : Nat) {offset : Nat}
    (below : offset < slabHeaderSize) : slab.Private size (slab.page + offset) :=
  Or.inl ⟨Nat.le_add_right _ _, Nat.add_lt_add_left below _⟩

namespace SlabOk

variable {memory memory' : Nat → Nat} {m : Machine} {slab : Slab}

theorem length_lt (ok : SlabOk memory size slab) : slab.free.length < addressSpace := by
  have shorter := (List.subperm_of_subset ok.distinct ok.inSlots).length_le
  rw [slots, List.length_map, List.length_range] at shorter
  have few : objectCount size ≤ pageSize - slabHeaderSize := Nat.div_le_self _ _
  have room : pageSize - slabHeaderSize < addressSpace := by decide
  omega

/-- A free object lies outside the header. -/
theorem header_lt (ok : SlabOk memory size slab) {object : Nat} (free : object ∈ slab.free)
    (offset : Nat) (below : offset < slabHeaderSize) : slab.page + offset < object := by
  have bounds := slots_bounds (ok.inSlots object free)
  omega

/-- Only the header, apart from the chain of slabs, and the links of free objects
matter. -/
theorem congr (ok : SlabOk memory size slab)
    (header : ∀ offset < otherSlabsOffset,
      memory' (slab.page + offset) = memory (slab.page + offset))
    (links : ∀ object ∈ slab.free, memory' object = memory object) :
    SlabOk memory' size slab where
  objAm := by
    rw [header _ (by decide)]
    exact ok.objAm
  objSize := by
    rw [header _ (by decide)]
    exact ok.objSize
  chain := by
    rw [header _ (by decide)]
    exact ok.chain.congr links
  distinct := ok.distinct
  inSlots := ok.inSlots

/-- What taking an object does: one free object leaves the chain and is zero, and
nothing outside the header and the free objects changes. -/
structure Taken (size : Nat) (slab : Slab) (m : Machine) (object : Nat) (m' : Machine) :
    Prop where
  free : object ∈ slab.free
  shape : SlabOk m'.memory size ⟨slab.page, slab.free.erase object⟩
  otherSlabs : m'.memory (slab.page + otherSlabsOffset) =
    m.memory (slab.page + otherSlabsOffset)
  zeroed : ∀ address, InObject object size address → m'.memory address = 0
  writes : Writes (slab.Private size) m m'

/-- The counter after one object is taken. -/
theorem count_pred {count : Nat} (below : count + 1 < addressSpace) :
    wrap (count + 1 + addressSpace - 1) = count := by
  unfold wrap
  rw [show count + 1 + addressSpace - 1 = count + addressSpace by omega, Nat.add_mod_right]
  exact Nat.mod_eq_of_lt (by omega)

theorem take_only (ok : SlabOk m.memory size slab) {object : Nat}
    (only : slab.free = [object]) :
    ∃ m', takeObject slab.page m = (object, m') ∧ Taken size slab m object m' := by
  have free : object ∈ slab.free := by rw [only]; exact List.mem_cons_self
  have chain := ok.chain
  rw [only] at chain
  obtain ⟨first, last⟩ := chain
  have link : m.memory object = 0 := last
  have count := ok.objAm
  rw [only, List.length_singleton] at count
  have above : ∀ offset, offset < slabHeaderSize →
      (m.writeBytes object size).memory (slab.page + offset) = m.memory (slab.page + offset) := by
    intro offset below
    apply writeBytes_outside
    have header := ok.header_lt free _ below
    omega
  have objAmNe : slab.page + objOffset ≠ slab.page + objAmOffset := by
    simp [objOffset, objAmOffset]
  refine ⟨((m.writeBytes object size).write (slab.page + objAmOffset) 0).write
    (slab.page + objOffset) 0, ?_, ?_⟩
  · simp only [takeObject, first, link, ok.objSize, ne_eq, not_true_eq_false, if_false]
    rw [write_other _ _ objAmNe, above objAmOffset (by decide), above objOffset (by decide),
      count, first, count_pred (by decide)]
  · constructor
    · exact free
    · rw [only, List.erase_cons_head]
      constructor
      · rw [write_other _ _ objAmNe.symm]
        exact write_same _ _ _
      · rw [write_other _ _ (by simp [objOffset, objSizeOffset]),
          write_other _ _ (by simp [objAmOffset, objSizeOffset]), above _ (by decide)]
        exact ok.objSize
      · exact write_same _ _ _
      · exact List.nodup_nil
      · exact fun _ member => absurd member List.not_mem_nil
    · rw [write_other _ _ (by simp [objOffset, otherSlabsOffset]),
        write_other _ _ (by simp [objAmOffset, otherSlabsOffset]), above _ (by decide)]
    · rintro address ⟨low, high⟩
      have header := ok.header_lt free objOffset (by decide)
      have header' := ok.header_lt free objAmOffset (by decide)
      rw [write_other _ _ (by omega), write_other _ _ (by omega)]
      exact writeBytes_inside _ low high
    · have zeroed : Writes (slab.Private size) m (m.writeBytes object size) :=
        Writes.writeBytes m fun other low high => Or.inr ⟨object, free, low, high⟩
      exact (zeroed.andWrite 0 (slab.private_header size (by decide))).andWrite 0
        (slab.private_header size (by decide))

theorem take_second (ok : SlabOk m.memory size slab) (positive : 0 < size)
    {first second : Nat} {rest : List Nat} (many : slab.free = first :: second :: rest) :
    ∃ m', takeObject slab.page m = (second, m') ∧ Taken size slab m second m' := by
  have freeFirst : first ∈ slab.free := by rw [many]; simp
  have freeSecond : second ∈ slab.free := by rw [many]; simp
  have freeRest : ∀ object ∈ rest, object ∈ slab.free := by
    intro object member
    rw [many]
    exact List.mem_cons_of_mem _ (List.mem_cons_of_mem _ member)
  have distinct := ok.distinct
  rw [many] at distinct
  obtain ⟨notFirst, distinctTail⟩ := List.nodup_cons.mp distinct
  obtain ⟨notSecond, distinctRest⟩ := List.nodup_cons.mp distinctTail
  have chain := ok.chain
  rw [many] at chain
  obtain ⟨headEq, linkEq, tail⟩ := chain
  have link : m.memory first = second := linkEq
  have real : second ≠ 0 := by
    have header := ok.header_lt freeSecond 0 (by decide)
    omega
  have apart : ∀ object ∈ slab.free, object ≠ second →
      ¬(second ≤ object ∧ object < second + size) := by
    intro object free different inside
    exact different (slots_disjoint (ok.inSlots object free) (ok.inSlots second freeSecond)
      (inObject_start object positive) inside)
  have differentFirst : first ≠ second := fun same => notFirst (same ▸ List.mem_cons_self)
  have above : ∀ offset, offset < slabHeaderSize →
      ((m.write first (m.memory second)).writeBytes second size).memory (slab.page + offset) =
        m.memory (slab.page + offset) := by
    intro offset below
    have header := ok.header_lt freeSecond _ below
    have headerFirst := ok.header_lt freeFirst _ below
    rw [writeBytes_outside _ (by omega), write_other _ _ (by omega)]
  have count := ok.objAm
  rw [many] at count
  have bound := ok.length_lt
  rw [many] at bound
  have sizeEq : (m.write first (m.memory second)).memory (slab.page + objSizeOffset) = size := by
    have header := ok.header_lt freeFirst objSizeOffset (by decide)
    rw [write_other _ _ (by omega)]
    exact ok.objSize
  have objAmBelow : ∀ object ∈ slab.free, object ≠ slab.page + objAmOffset := by
    intro object free
    have header := ok.header_lt free objAmOffset (by decide)
    omega
  refine ⟨((m.write first (m.memory second)).writeBytes second size).write
    (slab.page + objAmOffset) (rest.length + 1), ?_, ?_⟩
  · simp only [takeObject, headEq, link, ne_eq, real, not_false_eq_true, if_true, sizeEq]
    rw [above objAmOffset (by decide), count, List.length_cons, List.length_cons,
      count_pred (by simpa using bound)]
  · have erased : slab.free.erase second = first :: rest := by
      rw [many, List.erase_cons_tail (by simpa using differentFirst), List.erase_cons_head]
    constructor
    · exact freeSecond
    · rw [erased]
      constructor
      · exact write_same _ _ _
      · rw [write_other _ _ (by simp [objAmOffset, objSizeOffset]), above _ (by decide)]
        exact ok.objSize
      · rw [write_other _ _ (by simp [objAmOffset, objOffset]), above _ (by decide)]
        refine ⟨headEq, ?_⟩
        rw [write_other _ _ (objAmBelow first freeFirst),
          writeBytes_outside _ (apart first freeFirst differentFirst), write_same]
        apply tail.congr
        intro object member
        have free := freeRest object member
        have different : object ≠ second := fun same => notSecond (same ▸ member)
        have differentHead : object ≠ first := fun same =>
          notFirst (same ▸ List.mem_cons_of_mem _ member)
        rw [write_other _ _ (objAmBelow object free),
          writeBytes_outside _ (apart object free different), write_other _ _ differentHead]
      · exact List.nodup_cons.mpr
          ⟨fun member => notFirst (List.mem_cons_of_mem _ member), distinctRest⟩
      · intro object member
        rcases List.mem_cons.mp member with same | inRest
        · rw [same]
          exact ok.inSlots first freeFirst
        · exact ok.inSlots object (freeRest object inRest)
    · rw [write_other _ _ (by simp [objAmOffset, otherSlabsOffset]), above _ (by decide)]
    · rintro address ⟨low, high⟩
      have header := ok.header_lt freeSecond objAmOffset (by decide)
      rw [write_other _ _ (by omega)]
      exact writeBytes_inside _ low high
    · have relinked : Writes (slab.Private size) m (m.write first (m.memory second)) :=
        Writes.write m (Or.inr ⟨first, freeFirst, inObject_start first positive⟩)
      exact (relinked.andWriteBytes fun other low high =>
        Or.inr ⟨second, freeSecond, low, high⟩).andWrite _ (slab.private_header size (by decide))

/-- Taking an object from a slab that has one. -/
theorem takeObject (ok : SlabOk m.memory size slab) (positive : 0 < size)
    (nonempty : slab.free ≠ []) :
    ∃ object m', Memory.takeObject slab.page m = (object, m') ∧ Taken size slab m object m' := by
  cases free : slab.free with
  | nil => exact absurd free nonempty
  | cons first rest =>
      cases rest with
      | nil => exact ⟨first, ok.take_only free⟩
      | cons second rest => exact ⟨second, ok.take_second positive free⟩

/-- The head word of the chain is null exactly in a full slab. -/
theorem obj_eq_zero_iff (ok : SlabOk memory size slab) :
    memory (slab.page + objOffset) = 0 ↔ slab.free = [] := by
  have start := ok.chain.start_eq
  cases free : slab.free with
  | nil =>
      rw [free] at start
      exact iff_of_true start rfl
  | cons object rest =>
      rw [free] at start
      have header := ok.header_lt (free ▸ List.mem_cons_self) 0 (by decide)
      rw [start]
      apply iff_of_false
      · change object ≠ 0
        omega
      · exact List.cons_ne_nil object rest

/-- What giving an object back does: it goes in front of the chain, and nothing
outside the header and the object changes. -/
structure Returned (size : Nat) (slab : Slab) (m : Machine) (object : Nat) (m' : Machine) :
    Prop where
  shape : SlabOk m'.memory size ⟨slab.page, object :: slab.free⟩
  otherSlabs : m'.memory (slab.page + otherSlabsOffset) =
    m.memory (slab.page + otherSlabsOffset)
  writes : Writes (fun address =>
    (slab.page ≤ address ∧ address < slab.page + slabHeaderSize) ∨
      InObject object size address) m m'

/-- Giving back an object of the slab that is not free. -/
theorem slabDealloc (ok : SlabOk m.memory size slab) (positive : 0 < size) {object : Nat}
    (inSlots : object ∈ slots slab.page size) (live : object ∉ slab.free)
    (masked : alignDown object pageSize = slab.page) :
    Returned size slab m object (Memory.slabDealloc object m) := by
  have bounds := slots_bounds inSlots
  have header : ∀ offset, offset < slabHeaderSize → slab.page + offset < object := by
    intro offset below
    omega
  have real : object ≠ 0 := by
    have first := header 0 (by decide)
    omega
  have apart : ∀ other ∈ slab.free, ¬(object ≤ other ∧ other < object + size) := by
    intro other free inside
    have same := slots_disjoint (ok.inSlots other free) inSlots (inObject_start other positive)
      inside
    exact live (same ▸ free)
  have above : ∀ offset, offset < slabHeaderSize →
      (m.writeBytes object size).memory (slab.page + offset) = m.memory (slab.page + offset) := by
    intro offset below
    have low := header offset below
    exact writeBytes_outside _ (by omega)
  obtain ⟨old, oldEq⟩ : ∃ old, m.memory (slab.page + objOffset) = old := ⟨_, rfl⟩
  -- the link of the object is the old head, whether or not it is written
  obtain ⟨linked, linkedEq, link, linkedOther⟩ : ∃ linked,
      linked = (if old = 0 then m.writeBytes object size
        else (m.writeBytes object size).write object old) ∧
      linked.memory object = old ∧
      ∀ address, address ≠ object → linked.memory address =
        (m.writeBytes object size).memory address := by
    refine ⟨_, rfl, ?_, ?_⟩
    · by_cases null : old = 0
      · rw [if_pos null, null]
        exact writeBytes_inside _ (Nat.le_refl _) (by omega)
      · rw [if_neg null]
        exact write_same _ _ _
    · intro address different
      by_cases null : old = 0
      · rw [if_pos null]
      · rw [if_neg null]
        exact write_other _ _ different
  have count : linked.memory (slab.page + objAmOffset) = slab.free.length := by
    rw [linkedOther _ (Nat.ne_of_lt (header _ (by decide))), above _ (by decide)]
    exact ok.objAm
  have result : Memory.slabDealloc object m =
      (linked.write (slab.page + objOffset) object).write (slab.page + objAmOffset)
        (slab.free.length + 1) := by
    rw [Memory.slabDealloc, if_neg real]
    simp only [masked, ok.objSize, above objOffset (by decide), oldEq, ← linkedEq]
    rw [write_other _ _ (by simp [objAmOffset, objOffset]), count]
    congr 1
    have inRange : (⟨slab.page, object :: slab.free⟩ : Slab).free.length < addressSpace := by
      have shorter := (List.subperm_of_subset (List.nodup_cons.mpr ⟨live, ok.distinct⟩)
        (List.cons_subset.mpr ⟨inSlots, ok.inSlots⟩)).length_le
      rw [slots, List.length_map, List.length_range] at shorter
      have few : objectCount size ≤ pageSize - slabHeaderSize := Nat.div_le_self _ _
      have room : pageSize - slabHeaderSize < addressSpace := by decide
      exact lt_of_le_of_lt (le_trans shorter few) room
    exact Nat.mod_eq_of_lt inRange
  rw [result]
  constructor
  · constructor
    · exact write_same _ _ _
    · rw [write_other _ _ (by simp [objAmOffset, objSizeOffset]),
        write_other _ _ (by simp [objOffset, objSizeOffset]),
        linkedOther _ (Nat.ne_of_lt (header _ (by decide))), above _ (by decide)]
      exact ok.objSize
    · rw [write_other _ _ (by simp [objAmOffset, objOffset]), write_same]
      refine ⟨rfl, ?_⟩
      have atObject := header objAmOffset (by decide)
      have atObject' := header objOffset (by decide)
      rw [write_other _ _ (by omega), write_other _ _ (by omega), link, ← oldEq]
      apply ok.chain.congr
      intro other free
      have different : other ≠ object := fun same => live (same ▸ free)
      have low := ok.header_lt free objAmOffset (by decide)
      have low' := ok.header_lt free objOffset (by decide)
      rw [write_other _ _ (by omega), write_other _ _ (by omega), linkedOther _ different,
        writeBytes_outside _ (apart other free)]
    · exact List.nodup_cons.mpr ⟨live, ok.distinct⟩
    · intro other member
      rcases List.mem_cons.mp member with same | free
      · rw [same]
        exact inSlots
      · exact ok.inSlots other free
  · rw [write_other _ _ (by simp [objAmOffset, otherSlabsOffset]),
      write_other _ _ (by simp [objOffset, otherSlabsOffset]),
      linkedOther _ (Nat.ne_of_lt (header _ (by decide))), above _ (by decide)]
  · have linkedWrites : Writes (fun address =>
        (slab.page ≤ address ∧ address < slab.page + slabHeaderSize) ∨
          InObject object size address) m linked := by
      have zeroed : Writes (fun address =>
          (slab.page ≤ address ∧ address < slab.page + slabHeaderSize) ∨
            InObject object size address) m (m.writeBytes object size) :=
        Writes.writeBytes m fun other low high => Or.inr ⟨low, high⟩
      rw [linkedEq]
      split
      · exact zeroed
      · exact zeroed.andWrite _ (Or.inr (inObject_start object positive))
    exact (linkedWrites.andWrite _ (Or.inl ⟨Nat.le_add_right _ _,
      Nat.add_lt_add_left (by decide) _⟩)).andWrite _ (Or.inl ⟨Nat.le_add_right _ _,
      Nat.add_lt_add_left (by decide) _⟩)

end SlabOk

end NyauxKernel.Memory
