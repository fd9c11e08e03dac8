/-
The root and context tables that `iommu_init` fills.

The root table has an entry for each bus.  The context table of a bus is made when the first
device on it is met, and found again through the root entry.  An entry has 128 bits: two words
of memory, the lower one first.
-/

import NyauxKernel.Library.BitFields
import NyauxKernel.Library.Folds
import NyauxKernel.Memory.TableSearch
import NyauxKernel.Pci.Config

namespace NyauxKernel.X86

open BitFields NyauxKernel.Memory NyauxKernel.Pci

/-! ### The loop -/

def readEntry (m : Machine) (table index : Nat) : Nat :=
  pack [(64, m.memory (table + index * 16)), (64, m.memory (table + index * 16 + 8))]

def writeEntry (m : Machine) (table index value : Nat) : Machine :=
  (m.write (table + index * 16) (field value 0 64)).write (table + index * 16 + 8)
    (field value 64 64)

/-- The context table of a bus, with the machine after it was found or made. -/
def contextTable (hhdm root : Nat) (bus : UInt8) (m : Machine) : Except Halt (Nat × Machine) :=
  if readEntry m root bus.toNat = 0 then do
    let (newContextTable, m) ← allocatePage hhdm m
    .ok (newContextTable, writeEntry m root bus.toNat ((newContextTable - hhdm) ||| 1))
  else
    .ok (wrap ((readEntry m root bus.toNat &&& ((2 ^ 128 - 1) ^^^ 0x1)) % addressSpace + hhdm), m)

/-- Domain 1, four levels, passed through. -/
def contextVal : Nat := (1 <<< 72) ||| (0b10 <<< 64) ||| (0b10 <<< 2) ||| 1

def ctxIdx (device : Location) : UInt8 := (device.2.1 <<< 3) ||| device.2.2

/-- The body of the loop over the devices. -/
def passDevice (hhdm root : Nat) (m : Machine) (device : Location) : Except Halt Machine := do
  let (table, m) ← contextTable hhdm root device.1 m
  .ok (writeEntry m table (ctxIdx device).toNat contextVal)

/-- The root table and the machine after the loop. -/
def passDevices (hhdm : Nat) (devices : List Location) (m : Machine) :
    Except Halt (Nat × Machine) := do
  let (root, m) ← allocatePage hhdm m
  let m ← devices.foldlM (passDevice hhdm root) m
  .ok (root, m)

/-! ### What the tables should be -/

/-- Frames of pages that are aligned, different, and have an address in the direct map. -/
structure GoodPages (hhdm : Nat) (frames : List Nat) : Prop where
  distinct : frames.Nodup
  aligned : ∀ frame ∈ frames, frame % pageSize = 0
  addressed : ∀ frame ∈ frames, frame + hhdm < addressSpace

/-- The tables are those of the devices. -/
structure TablesMatch (hhdm : Nat) (devices : List Location) (root : Nat) (m : Machine) :
    Prop where
  present : ∀ bus : UInt8,
    readEntry m root bus.toNat ≠ 0 ↔ ∃ device ∈ devices, device.1 = bus
  table : ∀ bus : UInt8, readEntry m root bus.toNat ≠ 0 →
    ∃ frame, frame % pageSize = 0 ∧ frame + hhdm ≠ root ∧
      readEntry m root bus.toNat = frame ||| 1 ∧
      (∀ other : UInt8, readEntry m root other.toNat = frame ||| 1 → other = bus) ∧
      ∀ slot func : UInt8, slot < 32 → func < 8 →
        readEntry m (frame + hhdm) (slot.toNat * 8 + func.toNat) =
          if (bus, slot, func) ∈ devices then contextVal else 0

/-! ### Entries -/

variable {frame index index' table : Nat} {m' : Machine}

theorem readEntry_congr {m : Machine}
    (low : m'.memory (table + index * 16) = m.memory (table + index * 16))
    (high : m'.memory (table + index * 16 + 8) = m.memory (table + index * 16 + 8)) :
    readEntry m' table index = readEntry m table index := by
  rw [readEntry, readEntry, low, high]

theorem readEntry_writeEntry (m : Machine) (table index : Nat) {value : Nat}
    (small : value < 2 ^ 128) : readEntry (writeEntry m table index value) table index = value := by
  rw [readEntry, writeEntry, write_same, write_other _ _ (by omega), write_same]
  have halves := field_join value 0 64 64
  rw [Nat.zero_add, field_all small] at halves
  rw [pack, pack, pack, Nat.mod_eq_of_lt (field_lt value 0 64),
    Nat.mod_eq_of_lt (field_lt value 64 64), Nat.mul_zero, Nat.add_zero]
  exact halves

/-- Two entries that do not overlap. -/
def EntriesApart (table index table' index' : Nat) : Prop :=
  table + index * 16 + 16 ≤ table' + index' * 16 ∨ table' + index' * 16 + 16 ≤ table + index * 16

theorem readEntry_writeEntry_apart (m : Machine) {table' : Nat} (value : Nat)
    (apart : EntriesApart table index table' index') :
    readEntry (writeEntry m table' index' value) table index = readEntry m table index := by
  unfold EntriesApart at apart
  apply readEntry_congr
  · rw [writeEntry, write_other _ _ (by omega), write_other _ _ (by omega)]
  · rw [writeEntry, write_other _ _ (by omega), write_other _ _ (by omega)]

theorem entriesApart_index (table : Nat) (different : index ≠ index') :
    EntriesApart table index table index' := by
  unfold EntriesApart
  omega

/-- The entries of different tables. -/
theorem entriesApart_table (hhdm : Nat) {frame' : Nat} (aligned : frame % pageSize = 0)
    (aligned' : frame' % pageSize = 0) (different : frame ≠ frame') (small : index < 256)
    (small' : index' < 256) : EntriesApart (frame + hhdm) index (frame' + hhdm) index' := by
  unfold EntriesApart
  unfold pageSize at aligned aligned'
  omega

/-- A new page has no entries. -/
theorem readEntry_popped (hhdm : Nat) (m : Machine) (phy : Nat) (small : index < 256) :
    readEntry (popped hhdm m phy) (phy + hhdm) index = 0 := by
  have zeroed (address : Nat) (low : phy + hhdm ≤ address)
      (high : address < phy + hhdm + pageSize) : (popped hhdm m phy).memory address = 0 :=
    WordMemory.zero_inside low high
  rw [readEntry, zeroed _ (by omega) (by unfold pageSize; omega),
    zeroed _ (by omega) (by unfold pageSize; omega)]
  rfl

theorem readEntry_popped_other (hhdm : Nat) (m : Machine) {phy : Nat} (aligned : phy % pageSize = 0)
    (aligned' : frame % pageSize = 0) (different : frame ≠ phy) (small : index < 256) :
    readEntry (popped hhdm m phy) (frame + hhdm) index = readEntry m (frame + hhdm) index := by
  unfold pageSize at aligned aligned'
  have outside (offset : Nat) (inside : offset < 4096) :
      (popped hhdm m phy).memory (frame + hhdm + offset) = m.memory (frame + hhdm + offset) := by
    apply WordMemory.zero_outside
    unfold pageSize
    omega
  apply readEntry_congr
  · exact outside (index * 16) (by omega)
  · exact outside (index * 16 + 8) (by omega)

/-! ### Root entries -/

/-- What the root table holds for a bus. -/
def rootEntry : Option Nat → Nat
  | none => 0
  | some frame => frame ||| 1

theorem or_one_eq (aligned : frame % pageSize = 0) : frame ||| 1 = frame + 1 := by
  have split : frame = 2 ^ 12 * (frame / 2 ^ 12) := by
    unfold pageSize at aligned
    omega
  rw [split]
  exact (Nat.two_pow_add_eq_or_of_lt (by decide : 1 < 2 ^ 12) _).symm

/-- A context table is found again through its root entry. -/
theorem decode_rootEntry {hhdm : Nat} (aligned : frame % pageSize = 0)
    (addressed : frame + hhdm < addressSpace) :
    wrap (((frame ||| 1) &&& ((2 ^ 128 - 1) ^^^ 0x1)) % addressSpace + hhdm) = frame + hhdm := by
  rw [or_one_eq aligned]
  unfold pageSize at aligned
  unfold addressSpace at addressed
  have masked : (frame + 1) &&& ((2 ^ 128 - 1) ^^^ 0x1) = frame := by
    have rounded := and_not_low_bits 1 (show frame + 1 < 2 ^ 128 by omega)
    rw [pow_one] at rounded
    rw [rounded]
    omega
  have small : frame < 2 ^ 64 := by omega
  rw [masked, wrap, addressSpace, Nat.mod_eq_of_lt small, Nat.mod_eq_of_lt addressed]

/-! ### The frames of the context tables -/

/-- The buses `opened` have context tables of their own, with frames among `frames`. -/
structure Assigned (frames : List Nat) (opened : List UInt8) (tables : UInt8 → Option Nat) :
    Prop where
  isOpened : ∀ bus, tables bus ≠ none ↔ bus ∈ opened
  taken : ∀ bus frame, tables bus = some frame → frame ∈ frames
  alone : ∀ bus other frame, tables bus = some frame → tables other = some frame → bus = other

section Assignment

variable {frames : List Nat} {opened : List UInt8} {tables : UInt8 → Option Nat}

theorem Assigned.add (assigned : Assigned frames opened tables) {phy : Nat} (fresh : phy ∉ frames)
    (bus : UInt8) :
    Assigned (frames ++ [phy]) (opened ++ [bus]) (Function.update tables bus (some phy)) := by
  constructor
  case isOpened =>
    intro other
    rw [List.mem_append, List.mem_singleton]
    by_cases same : other = bus
    · rw [same, Function.update_self]
      exact iff_of_true (Option.some_ne_none phy) (Or.inr rfl)
    · rw [Function.update_of_ne same, assigned.isOpened]
      exact (or_iff_left same).symm
  case taken =>
    intro other frame found
    by_cases same : other = bus
    · rw [same, Function.update_self] at found
      cases found
      exact List.mem_append_right _ List.mem_cons_self
    · rw [Function.update_of_ne same] at found
      exact List.mem_append_left _ (assigned.taken other frame found)
  case alone =>
    -- The new frame was no other bus's before.
    have notBefore (other : UInt8) : tables other ≠ some phy :=
      fun found => fresh (assigned.taken other phy found)
    intro first second frame found foundSecond
    by_cases sameFirst : first = bus
    · by_cases sameSecond : second = bus
      · rw [sameFirst, sameSecond]
      · rw [sameFirst, Function.update_self] at found
        rw [Function.update_of_ne sameSecond, ← found] at foundSecond
        exact absurd foundSecond (notBefore second)
    · rw [Function.update_of_ne sameFirst] at found
      by_cases sameSecond : second = bus
      · rw [sameSecond, Function.update_self] at foundSecond
        rw [← foundSecond] at found
        exact absurd found (notBefore first)
      · rw [Function.update_of_ne sameSecond] at foundSecond
        exact assigned.alone first second frame found foundSecond

theorem Assigned.again (assigned : Assigned frames opened tables) {bus : UInt8}
    (present : bus ∈ opened) : Assigned frames (opened ++ [bus]) tables where
  isOpened := by
    intro other
    rw [assigned.isOpened, List.mem_append, List.mem_singleton]
    constructor
    · exact Or.inl
    · intro either
      cases either with
      | inl member => exact member
      | inr same => rw [same]; exact present
  taken := assigned.taken
  alone := assigned.alone

end Assignment

/-! ### Good pages -/

section Pages

variable {hhdm rootFrame : Nat} {frames : List Nat}

theorem GoodPages.sublist {fewer : List Nat} (good : GoodPages hhdm frames)
    (inside : fewer.Sublist frames) : GoodPages hhdm fewer where
  distinct := good.distinct.sublist inside
  aligned := fun frame member => good.aligned frame (inside.subset member)
  addressed := fun frame member => good.addressed frame (inside.subset member)

theorem GoodPages.initial {more : List Nat}
    (good : GoodPages hhdm (rootFrame :: (frames ++ more))) :
    GoodPages hhdm (rootFrame :: frames) :=
  good.sublist ((List.sublist_append_left frames more).cons_cons rootFrame)

theorem GoodPages.ne_root (good : GoodPages hhdm (rootFrame :: frames)) {frame : Nat}
    (member : frame ∈ frames) : frame ≠ rootFrame := by
  intro same
  rw [same] at member
  exact (List.nodup_cons.mp good.distinct).1 member

theorem GoodPages.not_mem {phy : Nat} (good : GoodPages hhdm (rootFrame :: (frames ++ [phy]))) :
    phy ∉ frames := by
  intro member
  have distinct := (List.nodup_append.mp (List.nodup_cons.mp good.distinct).2).2.2
  exact distinct phy member phy List.mem_cons_self rfl

theorem index_lt (byte : UInt8) : byte.toNat < 256 := byte.toNat_lt

/-- An entry in the root table, and a page taken for a context table, leave the tables of the
other buses alone. -/
theorem readEntry_open_other (m : Machine) {phy frame index : Nat} (bus : UInt8) (value : Nat)
    (good : GoodPages hhdm (rootFrame :: (frames ++ [phy]))) (member : frame ∈ frames)
    (small : index < 256) :
    readEntry (writeEntry (popped hhdm m phy) (rootFrame + hhdm) bus.toNat value) (frame + hhdm)
      index = readEntry m (frame + hhdm) index := by
  have alignedFrame := good.aligned frame (List.mem_cons_of_mem _ (List.mem_append_left _ member))
  have alignedPhy := good.aligned phy (List.mem_cons_of_mem _ (List.mem_append_right _
    List.mem_cons_self))
  have notPhy : frame ≠ phy := fun same => good.not_mem (same ▸ member)
  rw [readEntry_writeEntry_apart,
    readEntry_popped_other hhdm m alignedPhy alignedFrame notPhy small]
  exact entriesApart_table hhdm alignedFrame (good.aligned rootFrame List.mem_cons_self)
    (good.initial.ne_root member) small (index_lt bus)

/-- The new context table is empty. -/
theorem readEntry_open_new (m : Machine) {phy index : Nat} (bus : UInt8) (value : Nat)
    (good : GoodPages hhdm (rootFrame :: (frames ++ [phy]))) (small : index < 256) :
    readEntry (writeEntry (popped hhdm m phy) (rootFrame + hhdm) bus.toNat value) (phy + hhdm)
      index = 0 := by
  have member : phy ∈ frames ++ [phy] := List.mem_append_right _ List.mem_cons_self
  rw [readEntry_writeEntry_apart, readEntry_popped hhdm m phy small]
  exact entriesApart_table hhdm (good.aligned phy (List.mem_cons_of_mem _ member))
    (good.aligned rootFrame List.mem_cons_self) (good.ne_root member) small (index_lt bus)

/-- The root table changes in one entry. -/
theorem readEntry_open_root (m : Machine) {phy : Nat} (bus other : UInt8)
    (good : GoodPages hhdm (rootFrame :: (frames ++ [phy]))) :
    readEntry (writeEntry (popped hhdm m phy) (rootFrame + hhdm) bus.toNat (phy ||| 1))
        (rootFrame + hhdm) other.toNat =
      if other = bus then phy ||| 1 else readEntry m (rootFrame + hhdm) other.toNat := by
  have member : phy ∈ frames ++ [phy] := List.mem_append_right _ List.mem_cons_self
  have alignedPhy := good.aligned phy (List.mem_cons_of_mem _ member)
  by_cases same : other = bus
  · have addressed := good.addressed phy (List.mem_cons_of_mem _ member)
    unfold addressSpace at addressed
    rw [if_pos same, same]
    apply readEntry_writeEntry
    rw [or_one_eq alignedPhy]
    omega
  · have apart : other.toNat ≠ bus.toNat := fun equal => same (UInt8.toNat_inj.mp equal)
    rw [if_neg same, readEntry_writeEntry_apart _ _ (entriesApart_index _ apart)]
    exact readEntry_popped_other hhdm m alignedPhy (good.aligned rootFrame List.mem_cons_self)
      (good.ne_root member).symm (index_lt other)

end Pages

/-! ### The tables during the loop -/

/-- The tables of the buses `opened`, filled for the devices `done`; `tables` has the frames of
the context tables. -/
structure Built (hhdm rootFrame : Nat) (frames : List Nat) (opened : List UInt8)
    (done : List Location) (tables : UInt8 → Option Nat) (m : Machine) : Prop where
  assigned : Assigned frames opened tables
  covered : ∀ device ∈ done, device.1 ∈ opened
  root : ∀ bus, readEntry m (rootFrame + hhdm) bus.toNat = rootEntry (tables bus)
  context : ∀ bus frame, tables bus = some frame → ∀ index < 256,
    readEntry m (frame + hhdm) index =
      if ∃ device ∈ done, device.1 = bus ∧ (ctxIdx device).toNat = index then contextVal else 0

section Loop

variable {hhdm rootFrame : Nat} {frames : List Nat} {opened : List UInt8} {done : List Location}
  {tables : UInt8 → Option Nat} {m : Machine}

variable {bus : UInt8} {phy root : Nat} {device : Location} {devices : List Location}

theorem Built.aligned (built : Built hhdm rootFrame frames opened done tables m)
    (good : GoodPages hhdm (rootFrame :: frames)) (found : tables bus = some frame) :
    frame % pageSize = 0 :=
  good.aligned frame (List.mem_cons_of_mem rootFrame (built.assigned.taken bus frame found))

theorem Built.ne_root (built : Built hhdm rootFrame frames opened done tables m)
    (good : GoodPages hhdm (rootFrame :: frames)) (found : tables bus = some frame) :
    frame ≠ rootFrame :=
  good.ne_root (built.assigned.taken bus frame found)

/-- The entry of a device is apart from the entries of the other functions, in the same table or
in another one. -/
theorem Built.entriesApart (built : Built hhdm rootFrame frames opened done tables m)
    (good : GoodPages hhdm (rootFrame :: frames)) {other index : Nat}
    (found : tables device.1 = some frame) (foundOther : tables bus = some other)
    (small : index < 256) (elsewhere : ¬(device.1 = bus ∧ (ctxIdx device).toNat = index)) :
    EntriesApart (other + hhdm) index (frame + hhdm) (ctxIdx device).toNat := by
  by_cases sameBus : device.1 = bus
  · rw [← sameBus, found] at foundOther
    rw [Option.some.inj foundOther]
    exact entriesApart_index _ fun same => elsewhere ⟨sameBus, same.symm⟩
  · have different : other ≠ frame := by
      intro same
      rw [same] at foundOther
      exact sameBus (built.assigned.alone device.1 bus frame found foundOther)
    exact entriesApart_table hhdm (built.aligned good foundOther) (built.aligned good found)
      different small (index_lt _)

/-- The entry of a device is written. -/
theorem Built.pass (built : Built hhdm rootFrame frames opened done tables m)
    (good : GoodPages hhdm (rootFrame :: frames)) (device : Location)
    (found : tables device.1 = some frame) :
    Built hhdm rootFrame frames opened (done ++ [device]) tables
      (writeEntry m (frame + hhdm) (ctxIdx device).toNat contextVal) := by
  constructor
  case assigned => exact built.assigned
  case covered =>
    intro other member
    cases List.mem_append.mp member with
    | inl member => exact built.covered other member
    | inr member =>
        rw [List.mem_singleton.mp member, ← built.assigned.isOpened, found]
        exact Option.some_ne_none frame
  case root =>
    intro bus
    rw [readEntry_writeEntry_apart]
    · exact built.root bus
    · exact entriesApart_table hhdm (good.aligned rootFrame List.mem_cons_self)
        (built.aligned good found) (built.ne_root good found).symm (index_lt bus) (index_lt _)
  case context =>
    intro bus other foundOther index small
    by_cases here : device.1 = bus ∧ (ctxIdx device).toNat = index
    · rw [← here.1, found] at foundOther
      rw [if_pos ⟨device, List.mem_append_right _ List.mem_cons_self, here⟩, ← here.2,
        ← Option.some.inj foundOther]
      exact readEntry_writeEntry m _ _ (by decide)
    · have unchanged :
          (∃ other ∈ done ++ [device], other.1 = bus ∧ (ctxIdx other).toNat = index) ↔
            ∃ other ∈ done, other.1 = bus ∧ (ctxIdx other).toNat = index := by
        simp only [List.mem_append, List.mem_singleton, or_and_right, exists_or, exists_eq_left,
          here, or_false]
      rw [readEntry_writeEntry_apart m _ (built.entriesApart good found foundOther small here),
        built.context bus other foundOther index small]
      simp only [unchanged]

/-- The context table of a bus is made. -/
theorem Built.open_new (built : Built hhdm rootFrame frames opened done tables m)
    (good : GoodPages hhdm (rootFrame :: (frames ++ [phy]))) (missing : tables bus = none) :
    Built hhdm rootFrame (frames ++ [phy]) (opened ++ [bus]) done
      (Function.update tables bus (some phy))
      (writeEntry (popped hhdm m phy) (rootFrame + hhdm) bus.toNat (phy ||| 1)) := by
  constructor
  case assigned => exact built.assigned.add good.not_mem bus
  case covered =>
    intro device member
    exact List.mem_append_left _ (built.covered device member)
  case root =>
    intro other
    rw [readEntry_open_root m bus other good]
    by_cases same : other = bus
    · rw [if_pos same, same, Function.update_self, rootEntry]
    · rw [if_neg same, Function.update_of_ne same, built.root]
  case context =>
    intro other frame found index small
    by_cases same : other = bus
    · rw [same, Function.update_self] at found
      have noDevice : ¬∃ device ∈ done, device.1 = other ∧ (ctxIdx device).toNat = index := by
        intro some
        rcases some with ⟨device, member, onBus, _⟩
        apply (built.assigned.isOpened bus).mpr _ missing
        rw [← same, ← onBus]
        exact built.covered device member
      rw [if_neg noDevice, ← Option.some.inj found]
      exact readEntry_open_new m bus _ good small
    · rw [Function.update_of_ne same] at found
      rw [readEntry_open_other m bus _ good (built.assigned.taken other frame found) small]
      exact built.context other frame found index small

/-- A bus that has a table is only recorded again. -/
theorem Built.open_again (built : Built hhdm rootFrame frames opened done tables m)
    (present : bus ∈ opened) : Built hhdm rootFrame frames (opened ++ [bus]) done tables m where
  assigned := built.assigned.again present
  covered := fun device member => List.mem_append_left _ (built.covered device member)
  root := built.root
  context := built.context

/-! ### One device -/

theorem took_writeEntry {taken : List Nat} {m m' : Machine} (took : Took taken m m')
    (table index value : Nat) : Took taken m (writeEntry m' table index value) :=
  (took.write _ _).write _ _

theorem passDevice_new {hhdm : Nat} (head : m.freelist = some phy)
    (empty : readEntry m root device.1.toNat = 0) :
    passDevice hhdm root m device =
      .ok (writeEntry (writeEntry (popped hhdm m phy) root device.1.toNat (phy ||| 1))
        (phy + hhdm) (ctxIdx device).toNat contextVal) := by
  have made : contextTable hhdm root device.1 m =
      .ok (phy + hhdm, writeEntry (popped hhdm m phy) root device.1.toNat (phy ||| 1)) := by
    rw [contextTable, if_pos empty, allocatePage_popped head]
    show Except.ok _ = _
    rw [Nat.add_sub_cancel]
  rw [passDevice, made]
  rfl

theorem passDevice_found {hhdm : Nat} (used : readEntry m root device.1.toNat ≠ 0) :
    passDevice hhdm root m device =
      .ok (writeEntry m
        (wrap ((readEntry m root device.1.toNat &&& ((2 ^ 128 - 1) ^^^ 0x1)) % addressSpace + hhdm))
        (ctxIdx device).toNat contextVal) := by
  rw [passDevice, contextTable, if_neg used]
  rfl

theorem rootEntry_eq_zero_iff (table : Option Nat) : rootEntry table = 0 ↔ table = none := by
  cases table with
  | none => exact iff_of_true rfl rfl
  | some frame =>
      apply iff_of_false _ (Option.some_ne_none frame)
      rw [rootEntry, Nat.or_eq_zero_iff]
      omega

/-- The body of the loop returns, and it keeps the tables right if the pages are good. -/
theorem passDevice_step (rootFrame : Nat) (ready : m.freelist ≠ none) (device : Location) :
    ∃ new m', passDevice hhdm (rootFrame + hhdm) m device = .ok m' ∧ Took new m m' ∧
      ∀ frames opened done tables, GoodPages hhdm (rootFrame :: (frames ++ new)) →
        Built hhdm rootFrame frames opened done tables m →
        ∃ tables', Built hhdm rootFrame (frames ++ new) (opened ++ [device.1]) (done ++ [device])
          tables' m' := by
  by_cases empty : readEntry m (rootFrame + hhdm) device.1.toNat = 0
  · rcases Option.ne_none_iff_exists'.mp ready with ⟨phy, head⟩
    refine ⟨[phy], _, passDevice_new head empty,
      took_writeEntry (took_writeEntry (popped_took hhdm m phy) _ _ _) _ _ _, ?_⟩
    intro frames opened done tables good built
    have missing : tables device.1 = none := by
      rw [← rootEntry_eq_zero_iff, ← built.root]
      exact empty
    exact ⟨_, (built.open_new good missing).pass good device (Function.update_self _ _ _)⟩
  · refine ⟨[], _, passDevice_found empty, took_writeEntry (Took.nothing ready) _ _ _, ?_⟩
    intro frames opened done tables good built
    rw [List.append_nil] at good ⊢
    have used : tables device.1 ≠ none := by
      rw [Ne, ← rootEntry_eq_zero_iff, ← built.root]
      exact empty
    rcases Option.ne_none_iff_exists'.mp used with ⟨frame, found⟩
    have member := List.mem_cons_of_mem rootFrame (built.assigned.taken device.1 frame found)
    rw [built.root, found, rootEntry,
      decode_rootEntry (good.aligned frame member) (good.addressed frame member)]
    have present : device.1 ∈ opened := (built.assigned.isOpened device.1).mp used
    exact ⟨tables, (built.open_again present).pass good device found⟩

/-! ### All devices -/

theorem passDevice_run (rootFrame : Nat) (ready : m.freelist ≠ none) (devices : List Location) :
    ∃ more m', devices.foldlM (passDevice hhdm (rootFrame + hhdm)) m = .ok m' ∧ Took more m m' ∧
      ∀ frames opened done tables, GoodPages hhdm (rootFrame :: (frames ++ more)) →
        Built hhdm rootFrame frames opened done tables m →
        ∃ tables', Built hhdm rootFrame (frames ++ more) (opened ++ devices.map Prod.fst)
          (done ++ devices) tables' m' := by
  induction devices generalizing m with
  | nil =>
      refine ⟨[], m, rfl, Took.nothing ready, ?_⟩
      intro frames opened done tables _ built
      rw [List.append_nil, List.map_nil, List.append_nil, List.append_nil]
      exact ⟨tables, built⟩
  | cons device devices inductionHypothesis =>
      rcases passDevice_step rootFrame ready device with ⟨new, mid, passed, took, keeps⟩
      rcases inductionHypothesis took.ready with ⟨more, m', rest, tookRest, keepsRest⟩
      refine ⟨new ++ more, m', ?_, took.trans tookRest, ?_⟩
      · rw [ExceptFold.foldlM_cons_eq passed]
        exact rest
      · intro frames opened done tables good built
        rw [← List.append_assoc] at good ⊢
        rcases keeps frames opened done tables good.initial built with ⟨tablesMid, builtMid⟩
        rcases keepsRest _ _ _ tablesMid good builtMid with ⟨tables', built'⟩
        refine ⟨tables', ?_⟩
        rw [List.map_cons, List.append_cons opened, List.append_cons done]
        exact built'

theorem ctxIdx_toNat (slot : device.2.1 < 32) (func : device.2.2 < 8) :
    (ctxIdx device).toNat = device.2.1.toNat * 8 + device.2.2.toNat := by
  have slotSmall : device.2.1.toNat < 32 := UInt8.lt_iff_toNat_lt.mp slot
  have funcSmall : device.2.2.toNat < 2 ^ 3 := UInt8.lt_iff_toNat_lt.mp func
  have shifted : (device.2.1 <<< 3).toNat = device.2.1.toNat <<< 3 := by
    rw [UInt8.toNat_shiftLeft]
    show device.2.1.toNat <<< 3 % 2 ^ 8 = _
    rw [Nat.shiftLeft_eq]
    omega
  rw [ctxIdx, UInt8.toNat_or, shifted, ← Nat.shiftLeft_add_eq_or_of_lt funcSmall, Nat.shiftLeft_eq]

/-- The entry of a function is that of no other one. -/
theorem exists_index_iff (inRange : ∀ device ∈ devices, device.2.1 < 32 ∧ device.2.2 < 8)
    (bus : UInt8) {slot func : UInt8} (slotSmall : slot < 32) (funcSmall : func < 8) :
    (∃ device ∈ devices, device.1 = bus ∧
        (ctxIdx device).toNat = slot.toNat * 8 + func.toNat) ↔
      (bus, slot, func) ∈ devices := by
  constructor
  · intro found
    rcases found with ⟨device, member, onBus, same⟩
    rcases inRange device member with ⟨slotRange, funcRange⟩
    rw [ctxIdx_toNat slotRange funcRange] at same
    have funcLow : device.2.2.toNat < 8 := UInt8.lt_iff_toNat_lt.mp funcRange
    have funcLow' : func.toNat < 8 := UInt8.lt_iff_toNat_lt.mp funcSmall
    have sameSlot : device.2.1 = slot := UInt8.toNat_inj.mp (by omega)
    have sameFunc : device.2.2 = func := UInt8.toNat_inj.mp (by omega)
    rw [← onBus, ← sameSlot, ← sameFunc]
    exact member
  · intro member
    exact ⟨(bus, slot, func), member, rfl, ctxIdx_toNat slotSmall funcSmall⟩

theorem Built.tablesMatch
    (built : Built hhdm rootFrame frames (devices.map Prod.fst) devices tables m)
    (good : GoodPages hhdm (rootFrame :: frames))
    (inRange : ∀ device ∈ devices, device.2.1 < 32 ∧ device.2.2 < 8) :
    TablesMatch hhdm devices (rootFrame + hhdm) m where
  present := by
    intro bus
    rw [built.root, Ne, rootEntry_eq_zero_iff, ← Ne, built.assigned.isOpened, List.mem_map]
  table := by
    intro bus used
    rw [built.root, Ne, rootEntry_eq_zero_iff] at used
    rcases Option.ne_none_iff_exists'.mp used with ⟨frame, found⟩
    refine ⟨frame, built.aligned good found, ?_, ?_, ?_, ?_⟩
    · intro same
      exact built.ne_root good found (Nat.add_right_cancel same)
    · rw [built.root, found, rootEntry]
    · intro other entry
      rw [built.root] at entry
      cases foundOther : tables other with
      | none =>
          rw [foundOther, rootEntry, or_one_eq (built.aligned good found)] at entry
          omega
      | some frame' =>
          rw [foundOther, rootEntry, or_one_eq (built.aligned good found),
            or_one_eq (built.aligned good foundOther)] at entry
          have same : frame' = frame := Nat.add_right_cancel entry
          rw [same] at foundOther
          exact built.assigned.alone other bus frame foundOther found
    · intro slot func slotSmall funcSmall
      have slotLow : slot.toNat < 32 := UInt8.lt_iff_toNat_lt.mp slotSmall
      have funcLow : func.toNat < 8 := UInt8.lt_iff_toNat_lt.mp funcSmall
      rw [built.context bus frame found _ (by omega)]
      simp only [exists_index_iff inRange bus slotSmall funcSmall]

/-- The empty root table. -/
theorem built_start (hhdm phy : Nat) (m : Machine) :
    Built hhdm phy [] [] [] (fun _ => none) (popped hhdm m phy) where
  assigned :=
    { isOpened := fun _ => iff_of_false (fun some => some rfl) List.not_mem_nil
      taken := fun _ _ found => nomatch found
      alone := fun _ _ _ found => nomatch found }
  covered := fun _ member => absurd member List.not_mem_nil
  root := fun bus => readEntry_popped hhdm m phy (index_lt bus)
  context := fun _ _ found => nomatch found

end Loop

/-- For any list of devices the loop returns.  If `allocate_page` has given it different aligned
pages, the tables are those of the devices. -/
theorem context_tables_match (hhdm : Nat) (devices : List Location) (m : Machine)
    (ready : m.freelist ≠ none)
    (inRange : ∀ device ∈ devices, device.2.1 < 32 ∧ device.2.2 < 8) :
    ∃ root m', passDevices hhdm devices m = .ok (root, m') ∧
      (GoodPages hhdm (takenFrames m m') → TablesMatch hhdm devices root m') := by
  rcases Option.ne_none_iff_exists'.mp ready with ⟨phy, head⟩
  have tookRoot := popped_took hhdm m phy
  rcases passDevice_run phy tookRoot.ready devices with ⟨more, m', passed, took, keeps⟩
  refine ⟨phy + hhdm, m', ?_, ?_⟩
  · rw [passDevices, allocatePage_popped head]
    show (do let m ← _; Except.ok (phy + hhdm, m)) = _
    rw [passed]
    rfl
  · intro good
    have calls := (tookRoot.trans took).calls
    rw [← List.append_nil (m.pmmCalls ++ _)] at calls
    rw [takenFrames_allocated calls, List.filterMap_nil, List.append_nil] at good
    rcases keeps [] [] [] _ good (built_start hhdm phy m) with ⟨tables, built⟩
    exact built.tablesMatch good inRange

/-- A machine with three free pages that hold other things than zero. -/
def freshMachine : Machine where
  memory := fun address =>
    if address = 0xFFFF800000001000 then 0x2000
    else if address = 0xFFFF800000002000 then 0x3000
    else 0xFF
  freelist := some 0x1000
  slabCaches := []
  kermap := none
  cr3 := 0
  pmmCalls := []

/-- Two functions on bus 0 and one on bus 3, one of them listed twice. -/
def someDevices : List Location := [(0, 1, 0), (3, 31, 7), (0, 2, 1), (0, 1, 0)]

theorem freshMachine_taken {root : Nat}
    (passed : passDevices 0xFFFF800000000000 someDevices freshMachine = .ok (root, m')) :
    takenFrames freshMachine m' = [0x1000, 0x2000, 0x3000] := by
  have frames : (passDevices 0xFFFF800000000000 someDevices freshMachine).map
      (fun result => takenFrames freshMachine result.2) = .ok [0x1000, 0x2000, 0x3000] := by
    decide +kernel
  rw [passed] at frames
  exact Except.ok.inj frames

theorem context_tables_match_some :
    ∃ root m', passDevices 0xFFFF800000000000 someDevices freshMachine = .ok (root, m') ∧
      GoodPages 0xFFFF800000000000 (takenFrames freshMachine m') ∧
      TablesMatch 0xFFFF800000000000 someDevices root m' := by
  rcases context_tables_match 0xFFFF800000000000 someDevices freshMachine
    (Option.some_ne_none _) (by simp [someDevices]) with ⟨root, m', passed, tables⟩
  have good : GoodPages 0xFFFF800000000000 (takenFrames freshMachine m') := by
    rw [freshMachine_taken passed]
    exact ⟨by decide, by decide, by decide⟩
  exact ⟨root, m', passed, good, tables good⟩

end NyauxKernel.X86
