/-
The descriptors of `idt/mod.rs` and `gdt/mod.rs`, and what the processor reads out of them.

`GateDesc::new` and `GDTtss::new` scatter an address over the members of a record without
padding.  The processor takes the fields of a gate and of a system segment out of the 128
bits of that record.
-/

import NyauxKernel.Library.BitFields
import Mathlib.Data.UInt

namespace NyauxKernel.X86

open BitFields

/-! ### The records -/

structure GateDesc where
  offsetLo : UInt16
  segSel : UInt16
  ist : UInt8
  flags : UInt8
  offsetMid : UInt16
  offsetHi : UInt32
  reversed : UInt32

def GateDesc.new (offset : UInt64) (seg : UInt16) (dpl gateType ist : UInt8) : GateDesc where
  offsetLo := offset.toUInt16 &&& 0xFFFF
  segSel := seg
  flags := ((1 : UInt8) <<< 7) ||| ((dpl &&& 0x3) <<< 6) ||| (gateType &&& 0xF)
  ist := ist
  offsetMid := (offset >>> 16).toUInt16 &&& 0xFFFF
  offsetHi := (offset >>> 32).toUInt32 &&& 0xFFFFFFFF
  reversed := 0

/-- The 16 bytes of a gate, little endian. -/
def GateDesc.encoding (gate : GateDesc) : Nat :=
  pack [(16, gate.offsetLo.toNat), (16, gate.segSel.toNat), (8, gate.ist.toNat),
    (8, gate.flags.toNat), (16, gate.offsetMid.toNat), (32, gate.offsetHi.toNat),
    (32, gate.reversed.toNat)]

/-- The sizes of the members of `tss`, which is packed. -/
def tssMembers : List Nat := [4, 8, 8, 8, 8, 8, 8, 8, 8, 8, 8, 8, 8, 2, 2]

def sizeOfTss : Nat := tssMembers.sum

structure GDTtss where
  segLim : UInt16
  baseAddrLow : UInt16
  baseAddrLowHi : UInt8
  accessByte : UInt8
  flagsAndLim : UInt8
  baseAddrHiLow : UInt8
  baseAddrHiHi : UInt32
  reserved : UInt32

/-- `addr` is the address of the task state segment. -/
def GDTtss.new (addr : UInt64) : GDTtss :=
  let limit := UInt64.ofNat (sizeOfTss - 1)
  { segLim := (limit &&& 0xFFFF).toUInt16
    baseAddrLow := (addr &&& 0xFFFF).toUInt16
    baseAddrLowHi := ((addr >>> 16) &&& 0xFF).toUInt8
    baseAddrHiLow := ((addr >>> 24) &&& 0xFF).toUInt8
    baseAddrHiHi := ((addr >>> 32) &&& 0xFFFFFFFF).toUInt32
    accessByte := ((1 : UInt8) <<< 7) ||| 0x9
    flagsAndLim := ((limit >>> 16) &&& 0xF).toUInt8
    reserved := 0 }

/-- The 16 bytes of the segment, little endian. -/
def GDTtss.encoding (segment : GDTtss) : Nat :=
  pack [(16, segment.segLim.toNat), (16, segment.baseAddrLow.toNat),
    (8, segment.baseAddrLowHi.toNat), (8, segment.accessByte.toNat),
    (8, segment.flagsAndLim.toNat), (8, segment.baseAddrHiLow.toNat),
    (32, segment.baseAddrHiHi.toNat), (32, segment.reserved.toNat)]

/-! ### The layouts of the processor -/

/-- A gate as the processor sees it. -/
structure Gate where
  offset : Nat
  selector : Nat
  ist : Nat
  gateType : Nat
  dpl : Nat
  present : Bool
  deriving DecidableEq

def interruptGate (descriptor : Nat) : Gate where
  offset := field descriptor 0 16 + 2 ^ 16 * field descriptor 48 16 +
    2 ^ 32 * field descriptor 64 32
  selector := field descriptor 16 16
  ist := field descriptor 32 3
  gateType := field descriptor 40 4
  dpl := field descriptor 45 2
  present := field descriptor 47 1 == 1

/-- A system segment as the processor sees it; a granular limit counts pages. -/
structure Segment where
  base : Nat
  limit : Nat
  segmentType : Nat
  dpl : Nat
  present : Bool
  granular : Bool
  deriving DecidableEq

def systemSegment (descriptor : Nat) : Segment where
  base := field descriptor 16 24 + 2 ^ 24 * field descriptor 56 8 +
    2 ^ 32 * field descriptor 64 32
  limit := field descriptor 0 16 + 2 ^ 16 * field descriptor 48 4
  segmentType := field descriptor 40 4
  dpl := field descriptor 45 2
  present := field descriptor 47 1 == 1
  granular := field descriptor 55 1 == 1

/-! ### The encodings in terms of the arguments -/

theorem and_byte (value : Nat) : value &&& 0xFF = value % 2 ^ 8 :=
  Nat.and_two_pow_sub_one_eq_mod value 8

theorem and_word (value : Nat) : value &&& 0xFFFF = value % 2 ^ 16 :=
  Nat.and_two_pow_sub_one_eq_mod value 16

theorem and_dword (value : Nat) : value &&& 0xFFFFFFFF = value % 2 ^ 32 :=
  Nat.and_two_pow_sub_one_eq_mod value 32

theorem gate_encoding (offset : UInt64) (seg : UInt16) (dpl gateType ist : UInt8) :
    (GateDesc.new offset seg dpl gateType ist).encoding =
      pack [(16, field offset.toNat 0 16), (16, seg.toNat), (8, ist.toNat),
        (8, (GateDesc.new offset seg dpl gateType ist).flags.toNat),
        (16, field offset.toNat 16 16), (32, field offset.toNat 32 32), (32, 0)] := by
  simp [GateDesc.encoding, GateDesc.new, field, and_word, and_dword, Nat.shiftRight_eq_div_pow]

theorem tss_encoding (addr : UInt64) :
    (GDTtss.new addr).encoding =
      pack [(16, sizeOfTss - 1), (16, field addr.toNat 0 16), (8, field addr.toNat 16 8),
        (8, 0x89), (8, 0), (8, field addr.toNat 24 8), (32, field addr.toNat 32 32),
        (32, 0)] := by
  simp [GDTtss.encoding, GDTtss.new, field, sizeOfTss, tssMembers, and_byte, and_word,
    and_dword, Nat.shiftRight_eq_div_pow]

/-! ### What the processor reads -/

/-- The halves of an address. -/
theorem field_halves (addr : UInt64) :
    field addr.toNat 0 32 + 2 ^ 32 * field addr.toNat 32 32 = addr.toNat := by
  have halves := field_join addr.toNat 0 32 32
  rw [Nat.zero_add] at halves
  rw [halves, field_all addr.toNat_lt]

theorem gate_reads (offset : UInt64) (seg : UInt16) (dpl gateType ist : UInt8) :
    interruptGate (GateDesc.new offset seg dpl gateType ist).encoding =
      { offset := offset.toNat
        selector := seg.toNat
        ist := field ist.toNat 0 3
        gateType := field (GateDesc.new offset seg dpl gateType ist).flags.toNat 0 4
        dpl := field (GateDesc.new offset seg dpl gateType ist).flags.toNat 5 2
        present := field (GateDesc.new offset seg dpl gateType ist).flags.toNat 7 1 == 1 } := by
  have low := field_join offset.toNat 0 16 16
  rw [Nat.zero_add] at low
  rw [gate_encoding]
  simp (disch := omega) only [interruptGate, field_pack_head, field_pack_tail, Nat.reduceSub,
    field_field, field_all seg.toNat_lt, Nat.add_zero, low, Nat.reduceAdd, field_halves]

/-- The privilege level is one place too high: its lower bit is read as the upper one, and
its upper bit falls on the present bit. -/
theorem flags_fields : ∀ dpl < 4, ∀ gateType < 16,
    let flags := (GateDesc.new 0 0 (UInt8.ofNat dpl) (UInt8.ofNat gateType) 0).flags.toNat
    field flags 0 4 = gateType ∧ field flags 5 2 = 2 * (dpl % 2) ∧ field flags 7 1 = 1 := by
  decide

theorem gate_decodes (offset : UInt64) (seg : UInt16) {dpl gateType ist : UInt8}
    (level : dpl < 4) (kind : gateType < 16) (stack : ist < 8) :
    interruptGate (GateDesc.new offset seg dpl gateType ist).encoding =
      { offset := offset.toNat
        selector := seg.toNat
        ist := ist.toNat
        gateType := gateType.toNat
        dpl := 2 * (dpl.toNat % 2)
        present := true } := by
  have flags := flags_fields dpl.toNat (UInt8.lt_iff_toNat_lt.mp level) gateType.toNat
    (UInt8.lt_iff_toNat_lt.mp kind)
  rw [UInt8.ofNat_toNat, UInt8.ofNat_toNat] at flags
  rcases flags with ⟨typeRead, levelRead, presentRead⟩
  have stackRead : field ist.toNat 0 3 = ist.toNat :=
    field_all (UInt8.lt_iff_toNat_lt.mp stack)
  rw [gate_reads, stackRead]
  congr
  rw [beq_iff_eq]
  exact presentRead

theorem tss_decodes (addr : UInt64) :
    systemSegment (GDTtss.new addr).encoding =
      { base := addr.toNat
        limit := sizeOfTss - 1
        segmentType := 9
        dpl := 0
        present := true
        granular := false } := by
  have low := field_join addr.toNat 0 16 8
  have middle := field_join addr.toNat 0 24 8
  rw [Nat.zero_add] at low middle
  -- The lower 24 bits of the base are in two members.
  rw [tss_encoding, systemSegment, ← field_join _ 16 16 8]
  simp (disch := omega) only [field_pack_head, field_pack_tail, Nat.reduceSub, Nat.reduceAdd,
    field_field, Nat.add_zero, low, middle, field_halves]
  rfl

/-- Reading a gate gives back what it was made from, and reading the segment of the TSS its
address and its limit, for the privilege level 0 only. -/
theorem descriptors_decode_iff (offset : UInt64) (seg : UInt16) (dpl gateType ist : UInt8)
    (level : dpl < 4) (kind : gateType < 16) (stack : ist < 8) :
    (interruptGate (GateDesc.new offset seg dpl gateType ist).encoding =
        { offset := offset.toNat
          selector := seg.toNat
          ist := ist.toNat
          gateType := gateType.toNat
          dpl := dpl.toNat
          present := true } ∧
      ∀ tss : UInt64,
        (systemSegment (GDTtss.new tss).encoding).base = tss.toNat ∧
          (systemSegment (GDTtss.new tss).encoding).limit = sizeOfTss - 1) ↔
      dpl = 0 := by
  rw [gate_decodes offset seg level kind stack]
  constructor
  · intro decoded
    have sameLevel : 2 * (dpl.toNat % 2) = dpl.toNat := congrArg Gate.dpl decoded.1
    apply UInt8.toNat_inj.mp
    have small : dpl.toNat < 4 := UInt8.lt_iff_toNat_lt.mp level
    change dpl.toNat = 0
    omega
  · intro ring
    rw [ring]
    constructor
    · rfl
    · intro tss
      rw [tss_decodes]
      exact ⟨rfl, rfl⟩

theorem descriptors_decode_kernel :
    (0 : UInt8) < 4 ∧ (0xE : UInt8) < 16 ∧ (1 : UInt8) < 8 ∧
      interruptGate (GateDesc.new 0xFFFFFFFF80001234 0x28 0 0xE 1).encoding =
        { offset := 0xFFFFFFFF80001234
          selector := 0x28
          ist := 1
          gateType := 0xE
          dpl := 0
          present := true } :=
  ⟨by decide, by decide, by decide,
    ((descriptors_decode_iff 0xFFFFFFFF80001234 0x28 0 0xE 1 (by decide) (by decide)
      (by decide)).mpr rfl).1⟩

/-- A gate made for user mode is read as a gate of level 2, which user mode may not call. -/
theorem user_gate_level :
    (interruptGate (GateDesc.new 0xFFFFFFFF80001234 0x28 3 0xE 0).encoding).dpl = 2 ∧
      (interruptGate (GateDesc.new 0xFFFFFFFF80001234 0x28 3 0xE 0).encoding).dpl ≠
        (3 : UInt8).toNat := by
  rw [gate_decodes _ _ (by decide) (by decide) (by decide)]
  decide

end NyauxKernel.X86
