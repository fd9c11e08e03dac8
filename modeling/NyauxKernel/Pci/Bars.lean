/-
Base address registers: `pci_map_bar` of `pci/mod.rs`.

The devices are recorded as bus, slot and function, but `pci_map_bar` reads the registers with
the function in the place of the bus and the bus in the place of the function.
-/

import NyauxKernel.Memory.DeviceMappings
import NyauxKernel.Memory.Windows
import NyauxKernel.Pci.Scan

namespace NyauxKernel.Pci

open Memory

def barOffset (barNum : UInt16) : Nat := (0x10 + barNum * 4).toNat

def barDword (info : PciInfo) (ecam : Ecam) (location : Location) (barNum : UInt16) : Nat :=
  pciReadDword info ecam location.2.2 location.2.1 location.1 (barOffset barNum)

/-- The base of a memory register; there is none for an I/O register. -/
def barBase (info : PciInfo) (ecam : Ecam) (location : Location) (barNum : UInt16) : Option Nat :=
  let s := barDword info ecam location barNum
  if s &&& 1 ≠ 0 then none
  else if (s >>> 1) &&& 0x2 ≠ 0 then
    let f := barDword info ecam location (barNum + 1)
    some ((s &&& 0xFFFFFFF0) ||| ((f &&& 0xFFFFFFFF) <<< 32))
  else some (s &&& 0xFFFFFFF0)

/-- What is asked of `vmm_alloc_with_phys`, and where the bytes start in its region. -/
structure BarWindow where
  frames : List Nat
  mapLen : Nat
  offsetIntoMapping : Nat
deriving DecidableEq

/-- The branches for 32 and for 64 bits do the same with the base. -/
def barWindow (bar : Nat) (offset : UInt32) (length : Nat) : BarWindow :=
  let base := wrap (bar + offset.toNat)
  let baseAligned := alignDown base pageSize
  let endAligned := alignUp (wrap (base + length)) pageSize
  { frames := pagesBetween baseAligned endAligned
    mapLen := wrap (endAligned + addressSpace - baseAligned)
    offsetIntoMapping := base - baseAligned }

def mappedWindow (info : PciInfo) (ecam : Ecam) (location : Location) (barNum : UInt16)
    (offset : UInt32) (length : Nat) : Option BarWindow :=
  (barBase info ecam location barNum).map fun bar => barWindow bar offset length

def pciMapBar (hhdm : Nat) (info : PciInfo) (ecam : Ecam) (location : Location)
    (barNum : UInt16) (offset : UInt32) (length : Nat) (m : Machine) :
    Except Halt (Option Nat × Machine) :=
  match mappedWindow info ecam location barNum offset length with
  | none => .ok (none, m)
  | some window => do
      let (virt, m) ← mapFrames hhdm window.mapLen deviceFlags window.frames m
      .ok (some (virt + window.offsetIntoMapping), m)

/-! ### The dwords -/

theorem pciReadDword_lt (info : PciInfo) (ecam : Ecam) (bus slot func : UInt8) (offset : Nat) :
    pciReadDword info ecam bus slot func offset < 2 ^ 32 := by
  have byte (offset : Nat) : (pciReadByte info ecam bus slot func offset).toNat < 256 :=
    UInt8.toNat_lt _
  have first := byte offset
  have second := byte (offset + 1)
  have third := byte (offset + 2)
  have fourth := byte (offset + 3)
  unfold pciReadDword
  omega

theorem barOffset_eq (barNum : UInt16) : barOffset barNum = (16 + 4 * barNum.toNat) % 65536 := by
  have four : (4 : UInt16).toNat = 4 := rfl
  have start : (0x10 : UInt16).toNat = 16 := rfl
  rw [barOffset, UInt16.toNat_add, UInt16.toNat_mul, four, start]
  omega

/-- Masking out the type of a register. -/
theorem and_type {s : Nat} (small : s < 2 ^ 32) : s &&& 0xFFFFFFF0 = s / 16 * 16 := by
  have inside : s < addressSpace := by
    unfold addressSpace
    omega
  have mask : 0xFFFFFFF0 = (2 ^ 32 - 1) &&& ((addressSpace - 1) ^^^ (2 ^ 4 - 1)) := by decide
  rw [mask, ← Nat.and_assoc, Nat.and_two_pow_sub_one_eq_mod, Nat.mod_eq_of_lt small]
  exact and_not_low s 4 inside

/-- The two dwords of a register of 64 bits. -/
theorem join_dwords {s f : Nat} (small : s < 2 ^ 32) (small' : f < 2 ^ 32) :
    (s &&& 0xFFFFFFF0) ||| ((f &&& 0xFFFFFFFF) <<< 32) = f * 2 ^ 32 + s / 16 * 16 := by
  have low : f &&& 0xFFFFFFFF = f := by
    have mask : 0xFFFFFFFF = 2 ^ 32 - 1 := by decide
    rw [mask, Nat.and_two_pow_sub_one_eq_mod, Nat.mod_eq_of_lt small']
  have below : s / 16 * 16 < 2 ^ 32 := by omega
  rw [and_type small, low, Nat.or_comm, ← Nat.shiftLeft_add_eq_or_of_lt below, Nat.shiftLeft_eq]

theorem and_two {n : Nat} : n &&& 2 ≠ 0 ↔ n / 2 % 2 = 1 := by
  have half : n &&& 2 = n / 2 % 2 * 2 := by
    apply Nat.eq_of_testBit_eq
    intro bit
    cases bit with
    | zero => simp
    | succ bit =>
        rw [Nat.testBit_and]
        cases bit with
        | zero => simp [Nat.testBit_succ]
        | succ bit => simp [Nat.testBit_succ]
  omega

/-- A memory register of two dwords. -/
def Wide (s : Nat) : Prop := s % 2 = 0 ∧ s / 4 % 2 = 1

section Registers

variable {info : PciInfo} {ecam ecam' : Ecam} {location : Location} {barNum : UInt16}

theorem barDword_lt (info : PciInfo) (ecam : Ecam) (location : Location) (barNum : UInt16) :
    barDword info ecam location barNum < 2 ^ 32 :=
  pciReadDword_lt _ _ _ _ _ _

theorem barBase_eq (info : PciInfo) (ecam : Ecam) (location : Location) (barNum : UInt16) :
    barBase info ecam location barNum =
      if barDword info ecam location barNum % 2 = 1 then none
      else if barDword info ecam location barNum / 4 % 2 = 1 then
        some (barDword info ecam location (barNum + 1) * 2 ^ 32 +
          barDword info ecam location barNum / 16 * 16)
      else some (barDword info ecam location barNum / 16 * 16) := by
  have small := barDword_lt info ecam location barNum
  have small' := barDword_lt info ecam location (barNum + 1)
  have io : barDword info ecam location barNum &&& 1 ≠ 0 ↔
      barDword info ecam location barNum % 2 = 1 := by
    rw [Nat.and_one_is_mod]
    omega
  have wide : (barDword info ecam location barNum >>> 1) &&& 0x2 ≠ 0 ↔
      barDword info ecam location barNum / 4 % 2 = 1 := by
    rw [and_two, Nat.shiftRight_eq_div_pow, Nat.div_div_eq_div_mul]
  rw [barBase]
  simp only [io, wide]
  rw [join_dwords small small', and_type small]

theorem barBase_eq_none :
    barBase info ecam location barNum = none ↔ barDword info ecam location barNum % 2 = 1 := by
  rw [barBase_eq]
  split
  case isTrue io => exact iff_of_true rfl io
  case isFalse memory =>
    split
    all_goals exact iff_of_false (Option.some_ne_none _) memory

theorem barBase_wide (wide : Wide (barDword info ecam location barNum)) :
    barBase info ecam location barNum =
      some (barDword info ecam location (barNum + 1) * 2 ^ 32 +
        barDword info ecam location barNum / 16 * 16) := by
  rw [barBase_eq, if_neg (by rw [wide.1]; decide), if_pos wide.2]

theorem barBase_congr
    (first : barDword info ecam' location barNum = barDword info ecam location barNum)
    (second : Wide (barDword info ecam location barNum) →
      barDword info ecam' location (barNum + 1) = barDword info ecam location (barNum + 1)) :
    barBase info ecam' location barNum = barBase info ecam location barNum := by
  by_cases wide : Wide (barDword info ecam location barNum)
  · rw [barBase_wide wide, barBase_wide (first.symm ▸ wide), first, second wide]
  · rw [barBase_eq, barBase_eq, first]
    split
    case isTrue => rfl
    case isFalse memory =>
      have narrow : ¬barDword info ecam location barNum / 4 % 2 = 1 :=
        fun type => wide ⟨by omega, type⟩
      rw [if_neg narrow, if_neg narrow]

/-! ### Whose registers are read -/

/-- The two memories have the same configuration space of a function. -/
def SameConfig (info : PciInfo) (location : Location) (ecam ecam' : Ecam) : Prop :=
  ∀ offset < 4096, pciReadByte info ecam' location.1 location.2.1 location.2.2 offset =
    pciReadByte info ecam location.1 location.2.1 location.2.2 offset

/-- The dword is in the configuration space of the function. -/
def OwnDword (location : Location) (barNum : UInt16) : Prop :=
  location.1 = location.2.2 ∧ barOffset barNum < 4096

theorem barDword_own (own : OwnDword location barNum)
    (same : SameConfig info location ecam ecam') :
    barDword info ecam' location barNum = barDword info ecam location barNum := by
  rcases location with ⟨bus, slot, func⟩
  rcases own with ⟨swapped, small⟩
  have number : bus = func := swapped
  have offset := barOffset_eq barNum
  subst number
  have byte (i : Nat) (inDword : i < 4) :
      pciReadByte info ecam' bus slot bus (barOffset barNum + i) =
        pciReadByte info ecam bus slot bus (barOffset barNum + i) :=
    same _ (by omega)
  rw [barDword, barDword, pciReadDword, pciReadDword]
  rw [byte 1 (by decide), byte 2 (by decide), byte 3 (by decide)]
  rw [show pciReadByte info ecam' bus slot bus (barOffset barNum) = _ from byte 0 (by decide)]
  rfl

theorem mod_ne_mod {x y : Nat} (different : x ≠ y) (near : x < y + 2 ^ 64)
    (near' : y < x + 2 ^ 64) : x % 2 ^ 64 ≠ y % 2 ^ 64 := by
  omega

/-- Any other dword that is read is outside of it. -/
theorem foreign_address (foreign : ¬OwnDword location barNum) (offset : Nat)
    (below : offset < 4096) :
    configAddress info location.1 location.2.1 location.2.2 offset ≠
      configAddress info location.2.2 location.2.1 location.1 (barOffset barNum) := by
  rcases location with ⟨bus, slot, func⟩
  have offset_lt : barOffset barNum < 65536 := UInt16.toNat_lt _
  have busSmall := bus.toNat_lt
  have funcSmall := func.toNat_lt
  have rootSmall := info.rootBus.toNat_lt
  have apart : bus.toNat ≠ func.toNat ∨ 4096 ≤ barOffset barNum := by
    by_contra neither
    rw [not_or] at neither
    exact foreign ⟨UInt8.toNat_inj.mp (not_not.mp neither.1), Nat.lt_of_not_le neither.2⟩
  dsimp only
  unfold configAddress addressSpace
  simp only [Nat.shiftLeft_eq]
  apply mod_ne_mod
  all_goals omega

/-- The memory with another first byte of the dword. -/
def changeDword (info : PciInfo) (ecam : Ecam) (location : Location) (barNum : UInt16) : Ecam :=
  let address := configAddress info location.2.2 location.2.1 location.1 (barOffset barNum)
  Function.update ecam address (ecam address + 1)

theorem changeDword_sameConfig (foreign : ¬OwnDword location barNum) :
    SameConfig info location ecam (changeDword info ecam location barNum) := by
  intro offset below
  rw [pciReadByte, changeDword, Function.update_of_ne (foreign_address foreign offset below)]
  rfl

theorem changeDword_first (info : PciInfo) (ecam : Ecam) (location : Location)
    (barNum : UInt16) :
    (pciReadByte info (changeDword info ecam location barNum) location.2.2 location.2.1
      location.1 (barOffset barNum)).toNat =
      ((pciReadByte info ecam location.2.2 location.2.1 location.1 (barOffset barNum)).toNat + 1) %
        256 := by
  rw [pciReadByte, changeDword, Function.update_self, UInt8.toNat_add]
  rfl

theorem changeDword_mod (info : PciInfo) (ecam : Ecam) (location : Location) (barNum : UInt16) :
    barDword info (changeDword info ecam location barNum) location barNum % 256 =
      (barDword info ecam location barNum + 1) % 256 := by
  have changed := changeDword_first info ecam location barNum
  rw [barDword, barDword, pciReadDword, pciReadDword]
  omega

/-! ### Windows -/

/-- The frame of the first byte, unless it is the last of the address space. -/
theorem byteWindow_head {bar : Nat} (inside : bar < addressSpace) :
    (barWindow bar 0 1).frames.head? =
      if bar + 4096 < addressSpace then some (bar / 4096 * 4096) else none := by
  have base : wrap (bar + (0 : UInt32).toNat) = bar := Nat.mod_eq_of_lt inside
  have frames : (barWindow bar 0 1).frames =
      pagesBetween (bar / 4096 * 4096) (alignUp (wrap (bar + 1)) pageSize) := by
    rw [barWindow, base, show alignDown bar pageSize = _ from alignDown_page inside]
  rw [frames, pagesBetween_head, alignUp_pageSize]
  unfold wrap addressSpace at *
  congr 1
  apply propext
  omega

/-- Different pages, different windows. -/
theorem byteWindow_page {bar bar' : Nat} (inside : bar < addressSpace)
    (inside' : bar' < addressSpace) (same : barWindow bar 0 1 = barWindow bar' 0 1) :
    bar / 4096 = bar' / 4096 := by
  have heads := byteWindow_head inside
  rw [same, byteWindow_head inside'] at heads
  unfold addressSpace at *
  by_cases room : bar + 4096 < 2 ^ 64
  · by_cases room' : bar' + 4096 < 2 ^ 64
    · rw [if_pos room, if_pos room'] at heads
      have frame := Option.some.inj heads
      omega
    · rw [if_pos room, if_neg room'] at heads
      contradiction
  · by_cases room' : bar' + 4096 < 2 ^ 64
    · rw [if_neg room, if_pos room'] at heads
      contradiction
    · omega

end Registers

/-- The window that `pci_map_bar` asks for, or that it asks for none, is a function of the
configuration space of the function alone exactly if bus and function have the same number
and the dwords that are read are in the configuration space. -/
theorem pci_map_bar_own_iff (info : PciInfo) (ecam : Ecam) (location : Location)
    (barNum : UInt16) :
    (∀ ecam', SameConfig info location ecam ecam' → ∀ offset length,
      mappedWindow info ecam' location barNum offset length =
        mappedWindow info ecam location barNum offset length) ↔
      location.1 = location.2.2 ∧ barOffset barNum < 4096 ∧
        (Wide (barDword info ecam location barNum) → barOffset (barNum + 1) < 4096) := by
  constructor
  · intro owned
    -- a change of the first byte makes a memory register an I/O register or the other way
    have first : OwnDword location barNum := by
      by_contra foreign
      have same := owned _ (changeDword_sameConfig foreign) 0 1
      have parity := changeDword_mod info ecam location barNum
      rw [mappedWindow, mappedWindow] at same
      have none : barBase info (changeDword info ecam location barNum) location barNum = none ↔
          barBase info ecam location barNum = none := by
        rw [← Option.map_eq_none_iff, same, Option.map_eq_none_iff]
      rw [barBase_eq_none, barBase_eq_none] at none
      omega
    refine ⟨first.1, first.2, ?_⟩
    intro wide
    by_contra far
    -- a change of the second dword moves the base by a multiple of four gigabytes
    have foreign : ¬OwnDword location (barNum + 1) := fun own => far own.2
    have agree : SameConfig info location ecam (changeDword info ecam location (barNum + 1)) :=
      changeDword_sameConfig foreign
    have same := owned _ agree 0 1
    have low := barDword_own first agree
    rw [mappedWindow, mappedWindow, barBase_wide wide, barBase_wide (low.symm ▸ wide), low,
      Option.map_some, Option.map_some] at same
    have dword := barDword_lt info ecam location barNum
    have high := barDword_lt info ecam location (barNum + 1)
    have high' := barDword_lt info (changeDword info ecam location (barNum + 1)) location
      (barNum + 1)
    have changed := changeDword_mod info ecam location (barNum + 1)
    have page := byteWindow_page (by unfold addressSpace; omega) (by unfold addressSpace; omega)
      (Option.some.inj same)
    omega
  · intro condition
    rcases condition with ⟨number, small, second⟩
    intro ecam' agree offset length
    have first := barDword_own ⟨number, small⟩ agree
    rw [mappedWindow, mappedWindow,
      barBase_congr first fun wide => barDword_own ⟨number, second wide⟩ agree]

theorem pci_map_bar_own_bridge :
    pciScan bridgeInfo (bridgeEcam 1) 2 0 [] = some [(0, 0, 0)] ∧
      ∀ ecam', SameConfig bridgeInfo (0, 0, 0) (bridgeEcam 1) ecam' → ∀ offset length,
        mappedWindow bridgeInfo ecam' (0, 0, 0) 0 offset length =
          mappedWindow bridgeInfo (bridgeEcam 1) (0, 0, 0) 0 offset length :=
  ⟨by decide +kernel, (pci_map_bar_own_iff bridgeInfo (bridgeEcam 1) (0, 0, 0) 0).mpr
    ⟨rfl, by decide, fun _ => by decide⟩⟩

/-- Two functions in slot 0 of bus 0, and a byte of the configuration space of function 0 in
slot 0 of bus 1. -/
def pairEcam (byte : UInt8) : Ecam := fun add =>
  if 2 ^ 32 ≤ add ∧ add < 2 ^ 32 + 0x2000 then if add = 2 ^ 32 + 0xE then 0x80 else 0
  else if add = 2 ^ 32 + 0x100010 then byte
  else 0xFF

/-- Function 1 of slot 0 on bus 0 is read as function 0 of slot 0 on bus 1. -/
theorem swapped_location_read :
    pciScan bridgeInfo (pairEcam 0xFF) 1 0 [] = some [(0, 0, 0), (0, 0, 1)] ∧
      pciScan bridgeInfo (pairEcam 0) 1 0 [] = some [(0, 0, 0), (0, 0, 1)] ∧
      SameConfig bridgeInfo (0, 0, 1) (pairEcam 0xFF) (pairEcam 0) ∧
      (∀ add, pairEcam 0 add ≠ pairEcam 0xFF add →
        add = configAddress bridgeInfo 1 0 0 0x10) ∧
      mappedWindow bridgeInfo (pairEcam 0xFF) (0, 0, 1) 0 0 16 = none ∧
      mappedWindow bridgeInfo (pairEcam 0) (0, 0, 1) 0 0 16 =
        some { frames := [0xFFFFF000], mapLen := 4096, offsetIntoMapping := 0xF00 } := by
  refine ⟨by decide +kernel, by decide +kernel, ?_, ?_, by decide +kernel, by decide +kernel⟩
  · intro offset below
    have function : (1 : UInt8).toNat = 1 := rfl
    have zero : (0 : UInt8).toNat = 0 := rfl
    have inside : 2 ^ 32 ≤ configAddress bridgeInfo 0 0 1 offset ∧
        configAddress bridgeInfo 0 0 1 offset < 2 ^ 32 + 0x2000 := by
      rw [bridgeInfo_address 0 0 1 (by omega), function, zero]
      omega
    rw [pciReadByte, pciReadByte, pairEcam, pairEcam, if_pos inside, if_pos inside]
  · intro add different
    by_contra other
    apply different
    have elsewhere : add ≠ 2 ^ 32 + 0x100010 := other
    rw [pairEcam, pairEcam, if_neg elsewhere, if_neg elsewhere]

end NyauxKernel.Pci
