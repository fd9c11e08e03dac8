/-
The windows that `pci_map_bar` returns: every byte of the window is the byte of the register's
memory, for all of physical memory that page tables can reach.
-/

import NyauxKernel.Pci.Bars

namespace NyauxKernel.Pci

open Memory ExceptFold

/-- The base that the dwords of a memory register give: the type is that of 32 or that of 64
bits. -/
inductive Describes (s f : Nat) : Nat → Prop
  | bits32 (memory : s % 2 = 0) (type : s / 2 % 4 = 0) : Describes s f (s / 16 * 16)
  | bits64 (memory : s % 2 = 0) (type : s / 2 % 4 = 2) :
      Describes s f (f * 2 ^ 32 + s / 16 * 16)

/-- The pointer is to the bytes from `phys` on.  They are in a region that is new in the list
and has a page for each of the frames. -/
def NewWindow (hhdm : Nat) (pagemap : Pagemap) (m m' : Machine) (frames : List Nat)
    (ptr phys length : Nat) : Prop :=
  ∃ front back region, Listed m pagemap.khead (front ++ back) ∧
    Listed m' pagemap.khead (front ++ region :: back) ∧
    frames.length = region.length / pageSize ∧
    ∀ k < length, region.base ≤ ptr + k ∧ ptr + k < region.base + region.length ∧
      translateByte hhdm pagemap.archPage m'.memory (ptr + k) = some (phys + k)

section Mapping

variable {info : PciInfo} {ecam : Ecam} {location : Location} {barNum : UInt16} {bar : Nat}

theorem Describes.barBase_eq_some
    (describes : Describes (barDword info ecam location barNum)
      (barDword info ecam location (barNum + 1)) bar) :
    barBase info ecam location barNum = some bar := by
  cases describes with
  | bits32 memory type => rw [barBase_eq, if_neg (by omega), if_neg (by omega)]
  | bits64 memory type => rw [barBase_eq, if_neg (by omega), if_pos (by omega)]

theorem pciMapBar_eq {hhdm length : Nat} {offset : UInt32} {m : Machine}
    (based : barBase info ecam location barNum = some bar) :
    pciMapBar hhdm info ecam location barNum offset length m = (do
      let (virt, m) ← mapFrames hhdm (barWindow bar offset length).mapLen deviceFlags
        (barWindow bar offset length).frames m
      .ok (some (virt + (barWindow bar offset length).offsetIntoMapping), m)) := by
  rw [pciMapBar, mappedWindow, based]
  simp only [Option.map_some]

/-- The window when nothing wraps. -/
theorem barWindow_eq {bar length : Nat} {offset : UInt32}
    (inside : bar + offset.toNat + length + 4095 < addressSpace) :
    barWindow bar offset length =
      { frames := pagesBetween ((bar + offset.toNat) / 4096 * 4096)
          ((bar + offset.toNat + length + 4095) / 4096 * 4096)
        mapLen := (bar + offset.toNat + length + 4095) / 4096 * 4096 -
          (bar + offset.toNat) / 4096 * 4096
        offsetIntoMapping := (bar + offset.toNat) % 4096 } := by
  have base : wrap (bar + offset.toNat) = bar + offset.toNat := Nat.mod_eq_of_lt (by omega)
  have last : wrap (bar + offset.toNat + length) = bar + offset.toNat + length :=
    Nat.mod_eq_of_lt (by omega)
  have start : alignDown (bar + offset.toNat) pageSize = (bar + offset.toNat) / 4096 * 4096 :=
    alignDown_page (by omega)
  have stop : alignUp (bar + offset.toNat + length) pageSize =
      (bar + offset.toNat + length + 4095) / 4096 * 4096 := by
    rw [alignUp_pageSize, Nat.mod_eq_of_lt inside]
  have mapLen : wrap ((bar + offset.toNat + length + 4095) / 4096 * 4096 + addressSpace -
      (bar + offset.toNat) / 4096 * 4096) =
      (bar + offset.toNat + length + 4095) / 4096 * 4096 - (bar + offset.toNat) / 4096 * 4096 := by
    unfold wrap addressSpace at *
    omega
  have rest : bar + offset.toNat - (bar + offset.toNat) / 4096 * 4096 =
      (bar + offset.toNat) % 4096 := by
    omega
  rw [barWindow, base, last, start, stop, mapLen, rest]

end Mapping

/-- In every reachable state, for every memory register, offset and length such that the range
consists of physical addresses: there are as many frames as pages, with room for at most 128 of
them the call returns, and the pointer that it returns is to the range. -/
theorem pci_map_bar_window (boot : Boot) (good : GoodBoot boot) (m : Machine) (uses : Uses)
    (pagemap : Pagemap) (info : PciInfo) (ecam : Ecam) (location : Location) (barNum : UInt16)
    (bar : Nat) (offset : UInt32) (length : Nat)
    (run : VmmRun boot (soundTerms boot) m uses) (supplied : Supplied m)
    (kermap : m.kermap = some pagemap)
    (describes : Describes (barDword info ecam location barNum)
      (barDword info ecam location (barNum + 1)) bar)
    (positive : 0 < length) (bounded : bar + offset.toNat + length ≤ 2 ^ 52) :
    (barWindow bar offset length).frames.length =
        alignUp (barWindow bar offset length).mapLen pageSize / pageSize ∧
      ((barWindow bar offset length).frames.length ≤ 128 →
        Room boot.hhdm pagemap m (barWindow bar offset length).mapLen →
        ∃ ptr m', pciMapBar boot.hhdm info ecam location barNum offset length m =
          .ok (some ptr, m') ∧ Supplied m') ∧
      ∀ ptr m', pciMapBar boot.hhdm info ecam location barNum offset length m =
          .ok (some ptr, m') → Supplied m' →
        NewWindow boot.hhdm pagemap m m' (barWindow bar offset length).frames ptr
          (bar + offset.toNat) length := by
  have inv := run.sound good supplied
  rw [pciMapBar_eq describes.barBase_eq_some]
  rw [barWindow_eq (by unfold addressSpace; omega)]
  generalize bar + offset.toNat = base at bounded ⊢
  dsimp only
  have sized : Sized ((base + length + 4095) / 4096 * 4096 - base / 4096 * 4096) := by
    unfold Sized addressSpace
    omega
  have frames : (pagesBetween (base / 4096 * 4096) ((base + length + 4095) / 4096 * 4096)).length =
      alignUp ((base + length + 4095) / 4096 * 4096 - base / 4096 * 4096) pageSize / pageSize := by
    rw [sized.rounded, pagesBetween, List.length_map, List.length_range]
    unfold pageSize
    omega
  refine ⟨frames, ?_, ?_⟩
  · intro few room
    rcases inv.mapFrames_runs supplied kermap sized (show deviceFlags.user = false from rfl)
      room _ few frames with ⟨virt, m', done, suppliedAfter⟩
    rw [done]
    exact ⟨_, m', rfl, suppliedAfter⟩
  · intro ptr m' returned suppliedAfter
    rcases ok_of_bind returned with ⟨⟨virt, m''⟩, done, last⟩
    rcases Prod.mk.inj (Except.ok.inj last) with ⟨pointer, rfl⟩
    have isPtr : virt + base % 4096 = ptr := Option.some.inj pointer
    rcases inv.phys_window kermap sized.1
      (show base / 4096 * 4096 % pageSize = 0 from Nat.mul_mod_left _ _) (by omega)
      (by unfold addressSpace; omega) done suppliedAfter with ⟨front, back, region, before, after, atBase, long, translated⟩
    refine ⟨front, back, region, before, after, ?_, ?_⟩
    · rw [frames, sized.rounded, long]
    · intro k below
      have byte := translated (base % 4096 + k) (by omega)
      have place : virt + (base % 4096 + k) = ptr + k := by omega
      have phys : base / 4096 * 4096 + (base % 4096 + k) = base + k := by omega
      rw [place, phys] at byte
      refine ⟨by omega, by omega, byte⟩

/-! ### A register of 64 bits -/

/-- Register 0 of function 0 in slot 0 of bus 0 has the base `high * 2 ^ 48`. -/
def barEcam (high : UInt8) : Ecam := fun add =>
  if add = 2 ^ 32 + 0x10 then 4 else if add = 2 ^ 32 + 0x16 then high else 0

theorem barEcam_describes (high : UInt8) :
    Describes (barDword bridgeInfo (barEcam high) (0, 0, 0) 0)
      (barDword bridgeInfo (barEcam high) (0, 0, 0) (0 + 1)) (high.toNat * 2 ^ 48) := by
  have first : barDword bridgeInfo (barEcam high) (0, 0, 0) 0 = 4 := by
    simp [barDword, barOffset, pciReadDword, pciReadByte, bridgeInfo_address, barEcam]
  have second : barDword bridgeInfo (barEcam high) (0, 0, 0) (0 + 1) = high.toNat * 2 ^ 16 := by
    simp [barDword, barOffset, pciReadDword, pciReadByte, bridgeInfo_address, barEcam,
      Nat.mul_comm]
  have base : high.toNat * 2 ^ 48 = high.toNat * 2 ^ 16 * 2 ^ 32 + 4 / 16 * 16 := by omega
  rw [first, second, base]
  exact Describes.bits64 rfl rfl

theorem pci_map_bar_window_page :
    ∃ m m' pagemap ptr, VmmRun smallBoot (soundTerms smallBoot) m {} ∧ Supplied m ∧
      m.kermap = some pagemap ∧ Supplied m' ∧
      pciMapBar smallBoot.hhdm bridgeInfo (barEcam 1) (0, 0, 0) 0 0x10 0x1000 m =
        .ok (some ptr, m') ∧
      NewWindow smallBoot.hhdm pagemap m m' (barWindow (2 ^ 48) 0x10 0x1000).frames ptr
        (2 ^ 48 + 0x10) 0x1000 := by
  have window : (barWindow (2 ^ 48) 0x10 0x1000).mapLen = 0x2000 := by decide
  rcases smallBoot_room 0x2000 (by decide) (by decide) with
    ⟨m, pagemap, booted, supplied, kermap, room⟩
  have run : VmmRun smallBoot (soundTerms smallBoot) m {} := VmmRun.boot booted
  rcases pci_map_bar_window smallBoot smallBoot_good m {} pagemap bridgeInfo (barEcam 1)
    (0, 0, 0) 0 (2 ^ 48) 0x10 0x1000 run supplied kermap (barEcam_describes 1) (by decide)
    (by decide) with ⟨_, returns, windows⟩
  rcases returns (by decide) (window.symm ▸ room) with ⟨ptr, m', returned, suppliedAfter⟩
  exact ⟨m, m', pagemap, ptr, run, supplied, kermap, suppliedAfter, returned,
    windows ptr m' returned suppliedAfter⟩

/-- A register whose base is the first address of 53 bits: nothing overflows, but no page table
holds the frame.  In the last page of the address space the rounding of the end overflows, and
there is no frame for the page of the region. -/
theorem far_register_not_reached :
    ∃ m m' pagemap ptr, VmmRun smallBoot (soundTerms smallBoot) m {} ∧ Supplied m' ∧
      m.kermap = some pagemap ∧
      Describes (barDword bridgeInfo (barEcam 0x10) (0, 0, 0) 0)
        (barDword bridgeInfo (barEcam 0x10) (0, 0, 0) (0 + 1)) (2 ^ 52) ∧
      pciMapBar smallBoot.hhdm bridgeInfo (barEcam 0x10) (0, 0, 0) 0 0 1 m =
        .ok (some ptr, m') ∧
      translateByte smallBoot.hhdm pagemap.archPage m'.memory ptr ≠ some (2 ^ 52) ∧
      barWindow (2 ^ 64 - 0x1000) 0 1 =
        { frames := [], mapLen := 0x1000, offsetIntoMapping := 0 } := by
  have window : barWindow (2 ^ 52) 0 1 =
      { frames := [2 ^ 52], mapLen := 0x1000, offsetIntoMapping := 0 } := by decide
  rcases smallBoot_room 0x1000 (by decide) (by decide) with
    ⟨m, pagemap, booted, supplied, kermap, room⟩
  have sized : Sized 0x1000 := ⟨by decide, by decide⟩
  rcases (booted.vmmInv smallBoot_good supplied).mapFrames_runs supplied kermap sized
    (show deviceFlags.user = false from rfl) room [2 ^ 52] (by decide) (by decide) with
    ⟨virt, m', done, suppliedAfter⟩
  have based := (barEcam_describes 0x10).barBase_eq_some
  refine ⟨m, m', pagemap, virt + 0, VmmRun.boot booted, suppliedAfter, kermap,
    barEcam_describes 0x10, ?_, ?_, by decide⟩
  · have same : barWindow ((0x10 : UInt8).toNat * 2 ^ 48) 0 1 = _ := window
    rw [pciMapBar_eq based, same, done]
    rfl
  · intro translated
    exact absurd (translateByte_lt translated) (Nat.lt_irrefl _)

end NyauxKernel.Pci
