/-
The capability list that `init_virtiogpu` reads, if there is a virtio GPU and its status says
that it has one.

The list is in the configuration space of the device: the byte at 0x34 is the offset of the
first capability, and the second byte of a capability the offset of the next one.  The loop
takes what the device says, and its number of rounds is bounded by `fuel`; without a result
it has not ended after that many.
-/

import NyauxKernel.Library.LinkWalk
import NyauxKernel.Pci.Config
import Mathlib.Data.FinEnum

namespace NyauxKernel.Virtio

open NyauxKernel.Pci LinkWalk

/-! ### The loop -/

def virtioPciCapCommonCfg : UInt8 := 1

def virtioPciCapNotifyCfg : UInt8 := 2

def virtioPciCapDeviceCfg : UInt8 := 4

def virtioPciCapVendorCfg : UInt8 := 9

structure VirtioPciCap where
  cfgType : UInt8
  bar : UInt8
  id : UInt8
  offset : Nat
  length : Nat
  notifyOffMulti : Option Nat
deriving DecidableEq, Repr

section Device

variable (info : PciInfo) (ecam : Ecam) (location : Location)

/-- What the body of the loop pushes for the capability at an offset. -/
def requiredCap (cap : UInt8) : Option VirtioPciCap :=
  let readByte := pciReadByte info ecam location.1 location.2.1 location.2.2
  let readDword := pciReadDword info ecam location.1 location.2.1 location.2.2
  let id := readByte cap.toNat
  if id = virtioPciCapVendorCfg then
    let cfgType := readByte (cap.toNat + 3)
    if cfgType = virtioPciCapCommonCfg ∨ cfgType = virtioPciCapDeviceCfg ∨
        cfgType = virtioPciCapNotifyCfg then
      some
        { cfgType := cfgType
          bar := readByte (cap.toNat + 4)
          id := readByte (cap.toNat + 5)
          offset := readDword (cap.toNat + 8)
          length := readDword (cap.toNat + 12)
          notifyOffMulti :=
            if cfgType = virtioPciCapNotifyCfg then some (readDword (cap.toNat + 16)) else none }
    else none
  else none

def pushCap (caps : List VirtioPciCap) (cap : UInt8) : List VirtioPciCap :=
  caps ++ (requiredCap info ecam location cap).toList

/-- The loop of `init_virtiogpu` over the capabilities of the device. -/
def capLoop : Nat → UInt8 → List VirtioPciCap → Option (List VirtioPciCap)
  | 0, _, _ => none
  | fuel + 1, cap, caps =>
      let next := pciReadByte info ecam location.1 location.2.1 location.2.2 (cap.toNat + 1)
      let caps := pushCap info ecam location caps cap
      if next = 0 then some caps else capLoop fuel next caps

def firstCap : UInt8 := pciReadByte info ecam location.1 location.2.1 location.2.2 0x34

def virtioGpuDeviceId : Nat := 0x1050

def pciBusMaster : Nat := 1 <<< 2

def pciMemSpace : Nat := 1 <<< 1

def isVirtioGpu (x : Location) : Bool :=
  let ve := pciReadWord info ecam x.1 x.2.1 x.2.2 0x0
  let de := pciReadWord info ecam x.1 x.2.1 x.2.2 0x2
  de = virtioGpuDeviceId && ve = 0x1AF4

/-- The configuration space after the command register was written. -/
def enableGpu : Ecam :=
  let cmd := pciReadWord info ecam location.1 location.2.1 location.2.2 0x4
  pciWriteWord info ecam location.1 location.2.1 location.2.2 0x4
    (cmd ||| pciBusMaster ||| pciMemSpace)

def gpuStatus : Nat := pciReadWord info ecam location.1 location.2.1 location.2.2 0x6

/-- How `init_virtiogpu` gets past the loop, or returns before it. -/
inductive CapScan where
  | noDevice
  | noCap
  | caps (caps : List VirtioPciCap)
deriving DecidableEq, Repr

/-- `init_virtiogpu` up to the end of the loop. -/
def readCaps (deviceList : List Location) (fuel : Nat) : Option CapScan :=
  match deviceList.find? (isVirtioGpu info ecam) with
  | none => some .noDevice
  | some location =>
      let ecam := enableGpu info ecam location
      if gpuStatus info ecam location &&& (1 <<< 4) = 0 then some .noCap
      else (capLoop info ecam location fuel (firstCap info ecam location) []).map .caps

/-! ### The loop as a walk along the links -/

/-- The link from one capability to the next. -/
def nextCap (cap : UInt8) : Option UInt8 :=
  let next := pciReadByte info ecam location.1 location.2.1 location.2.2 (cap.toNat + 1)
  if next = 0 then none else some next

theorem capLoop_eq_walk (fuel : Nat) (cap : UInt8) (caps : List VirtioPciCap) :
    capLoop info ecam location fuel cap caps =
      walk (nextCap info ecam location) (pushCap info ecam location) fuel (some cap) caps := by
  induction fuel generalizing cap caps with
  | zero => rfl
  | succ fuel inductionHypothesis =>
      rw [capLoop, walk, nextCap]
      by_cases last : pciReadByte info ecam location.1 location.2.1 location.2.2
          (cap.toNat + 1) = 0
      · rw [if_pos last, if_pos last, walk]
      · rw [if_neg last, if_neg last, inductionHypothesis]

theorem foldl_pushCap (offsets : List UInt8) (caps : List VirtioPciCap) :
    offsets.foldl (pushCap info ecam location) caps =
      caps ++ offsets.filterMap (requiredCap info ecam location) := by
  induction offsets generalizing caps with
  | nil => simp
  | cons cap offsets inductionHypothesis =>
      rw [List.foldl_cons, inductionHypothesis, pushCap, List.filterMap_cons]
      cases requiredCap info ecam location cap with
      | none => simp
      | some required => simp

/-- An offset that the loop gets to from `cap`, `cap` itself included. -/
def CapMet (cap offset : UInt8) : Prop := Met (nextCap info ecam location) (some cap) offset

/-- Behind the capability at `offset` its link leads back to it. -/
def CapRepeats (offset : UInt8) : Prop :=
  Met (nextCap info ecam location) (nextCap info ecam location offset) offset

/-- The loop is entered for the device at `location`. -/
structure ReadsCaps (deviceList : List Location) : Prop where
  gpu : deviceList.find? (isVirtioGpu info ecam) = some location
  status : gpuStatus info (enableGpu info ecam location) location &&& (1 <<< 4) ≠ 0

variable {info ecam location}

theorem ReadsCaps.readCaps_eq {deviceList : List Location}
    (reads : ReadsCaps info ecam location deviceList) (fuel : Nat) :
    readCaps info ecam deviceList fuel =
      (walk (nextCap info (enableGpu info ecam location) location)
        (pushCap info (enableGpu info ecam location) location) fuel
        (some (firstCap info (enableGpu info ecam location) location)) []).map .caps := by
  rw [readCaps, reads.gpu]
  dsimp only
  rw [if_neg reads.status, capLoop_eq_walk]

theorem readCaps_returns {deviceList : List Location}
    (unread : ∀ location, ¬ReadsCaps info ecam location deviceList) :
    ∃ scan, readCaps info ecam deviceList 0 = some scan ∧ ∀ caps, scan ≠ .caps caps := by
  unfold readCaps
  split
  case h_1 => exact ⟨.noDevice, rfl, by simp⟩
  case h_2 location gpu =>
    dsimp only
    by_cases clear : gpuStatus info (enableGpu info ecam location) location &&& (1 <<< 4) = 0
    · exact ⟨.noCap, if_pos clear, by simp⟩
    · exact absurd ⟨gpu, clear⟩ (unread location)

variable (info ecam)

/-- What was pushed: what is at each of the offsets that the loop gets to, once. -/
def CapsOnce (deviceList : List Location) : CapScan → Prop
  | .caps caps => ∃ location, ReadsCaps info ecam location deviceList ∧
      ∃ offsets : List UInt8,
        (∀ offset, offset ∈ offsets ↔ CapMet info (enableGpu info ecam location) location
          (firstCap info (enableGpu info ecam location) location) offset) ∧
        offsets.Nodup ∧
        caps = offsets.filterMap (requiredCap info (enableGpu info ecam location) location)
  | _ => True

/-- The loop ends, and each offset it has been to contributes what is there once, if and only
if the list that the device shows leads back to none of the offsets.  Without a virtio GPU, or
if its status shows no list, the loop is not entered. -/
theorem cap_walk_ends_iff (deviceList : List Location) :
    (∃ fuel scan, readCaps info ecam deviceList fuel = some scan ∧
        CapsOnce info ecam deviceList scan) ↔
      ∀ location, ReadsCaps info ecam location deviceList → ∀ offset,
        CapMet info (enableGpu info ecam location) location
          (firstCap info (enableGpu info ecam location) location) offset →
        ¬CapRepeats info (enableGpu info ecam location) location offset := by
  by_cases entered : ∃ location, ReadsCaps info ecam location deviceList
  · rcases entered with ⟨location, reads⟩
    have only : ∀ other, ReadsCaps info ecam other deviceList → other = location :=
      fun other reads' => Option.some.inj (reads'.gpu.symm.trans reads.gpu)
    have ends : (∃ offsets,
        Visits (nextCap info (enableGpu info ecam location) location) _ offsets) ↔ _ :=
      ends_iff_not_met_again (firstCap info (enableGpu info ecam location) location)
    constructor
    · rintro ⟨fuel, scan, result, _⟩ other reads'
      obtain rfl := only other reads'
      rw [reads.readCaps_eq] at result
      rcases Option.map_eq_some_iff.mp result with ⟨caps, walked, _⟩
      rcases visits_of_walk walked with ⟨places, visits, _⟩
      exact ends.mp ⟨places, visits⟩
    · intro once
      rcases ends.mpr (once location reads) with ⟨offsets, visits⟩
      refine ⟨offsets.length, .caps _, ?_, location, reads, offsets,
        fun offset => (visits.met_iff offset).symm, visits.nodup, rfl⟩
      rw [reads.readCaps_eq, walk_of_visits visits, foldl_pushCap, List.nil_append]
      rfl
  · have unread := not_exists.mp entered
    rcases readCaps_returns unread with ⟨scan, result, none⟩
    refine iff_of_true ⟨0, scan, result, ?_⟩ fun location reads => absurd reads (unread location)
    cases scan with
    | noDevice => trivial
    | noCap => trivial
    | caps caps => exact absurd rfl (none caps)

end Device

/-! ### Lists with one capability -/

/-- A virtio GPU whose only capability is at 0x40, with the link `next`. -/
def capEcam (next : UInt8) : Ecam
  | 0x00 => 0xF4
  | 0x01 => 0x1A
  | 0x02 => 0x50
  | 0x03 => 0x10
  | 0x06 => 0x10
  | 0x34 => 0x40
  | 0x41 => next
  | _ => 0

/-- A list of one capability ends. -/
theorem cap_walk_ends_single :
    ReadsCaps ⟨0, 0⟩ (capEcam 0) (0, 0, 0) [(0, 0, 0)] ∧
      ∃ fuel scan, readCaps ⟨0, 0⟩ (capEcam 0) [(0, 0, 0)] fuel = some scan ∧
        CapsOnce ⟨0, 0⟩ (capEcam 0) [(0, 0, 0)] scan := by
  have reads : ReadsCaps ⟨0, 0⟩ (capEcam 0) (0, 0, 0) [(0, 0, 0)] :=
    ⟨by decide +kernel, by decide +kernel⟩
  have first : firstCap ⟨0, 0⟩ (enableGpu ⟨0, 0⟩ (capEcam 0) (0, 0, 0)) (0, 0, 0) = 0x40 := by
    decide +kernel
  have last : nextCap ⟨0, 0⟩ (enableGpu ⟨0, 0⟩ (capEcam 0) (0, 0, 0)) (0, 0, 0) 0x40 = none := by
    decide +kernel
  refine ⟨reads, (cap_walk_ends_iff ⟨0, 0⟩ (capEcam 0) [(0, 0, 0)]).mpr ?_⟩
  intro location reads' offset met again
  obtain rfl : (0, 0, 0) = location := Option.some.inj (reads.gpu.symm.trans reads'.gpu)
  rw [first] at met
  cases met with
  | here =>
      rw [CapRepeats, last] at again
      cases again
  | later behind =>
      rw [last] at behind
      cases behind

/-- A capability that links to itself: no number of rounds is enough. -/
theorem self_link_endless :
    ReadsCaps ⟨0, 0⟩ (capEcam 0x40) (0, 0, 0) [(0, 0, 0)] ∧
      ∀ fuel, readCaps ⟨0, 0⟩ (capEcam 0x40) [(0, 0, 0)] fuel = none := by
  have reads : ReadsCaps ⟨0, 0⟩ (capEcam 0x40) (0, 0, 0) [(0, 0, 0)] :=
    ⟨by decide +kernel, by decide +kernel⟩
  have first : firstCap ⟨0, 0⟩ (enableGpu ⟨0, 0⟩ (capEcam 0x40) (0, 0, 0)) (0, 0, 0) = 0x40 := by
    decide +kernel
  have link : nextCap ⟨0, 0⟩ (enableGpu ⟨0, 0⟩ (capEcam 0x40) (0, 0, 0)) (0, 0, 0) 0x40 =
      some 0x40 := by
    decide +kernel
  refine ⟨reads, fun fuel => ?_⟩
  rw [reads.readCaps_eq, first, walk_self_link link fuel []]
  rfl

end NyauxKernel.Virtio
