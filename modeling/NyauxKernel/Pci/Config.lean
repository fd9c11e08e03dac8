/-
The PCI configuration space and its scan, of `pci/mod.rs`.

The configuration space is the memory behind `ecam_base_addr`, as bytes at addresses.  A
read of a device that is not there gives ones, and longer reads are little endian.  The scan
keeps no record of the buses it has been on, so the depth of its recursion is bounded by
`fuel`; without a result the scan has not ended at that depth.
-/

import NyauxKernel.Word
import Mathlib.Data.UInt

namespace NyauxKernel.Pci

structure PciInfo where
  rootBus : UInt8
  ecamBaseAddr : Nat

/-- The bytes of memory, among them those of the configuration space. -/
abbrev Ecam := Nat → UInt8

/-- A bus, a slot and a function. -/
abbrev Location := UInt8 × UInt8 × UInt8

def configAddress (info : PciInfo) (bus slot func : UInt8) (offset : Nat) : Nat :=
  (info.ecamBaseAddr +
    (((bus.toNat + addressSpace - info.rootBus.toNat) <<< 20) + (slot.toNat <<< 15) +
      (func.toNat <<< 12) + offset)) % addressSpace

def pciReadByte (info : PciInfo) (ecam : Ecam) (bus slot func : UInt8) (offset : Nat) : UInt8 :=
  ecam (configAddress info bus slot func offset)

def pciReadWord (info : PciInfo) (ecam : Ecam) (bus slot func : UInt8) (offset : Nat) : Nat :=
  (pciReadByte info ecam bus slot func offset).toNat +
    2 ^ 8 * (pciReadByte info ecam bus slot func (offset + 1)).toNat

def pciReadDword (info : PciInfo) (ecam : Ecam) (bus slot func : UInt8) (offset : Nat) : Nat :=
  (pciReadByte info ecam bus slot func offset).toNat +
    2 ^ 8 * (pciReadByte info ecam bus slot func (offset + 1)).toNat +
    2 ^ 16 * (pciReadByte info ecam bus slot func (offset + 2)).toNat +
    2 ^ 24 * (pciReadByte info ecam bus slot func (offset + 3)).toNat

def pciWriteWord (info : PciInfo) (ecam : Ecam) (bus slot func : UInt8) (offset data : Nat) :
    Ecam :=
  Function.update
    (Function.update ecam (configAddress info bus slot func offset) (UInt8.ofNat data))
    (configAddress info bus slot func (offset + 1)) (UInt8.ofNat (data >>> 8))

/-- The class, the subclass and the programming interface of a function. -/
def pciDevicePrint (info : PciInfo) (ecam : Ecam) (bus slot func : UInt8) : Nat × Nat × Nat :=
  let be := pciReadDword info ecam bus slot func 0x8
  let progIf := (be >>> 8) &&& 0xFF
  let subcl := (be >>> 16) &&& 0xFF
  let cls := (be >>> 24) &&& 0xFF
  (cls, subcl, progIf)

def slots : List UInt8 := (List.range 32).map UInt8.ofNat

def functions : List UInt8 := (List.range 8).map UInt8.ofNat

/-- The two branches of `pci_scan` do the same with a function they have found; `scan` is the
call on the secondary bus. -/
def scanFunction (info : PciInfo) (ecam : Ecam)
    (scan : UInt8 → List Location → Option (List Location)) (bus i j : UInt8)
    (pciDevices : List Location) : Option (List Location) :=
  let pciDevices := pciDevices ++ [(bus, i, j)]
  let c := pciDevicePrint info ecam bus i j
  if c.1 = 0x6 ∧ c.2.1 = 0x4 then
    scan (UInt8.ofNat (pciReadWord info ecam bus i j 0x18 >>> 8)) pciDevices
  else some pciDevices

def pciScan (info : PciInfo) (ecam : Ecam) : Nat → UInt8 → List Location → Option (List Location)
  | 0, _, _ => none
  | fuel + 1, bus, pciDevices =>
      slots.foldlM
        (fun pciDevices i =>
          let ve := pciReadWord info ecam bus i 0 0x0
          if ve = 0xFFFF then some pciDevices
          else
            let heType := (pciReadDword info ecam bus i 0 0xC >>> 16) &&& 0xFF
            if heType &&& (1 <<< 7) ≠ 0 then
              functions.foldlM
                (fun pciDevices j =>
                  let v := pciReadWord info ecam bus i j 0x0
                  if v = 0xFFFF then some pciDevices
                  else scanFunction info ecam (pciScan info ecam fuel) bus i j pciDevices)
                pciDevices
            else scanFunction info ecam (pciScan info ecam fuel) bus i 0 pciDevices)
        pciDevices

end NyauxKernel.Pci
