/-
The physical page allocator of `memory/pmm/mod.rs`.

`FREELIST` holds physical addresses; the link of a free page is stored in the
page's first word and is reached through the direct map.  `pmm::init` proper is
completed in the slab module, since it ends with `init_slab`.
-/

import NyauxKernel.Memory.Machine

namespace NyauxKernel.Memory

/-- The entry types of the Limine memory map. -/
inductive MemmapType
  | usable
  | reserved
  | acpiReclaimable
  | acpiNvs
  | badMemory
  | bootloaderReclaimable
  | executableAndModules
  | framebuffer
  | mappedReserved
deriving DecidableEq, Repr

structure MemmapEntry where
  base : Nat
  length : Nat
  type : MemmapType
deriving DecidableEq, Repr

/-- One page of a usable entry is put on the list; frame zero is skipped. -/
def initPage (hhdm : Nat) (m : Machine) (i : Nat) : Machine :=
  if i = 0 then m
  else
    let prev := m.freelist.getD 0
    { m.write (i + hhdm) prev with freelist := some i }

def initEntry (hhdm : Nat) (m : Machine) (entry : MemmapEntry) : Machine :=
  match entry.type with
  | .usable => (pagesBetween entry.base (entry.base + entry.length)).foldl (initPage hhdm) m
  | _ => m

/-- The loop of `pmm::init` over the memory map. -/
def initFreelist (hhdm : Nat) (entries : List MemmapEntry) (m : Machine) : Machine :=
  entries.foldl (initEntry hhdm) m

def allocatePage (hhdm : Nat) (m : Machine) : Except Halt (Nat × Machine) :=
  match m.freelist with
  | some phy =>
      let bro := phy + hhdm
      let m := { m with freelist := some (m.memory bro) }
      let m := m.writeBytes bro pageSize
      .ok (bro, { m with pmmCalls := m.pmmCalls ++ [.allocated phy] })
  | none => .error (.panic "gbr")

def deallocatePage (hhdm : Nat) (ptr : Nat) (m : Machine) : Except Halt Machine :=
  match m.freelist with
  | none => .error unwrapNone
  | some o =>
      let m := m.writeBytes ptr pageSize
      let m := m.write ptr o
      .ok { m with
        freelist := some (ptr - hhdm)
        pmmCalls := m.pmmCalls ++ [.released ptr] }

end NyauxKernel.Memory
