/-
The page tables of `arch/risc_v/pt/mod.rs`, one loop for the depths of Sv39, Sv48 and
Sv57.

A table is one frame of 512 entries, reached through the direct map.  The flag set
`PT` is a record of its six flags.  `translate` is the walk of the hardware over
memory, up to the entry that maps the address; what an access then needs of that
entry's flags is not part of it.
-/

import NyauxKernel.Memory.PageTable

namespace NyauxKernel.RiscV

open Memory

def extractPhysFromPte (pte : Nat) : Nat := ((pte >>> 10) &&& 0xFFFFFFFFFFF) <<< 12

structure PT where
  valid : Bool
  read : Bool
  write : Bool
  execute : Bool
  user : Bool
  global : Bool
deriving DecidableEq, Repr

def PT.fromVmmflags (fla : VMMFlags) : PT :=
  { valid := true
    read := true
    write := fla.write
    execute := fla.executable
    global := fla.global
    user := fla.user }

/-- `PT::new`: the flags of an entry. -/
def PT.new (table : Nat) : PT :=
  { valid := table.testBit 0
    read := table.testBit 1
    write := table.testBit 2
    execute := table.testBit 3
    user := table.testBit 4
    global := table.testBit 5 }

def PT.buildPermissions (flags : PT) : Nat :=
  flagBit flags.valid 0 ||| flagBit flags.read 1 ||| flagBit flags.write 2 |||
    flagBit flags.execute 3 ||| flagBit flags.user 4 ||| flagBit flags.global 5

/-- The paging modes that `pt_init` knows. -/
inductive PagingMode
  | riscvSv39
  | riscvSv48
  | riscvSv57
deriving DecidableEq, Repr

/-- `SV_LEVELS` as `pt_init` sets it. -/
def svLevels : PagingMode → Nat
  | .riscvSv39 => 3
  | .riscvSv48 => 4
  | .riscvSv57 => 5

/-- The index into a table of level `level`. -/
def levelIndex (virt level : Nat) : Nat :=
  let shift := 12 + level * 9
  (virt >>> shift) &&& 0x1FF

/-- The level loop of `PTENT::get_table` over the levels below the given one, with the
table at `table`.  The result is the address of an entry in the direct map. -/
def getTableLoop (hhdm virt targetLevel : Nat) (alloc : Bool) :
    Nat → Nat → Machine → Except Halt (Except String Nat × Machine)
  | 0, _, m => .ok (.error "failed", m)
  | level + 1, table, m =>
      -- the levels end at the target
      if level < targetLevel then .ok (.error "failed", m)
      else
        let ble := table + levelIndex virt level * 8
        let data := m.memory ble
        let perm := PT.new data
        if level == targetLevel || ((perm.read || perm.write || perm.execute) && perm.valid) then
          .ok (.ok ble, m)
        else if !perm.valid then
          if alloc then do
            let (page, m) ← allocatePage hhdm m
            let ppn := (page - hhdm) >>> 12
            let m := m.write ble ((ppn <<< 10) ||| 1)
            let data := m.memory ble
            getTableLoop hhdm virt targetLevel alloc level (extractPhysFromPte data + hhdm) m
          else .ok (.error "gg broski", m)
        else getTableLoop hhdm virt targetLevel alloc level (extractPhysFromPte data + hhdm) m

/-- `PTENT::get_table` on the root `table`. -/
def getTable (hhdm table virt levels targetLevel : Nat) (alloc : Bool) (m : Machine) :
    Except Halt (Except String Nat × Machine) :=
  getTableLoop hhdm virt targetLevel alloc levels (table + hhdm) m

/-- `PTENT::map4kib`, with `SV_LEVELS` as an argument. -/
def map4kib (svLevels hhdm table virt phys : Nat) (flags : PT) (m : Machine) :
    Except Halt (Except String Unit × Machine) := do
  let (answer, m) ← getTable hhdm table virt svLevels 0 true m
  match answer with
  | .ok yum =>
      let ppn := phys >>> 12
      .ok (.ok (), m.write yum ((ppn <<< 10) ||| flags.buildPermissions))
  | .error message => .ok (.error message, m)

/-- `PTENT::unmap4kib`, with `SV_LEVELS` as an argument.  The walk may allocate. -/
def unmap4kib (svLevels hhdm table virt : Nat) (m : Machine) : Except Halt Machine := do
  let (answer, m) ← getTable hhdm table virt svLevels 0 true m
  match answer with
  | .error message => .error (unwrapErr message)
  | .ok bro =>
      if bro ≠ 0 then do
        let page := extractPhysFromPte (m.memory bro) + hhdm
        let m ← deallocatePage hhdm page m
        .ok (m.write bro 0)
      else .ok m

/-! ### The walk of the hardware -/

/-- What the processor gets for an address: the frame of its 4 KiB page, the lowest ten
bits of the entry that maps it, and what they say. -/
structure Translation where
  phys : Nat
  flags : Nat
  readable : Bool
  writable : Bool
  executable : Bool
  user : Bool
  global : Bool
deriving DecidableEq, Repr

/-- The digit of level `i` of the virtual page number. -/
def vpn (virt i : Nat) : Nat := virt / 2 ^ (12 + 9 * i) % 2 ^ 9

/-- The page number in an entry. -/
def ppn (pte : Nat) : Nat := pte / 2 ^ 10 % 2 ^ 44

/-- The entries on which every walk faults: those that are not valid, those that could be
written and not read, and those with a bit above the page number. -/
def faults (pte : Nat) : Bool :=
  !pte.testBit 0 || (!pte.testBit 1 && pte.testBit 2) || decide (2 ^ 54 ≤ pte)

/-- The walk from a table of level `i - 1` at physical address `a`. -/
def translateFrom (hhdm : Nat) (memory : Nat → Nat) (virt : Nat) :
    Nat → Nat → Bool → Option Translation
  | 0, _, _ => none
  | i + 1, a, global =>
      let pte := memory (a + hhdm + vpn virt i * 8)
      let global := global || pte.testBit 5
      if faults pte then none
      else if pte.testBit 1 || pte.testBit 3 then
        -- the frame of a superpage has zeros where the address has its page
        if ppn pte % 512 ^ i = 0 then
          some
            { phys := (ppn pte + virt / pageSize % 512 ^ i) * pageSize
              flags := pte % 2 ^ 10
              readable := pte.testBit 1
              writable := pte.testBit 2
              executable := pte.testBit 3
              user := pte.testBit 4
              global := global }
        else none
      -- the user, accessed and dirty bits are reserved in an entry for a table
      else if pte.testBit 4 || pte.testBit 6 || pte.testBit 7 then none
      else translateFrom hhdm memory virt i (ppn pte * pageSize) global

/-- The bits above those that the walk uses repeat the highest one. -/
def Canonical (levels virt : Nat) : Prop :=
  virt / 2 ^ (11 + 9 * levels) = 0 ∨ virt / 2 ^ (11 + 9 * levels) = 2 ^ (53 - 9 * levels) - 1

instance (levels virt : Nat) : Decidable (Canonical levels virt) :=
  inferInstanceAs (Decidable (_ ∨ _))

def translate (levels hhdm root : Nat) (memory : Nat → Nat) (virt : Nat) : Option Translation :=
  if Canonical levels virt then translateFrom hhdm memory virt levels root false else none

end NyauxKernel.RiscV
