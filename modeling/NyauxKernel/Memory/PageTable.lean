/-
The four level page tables of `arch/x86_64/pt/mod.rs`.

A table is one frame of 512 entries, reached through the direct map.  The flag
set `PT` is a record of its ten flags.  Invalidation of cached translations has
no counterpart: `translate` below is the walk of the hardware over memory.
-/

import NyauxKernel.Memory.Pmm

namespace NyauxKernel.Memory

structure PT where
  present : Bool
  write : Bool
  user : Bool
  nexec : Bool
  global : Bool
  gigapage : Bool
  megapage : Bool
  pwt : Bool
  pcd : Bool
  pat : Bool
deriving DecidableEq, Repr

/-- `PT::empty()`. -/
def PT.empty : PT :=
  { present := false, write := false, user := false, nexec := false, global := false
    gigapage := false, megapage := false, pwt := false, pcd := false, pat := false }

structure VMMFlags where
  write : Bool
  executable : Bool
  global : Bool
  user : Bool
  nocache : Bool
deriving DecidableEq, Repr

def PT.fromVmmflags (fla : VMMFlags) : PT :=
  { PT.empty with
    present := true
    write := fla.write
    nexec := !fla.executable
    global := fla.global
    user := fla.user
    pcd := fla.nocache
    pwt := fla.nocache }

/-- `PT::new`: the flags of the entry `check` in a table of level `lvl`. -/
def PT.new (check lvl : Nat) : PT :=
  let r : PT :=
    { PT.empty with
      present := check.testBit 0
      write := check.testBit 1
      user := check.testBit 2
      pwt := check.testBit 3
      pcd := check.testBit 4
      nexec := check.testBit 63 }
  match lvl with
  | 3 =>
      if check.testBit 7 then
        { r with gigapage := true, global := check.testBit 8, pat := check.testBit 12 }
      else r
  | 2 =>
      if check.testBit 7 then
        { r with megapage := true, global := check.testBit 8, pat := check.testBit 12 }
      else r
  | 1 => { r with global := check.testBit 8, pat := check.testBit 7 }
  | _ => r

/-- The value `1 << bit` where the flag is set. -/
def flagBit (flag : Bool) (bit : Nat) : Nat := if flag then 2 ^ bit else 0

def PT.buildPermissions (flags : PT) (lvl : Nat) : Nat :=
  let finalVal :=
    flagBit flags.present 0 ||| flagBit flags.user 2 ||| flagBit flags.write 1 |||
      flagBit flags.pwt 3 ||| flagBit flags.pcd 4 ||| flagBit flags.nexec 63
  match lvl with
  | 3 =>
      if flags.gigapage then
        finalVal ||| 2 ^ 7 ||| flagBit flags.global 8 ||| flagBit flags.pat 12
      else finalVal
  | 2 =>
      if flags.megapage then
        finalVal ||| 2 ^ 7 ||| flagBit flags.global 8 ||| flagBit flags.pat 12
      else finalVal
  | 1 => finalVal ||| flagBit flags.global 8 ||| flagBit flags.pat 7
  | _ => finalVal

def physMask : Nat := 0x000FFFFFFFFFF000

def extractPhysFromPte (pte : Nat) : Nat := pte &&& physMask

/-- `(entry & !0xFFF) & !(1 << 63)`: the frame of a table entry. -/
def tableFrame (entry : Nat) : Nat :=
  entry &&& ((addressSpace - 1) ^^^ 0xFFF) &&& ((addressSpace - 1) ^^^ 2 ^ 63)

/-- The shift of the index into a table of level `j`. -/
def levelShift : Nat → Nat
  | 4 => 39
  | 3 => 30
  | 2 => 21
  | 1 => 12
  | _ => 0

def levelIndex (virt j : Nat) : Nat := (virt >>> levelShift j) &&& 0x1ff

/-- The bits of `PT::PRESENT | PT::USER | PT::WRITE`. -/
def tableFlags : Nat := 7

/-- The level loop of `PTENT::get_table`, from level `j` down with the table at
`targettedTable`.  The result is the physical address of an entry. -/
def getTableLoop (hhdm virt : Nat) (alloc : Bool) :
    Nat → Nat → Machine → Except Halt (Except String Nat × Machine)
  | 0, _, m => .ok (.error "fuck", m)
  | j + 1, targettedTable, m =>
      let vi := levelIndex virt (j + 1)
      let next := m.memory (targettedTable + vi * 8)
      let perm := PT.new next (j + 1)
      if perm.megapage || perm.gigapage || j + 1 == 1 then
        .ok (.ok (targettedTable + vi * 8 - hhdm), m)
      else if next = 0 then
        if alloc then do
          let (page, m) ← allocatePage hhdm m
          let m := m.write (targettedTable + vi * 8) ((page - hhdm) ||| tableFlags)
          let next := m.memory (targettedTable + vi * 8)
          getTableLoop hhdm virt alloc j (tableFrame next + hhdm) m
        else .ok (.error "bru", m)
      else getTableLoop hhdm virt alloc j (tableFrame next + hhdm) m

/-- `PTENT::get_table` on the root `table`. -/
def getTable (hhdm table virt : Nat) (alloc : Bool) (m : Machine) :
    Except Halt (Except String Nat × Machine) :=
  getTableLoop hhdm virt alloc 4 (tableFrame table + hhdm) m

/-- `PTENT::unmap`. -/
def unmap (hhdm table virt : Nat) (m : Machine) : Except Halt Machine := do
  let (bro, m) ← getTable hhdm table virt false m
  match bro with
  | .error _ => .ok m
  | .ok entry =>
      let h := entry + hhdm
      if h ≠ 0 then do
        let page := extractPhysFromPte (m.memory h) + hhdm
        let m ← deallocatePage hhdm page m
        .ok (m.write h 0)
      else .ok m

/-- `PTENT::map4kib`. -/
def map4kib (hhdm table virt phys : Nat) (flags : PT) (m : Machine) :
    Except Halt (Except String Unit × Machine) := do
  let (answer, m) ← getTable hhdm table virt true m
  match answer with
  | .ok entry =>
      let value := extractPhysFromPte phys ||| flags.buildPermissions 1
      .ok (.ok (), m.write (entry + hhdm) value)
  | .error message => .ok (.error message, m)

/-! ### The walk of the hardware -/

/-- What the processor gets for an address: the frame of its 4 KiB page, the flag
bits of the entry that maps it, and the access all levels together allow. -/
structure Translation where
  phys : Nat
  flags : Nat
  writable : Bool
  user : Bool
  executable : Bool
deriving DecidableEq, Repr

/-- The frame of the page of `virt` when an entry of level `j` maps it. -/
def mappedFrame (entry virt j : Nat) : Nat :=
  extractPhysFromPte entry / 2 ^ levelShift j * 2 ^ levelShift j +
    virt % 2 ^ levelShift j / pageSize * pageSize

/-- The walk from a table of level `j` at physical address `table`, with the access
allowed so far. -/
def translateFrom (hhdm : Nat) (memory : Nat → Nat) (virt : Nat) :
    Nat → Nat → Bool → Bool → Bool → Option Translation
  | 0, _, _, _, _ => none
  | j + 1, table, writable, user, executable =>
      let entry := memory (table + hhdm + levelIndex virt (j + 1) * 8)
      if entry.testBit 0 then
        let writable := writable && entry.testBit 1
        let user := user && entry.testBit 2
        let executable := executable && !entry.testBit 63
        -- bit 7 of a level 2 or level 3 entry marks a large page
        if j + 1 = 1 ∨ ((j + 1 = 2 ∨ j + 1 = 3) ∧ entry.testBit 7) then
          some
            { phys := mappedFrame entry virt (j + 1)
              flags := entry &&& ((addressSpace - 1) ^^^ physMask)
              writable := writable
              user := user
              executable := executable }
        else
          translateFrom hhdm memory virt j (extractPhysFromPte entry) writable user executable
      else none

def translate (hhdm root : Nat) (memory : Nat → Nat) (virt : Nat) : Option Translation :=
  translateFrom hhdm memory virt 4 root true true true

end NyauxKernel.Memory
