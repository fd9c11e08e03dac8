/-
The kernel's virtual memory manager: `memory/vmm/mod.rs`, the region functions
and `pt_init` of `arch/x86_64/pt/mod.rs`, and the global allocator of
`memory/mod.rs`.

A region record takes five words of a slab object: the discriminant and the
pointer of `next`, `base`, `length` and `flags`.  The responses of the bootloader
are given; a missing one panics before any of this runs.
-/

import NyauxKernel.Memory.Slab
import NyauxKernel.Memory.PageTable

namespace NyauxKernel.Memory

/-- What the bootloader hands over. -/
structure Boot where
  hhdm : Nat
  entries : List MemmapEntry
  virtualBase : Nat
  physicalBase : Nat
  kernelStart : Nat
  kernelEnd : Nat

/-! ### Region records -/

def regionSize : Nat := 40

def nextTagOffset : Nat := 0
def nextOffset : Nat := 8
def baseOffset : Nat := 16
def lengthOffset : Nat := 24
def flagsOffset : Nat := 32

/-- `VMMFlags::bits`. -/
def VMMFlags.bits (flags : VMMFlags) : Nat :=
  flagBit flags.write 0 ||| flagBit flags.executable 1 ||| flagBit flags.global 2 |||
    flagBit flags.user 3 ||| flagBit flags.nocache 4

def regionNext (m : Machine) (region : Nat) : Option Nat :=
  if m.memory (region + nextTagOffset) = 0 then none else some (m.memory (region + nextOffset))

def regionBase (m : Machine) (region : Nat) : Nat := m.memory (region + baseOffset)

def regionLength (m : Machine) (region : Nat) : Nat := m.memory (region + lengthOffset)

/-- `(*region).next = next`; the payload of `None` is left alone. -/
def setRegionNext (m : Machine) (region : Nat) : Option Nat → Machine
  | none => m.write (region + nextTagOffset) 0
  | some next => (m.write (region + nextTagOffset) 1).write (region + nextOffset) next

/-- `VMMRegion::new`. -/
def regionNew (hhdm base length : Nat) (flags : VMMFlags) (m : Machine) :
    Except Halt (Nat × Machine) := do
  let (object, m) ← slabAlloc hhdm regionSize m
  match object with
  | none => .error (unwrapErr "()")
  | some ne =>
      let m := setRegionNext m ne none
      let m := m.write (ne + baseOffset) base
      let m := m.write (ne + lengthOffset) length
      .ok (ne, m.write (ne + flagsOffset) flags.bits)

/-! ### Page table regions -/

/-- `unwrap` of the result of `map4kib`. -/
def map4kibUnwrap (hhdm table virt phys : Nat) (flags : PT) (m : Machine) :
    Except Halt Machine := do
  let (answer, m) ← map4kib hhdm table virt phys flags m
  match answer with
  | .ok () => .ok m
  | .error message => .error (unwrapErr message)

def archMapRegionAlloc (hhdm archPage base length : Nat) (flags : VMMFlags) (m : Machine) :
    Except Halt Machine :=
  (pagesBetween base (wrap (base + length))).foldlM
    (fun m i => do
      let (page, m) ← allocatePage hhdm m
      map4kibUnwrap hhdm archPage i (page - hhdm) (PT.fromVmmflags flags) m) m

def archMapRegion (hhdm archPage base length : Nat) (phys : List Nat) (flags : VMMFlags)
    (m : Machine) : Except Halt Machine :=
  (pagesBetween base (wrap (base + length))).zipIdx.foldlM
    (fun m entry =>
      match phys[entry.2]? with
      | none => .error (.panic "index out of bounds")
      | some pa => map4kibUnwrap hhdm archPage entry.1 pa (PT.fromVmmflags flags) m) m

def archUnmapRegion (hhdm archPage base length : Nat) (m : Machine) : Except Halt Machine :=
  (pagesBetween base (wrap (base + length))).foldlM (fun m i => unmap hhdm archPage i m) m

/-! ### The region list -/

/-- The loop of `calculate_region_location` once `prev` is set. -/
def calculateLoop (m : Machine) (needed : Nat) :
    Nat → Nat → Option Nat → Except Halt (Except String (Nat × Nat × Nat))
  | 0, _, _ => .error .diverges
  | _ + 1, _, none => .ok (.error "could not find vmm region")
  | fuel + 1, prev, some cur =>
      let wEnd := wrap (regionBase m prev + regionLength m prev)
      let calculation := regionBase m cur - wEnd
      if calculation ≥ needed then .ok (.ok (wEnd, prev, cur))
      else calculateLoop m needed fuel cur (regionNext m cur)

def calculateRegionLocation (pagemap : Pagemap) (amount : Nat) (m : Machine) :
    Except Halt (Except String (Nat × Nat × Nat)) :=
  match pagemap.khead with
  | none => .ok (.error "could not find vmm region")
  | some head =>
      calculateLoop m (wrap (alignUp amount pageSize + pageSize)) addressSpace head
        (regionNext m head)

/-- The part that the three allocation functions share: the place, the record and
its insertion.  The result is the new record. -/
def insertRegion (hhdm : Nat) (pagemap : Pagemap) (amount : Nat) (flags : VMMFlags)
    (m : Machine) : Except Halt (Nat × Machine) :=
  if flags.user then .error (.panic "todo")
  else do
    let cal ← calculateRegionLocation pagemap amount m
    match cal with
    | .error message => .error (unwrapErr message)
    | .ok (base, prev, cur) =>
        let (e, m) ← regionNew hhdm base (alignUp amount pageSize) flags m
        let m := setRegionNext m prev (some e)
        .ok (e, setRegionNext m e (some cur))

def vmmAllocWithPhys (hhdm : Nat) (pagemap : Pagemap) (amount : Nat) (flags : VMMFlags)
    (pa : List Nat) (m : Machine) : Except Halt (Nat × Machine) := do
  let (e, m) ← insertRegion hhdm pagemap amount flags m
  let base := regionBase m e
  let m ← archMapRegion hhdm pagemap.archPage base (regionLength m e) pa flags m
  .ok (base, m)

def vmmAllocWithoutBacking (hhdm : Nat) (pagemap : Pagemap) (amount : Nat)
    (flags : VMMFlags) (m : Machine) : Except Halt (Nat × Machine) := do
  let (e, m) ← insertRegion hhdm pagemap amount flags m
  .ok (regionBase m e, m)

def vmmAlloc (hhdm : Nat) (pagemap : Pagemap) (amount : Nat) (flags : VMMFlags)
    (m : Machine) : Except Halt (Nat × Machine) := do
  let (e, m) ← insertRegion hhdm pagemap amount flags m
  let base := regionBase m e
  let m ← archMapRegionAlloc hhdm pagemap.archPage base (regionLength m e) flags m
  .ok (base, m)

/-- The search loop of `vmm_dealloc`. -/
def vmmDeallocLoop (hhdm base : Nat) :
    Nat → Option Nat → Option Nat → Pagemap → Machine → Except Halt (Pagemap × Machine)
  | 0, _, _, _, _ => .error .diverges
  | _ + 1, _, none, pagemap, m => .ok (pagemap, m)
  | fuel + 1, prev, some current, pagemap, m =>
      if regionBase m current = base then do
        let m ← archUnmapRegion hhdm pagemap.archPage (regionBase m current)
          (regionLength m current) m
        match prev with
        | some yo =>
            .ok (pagemap, slabDealloc current (setRegionNext m yo (regionNext m current)))
        | none =>
            .ok ({ pagemap with khead := regionNext m current }, slabDealloc current m)
      else vmmDeallocLoop hhdm base fuel (some current) (regionNext m current) pagemap m

def vmmDealloc (hhdm : Nat) (pagemap : Pagemap) (base : Nat) (userAllocated : Bool)
    (m : Machine) : Except Halt (Pagemap × Machine) :=
  if base = 0 then .ok (pagemap, m)
  else if userAllocated then .error (.panic "todo")
  else vmmDeallocLoop hhdm base addressSpace none pagemap.khead pagemap m

/-! ### Initialisation -/

/-- The entry types that `pt_init` covers with the direct map. -/
def MemmapType.inDirectMap : MemmapType → Bool
  | .mappedReserved | .usable | .bootloaderReclaimable | .executableAndModules
  | .acpiNvs | .acpiReclaimable | .framebuffer => true
  | .reserved | .badMemory => false

/-- The end of the direct map before rounding. -/
def maxHhdmPhys (entries : List MemmapEntry) : Nat :=
  entries.foldl
    (fun most entry => if entry.type.inDirectMap then max (entry.base + entry.length) most
      else most) 0

/-- The framebuffer entry listed last. -/
def memmapFbInfo (entries : List MemmapEntry) : Nat × Nat :=
  entries.foldl
    (fun info entry => if entry.type = .framebuffer then (entry.base, entry.length) else info)
    (0, 0)

def kernelFlags : PT := { PT.empty with global := true, present := true, write := true }

def framebufferFlags : PT :=
  { PT.empty with
    global := true, present := true, write := true, nexec := true, pat := true, pwt := true }

/-- The flags of the direct map's page of frame `i`. -/
def directMapFlags (fb : Nat × Nat) (i : Nat) : PT :=
  if fb.1 ≤ i ∧ i < fb.1 + fb.2 then framebufferFlags else kernelFlags

/-- `pt_init`; the result is the size of the direct map and of the kernel. -/
def ptInit (boot : Boot) (m : Machine) : Except Halt ((Nat × Nat) × Machine) := do
  let kernelSize := alignUp (boot.kernelEnd - boot.kernelStart) pageSize
  -- the walk through the bootloader's tables is an argument of `println!`, which is not
  -- evaluated before there is a terminal
  let (page, m) ← allocatePage boot.hhdm m
  let pml4 := page - boot.hhdm
  let m ← (pagesBetween 0 kernelSize).foldlM
    (fun m i => map4kibUnwrap boot.hhdm pml4 (wrap (boot.virtualBase + i))
      (wrap (boot.physicalBase + i)) kernelFlags m) m
  let maxHhdm := alignUp (maxHhdmPhys boot.entries) pageSize
  let m ← (pagesBetween 0 maxHhdm).foldlM
    (fun m i => map4kibUnwrap boot.hhdm pml4 (wrap (boot.hhdm + i)) i
      (directMapFlags (memmapFbInfo boot.entries) i) m) m
  .ok ((maxHhdm, kernelSize), { m with cr3 := pml4 })

def kernelRegionFlags : VMMFlags :=
  { write := false, executable := true, global := true, user := false, nocache := false }

def hhdmRegionFlags : VMMFlags :=
  { write := true, executable := true, global := true, user := false, nocache := false }

def vmmInit (boot : Boot) (m : Machine) : Except Halt Machine := do
  let (sizes, m) ← ptInit boot m
  let (kernelRegion, m) ← regionNew boot.hhdm boot.virtualBase sizes.2 kernelRegionFlags m
  let (hhdmRegion, m) ← regionNew boot.hhdm boot.hhdm sizes.1 hhdmRegionFlags m
  let m := setRegionNext m hhdmRegion (some kernelRegion)
  .ok { m with kermap := some { archPage := tableFrame m.cr3, khead := some hhdmRegion } }

/-! ### The global allocator -/

/-- The flags `VMMFlags::WRITE`. -/
def writeFlags : VMMFlags :=
  { write := true, executable := false, global := false, user := false, nocache := false }

def NAlloc.alloc (hhdm size : Nat) (m : Machine) : Except Halt (Nat × Machine) := do
  if size ≤ 1024 then
    let (object, m) ← slabAlloc hhdm size m
    match object with
    | some s => .ok (s, m)
    | none => .error (unwrapErr "()")
  else
    match m.kermap with
    | none => .error unwrapNone
    | some pagemap => vmmAlloc hhdm pagemap size writeFlags m

def NAlloc.dealloc (hhdm ptr size : Nat) (m : Machine) : Except Halt Machine := do
  if size ≤ 1024 then .ok (slabDealloc ptr m)
  else
    match m.kermap with
    | none => .error unwrapNone
    | some pagemap =>
        let (pagemap, m) ← vmmDealloc hhdm pagemap ptr false m
        .ok { m with kermap := some pagemap }

end NyauxKernel.Memory
