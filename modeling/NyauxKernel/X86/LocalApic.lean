/-
The local APIC of a processor and the timer of `arch/x86_64/lapic/mod.rs`.

The registers are accessed in a page or as model specific registers, by the mode of the APIC.
Its timer counts down between the accesses.  A countdown that ends while the timer is masked
leaves no interrupt behind.
-/

import NyauxKernel.Library.DeviceCode
import Mathlib.Data.UInt
import Mathlib.Logic.Function.Basic

namespace NyauxKernel.X86

open DeviceCode

/-! ### The hardware -/

inductive LapicType
  | xapic
  | x2apic
deriving DecidableEq, Repr

def ia32X2apicBaseMsr : UInt32 := 0x800

def ia32LapicLvtTimer : UInt32 := 0x320
def ia32LapicTimerInitCount : UInt32 := 0x380
def ia32LapicTimerCurCount : UInt32 := 0x390
def ia32LapicTimerDiv : UInt32 := 0x3E0
def ia32LapicEoi : UInt32 := 0xB0
def ia32LapicSpurious : UInt32 := 0xF0

def ia32LapicMaskMasked : UInt32 := 0x10000

/-- The APIC, with its mode, the registers by their offsets, and the interrupt of the timer that
waits or is in service.  The times are in ticks of the timer: now, at the last start of the
countdown, since then at the last reading of the count, and at the last unmasking. -/
structure LocalApic where
  mode : LapicType
  regs : UInt32 → UInt32
  requested : Option UInt8
  inService : Option UInt8
  time : Nat
  started : Nat
  sampled : Nat
  unmasked : Nat

namespace LocalApic

/-- Software enables the APIC in its spurious vector register. -/
def softwareEnabled (apic : LocalApic) : Bool := apic.regs ia32LapicSpurious &&& 0x100 != 0

def readReg (apic : LocalApic) (offset : UInt32) : UInt32 × LocalApic :=
  (apic.regs offset,
    { apic with
      sampled := if offset = ia32LapicTimerCurCount then apic.time - apic.started
        else apic.sampled })

/-- A write starts the countdown, ends the service or is kept; the timer stays masked while the
APIC is disabled by software. -/
def writeReg (apic : LocalApic) (offset value : UInt32) : LocalApic :=
  if offset = ia32LapicEoi then { apic with inService := none }
  else if offset = ia32LapicTimerInitCount then
    { apic with
      regs := Function.update (Function.update apic.regs ia32LapicTimerInitCount value)
        ia32LapicTimerCurCount value
      started := apic.time }
  else if offset = ia32LapicTimerCurCount then apic
  else if offset = ia32LapicLvtTimer then
    let value := if apic.softwareEnabled then value else value ||| ia32LapicMaskMasked
    { apic with
      regs := Function.update apic.regs ia32LapicLvtTimer value
      unmasked := if value &&& ia32LapicMaskMasked = 0 then apic.time else apic.unmasked }
  else { apic with regs := Function.update apic.regs offset value }

/-- The count after a tick, in one-shot mode or (bit 17) in periodic mode. -/
def nextCount (apic : LocalApic) : UInt32 :=
  let cur := apic.regs ia32LapicTimerCurCount
  if cur = 0 then 0
  else if cur = 1 ∧ apic.regs ia32LapicLvtTimer &&& 0x20000 ≠ 0 then
    apic.regs ia32LapicTimerInitCount
  else cur - 1

/-- The next tick ends the countdown, with the timer unmasked. -/
def expires (apic : LocalApic) : Bool :=
  apic.regs ia32LapicTimerCurCount == 1 &&
    apic.regs ia32LapicLvtTimer &&& ia32LapicMaskMasked == 0 && apic.softwareEnabled

def tick (apic : LocalApic) : LocalApic :=
  { apic with
    time := apic.time + 1
    regs := Function.update apic.regs ia32LapicTimerCurCount apic.nextCount
    requested :=
      if apic.expires then some (apic.regs ia32LapicLvtTimer).toUInt8 else apic.requested }

end LocalApic

/-- The register of a model specific register. -/
def x2apicOffset (msr : UInt32) : UInt32 := (msr - ia32X2apicBaseMsr) <<< 4

/-- The registers of the driver that can be written in x2APIC mode. -/
def x2apicWritable (offset value : UInt32) : Bool :=
  if offset = ia32LapicEoi then value == 0
  else offset ∈ [ia32LapicSpurious, ia32LapicLvtTimer, ia32LapicTimerInitCount, ia32LapicTimerDiv]

def x2apicReadable (offset : UInt32) : Bool :=
  offset ∈ [ia32LapicSpurious, ia32LapicLvtTimer, ia32LapicTimerInitCount, ia32LapicTimerCurCount,
    ia32LapicTimerDiv]

inductive LapicAccess
  | mmioRead (offset : UInt32)
  | mmioWrite (offset value : UInt32)
  | rdmsr (msr : UInt32)
  | wrmsr (msr : UInt32) (value : UInt64)

def lapicBus : Interface where
  Access := LapicAccess
  Answer
    | .mmioRead _ => UInt32
    | .mmioWrite _ _ => Unit
    | .rdmsr _ => UInt64
    | .wrmsr _ _ => Unit

/-- An access in the wrong mode, to a register that is not there, or with a value that is not
allowed faults. -/
def LocalApic.respond (apic : LocalApic) :
    (a : LapicAccess) → Option (lapicBus.Answer a × LocalApic)
  | .mmioRead offset => if apic.mode = .xapic then some (apic.readReg offset) else none
  | .mmioWrite offset value =>
      if apic.mode = .xapic then some ((), apic.writeReg offset value) else none
  | .rdmsr msr =>
      if apic.mode = .x2apic ∧ x2apicReadable (x2apicOffset msr) then
        some ((apic.readReg (x2apicOffset msr)).1.toUInt64, (apic.readReg (x2apicOffset msr)).2)
      else none
  | .wrmsr msr value =>
      if apic.mode = .x2apic ∧ x2apicWritable (x2apicOffset msr) value.toUInt32 then
        some ((), apic.writeReg (x2apicOffset msr) value.toUInt32)
      else none

def localApic : Device lapicBus LocalApic where
  respond := LocalApic.respond
  Changes := fun apic apic' => apic' = apic.tick

/-! ### The driver -/

structure Lapic where
  ticksPerMs : UInt64
  lapicType : LapicType
deriving DecidableEq, Repr

namespace Lapic

def read (lapic : Lapic) (reg : UInt32) : Code lapicBus UInt32 :=
  match lapic.lapicType with
  | .xapic => perform (I := lapicBus) (.mmioRead reg)
  | .x2apic => do
      let value ← perform (I := lapicBus) (.rdmsr (ia32X2apicBaseMsr + (reg >>> 4)))
      return UInt64.toUInt32 value

def write (lapic : Lapic) (reg val : UInt32) : Code lapicBus Unit :=
  match lapic.lapicType with
  | .xapic => perform (I := lapicBus) (.mmioWrite reg val)
  | .x2apic => perform (I := lapicBus) (.wrmsr (ia32X2apicBaseMsr + (reg >>> 4)) val.toUInt64)

/-- The delay of ten milliseconds is time that passes before the reading. -/
def calibrateTimer (lapic : Lapic) : Code lapicBus Lapic := do
  lapic.write ia32LapicLvtTimer ((0x21 : UInt32) ||| (1 : UInt32) <<< 16)
  lapic.write ia32LapicTimerDiv 0xb
  lapic.write ia32LapicTimerInitCount 0xFFFFFFFF
  let cur ← lapic.read ia32LapicTimerCurCount
  lapic.write ia32LapicTimerInitCount 0
  return { lapic with ticksPerMs := ((0xFFFFFFFF - cur) / 10).toUInt64 }

def disableTimer (lapic : Lapic) : Code lapicBus Unit := do
  let lvt ← lapic.read ia32LapicLvtTimer
  lapic.write ia32LapicLvtTimer (lvt ||| ia32LapicMaskMasked)

def enableTimer (lapic : Lapic) : Code lapicBus Unit := do
  let lvt ← lapic.read ia32LapicLvtTimer
  lapic.write ia32LapicLvtTimer (lvt &&& ~~~ia32LapicMaskMasked)

def setTimer (lapic : Lapic) (ms : UInt64) : Code lapicBus Unit := do
  lapic.disableTimer
  lapic.write ia32LapicTimerInitCount (lapic.ticksPerMs * ms).toUInt32
  lapic.enableTimer

def sendEoi (lapic : Lapic) : Code lapicBus Unit := lapic.write ia32LapicEoi 0

end Lapic

/-! ### Accesses -/

theorem stable_iff {P : LocalApic → Prop} :
    localApic.Stable P ↔ ∀ apic, P apic → P apic.tick := by
  constructor
  · intro stable apic holds
    exact stable apic apic.tick holds rfl
  · rintro keeps apic _ holds rfl
    exact keeps apic holds

theorem x2apicOffset_of_readable {reg : UInt32} (readable : x2apicReadable reg = true) :
    x2apicOffset (ia32X2apicBaseMsr + (reg >>> 4)) = reg := by
  have places : [ia32LapicSpurious, ia32LapicLvtTimer, ia32LapicTimerInitCount,
      ia32LapicTimerCurCount, ia32LapicTimerDiv].all
        (fun reg => x2apicOffset (ia32X2apicBaseMsr + (reg >>> 4)) == reg) = true := by decide
  exact beq_iff_eq.mp (List.all_eq_true.mp places reg (of_decide_eq_true readable))

theorem x2apicOffset_of_writable {reg val : UInt32} (writable : x2apicWritable reg val = true) :
    x2apicOffset (ia32X2apicBaseMsr + (reg >>> 4)) = reg := by
  have places : [ia32LapicEoi, ia32LapicSpurious, ia32LapicLvtTimer,
      ia32LapicTimerInitCount, ia32LapicTimerDiv].all
        (fun reg => x2apicOffset (ia32X2apicBaseMsr + (reg >>> 4)) == reg) = true := by decide
  apply fun member => beq_iff_eq.mp (List.all_eq_true.mp places reg member)
  rw [x2apicWritable] at writable
  split at writable
  · rename_i isEoi
    rw [isEoi]
    exact List.mem_cons_self
  · exact List.mem_cons_of_mem _ (of_decide_eq_true writable)

namespace Lapic

variable {lapic : Lapic} {P : LocalApic → Prop} {apic : LocalApic} {reg val : UInt32}

/-- A read gives the register in both modes. -/
theorem read_ensures {Q : UInt32 → LocalApic → Prop} (stable : localApic.Stable P)
    (stays : ∀ value, localApic.Stable (Q value)) (holds : P apic)
    (readable : x2apicReadable reg = true)
    (inMode : ∀ apic, P apic → apic.mode = lapic.lapicType)
    (effect : ∀ apic, P apic → Q (apic.readReg reg).1 (apic.readReg reg).2) :
    localApic.Ensures (lapic.read reg) Q apic := by
  unfold read
  cases mode : lapic.lapicType with
  | xapic =>
      apply Device.Ensures.access stable holds
      intro apic' holds'
      exact ⟨_, _, if_pos ((inMode apic' holds').trans mode),
        Device.Ensures.ret (stays _) (effect apic' holds')⟩
  | x2apic =>
      apply Device.Ensures.access stable holds
      intro apic' holds'
      refine ⟨(apic'.readReg reg).1.toUInt64, (apic'.readReg reg).2, ?_, ?_⟩
      · change apic'.respond (.rdmsr (ia32X2apicBaseMsr + (reg >>> 4))) = _
        rw [LocalApic.respond, x2apicOffset_of_readable readable]
        exact if_pos ⟨(inMode apic' holds').trans mode, readable⟩
      · apply Device.Ensures.ret (stays _)
        rw [UInt32.toUInt32_toUInt64]
        exact effect apic' holds'

/-- A write reaches the register in both modes. -/
theorem write_ensures {Q : LocalApic → Prop} (stable : localApic.Stable P)
    (stays : localApic.Stable Q) (holds : P apic) (writable : x2apicWritable reg val = true)
    (inMode : ∀ apic, P apic → apic.mode = lapic.lapicType)
    (effect : ∀ apic, P apic → Q (apic.writeReg reg val)) :
    localApic.Ensures (lapic.write reg val) (fun _ => Q) apic := by
  unfold write
  cases mode : lapic.lapicType with
  | xapic =>
      apply Device.Ensures.access stable holds
      intro apic' holds'
      exact ⟨_, _, if_pos ((inMode apic' holds').trans mode),
        Device.Ensures.ret stays (effect apic' holds')⟩
  | x2apic =>
      apply Device.Ensures.access stable holds
      intro apic' holds'
      refine ⟨(), apic'.writeReg reg val, ?_, Device.Ensures.ret stays (effect apic' holds')⟩
      change apic'.respond (.wrmsr (ia32X2apicBaseMsr + (reg >>> 4)) val.toUInt64) = _
      rw [LocalApic.respond, x2apicOffset_of_writable writable, UInt32.toUInt32_toUInt64]
      exact if_pos ⟨(inMode apic' holds').trans mode, writable⟩

end Lapic

end NyauxKernel.X86
