/-
Time slices: a processor, its timer and the handler of the timer's interrupt.

The timer is in one-shot mode, and every interrupt of it sets it again.  A slice in which the
countdown ends before the timer is unmasked has no interrupt, and so it has no end.
-/

import NyauxKernel.X86.LapicTimer

namespace NyauxKernel.X86

open DeviceCode

/-! ### The processor -/

/-- Interrupts are disabled in code of the kernel that accesses the APIC. -/
inductive CpuMode
  | kernel (code : Code lapicBus Lapic)
  | thread (interrupts : Bool)
  | panicked

/-- A processor, with the `lapic` of its `cpu_local` and the time slice of its thread in
milliseconds. -/
structure TimedCpu where
  apic : LocalApic
  lapic : Option Lapic
  slice : UInt64
  mode : CpuMode

/-- `lapic_init` after `lapic::new`, and then `sched_init` up to where it enables interrupts. -/
def bootTimer (lapic : Lapic) : Code lapicBus Lapic := do
  let lapic ← lapic.calibrateTimer
  lapic.setTimer 10
  return lapic

def booting (lapic : Lapic) (apic : LocalApic) : TimedCpu :=
  { apic := apic, lapic := none, slice := 10, mode := .kernel (bootTimer lapic) }

/-- The accesses of `idt_handler` for the timer; `ms` is the slice of the next thread.  A
`cpu_local` is made with `preempt` set, and nothing clears it. -/
def timerHandler (lapic : Lapic) (ms : UInt64) : Code lapicBus Lapic := do
  lapic.sendEoi
  lapic.setTimer ms
  return lapic

/-- The processor takes the interrupt, and `idt_handler` begins. -/
def TimedCpu.interrupt (s : TimedCpu) (vector : UInt8) (ms : UInt64) : TimedCpu :=
  let apic := { s.apic with requested := none, inService := some vector }
  if vector = 0xff then { s with apic := apic }
  else if vector = 0x21 then
    match s.lapic with
    | some lapic => { s with apic := apic, slice := ms, mode := .kernel (timerHandler lapic ms) }
    | none => { s with apic := apic, mode := .panicked }
  else { s with apic := apic, mode := .panicked }

inductive TimedStep : TimedCpu → TimedCpu → Prop
  | tick (s : TimedCpu) : TimedStep s { s with apic := s.apic.tick }
  | kernel {s : TimedCpu} {code code' : Code lapicBus Lapic} {apic : LocalApic}
      (here : s.mode = .kernel code) (step : localApic.Step (code, s.apic) (code', apic)) :
      TimedStep s { s with apic := apic, mode := .kernel code' }
  | leave {s : TimedCpu} {lapic : Lapic} (here : s.mode = .kernel (.ret lapic)) :
      TimedStep s { s with lapic := some lapic, mode := .thread true }
  | setInterrupts {s : TimedCpu} {before : Bool} (here : s.mode = .thread before) (after : Bool) :
      TimedStep s { s with mode := .thread after }
  | interrupt {s : TimedCpu} {vector : UInt8} (here : s.mode = .thread true)
      (requested : s.apic.requested = some vector) (free : s.apic.inService = none) (ms : UInt64) :
      TimedStep s (s.interrupt vector ms)

def TimedRun : TimedCpu → TimedCpu → Prop := Relation.ReflTransGen TimedStep

/-! ### Invariant -/

/-- The timer in a slice of `ms` milliseconds. -/
def InSlice (ms : UInt64) (lapic : Lapic) (apic : LocalApic) : Prop :=
  ∃ sampled, Calibrated lapic sampled ∧
    Sliced lapic.lapicType sampled (lapic.ticksPerMs * ms).toUInt32 apic

theorem InSlice.stable (ms : UInt64) (lapic : Lapic) : localApic.Stable (InSlice ms lapic) :=
  stable_iff.mpr fun _ inSlice => inSlice.imp fun _ both => ⟨both.1, both.2.tick⟩

def TimedInv (s : TimedCpu) : Prop :=
  match s.mode with
  | .kernel code => localApic.Ensures code (InSlice s.slice) s.apic
  | .thread _ => ∃ lapic, s.lapic = some lapic ∧ InSlice s.slice lapic s.apic
  | .panicked => False

variable {lapic : Lapic} {sampled : Nat} {apic : LocalApic} {mode : LapicType} {s s' : TimedCpu}
  {vector : UInt8}

theorem setTimer_inSlice {lvt : UInt32} (calibrated : Calibrated lapic sampled)
    (idle : Idle lapic.lapicType sampled lvt apic) (ms : UInt64) :
    localApic.Ensures (do lapic.setTimer ms; return lapic) (InSlice ms) apic :=
  (setTimer_ensures idle ms).seq fun _ _ sliced =>
    Device.Ensures.ret (InSlice.stable ms lapic) ⟨sampled, calibrated, sliced⟩

/-- The APIC as `lapic::new` leaves it. -/
def Initialised (lapic : Lapic) (apic : LocalApic) : Prop :=
  Masked lapic.lapicType apic.sampled ia32LapicMaskMasked apic

theorem Initialised.booting (initialised : Initialised lapic apic) :
    TimedInv (X86.booting lapic apic) :=
  (calibrateTimer_ensures initialised).seq fun _ _ both =>
    both.elim fun _ both => setTimer_inSlice both.1 both.2 10

/-- When the interrupt of a slice comes, its countdown has ended. -/
theorem Sliced.stopped {count : UInt32} (sliced : Sliced mode sampled count apic)
    (requested : apic.requested = some vector) :
    vector = 0x21 ∧
      Stopped mode sampled 0x21 { apic with requested := none, inService := some vector } := by
  rw [sliced.requested] at requested
  split at requested
  · rename_i due
    obtain rfl := Option.some.inj requested
    refine ⟨rfl, ⟨sliced.inMode, sliced.softwareEnabled, sliced.vector, sliced.isSampled⟩,
      by decide, ?_, rfl⟩
    apply UInt32.toNat_inj.mp
    exact sliced.counted.trans (Nat.sub_eq_zero_of_le due.2)
  · cases requested

theorem TimedInv.interrupt (inv : TimedInv s) (here : s.mode = .thread true)
    (requested : s.apic.requested = some vector) (ms : UInt64) :
    TimedInv (s.interrupt vector ms) := by
  rw [TimedInv, here] at inv
  obtain ⟨lapic, isLapic, sampled, calibrated, sliced⟩ := inv
  obtain ⟨rfl, stopped⟩ := sliced.stopped requested
  rw [TimedCpu.interrupt, if_neg (by decide), if_pos rfl, isLapic]
  exact (sendEoi_ensures stopped).seq fun _ _ idle =>
    setTimer_inSlice calibrated idle ms

theorem TimedInv.step (inv : TimedInv s) (step : TimedStep s s') : TimedInv s' := by
  cases step with
  | tick =>
      rw [TimedInv] at inv ⊢
      cases here : s.mode with
      | kernel code =>
          rw [here] at inv
          exact inv.later (Relation.ReflTransGen.single rfl)
      | thread interrupts =>
          rw [here] at inv
          obtain ⟨lapic, isLapic, inSlice⟩ := inv
          exact ⟨lapic, isLapic, stable_iff.mp (InSlice.stable _ _) _ inSlice⟩
      | panicked =>
          rw [here] at inv
          exact inv.elim
  | kernel here step =>
      rw [TimedInv, here] at inv
      exact inv.step step
  | leave here =>
      rw [TimedInv, here] at inv
      exact ⟨_, rfl, inv.returned⟩
  | setInterrupts here after =>
      rw [TimedInv, here] at inv
      exact inv
  | interrupt here requested free ms => exact inv.interrupt here requested ms

theorem TimedInv.run (inv : TimedInv s) (run : TimedRun s s') : TimedInv s' := by
  induction run with
  | refl => exact inv
  | tail _ step inductionHypothesis => exact inductionHypothesis.step step

/-! ### Slices without an end -/

/-- No interrupt is to come, and no code of the kernel runs. -/
structure Dead (mode : LapicType) (sampled : Nat) (s : TimedCpu) : Prop where
  thread : ∃ interrupts, s.mode = .thread interrupts
  stopped : Stopped mode sampled 0x21 s.apic

theorem Dead.step (dead : Dead mode sampled s) (step : TimedStep s s') : Dead mode sampled s' := by
  obtain ⟨interrupts, inThread⟩ := dead.thread
  cases step with
  | tick => exact ⟨dead.thread, dead.stopped.tick⟩
  | kernel here step =>
      rw [inThread] at here
      cases here
  | leave here =>
      rw [inThread] at here
      cases here
  | setInterrupts here after => exact ⟨⟨after, rfl⟩, dead.stopped⟩
  | interrupt here requested free ms =>
      rw [dead.stopped.requested] at requested
      cases requested

theorem Dead.run (dead : Dead mode sampled s) (run : TimedRun s s') : Dead mode sampled s' := by
  induction run with
  | refl => exact dead
  | tail _ step inductionHypothesis => exact inductionHypothesis.step step

/-! ### Runs -/

/-- The code of the kernel comes to its end. -/
theorem TimedInv.leaves (inv : TimedInv s) {code : Code lapicBus Lapic}
    (here : s.mode = .kernel code) : ∃ s', TimedRun s s' ∧ s'.mode = .thread true := by
  rw [TimedInv, here] at inv
  obtain ⟨lapic, apic, run⟩ := inv.returns
  have start : s = { s with apic := s.apic, mode := .kernel code } := by rw [← here]
  have reaches := run.lift (r := localApic.Step) (p := TimedStep)
    (fun state => { s with apic := state.2, mode := .kernel state.1 })
    fun _ _ step => TimedStep.kernel rfl step
  rw [start]
  exact ⟨_, reaches.tail (TimedStep.leave rfl), rfl⟩

/-- The number of ticks of a slice. -/
theorem slice_count (calibrated : Calibrated lapic sampled) (ms : UInt64) :
    (lapic.ticksPerMs * ms).toUInt32.toNat =
      min sampled 0xFFFFFFFF / 10 * ms.toNat % 2 ^ 32 := by
  rw [UInt64.toNat_toUInt32, UInt64.toNat_mul, calibrated]
  exact Nat.mod_mod_of_dvd _ (by decide)

/-- In every run of a processor, with any number of ticks between any two accesses to the APIC,
no access faults and the code of the kernel comes to its end.  While a thread runs in a slice of
`ms` milliseconds, the timer's interrupt comes exactly `ms` times a tenth of the ticks of the
calibration after the start of the countdown, modulo 2^32; but if this number of ticks has
passed before the timer was unmasked, no interrupt ever comes again. -/
theorem time_slices_end {lapic : Lapic} {apic : LocalApic} (initialised : Initialised lapic apic)
    {s : TimedCpu} (run : TimedRun (booting lapic apic) s) :
    s.mode ≠ .panicked ∧
      (∀ code, s.mode = .kernel code → ∃ s', TimedRun s s' ∧ s'.mode = .thread true) ∧
      (∀ a next, s.mode = .kernel (.access a next) → (s.apic.respond a).isSome = true) ∧
      ∀ interrupts count, s.mode = .thread interrupts →
        count = min s.apic.sampled 0xFFFFFFFF / 10 * s.slice.toNat % 2 ^ 32 →
        (s.apic.unmasked - s.apic.started < count → s.apic.inService = none ∧
          s.apic.requested =
            if count ≤ s.apic.time - s.apic.started then some 0x21 else none) ∧
        (count ≤ s.apic.unmasked - s.apic.started → ∀ s', TimedRun s s' →
          s'.apic.requested = none ∧ ∃ interrupts, s'.mode = .thread interrupts) := by
  have inv := initialised.booting.run run
  refine ⟨?_, fun _ => inv.leaves, ?_, ?_⟩
  · intro here
    rw [TimedInv, here] at inv
    exact inv
  · intro a next here
    rw [TimedInv, here] at inv
    exact inv.responds
  · intro interrupts count here isCount
    rw [TimedInv, here] at inv
    obtain ⟨lapic, _, sampled, calibrated, sliced⟩ := inv
    have ticks := slice_count calibrated s.slice
    rw [← sliced.isSampled, ← isCount] at ticks
    constructor
    · intro inTime
      refine ⟨sliced.inService, ?_⟩
      rw [sliced.requested, ticks]
      simp only [inTime, true_and]
    · intro late s' later
      have dead : Dead lapic.lapicType sampled s := by
        refine ⟨⟨interrupts, here⟩, sliced.toSteady, by decide, ?_, ?_⟩
        · apply UInt32.toNat_inj.mp
          rw [sliced.counted, ticks]
          have present := sliced.present
          change count - (s.apic.time - s.apic.started) = 0
          omega
        · rw [sliced.requested, ticks, if_neg (by omega)]
      exact ⟨(dead.run later).stopped.requested, (dead.run later).thread⟩

/-- An APIC after `lapic::new`. -/
def quietApic : LocalApic :=
  { mode := .x2apic
    regs := fun reg =>
      if reg = ia32LapicLvtTimer then 0x10000 else if reg = ia32LapicSpurious then 0x1FF else 0
    requested := none, inService := none, time := 0, started := 0, sampled := 0, unmasked := 0 }

/-- A tick, or the next access of the kernel or its return to the thread. -/
def TimedCpu.next (s : TimedCpu) (tick : Bool) : TimedCpu :=
  if tick then { s with apic := s.apic.tick }
  else
    match s.mode with
    | .kernel (.access a after) =>
        match s.apic.respond a with
        | some (answer, apic) => { s with apic := apic, mode := .kernel (after answer) }
        | none => s
    | .kernel (.ret lapic) => { s with lapic := some lapic, mode := .thread true }
    | _ => s

theorem TimedRun.next (run : TimedRun s s') (tick : Bool) : TimedRun s (s'.next tick) := by
  unfold TimedCpu.next
  split
  · exact run.tail (TimedStep.tick s')
  · split
    · rename_i here
      split
      · rename_i done
        exact run.tail (TimedStep.kernel here (Device.Step.access done))
      · exact run
    · rename_i here
      exact run.tail (TimedStep.leave here)
    · exact run

theorem TimedRun.play (run : TimedRun s s') (ticks : List Bool) :
    TimedRun s (ticks.foldl TimedCpu.next s') := by
  induction ticks generalizing s' with
  | nil => exact run
  | cons tick ticks inductionHypothesis => exact inductionHypothesis (run.next tick)

/-- Ten ticks during the calibration, and ten of the first slice of ten milliseconds. -/
def firstSlice : List Bool :=
  List.replicate 3 false ++ List.replicate 10 true ++ List.replicate 8 false ++
    List.replicate 10 true

/-- The interrupt at the end of the first slice. -/
theorem time_slices_end_booted :
    ∃ s, TimedRun (booting { ticksPerMs := 0, lapicType := .x2apic } quietApic) s ∧
      s.mode = .thread true ∧ s.apic.requested = some 0x21 := by
  have initialised : Initialised { ticksPerMs := 0, lapicType := .x2apic } quietApic :=
    ⟨⟨rfl, by decide, rfl, rfl⟩, by decide, rfl, rfl⟩
  have run := TimedRun.play (s := booting { ticksPerMs := 0, lapicType := .x2apic } quietApic)
    Relation.ReflTransGen.refl firstSlice
  obtain ⟨_, _, _, slices⟩ := time_slices_end initialised run
  refine ⟨_, run, rfl, ?_⟩
  rw [((slices true 10 rfl (by decide)).1 (by decide)).2]
  exact if_pos (by decide)

end NyauxKernel.X86
