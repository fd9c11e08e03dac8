/-
What `calibrate_timer` and `set_timer` do to the timer, whatever number of ticks passes between
their accesses.
-/

import NyauxKernel.X86.LocalApic

namespace NyauxKernel.X86

open DeviceCode

/-! ### Effects of an access and of a tick -/

namespace LocalApic

variable {apic : LocalApic} {reg val : UInt32}

theorem readReg_other (other : reg ≠ ia32LapicTimerCurCount) :
    apic.readReg reg = (apic.regs reg, apic) := by
  rw [readReg, if_neg other]

theorem writeReg_initCount :
    apic.writeReg ia32LapicTimerInitCount val =
      { apic with
        regs := Function.update (Function.update apic.regs ia32LapicTimerInitCount val)
          ia32LapicTimerCurCount val
        started := apic.time } := by
  rw [writeReg, if_neg (by decide), if_pos rfl]

theorem writeReg_lvtTimer (enabled : apic.softwareEnabled = true) :
    apic.writeReg ia32LapicLvtTimer val =
      { apic with
        regs := Function.update apic.regs ia32LapicLvtTimer val
        unmasked := if val &&& ia32LapicMaskMasked = 0 then apic.time else apic.unmasked } := by
  rw [writeReg, if_neg (by decide), if_neg (by decide), if_neg (by decide), if_pos rfl, enabled]
  rfl

theorem tick_regs (other : reg ≠ ia32LapicTimerCurCount) : apic.tick.regs reg = apic.regs reg :=
  Function.update_of_ne other _ _

theorem tick_count_eq : apic.tick.regs ia32LapicTimerCurCount = apic.nextCount := by
  change Function.update apic.regs ia32LapicTimerCurCount apic.nextCount
    ia32LapicTimerCurCount = _
  rw [Function.update_self]

/-- In one-shot mode the timer counts down to zero and stays there. -/
theorem tick_count (oneShot : apic.regs ia32LapicLvtTimer &&& 0x20000 = 0) :
    (apic.tick.regs ia32LapicTimerCurCount).toNat =
      (apic.regs ia32LapicTimerCurCount).toNat - 1 := by
  rw [tick_count_eq, nextCount]
  split
  · rename_i zero
    rw [zero]
    rfl
  · rename_i nonzero
    have positive : (1 : UInt32) ≤ apic.regs ia32LapicTimerCurCount := by
      rw [UInt32.le_iff_toNat_le]
      exact Nat.one_le_iff_ne_zero.mpr fun zero => nonzero (UInt32.toNat_inj.mp zero)
    rw [if_neg (fun periodic => periodic.2 oneShot), UInt32.toNat_sub_of_le _ _ positive]
    rfl

theorem tick_requested_of_not_expires (stays : apic.expires = false) :
    apic.tick.requested = apic.requested := by
  change (if apic.expires then _ else apic.requested) = apic.requested
  rw [stays]
  rfl

end LocalApic

/-! ### States of the timer -/

/-- The registers of the timer apart from its count, and the ticks of the calibration. -/
structure Steady (mode : LapicType) (sampled : Nat) (lvt : UInt32) (apic : LocalApic) : Prop where
  inMode : apic.mode = mode
  softwareEnabled : apic.softwareEnabled = true
  vector : apic.regs ia32LapicLvtTimer = lvt
  isSampled : apic.sampled = sampled

/-- The timer is masked, and nothing of it is left. -/
structure Masked (mode : LapicType) (sampled : Nat) (lvt : UInt32) (apic : LocalApic) : Prop
    extends Steady mode sampled lvt apic where
  isMasked : lvt &&& ia32LapicMaskMasked ≠ 0
  requested : apic.requested = none
  inService : apic.inService = none

/-- The masked timer counts down. -/
structure Counting (mode : LapicType) (sampled : Nat) (count : UInt32) (apic : LocalApic) : Prop
    extends Masked mode sampled 0x10021 apic where
  counted : (apic.regs ia32LapicTimerCurCount).toNat = count.toNat - (apic.time - apic.started)
  since : apic.started ≤ apic.time

/-- The timer does not count. -/
structure Stopped (mode : LapicType) (sampled : Nat) (lvt : UInt32) (apic : LocalApic) : Prop
    extends Steady mode sampled lvt apic where
  isTimer : lvt ||| ia32LapicMaskMasked = 0x10021
  counted : apic.regs ia32LapicTimerCurCount = 0
  requested : apic.requested = none

/-- The timer can be set. -/
structure Idle (mode : LapicType) (sampled : Nat) (lvt : UInt32) (apic : LocalApic) : Prop
    extends Stopped mode sampled lvt apic where
  inService : apic.inService = none

/-- A time slice of `count` ticks: the countdown has been started and then the timer unmasked,
and the interrupt comes at the end of the countdown if this is after the unmasking. -/
structure Sliced (mode : LapicType) (sampled : Nat) (count : UInt32) (apic : LocalApic) : Prop
    extends Steady mode sampled 0x21 apic where
  inService : apic.inService = none
  counted : (apic.regs ia32LapicTimerCurCount).toNat = count.toNat - (apic.time - apic.started)
  since : apic.started ≤ apic.unmasked
  present : apic.unmasked ≤ apic.time
  requested : apic.requested =
    if apic.unmasked - apic.started < count.toNat ∧ count.toNat ≤ apic.time - apic.started then
      some 0x21
    else none

section Ticks

variable {mode : LapicType} {sampled : Nat} {lvt count : UInt32} {apic : LocalApic}

theorem Steady.tick (steady : Steady mode sampled lvt apic) :
    Steady mode sampled lvt apic.tick where
  inMode := steady.inMode
  softwareEnabled := by
    rw [LocalApic.softwareEnabled, LocalApic.tick_regs (by decide)]
    exact steady.softwareEnabled
  vector := (LocalApic.tick_regs (by decide)).trans steady.vector
  isSampled := steady.isSampled

theorem Masked.tick (masked : Masked mode sampled lvt apic) : Masked mode sampled lvt apic.tick where
  toSteady := masked.toSteady.tick
  isMasked := masked.isMasked
  requested := by
    rw [LocalApic.tick_requested_of_not_expires]
    · exact masked.requested
    · rw [LocalApic.expires, masked.vector, beq_eq_false_iff_ne.mpr masked.isMasked, Bool.and_false,
        Bool.false_and]
  inService := masked.inService

theorem Counting.tick (counting : Counting mode sampled count apic) :
    Counting mode sampled count apic.tick where
  toMasked := counting.toMasked.tick
  counted := by
    rw [LocalApic.tick_count (by rw [counting.vector]; decide), counting.counted]
    have since := counting.since
    change _ = count.toNat - (apic.time + 1 - apic.started)
    omega
  since := Nat.le_succ_of_le counting.since

theorem Stopped.tick (stopped : Stopped mode sampled lvt apic) :
    Stopped mode sampled lvt apic.tick where
  toSteady := stopped.toSteady.tick
  isTimer := stopped.isTimer
  counted := by
    rw [LocalApic.tick_count_eq, LocalApic.nextCount, stopped.counted]
    rfl
  requested := by
    rw [LocalApic.tick_requested_of_not_expires]
    · exact stopped.requested
    · rw [LocalApic.expires, stopped.counted]
      rfl

/-- The countdown of a slice ends once. -/
theorem Sliced.tick (sliced : Sliced mode sampled count apic) :
    Sliced mode sampled count apic.tick where
  toSteady := sliced.toSteady.tick
  inService := sliced.inService
  counted := by
    rw [LocalApic.tick_count (by rw [sliced.vector]; decide), sliced.counted]
    have since := sliced.since
    have present := sliced.present
    change _ = count.toNat - (apic.time + 1 - apic.started)
    omega
  since := sliced.since
  present := Nat.le_succ_of_le sliced.present
  requested := by
    have since := sliced.since
    have present := sliced.present
    have counted := sliced.counted
    change (if apic.expires then some (apic.regs ia32LapicLvtTimer).toUInt8 else apic.requested) =
      if apic.unmasked - apic.started < count.toNat ∧
        count.toNat ≤ apic.time + 1 - apic.started then some 0x21 else none
    by_cases last : apic.regs ia32LapicTimerCurCount = 1
    · have expires : apic.expires = true := by
        rw [LocalApic.expires, last, sliced.vector, sliced.softwareEnabled]
        decide
      rw [last] at counted
      change 1 = _ at counted
      rw [expires, if_pos rfl, if_pos (by omega), sliced.vector]
      rfl
    · have stays : apic.expires = false := by
        rw [LocalApic.expires, beq_eq_false_iff_ne.mpr last, Bool.false_and, Bool.false_and]
      have other : (apic.regs ia32LapicTimerCurCount).toNat ≠ 1 := fun isOne =>
        last (UInt32.toNat_inj.mp isOne)
      rw [stays, if_neg Bool.false_ne_true, sliced.requested]
      by_cases due : apic.unmasked - apic.started < count.toNat ∧
          count.toNat ≤ apic.time - apic.started
      · rw [if_pos due, if_pos (by omega)]
      · rw [if_neg due, if_neg (by omega)]

theorem Masked.stable : localApic.Stable (Masked mode sampled lvt) :=
  stable_iff.mpr fun _ => Masked.tick

theorem Counting.stable : localApic.Stable (Counting mode sampled count) :=
  stable_iff.mpr fun _ => Counting.tick

theorem Stopped.stable : localApic.Stable (Stopped mode sampled lvt) :=
  stable_iff.mpr fun _ => Stopped.tick

theorem Idle.stable : localApic.Stable (Idle mode sampled lvt) :=
  stable_iff.mpr fun _ idle => ⟨idle.toStopped.tick, idle.inService⟩

theorem Sliced.stable : localApic.Stable (Sliced mode sampled count) :=
  stable_iff.mpr fun _ => Sliced.tick

/-! ### Effects of the driver -/

theorem Steady.lvtTimer (steady : Steady mode sampled lvt apic) (val : UInt32) :
    Steady mode sampled val (apic.writeReg ia32LapicLvtTimer val) := by
  rw [LocalApic.writeReg_lvtTimer steady.softwareEnabled]
  refine ⟨steady.inMode, ?_, ?_, steady.isSampled⟩
  · rw [LocalApic.softwareEnabled]
    dsimp only
    rw [Function.update_of_ne (by decide)]
    exact steady.softwareEnabled
  · dsimp only
    rw [Function.update_self]

theorem Masked.lvtTimer (masked : Masked mode sampled lvt apic) {val : UInt32}
    (isMasked : val &&& ia32LapicMaskMasked ≠ 0) :
    Masked mode sampled val (apic.writeReg ia32LapicLvtTimer val) := by
  refine ⟨masked.toSteady.lvtTimer val, isMasked, ?_, ?_⟩
  · rw [LocalApic.writeReg_lvtTimer masked.softwareEnabled]
    exact masked.requested
  · rw [LocalApic.writeReg_lvtTimer masked.softwareEnabled]
    exact masked.inService

theorem Masked.initCount (masked : Masked mode sampled 0x10021 apic) (val : UInt32) :
    Counting mode sampled val (apic.writeReg ia32LapicTimerInitCount val) := by
  rw [LocalApic.writeReg_initCount]
  refine ⟨⟨⟨masked.inMode, ?_, ?_, masked.isSampled⟩, masked.isMasked, masked.requested,
    masked.inService⟩, ?_, Nat.le_refl _⟩
  · rw [LocalApic.softwareEnabled]
    dsimp only
    rw [Function.update_of_ne (by decide), Function.update_of_ne (by decide)]
    exact masked.softwareEnabled
  · dsimp only
    rw [Function.update_of_ne (by decide), Function.update_of_ne (by decide)]
    exact masked.vector
  · dsimp only
    rw [Function.update_self, Nat.sub_self, Nat.sub_zero]

theorem Masked.divider (masked : Masked mode sampled lvt apic) (val : UInt32) :
    Masked mode sampled lvt (apic.writeReg ia32LapicTimerDiv val) := by
  rw [LocalApic.writeReg, if_neg (by decide), if_neg (by decide), if_neg (by decide),
    if_neg (by decide)]
  refine ⟨⟨masked.inMode, ?_, ?_, masked.isSampled⟩, masked.isMasked, masked.requested,
    masked.inService⟩
  · rw [LocalApic.softwareEnabled]
    dsimp only
    rw [Function.update_of_ne (by decide)]
    exact masked.softwareEnabled
  · dsimp only
    rw [Function.update_of_ne (by decide)]
    exact masked.vector

theorem Counting.stop (counting : Counting mode sampled 0 apic) : Idle mode sampled 0x10021 apic := by
  refine ⟨⟨counting.toSteady, by decide, ?_, counting.requested⟩, counting.inService⟩
  apply UInt32.toNat_inj.mp
  rw [counting.counted]
  exact Nat.zero_sub _

theorem Idle.mask (idle : Idle mode sampled lvt apic) :
    Masked mode sampled 0x10021 (apic.writeReg ia32LapicLvtTimer 0x10021) := by
  refine ⟨idle.toSteady.lvtTimer _, by decide, ?_, ?_⟩
  · rw [LocalApic.writeReg_lvtTimer idle.softwareEnabled]
    exact idle.requested
  · rw [LocalApic.writeReg_lvtTimer idle.softwareEnabled]
    exact idle.inService

/-- The slice begins with the time that has passed since the start of the countdown. -/
theorem Counting.unmask (counting : Counting mode sampled count apic) :
    Sliced mode sampled count (apic.writeReg ia32LapicLvtTimer 0x21) := by
  have steady := counting.toSteady.lvtTimer 0x21
  rw [LocalApic.writeReg_lvtTimer counting.softwareEnabled] at steady ⊢
  refine ⟨steady, counting.inService, ?_, counting.since, Nat.le_refl _, ?_⟩
  · dsimp only
    rw [Function.update_of_ne (by decide)]
    exact counting.counted
  · change apic.requested = if apic.time - apic.started < count.toNat ∧
      count.toNat ≤ apic.time - apic.started then some 0x21 else none
    rw [counting.requested, if_neg (by omega)]

end Ticks

/-! ### The driver -/

section Driver

variable {lapic : Lapic} {sampled : Nat} {lvt : UInt32} {apic : LocalApic}

/-- The ticks of a millisecond are a tenth of those of the calibration. -/
def Calibrated (lapic : Lapic) (sampled : Nat) : Prop :=
  lapic.ticksPerMs.toNat = min sampled 0xFFFFFFFF / 10

theorem calibrated_of_count {cur : UInt32} (counted : cur.toNat = 0xFFFFFFFF - sampled) :
    Calibrated { lapic with ticksPerMs := ((0xFFFFFFFF - cur) / 10).toUInt64 } sampled := by
  have below : cur ≤ 0xFFFFFFFF := by
    rw [UInt32.le_iff_toNat_le, counted]
    exact Nat.sub_le _ _
  change ((0xFFFFFFFF - cur) / 10).toUInt64.toNat = _
  rw [UInt32.toNat_toUInt64, UInt32.toNat_div, UInt32.toNat_sub_of_le _ _ below, counted]
  change (0xFFFFFFFF - (0xFFFFFFFF - sampled)) / 10 = _
  congr 1
  omega

theorem setCount_ensures (masked : Masked lapic.lapicType sampled 0x10021 apic) (count : UInt32) :
    localApic.Ensures (lapic.write ia32LapicTimerInitCount count)
      (fun _ => Counting lapic.lapicType sampled count) apic :=
  Lapic.write_ensures Masked.stable Counting.stable masked rfl (fun _ masked => masked.inMode)
    fun _ masked => masked.initCount count

/-- The count that is read tells the ticks since the start. -/
theorem readCount_ensures (counting : Counting lapic.lapicType sampled 0xFFFFFFFF apic) :
    localApic.Ensures (lapic.read ia32LapicTimerCurCount)
      (fun cur apic => ∃ polled, cur.toNat = 0xFFFFFFFF - polled ∧
        Masked lapic.lapicType polled 0x10021 apic) apic := by
  apply Lapic.read_ensures Counting.stable
    (fun _ => stable_iff.mpr fun _ read => read.imp fun _ both => ⟨both.1, both.2.tick⟩)
    counting rfl (fun _ counting => counting.inMode)
  intro apic' counting'
  exact ⟨apic'.time - apic'.started, counting'.counted,
    ⟨counting'.inMode, counting'.softwareEnabled, counting'.vector, rfl⟩, counting'.isMasked,
    counting'.requested, counting'.inService⟩

theorem calibrateTimer_ensures (masked : Masked lapic.lapicType sampled lvt apic) :
    localApic.Ensures lapic.calibrateTimer
      (fun lapic apic => ∃ sampled, Calibrated lapic sampled ∧
        Idle lapic.lapicType sampled 0x10021 apic) apic := by
  apply Device.Ensures.seq
    (Lapic.write_ensures Masked.stable Masked.stable masked rfl (fun _ masked => masked.inMode)
      fun _ masked => masked.lvtTimer (by decide))
  intro _ apic masked
  apply Device.Ensures.seq
    (Lapic.write_ensures Masked.stable Masked.stable masked rfl (fun _ masked => masked.inMode)
      fun _ masked => masked.divider 0xb)
  intro _ apic masked
  apply Device.Ensures.seq (setCount_ensures masked 0xFFFFFFFF)
  intro _ apic counting
  apply Device.Ensures.seq (readCount_ensures counting)
  rintro cur apic ⟨sampled, counted, masked⟩
  apply Device.Ensures.seq (setCount_ensures masked 0)
  intro _ apic counting
  apply Device.Ensures.ret
  · exact stable_iff.mpr fun apic both => both.imp fun sampled both =>
      ⟨both.1, stable_iff.mp Idle.stable apic both.2⟩
  · exact ⟨sampled, calibrated_of_count counted, counting.stop⟩

/-- A read of the timer's vector register, in a state that says what it holds. -/
theorem readLvt_ensures {P : LocalApic → Prop} (stable : localApic.Stable P) (holds : P apic)
    (steady : ∀ apic, P apic → Steady lapic.lapicType sampled lvt apic) :
    localApic.Ensures (lapic.read ia32LapicLvtTimer) (fun value apic => value = lvt ∧ P apic)
      apic := by
  apply Lapic.read_ensures stable
    (fun _ => stable_iff.mpr fun apic both => ⟨both.1, stable_iff.mp stable apic both.2⟩)
    holds rfl (fun apic holds => (steady apic holds).inMode)
  intro apic holds
  rw [LocalApic.readReg_other (by decide)]
  exact ⟨(steady apic holds).vector, holds⟩

theorem disableTimer_ensures (idle : Idle lapic.lapicType sampled lvt apic) :
    localApic.Ensures lapic.disableTimer (fun _ => Masked lapic.lapicType sampled 0x10021)
      apic := by
  apply Device.Ensures.seq (readLvt_ensures Idle.stable idle fun _ idle => idle.toSteady)
  rintro value apic ⟨rfl, idle⟩
  rw [idle.isTimer]
  exact Lapic.write_ensures Idle.stable Masked.stable idle rfl (fun _ idle => idle.inMode)
    fun _ idle => idle.mask

theorem enableTimer_ensures {count : UInt32}
    (counting : Counting lapic.lapicType sampled count apic) :
    localApic.Ensures lapic.enableTimer (fun _ => Sliced lapic.lapicType sampled count) apic := by
  apply Device.Ensures.seq
    (readLvt_ensures Counting.stable counting fun _ counting => counting.toSteady)
  rintro value apic ⟨rfl, counting⟩
  exact Lapic.write_ensures Counting.stable Sliced.stable counting rfl
    (fun _ counting => counting.inMode) fun _ counting => counting.unmask

/-- `set_timer` begins a slice. -/
theorem setTimer_ensures (idle : Idle lapic.lapicType sampled lvt apic) (ms : UInt64) :
    localApic.Ensures (lapic.setTimer ms)
      (fun _ => Sliced lapic.lapicType sampled (lapic.ticksPerMs * ms).toUInt32) apic := by
  apply Device.Ensures.seq (disableTimer_ensures idle)
  intro _ apic masked
  apply Device.Ensures.seq (setCount_ensures masked _)
  intro _ apic counting
  exact enableTimer_ensures counting

theorem sendEoi_ensures (stopped : Stopped lapic.lapicType sampled lvt apic) :
    localApic.Ensures lapic.sendEoi (fun _ => Idle lapic.lapicType sampled lvt) apic :=
  Lapic.write_ensures Stopped.stable Idle.stable stopped rfl (fun _ stopped => stopped.inMode)
    fun _ stopped => ⟨⟨⟨stopped.inMode, stopped.softwareEnabled, stopped.vector, stopped.isSampled⟩,
      stopped.isTimer, stopped.counted, stopped.requested⟩, rfl⟩

end Driver

end NyauxKernel.X86
