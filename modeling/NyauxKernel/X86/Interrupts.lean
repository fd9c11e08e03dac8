/-
Interrupts as the code that is interrupted and the handlers see them.

Between the stub and `inter_return` a handler may change every register but the stack pointer
and the bases of GS, and it may put another context in the place of the frame; that is how
threads are switched.
-/

import NyauxKernel.X86.InterruptStubs
import Mathlib.Logic.Relation

namespace NyauxKernel.X86

open StackWords NyauxKernel.Scheduler

/-! ### One interrupt -/

/-- The stack is aligned to 16 bytes where the handler is called. -/
theorem frame_aligned (stack : UInt64) : ((stack &&& ~~~15) - 176) &&& 15 = 0 := by
  rw [← UInt64.toNat_inj, UInt64.toNat_and, UInt64.toNat_sub, UInt64.toNat_and]
  have rounded := BitFields.and_not_low_bits 4 stack.toNat_lt
  change stack.toNat &&& (~~~15 : UInt64).toNat = _ at rounded
  change (2 ^ 64 - 176 + (stack.toNat &&& (~~~15 : UInt64).toNat)) % 2 ^ 64 &&& 2 ^ 4 - 1 = 0
  rw [rounded, Nat.and_two_pow_sub_one_eq_mod]
  omega

/-- A handler that was called in the first state has come back in the second one. -/
structure Returned (entered handled : Cpu) : Prop where
  rsp : handled.rsp = entered.rsp
  privileged : Privileged handled.cs
  gsBase : handled.gsBase = entered.gsBase
  kernelGsBase : handled.kernelGsBase = entered.kernelGsBase

theorem Cpu.leave_context (cpu : Cpu) :
    let frame := frameAt cpu.words cpu.rsp
    cpu.leave.context frame.int frame.error = frame := by
  intro frame
  rw [Cpu.leave_eq]
  unfold Cpu.faceGs
  by_cases privileged : Privileged frame.cs
  · rw [if_pos privileged]
    rfl
  · rw [if_neg privileged]
    rfl

theorem Cpu.leave_words (cpu : Cpu) : cpu.leave.words = cpu.words := by
  rw [Cpu.leave_eq, Cpu.faceGs_words]

/-- The bases of GS are exchanged. -/
def Cpu.GsExchanged (before after : Cpu) : Prop :=
  after.gsBase = before.kernelGsBase ∧ after.kernelGsBase = before.gsBase

/-- The bases of GS are the same. -/
def Cpu.GsKept (before after : Cpu) : Prop :=
  after.gsBase = before.gsBase ∧ after.kernelGsBase = before.kernelGsBase

/-- For every state of the processor, vector and error code: the gate leads to the stub of the
vector; the handler gets the address of a context with the registers of the interrupted code,
on an aligned stack of which 22 words were written and nothing else; and the processor goes on
with the context that the handler leaves there, with the bases of GS exchanged if and only if
one of the two contexts is privileged and the other one is not. -/
theorem interrupts_save_and_restore (stub : UInt8 → UInt64) (tss : Tss) (cpu : Cpu)
    (vector : UInt8) (error : UInt64) (handled : Cpu)
    (returned : Returned (cpu.enter stub tss vector error) handled) :
    let gate := interruptGate (idtEntries stub vector).encoding
    let left := frameAt handled.words handled.rsp
    gate.present = true ∧ gate.offset = (stub vector).toNat ∧
      Entered cpu (cpu.interruptStack tss gate)
        (cpu.context vector.toUInt64 (frameError vector error))
        (cpu.enter stub tss vector error) ∧
      (cpu.enter stub tss vector error).rsp &&& 15 = 0 ∧
      handled.leave.context left.int left.error = left ∧ handled.leave.words = handled.words ∧
      ((Privileged cpu.cs ↔ Privileged left.cs) → cpu.GsKept handled.leave) ∧
      (¬(Privileged cpu.cs ↔ Privileged left.cs) → cpu.GsExchanged handled.leave) := by
  intro gate left
  have entered := cpu.enter_entered stub tss vector error
  have bases : handled.leave.gsBase =
      (if Privileged left.cs then handled.gsBase else handled.kernelGsBase) ∧
      handled.leave.kernelGsBase =
        if Privileged left.cs then handled.kernelGsBase else handled.gsBase := by
    rw [Cpu.leave_eq, Cpu.faceGs_gsBase, Cpu.faceGs_kernelGsBase]
    exact ⟨rfl, rfl⟩
  rw [returned.gsBase, returned.kernelGsBase, entered.gsBase, entered.kernelGsBase] at bases
  have decoded := idt_gate stub vector
  refine ⟨congrArg Gate.present decoded, congrArg Gate.offset decoded, entered, ?_,
    handled.leave_context, handled.leave_words, ?_, ?_⟩
  · rw [entered.position]
    exact frame_aligned _
  · intro same
    by_cases privileged : Privileged cpu.cs
    · rw [if_pos privileged, if_pos privileged, if_pos (same.mp privileged),
        if_pos (same.mp privileged)] at bases
      exact bases
    · rw [if_neg privileged, if_neg privileged, if_neg (mt same.mpr privileged),
        if_neg (mt same.mpr privileged)] at bases
      exact bases
  · intro differ
    by_cases privileged : Privileged cpu.cs
    · have user : ¬Privileged left.cs := fun other => differ (iff_of_true privileged other)
      rw [if_pos privileged, if_pos privileged, if_neg user, if_neg user] at bases
      exact bases
    · have kernel : Privileged left.cs := by
        by_contra user
        exact differ (iff_of_false privileged user)
      rw [if_neg privileged, if_neg privileged, if_pos kernel, if_pos kernel] at bases
      exact bases

/-- A processor in user mode, with the block of the kernel behind the other base of GS. -/
def userCpu : Cpu :=
  { reg := fun _ => 7, rip := 0x401000, cs := 0x23, rflags := 0x202, rsp := 0x7FFFF000
    ss := 0x1B, gsBase := 0x1000, kernelGsBase := 0xFFFF800000200000, zero := false
    words := fun _ => 0 }

theorem userCpu_level : ¬Privileged userCpu.cs := by
  decide

def sampleStubs (vector : UInt8) : UInt64 := 0xFFFFFFFF80001000 + 64 * vector.toUInt64

def sampleTss : Tss := { rsp0 := 0, ist := fun _ => 0xFFFF800000100000 }

/-- The timer interrupts user code, and a handler that changes nothing returns to it. -/
theorem interrupts_save_and_restore_user :
    let entered := userCpu.enter sampleStubs sampleTss 0x21 0
    entered.gsBase = userCpu.kernelGsBase ∧
      entered.leave.context 0x21 0 = userCpu.context 0x21 0 ∧
      userCpu.GsKept entered.leave := by
  intro entered
  have found := userCpu.enter_entered sampleStubs sampleTss 0x21 0
  have frame : frameAt entered.words entered.rsp = userCpu.context 0x21 0 := found.frame
  rcases interrupts_save_and_restore sampleStubs sampleTss userCpu 0x21 0 entered
      ⟨rfl, found.privileged, rfl, rfl⟩ with ⟨_, _, _, _, resumed, _, kept, _⟩
  rw [frame] at resumed kept
  refine ⟨?_, resumed, kept Iff.rfl⟩
  rw [found.gsBase, if_neg userCpu_level]

/-! ### Runs -/

/-- `idt_handler` returns for these vectors and panics for the others. -/
def idtHandlerReturns (vector : UInt8) : Bool := vector == 0xFF || vector == 0x21

/-- What the processor executes: code of its level, or what is left of a stub or of
`inter_return`, where `user` tells whether the code before it or after it is user code. -/
inductive Phase
  | running
  | stub (returning user : Bool) (left : List Instr) (skipped : Nat)

/-- Privileged instructions with the base of GS of user code: a stub has not exchanged the bases
yet, or `inter_return` has. -/
def Phase.Window : Phase → Prop
  | .running => False
  | .stub returning user left _ => user = true ∧ (.swapgs ∈ left ↔ returning = false)

structure CpuState where
  cpu : Cpu
  phase : Phase
  panicked : Bool

/-- The end of a stub or of `inter_return`. -/
def Cpu.finish (cpu : Cpu) (returning : Bool) : Cpu := if returning then cpu.iretq else cpu

/-- One instruction, or an interrupt outside the windows; the vectors from 32 on wait for the
interrupt flag.  Code does not leave its level, only user code may set the base of GS, and none
sets the other base.  A handler returns with the flag clear, as the gate leaves it, unless one
has panicked. -/
inductive CpuStep (stub : UInt8 → UInt64) : CpuState → CpuState → Prop
  | code {cpu cpu' : Cpu} {panicked : Bool} (level : Privileged cpu'.cs ↔ Privileged cpu.cs)
      (gsBase : Privileged cpu.cs → cpu'.gsBase = cpu.gsBase)
      (kernelGsBase : cpu'.kernelGsBase = cpu.kernelGsBase) :
      CpuStep stub ⟨cpu, .running, panicked⟩ ⟨cpu', .running, panicked⟩
  | interrupt {s : CpuState} (tss : Tss) (vector : UInt8) (error : UInt64)
      (unmasked : 32 ≤ vector → s.cpu.rflags &&& interruptFlag ≠ 0) (outside : ¬s.phase.Window) :
      CpuStep stub s
        ⟨s.cpu.deliver tss (interruptGate (idtEntries stub vector).encoding) vector error,
          .stub false (!decide (Privileged s.cpu.cs)) (interStub vector) 0,
          s.panicked || !idtHandlerReturns vector⟩
  | leave {cpu : Cpu} (privileged : Privileged cpu.cs)
      (disabled : cpu.rflags &&& interruptFlag = 0) :
      CpuStep stub ⟨cpu, .running, false⟩
        ⟨cpu, .stub true (!decide (Privileged (frameAt cpu.words cpu.rsp).cs)) interReturn 0, false⟩
  | instr {cpu : Cpu} {returning user panicked : Bool} (instr : Instr) (rest : List Instr) :
      CpuStep stub ⟨cpu, .stub returning user (instr :: rest) 0, panicked⟩
        ⟨instr.step cpu, .stub returning user rest (instr.skips cpu), panicked⟩
  | skip {cpu : Cpu} {returning user panicked : Bool} (instr : Instr) (rest : List Instr)
      (skipped : Nat) :
      CpuStep stub ⟨cpu, .stub returning user (instr :: rest) (skipped + 1), panicked⟩
        ⟨cpu, .stub returning user rest skipped, panicked⟩
  | finish {cpu : Cpu} {returning user panicked : Bool} {skipped : Nat} :
      CpuStep stub ⟨cpu, .stub returning user [] skipped, panicked⟩
        ⟨cpu.finish returning, .running, panicked⟩

/-- What is left of a stub can be executed. -/
theorem stub_runs (stub : UInt8 → UInt64) (cpu : Cpu) {returning user panicked : Bool}
    (left : List Instr) (skipped : Nat) :
    Relation.ReflTransGen (CpuStep stub) ⟨cpu, .stub returning user left skipped, panicked⟩
      ⟨(cpu.run left skipped).finish returning, .running, panicked⟩ := by
  induction left generalizing cpu skipped with
  | nil => exact Relation.ReflTransGen.single CpuStep.finish
  | cons instr rest inductionHypothesis =>
      cases skipped with
      | zero => exact (inductionHypothesis _ _).head (CpuStep.instr instr rest)
      | succ skipped => exact (inductionHypothesis _ _).head (CpuStep.skip instr rest skipped)

/-- The block of the processor, of which `get_cpu_local` reads the first word through GS, is
at hand for privileged code and kept for it while user code runs. -/
def Cpu.HasLocal (cpu : Cpu) (block : UInt64) : Prop :=
  if Privileged cpu.cs then cpu.gsBase = block else cpu.kernelGsBase = block

theorem Instr.step_cs (cpu : Cpu) (instr : Instr) : (instr.step cpu).cs = cpu.cs := by
  cases instr <;> rfl

theorem Instr.step_rflags (cpu : Cpu) (instr : Instr) :
    (instr.step cpu).rflags = cpu.rflags := by
  cases instr <;> rfl

theorem Instr.step_gsBase (cpu : Cpu) {instr : Instr} (other : instr ≠ .swapgs) :
    (instr.step cpu).gsBase = cpu.gsBase := by
  cases instr with
  | swapgs => exact absurd rfl other
  | _ => rfl

theorem Cpu.run_gsBase (cpu : Cpu) {left : List Instr} (absent : .swapgs ∉ left) (skipped : Nat) :
    (cpu.run left skipped).gsBase = cpu.gsBase := by
  induction left generalizing cpu skipped with
  | nil => rfl
  | cons instr rest inductionHypothesis =>
      rw [List.mem_cons, not_or] at absent
      cases skipped with
      | zero =>
          exact (inductionHypothesis (instr.step cpu) absent.2 _).trans
            (instr.step_gsBase cpu (Ne.symm absent.1))
      | succ skipped => exact inductionHypothesis cpu absent.2 skipped

theorem interStub_once (vector : UInt8) : (interStub vector).count .swapgs = 1 := by
  unfold interStub
  split <;> rfl

section Local

variable {stub : UInt8 → UInt64} {block : UInt64} {s s' : CpuState}

/-- Within a stub or `inter_return`: the bases are exchanged at most once more, and the block is
at hand where the code at the end expects it. -/
structure Midway (block : UInt64) (cpu : Cpu) (returning user : Bool) (left : List Instr)
    (skipped : Nat) : Prop where
  privileged : Privileged cpu.cs
  disabled : cpu.rflags &&& interruptFlag = 0
  once : left.count .swapgs ≤ 1
  before : .swapgs ∈ left → returning = true ∨ user = false → cpu.gsBase = block
  has : ((cpu.run left skipped).finish returning).HasLocal block
  level : returning = false ∨ user = false →
    Privileged ((cpu.run left skipped).finish returning).cs

theorem Midway.gsBase {cpu : Cpu} {returning user : Bool} {left : List Instr} {skipped : Nat}
    (midway : Midway block cpu returning user left skipped)
    (outside : ¬(Phase.stub returning user left skipped).Window) : cpu.gsBase = block := by
  by_cases pending : Instr.swapgs ∈ left
  · apply midway.before pending
    cases returning with
    | true => exact Or.inl rfl
    | false => exact Or.inr (Bool.eq_false_iff.mpr fun user => outside ⟨user, iff_of_true pending rfl⟩)
  · have privileged := midway.level (by
      cases returning with
      | false => exact Or.inl rfl
      | true =>
          refine Or.inr (Bool.eq_false_iff.mpr fun user => outside ⟨user, ?_⟩)
          exact iff_of_false pending (by decide))
    have has := midway.has
    rw [Cpu.HasLocal, if_pos privileged] at has
    rw [← cpu.run_gsBase pending skipped, ← has]
    cases returning with
    | false => rfl
    | true => rfl

def CpuState.Local (block : UInt64) (s : CpuState) : Prop :=
  match s.phase with
  | .running => s.cpu.HasLocal block
  | .stub returning user left skipped => Midway block s.cpu returning user left skipped

/-- The handler of an interrupt at this point finds the block, but for the windows. -/
theorem CpuState.Local.enter_iff (here : s.Local block) (stub : UInt8 → UInt64) (tss : Tss)
    (vector : UInt8) (error : UInt64) :
    (s.cpu.enter stub tss vector error).gsBase = block ↔ (s.phase.Window → s.cpu.gsBase = block) := by
  rw [(s.cpu.enter_entered stub tss vector error).gsBase]
  rcases s with ⟨cpu, phase, panicked⟩
  cases phase with
  | running => exact iff_of_true ((apply_ite (· = block) _ _ _).mpr here) False.elim
  | stub returning user left skipped =>
      have midway : Midway block cpu returning user left skipped := here
      rw [if_pos midway.privileged]
      constructor
      · exact fun found _ => found
      · intro found
        by_cases window : (Phase.stub returning user left skipped).Window
        · exact found window
        · exact midway.gsBase window

theorem CpuState.Local.interrupt (here : s.Local block) (tss : Tss) (vector : UInt8)
    (error : UInt64) (outside : ¬s.phase.Window) :
    Midway block (s.cpu.deliver tss (interruptGate (idtEntries stub vector).encoding) vector error)
      false (!decide (Privileged s.cpu.cs)) (interStub vector) 0 := by
  have entered := s.cpu.enter_entered stub tss vector error
  have found := (here.enter_iff stub tss vector error).mpr fun window => absurd window outside
  have selector : (interruptGate (idtEntries stub vector).encoding).selector = 8 := by
    rw [idt_gate]
  constructor
  case privileged =>
    simp only [Privileged, Cpu.deliver, Cpu.atHandler, selector]
    rfl
  case disabled =>
    simp only [Cpu.deliver, Cpu.atHandler, UInt64.and_assoc]
    exact UInt64.and_zero
  case once => exact Nat.le_of_eq (interStub_once vector)
  case before =>
    rintro _ (impossible | kernel)
    · cases impossible
    · rw [Bool.not_eq_false', decide_eq_true_iff] at kernel
      rwa [entered.gsBase, if_pos kernel] at found
  case has =>
    rw [Cpu.HasLocal]
    exact (if_pos entered.privileged).mpr found
  case level => exact fun _ => entered.privileged

theorem Cpu.HasLocal.leave {cpu : Cpu} (has : cpu.HasLocal block) (privileged : Privileged cpu.cs)
    (disabled : cpu.rflags &&& interruptFlag = 0) :
    Midway block cpu true (!decide (Privileged (frameAt cpu.words cpu.rsp).cs)) interReturn 0 := by
  rw [Cpu.HasLocal, if_pos privileged] at has
  constructor
  case privileged => exact privileged
  case disabled => exact disabled
  case once => decide
  case before => exact fun _ _ => has
  case has =>
    change cpu.leave.HasLocal block
    rw [Cpu.HasLocal, Cpu.leave_eq, Cpu.faceGs_cs, Cpu.faceGs_gsBase, Cpu.faceGs_kernelGsBase]
    split
    · exact has
    · exact has
  case level =>
    rintro (impossible | kernel)
    · cases impossible
    · change Privileged cpu.leave.cs
      rw [Bool.not_eq_false', decide_eq_true_iff] at kernel
      rwa [Cpu.leave_eq, Cpu.faceGs_cs]

theorem CpuState.Local.step (here : s.Local block) (step : CpuStep stub s s') : s'.Local block := by
  cases step with
  | code level gsBase kernelGsBase =>
      rename_i cpu cpu' _
      have has : cpu.HasLocal block := here
      change cpu'.HasLocal block
      unfold Cpu.HasLocal at has ⊢
      by_cases privileged : Privileged cpu.cs
      · rw [if_pos privileged] at has
        rw [if_pos (level.mpr privileged), gsBase privileged, has]
      · rw [if_neg privileged] at has
        rw [if_neg (mt level.mp privileged), kernelGsBase, has]
  | interrupt tss vector error _ outside => exact here.interrupt tss vector error outside
  | leave privileged disabled => exact Cpu.HasLocal.leave here privileged disabled
  | instr instr rest =>
      rename_i cpu returning user _
      have midway : Midway block cpu returning user (instr :: rest) 0 := here
      refine Midway.mk ?_ ?_ ?_ ?_ midway.has midway.level
      · rw [instr.step_cs]
        exact midway.privileged
      · rw [instr.step_rflags]
        exact midway.disabled
      · exact Nat.le_trans List.count_le_count_cons midway.once
      · intro pending kernel
        have other : instr ≠ .swapgs := by
          rintro rfl
          have once := midway.once
          rw [List.count_cons_self] at once
          have more := List.count_pos_iff.mpr pending
          omega
        rw [instr.step_gsBase cpu other]
        exact midway.before (List.mem_cons_of_mem instr pending) kernel
  | skip instr rest skipped =>
      rename_i cpu returning user _
      have midway : Midway block cpu returning user (instr :: rest) (skipped + 1) := here
      exact ⟨midway.privileged, midway.disabled, Nat.le_trans List.count_le_count_cons midway.once,
        fun pending => midway.before (List.mem_cons_of_mem instr pending), midway.has, midway.level⟩
  | finish => exact here.has

end Local

/-- Along every run, instruction by instruction, of code of either level, of interrupts and
exceptions at any point outside the two windows, also within handlers, and of returns to any
context: privileged code outside the stubs finds the block of its processor through GS; the
stubs and `inter_return` run with interrupts disabled, so that only exceptions arrive there; and
the handler of whatever arrives next finds the block, in a window only if it is the base of user
code. -/
theorem handlers_find_cpu_local (stub : UInt8 → UInt64) (block : UInt64) (start : Cpu)
    (s : CpuState) (has : start.HasLocal block)
    (run : Relation.ReflTransGen (CpuStep stub) ⟨start, .running, false⟩ s) :
    (s.phase = .running → Privileged s.cpu.cs → s.cpu.gsBase = block) ∧
    (s.phase ≠ .running → Privileged s.cpu.cs ∧ s.cpu.rflags &&& interruptFlag = 0) ∧
    ∀ tss vector error, (s.cpu.enter stub tss vector error).gsBase = block ↔
      (s.phase.Window → s.cpu.gsBase = block) := by
  have here : s.Local block := by
    induction run with
    | refl => exact has
    | tail _ step inductionHypothesis => exact inductionHypothesis.step step
  refine ⟨?_, ?_, here.enter_iff stub⟩
  · rcases s with ⟨cpu, phase, panicked⟩
    rintro rfl privileged
    have found : cpu.HasLocal block := here
    rwa [Cpu.HasLocal, if_pos privileged] at found
  · rcases s with ⟨cpu, phase, panicked⟩
    intro busy
    cases phase with
    | running => exact absurd rfl busy
    | stub returning user left skipped =>
        have midway : Midway block cpu returning user left skipped := here
        exact ⟨midway.privileged, midway.disabled⟩

/-- The timer interrupts user code.  A page fault in its handler finds the block; an NMI at the
first instruction of the stub does not. -/
theorem handlers_find_cpu_local_nested :
    let delivered := userCpu.deliver sampleTss
      (interruptGate (idtEntries sampleStubs 0x21).encoding) 0x21 0
    ((userCpu.enter sampleStubs sampleTss 0x21 0).enter sampleStubs sampleTss 0xE 2).gsBase =
        userCpu.kernelGsBase ∧
      (delivered.enter sampleStubs sampleTss 2 0).gsBase ≠ userCpu.kernelGsBase := by
  intro delivered
  have has : userCpu.HasLocal userCpu.kernelGsBase := by
    rw [Cpu.HasLocal, if_neg userCpu_level]
  have gate : CpuStep sampleStubs ⟨userCpu, .running, false⟩
      ⟨delivered, .stub false (!decide (Privileged userCpu.cs)) (interStub 0x21) 0,
        false || !idtHandlerReturns 0x21⟩ :=
    CpuStep.interrupt sampleTss 0x21 0 (fun _ => by decide) id
  constructor
  · have run := (stub_runs sampleStubs delivered (interStub 0x21) 0).head gate
    have handler : (delivered.run (interStub 0x21) 0).finish false =
        userCpu.enter sampleStubs sampleTss 0x21 0 := if_neg Bool.false_ne_true
    rw [handler] at run
    apply ((handlers_find_cpu_local sampleStubs _ userCpu _ has run).2.2 sampleTss 0xE 2).mpr
    exact False.elim
  · have run := Relation.ReflTransGen.single gate
    have iff := (handlers_find_cpu_local sampleStubs _ userCpu _ has run).2.2 sampleTss 2 0
    intro block
    have window : Phase.Window (.stub false (!decide (Privileged userCpu.cs)) (interStub 0x21) 0) := by
      rw [decide_eq_false userCpu_level]
      exact ⟨rfl, iff_of_true (by decide) rfl⟩
    have same : userCpu.gsBase = userCpu.kernelGsBase := iff.mp block window
    exact absurd same (by decide)

end NyauxKernel.X86
