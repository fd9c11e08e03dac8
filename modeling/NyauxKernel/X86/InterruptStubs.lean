/-
The entry and the return of interrupts: the stubs, `inter_return` and the table of
`idt/mod.rs`.

The processor pushes five words, and for some exceptions an error code, on an aligned stack.
The stub of the vector makes an `x86_64Context` of them: it pushes a zero where there is no
error code, the vector and the registers.  `inter_return` pops them again.  Both look at the
saved code segment to see whether the other base of GS has to be put in place.  Memory is the
words at the addresses that a multiple of eight bytes separates from the stack pointer.
-/

import NyauxKernel.Library.StackWords
import NyauxKernel.Scheduler.Threads
import NyauxKernel.X86.Descriptors

namespace NyauxKernel.X86

open StackWords NyauxKernel.Scheduler

/-! ### The processor -/

/-- The registers that the stubs save one by one. -/
inductive Reg
  | rax | rbx | rcx | rdx | rbp | rdi | rsi | r8 | r9 | r10 | r11 | r12 | r13 | r14 | r15
deriving DecidableEq, Repr

/-- `zero` is the flag that a test leaves for a jump; no code reads the others. -/
structure Cpu where
  reg : Reg → UInt64
  rip : UInt64
  cs : UInt64
  rflags : UInt64
  rsp : UInt64
  ss : UInt64
  gsBase : UInt64
  kernelGsBase : UInt64
  zero : Bool
  words : UInt64 → UInt64

/-- The instructions of the stubs.  A jump leaves out as many instructions as it says. -/
inductive Instr
  | pushImm (value : UInt64)
  | push (reg : Reg)
  | pop (reg : Reg)
  | testByte (offset : UInt64) (mask : UInt8)
  | jz (skipped : Nat)
  | swapgs
  | addRsp (amount : UInt64)
  | movRsp (reg : Reg)
deriving DecidableEq

def Cpu.pushAll (cpu : Cpu) (values : List UInt64) : Cpu :=
  { cpu with
    words := (StackWords.pushAll cpu.words cpu.rsp values).1
    rsp := (StackWords.pushAll cpu.words cpu.rsp values).2 }

def Instr.step (cpu : Cpu) : Instr → Cpu
  | .pushImm value => cpu.pushAll [value]
  | .push reg => cpu.pushAll [cpu.reg reg]
  | .pop reg =>
      { cpu with reg := Function.update cpu.reg reg (cpu.words cpu.rsp), rsp := cpu.rsp + 8 }
  | .testByte offset mask =>
      { cpu with zero := (cpu.words (cpu.rsp + offset)).toUInt8 &&& mask == 0 }
  | .jz _ => cpu
  | .swapgs => { cpu with gsBase := cpu.kernelGsBase, kernelGsBase := cpu.gsBase }
  | .addRsp amount => { cpu with rsp := cpu.rsp + amount }
  | .movRsp reg => { cpu with reg := Function.update cpu.reg reg cpu.rsp }

/-- The instructions to leave out after this one. -/
def Instr.skips (cpu : Cpu) : Instr → Nat
  | .jz skipped => if cpu.zero then skipped else 0
  | _ => 0

def Cpu.run (cpu : Cpu) : List Instr → Nat → Cpu
  | [], _ => cpu
  | _ :: rest, skipped + 1 => cpu.run rest skipped
  | instr :: rest, 0 => (instr.step cpu).run rest (instr.skips cpu)

/-- The stack pointers in `tss`. -/
structure Tss where
  rsp0 : UInt64
  ist : Nat → UInt64

/-- The exceptions for which the processor pushes an error code. -/
def errorCodes : List UInt8 := [8, 10, 11, 12, 13, 14, 17, 21, 29, 30]

/-- Code of this segment runs with privileges. -/
def Privileged (cs : UInt64) : Prop := cs &&& 3 = 0

instance (cs : UInt64) : Decidable (Privileged cs) := inferInstanceAs (Decidable (_ = _))

/-- The stack for an interrupt: the one that the gate names, that of the privileged level if
the level changes, or the current one. -/
def Cpu.interruptStack (cpu : Cpu) (tss : Tss) (gate : Gate) : UInt64 :=
  (if gate.ist ≠ 0 then tss.ist gate.ist
    else if Privileged cpu.cs then cpu.rsp else tss.rsp0) &&& ~~~15

/-- The interrupt flag. -/
def interruptFlag : UInt64 := 0x200

/-- The segment, the flags and the place of the handler. -/
def Cpu.atHandler (cpu : Cpu) (gate : Gate) : Cpu :=
  { cpu with
    rip := UInt64.ofNat gate.offset
    cs := UInt64.ofNat gate.selector
    rflags := cpu.rflags &&& ~~~interruptFlag
    ss := if Privileged cpu.cs then cpu.ss else 0 }

def Cpu.deliver (cpu : Cpu) (tss : Tss) (gate : Gate) (vector : UInt8) (error : UInt64) : Cpu :=
  let onStack := { cpu with rsp := cpu.interruptStack tss gate }
  (onStack.pushAll ([cpu.ss, cpu.rsp, cpu.rflags, cpu.cs, cpu.rip] ++
    if vector ∈ errorCodes then [error] else [])).atHandler gate

def Cpu.iretq (cpu : Cpu) : Cpu :=
  { cpu with
    rip := cpu.words cpu.rsp
    cs := cpu.words (cpu.rsp + 8)
    rflags := cpu.words (cpu.rsp + 16)
    rsp := cpu.words (cpu.rsp + 24)
    ss := cpu.words (cpu.rsp + 32) }

/-! ### The code -/

def interruptGateType : UInt8 := 0xE

/-- `IDT` after `idt_init`; `stub` are the addresses of the stubs. -/
def idtEntries (stub : UInt8 → UInt64) (vector : UInt8) : GateDesc :=
  let entry := GateDesc.new (stub vector) kernelcode.toUInt16 0 interruptGateType 0
  if vector = 0x21 then { entry with ist := 1 } else entry

/-- The registers in the order in which the stubs push them. -/
def savedRegs : List Reg :=
  [.rax, .rbx, .rcx, .rdx, .rbp, .rdi, .rsi, .r8, .r9, .r10, .r11, .r12, .r13, .r14, .r15]

/-- `inter_stub` up to the call of the handler. -/
def interStub (vector : UInt8) : List Instr :=
  (if vector == 8 || (vector ≥ 10 && vector ≤ 14) || vector == 17 || vector == 21 ||
      vector == 29 || vector == 30 then []
    else [.pushImm 0]) ++
  [.testByte 16 0x3, .jz 1, .swapgs, .pushImm vector.toUInt64] ++
  savedRegs.map .push ++ [.movRsp .rdi]

/-- `inter_return` up to the `iretq`. -/
def interReturn : List Instr :=
  savedRegs.reverse.map .pop ++ [.addRsp 16, .testByte 8 0x3, .jz 1, .swapgs]

/-- An interrupt up to the call of `idt_handler`. -/
def Cpu.enter (cpu : Cpu) (stub : UInt8 → UInt64) (tss : Tss) (vector : UInt8) (error : UInt64) :
    Cpu :=
  (cpu.deliver tss (interruptGate (idtEntries stub vector).encoding) vector error).run
    (interStub vector) 0

/-- What follows the call. -/
def Cpu.leave (cpu : Cpu) : Cpu :=
  (cpu.run interReturn 0).iretq

/-! ### The frame -/

/-- `x86_64Context` in memory. -/
def frameAt (words : UInt64 → UInt64) (address : UInt64) : X8664Context :=
  { r15 := words address, r14 := words (address + 8), r13 := words (address + 16)
    r12 := words (address + 24), r11 := words (address + 32), r10 := words (address + 40)
    r9 := words (address + 48), r8 := words (address + 56), rsi := words (address + 64)
    rdi := words (address + 72), rbp := words (address + 80), rdx := words (address + 88)
    rcx := words (address + 96), rbx := words (address + 104), rax := words (address + 112)
    int := words (address + 120), error := words (address + 128), rip := words (address + 136)
    cs := words (address + 144), rflags := words (address + 152), rsp := words (address + 160)
    ss := words (address + 168) }

/-- The words of a context, upwards. -/
def contextWords (frame : X8664Context) : List UInt64 :=
  [frame.r15, frame.r14, frame.r13, frame.r12, frame.r11, frame.r10, frame.r9, frame.r8,
    frame.rsi, frame.rdi, frame.rbp, frame.rdx, frame.rcx, frame.rbx, frame.rax, frame.int,
    frame.error, frame.rip, frame.cs, frame.rflags, frame.rsp, frame.ss]

def contextReg (frame : X8664Context) : Reg → UInt64
  | .rax => frame.rax | .rbx => frame.rbx | .rcx => frame.rcx | .rdx => frame.rdx
  | .rbp => frame.rbp | .rdi => frame.rdi | .rsi => frame.rsi | .r8 => frame.r8
  | .r9 => frame.r9 | .r10 => frame.r10 | .r11 => frame.r11 | .r12 => frame.r12
  | .r13 => frame.r13 | .r14 => frame.r14 | .r15 => frame.r15

/-- The registers of the processor as a context of this vector and error code. -/
def Cpu.context (cpu : Cpu) (int error : UInt64) : X8664Context :=
  { r15 := cpu.reg .r15, r14 := cpu.reg .r14, r13 := cpu.reg .r13, r12 := cpu.reg .r12
    r11 := cpu.reg .r11, r10 := cpu.reg .r10, r9 := cpu.reg .r9, r8 := cpu.reg .r8
    rsi := cpu.reg .rsi, rdi := cpu.reg .rdi, rbp := cpu.reg .rbp, rdx := cpu.reg .rdx
    rcx := cpu.reg .rcx, rbx := cpu.reg .rbx, rax := cpu.reg .rax
    int := int, error := error, rip := cpu.rip, cs := cpu.cs, rflags := cpu.rflags
    rsp := cpu.rsp, ss := cpu.ss }

/-- The error code in the frame. -/
def frameError (vector : UInt8) (error : UInt64) : UInt64 :=
  if vector ∈ errorCodes then error else 0

theorem frameAt_of_holds {words : UInt64 → UInt64} {address : UInt64} {frame : X8664Context}
    (holds : Holds words address (contextWords frame)) : frameAt words address = frame := by
  simp only [contextWords, Holds, UInt64.add_assoc, UInt64.reduceAdd] at holds
  simp only [frameAt, holds]

theorem frameAt_holds (words : UInt64 → UInt64) (address : UInt64) :
    Holds words address (contextWords (frameAt words address)) := by
  simp only [contextWords, Holds, frameAt, UInt64.add_assoc, UInt64.reduceAdd, and_self]

/-! ### Blocks of instructions -/

theorem Cpu.pushAll_pushAll (cpu : Cpu) (values more : List UInt64) :
    (cpu.pushAll values).pushAll more = cpu.pushAll (values ++ more) := by
  simp only [Cpu.pushAll, pushAll_append]

theorem Cpu.pushAll_nil (cpu : Cpu) : cpu.pushAll [] = cpu := by
  simp only [Cpu.pushAll, StackWords.pushAll_nil]

theorem Cpu.pushAll_atHandler (cpu : Cpu) (gate : Gate) (values : List UInt64) :
    (cpu.atHandler gate).pushAll values = (cpu.pushAll values).atHandler gate := rfl

theorem Cpu.run_nil (cpu : Cpu) : cpu.run [] 0 = cpu := rfl

theorem Cpu.run_pushImm (cpu : Cpu) (value : UInt64) (rest : List Instr) :
    cpu.run (.pushImm value :: rest) 0 = (cpu.pushAll [value]).run rest 0 := rfl

theorem Cpu.run_addRsp (cpu : Cpu) (amount : UInt64) (rest : List Instr) :
    cpu.run (.addRsp amount :: rest) 0 = { cpu with rsp := cpu.rsp + amount : Cpu }.run rest 0 := rfl

theorem Cpu.run_pushes (cpu : Cpu) (regs : List Reg) (rest : List Instr) :
    cpu.run (regs.map .push ++ rest) 0 = (cpu.pushAll (regs.map cpu.reg)).run rest 0 := by
  induction regs generalizing cpu with
  | nil =>
      change cpu.run rest 0 = (cpu.pushAll []).run rest 0
      rw [Cpu.pushAll_nil]
  | cons reg regs inductionHypothesis =>
      change (cpu.pushAll [cpu.reg reg]).run (regs.map .push ++ rest) 0 = _
      rw [inductionHypothesis, Cpu.pushAll_pushAll]
      rfl

/-- The registers with these values. -/
def assign (reg : Reg → UInt64) : List Reg → List UInt64 → Reg → UInt64
  | name :: regs, value :: values => assign (Function.update reg name value) regs values
  | _, _ => reg

theorem Cpu.run_pops (cpu : Cpu) (regs : List Reg) {values : List UInt64} (rest : List Instr)
    (lengths : regs.length = values.length) (holds : Holds cpu.words cpu.rsp values) :
    cpu.run (regs.map .pop ++ rest) 0 =
      { cpu with
        reg := assign cpu.reg regs values
        rsp := cpu.rsp + 8 * UInt64.ofNat values.length : Cpu }.run rest 0 := by
  induction regs generalizing cpu values with
  | nil =>
      cases values with
      | nil =>
          change cpu.run rest 0 = { cpu with rsp := cpu.rsp + 0 : Cpu }.run rest 0
          rw [UInt64.add_zero]
      | cons value values => cases lengths
  | cons reg regs inductionHypothesis =>
      cases values with
      | nil => cases lengths
      | cons value values =>
          rcases holds with ⟨here, later⟩
          change { cpu with
              reg := Function.update cpu.reg reg (cpu.words cpu.rsp)
              rsp := cpu.rsp + 8 : Cpu }.run (regs.map .pop ++ rest) 0 = _
          rw [here, inductionHypothesis _ (Nat.succ.inj lengths) later]
          simp only [slot_succ]
          rfl

/-- The base of GS for the handler, and for the code that is returned to. -/
def Cpu.faceGs (cpu : Cpu) (cs : UInt64) : Cpu :=
  if Privileged cs then { cpu with zero := true }
  else { cpu with zero := false, gsBase := cpu.kernelGsBase, kernelGsBase := cpu.gsBase }

theorem byte_test (cs : UInt64) : (cs.toUInt8 &&& 3 == 0) = decide (Privileged cs) := by
  rw [Bool.eq_iff_iff, beq_iff_eq, decide_eq_true_iff, Privileged, ← UInt8.toNat_inj,
    ← UInt64.toNat_inj, UInt8.toNat_and, UInt64.toNat_and, UInt64.toNat_toUInt8]
  change cs.toNat % 256 &&& 2 ^ 2 - 1 = 0 ↔ cs.toNat &&& 2 ^ 2 - 1 = 0
  rw [Nat.and_two_pow_sub_one_eq_mod, Nat.and_two_pow_sub_one_eq_mod]
  omega

theorem Cpu.run_faceGs (cpu : Cpu) (offset : UInt64) (rest : List Instr) :
    cpu.run (.testByte offset 0x3 :: .jz 1 :: .swapgs :: rest) 0 =
      (cpu.faceGs (cpu.words (cpu.rsp + offset))).run rest 0 := by
  change ({ cpu with zero := (cpu.words (cpu.rsp + offset)).toUInt8 &&& 3 == 0 } : Cpu).run
    (.jz 1 :: .swapgs :: rest) 0 = _
  rw [byte_test, Cpu.faceGs]
  by_cases privileged : Privileged (cpu.words (cpu.rsp + offset))
  · rw [if_pos privileged, decide_eq_true privileged]
    rfl
  · rw [if_neg privileged, decide_eq_false privileged]
    rfl

section FaceGs

variable (cpu : Cpu) (cs : UInt64)

@[simp] theorem Cpu.faceGs_reg : (cpu.faceGs cs).reg = cpu.reg := by
  unfold Cpu.faceGs
  split <;> rfl

@[simp] theorem Cpu.faceGs_words : (cpu.faceGs cs).words = cpu.words := by
  unfold Cpu.faceGs
  split <;> rfl

@[simp] theorem Cpu.faceGs_rsp : (cpu.faceGs cs).rsp = cpu.rsp := by
  unfold Cpu.faceGs
  split <;> rfl

@[simp] theorem Cpu.faceGs_cs : (cpu.faceGs cs).cs = cpu.cs := by
  unfold Cpu.faceGs
  split <;> rfl

@[simp] theorem Cpu.faceGs_rflags : (cpu.faceGs cs).rflags = cpu.rflags := by
  unfold Cpu.faceGs
  split <;> rfl

@[simp] theorem Cpu.faceGs_gsBase :
    (cpu.faceGs cs).gsBase = if Privileged cs then cpu.gsBase else cpu.kernelGsBase := by
  unfold Cpu.faceGs
  split <;> rfl

@[simp] theorem Cpu.faceGs_kernelGsBase :
    (cpu.faceGs cs).kernelGsBase = if Privileged cs then cpu.kernelGsBase else cpu.gsBase := by
  unfold Cpu.faceGs
  split <;> rfl

end FaceGs

/-! ### The entry -/

/-- The test in the stubs is for the exceptions with an error code. -/
theorem stub_test (vector : UInt8) :
    (vector == 8 || (vector ≥ 10 && vector ≤ 14) || vector == 17 || vector == 21 ||
      vector == 29 || vector == 30) = decide (vector ∈ errorCodes) := by
  rw [Bool.eq_iff_iff]
  simp only [Bool.or_eq_true, beq_iff_eq, Bool.and_eq_true, decide_eq_true_iff, errorCodes,
    List.mem_cons, List.not_mem_nil, or_false, ← UInt8.toNat_inj, ge_iff_le,
    UInt8.le_iff_toNat_le, UInt8.toNat_ofNat]
  omega

/-- The processor with the six words of an interrupt on the stack. -/
def Cpu.interrupted (cpu : Cpu) (tss : Tss) (gate : Gate) (error : UInt64) : Cpu :=
  (({ cpu with rsp := cpu.interruptStack tss gate } : Cpu).pushAll
    [cpu.ss, cpu.rsp, cpu.rflags, cpu.cs, cpu.rip, error]).atHandler gate

/-- With or without an error code, six words are on the stack at the test of the segment. -/
theorem Cpu.run_interStub (cpu : Cpu) (tss : Tss) (gate : Gate) (vector : UInt8) (error : UInt64) :
    (cpu.deliver tss gate vector error).run (interStub vector) 0 =
      (cpu.interrupted tss gate (frameError vector error)).run
        ([.testByte 16 0x3, .jz 1, .swapgs, .pushImm vector.toUInt64] ++
          savedRegs.map .push ++ [.movRsp .rdi]) 0 := by
  unfold interStub
  rw [stub_test]
  by_cases coded : vector ∈ errorCodes
  · rw [decide_eq_true coded, Cpu.deliver, frameError, if_pos coded, if_pos coded]
    rfl
  · rw [decide_eq_false coded, Cpu.deliver, frameError, if_neg coded, if_neg coded,
      List.append_nil]
    rw [if_neg Bool.false_ne_true, List.append_assoc, List.append_assoc, List.singleton_append,
      Cpu.run_pushImm, Cpu.pushAll_atHandler, Cpu.pushAll_pushAll]
    rfl

theorem Cpu.interrupted_cs (cpu : Cpu) (tss : Tss) (gate : Gate) (error : UInt64) :
    (cpu.interrupted tss gate error).words ((cpu.interrupted tss gate error).rsp + 16) = cpu.cs := by
  have six : [cpu.ss, cpu.rsp, cpu.rflags, cpu.cs, cpu.rip, error].length +
      ([] : List UInt64).length < 2 ^ 60 := by
    simp
  have holds : Holds (cpu.interrupted tss gate error).words (cpu.interrupted tss gate error).rsp
      [error, cpu.rip, cpu.cs, cpu.rflags, cpu.rsp, cpu.ss] :=
    holds_pushAll trivial six
  rcases holds with ⟨_, _, third, _⟩
  rw [UInt64.add_assoc] at third
  exact third

/-- The end of the stub: the vector and the registers are pushed, and the handler gets the
address. -/
def Cpu.saveRegs (cpu : Cpu) (vector : UInt8) : Cpu :=
  let saved := cpu.pushAll (vector.toUInt64 :: savedRegs.map cpu.reg)
  { saved with reg := Function.update cpu.reg .rdi saved.rsp }

theorem Cpu.run_saveRegs (cpu : Cpu) (vector : UInt8) :
    cpu.run (.pushImm vector.toUInt64 :: (savedRegs.map .push ++ [.movRsp .rdi])) 0 =
      cpu.saveRegs vector := by
  rw [Cpu.run_pushImm, Cpu.run_pushes, Cpu.pushAll_pushAll]
  rfl

theorem Cpu.enter_eq (cpu : Cpu) (stub : UInt8 → UInt64) (tss : Tss) (vector : UInt8)
    (error : UInt64) :
    cpu.enter stub tss vector error =
      ((cpu.interrupted tss (interruptGate (idtEntries stub vector).encoding)
        (frameError vector error)).faceGs cpu.cs).saveRegs vector := by
  rw [Cpu.enter, Cpu.run_interStub]
  generalize interruptGate (idtEntries stub vector).encoding = gate
  change (cpu.interrupted tss gate (frameError vector error)).run (.testByte 16 0x3 :: .jz 1 ::
    .swapgs :: .pushImm vector.toUInt64 :: (savedRegs.map .push ++ [.movRsp .rdi])) 0 = _
  rw [Cpu.run_faceGs, Cpu.interrupted_cs, Cpu.run_saveRegs]

/-- The words of an entry are those of the context of the interrupted code. -/
theorem Cpu.saved_words (cpu : Cpu) (tss : Tss) (gate : Gate) (vector : UInt8) (error : UInt64) :
    let entered := ((cpu.interrupted tss gate error).faceGs cpu.cs).saveRegs vector
    (entered.words, entered.rsp) = StackWords.pushAll cpu.words (cpu.interruptStack tss gate)
      (contextWords (cpu.context vector.toUInt64 error)).reverse := by
  intro entered
  have pushed : (contextWords (cpu.context vector.toUInt64 error)).reverse =
      [cpu.ss, cpu.rsp, cpu.rflags, cpu.cs, cpu.rip, error] ++
        vector.toUInt64 :: savedRegs.map cpu.reg := rfl
  rw [pushed, pushAll_append]
  simp only [entered, Cpu.saveRegs, Cpu.pushAll, Cpu.faceGs_words, Cpu.faceGs_rsp,
    Cpu.faceGs_reg]
  rfl

/-- The gates lead to the stubs of their vectors, and the timer has a stack of its own. -/
theorem idt_gate (stub : UInt8 → UInt64) (vector : UInt8) :
    interruptGate (idtEntries stub vector).encoding =
      { offset := (stub vector).toNat
        selector := 8
        ist := if vector = 0x21 then 1 else 0
        gateType := 0xE
        dpl := 0
        present := true } := by
  unfold idtEntries
  by_cases timer : vector = 0x21
  · rw [if_pos timer, if_pos timer]
    exact gate_decodes (stub vector) kernelcode.toUInt16 (by decide) (by decide)
      (show (1 : UInt8) < 8 by decide)
  · rw [if_neg timer, if_neg timer]
    exact gate_decodes (stub vector) kernelcode.toUInt16 (by decide) (by decide)
      (show (0 : UInt8) < 8 by decide)

/-- What the handler of an interrupt finds. -/
structure Entered (cpu : Cpu) (top : UInt64) (frame : X8664Context) (entered : Cpu) : Prop where
  frame : frameAt entered.words entered.rsp = frame
  argument : entered.reg .rdi = entered.rsp
  position : entered.rsp = top - 176
  privileged : Privileged entered.cs
  disabled : entered.rflags &&& interruptFlag = 0
  gsBase : entered.gsBase = if Privileged cpu.cs then cpu.gsBase else cpu.kernelGsBase
  kernelGsBase : entered.kernelGsBase =
    if Privileged cpu.cs then cpu.kernelGsBase else cpu.gsBase
  kept : ∀ address, (∀ index < 22, address ≠ top - 8 * UInt64.ofNat (index + 1)) →
    entered.words address = cpu.words address

theorem Cpu.enter_entered (cpu : Cpu) (stub : UInt8 → UInt64) (tss : Tss) (vector : UInt8)
    (error : UInt64) :
    Entered cpu (cpu.interruptStack tss (interruptGate (idtEntries stub vector).encoding))
      (cpu.context vector.toUInt64 (frameError vector error))
      (cpu.enter stub tss vector error) := by
  have selector : (interruptGate (idtEntries stub vector).encoding).selector = 8 := by
    rw [idt_gate]
  rw [Cpu.enter_eq]
  generalize interruptGate (idtEntries stub vector).encoding = gate at selector ⊢
  generalize frameError vector error = code
  have saved := cpu.saved_words tss gate vector code
  generalize contextLengths : contextWords (cpu.context vector.toUInt64 code) = values at saved
  have length : values.reverse.length = 22 := by
    rw [← contextLengths]
    rfl
  have words := congrArg Prod.fst saved
  have rsp := congrArg Prod.snd saved
  dsimp only at words rsp
  constructor
  case frame =>
    apply frameAt_of_holds
    rw [words, rsp, contextLengths]
    have holds := holds_pushAll (show Holds cpu.words (cpu.interruptStack tss gate) [] from trivial)
      (show values.reverse.length + ([] : List UInt64).length < 2 ^ 60 by
        rw [length]
        decide)
    rw [List.reverse_reverse, List.append_nil] at holds
    exact holds
  case argument => simp only [Cpu.saveRegs, Function.update_self]
  case position =>
    rw [rsp, pushAll_top, length]
    rfl
  case privileged =>
    rw [Privileged]
    simp only [Cpu.saveRegs, Cpu.pushAll, Cpu.faceGs_cs, Cpu.interrupted, Cpu.atHandler, selector]
    rfl
  case disabled =>
    simp only [Cpu.saveRegs, Cpu.pushAll, Cpu.faceGs_rflags, Cpu.interrupted, Cpu.atHandler]
    rw [UInt64.and_assoc]
    exact UInt64.and_zero
  case gsBase => simp only [Cpu.saveRegs, Cpu.pushAll, Cpu.faceGs_gsBase, Cpu.interrupted, Cpu.atHandler]
  case kernelGsBase =>
    simp only [Cpu.saveRegs, Cpu.pushAll, Cpu.faceGs_kernelGsBase, Cpu.interrupted, Cpu.atHandler]
  case kept =>
    intro address outside
    rw [words]
    apply pushAll_keeps
    rw [length]
    exact outside

/-! ### The return -/

/-- The registers that the pops load are those of the context. -/
theorem assign_context (reg : Reg → UInt64) (frame : X8664Context) :
    assign reg savedRegs.reverse ((contextWords frame).take 15) = contextReg frame := by
  funext name
  cases name <;> rfl

/-- The processor goes on with the context that is at its stack pointer. -/
theorem Cpu.leave_eq (cpu : Cpu) :
    let frame := frameAt cpu.words cpu.rsp
    cpu.leave =
      ({ cpu with
          reg := contextReg frame
          rip := frame.rip
          cs := frame.cs
          rflags := frame.rflags
          rsp := frame.rsp
          ss := frame.ss } : Cpu).faceGs frame.cs := by
  intro frame
  have holds : Holds cpu.words cpu.rsp ((contextWords frame).take 15) := by
    have whole := frameAt_holds cpu.words cpu.rsp
    rw [← List.take_append_drop 15 (contextWords (frameAt cpu.words cpu.rsp)), holds_append] at whole
    exact whole.1
  have fifteen : 8 * UInt64.ofNat ((contextWords frame).take 15).length = 120 := rfl
  have segment : cpu.words (cpu.rsp + 136 + 8) = frame.cs := by
    rw [UInt64.add_assoc]
    rfl
  rw [Cpu.leave, interReturn, Cpu.run_pops cpu _ _ rfl holds, assign_context, fifteen,
    Cpu.run_addRsp, Cpu.run_faceGs, Cpu.run_nil]
  dsimp only
  rw [UInt64.add_assoc cpu.rsp 120 16, show (120 : UInt64) + 16 = 136 from rfl, segment]
  unfold Cpu.faceGs
  by_cases privileged : Privileged frame.cs
  · rw [if_pos privileged, if_pos privileged]
    simp only [Cpu.iretq, UInt64.add_assoc, UInt64.reduceAdd]
    rfl
  · rw [if_neg privileged, if_neg privileged]
    simp only [Cpu.iretq, UInt64.add_assoc, UInt64.reduceAdd]
    rfl

end NyauxKernel.X86
