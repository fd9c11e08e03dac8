/-
The bytes of a regular ramfs file over runs of `write` and `read`.

The calls are those whose offset and length do not overflow.  A write panics if the file
would grow beyond `isize::MAX` bytes; up to there, growing the vector is taken to succeed.
-/

import NyauxKernel.Vfs.Ramfs
import NyauxKernel.Library.Folds
import NyauxKernel.Library.Overwrite

namespace NyauxKernel.Vfs

open ExceptFold ZeroExtended

inductive FileOp
  | write (buf : List UInt8) (offset : Nat) (fits : offset + buf.length < addressSpace)
  | read (buf : List UInt8) (offset : Nat) (fits : offset + buf.length < addressSpace)

/-- The file after a call. -/
def Vops.afterCall (file : Vops) : FileOp → Except String Vops
  | .write buf offset _ => (file.write buf offset).map Prod.snd
  | .read _ _ _ => .ok file

/-- The calls that a vector has room for. -/
def FileOp.Bounded : FileOp → Prop
  | .write buf offset _ => offset + buf.length ≤ isizeMax
  | .read _ _ _ => True

def FileOp.written : FileOp → Option (Write UInt8)
  | .write buf offset _ => some { offset := offset, data := buf }
  | .read _ _ _ => none

/-- The writes of some calls, the latest first. -/
def history (ops : List FileOp) : List (Write UInt8) := (ops.filterMap FileOp.written).reverse

/-- What a call on a file with the bytes `content` returns and changes. -/
def FileOp.Exact (content : List UInt8) : FileOp → Prop
  | .write buf offset _ =>
      ∃ content' : List UInt8,
        (Vops.ramfsfile content).write buf offset =
          .ok ((buf.length : Int), .ramfsfile content') ∧
        ∀ i, ¬(offset ≤ i ∧ i < offset + buf.length) →
          (i < content.length → content'[i]? = content[i]?) ∧
          (content.length ≤ i → i < content'.length → content'[i]? = some 0)
  | .read buf offset _ =>
      ∃ out : List UInt8, (Vops.ramfsfile content).read buf offset =
          (((min buf.length (content.length - offset) : Nat) : Int), out) ∧
        out.length = buf.length ∧
        (∀ i < min buf.length (content.length - offset), out[i]? = content[offset + i]?) ∧
        ∀ i ≥ min buf.length (content.length - offset), out[i]? = buf[i]?

/-! ### One call -/

variable {amount offset : Nat} {content : List UInt8} {writes : List (Write UInt8)}

theorem writeEnd_ok (small : offset + amount ≤ isizeMax) :
    writeEnd offset amount = .ok (offset + amount) := by
  have inside : offset + amount < addressSpace := Nat.lt_of_le_of_lt small (by decide)
  rw [writeEnd, Nat.mod_eq_of_lt inside, if_neg (Nat.not_lt.mpr small), if_neg (not_not.mpr rfl)]

theorem writeEnd_error (large : ¬offset + amount ≤ isizeMax) :
    ∃ message, writeEnd offset amount = .error message := by
  rw [writeEnd]
  split
  · exact ⟨_, rfl⟩
  · split
    · exact ⟨_, rfl⟩
    · omega

theorem write_eq (content buf : List UInt8) (small : offset + buf.length ≤ isizeMax) :
    (Vops.ramfsfile content).write buf offset =
      .ok ((buf.length : Int),
        .ramfsfile (overwrite 0 content { offset := offset, data := buf })) := by
  rw [Vops.write, writeEnd_ok small]
  rfl

theorem write_error (content buf : List UInt8) (large : ¬offset + buf.length ≤ isizeMax) :
    ∃ message, (Vops.ramfsfile content).write buf offset = .error message := by
  rcases writeEnd_error large with ⟨message, panics⟩
  refine ⟨message, ?_⟩
  rw [Vops.write, panics]
  rfl

theorem write_exact_iff (content buf : List UInt8) (offset : Nat)
    (fits : offset + buf.length < addressSpace) :
    (FileOp.write buf offset fits).Exact content ↔ (FileOp.write buf offset fits).Bounded := by
  by_cases small : offset + buf.length ≤ isizeMax
  · refine iff_of_true ⟨_, write_eq content buf small, ?_⟩ small
    intro i outside
    rw [overwrite_getElem?, overwrite_length]
    have uncovered : ¬(offset ≤ i ∧ i < Write.stop { offset := offset, data := buf }) := outside
    rw [if_neg uncovered]
    constructor
    · intro old
      rw [if_pos old]
    · intro behind below
      rw [if_neg (Nat.not_lt.mpr behind), if_pos (by omega)]
  · refine iff_of_false ?_ small
    rintro ⟨content', returns, _⟩
    rcases write_error content buf small with ⟨message, panics⟩
    rw [panics] at returns
    contradiction

theorem read_exact (content buf : List UInt8) (offset : Nat)
    (fits : offset + buf.length < addressSpace) : (FileOp.read buf offset fits).Exact content := by
  by_cases behind : offset ≥ content.length
  · have none : min buf.length (content.length - offset) = 0 := by omega
    have returned : (Vops.ramfsfile content).read buf offset = (0, buf) := if_pos behind
    refine ⟨buf, ?_, rfl, ?_, ?_⟩
    · rw [returned, none]
      rfl
    · intro i below
      omega
    · exact fun _ _ => rfl
  · generalize amount : min buf.length (content.length - offset) = count
    have delivered : ((content.drop offset).take count).length = count := by
      rw [List.length_take, List.length_drop]
      omega
    have returned : (Vops.ramfsfile content).read buf offset =
        ((count : Int), (content.drop offset).take count ++ buf.drop count) := by
      rw [Vops.read, if_neg behind, amount]
    refine ⟨_, by rw [returned, amount], ?_, ?_, ?_⟩
    · rw [List.length_append, delivered, List.length_drop]
      omega
    · intro i below
      rw [amount] at below
      rw [List.getElem?_append_left (by omega), List.getElem?_take_of_lt below,
        List.getElem?_drop]
    · intro i above
      rw [amount] at above
      rw [List.getElem?_append_right (by omega), List.getElem?_drop, delivered]
      congr 1
      omega

/-! ### Runs -/

theorem afterCall_holds (holds : Holds 0 content writes) {op : FileOp} (bounded : op.Bounded) :
    ∃ content', (Vops.ramfsfile content).afterCall op = .ok (.ramfsfile content') ∧
      Holds 0 content' (op.written.toList ++ writes) := by
  cases op with
  | write buf offset fits =>
      refine ⟨_, ?_, holds.overwrite { offset := offset, data := buf }⟩
      rw [Vops.afterCall, write_eq content buf bounded]
      rfl
  | read buf offset fits => exact ⟨content, rfl, holds⟩

theorem history_cons (op : FileOp) (ops : List FileOp) :
    history (op :: ops) = history ops ++ op.written.toList := by
  unfold history
  cases written : op.written with
  | none => simp [written]
  | some write => simp [written]

theorem run_holds (holds : Holds 0 content writes) (ops : List FileOp)
    (bounded : ∀ op ∈ ops, op.Bounded) :
    ∃ content', ops.foldlM Vops.afterCall (.ramfsfile content) = .ok (.ramfsfile content') ∧
      Holds 0 content' (history ops ++ writes) := by
  induction ops generalizing content writes with
  | nil => exact ⟨content, rfl, holds⟩
  | cons op ops inductionHypothesis =>
      rcases afterCall_holds holds (bounded op List.mem_cons_self) with ⟨next, after, holdsNext⟩
      rcases inductionHypothesis holdsNext fun other member =>
        bounded other (List.mem_cons_of_mem op member) with ⟨content', reached, holds'⟩
      refine ⟨content', ?_, ?_⟩
      · rw [foldlM_cons_eq after]
        exact reached
      · rw [history_cons, List.append_assoc]
        exact holds'

end NyauxKernel.Vfs
