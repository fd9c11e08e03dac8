/-
The bits of page table entries, as arithmetic.

An entry for a table is its frame plus the three flag bits that `get_table` sets;
an entry of a last level table is the frame of a page and its flags, which occupy
different bits.
-/

import NyauxKernel.Memory.PageTable

namespace NyauxKernel.Memory

/-- A frame that an entry can hold. -/
structure FrameOk (frame : Nat) : Prop where
  aligned : frame % pageSize = 0
  bounded : frame < 2 ^ 52

/-! ### Masks -/

theorem tableFrame_eq {entry : Nat} (inside : entry < addressSpace) :
    tableFrame entry = entry / 2 ^ 12 * 2 ^ 12 % 2 ^ 63 := by
  have low : (0xFFF : Nat) = 2 ^ 12 - 1 := by decide
  have high : (addressSpace - 1) ^^^ 2 ^ 63 = 2 ^ 63 - 1 := by decide
  rw [tableFrame, low, and_not_low entry 12 inside, high, Nat.and_two_pow_sub_one_eq_mod]

theorem extractPhysFromPte_eq (pte : Nat) :
    extractPhysFromPte pte = pte % 2 ^ 52 / 2 ^ 12 * 2 ^ 12 := by
  have split : physMask = (2 ^ 52 - 1) &&& ((addressSpace - 1) ^^^ (2 ^ 12 - 1)) := by decide
  have small : pte % 2 ^ 52 < addressSpace :=
    lt_trans (Nat.mod_lt pte (by decide)) (by decide)
  rw [extractPhysFromPte, split, ← Nat.and_assoc, Nat.and_two_pow_sub_one_eq_mod,
    and_not_low _ 12 small]

theorem FrameOk.tableFrame {frame : Nat} (ok : FrameOk frame) : tableFrame frame = frame := by
  obtain ⟨aligned, bounded⟩ := ok
  unfold pageSize at aligned
  rw [tableFrame_eq (by unfold addressSpace; omega)]
  omega

theorem FrameOk.extractPhys {frame : Nat} (ok : FrameOk frame) :
    extractPhysFromPte frame = frame := by
  obtain ⟨aligned, bounded⟩ := ok
  unfold pageSize at aligned
  rw [extractPhysFromPte_eq]
  omega

theorem extractPhysFromPte_ok (pte : Nat) : FrameOk (extractPhysFromPte pte) := by
  rw [extractPhysFromPte_eq]
  constructor
  · unfold pageSize
    omega
  · omega

/-! ### Entries of tables -/

/-- The entry for a table, or for none. -/
def tableEntry : Option Nat → Nat
  | none => 0
  | some frame => frame + tableFlags

theorem tableEntry_some (frame : Nat) : tableEntry (some frame) = frame + 7 := rfl

namespace FrameOk

variable {frame : Nat}

theorem or_tableFlags (ok : FrameOk frame) : frame ||| tableFlags = tableEntry (some frame) := by
  obtain ⟨high, rfl⟩ : ∃ high, frame = 2 ^ 12 * high :=
    ⟨frame / 4096, by have := ok.aligned; unfold pageSize at this; omega⟩
  exact (Nat.two_pow_add_eq_or_of_lt (by decide : tableFlags < 2 ^ 12) high).symm

theorem tableFrame_entry (ok : FrameOk frame) :
    Memory.tableFrame (tableEntry (some frame)) = frame := by
  obtain ⟨aligned, bounded⟩ := ok
  unfold pageSize at aligned
  rw [tableEntry_some, tableFrame_eq (by unfold addressSpace; omega)]
  omega

theorem extractPhys_entry (ok : FrameOk frame) :
    extractPhysFromPte (tableEntry (some frame)) = frame := by
  obtain ⟨aligned, bounded⟩ := ok
  unfold pageSize at aligned
  rw [tableEntry_some, extractPhysFromPte_eq]
  omega

/-- Of the bits that are tested, a table's entry has the lowest three. -/
theorem testBit_entry (ok : FrameOk frame) :
    (tableEntry (some frame)).testBit 0 = true ∧ (tableEntry (some frame)).testBit 1 = true ∧
      (tableEntry (some frame)).testBit 2 = true ∧ (tableEntry (some frame)).testBit 7 = false ∧
      (tableEntry (some frame)).testBit 63 = false := by
  obtain ⟨aligned, bounded⟩ := ok
  unfold pageSize at aligned
  rw [tableEntry_some]
  simp only [Nat.testBit_eq_decide_div_mod_eq, decide_eq_true_eq, decide_eq_false_iff_not]
  omega

end FrameOk

/-- The entries for tables are never taken for large pages. -/
theorem not_large (child : Option Nat) (ok : ∀ frame, child = some frame → FrameOk frame)
    (level : Nat) :
    (PT.new (tableEntry child) level).megapage = false ∧
      (PT.new (tableEntry child) level).gigapage = false := by
  have clear : (tableEntry child).testBit 7 = false := by
    cases child with
    | none => rfl
    | some frame => exact (ok frame rfl).testBit_entry.2.2.2.1
  unfold PT.new
  split
  · simp [clear, PT.empty]
  · simp [clear, PT.empty]
  · simp [PT.empty]
  · simp [PT.empty]

/-! ### Entries of pages -/

theorem testBit_flagBit (flag : Bool) (bit place : Nat) :
    (flagBit flag bit).testBit place = (flag && decide (bit = place)) := by
  cases flag with
  | false => simp [flagBit]
  | true => simp [flagBit, Nat.testBit_two_pow]

theorem flagBit_and {bit mask : Nat} (flag : Bool) (clear : mask.testBit bit = false) :
    flagBit flag bit &&& mask = 0 := by
  apply Nat.eq_of_testBit_eq
  intro place
  rw [Nat.testBit_and, testBit_flagBit, Nat.zero_testBit]
  by_cases same : bit = place
  · rw [← same, clear, Bool.and_false]
  · simp [same]

theorem flagBit_and_self {bit mask : Nat} (flag : Bool) (set : mask.testBit bit = true) :
    flagBit flag bit &&& mask = flagBit flag bit := by
  apply Nat.eq_of_testBit_eq
  intro place
  rw [Nat.testBit_and, testBit_flagBit]
  by_cases same : bit = place
  · rw [← same, set, Bool.and_true]
  · simp [same]

/-- The flags of a page are outside the bits of its frame. -/
theorem buildPermissions_and_physMask (flags : PT) : flags.buildPermissions 1 &&& physMask = 0 := by
  simp only [PT.buildPermissions, Nat.and_or_distrib_right]
  rw [flagBit_and _ (by decide), flagBit_and _ (by decide), flagBit_and _ (by decide),
    flagBit_and _ (by decide), flagBit_and _ (by decide), flagBit_and _ (by decide),
    flagBit_and _ (by decide), flagBit_and _ (by decide)]
  rfl

theorem buildPermissions_and_flagMask (flags : PT) :
    flags.buildPermissions 1 &&& ((addressSpace - 1) ^^^ physMask) = flags.buildPermissions 1 := by
  simp only [PT.buildPermissions, Nat.and_or_distrib_right]
  rw [flagBit_and_self _ (by decide), flagBit_and_self _ (by decide),
    flagBit_and_self _ (by decide), flagBit_and_self _ (by decide),
    flagBit_and_self _ (by decide), flagBit_and_self _ (by decide),
    flagBit_and_self _ (by decide), flagBit_and_self _ (by decide)]

/-- The entry that `map4kib` writes. -/
def pageEntry (phys : Nat) (flags : PT) : Nat :=
  extractPhysFromPte phys ||| flags.buildPermissions 1

theorem extractPhys_pageEntry (phys : Nat) (flags : PT) :
    extractPhysFromPte (pageEntry phys flags) = extractPhysFromPte phys := by
  rw [extractPhysFromPte, pageEntry, Nat.and_or_distrib_right, buildPermissions_and_physMask,
    Nat.or_zero]
  exact (extractPhysFromPte_ok phys).extractPhys

theorem flags_pageEntry (phys : Nat) (flags : PT) :
    pageEntry phys flags &&& ((addressSpace - 1) ^^^ physMask) = flags.buildPermissions 1 := by
  have disjoint : physMask &&& ((addressSpace - 1) ^^^ physMask) = 0 := by decide
  rw [pageEntry, Nat.and_or_distrib_right, buildPermissions_and_flagMask, extractPhysFromPte,
    Nat.and_assoc, disjoint, Nat.and_zero, Nat.zero_or]

/-- The bits of an entry that the hardware tests are those of the flags. -/
theorem testBit_pageEntry (phys : Nat) (flags : PT) :
    (pageEntry phys flags).testBit 0 = flags.present ∧
      (pageEntry phys flags).testBit 1 = flags.write ∧
      (pageEntry phys flags).testBit 2 = flags.user ∧
      (pageEntry phys flags).testBit 63 = flags.nexec := by
  have clear0 : physMask.testBit 0 = false := by decide
  have clear1 : physMask.testBit 1 = false := by decide
  have clear2 : physMask.testBit 2 = false := by decide
  have clear63 : physMask.testBit 63 = false := by decide
  simp only [pageEntry, PT.buildPermissions, extractPhysFromPte, Nat.testBit_or, Nat.testBit_and,
    testBit_flagBit, clear0, clear1, clear2, clear63]
  simp

end NyauxKernel.Memory
