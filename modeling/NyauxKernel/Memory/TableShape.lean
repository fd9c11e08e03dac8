/-
The shape of the four level page tables of x86_64: their format, and the page
numbers that the levels of the tables split into digits.
-/

import NyauxKernel.Memory.PageEntry
import NyauxKernel.Memory.TableSearch

namespace NyauxKernel.Memory

open RadixTree

/-- The page number of an address: its bits 12 to 47. -/
def pageNumber (virt : Nat) : Nat := virt / pageSize % 2 ^ 36

theorem levelIndex_eq {j : Nat} (low : j < 4) (virt : Nat) :
    levelIndex virt (j + 1) = pageNumber virt / 512 ^ j % 512 := by
  have mask : (0x1ff : Nat) = 2 ^ 9 - 1 := by decide
  unfold levelIndex pageNumber pageSize
  rw [Nat.shiftRight_eq_div_pow, mask, Nat.and_two_pow_sub_one_eq_mod]
  match j with
  | 0 | 1 | 2 | 3 =>
      simp only [levelShift]
      omega
  | j + 4 => omega

/-- The index into a table is the last digit of the place of the table below. -/
theorem levelIndex_succ {j : Nat} (low : j < 3) (virt : Nat) :
    levelIndex virt (j + 1 + 1) = stem 512 j (pageNumber virt) % 512 :=
  levelIndex_eq (by omega) virt

theorem levelIndex_one (virt : Nat) : levelIndex virt 1 = pageNumber virt % 512 := by
  rw [levelIndex_eq (by decide), Nat.pow_zero, Nat.div_one]

/-! ### The shape -/

def x86Format : TableFormat where
  depth := 3
  Holds := FrameOk
  entry := tableEntry
  isLeaf := fun level entry =>
    (PT.new entry (level + 1)).megapage || (PT.new entry (level + 1)).gigapage
  isAbsent := fun entry => entry == 0
  frame := tableFrame
  newEntry := fun frame => frame ||| tableFlags
  aligned := FrameOk.aligned
  entry_none := rfl
  isLeaf_entry := by
    intro level child ok
    obtain ⟨small, smaller⟩ := not_large child ok (level + 1)
    rw [small, smaller, Bool.or_self]
  isAbsent_none := rfl
  isAbsent_some := by
    intro table _
    simp [tableEntry_some]
  frame_entry := FrameOk.tableFrame_entry
  newEntry_eq := FrameOk.or_tableFlags

abbrev Tables (hhdm root : Nat) (memory : Nat → Nat) (tables : Nat → Nat → Option Nat) : Prop :=
  StoredTables x86Format hhdm root memory tables

namespace Tables

variable {hhdm root : Nat} {memory : Nat → Nat} {tables : Nat → Nat → Option Nat}

theorem frameOk (shape : Tables hhdm root memory tables) {level place frame : Nat}
    (present : tables level place = some frame) : FrameOk frame :=
  shape.holds present

theorem entry (shape : Tables hhdm root memory tables) {level place frame : Nat}
    (present : tables (level + 1) (place / 512) = some frame) :
    memory (frame + hhdm + place % 512 * 8) = tableEntry (tables level place) :=
  shape.stored present

theorem rootOk (shape : Tables hhdm root memory tables) : FrameOk root :=
  shape.frameOk shape.rootEq

abbrev NewFrame (tables : Nat → Nat → Option Nat) (frame : Nat) : Prop :=
  x86Format.NewFrame tables frame

end Tables

abbrev NewFrames (tables : Nat → Nat → Option Nat) (frames : List Nat) : Prop :=
  x86Format.NewFrames tables frames

theorem pageNumber_lt (virt : Nat) : pageNumber virt < 512 ^ (x86Format.depth + 1) :=
  Nat.mod_lt _ (by decide)

theorem Tables.rootStem {hhdm root : Nat} {memory : Nat → Nat} {tables : Nat → Nat → Option Nat}
    (shape : Tables hhdm root memory tables) (virt : Nat) :
    tables 3 (stem 512 3 (pageNumber virt)) = some root :=
  shape.root_of_stem (pageNumber_lt virt)

end NyauxKernel.Memory
