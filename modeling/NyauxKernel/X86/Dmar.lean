/-
The walk over the DMAR table in `intel/iommu/mod.rs`.

`iommu_init` goes from one remapping structure to the next by the length that the structure
has, until it is exactly at the end of the table.  Places are offsets from the start of the
table, modulo the size of the address space, and the number of rounds is bounded by `fuel`;
without a result the loop has not ended after that many.
-/

import NyauxKernel.Word
import NyauxKernel.Library.BitFields
import NyauxKernel.Library.LinkWalk
import Mathlib.Data.UInt

namespace NyauxKernel.X86

open BitFields LinkWalk

/-! ### The loop -/

/-- The bytes of memory from the start of the table on. -/
abbrev AcpiTable := Nat → UInt8

/-- A little endian number of `count` bytes. -/
def readBytes (table : AcpiTable) (offset count : Nat) : Nat :=
  pack ((List.range count).map fun i => (8, (table ((offset + i) % addressSpace)).toNat))

/-- `hdr.length`, behind the signature of four bytes. -/
def tableLength (table : AcpiTable) : Nat := readBytes table 4 4

/-- The members of `acpi_dmar`: the header, the width of addresses, the flags and ten bytes
that are reserved. -/
def sizeOfAcpiDmar : Nat := 36 + 1 + 1 + 10

/-- The members of `acpi_drhd` that are read; the flags, the size and the segment are not. -/
structure AcpiDrhd where
  typ : Nat
  length : Nat
  regBaseAddr : Nat

def drhdAt (table : AcpiTable) (hd : Nat) : AcpiDrhd where
  typ := readBytes table hd 2
  length := readBytes table (hd + 2) 2
  regBaseAddr := readBytes table (hd + 8) 8

/-- The body of the loop: the address of the registers is kept if the structure is a remapping
unit. -/
def visitStructure (table : AcpiTable) (iommuAddr hd : Nat) : Nat :=
  if (drhdAt table hd).typ = 0 then (drhdAt table hd).regBaseAddr else iommuAddr

def dmarLoop (table : AcpiTable) (finish : Nat) : Nat → Nat → Nat → Option Nat
  | 0, _, _ => none
  | fuel + 1, cur, iommuAddr =>
      if cur ≠ finish then
        dmarLoop table finish fuel ((cur + (drhdAt table cur).length) % addressSpace)
          (visitStructure table iommuAddr cur)
      else some iommuAddr

/-- The address that `iommu_init` takes from the table. -/
def findIommu (table : AcpiTable) (fuel : Nat) : Option Nat :=
  dmarLoop table (tableLength table) fuel sizeOfAcpiDmar 0

/-! ### The loop as a walk along the structures -/

/-- The place of the loop with `cur` there, unless it has come to the end. -/
def placeAt (finish cur : Nat) : Option Nat := if cur ≠ finish then some cur else none

def nextStructure (table : AcpiTable) (finish cur : Nat) : Option Nat :=
  placeAt finish ((cur + (drhdAt table cur).length) % addressSpace)

/-- The loop reads the header of a structure at an offset. -/
def HeaderRead (table : AcpiTable) (offset : Nat) : Prop :=
  Met (nextStructure table (tableLength table)) (placeAt (tableLength table) sizeOfAcpiDmar) offset

/-- The structures from one offset on lie one behind the other, inside the table, up to exactly
another offset. -/
def Structures (table : AcpiTable) : Nat → List Nat → Nat → Prop
  | cur, [], finish => cur = finish
  | cur, hd :: rest, finish =>
      hd = cur ∧ cur < finish ∧ Structures table (cur + (drhdAt table cur).length) rest finish

/-- The address of the last remapping unit, 0 without one. -/
def lastDrhd (table : AcpiTable) (structures : List Nat) : Nat :=
  let units := structures.filter fun hd => (drhdAt table hd).typ = 0
  (units.getLast?.map fun hd => (drhdAt table hd).regBaseAddr).getD 0

theorem dmarLoop_eq_walk (table : AcpiTable) (finish fuel cur iommuAddr : Nat) :
    dmarLoop table finish (fuel + 1) cur iommuAddr =
      walk (nextStructure table finish) (visitStructure table) fuel (placeAt finish cur)
        iommuAddr := by
  induction fuel generalizing cur iommuAddr with
  | zero =>
      rw [dmarLoop, placeAt]
      by_cases atEnd : cur = finish
      · rw [if_neg (not_not_intro atEnd), if_neg (not_not_intro atEnd), walk]
      · rw [if_pos atEnd, if_pos atEnd, walk, dmarLoop]
  | succ fuel inductionHypothesis =>
      rw [dmarLoop, placeAt]
      by_cases atEnd : cur = finish
      · rw [if_neg (not_not_intro atEnd), if_neg (not_not_intro atEnd), walk]
      · rw [if_pos atEnd, if_pos atEnd, walk, inductionHypothesis, nextStructure]

theorem foldl_visitStructure (table : AcpiTable) (structures : List Nat) :
    structures.foldl (visitStructure table) 0 = lastDrhd table structures := by
  induction structures using List.reverseRecOn with
  | nil => rfl
  | append_singleton structures hd inductionHypothesis =>
      rw [List.foldl_append, List.foldl_cons, List.foldl_nil, inductionHypothesis, visitStructure,
        lastDrhd, lastDrhd, List.filter_append]
      by_cases unit : (drhdAt table hd).typ = 0
      · simp [unit]
      · simp [unit]

/-! ### Structures inside the table -/

theorem drhd_length_lt (table : AcpiTable) (hd : Nat) : (drhdAt table hd).length < 2 ^ 16 :=
  pack_lt _

theorem tableLength_lt (table : AcpiTable) : tableLength table < 2 ^ 32 := pack_lt _

variable {cur finish : Nat} {table : AcpiTable} {structures : List Nat}

theorem nextStructure_inside (table : AcpiTable) (small : finish < 2 ^ 32) (inside : cur < finish) :
    nextStructure table finish cur = placeAt finish (cur + (drhdAt table cur).length) := by
  have short := drhd_length_lt table cur
  rw [nextStructure, Nat.mod_eq_of_lt (by rw [addressSpace]; omega)]

theorem Structures.visits (small : finish < 2 ^ 32)
    (exactly : Structures table cur structures finish) :
    Visits (nextStructure table finish) (placeAt finish cur) structures := by
  induction structures generalizing cur with
  | nil =>
      rw [Structures] at exactly
      rw [placeAt, if_neg (not_not_intro exactly)]
      exact Visits.done
  | cons hd rest inductionHypothesis =>
      rcases exactly with ⟨rfl, inside, restExactly⟩
      rw [placeAt, if_pos (Nat.ne_of_lt inside)]
      apply Visits.go
      rw [nextStructure_inside table small inside]
      exact inductionHypothesis restExactly

theorem structures_of_visits (small : finish < 2 ^ 32)
    (visits : Visits (nextStructure table finish) (placeAt finish cur) structures)
    (inside : ∀ hd ∈ structures, hd < finish) : Structures table cur structures finish := by
  induction structures generalizing cur with
  | nil =>
      rw [placeAt] at visits
      by_cases atEnd : cur = finish
      · exact atEnd
      · rw [if_pos atEnd] at visits
        cases visits
  | cons hd rest inductionHypothesis =>
      rw [placeAt] at visits
      by_cases atEnd : cur = finish
      · rw [if_neg (not_not_intro atEnd)] at visits
        cases visits
      · rw [if_pos atEnd] at visits
        cases visits with
        | go later =>
            have insideHere := inside hd List.mem_cons_self
            rw [nextStructure_inside table small insideHere] at later
            exact ⟨rfl, insideHere, inductionHypothesis later fun other member =>
              inside other (List.mem_cons_of_mem hd member)⟩

theorem Structures.inside (exactly : Structures table cur structures finish) :
    ∀ hd ∈ structures, hd < finish := by
  induction structures generalizing cur with
  | nil => exact fun hd member => absurd member List.not_mem_nil
  | cons first rest inductionHypothesis =>
      rcases exactly with ⟨rfl, inside, restExactly⟩
      intro hd member
      cases List.mem_cons.mp member with
      | inl same => rw [same]; exact inside
      | inr member => exact inductionHypothesis restExactly hd member

/-! ### The walk over the table -/

/-- The loop ends, it reads headers inside the table only, and if the structures fill the table
exactly, its result is the address of the last remapping unit. -/
structure WalkBounded (table : AcpiTable) : Prop where
  ends : ∃ fuel, (findIommu table fuel).isSome
  inside : ∀ offset, HeaderRead table offset → offset < tableLength table
  last : ∀ structures, Structures table sizeOfAcpiDmar structures (tableLength table) →
    ∃ fuel, findIommu table fuel = some (lastDrhd table structures)

theorem findIommu_of_visits
    (exactly : Structures table sizeOfAcpiDmar structures (tableLength table)) :
    ∃ fuel, findIommu table fuel = some (lastDrhd table structures) := by
  refine ⟨structures.length + 1, ?_⟩
  rw [findIommu, dmarLoop_eq_walk, walk_of_visits (exactly.visits (tableLength_lt table)),
    foldl_visitStructure]

theorem visits_of_findIommu {fuel iommuAddr : Nat} (found : findIommu table fuel = some iommuAddr) :
    ∃ structures, Visits (nextStructure table (tableLength table))
      (placeAt (tableLength table) sizeOfAcpiDmar) structures := by
  cases fuel with
  | zero => cases found
  | succ fuel =>
      rw [findIommu, dmarLoop_eq_walk] at found
      rcases visits_of_walk found with ⟨structures, visits, _⟩
      exact ⟨structures, visits⟩

/-- The walk is bounded by the table if and only if the lengths of the structures add up exactly
to the length of the table. -/
theorem dmar_walk_bounded_iff (table : AcpiTable) :
    WalkBounded table ↔
      ∃ structures, Structures table sizeOfAcpiDmar structures (tableLength table) := by
  constructor
  · intro bounded
    rcases bounded.ends with ⟨fuel, ended⟩
    rcases Option.isSome_iff_exists.mp ended with ⟨iommuAddr, found⟩
    rcases visits_of_findIommu found with ⟨structures, visits⟩
    refine ⟨structures, structures_of_visits (tableLength_lt table) visits ?_⟩
    intro hd member
    exact bounded.inside hd ((visits.met_iff hd).mpr member)
  · intro exactly
    rcases exactly with ⟨structures, exactly⟩
    have visits := exactly.visits (tableLength_lt table)
    constructor
    · rcases findIommu_of_visits exactly with ⟨fuel, found⟩
      exact ⟨fuel, by rw [found]; rfl⟩
    · intro offset read
      exact exactly.inside offset ((visits.met_iff offset).mp read)
    · intro structures exactly
      exact findIommu_of_visits exactly

/-! ### Tables with one structure -/

/-- A table of `size` bytes that starts with a remapping unit of `length` bytes, whose registers
are at 0xFED90000. -/
def dmarTable (size length : UInt8) : AcpiTable := fun offset =>
  if offset = 4 then size
  else if offset = 50 then length
  else if offset = 58 then 0xD9
  else if offset = 59 then 0xFE
  else 0

theorem dmar_walk_bounded_single :
    WalkBounded (dmarTable 64 16) ∧ findIommu (dmarTable 64 16) 2 = some 0xFED90000 := by
  constructor
  · apply (dmar_walk_bounded_iff (dmarTable 64 16)).mpr
    exact ⟨[48], rfl, by decide, rfl⟩
  · decide

/-- With a structure of length 0 the loop stays where it is for ever, and with one that ends
behind the end of the table it reads on behind it. -/
theorem dmar_walk_unbounded :
    (∀ fuel, findIommu (dmarTable 64 0) fuel = none) ∧
      tableLength (dmarTable 50 4) = 50 ∧ HeaderRead (dmarTable 50 4) 52 := by
  refine ⟨?_, by decide, ?_⟩
  · have start : placeAt (tableLength (dmarTable 64 0)) sizeOfAcpiDmar = some 48 := by decide
    have stays : nextStructure (dmarTable 64 0) (tableLength (dmarTable 64 0)) 48 = some 48 := by
      decide
    intro fuel
    cases fuel with
    | zero => rfl
    | succ fuel =>
        rw [findIommu, dmarLoop_eq_walk, start]
        exact walk_self_link stays fuel 0
  · have start : placeAt (tableLength (dmarTable 50 4)) sizeOfAcpiDmar = some 48 := by decide
    have onward : nextStructure (dmarTable 50 4) (tableLength (dmarTable 50 4)) 48 = some 52 := by
      decide
    rw [HeaderRead, start]
    apply Met.later
    rw [onward]
    exact Met.here 52

end NyauxKernel.X86
