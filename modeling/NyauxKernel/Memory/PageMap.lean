/-
Page tables as a map from pages to translations.

The allocator is only assumed to return frames that fit an entry and are not
tables yet.  Between the calls anything outside the tables may change.
-/

import NyauxKernel.Memory.TableWalk
import NyauxKernel.Memory.Conservation
import NyauxKernel.Memory.Vmm

namespace NyauxKernel.Memory

open RadixTree

/-- The tables that the entries lead to from the root, with their level. -/
inductive IsTable (hhdm : Nat) (memory : Nat → Nat) (root : Nat) : Nat → Nat → Prop
  | root : IsTable hhdm memory root 4 root
  | next {level frame index : Nat} (upper : IsTable hhdm memory root (level + 1 + 1) frame)
      (inTable : index < 512) (present : (memory (frame + hhdm + index * 8)).testBit 0 = true)
      (small : (memory (frame + hhdm + index * 8)).testBit 7 = false) :
      IsTable hhdm memory root (level + 1)
        (extractPhysFromPte (memory (frame + hhdm + index * 8)))

/-- The frame of the table that an entry of an upper table is for. -/
def nextTable (entry : Nat) : Option Nat :=
  if entry.testBit 0 ∧ entry.testBit 7 = false then some (extractPhysFromPte entry) else none

theorem nextTable_entry (child : Option Nat) (ok : ∀ table, child = some table → FrameOk table) :
    nextTable (tableEntry child) = child := by
  cases child with
  | none => rfl
  | some table =>
      obtain ⟨bit0, _, _, bit7, _⟩ := (ok table rfl).testBit_entry
      rw [nextTable, if_pos ⟨bit0, bit7⟩, (ok table rfl).extractPhys_entry]

variable {hhdm root : Nat} {memory : Nat → Nat} {m : Machine}

theorem isTable_iff_ledTo (level frame : Nat) :
    IsTable hhdm memory root level frame ↔
      ∃ j, level = j + 1 ∧ LedTo nextTable hhdm memory root 3 j frame := by
  constructor
  · intro isTable
    induction isTable with
    | root => exact ⟨3, rfl, LedTo.root⟩
    | @next level frame index upper inTable present small inductionHypothesis =>
        obtain ⟨j, levelEq, ledTo⟩ := inductionHypothesis
        obtain rfl : j = level + 1 := (Nat.succ.inj levelEq).symm
        exact ⟨level, rfl, LedTo.next ledTo inTable (if_pos ⟨present, small⟩)⟩
  · rintro ⟨j, rfl, ledTo⟩
    induction ledTo with
    | root => exact IsTable.root
    | @next level frame index child upper inTable points inductionHypothesis =>
        unfold nextTable at points
        split at points
        · rename_i bits
          rw [← Option.some.inj points]
          exact IsTable.next inductionHypothesis inTable bits.1 bits.2
        · contradiction

theorem Tables.isTable_iff {tables : Nat → Nat → Option Nat}
    (shape : Tables hhdm root memory tables) (level frame : Nat) :
    IsTable hhdm memory root level frame ↔
      ∃ j place, level = j + 1 ∧ tables j place = some frame := by
  rw [isTable_iff_ledTo]
  constructor
  · rintro ⟨j, rfl, ledTo⟩
    obtain ⟨place, there⟩ := (shape.ledTo_iff nextTable_entry j frame).mp ledTo
    exact ⟨j, place, rfl, there⟩
  · rintro ⟨j, place, rfl, there⟩
    exact ⟨j, rfl, (shape.ledTo_iff nextTable_entry j frame).mpr ⟨place, there⟩⟩

/-- Frames that `allocate_page` may return: none of them a table. -/
def Unused (hhdm root : Nat) (m : Machine) (frames : List Nat) : Prop :=
  frames.Nodup ∧ ∀ frame ∈ frames, FrameOk frame ∧ ∀ level, ¬IsTable hhdm m.memory root level frame

theorem Tables.newFrame_of_not_isTable {frame : Nat} {tables : Nat → Nat → Option Nat}
    (shape : Tables hhdm root memory tables) (ok : FrameOk frame)
    (unused : ∀ level, ¬IsTable hhdm memory root level frame) : NewFrame tables frame :=
  ⟨ok, fun level place there =>
    unused (level + 1) ((shape.isTable_iff _ _).mpr ⟨level, place, rfl, there⟩)⟩

theorem Tables.newFrames_iff_unused {frames : List Nat} {tables : Nat → Nat → Option Nat}
    (shape : Tables hhdm root m.memory tables) :
    NewFrames tables frames ↔ Unused hhdm root m frames := by
  constructor
  · rintro ⟨distinct, new⟩
    refine ⟨distinct, fun frame member => ⟨(new frame member).1, ?_⟩⟩
    intro level isTable
    obtain ⟨j, place, _, there⟩ := (shape.isTable_iff level frame).mp isTable
    exact (new frame member).2 j place there
  · rintro ⟨distinct, unused⟩
    exact ⟨distinct, fun frame member =>
      shape.newFrame_of_not_isTable (unused frame member).1 (unused frame member).2⟩

/-! ### Runs -/

/-- The machines whose tables below `root` were built by the calls. -/
inductive TableReachable (hhdm root : Nat) : Machine → Prop
  | zeroed {m : Machine} (ok : FrameOk root)
      (zero : ∀ address, InPage (root + hhdm) address → m.memory address = 0) :
      TableReachable hhdm root m
  | map {m m' : Machine} (virt phys : Nat) (flags : PT) (before : TableReachable hhdm root m)
      (ready : m.freelist ≠ none)
      (done : map4kib hhdm root virt phys flags m = .ok (.ok (), m'))
      (unused : Unused hhdm root m (takenFrames m m')) : TableReachable hhdm root m'
  | unmap {m m' : Machine} {virt : Nat} {found : Translation}
      (before : TableReachable hhdm root m)
      (mapped : translate hhdm root m.memory virt = some found)
      (noTable : ∀ level, ¬IsTable hhdm m.memory root level found.phys)
      (done : unmap hhdm root virt m = .ok m') : TableReachable hhdm root m'
  | elsewhere {m m' : Machine} (before : TableReachable hhdm root m)
      (same : ∀ level frame address, IsTable hhdm m.memory root level frame →
        InPage (frame + hhdm) address → m'.memory address = m.memory address) :
      TableReachable hhdm root m'

/-- A mapped page has a table, and its frame is the one in its entry. -/
theorem Tables.of_translate {virt : Nat} {found : Translation} {tables : Nat → Nat → Option Nat}
    (shape : Tables hhdm root memory tables) (mapped : translate hhdm root memory virt = some found) :
    (∃ leaf, tables 0 (pageNumber virt / 512) = some leaf) ∧
      extractPhysFromPte (leafEntry hhdm memory tables (pageNumber virt)) = found.phys := by
  rw [shape.translate_eq] at mapped
  constructor
  · cases there : tables 0 (pageNumber virt / 512) with
    | none =>
        rw [leafEntry_none there, pageTranslation_zero] at mapped
        contradiction
    | some leaf => exact ⟨leaf, rfl⟩
  · unfold pageTranslation at mapped
    split at mapped
    · rw [← Option.some.inj mapped]
    · contradiction

theorem TableReachable.tables (real : 0 < hhdm) (reached : TableReachable hhdm root m) :
    ∃ tables, Tables hhdm root m.memory tables := by
  induction reached with
  | zeroed ok zero => exact ⟨_, StoredTables.single ok zero⟩
  | map virt phys flags before ready done unused inductionHypothesis =>
      obtain ⟨tables, shape⟩ := inductionHypothesis
      obtain ⟨m', taken, again, took, _⟩ := map4kib_total hhdm root virt phys flags ready
      obtain rfl := (Prod.mk.inj (Except.ok.inj (done.symm.trans again))).2
      rw [took.takenFrames] at unused
      obtain ⟨tables', _, _, step⟩ :=
        shape.map4kib_step ready took (shape.newFrames_iff_unused.mpr unused) done
      exact ⟨tables', step.shape⟩
  | @unmap m m' virt found before mapped noTable done inductionHypothesis =>
      obtain ⟨tables, shape⟩ := inductionHypothesis
      obtain ⟨⟨leaf, there⟩, frameEq⟩ := shape.of_translate mapped
      obtain ⟨head, atHead⟩ := shape.freelist_of_unmap (by omega) there done
      rw [shape.unmap_present (by omega) there atHead] at done
      rw [← Except.ok.inj done]
      refine ⟨tables, shape.unmapped_shape there (shape.newFrame_of_not_isTable
        (extractPhysFromPte_ok _) ?_)⟩
      rw [frameEq]
      exact noTable
  | elsewhere before same inductionHypothesis =>
      obtain ⟨tables, shape⟩ := inductionHypothesis
      refine ⟨tables, shape.congr ?_⟩
      rintro address ⟨level, place, frame, there, inside⟩
      exact same (level + 1) frame address ((shape.isTable_iff _ _).mpr ⟨level, place, rfl, there⟩)
        inside

/-! ### The map -/

/-- The translation that `map4kib` is asked for. -/
def requested (phys : Nat) (flags : PT) : Translation :=
  { phys := phys
    flags := flags.buildPermissions 1
    writable := flags.write
    user := flags.user
    executable := !flags.nexec }

/-- The tables changed as the map from pages to translations does when `page` is
given `found`. -/
def Translates (hhdm root : Nat) (m m' : Machine) (page : Nat) (found : Option Translation) :
    Prop :=
  ∀ virt, translate hhdm root m'.memory virt =
    if pageNumber virt = page then found else translate hhdm root m.memory virt

theorem Tables.translates {page entry : Nat} {m' : Machine}
    {tables tables' : Nat → Nat → Option Nat} (shape : Tables hhdm root m.memory tables)
    (shape' : Tables hhdm root m'.memory tables') (entries : leafEntry hhdm m'.memory tables' =
      Function.update (leafEntry hhdm m.memory tables) page entry) :
    Translates hhdm root m m' page (pageTranslation entry) := by
  intro virt
  rw [shape'.translate_eq, shape.translate_eq, entries]
  by_cases same : pageNumber virt = page
  · rw [if_pos same, same, Function.update_self]
  · rw [if_neg same, Function.update_of_ne same]

/-- Page tables refine a map.  In every machine that calls of `map4kib` and `unmap`
lead to from a zeroed root, `map4kib` succeeds and gives the page of `virt` the
requested frame and flags and no other page another translation, and `unmap` of a
mapped page takes its translation away and no other. -/
theorem page_tables_refine_map (hhdm root : Nat) (m : Machine) (real : 0 < hhdm)
    (reached : TableReachable hhdm root m) (ready : m.freelist ≠ none) :
    (∀ virt phys flags, phys % pageSize = 0 → phys < 2 ^ 52 → flags.present = true →
      ∃ m', map4kib hhdm root virt phys flags m = .ok (.ok (), m') ∧
        (Unused hhdm root m (takenFrames m m') →
          Translates hhdm root m m' (pageNumber virt) (some (requested phys flags)))) ∧
    (∀ virt found, translate hhdm root m.memory virt = some found →
      (∀ level, ¬IsTable hhdm m.memory root level found.phys) →
      ∃ m', unmap hhdm root virt m = .ok m' ∧
        Translates hhdm root m m' (pageNumber virt) none) := by
  obtain ⟨tables, shape⟩ := reached.tables real
  constructor
  · intro virt phys flags aligned bounded present
    obtain ⟨m', taken, done, took, _⟩ := map4kib_total hhdm root virt phys flags ready
    refine ⟨m', done, ?_⟩
    intro unused
    rw [took.takenFrames] at unused
    obtain ⟨tables', _, _, step⟩ :=
      shape.map4kib_step ready took (shape.newFrames_iff_unused.mpr unused) done
    rw [requested, ← pageTranslation_pageEntry ⟨aligned, bounded⟩ present]
    exact shape.translates step.shape step.entries
  · intro virt found mapped noTable
    obtain ⟨⟨leaf, there⟩, frameEq⟩ := shape.of_translate mapped
    obtain ⟨head, atHead⟩ := Option.ne_none_iff_exists'.mp ready
    have new : Tables.NewFrame tables found.phys :=
      shape.newFrame_of_not_isTable (frameEq ▸ extractPhysFromPte_ok _) noTable
    refine ⟨_, shape.unmap_present (by omega) there atHead, ?_⟩
    rw [frameEq, ← pageTranslation_zero]
    exact shape.translates (shape.unmapped_shape there new) (shape.unmapped_entries there new)

/-- A machine with three free frames behind the root at the second frame. -/
def threeFree : Machine :=
  { bareMachine (fun address =>
      if address = 0x2000 + 2 ^ 47 then 0x3000
      else if address = 0x3000 + 2 ^ 47 then 0x4000 else 0) with
    freelist := some 0x2000 }

theorem threeFree_chain : FreeChain (2 ^ 47) threeFree.memory 0x2000 [0x2000, 0x3000, 0x4000] where
  linked := by simp [threeFree, bareMachine]
  distinct := by decide
  aligned := by decide
  nonzero := by decide

theorem threeFree_zero (address : Nat) (inside : InPage (0x1000 + 2 ^ 47) address) :
    threeFree.memory address = 0 := by
  unfold InPage pageSize at inside
  have other : address ≠ 0x2000 + 2 ^ 47 ∧ address ≠ 0x3000 + 2 ^ 47 := by omega
  simp only [threeFree, bareMachine, if_neg other.1, if_neg other.2]

theorem threeFree_frames :
    ∀ frame ∈ [0x2000, 0x3000, 0x4000], frame % pageSize = 0 ∧ frame < 2 ^ 52 ∧ frame ≠ 0x1000 := by
  decide

theorem page_tables_refine_map_three_free :
    ∃ m', map4kib (2 ^ 47) 0x1000 0x7fff00000000 0xb8000 kernelFlags threeFree =
        .ok (.ok (), m') ∧
      Translates (2 ^ 47) 0x1000 threeFree m' (pageNumber 0x7fff00000000)
        (some (requested 0xb8000 kernelFlags)) := by
  have ok : FrameOk 0x1000 := { aligned := by decide, bounded := by decide }
  obtain ⟨m', done, translates⟩ := (page_tables_refine_map (2 ^ 47) 0x1000 threeFree (by decide)
    (TableReachable.zeroed ok threeFree_zero) (Option.some_ne_none _)).1 0x7fff00000000 0xb8000 kernelFlags
    (by decide) (by decide) rfl
  refine ⟨m', done, translates ?_⟩
  have shape : Tables (2 ^ 47) 0x1000 threeFree.memory _ := StoredTables.single ok threeFree_zero
  have new : NewFrames (RadixTree.insert (fun _ _ => none) 3 0 0x1000)
      [0x2000, 0x3000, 0x4000] := by
    refine ⟨by decide, ?_⟩
    intro frame member
    obtain ⟨aligned, bounded, different⟩ := threeFree_frames frame member
    exact TableFormat.newFrame_single ⟨aligned, bounded⟩ different
  obtain ⟨_, taken, again, took, short⟩ := map4kib_total (m := threeFree) (2 ^ 47) 0x1000
    0x7fff00000000 0xb8000 kernelFlags (Option.some_ne_none _)
  obtain rfl := (Prod.mk.inj (Except.ok.inj (done.symm.trans again))).2
  rw [took.takenFrames, ← shape.newFrames_iff_unused]
  rcases shape.map4kib_chain rfl threeFree_chain new took done with ⟨rest, _, split, _⟩ | ⟨more, long⟩
  · rw [split] at new
    exact new.left
  · rw [long, List.length_append, List.length_cons] at short
    simp only [List.length_cons, List.length_nil] at short
    omega

end NyauxKernel.Memory
