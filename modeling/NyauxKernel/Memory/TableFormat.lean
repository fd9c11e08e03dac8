/-
Page tables in memory, for any depth and any layout of their entries.

`tables level place` is the frame of the table of a level (0 for the tables that
hold pages) whose pages share the leading digits `place` of their page number.
-/

import NyauxKernel.Memory.FreeList
import NyauxKernel.Library.RadixTree

namespace NyauxKernel.Memory

open RadixTree

/-- What an architecture's search for the entry of a page makes of the entries of
upper tables. -/
structure TableFormat where
  /-- The level of the root. -/
  depth : Nat
  /-- The frames that an entry can hold. -/
  Holds : Nat → Prop
  /-- The entry for a table, or for none. -/
  entry : Option Nat → Nat
  /-- Whether the search stops at an entry of a table of the given level. -/
  isLeaf : Nat → Nat → Bool
  isAbsent : Nat → Bool
  /-- The frame in an entry. -/
  frame : Nat → Nat
  /-- The value written for a new table. -/
  newEntry : Nat → Nat
  aligned : ∀ {table : Nat}, Holds table → table % pageSize = 0
  entry_none : entry none = 0
  isLeaf_entry : ∀ (level : Nat) (child : Option Nat), (∀ table, child = some table → Holds table) →
    isLeaf level (entry child) = false
  isAbsent_none : isAbsent (entry none) = true
  isAbsent_some : ∀ {table : Nat}, Holds table → isAbsent (entry (some table)) = false
  frame_entry : ∀ {table : Nat}, Holds table → frame (entry (some table)) = table
  newEntry_eq : ∀ {table : Nat}, Holds table → newEntry table = entry (some table)

/-- Memory holds the tables of a tree, each entry of an upper table that of the table
below it. -/
structure StoredTables (format : TableFormat) (hhdm root : Nat) (memory : Nat → Nat)
    (tables : Nat → Nat → Option Nat) : Prop extends Tree 512 format.depth root tables where
  holds : ∀ {level place frame : Nat}, tables level place = some frame → format.Holds frame
  stored : ∀ {level place frame : Nat}, tables (level + 1) (place / 512) = some frame →
    memory (frame + hhdm + place % 512 * 8) = format.entry (tables level place)

/-- An address in the page of a table. -/
def InTable (hhdm : Nat) (tables : Nat → Nat → Option Nat) (address : Nat) : Prop :=
  ∃ level place frame, tables level place = some frame ∧ InPage (frame + hhdm) address

/-- The entry of a page, zero where its table is missing. -/
def leafEntry (hhdm : Nat) (memory : Nat → Nat) (tables : Nat → Nat → Option Nat)
    (page : Nat) : Nat :=
  match tables 0 (page / 512) with
  | none => 0
  | some leaf => memory (leaf + hhdm + page % 512 * 8)

variable {hhdm page : Nat} {memory : Nat → Nat} {tables : Nat → Nat → Option Nat}

theorem leafEntry_none (absent : tables 0 (page / 512) = none) :
    leafEntry hhdm memory tables page = 0 := by
  rw [leafEntry, absent]

theorem leafEntry_some {leaf : Nat} (present : tables 0 (page / 512) = some leaf) :
    leafEntry hhdm memory tables page = memory (leaf + hhdm + page % 512 * 8) := by
  rw [leafEntry, present]

theorem entry_inPage (page place : Nat) : InPage page (page + place % 512 * 8) := by
  unfold InPage pageSize
  omega

theorem ne_of_inPage {address other : Nat} (inside : InPage page address)
    (outside : ¬InPage page other) : address ≠ other :=
  fun same => outside (same ▸ inside)

theorem leafEntry_congr {memory' : Nat → Nat}
    (same : ∀ address, InTable hhdm tables address → memory' address = memory address) (page : Nat) :
    leafEntry hhdm memory' tables page = leafEntry hhdm memory tables page := by
  cases present : tables 0 (page / 512) with
  | none => rw [leafEntry_none present, leafEntry_none present]
  | some leaf =>
      rw [leafEntry_some present, leafEntry_some present]
      exact same _ ⟨_, _, _, present, entry_inPage _ page⟩

namespace StoredTables

variable {format : TableFormat} {root : Nat} {memory' : Nat → Nat}

theorem rootEq (shape : StoredTables format hhdm root memory tables) :
    tables format.depth 0 = some root := by
  rw [shape.top 0, if_pos rfl]

theorem root_of_stem (shape : StoredTables format hhdm root memory tables) {page : Nat}
    (small : page < 512 ^ (format.depth + 1)) :
    tables format.depth (stem 512 format.depth page) = some root := by
  rw [stem_eq_zero small, shape.rootEq]

/-- Two table entries at the same address are the same entry. -/
theorem entry_unique (shape : StoredTables format hhdm root memory tables)
    {level place frame level' place' frame' : Nat} (first : tables level (place / 512) = some frame)
    (second : tables level' (place' / 512) = some frame')
    (same : frame + hhdm + place % 512 * 8 = frame' + hhdm + place' % 512 * 8) :
    level = level' ∧ place = place' := by
  have sameFrame : frame = frame' := by
    apply inPage_unique hhdm (format.aligned (shape.holds first))
      (format.aligned (shape.holds second)) (entry_inPage _ place)
    rw [same]
    exact entry_inPage _ place'
  subst sameFrame
  obtain ⟨sameLevel, sameStem⟩ := shape.injective first second
  refine ⟨sameLevel, ?_⟩
  omega

theorem congr (shape : StoredTables format hhdm root memory tables)
    (same : ∀ address, InTable hhdm tables address → memory' address = memory address) :
    StoredTables format hhdm root memory' tables where
  toTree := shape.toTree
  holds := shape.holds
  stored := by
    intro level place frame present
    rw [same _ ⟨_, _, _, present, entry_inPage _ place⟩]
    exact shape.stored present

/-- A missing table on the way to a page leaves the page without an entry. -/
theorem leafEntry_eq_zero (shape : StoredTables format hhdm root memory tables) {j page : Nat}
    (low : j ≤ format.depth) (absent : tables j (stem 512 j page) = none) :
    leafEntry hhdm memory tables page = 0 := by
  apply leafEntry_none
  rw [← stem_zero]
  cases leaf : tables 0 (stem 512 0 page) with
  | none => rfl
  | some frame =>
      obtain ⟨upper, above⟩ := shape.above leaf j (by omega)
      rw [Nat.zero_add, absent] at above
      contradiction

/-- A write to the entry of a page keeps the shape. -/
theorem writeLeaf (shape : StoredTables format hhdm root memory tables) {page leaf : Nat}
    (present : tables 0 (page / 512) = some leaf) (value : Nat) :
    StoredTables format hhdm root
      (Function.update memory (leaf + hhdm + page % 512 * 8) value) tables where
  toTree := shape.toTree
  holds := shape.holds
  stored := by
    intro level place frame upper
    rw [Function.update_of_ne]
    · exact shape.stored upper
    · intro same
      exact absurd (shape.entry_unique upper present same).1 (Nat.succ_ne_zero level)

theorem leafEntry_writeLeaf (shape : StoredTables format hhdm root memory tables)
    {page leaf : Nat} (present : tables 0 (page / 512) = some leaf) (value : Nat) :
    leafEntry hhdm (Function.update memory (leaf + hhdm + page % 512 * 8) value) tables =
      Function.update (leafEntry hhdm memory tables) page value := by
  funext other
  by_cases same : other = page
  · rw [same, Function.update_self, leafEntry_some present, Function.update_self]
  · rw [Function.update_of_ne same]
    cases there : tables 0 (other / 512) with
    | none => rw [leafEntry_none there, leafEntry_none there]
    | some leaf' =>
        rw [leafEntry_some there, leafEntry_some there, Function.update_of_ne]
        intro clash
        exact same (shape.entry_unique there present clash).2

/-- The tables of a zeroed root alone. -/
theorem single (ok : format.Holds root)
    (zero : ∀ address, InPage (root + hhdm) address → memory address = 0) :
    StoredTables format hhdm root memory
      (RadixTree.insert (fun _ _ => none) format.depth 0 root) where
  toTree := Tree.single 512 format.depth root
  holds := by
    intro level place frame present
    rcases of_insert_eq_some present with ⟨_, _, rfl⟩ | old
    · exact ok
    · contradiction
  stored := by
    intro level place frame present
    rcases of_insert_eq_some present with ⟨isTop, _, rfl⟩ | old
    · rw [zero _ (entry_inPage _ _), insert_other _ _ (by omega), format.entry_none]
    · contradiction

end StoredTables

/-! ### A new table -/

namespace TableFormat

/-- Memory after a zeroed table in `phy` was entered at `slot`. -/
def entered (format : TableFormat) (hhdm : Nat) (memory : Nat → Nat) (slot phy : Nat) : Nat → Nat :=
  Function.update (WordMemory.zero memory (phy + hhdm) pageSize) slot (format.entry (some phy))

/-- A frame that can become a table. -/
def NewFrame (format : TableFormat) (tables : Nat → Nat → Option Nat) (frame : Nat) : Prop :=
  format.Holds frame ∧ ∀ level place, tables level place ≠ some frame

/-- Frames that can become tables together. -/
def NewFrames (format : TableFormat) (tables : Nat → Nat → Option Nat) (frames : List Nat) : Prop :=
  frames.Nodup ∧ ∀ frame ∈ frames, format.NewFrame tables frame

variable {format : TableFormat} {slot phy address : Nat} {frames taken rest : List Nat}

theorem entered_inside (apart : address ≠ slot) (inside : InPage (phy + hhdm) address) :
    format.entered hhdm memory slot phy address = 0 := by
  rw [entered, Function.update_of_ne apart, WordMemory.zero_inside inside.1 inside.2]

theorem entered_outside (apart : address ≠ slot) (outside : ¬InPage (phy + hhdm) address) :
    format.entered hhdm memory slot phy address = memory address := by
  rw [entered, Function.update_of_ne apart]
  exact WordMemory.zero_outside outside

theorem newFrame_single {root frame : Nat} (ok : format.Holds frame) (different : frame ≠ root) :
    format.NewFrame (RadixTree.insert (fun _ _ => none) format.depth 0 root) frame := by
  refine ⟨ok, ?_⟩
  intro level place present
  rcases of_insert_eq_some present with ⟨_, _, same⟩ | old
  · exact different same
  · contradiction

/-- After one of them has become a table the others still can. -/
theorem NewFrames.tail {frame : Nat} (new : format.NewFrames tables (frame :: frames))
    (level place : Nat) :
    format.NewFrames (RadixTree.insert tables level place frame) frames := by
  obtain ⟨apart, distinct⟩ := List.nodup_cons.mp new.1
  refine ⟨distinct, ?_⟩
  intro other member
  have older := new.2 other (List.mem_cons_of_mem frame member)
  refine ⟨older.1, ?_⟩
  intro level' place' present
  rcases of_insert_eq_some present with ⟨_, _, rfl⟩ | old
  · exact apart member
  · exact older.2 level' place' old

theorem NewFrames.left (new : format.NewFrames tables (taken ++ rest)) :
    format.NewFrames tables taken :=
  ⟨(List.nodup_append.mp new.1).1, fun frame member => new.2 frame (List.mem_append_left rest member)⟩

end TableFormat

namespace StoredTables

open TableFormat

variable {format : TableFormat} {root level place frame phy : Nat}

theorem not_inPage_new (shape : StoredTables format hhdm root memory tables)
    (new : format.NewFrame tables phy) (present : tables level place = some frame) {address : Nat}
    (inside : InPage (frame + hhdm) address) : ¬InPage (phy + hhdm) address := by
  intro inNew
  have same := inPage_unique hhdm (format.aligned (shape.holds present)) (format.aligned new.1)
    inside inNew
  exact new.2 level place (same ▸ present)

theorem enter (shape : StoredTables format hhdm root memory tables)
    (upper : tables (level + 1) (place / 512) = some frame) (low : level < format.depth)
    (absent : tables level place = none) (new : format.NewFrame tables phy) :
    StoredTables format hhdm root
      (format.entered hhdm memory (frame + hhdm + place % 512 * 8) phy)
      (RadixTree.insert tables level place phy) where
  toTree := shape.toTree.insert low absent upper new.2
  holds := by
    intro level' place' frame' present
    rcases of_insert_eq_some present with ⟨_, _, rfl⟩ | old
    · exact new.1
    · exact shape.holds old
  stored := by
    intro level' place' frame' present
    have slotOutside := shape.not_inPage_new new upper (entry_inPage (frame + hhdm) place)
    rcases of_insert_eq_some present with ⟨sameLevel, samePlace, rfl⟩ | old
    · -- the new table is zero, and nothing is below it
      have inside := entry_inPage (frame' + hhdm) place'
      rw [entered_inside (ne_of_inPage inside slotOutside) inside]
      have nothing : tables level' place' = none := by
        cases below : tables level' place' with
        | none => rfl
        | some child =>
            obtain ⟨above, there⟩ := shape.parent (by omega) below
            rw [sameLevel, samePlace, absent] at there
            contradiction
      rw [insert_other _ _ (by omega), nothing, format.entry_none]
    · have outside := shape.not_inPage_new new old (entry_inPage (frame' + hhdm) place')
      by_cases same : level' = level ∧ place' = place
      · obtain ⟨rfl, rfl⟩ := same
        obtain rfl : frame = frame' := Option.some.inj (upper.symm.trans old)
        rw [insert_same, entered, Function.update_self]
      · rw [insert_other _ _ same, entered_outside _ outside]
        · exact shape.stored old
        · intro clash
          have unique := shape.entry_unique old upper clash
          exact same ⟨Nat.succ.inj unique.1, unique.2⟩

theorem leafEntry_enter (shape : StoredTables format hhdm root memory tables)
    (upper : tables (level + 1) (place / 512) = some frame)
    (absent : tables level place = none) (new : format.NewFrame tables phy) (page : Nat) :
    leafEntry hhdm (format.entered hhdm memory (frame + hhdm + place % 512 * 8) phy)
      (RadixTree.insert tables level place phy) page = leafEntry hhdm memory tables page := by
  have slotOutside := shape.not_inPage_new new upper (entry_inPage (frame + hhdm) place)
  by_cases same : 0 = level ∧ page / 512 = place
  · obtain ⟨rfl, rfl⟩ := same
    have inside := entry_inPage (phy + hhdm) page
    rw [leafEntry_none absent, leafEntry_some (insert_same _ _ _ _),
      entered_inside (ne_of_inPage inside slotOutside) inside]
  · have kept := insert_other tables phy same
    cases present : tables 0 (page / 512) with
    | none => rw [leafEntry_none (kept.trans present), leafEntry_none present]
    | some leaf =>
        rw [leafEntry_some (kept.trans present), leafEntry_some present, entered_outside]
        · intro clash
          exact absurd (shape.entry_unique present upper clash).1 (Nat.succ_ne_zero level).symm
        · exact shape.not_inPage_new new present (entry_inPage (leaf + hhdm) page)

end StoredTables

/-! ### The tables that the entries lead to -/

/-- The tables that the entries lead to from the root, with their level, where `next`
reads the frame off an entry for a table. -/
inductive LedTo (next : Nat → Option Nat) (hhdm : Nat) (memory : Nat → Nat) (root depth : Nat) :
    Nat → Nat → Prop
  | root : LedTo next hhdm memory root depth depth root
  | next {level frame index child : Nat} (upper : LedTo next hhdm memory root depth (level + 1) frame)
      (inTable : index < 512) (points : next (memory (frame + hhdm + index * 8)) = some child) :
      LedTo next hhdm memory root depth level child

/-- They are those of the tree. -/
theorem StoredTables.ledTo_iff {format : TableFormat} {root : Nat} {next : Nat → Option Nat}
    (reads : ∀ child, (∀ table, child = some table → format.Holds table) →
      next (format.entry child) = child) (shape : StoredTables format hhdm root memory tables)
    (level frame : Nat) :
    LedTo next hhdm memory root format.depth level frame ↔
      ∃ place, tables level place = some frame := by
  constructor
  · intro ledTo
    induction ledTo with
    | root => exact ⟨0, shape.rootEq⟩
    | @next level frame index child upper inTable points inductionHypothesis =>
        obtain ⟨place, there⟩ := inductionHypothesis
        have digits : (place * 512 + index) / 512 = place ∧ (place * 512 + index) % 512 = index := by
          omega
        have entry := shape.stored (digits.1.symm ▸ there)
        rw [digits.2] at entry
        rw [entry, reads _ (fun _ => shape.holds)] at points
        exact ⟨_, points⟩
  · rintro ⟨place, there⟩
    have height := shape.height there
    obtain ⟨down, same⟩ : ∃ down, level + down = format.depth := ⟨format.depth - level, by omega⟩
    induction down generalizing level place frame with
    | zero =>
        obtain rfl : level = format.depth := same
        have top := shape.top place
        rw [there] at top
        split at top
        · rw [Option.some.inj top]
          exact LedTo.root
        · contradiction
    | succ down inductionHypothesis =>
        obtain ⟨above, upper⟩ := shape.parent (by omega) there
        have isAbove := inductionHypothesis (level + 1) above (place / 512) upper (by omega) (by omega)
        refine LedTo.next isAbove (Nat.mod_lt place (by decide)) ?_
        rw [shape.stored upper, reads _ (fun _ => shape.holds), there]

end NyauxKernel.Memory
