/-
What `unmap` does to a page that is not mapped.

The function looks for the entry of the page, and takes what it finds for an entry in
use: the test after the search is on the entry's address.
-/

import NyauxKernel.Memory.PageMap
import NyauxKernel.Memory.BootSpace
import NyauxKernel.Memory.RegionRuns

namespace NyauxKernel.Memory

open RadixTree

/-- Every translation, the tables and the free list are as they were, for the walk and the
tables of an architecture. -/
structure Undisturbed {τ : Type} (translate : (Nat → Nat) → Nat → Option τ)
    (isTable : (Nat → Nat) → Nat → Nat → Prop) (hhdm : Nat) (m m' : Machine) : Prop where
  translations : ∀ virt, translate m'.memory virt = translate m.memory virt
  tables : ∀ level frame, isTable m'.memory level frame ↔ isTable m.memory level frame
  free : SameFree hhdm m m'

theorem Undisturbed.refl {τ : Type} (translate : (Nat → Nat) → Nat → Option τ)
    (isTable : (Nat → Nat) → Nat → Nat → Prop) (hhdm : Nat) (m : Machine) :
    Undisturbed translate isTable hhdm m m where
  translations := fun _ => rfl
  tables := fun _ _ => Iff.rfl
  free := SameFree.refl hhdm m

/-! ### The free list -/

section Release

variable {format : TableFormat} {hhdm root page leaf frame head : Nat} {m : Machine}
  {tables : Nat → Nat → Option Nat} {frames : List Nat}

/-- The link of the frame that was released. -/
theorem StoredTables.unmapped_link (shape : StoredTables format hhdm root m.memory tables)
    (present : tables 0 (page / 512) = some leaf) (new : format.NewFrame tables frame)
    (head : Nat) :
    (unmapped hhdm m (leaf + hhdm + page % 512 * 8) frame head).memory (frame + hhdm) = head := by
  have outside := shape.not_inPage_new new present (entry_inPage (leaf + hhdm) page)
  have apart : frame + hhdm ≠ leaf + hhdm + page % 512 * 8 :=
    ne_of_inPage (inPage_start (frame + hhdm)) outside
  simp only [unmapped, Function.update_of_ne apart, Function.update_self]

/-- A released frame is on the free list, unless it stands for the end of the list. -/
theorem StoredTables.sameFree_unmapped_iff (shape : StoredTables format hhdm root m.memory tables)
    (present : tables 0 (page / 512) = some leaf) (atHead : m.freelist = some head)
    (chain : FreeChain hhdm m.memory head frames)
    (new : ∀ other ∈ frames, format.NewFrame tables other) :
    SameFree hhdm m (unmapped hhdm m (leaf + hhdm + page % 512 * 8) frame head) ↔
      frames = [] ∧ frame = 0 := by
  constructor
  · intro same
    cases Option.some.inj (same.head.trans atHead)
    have after := same.chain frame frames atHead chain
    cases frames with
    | nil => exact ⟨rfl, chain.linked⟩
    | cons first rest =>
        -- the head of the list would be its own successor
        cases (chain.linked.1 : frame = first)
        have later := after.linked.2
        dsimp only at later
        rw [shape.unmapped_link present (new frame List.mem_cons_self) frame] at later
        cases rest with
        | nil => exact absurd (later ▸ List.mem_cons_self) after.nonzero
        | cons second rest =>
            have again : frame = second := later.1
            exact absurd (again ▸ List.mem_cons_self) (List.nodup_cons.mp after.distinct).1
  · rintro ⟨rfl, rfl⟩
    have atEnd : head = 0 := chain.linked
    constructor
    case head => rw [atHead, atEnd, unmapped]
    case chain =>
      intro other frames atOther chainOther
      have same : other = 0 := (Option.some.inj (atOther.symm.trans atHead)).trans atEnd
      rw [same] at chainOther ⊢
      rw [chainOther.head_eq_zero_iff.mp rfl]
      exact FreeChain.empty

/-- Clearing an entry that nothing is read from and releasing its frame, when `translate`
reads the entry of the page and `isTable` lists the tables. -/
theorem StoredTables.undisturbed_unmapped_iff {τ : Type}
    {translate : (Nat → Nat) → Nat → Option τ} {isTable : (Nat → Nat) → Nat → Nat → Prop}
    {number : Nat → Nat} {read : Nat → Nat → Option τ} {listed : Nat → Nat → Prop}
    (shape : StoredTables format hhdm root m.memory tables)
    (walks : ∀ memory, StoredTables format hhdm root memory tables → ∀ virt,
      translate memory virt = read virt (leafEntry hhdm memory tables (number virt)))
    (lists : ∀ memory, StoredTables format hhdm root memory tables → ∀ level frame,
      isTable memory level frame ↔ listed level frame)
    (present : tables 0 (page / 512) = some leaf)
    (blank : ∀ virt, number virt = page →
      read virt (leafEntry hhdm m.memory tables page) = read virt 0)
    (atHead : m.freelist = some head) (chain : FreeChain hhdm m.memory head frames)
    (new : format.NewFrames tables (0 :: frames)) (frame : Nat) :
    Undisturbed translate isTable hhdm m
        (unmapped hhdm m (leaf + hhdm + page % 512 * 8) frame head) ↔
      frames = [] ∧ frame = 0 := by
  have free : SameFree hhdm m (unmapped hhdm m (leaf + hhdm + page % 512 * 8) frame head) ↔
      frames = [] ∧ frame = 0 :=
    shape.sameFree_unmapped_iff present atHead chain
      fun other member => new.2 other (List.mem_cons_of_mem 0 member)
  constructor
  · exact fun undisturbed => free.mp undisturbed.free
  · intro condition
    have zero : format.NewFrame tables frame := condition.2 ▸ new.2 0 List.mem_cons_self
    have after : StoredTables format hhdm root
        (unmapped hhdm m (leaf + hhdm + page % 512 * 8) frame head).memory tables :=
      shape.unmapped_shape present zero
    constructor
    case translations =>
      intro virt
      rw [walks _ after, walks _ shape, shape.unmapped_entries present zero]
      by_cases same : number virt = page
      · rw [same, Function.update_self, blank virt same]
      · rw [Function.update_of_ne same]
    case tables =>
      intro level other
      rw [lists _ after, lists _ shape]
    case free => exact free.mpr condition

end Release

/-! ### x86_64 -/

section Unmap

variable {hhdm root virt head : Nat} {m : Machine} {tables : Nat → Nat → Option Nat}
  {frames : List Nat}

/-- `unmap` of a page that is not mapped changes nothing if and only if the page has no
table, or the free list is empty and the entry holds frame zero. -/
theorem Tables.unmap_unmapped (shape : Tables hhdm root m.memory tables) (real : 0 < hhdm)
    (nothing : translate hhdm root m.memory virt = none) (atHead : m.freelist = some head)
    (chain : FreeChain hhdm m.memory head frames) (new : NewFrames tables (0 :: frames)) :
    ∃ m', unmap hhdm root virt m = .ok m' ∧
      (Undisturbed (translate hhdm root) (fun memory => IsTable hhdm memory root) hhdm m m' ↔
        ∀ entry, getTable hhdm root virt false m = .ok (.ok entry, m) →
          frames = [] ∧ extractPhysFromPte (m.memory (entry + hhdm)) = 0) := by
  cases present : tables 0 (pageNumber virt / 512) with
  | none =>
      refine ⟨m, shape.unmap_missing present, iff_of_true (Undisturbed.refl _ _ _ _) ?_⟩
      intro entry found
      rw [← stem_zero] at present
      rw [shape.getTable_eq, shape.search_missing present (shape.rootStem virt)] at found
      cases (Prod.mk.inj (Except.ok.inj found)).1
  | some leaf =>
      have entryEq : leafEntry hhdm m.memory tables (pageNumber virt) = _ := leafEntry_some present
      have walk : getTable hhdm root virt false m =
          .ok (.ok (leaf + hhdm + pageNumber virt % 512 * 8 - hhdm), m) := by
        rw [← stem_zero] at present
        have found := shape.search_found false present (Nat.le_refl 3) (shape.rootStem virt)
        rw [shape.getTable_eq, found]
        rfl
      have blank : ∀ other, pageNumber other = pageNumber virt →
          pageTranslation (leafEntry hhdm m.memory tables (pageNumber virt)) =
            pageTranslation 0 := by
        intro _ _
        rw [← shape.translate_eq, nothing, pageTranslation_zero]
      have back : leaf + hhdm + pageNumber virt % 512 * 8 - hhdm + hhdm =
          leaf + hhdm + pageNumber virt % 512 * 8 := by
        omega
      refine ⟨_, shape.unmap_present (by omega) present atHead, ?_⟩
      rw [shape.undisturbed_unmapped_iff (fun _ stored => Tables.translate_eq stored)
        (fun _ stored => Tables.isTable_iff stored) present blank atHead chain new, entryEq, walk]
      constructor
      · intro condition entry found
        rw [← Except.ok.inj (Prod.mk.inj (Except.ok.inj found)).1, back]
        exact condition
      · intro condition
        have here := condition _ rfl
        rwa [back] at here

end Unmap

/-- The page behind the direct map of the small machine is in the table of the direct map
and not mapped. -/
theorem smallBoot_unmapped_page :
    ∃ m m' pagemap, VmmRun smallBoot (soundTerms smallBoot) m {} ∧
      m.kermap = some pagemap ∧
      translate smallBoot.hhdm pagemap.archPage m.memory 0xFFFF80000002A000 = none ∧
      unmap smallBoot.hhdm pagemap.archPage 0xFFFF80000002A000 m = .ok m' ∧
      m.freelist ≠ some 0 ∧ m'.freelist = some 0 := by
  rcases smallBoot_booted with ⟨m, pagemap, v, _, _, booted, supplied, kernel, left⟩
  rcases booted.kernel smallBoot_good supplied with ⟨found, v', _, _, kernel', _, entered⟩
  have shape : Tables smallBoot.hhdm found.archPage m.memory v'.tables := kernel'.store.shape
  have mapped := entered.translate_direct kernel'.store smallBoot_placed smallBoot_good.direct
  rcases Option.map_eq_some_iff.mp mapped with ⟨translation, walked, _⟩
  rcases (shape.of_translate walked).1 with ⟨leaf, there⟩
  have sameTable : pageNumber 0xFFFF80000002A000 / 512 =
      pageNumber (smallBoot.hhdm + 0) / 512 := by
    decide
  rw [← sameTable] at there
  have blank : leafEntry smallBoot.hhdm m.memory v'.tables (pageNumber 0xFFFF80000002A000) = 0 :=
    entered.blank _ (by decide +kernel)
  rcases kernel.store.chain with ⟨head, atHead, chain⟩
  have real : 0 < leaf + smallBoot.hhdm := Nat.lt_of_lt_of_le (by decide) (Nat.le_add_left _ leaf)
  have done := shape.unmap_present real there atHead
  rw [blank] at done
  refine ⟨m, _, found, VmmRun.boot booted, kernel'.kermap, ?_, done, ?_, rfl⟩
  · rw [shape.translate_eq, blank, pageTranslation_zero]
  · intro empty
    have isZero : head = 0 := Option.some.inj (atHead.symm.trans empty)
    rw [chain.head_eq_zero_iff.mp isZero] at left
    exact absurd left (by decide)

end NyauxKernel.Memory
