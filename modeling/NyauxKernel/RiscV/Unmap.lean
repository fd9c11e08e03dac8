/-
What `unmap4kib` of RISC-V does, and what the unmap calls of both architectures do to a
page that is not mapped.

`unmap4kib` looks for the entry of the page with a walk that may allocate: a page without
tables gets them.
-/

import NyauxKernel.RiscV.PageMap
import NyauxKernel.Memory.UnmapEffects

namespace NyauxKernel.RiscV

open Memory RadixTree

/-! ### `unmap4kib` -/

theorem extractPhysFromPte_ok (pte : Nat) : FrameOk (extractPhysFromPte pte) := by
  rw [extractPhysFromPte_eq]
  constructor
  case aligned => exact Nat.mul_mod_left _ _
  case bounded =>
    unfold ppn pageSize
    omega

section Unmap

variable {depth hhdm root virt head : Nat} {m m' : Machine} {tables : Nat → Nat → Option Nat}
  {frames : List Nat}

theorem unmap4kib_eq {slot : Nat} {mid : Machine} (nonzero : slot ≠ 0)
    (found : (svFormat depth).search hhdm (pageNumber (depth + 1) virt) true depth (root + hhdm) m =
      .ok (some slot, mid))
    (atHead : mid.freelist = some head) :
    unmap4kib (depth + 1) hhdm root virt m =
      .ok (unmapped hhdm mid slot (extractPhysFromPte (mid.memory slot)) head) := by
  simp only [unmap4kib, getTable, getTableLoop_eq hhdm virt true (Nat.le_refl depth), found,
    Except.map, searched, bind, Except.bind, nonzero, ne_eq, not_false_eq_true, if_true,
    deallocatePage_eq atHead, Nat.add_sub_cancel, Machine.write, unmapped]

theorem takenFrames_unmapped {taken : List Nat} {mid : Machine} (took : Took taken m mid)
    (slot frame head : Nat) : takenFrames m (unmapped hhdm mid slot frame head) = taken := by
  have calls : (unmapped hhdm mid slot frame head).pmmCalls =
      m.pmmCalls ++ taken.map .allocated ++ [.released (frame + hhdm)] := by
    rw [← took.calls]
    rfl
  rw [takenFrames_allocated calls]
  exact List.append_nil taken

/-- `unmap4kib` returns whenever there is a free list. -/
theorem unmap4kib_total (depth root virt : Nat) (real : 0 < hhdm) (ready : m.freelist ≠ none) :
    ∃ slot mid taken head,
      (svFormat depth).search hhdm (pageNumber (depth + 1) virt) true depth (root + hhdm) m =
        .ok (some slot, mid) ∧
      Took taken m mid ∧ taken.length ≤ depth ∧ mid.freelist = some head ∧
      unmap4kib (depth + 1) hhdm root virt m =
        .ok (unmapped hhdm mid slot (extractPhysFromPte (mid.memory slot)) head) := by
  rcases (svFormat depth).search_total hhdm (pageNumber (depth + 1) virt) depth (root + hhdm)
    (Nat.le_add_left _ _) ready with ⟨slot, mid, taken, found, above, took, short⟩
  rcases Option.ne_none_iff_exists'.mp took.ready with ⟨head, atHead⟩
  exact ⟨slot, mid, taken, head, found, took, short, atHead,
    unmap4kib_eq (by omega) found atHead⟩

/-- The reachable machines are closed under `unmap4kib`, as long as the frame that it
releases is no table. -/
theorem TableReachable.unmap4kib (reached : TableReachable (depth + 1) hhdm root m)
    (real : 0 < hhdm) (ready : m.freelist ≠ none)
    (done : RiscV.unmap4kib (depth + 1) hhdm root virt m = .ok m')
    (unused : Unused (depth + 1) hhdm root m (takenFrames m m')) {frame : Nat}
    (released : m'.freelist = some frame) (notTaken : frame ∉ takenFrames m m')
    (noTable : ∀ level, ¬LedTo nextTable hhdm m.memory root depth level frame) :
    TableReachable (depth + 1) hhdm root m' := by
  rcases reached.stored with ⟨tables, shape⟩
  rcases unmap4kib_total depth root virt real ready with
    ⟨slot, mid, taken, head, found, took, _, atHead, again⟩
  cases Except.ok.inj (done.symm.trans again)
  cases Option.some.inj released
  rw [takenFrames_unmapped took] at unused notTaken
  have new := (newFrames_iff_unused shape).mpr unused
  rcases shape.search_write (pageNumber_lt depth virt) ready took new found 0 with
    ⟨tables', leaf, _, _, step⟩
  -- the entry is cleared by a mapping without flags, and the rest happens outside the tables
  have cleared : RiscV.map4kib (depth + 1) hhdm root virt 0
      { valid := false, read := false, write := false, execute := false, user := false,
        global := false } m = .ok (.ok (), mid.write slot 0) :=
    map4kib_eq found
  refine (reached.map virt 0 _ ready cleared ?_).elsewhere ?_
  · rw [(took.write slot 0).takenFrames]
    exact unused
  · intro level table address isTable inside
    rcases (step.shape.ledTo_iff nextTable_entry level table).mp isTable with ⟨place, present⟩
    have isNew : (svFormat depth).NewFrame tables' (extractPhysFromPte (mid.memory slot)) := by
      constructor
      · exact extractPhysFromPte_ok _
      · intro level' place' there
        rcases step.added there with old | later
        · exact noTable level' ((shape.ledTo_iff nextTable_entry level' _).mpr ⟨place', old⟩)
        · exact notTaken later
    have outside := step.shape.not_inPage_new isNew present inside
    have apart : address ≠ extractPhysFromPte (mid.memory slot) + hhdm :=
      (ne_of_inPage (inPage_start _) outside).symm
    by_cases atSlot : address = slot
    · simp only [unmapped, Machine.write, atSlot, Function.update_self]
    · simp only [unmapped, Machine.write, Function.update_of_ne atSlot,
        Function.update_of_ne apart]
      exact WordMemory.zero_outside outside

/-! ### Pages that are not mapped -/

/-- A page without a table gets one from the free list. -/
theorem unmap4kib_missing (shape : StoredTables (svFormat depth) hhdm root m.memory tables)
    (real : 0 < hhdm) (absent : tables 0 (pageNumber (depth + 1) virt / 512) = none)
    (atHead : m.freelist = some head) (chain : FreeChain hhdm m.memory head frames)
    (new : (svFormat depth).NewFrames tables (0 :: frames))
    (done : unmap4kib (depth + 1) hhdm root virt m = .ok m')
    (supplied : 0 ∉ takenFrames m m') :
    ∃ leaf ∈ frames, LedTo nextTable hhdm m'.memory root depth 0 leaf := by
  have ready : m.freelist ≠ none := by simp [atHead]
  have newFrames : (svFormat depth).NewFrames tables frames :=
    ⟨chain.distinct, fun frame member => new.2 frame (List.mem_cons_of_mem 0 member)⟩
  rcases unmap4kib_total depth root virt real ready with
    ⟨slot, mid, taken, head', found, took, _, _, again⟩
  cases Except.ok.inj (done.symm.trans again)
  rw [takenFrames_unmapped took] at supplied
  have rootHere := shape.root_of_stem (pageNumber_lt depth virt)
  rcases shape.search_chain depth (Nat.le_refl _) rootHere atHead chain newFrames took found with
    ⟨rest, _, split, _, _⟩ | ⟨more, long⟩
  case inr =>
    rw [long] at supplied
    exact absurd (List.mem_append_right frames List.mem_cons_self) supplied
  rw [split] at newFrames
  rcases shape.search_alloc depth (Nat.le_refl _) rootHere ready took newFrames.left found with
    ⟨tables', leaf, slotEq, leafEq, step⟩
  cases Option.some.inj slotEq
  have inTaken : leaf ∈ taken := by
    rcases step.added leafEq with old | later
    · rw [absent] at old
      contradiction
    · exact later
  have entry : mid.memory (leaf + hhdm + pageNumber (depth + 1) virt % 512 * 8) = 0 := by
    have here : leafEntry hhdm mid.memory tables' (pageNumber (depth + 1) virt) = _ :=
      leafEntry_some leafEq
    rw [← here, step.entries, leafEntry_none absent]
  have zero : (svFormat depth).NewFrame tables' 0 := by
    have before := new.2 0 List.mem_cons_self
    refine ⟨before.1, ?_⟩
    intro level place there
    rcases step.added there with old | later
    · exact before.2 level place old
    · exact supplied later
  have nothing : extractPhysFromPte 0 = 0 := rfl
  rw [entry, nothing]
  refine ⟨leaf, split ▸ List.mem_append_left rest inTaken, ?_⟩
  exact ((step.shape.unmapped_shape leafEq zero).ledTo_iff nextTable_entry 0 leaf).mpr ⟨_, leafEq⟩

/-- What the processor reads off the entry of the page of an address. -/
def readPage (levels virt pte : Nat) : Option Translation :=
  if Canonical levels virt then pageTranslation pte else none

theorem translate_read {memory : Nat → Nat}
    (shape : StoredTables (svFormat depth) hhdm root memory tables) (virt : Nat) :
    translate (depth + 1) hhdm root memory virt =
      readPage (depth + 1) virt (leafEntry hhdm memory tables (pageNumber (depth + 1) virt)) := by
  by_cases canonical : Canonical (depth + 1) virt
  · rw [translate_eq shape canonical, readPage, if_pos canonical]
  · rw [translate, if_neg canonical, readPage, if_neg canonical]

/-- `unmap4kib` of a page that is not mapped changes nothing if and only if the page has a
table, the free list is empty and the entry holds frame zero. -/
theorem unmap4kib_unmapped (shape : StoredTables (svFormat depth) hhdm root m.memory tables)
    (real : 0 < hhdm) (canonical : Canonical (depth + 1) virt)
    (nothing : translate (depth + 1) hhdm root m.memory virt = none)
    (atHead : m.freelist = some head) (chain : FreeChain hhdm m.memory head frames)
    (new : (svFormat depth).NewFrames tables (0 :: frames)) :
    ∃ m', unmap4kib (depth + 1) hhdm root virt m = .ok m' ∧
      (0 ∉ takenFrames m m' →
        (Undisturbed (translate (depth + 1) hhdm root)
            (fun memory => LedTo nextTable hhdm memory root depth) hhdm m m' ↔
          ∃ bro, getTable hhdm root virt (depth + 1) 0 false m = .ok (.ok bro, m) ∧
            frames = [] ∧ extractPhysFromPte (m.memory bro) = 0)) := by
  have rootHere : tables depth (stem 512 depth (pageNumber (depth + 1) virt)) = some root :=
    shape.root_of_stem (pageNumber_lt depth virt)
  have walk := getTableLoop_eq hhdm virt false (Nat.le_refl depth) (root + hhdm) m
  cases present : tables 0 (pageNumber (depth + 1) virt / 512) with
  | none =>
      have absent := present
      rw [← stem_zero] at absent
      rw [shape.search_missing absent rootHere] at walk
      have ready : m.freelist ≠ none := by simp [atHead]
      rcases unmap4kib_total depth root virt real ready with
        ⟨slot, mid, taken, head', _, _, _, _, done⟩
      refine ⟨_, done, ?_⟩
      intro supplied
      rcases unmap4kib_missing shape real present atHead chain new done supplied with
        ⟨leaf, isFree, isTable⟩
      apply iff_of_false
      · intro undisturbed
        rcases (shape.ledTo_iff nextTable_entry 0 leaf).mp
          ((undisturbed.tables 0 leaf).mp isTable) with ⟨place, there⟩
        exact (new.2 leaf (List.mem_cons_of_mem 0 isFree)).2 0 place there
      · rintro ⟨bro, found, _⟩
        rw [getTable, walk] at found
        cases (Prod.mk.inj (Except.ok.inj found)).1
  | some leaf =>
      have here := present
      rw [← stem_zero] at here
      have low : depth ≤ (svFormat depth).depth := Nat.le_refl depth
      have found := shape.search_found true here low rootHere
      rw [shape.search_found false here low rootHere] at walk
      have blank : ∀ other, pageNumber (depth + 1) other = pageNumber (depth + 1) virt →
          readPage (depth + 1) other
              (leafEntry hhdm m.memory tables (pageNumber (depth + 1) virt)) =
            readPage (depth + 1) other 0 := by
        intro other _
        rw [readPage, ← translate_eq shape canonical, nothing, readPage, pageTranslation_zero]
      refine ⟨_, unmap4kib_eq (by omega) found atHead, ?_⟩
      intro _
      have effect := shape.undisturbed_unmapped_iff (fun _ stored => translate_read stored)
        (fun _ stored => stored.ledTo_iff nextTable_entry) present blank atHead chain new
      rw [getTable, walk]
      refine (effect _).trans ?_
      constructor
      · exact fun condition => ⟨_, rfl, condition⟩
      · rintro ⟨bro, same, condition⟩
        rw [← Except.ok.inj (Prod.mk.inj (Except.ok.inj same)).1] at condition
        exact condition

end Unmap

/-! ### Both architectures -/

/-- Unmapping a page that is not mapped, on a machine with a free list whose frames are no
tables.  On x86_64 nothing changes if and only if the page has no table (or the list is
empty and the entry holds frame zero, which ends the list).  On RISC-V, as long as the
call does not run out of frames, nothing changes only in that last case. -/
theorem unmap_unmapped_page (hhdm root head : Nat) (m : Machine) (frames : List Nat)
    (real : 0 < hhdm) (atHead : m.freelist = some head)
    (chain : FreeChain hhdm m.memory head frames) :
    (∀ virt, Memory.TableReachable hhdm root m → Memory.Unused hhdm root m (0 :: frames) →
      Memory.translate hhdm root m.memory virt = none →
      ∃ m', unmap hhdm root virt m = .ok m' ∧
        (Undisturbed (Memory.translate hhdm root) (fun memory => IsTable hhdm memory root) hhdm
            m m' ↔
          ∀ entry, Memory.getTable hhdm root virt false m = .ok (.ok entry, m) →
            frames = [] ∧ Memory.extractPhysFromPte (m.memory (entry + hhdm)) = 0)) ∧
    (∀ mode virt, TableReachable (svLevels mode) hhdm root m →
      Unused (svLevels mode) hhdm root m (0 :: frames) → Canonical (svLevels mode) virt →
      translate (svLevels mode) hhdm root m.memory virt = none →
      ∃ m', unmap4kib (svLevels mode) hhdm root virt m = .ok m' ∧
        (0 ∉ takenFrames m m' →
          (Undisturbed (translate (svLevels mode) hhdm root)
              (fun memory => LedTo nextTable hhdm memory root (svLevels mode - 1)) hhdm m m' ↔
            ∃ bro, getTable hhdm root virt (svLevels mode) 0 false m = .ok (.ok bro, m) ∧
              frames = [] ∧ extractPhysFromPte (m.memory bro) = 0))) := by
  constructor
  · intro virt reached unused nothing
    rcases reached.tables real with ⟨tables, shape⟩
    exact shape.unmap_unmapped real nothing atHead chain (shape.newFrames_iff_unused.mpr unused)
  · intro mode virt reached unused canonical nothing
    rcases exists_depth mode with ⟨depth, levels⟩
    rw [levels] at reached unused canonical nothing ⊢
    rcases reached.stored with ⟨tables, shape⟩
    exact unmap4kib_unmapped shape real canonical nothing atHead chain
      ((newFrames_iff_unused shape).mpr unused)

/-- The root of the machine with three free frames is none of them. -/
theorem threeFree_new (format : TableFormat) (holds : ∀ frame ∈ [0, 0x2000, 0x3000, 0x4000],
    format.Holds frame) :
    format.NewFrames (RadixTree.insert (fun _ _ => none) format.depth 0 0x1000)
      [0, 0x2000, 0x3000, 0x4000] := by
  refine ⟨by decide, ?_⟩
  intro frame member
  refine TableFormat.newFrame_single (holds frame member) ?_
  rintro rfl
  simp at member

theorem unmap_unmapped_page_three_free :
    ∃ m', unmap (2 ^ 47) 0x1000 0x7fff00000000 threeFree = .ok m' ∧
      Undisturbed (Memory.translate (2 ^ 47) 0x1000)
        (fun memory => IsTable (2 ^ 47) memory 0x1000) (2 ^ 47) threeFree m' := by
  have ok : Memory.FrameOk 0x1000 := { aligned := by decide, bounded := by decide }
  have shape : Tables (2 ^ 47) 0x1000 threeFree.memory _ := StoredTables.single ok threeFree_zero
  have holds : ∀ frame ∈ [0, 0x2000, 0x3000, 0x4000], Memory.FrameOk frame := by
    intro frame member
    simp only [List.mem_cons, List.not_mem_nil, or_false] at member
    rcases member with rfl | rfl | rfl | rfl
    all_goals exact { aligned := by decide, bounded := by decide }
  rcases (unmap_unmapped_page (2 ^ 47) 0x1000 0x2000 threeFree [0x2000, 0x3000, 0x4000] (by decide)
    rfl threeFree_chain).1 0x7fff00000000 (Memory.TableReachable.zeroed ok threeFree_zero)
    (shape.newFrames_iff_unused.mp (threeFree_new x86Format holds)) (by decide) with
    ⟨m', done, effect⟩
  refine ⟨m', done, effect.mpr ?_⟩
  intro entry found
  have walk : Memory.getTable (2 ^ 47) 0x1000 0x7fff00000000 false threeFree =
      .ok (.error "bru", threeFree) := rfl
  cases (Prod.mk.inj (Except.ok.inj (walk.symm.trans found))).1

/-- The walk for a page below an empty root makes tables for it. -/
theorem threeFree_unmapped_page :
    ∃ m' leaf, TableReachable (svLevels .riscvSv39) (2 ^ 47) 0x1000 threeFree ∧
      translate (svLevels .riscvSv39) (2 ^ 47) 0x1000 threeFree.memory 0xffffffc000000000 = none ∧
      unmap4kib (svLevels .riscvSv39) (2 ^ 47) 0x1000 0xffffffc000000000 threeFree = .ok m' ∧
      LedTo nextTable (2 ^ 47) m'.memory 0x1000 2 0 leaf ∧
      ¬LedTo nextTable (2 ^ 47) threeFree.memory 0x1000 2 0 leaf := by
  have ok : FrameOk 0x1000 := { aligned := by decide, bounded := by decide }
  have shape : StoredTables (svFormat 2) (2 ^ 47) 0x1000 threeFree.memory _ :=
    StoredTables.single ok threeFree_zero
  have new := threeFree_new (svFormat 2) (by
    intro frame member
    simp only [List.mem_cons, List.not_mem_nil, or_false] at member
    rcases member with rfl | rfl | rfl | rfl
    all_goals exact { aligned := by decide, bounded := by decide })
  have newFrames : (svFormat 2).NewFrames _ [0x2000, 0x3000, 0x4000] :=
    ⟨threeFree_chain.distinct, fun frame member => new.2 frame (List.mem_cons_of_mem 0 member)⟩
  have ready : threeFree.freelist ≠ none := Option.some_ne_none _
  rcases unmap4kib_total 2 0x1000 0xffffffc000000000 (Nat.two_pow_pos 47) ready with
    ⟨slot, mid, taken, head, found, took, short, _, done⟩
  have supplied : 0 ∉ taken := by
    rcases shape.search_chain 2 (Nat.le_refl _) (shape.root_of_stem (pageNumber_lt 2 _)) rfl
      threeFree_chain newFrames took found with ⟨rest, _, split, _⟩ | ⟨more, long⟩
    · intro member
      exact threeFree_chain.nonzero (split ▸ List.mem_append_left rest member)
    · rw [long, List.length_append, List.length_cons] at short
      simp only [List.length_cons, List.length_nil] at short
      omega
  rw [← takenFrames_unmapped took slot (extractPhysFromPte (mid.memory slot)) head] at supplied
  rcases unmap4kib_missing shape (Nat.two_pow_pos 47) rfl rfl threeFree_chain new done supplied
    with ⟨leaf, isFree, isTable⟩
  refine ⟨_, leaf, TableReachable.zeroed ok threeFree_zero, rfl, done, isTable, ?_⟩
  intro before
  rcases (shape.ledTo_iff nextTable_entry 0 leaf).mp before with ⟨place, there⟩
  exact (newFrames.2 leaf isFree).2 0 place there

/-- On x86_64, `unmap` of a page in a table with other pages puts frame zero on the free
list.  On RISC-V, `unmap4kib` of a page below an empty root makes tables for it. -/
theorem unmapped_page_disturbed :
    (∃ m m' pagemap, VmmRun smallBoot (soundTerms smallBoot) m {} ∧
      m.kermap = some pagemap ∧
      Memory.translate smallBoot.hhdm pagemap.archPage m.memory 0xFFFF80000002A000 = none ∧
      unmap smallBoot.hhdm pagemap.archPage 0xFFFF80000002A000 m = .ok m' ∧
      m.freelist ≠ some 0 ∧ m'.freelist = some 0) ∧
    ∃ m' leaf, TableReachable (svLevels .riscvSv39) (2 ^ 47) 0x1000 threeFree ∧
      translate (svLevels .riscvSv39) (2 ^ 47) 0x1000 threeFree.memory 0xffffffc000000000 = none ∧
      unmap4kib (svLevels .riscvSv39) (2 ^ 47) 0x1000 0xffffffc000000000 threeFree = .ok m' ∧
      LedTo nextTable (2 ^ 47) m'.memory 0x1000 2 0 leaf ∧
      ¬LedTo nextTable (2 ^ 47) threeFree.memory 0x1000 2 0 leaf :=
  ⟨smallBoot_unmapped_page, threeFree_unmapped_page⟩

end NyauxKernel.RiscV
