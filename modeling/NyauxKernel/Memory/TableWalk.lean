/-
What `get_table`, `map4kib`, `unmap` and the hardware's walk of x86_64 do on tables
of the right shape.
-/

import NyauxKernel.Memory.TableShape

namespace NyauxKernel.Memory

open RadixTree

/-! ### The level loop -/

/-- The answer of `get_table` to what the search found. -/
def searched (hhdm : Nat) : Option Nat × Machine → Except String Nat × Machine
  | (some slot, m) => (.ok (slot - hhdm), m)
  | (none, m) => (.error "bru", m)

theorem getTableLoop_eq (hhdm virt : Nat) (alloc : Bool) {j : Nat} (low : j ≤ 3) (table : Nat)
    (m : Machine) :
    getTableLoop hhdm virt alloc (j + 1) table m =
      (x86Format.search hhdm (pageNumber virt) alloc j table m).map (searched hhdm) := by
  induction j generalizing table m with
  | zero => simp [getTableLoop, levelIndex_one, TableFormat.search, searched, Except.map]
  | succ j inductionHypothesis =>
      have next := inductionHypothesis (by omega)
      rw [getTableLoop, TableFormat.search, levelIndex_succ low]
      generalize table + stem 512 j (pageNumber virt) % 512 * 8 = slot
      have notLast : (j + 1 + 1 == 1) = false := rfl
      simp only [next, notLast, Bool.or_false, x86Format, beq_iff_eq]
      split
      · rfl
      · split
        · cases alloc with
          | false => rfl
          | true =>
              cases allocatePage hhdm m with
              | error halt => rfl
              | ok taken => rfl
        · rfl

/-- A walk that may not allocate returns and changes nothing. -/
theorem getTableLoop_still (hhdm virt : Nat) (m : Machine) (j table : Nat) :
    ∃ answer, getTableLoop hhdm virt false j table m = .ok (answer, m) := by
  induction j generalizing table with
  | zero => exact ⟨_, rfl⟩
  | succ j inductionHypothesis =>
      simp only [getTableLoop, Bool.false_eq_true, if_false]
      split
      · exact ⟨_, rfl⟩
      · split
        · exact ⟨_, rfl⟩
        · exact inductionHypothesis _

variable {memory : Nat → Nat} {tables : Nat → Nat → Option Nat} {hhdm root virt : Nat}

theorem getTableLoop_same {answer : Except String Nat} {m m' : Machine} (j table : Nat)
    (done : getTableLoop hhdm virt false j table m = .ok (answer, m')) : m' = m := by
  rcases getTableLoop_still hhdm virt m j table with ⟨_, again⟩
  exact (Prod.mk.inj (Except.ok.inj (done.symm.trans again))).2

/-! ### `map4kib` -/

section Map

variable {phys : Nat} {flags : PT} {m m' : Machine} {taken frames : List Nat}

theorem Tables.getTable_eq (shape : Tables hhdm root m.memory tables) (alloc : Bool) :
    getTable hhdm root virt alloc m =
      (x86Format.search hhdm (pageNumber virt) alloc 3 (root + hhdm) m).map (searched hhdm) := by
  rw [getTable, shape.rootOk.tableFrame, getTableLoop_eq hhdm virt alloc (Nat.le_refl 3)]

theorem map4kib_eq {slot : Nat} {mid : Machine} (above : hhdm ≤ slot)
    (found : x86Format.search hhdm (pageNumber virt) true 3 (tableFrame root + hhdm) m =
      .ok (some slot, mid)) :
    map4kib hhdm root virt phys flags m = .ok (.ok (), mid.write slot (pageEntry phys flags)) := by
  simp only [map4kib, getTable, getTableLoop_eq hhdm virt true (Nat.le_refl 3), found, Except.map,
    searched, bind, Except.bind, Nat.sub_add_cancel above, pageEntry]

/-- `map4kib` succeeds whenever there is a free list. -/
theorem map4kib_total (hhdm root virt phys : Nat) (flags : PT) (ready : m.freelist ≠ none) :
    ∃ m' taken, map4kib hhdm root virt phys flags m = .ok (.ok (), m') ∧ Took taken m m' ∧
      taken.length ≤ 3 := by
  obtain ⟨slot, mid, taken, found, above, took, short⟩ :=
    x86Format.search_total hhdm (pageNumber virt) 3 (tableFrame root + hhdm)
      (Nat.le_add_left _ _) ready
  exact ⟨_, taken, map4kib_eq above found, took.write _ _, short⟩

/-- What a `map4kib` that returned had found. -/
theorem Tables.map4kib_found (shape : Tables hhdm root m.memory tables)
    (ready : m.freelist ≠ none) (took : Took taken m m')
    (done : map4kib hhdm root virt phys flags m = .ok (.ok (), m')) :
    ∃ slot mid, m' = mid.write slot (pageEntry phys flags) ∧ Took taken m mid ∧
      x86Format.search hhdm (pageNumber virt) true x86Format.depth (root + hhdm) m =
        .ok (some slot, mid) := by
  obtain ⟨slot, mid, taken', found, above, tookMid, _⟩ :=
    x86Format.search_total hhdm (pageNumber virt) 3 (root + hhdm) (Nat.le_add_left _ _) ready
  have again := found
  rw [← shape.rootOk.tableFrame] at again
  rw [map4kib_eq above again] at done
  obtain rfl := (Prod.mk.inj (Except.ok.inj done)).2
  obtain rfl : taken = taken' := took.unique (tookMid.write _ _)
  exact ⟨slot, mid, rfl, tookMid, found⟩

/-- The new entry, with new tables on the way to it. -/
theorem Tables.map4kib_step (shape : Tables hhdm root m.memory tables)
    (ready : m.freelist ≠ none) (took : Took taken m m') (new : NewFrames tables taken)
    (done : map4kib hhdm root virt phys flags m = .ok (.ok (), m')) :
    ∃ tables' leaf, tables' 0 (pageNumber virt / 512) = some leaf ∧
      TableStep x86Format hhdm root (pageNumber virt) m m' tables tables' taken
        (Function.update (leafEntry hhdm m.memory tables) (pageNumber virt)
          (pageEntry phys flags)) := by
  obtain ⟨slot, mid, rfl, tookMid, found⟩ := shape.map4kib_found ready took done
  obtain ⟨tables', leaf, leafEq, _, step⟩ :=
    shape.search_write (pageNumber_lt virt) ready tookMid new found (pageEntry phys flags)
  exact ⟨tables', leaf, leafEq, step⟩

/-- At most the missing tables are taken. -/
theorem Tables.map4kib_taken_le (shape : Tables hhdm root m.memory tables)
    (ready : m.freelist ≠ none) (took : Took taken m m')
    (done : map4kib hhdm root virt phys flags m = .ok (.ok (), m')) :
    taken.length ≤ missing tables (path 512 3 (pageNumber virt)) := by
  obtain ⟨slot, mid, rfl, tookMid, found⟩ := shape.map4kib_found ready took done
  exact shape.search_taken_le (Nat.le_refl _) (shape.rootStem virt) ready tookMid found

/-- On a chain of frames that can become tables, `map4kib` takes them in order, or
runs out. -/
theorem Tables.map4kib_chain (shape : Tables hhdm root m.memory tables) {head : Nat}
    (atHead : m.freelist = some head) (chain : FreeChain hhdm m.memory head frames)
    (new : NewFrames tables frames) (took : Took taken m m')
    (done : map4kib hhdm root virt phys flags m = .ok (.ok (), m')) :
    (∃ rest head', frames = taken ++ rest ∧ m'.freelist = some head' ∧
      FreeChain hhdm m'.memory head' rest) ∨ ∃ more, taken = frames ++ 0 :: more := by
  obtain ⟨slot, mid, rfl, tookMid, found⟩ := shape.map4kib_found (by simp [atHead]) took done
  exact shape.search_write_chain (pageNumber_lt virt) atHead chain new tookMid found _

end Map

/-! ### `unmap` -/

section Unmap

variable {head : Nat} {m : Machine}

/-- `unmap` finds no entry, or releases the frame in the one it finds and clears it. -/
theorem unmap_cases (hhdm root virt : Nat) {m : Machine} {head : Nat}
    (atHead : m.freelist = some head) :
    unmap hhdm root virt m = .ok m ∨ ∃ slot,
      unmap hhdm root virt m =
        .ok (unmapped hhdm m slot (extractPhysFromPte (m.memory slot)) head) := by
  rcases getTableLoop_still hhdm virt m 4 (tableFrame root + hhdm) with ⟨answer, walked⟩
  cases answer with
  | error message =>
      left
      simp only [unmap, getTable, walked, bind, Except.bind]
  | ok entry =>
      by_cases null : entry + hhdm = 0
      · left
        simp only [unmap, getTable, walked, bind, Except.bind, null, ne_eq, not_true_eq_false,
          if_false]
      · right
        refine ⟨entry + hhdm, ?_⟩
        simp only [unmap, getTable, walked, bind, Except.bind, null, ne_eq, not_false_eq_true,
          if_true, deallocatePage_eq atHead, Nat.add_sub_cancel, Machine.write, unmapped]

theorem Tables.unmap_missing (shape : Tables hhdm root m.memory tables)
    (absent : tables 0 (pageNumber virt / 512) = none) : unmap hhdm root virt m = .ok m := by
  rw [← stem_zero] at absent
  simp only [unmap, shape.getTable_eq, bind, Except.bind, Except.map, searched,
    shape.search_missing absent (shape.rootStem virt)]

/-- Where the table of the page is there, `unmap` releases the frame in its entry and
clears the entry. -/
theorem Tables.unmap_eq (shape : Tables hhdm root m.memory tables) {leaf : Nat}
    (real : 0 < leaf + hhdm) (present : tables 0 (pageNumber virt / 512) = some leaf) :
    unmap hhdm root virt m = (do
      let m ← deallocatePage hhdm
        (extractPhysFromPte (leafEntry hhdm m.memory tables (pageNumber virt)) + hhdm) m
      .ok (m.write (leaf + hhdm + pageNumber virt % 512 * 8) 0)) := by
  have address : leaf + hhdm + pageNumber virt % 512 * 8 - hhdm + hhdm =
      leaf + hhdm + pageNumber virt % 512 * 8 := by
    omega
  have nonzero : leaf + hhdm + pageNumber virt % 512 * 8 ≠ 0 := by omega
  rw [leafEntry_some present]
  rw [← stem_zero] at present
  simp only [unmap, shape.getTable_eq, bind, Except.bind, Except.map, searched, address, nonzero,
    ne_eq, not_false_eq_true, if_true,
    shape.search_found false present (Nat.le_refl 3) (shape.rootStem virt)]

theorem Tables.unmap_present (shape : Tables hhdm root m.memory tables) {leaf : Nat}
    (real : 0 < leaf + hhdm) (present : tables 0 (pageNumber virt / 512) = some leaf)
    (atHead : m.freelist = some head) :
    unmap hhdm root virt m = .ok (unmapped hhdm m (leaf + hhdm + pageNumber virt % 512 * 8)
      (extractPhysFromPte (leafEntry hhdm m.memory tables (pageNumber virt))) head) := by
  rw [shape.unmap_eq real present]
  simp only [deallocatePage_eq atHead, bind, Except.bind, Nat.add_sub_cancel, Machine.write,
    unmapped]

theorem Tables.freelist_of_unmap (shape : Tables hhdm root m.memory tables) {leaf : Nat}
    (real : 0 < leaf + hhdm) {m' : Machine}
    (present : tables 0 (pageNumber virt / 512) = some leaf)
    (done : unmap hhdm root virt m = .ok m') : ∃ head, m.freelist = some head := by
  rw [shape.unmap_eq real present] at done
  cases atHead : m.freelist with
  | none => simp [deallocatePage, atHead, bind, Except.bind] at done
  | some head => exact ⟨head, rfl⟩

end Unmap

/-! ### The hardware's walk -/

/-- What the processor reads off the entry of a 4 KiB page. -/
def pageTranslation (entry : Nat) : Option Translation :=
  if entry.testBit 0 then
    some
      { phys := extractPhysFromPte entry
        flags := entry &&& ((addressSpace - 1) ^^^ physMask)
        writable := entry.testBit 1
        user := entry.testBit 2
        executable := !entry.testBit 63 }
  else none

theorem pageTranslation_zero : pageTranslation 0 = none := rfl

theorem mappedFrame_one (entry virt : Nat) : mappedFrame entry virt 1 = extractPhysFromPte entry := by
  have aligned := (extractPhysFromPte_ok entry).aligned
  unfold mappedFrame
  simp only [levelShift]
  unfold pageSize at *
  omega

theorem Tables.translateFrom_eq (shape : Tables hhdm root memory tables) (j : Nat) (low : j ≤ 3)
    {frame : Nat} (here : tables j (stem 512 j (pageNumber virt)) = some frame) :
    translateFrom hhdm memory virt (j + 1) frame true true true =
      pageTranslation (leafEntry hhdm memory tables (pageNumber virt)) := by
  induction j generalizing frame with
  | zero =>
      rw [stem_zero] at here
      rw [translateFrom, leafEntry_some here, levelIndex_one]
      simp [pageTranslation, mappedFrame_one]
  | succ j inductionHypothesis =>
      rw [translateFrom, levelIndex_succ low]
      rw [stem_succ] at here
      rw [shape.entry here]
      cases there : tables j (stem 512 j (pageNumber virt)) with
      | none =>
          rw [shape.leafEntry_eq_zero (Nat.le_of_succ_le low) there]
          rfl
      | some child =>
          have ok := shape.frameOk there
          obtain ⟨bit0, bit1, bit2, bit7, bit63⟩ := ok.testBit_entry
          have upper : ¬(j + 1 + 1 = 1 ∨ ((j + 1 + 1 = 2 ∨ j + 1 + 1 = 3) ∧
              (tableEntry (some child)).testBit 7 = true)) := by
            simp [bit7]
          simp only [bit0, bit1, bit2, bit63, if_true, if_neg upper, ok.extractPhys_entry,
            Bool.and_self, Bool.not_false]
          exact inductionHypothesis (by omega) there

/-- The walk reads the entry of the page. -/
theorem Tables.translate_eq (shape : Tables hhdm root memory tables) (virt : Nat) :
    translate hhdm root memory virt =
      pageTranslation (leafEntry hhdm memory tables (pageNumber virt)) :=
  shape.translateFrom_eq 3 (Nat.le_refl 3) (shape.rootStem virt)

theorem pageTranslation_pageEntry {phys : Nat} {flags : PT} (ok : FrameOk phys)
    (present : flags.present = true) :
    pageTranslation (pageEntry phys flags) = some
      { phys := phys
        flags := flags.buildPermissions 1
        writable := flags.write
        user := flags.user
        executable := !flags.nexec } := by
  obtain ⟨bit0, bit1, bit2, bit63⟩ := testBit_pageEntry phys flags
  rw [pageTranslation, bit0, bit1, bit2, bit63, present, if_pos rfl, flags_pageEntry,
    extractPhys_pageEntry, ok.extractPhys]

end NyauxKernel.Memory
