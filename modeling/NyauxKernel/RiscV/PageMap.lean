/-
RISC-V page tables as a map from pages to translations, for the depths of Sv39, Sv48
and Sv57.

The allocator is only assumed to return frames that fit an entry and are not tables
yet.  Between the calls anything outside the tables may change.
-/

import NyauxKernel.RiscV.PageTable
import NyauxKernel.Memory.PageMap

namespace NyauxKernel.RiscV

open Memory RadixTree

/-! ### Entries -/

/-- A frame that an entry can hold. -/
structure FrameOk (frame : Nat) : Prop where
  aligned : frame % pageSize = 0
  bounded : frame < 2 ^ 56

/-- The entry with the page number of a frame and some flags. -/
def entryOf (frame flags : Nat) : Nat := frame / 2 ^ 12 * 2 ^ 10 + flags

section Entries

variable {frame flags : Nat}

theorem shifted_or (frame : Nat) (small : flags < 2 ^ 10) :
    ((frame >>> 12) <<< 10) ||| flags = entryOf frame flags := by
  rw [← Nat.shiftLeft_add_eq_or_of_lt small, Nat.shiftLeft_eq, Nat.shiftRight_eq_div_pow, entryOf]

theorem entryOf_mod (frame : Nat) (small : flags < 2 ^ 10) :
    entryOf frame flags % 2 ^ 10 = flags := by
  unfold entryOf
  omega

theorem testBit_entryOf (frame : Nat) (small : flags < 2 ^ 10) {bit : Nat} (low : bit < 10) :
    (entryOf frame flags).testBit bit = flags.testBit bit := by
  have same := Nat.testBit_mod_two_pow (entryOf frame flags) 10 bit
  rw [entryOf_mod frame small, decide_eq_true low, Bool.true_and] at same
  exact same.symm

theorem FrameOk.ppn_entryOf (ok : FrameOk frame) (small : flags < 2 ^ 10) :
    ppn (entryOf frame flags) * pageSize = frame := by
  obtain ⟨aligned, bounded⟩ := ok
  unfold pageSize at *
  unfold ppn entryOf
  omega

theorem FrameOk.entryOf_lt (ok : FrameOk frame) (small : flags < 2 ^ 10) :
    entryOf frame flags < 2 ^ 54 := by
  have bounded := ok.bounded
  unfold entryOf
  omega

end Entries

theorem extractPhysFromPte_eq (pte : Nat) : extractPhysFromPte pte = ppn pte * pageSize := by
  have mask : (0xFFFFFFFFFFF : Nat) = 2 ^ 44 - 1 := by decide
  have size : pageSize = 2 ^ 12 := by decide
  rw [extractPhysFromPte, mask, size, Nat.shiftRight_eq_div_pow, Nat.and_two_pow_sub_one_eq_mod,
    Nat.shiftLeft_eq, ppn]

/-- The entry for a table, or for none. -/
def tableEntry : Option Nat → Nat
  | none => 0
  | some frame => entryOf frame 1

/-- Of the flags, a table's entry has only the first. -/
theorem testBit_tableEntry (frame : Nat) {bit : Nat} (low : bit < 10) :
    (tableEntry (some frame)).testBit bit = decide (bit = 0) := by
  rw [tableEntry, testBit_entryOf frame (by decide) low]
  rw [Bool.eq_iff_iff, Nat.testBit_one_eq_true_iff_self_eq_zero, decide_eq_true_iff]

def svFormat (depth : Nat) : TableFormat where
  depth := depth
  Holds := FrameOk
  entry := tableEntry
  isLeaf := fun _ entry =>
    ((PT.new entry).read || (PT.new entry).write || (PT.new entry).execute) && (PT.new entry).valid
  isAbsent := fun entry => !(PT.new entry).valid
  frame := extractPhysFromPte
  newEntry := fun frame => ((frame >>> 12) <<< 10) ||| 1
  aligned := FrameOk.aligned
  entry_none := rfl
  isLeaf_entry := by
    intro level child ok
    cases child with
    | none => rfl
    | some frame =>
        simp (disch := decide) only [PT.new, testBit_tableEntry]
        rfl
  isAbsent_none := rfl
  isAbsent_some := by
    intro frame ok
    simp (disch := decide) only [PT.new, testBit_tableEntry]
    rfl
  frame_entry := by
    intro frame ok
    rw [extractPhysFromPte_eq, tableEntry, ok.ppn_entryOf (by decide)]
  newEntry_eq := fun {frame} _ => shifted_or frame (by decide)

/-! ### Page numbers -/

/-- The page number of an address: as many digits as there are levels. -/
def pageNumber (levels virt : Nat) : Nat := virt / pageSize % 512 ^ levels

theorem pageNumber_lt (depth virt : Nat) :
    pageNumber (depth + 1) virt < 512 ^ ((svFormat depth).depth + 1) :=
  Nat.mod_lt _ (Nat.pow_pos (by decide))

theorem vpn_eq {depth i : Nat} (low : i ≤ depth) (virt : Nat) :
    vpn virt i = pageNumber (depth + 1) virt / 512 ^ i % 512 := by
  have size : 2 ^ (12 + 9 * i) = pageSize * 512 ^ i := by
    rw [Nat.pow_add, Nat.pow_mul]
    rfl
  have divides : 512 ^ i * 512 ∣ 512 ^ (depth + 1) := by
    rw [← Nat.pow_succ]
    exact Nat.pow_dvd_pow 512 (by omega)
  rw [vpn, size, ← Nat.div_div_eq_div_mul, pageNumber, ← Nat.mod_mul_right_div_self _ _ 512,
    Nat.mod_mod_of_dvd _ divides, Nat.mod_mul_right_div_self]
  rfl

theorem levelIndex_eq (virt level : Nat) : levelIndex virt level = vpn virt level := by
  have mask : (0x1FF : Nat) = 2 ^ 9 - 1 := by decide
  rw [levelIndex, vpn, mask, Nat.shiftRight_eq_div_pow, Nat.and_two_pow_sub_one_eq_mod,
    Nat.mul_comm level 9]

theorem vpn_zero (depth virt : Nat) : vpn virt 0 = pageNumber (depth + 1) virt % 512 := by
  rw [vpn_eq (Nat.zero_le depth), Nat.pow_zero, Nat.div_one]

/-- Canonical addresses with the same page number are on the same page. -/
theorem canonical_page {mode : PagingMode} {virt other : Nat}
    (canonical : Canonical (svLevels mode) virt) (canonicalOther : Canonical (svLevels mode) other) :
    pageNumber (svLevels mode) other = pageNumber (svLevels mode) virt ↔
      other / pageSize = virt / pageSize := by
  unfold Canonical at *
  unfold pageNumber pageSize
  cases mode with
  | riscvSv39 | riscvSv48 | riscvSv57 =>
      simp only [svLevels] at *
      omega

/-- The page of a canonical address has canonical addresses only. -/
theorem canonical_of_page {mode : PagingMode} {virt other : Nat}
    (canonical : Canonical (svLevels mode) virt) (same : other / pageSize = virt / pageSize) :
    Canonical (svLevels mode) other := by
  unfold Canonical pageSize at *
  cases mode with
  | riscvSv39 | riscvSv48 | riscvSv57 =>
      simp only [svLevels] at *
      omega

/-! ### `map4kib` -/

/-- The answer of `get_table` to what the search found. -/
def searched : Option Nat × Machine → Except String Nat × Machine
  | (some slot, m) => (.ok slot, m)
  | (none, m) => (.error "gg broski", m)

theorem getTableLoop_eq (hhdm virt : Nat) (alloc : Bool) {depth j : Nat} (low : j ≤ depth)
    (table : Nat) (m : Machine) :
    getTableLoop hhdm virt 0 alloc (j + 1) table m =
      ((svFormat depth).search hhdm (pageNumber (depth + 1) virt) alloc j table m).map searched := by
  induction j generalizing table m with
  | zero =>
      simp [getTableLoop, levelIndex_eq, vpn_zero depth, TableFormat.search, searched, Except.map]
  | succ j inductionHypothesis =>
      have next := inductionHypothesis (by omega)
      have index : levelIndex virt (j + 1) = stem 512 j (pageNumber (depth + 1) virt) % 512 := by
        rw [levelIndex_eq, vpn_eq low, stem]
      have notLast : (j + 1 == 0) = false := rfl
      rw [getTableLoop, TableFormat.search, index]
      generalize table + stem 512 j (pageNumber (depth + 1) virt) % 512 * 8 = slot
      have leaf : (((PT.new (m.memory slot)).read || (PT.new (m.memory slot)).write ||
          (PT.new (m.memory slot)).execute) && (PT.new (m.memory slot)).valid) =
          (svFormat depth).isLeaf (j + 1) (m.memory slot) := rfl
      have absent : (!(PT.new (m.memory slot)).valid) = (svFormat depth).isAbsent (m.memory slot) :=
        rfl
      simp only [next, notLast, Bool.false_or, Nat.not_lt_zero, if_false, leaf, absent]
      cases (svFormat depth).isLeaf (j + 1) (m.memory slot) with
      | true => rfl
      | false =>
          cases (svFormat depth).isAbsent (m.memory slot) with
          | false => rfl
          | true =>
              cases alloc with
              | false => rfl
              | true =>
                  cases allocatePage hhdm m with
                  | error halt => rfl
                  | ok taken => rfl

theorem flagBit_lt (flag : Bool) {bit : Nat} (low : bit < 10) : flagBit flag bit < 2 ^ 10 := by
  cases flag with
  | false => exact Nat.two_pow_pos 10
  | true => exact Nat.pow_lt_pow_right (by decide) low

theorem buildPermissions_lt (flags : PT) : flags.buildPermissions < 2 ^ 10 := by
  unfold PT.buildPermissions
  repeat' apply Nat.or_lt_two_pow
  all_goals exact flagBit_lt _ (by decide)

section Map

variable {depth hhdm root virt phys : Nat} {flags : PT} {m m' : Machine} {taken frames : List Nat}
  {tables : Nat → Nat → Option Nat}

theorem map4kib_eq {slot : Nat} {mid : Machine}
    (found : (svFormat depth).search hhdm (pageNumber (depth + 1) virt) true depth (root + hhdm) m =
      .ok (some slot, mid)) :
    map4kib (depth + 1) hhdm root virt phys flags m =
      .ok (.ok (), mid.write slot (entryOf phys flags.buildPermissions)) := by
  simp only [map4kib, getTable, getTableLoop_eq hhdm virt true (Nat.le_refl depth), found, Except.map,
    searched, bind, Except.bind, shifted_or phys (buildPermissions_lt flags)]

/-- `map4kib` succeeds whenever there is a free list. -/
theorem map4kib_total (depth hhdm root virt phys : Nat) (flags : PT) (ready : m.freelist ≠ none) :
    ∃ slot mid taken,
      map4kib (depth + 1) hhdm root virt phys flags m =
        .ok (.ok (), mid.write slot (entryOf phys flags.buildPermissions)) ∧
      (svFormat depth).search hhdm (pageNumber (depth + 1) virt) true depth (root + hhdm) m =
        .ok (some slot, mid) ∧
      Took taken m mid ∧ taken.length ≤ depth := by
  obtain ⟨slot, mid, taken, found, _, took, short⟩ :=
    (svFormat depth).search_total hhdm (pageNumber (depth + 1) virt) depth (root + hhdm)
      (Nat.le_add_left _ _) ready
  exact ⟨slot, mid, taken, map4kib_eq found, found, took, short⟩

end Map

/-! ### The hardware's walk -/

/-- What the processor reads off the entry of a 4 KiB page. -/
def pageTranslation (pte : Nat) : Option Translation :=
  if faults pte then none
  else if pte.testBit 1 || pte.testBit 3 then
    some
      { phys := ppn pte * pageSize
        flags := pte % 2 ^ 10
        readable := pte.testBit 1
        writable := pte.testBit 2
        executable := pte.testBit 3
        user := pte.testBit 4
        global := pte.testBit 5 }
  else none

theorem pageTranslation_zero : pageTranslation 0 = none := rfl

section Walk

variable {depth hhdm root : Nat} {memory : Nat → Nat} {tables : Nat → Nat → Option Nat}

/-- One level of the walk over an upper table. -/
theorem translateFrom_upper (shape : StoredTables (svFormat depth) hhdm root memory tables)
    {virt j frame : Nat} (low : j + 1 ≤ depth)
    (here : tables (j + 1) (stem 512 (j + 1) (pageNumber (depth + 1) virt)) = some frame) :
    translateFrom hhdm memory virt (j + 1 + 1) frame false =
      match tables j (stem 512 j (pageNumber (depth + 1) virt)) with
      | some child => translateFrom hhdm memory virt (j + 1) child false
      | none => none := by
  rw [stem_succ] at here
  have stored : memory _ = tableEntry _ := shape.stored here
  rw [translateFrom, vpn_eq low, ← stem, stored]
  cases there : tables j (stem 512 j (pageNumber (depth + 1) virt)) with
  | none => rfl
  | some child =>
      have ok : FrameOk child := shape.holds there
      have small : ¬2 ^ 54 ≤ tableEntry (some child) := Nat.not_le.mpr (ok.entryOf_lt (by decide))
      have next : ppn (tableEntry (some child)) * pageSize = child := ok.ppn_entryOf (by decide)
      simp (disch := decide) only [faults, testBit_tableEntry, small, next]
      rfl

theorem translateFrom_eq (shape : StoredTables (svFormat depth) hhdm root memory tables)
    (virt j : Nat) (low : j ≤ depth) {frame : Nat}
    (here : tables j (stem 512 j (pageNumber (depth + 1) virt)) = some frame) :
    translateFrom hhdm memory virt (j + 1) frame false =
      pageTranslation (leafEntry hhdm memory tables (pageNumber (depth + 1) virt)) := by
  induction j generalizing frame with
  | zero =>
      rw [stem_zero] at here
      rw [translateFrom, leafEntry_some here, vpn_zero depth, pageTranslation]
      simp only [Nat.pow_zero, Nat.mod_one, if_true, Nat.add_zero, Bool.false_or, translateFrom,
        ite_self]
  | succ j inductionHypothesis =>
      rw [translateFrom_upper shape low here]
      cases there : tables j (stem 512 j (pageNumber (depth + 1) virt)) with
      | none => rw [shape.leafEntry_eq_zero (Nat.le_of_succ_le low) there, pageTranslation_zero]
      | some child => exact inductionHypothesis (Nat.le_of_succ_le low) there

/-- The walk reads the entry of the page. -/
theorem translate_eq (shape : StoredTables (svFormat depth) hhdm root memory tables) {virt : Nat}
    (canonical : Canonical (depth + 1) virt) :
    translate (depth + 1) hhdm root memory virt =
      pageTranslation (leafEntry hhdm memory tables (pageNumber (depth + 1) virt)) := by
  rw [translate, if_pos canonical]
  exact translateFrom_eq shape virt depth (Nat.le_refl depth)
    (shape.root_of_stem (pageNumber_lt depth virt))

end Walk

/-- The translation that `map4kib` is asked for. -/
def requested (phys : Nat) (flags : PT) : Translation :=
  { phys := phys
    flags := flags.buildPermissions
    readable := flags.read
    writable := flags.write
    executable := flags.execute
    user := flags.user
    global := flags.global }

theorem testBit_buildPermissions (flags : PT) :
    flags.buildPermissions.testBit 0 = flags.valid ∧ flags.buildPermissions.testBit 1 = flags.read ∧
      flags.buildPermissions.testBit 2 = flags.write ∧
      flags.buildPermissions.testBit 3 = flags.execute ∧
      flags.buildPermissions.testBit 4 = flags.user ∧
      flags.buildPermissions.testBit 5 = flags.global := by
  simp only [PT.buildPermissions, Nat.testBit_or, testBit_flagBit]
  simp

theorem pageTranslation_requested {phys : Nat} (ok : FrameOk phys) (fla : VMMFlags) :
    pageTranslation (entryOf phys (PT.fromVmmflags fla).buildPermissions) =
      some (requested phys (PT.fromVmmflags fla)) := by
  have small := buildPermissions_lt (PT.fromVmmflags fla)
  have inside := Nat.not_le.mpr (ok.entryOf_lt small)
  obtain ⟨valid, read, write, execute, user, global⟩ :=
    testBit_buildPermissions (PT.fromVmmflags fla)
  simp (disch := decide) only [pageTranslation, requested, faults, testBit_entryOf phys small,
    entryOf_mod phys small, ok.ppn_entryOf small, valid, read, write, execute, user, global, inside]
  rfl

/-! ### Runs -/

/-- The frame of the table that an entry is for: it is valid, and no page may be
accessed through it. -/
def nextTable (pte : Nat) : Option Nat :=
  if pte.testBit 0 && !(pte.testBit 1 || pte.testBit 2 || pte.testBit 3) then
    some (ppn pte * pageSize)
  else none

theorem nextTable_entry (child : Option Nat) (ok : ∀ table, child = some table → FrameOk table) :
    nextTable (tableEntry child) = child := by
  cases child with
  | none => rfl
  | some table =>
      have next : ppn (tableEntry (some table)) * pageSize = table :=
        (ok table rfl).ppn_entryOf (by decide)
      simp (disch := decide) only [nextTable, testBit_tableEntry, next]
      rfl

/-- Frames that `allocate_page` may return: none of them a table. -/
def Unused (levels hhdm root : Nat) (m : Machine) (frames : List Nat) : Prop :=
  frames.Nodup ∧ ∀ frame ∈ frames, FrameOk frame ∧
    ∀ level, ¬LedTo nextTable hhdm m.memory root (levels - 1) level frame

/-- The machines whose tables below `root` were built by the calls. -/
inductive TableReachable (levels hhdm root : Nat) : Machine → Prop
  | zeroed {m : Machine} (ok : FrameOk root)
      (zero : ∀ address, InPage (root + hhdm) address → m.memory address = 0) :
      TableReachable levels hhdm root m
  | map {m m' : Machine} (virt phys : Nat) (flags : PT)
      (before : TableReachable levels hhdm root m) (ready : m.freelist ≠ none)
      (done : map4kib levels hhdm root virt phys flags m = .ok (.ok (), m'))
      (unused : Unused levels hhdm root m (takenFrames m m')) : TableReachable levels hhdm root m'
  | elsewhere {m m' : Machine} (before : TableReachable levels hhdm root m)
      (same : ∀ level frame address,
        LedTo nextTable hhdm m.memory root (levels - 1) level frame →
        InPage (frame + hhdm) address → m'.memory address = m.memory address) :
      TableReachable levels hhdm root m'

section Runs

variable {depth hhdm root : Nat} {m m' : Machine} {tables : Nat → Nat → Option Nat}

theorem newFrames_iff_unused (shape : StoredTables (svFormat depth) hhdm root m.memory tables)
    {frames : List Nat} :
    (svFormat depth).NewFrames tables frames ↔ Unused (depth + 1) hhdm root m frames := by
  have ledTo := shape.ledTo_iff nextTable_entry
  constructor
  · rintro ⟨distinct, new⟩
    refine ⟨distinct, fun frame member => ⟨(new frame member).1, ?_⟩⟩
    intro level isTable
    obtain ⟨place, there⟩ := (ledTo level frame).mp isTable
    exact (new frame member).2 level place there
  · rintro ⟨distinct, unused⟩
    refine ⟨distinct, fun frame member => ⟨(unused frame member).1, ?_⟩⟩
    intro level place there
    exact (unused frame member).2 level ((ledTo level frame).mpr ⟨place, there⟩)

/-- The new entry, with new tables on the way to it. -/
theorem map4kib_step (shape : StoredTables (svFormat depth) hhdm root m.memory tables)
    {virt phys : Nat} {flags : PT} (ready : m.freelist ≠ none)
    (done : map4kib (depth + 1) hhdm root virt phys flags m = .ok (.ok (), m'))
    (unused : Unused (depth + 1) hhdm root m (takenFrames m m')) :
    ∃ tables', StoredTables (svFormat depth) hhdm root m'.memory tables' ∧
      leafEntry hhdm m'.memory tables' = Function.update (leafEntry hhdm m.memory tables)
        (pageNumber (depth + 1) virt) (entryOf phys flags.buildPermissions) := by
  obtain ⟨slot, mid, taken, again, found, took, _⟩ :=
    map4kib_total depth hhdm root virt phys flags ready
  obtain rfl := (Prod.mk.inj (Except.ok.inj (done.symm.trans again))).2
  rw [(took.write _ _).takenFrames] at unused
  obtain ⟨tables', _, _, _, step⟩ := shape.search_write (pageNumber_lt depth virt) ready took
    ((newFrames_iff_unused shape).mpr unused) found (entryOf phys flags.buildPermissions)
  exact ⟨tables', step.shape, step.entries⟩

theorem TableReachable.stored (reached : TableReachable (depth + 1) hhdm root m) :
    ∃ tables, StoredTables (svFormat depth) hhdm root m.memory tables := by
  induction reached with
  | zeroed ok zero => exact ⟨_, StoredTables.single ok zero⟩
  | map virt phys flags before ready done unused inductionHypothesis =>
      obtain ⟨tables, shape⟩ := inductionHypothesis
      obtain ⟨tables', shape', _⟩ := map4kib_step shape ready done unused
      exact ⟨tables', shape'⟩
  | elsewhere before same inductionHypothesis =>
      obtain ⟨tables, shape⟩ := inductionHypothesis
      refine ⟨tables, shape.congr ?_⟩
      rintro address ⟨level, place, frame, there, inside⟩
      exact same level frame address ((shape.ledTo_iff nextTable_entry level frame).mpr ⟨place, there⟩)
        inside

end Runs

theorem exists_depth (mode : PagingMode) : ∃ depth, svLevels mode = depth + 1 := by
  cases mode with
  | riscvSv39 => exact ⟨2, rfl⟩
  | riscvSv48 => exact ⟨3, rfl⟩
  | riscvSv57 => exact ⟨4, rfl⟩

/-- RISC-V page tables refine a map.  In each of the three modes and in every machine that
calls of `map4kib` lead to from a zeroed root, `map4kib` succeeds and gives the page of
`virt` the requested frame and flags and no other page another translation. -/
theorem riscv_page_tables_refine_map (mode : PagingMode) (hhdm root : Nat) (m : Machine)
    (reached : TableReachable (svLevels mode) hhdm root m) (ready : m.freelist ≠ none)
    (virt phys : Nat) (fla : VMMFlags) (canonical : Canonical (svLevels mode) virt)
    (aligned : phys % pageSize = 0) (bounded : phys < 2 ^ 56) :
    ∃ m', map4kib (svLevels mode) hhdm root virt phys (PT.fromVmmflags fla) m =
        .ok (.ok (), m') ∧
      (Unused (svLevels mode) hhdm root m (takenFrames m m') →
        ∀ other, translate (svLevels mode) hhdm root m'.memory other =
          if other / pageSize = virt / pageSize then some (requested phys (PT.fromVmmflags fla))
          else translate (svLevels mode) hhdm root m.memory other) := by
  have page := @canonical_page mode virt
  have onPage := @canonical_of_page mode virt
  obtain ⟨depth, levels⟩ := exists_depth mode
  rw [levels] at reached canonical page onPage ⊢
  obtain ⟨tables, shape⟩ := reached.stored
  obtain ⟨slot, mid, taken, done, _⟩ :=
    map4kib_total depth hhdm root virt phys (PT.fromVmmflags fla) ready
  refine ⟨_, done, ?_⟩
  intro unused other
  obtain ⟨tables', shape', entries⟩ := map4kib_step shape ready done unused
  by_cases canonicalOther : Canonical (depth + 1) other
  · rw [translate_eq shape' canonicalOther, translate_eq shape canonicalOther, entries]
    by_cases same : other / pageSize = virt / pageSize
    · rw [if_pos same, (page canonical canonicalOther).mpr same, Function.update_self,
        pageTranslation_requested ⟨aligned, bounded⟩]
    · rw [if_neg same, Function.update_of_ne (mt (page canonical canonicalOther).mp same)]
  · rw [if_neg (mt (onPage canonical) canonicalOther), translate, if_neg canonicalOther, translate,
      if_neg canonicalOther]

theorem riscv_page_tables_refine_map_sv39 :
    ∃ m', map4kib (svLevels .riscvSv39) (2 ^ 47) 0x1000 0xffffffc000000000 0x80000000
        (PT.fromVmmflags writeFlags) threeFree = .ok (.ok (), m') ∧
      ∀ other, translate (svLevels .riscvSv39) (2 ^ 47) 0x1000 m'.memory other =
        if other / pageSize = 0xffffffc000000000 / pageSize then
          some (requested 0x80000000 (PT.fromVmmflags writeFlags))
        else translate (svLevels .riscvSv39) (2 ^ 47) 0x1000 threeFree.memory other := by
  have ok : FrameOk 0x1000 := { aligned := by decide, bounded := by decide }
  have ready : threeFree.freelist ≠ none := Option.some_ne_none _
  obtain ⟨m', done, translates⟩ := riscv_page_tables_refine_map .riscvSv39 (2 ^ 47) 0x1000 threeFree
    (TableReachable.zeroed ok threeFree_zero) ready 0xffffffc000000000 0x80000000 writeFlags
    (by decide) (by decide) (by decide)
  refine ⟨m', done, translates ?_⟩
  have shape : StoredTables (svFormat 2) (2 ^ 47) 0x1000 threeFree.memory _ :=
    StoredTables.single ok threeFree_zero
  have new : (svFormat 2).NewFrames (RadixTree.insert (fun _ _ => none) 2 0 0x1000)
      [0x2000, 0x3000, 0x4000] := by
    refine ⟨by decide, ?_⟩
    intro frame member
    obtain ⟨aligned, bounded, different⟩ := threeFree_frames frame member
    exact TableFormat.newFrame_single ⟨aligned, Nat.lt_trans bounded (by decide)⟩ different
  obtain ⟨slot, mid, taken, again, found, took, short⟩ :=
    map4kib_total 2 (2 ^ 47) 0x1000 0xffffffc000000000 0x80000000 (PT.fromVmmflags writeFlags) ready
  obtain rfl := (Prod.mk.inj (Except.ok.inj (done.symm.trans again))).2
  rw [(took.write _ _).takenFrames]
  apply (newFrames_iff_unused shape).mp
  rcases shape.search_write_chain (pageNumber_lt 2 _) rfl threeFree_chain new took found 0 with
    ⟨rest, _, split, _⟩ | ⟨more, long⟩
  · rw [split] at new
    exact new.left
  · rw [long, List.length_append, List.length_cons] at short
    simp only [List.length_cons, List.length_nil] at short
    omega

end NyauxKernel.RiscV
