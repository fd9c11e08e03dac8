/-
The search for the entry of a page in tables of any format: the level loop that
both architectures have in `get_table`.
-/

import NyauxKernel.Memory.TableFormat

namespace NyauxKernel.Memory

open RadixTree

/-! ### Pages taken by a call -/

/-- The code between two states took the frames `taken` and left the other statics
of the machine alone. -/
structure Took (taken : List Nat) (m m' : Machine) : Prop where
  calls : m'.pmmCalls = m.pmmCalls ++ taken.map .allocated
  ready : m'.freelist ≠ none
  slabCaches : m'.slabCaches = m.slabCaches
  kermap : m'.kermap = m.kermap
  cr3 : m'.cr3 = m.cr3

namespace Took

variable {taken more : List Nat} {m m' m'' : Machine}

theorem nothing (ready : m.freelist ≠ none) : Took [] m m where
  calls := (List.append_nil _).symm
  ready := ready
  slabCaches := rfl
  kermap := rfl
  cr3 := rfl

theorem trans (first : Took taken m m') (second : Took more m' m'') :
    Took (taken ++ more) m m'' where
  calls := by rw [second.calls, first.calls, List.map_append, List.append_assoc]
  ready := second.ready
  slabCaches := second.slabCaches.trans first.slabCaches
  kermap := second.kermap.trans first.kermap
  cr3 := second.cr3.trans first.cr3

theorem write (took : Took taken m m') (address value : Nat) :
    Took taken m (m'.write address value) where
  calls := took.calls
  ready := took.ready
  slabCaches := took.slabCaches
  kermap := took.kermap
  cr3 := took.cr3

theorem writes (took : Took taken m m') {inside : Nat → Prop} (written : Writes inside m' m'') :
    Took taken m m'' where
  calls := written.pmmCalls.trans took.calls
  ready := by rw [written.freelist]; exact took.ready
  slabCaches := written.slabCaches.trans took.slabCaches
  kermap := written.kermap.trans took.kermap
  cr3 := written.cr3.trans took.cr3

theorem unique (first : Took taken m m') (second : Took more m m') : taken = more := by
  have same := List.append_cancel_left (first.calls.symm.trans second.calls)
  exact List.map_injective_iff.mpr (fun _ _ => PmmCall.allocated.inj) same

theorem takenFrames (took : Took taken m m') : takenFrames m m' = taken := by
  have calls : m'.pmmCalls = m.pmmCalls ++ taken.map .allocated ++ [] := by
    rw [List.append_nil, took.calls]
  rw [takenFrames_allocated calls]
  exact List.append_nil taken

end Took

/-- The machine after `allocate_page` took `phy`. -/
def popped (hhdm : Nat) (m : Machine) (phy : Nat) : Machine :=
  { m with
    memory := WordMemory.zero m.memory (phy + hhdm) pageSize
    freelist := some (m.memory (phy + hhdm))
    pmmCalls := m.pmmCalls ++ [.allocated phy] }

theorem popped_took (hhdm : Nat) (m : Machine) (phy : Nat) : Took [phy] m (popped hhdm m phy) where
  calls := rfl
  ready := Option.some_ne_none _
  slabCaches := rfl
  kermap := rfl
  cr3 := rfl

theorem allocatePage_popped {hhdm phy : Nat} {m : Machine} (head : m.freelist = some phy) :
    allocatePage hhdm m = .ok (phy + hhdm, popped hhdm m phy) :=
  allocatePage_eq head

/-- The machine after the page of the entry `slot` was released and unmapped. -/
def unmapped (hhdm : Nat) (m : Machine) (slot frame head : Nat) : Machine :=
  { m with
    memory := Function.update
      (Function.update (WordMemory.zero m.memory (frame + hhdm) pageSize) (frame + hhdm) head)
      slot 0
    freelist := some frame
    pmmCalls := m.pmmCalls ++ [.released (frame + hhdm)] }

/-! ### The search -/

/-- The search for the entry of a page, from a table of level `j` at `table` down.
Nothing is found where a table is missing and none may be allocated. -/
def TableFormat.search (format : TableFormat) (hhdm page : Nat) (alloc : Bool) :
    Nat → Nat → Machine → Except Halt (Option Nat × Machine)
  | 0, table, m => .ok (some (table + page % 512 * 8), m)
  | j + 1, table, m =>
      let slot := table + stem 512 j page % 512 * 8
      if format.isLeaf (j + 1) (m.memory slot) then .ok (some slot, m)
      else if format.isAbsent (m.memory slot) then
        if alloc then do
          let (frame, m) ← allocatePage hhdm m
          let m := m.write slot (format.newEntry (frame - hhdm))
          format.search hhdm page alloc j (format.frame (m.memory slot) + hhdm) m
        else .ok (none, m)
      else format.search hhdm page alloc j (format.frame (m.memory slot) + hhdm) m

/-- With a free list, the search that allocates ends at an entry, whatever the tables
look like. -/
theorem TableFormat.search_total (format : TableFormat) (hhdm page j table : Nat) {m : Machine}
    (above : hhdm ≤ table) (ready : m.freelist ≠ none) :
    ∃ slot m' taken, format.search hhdm page true j table m = .ok (some slot, m') ∧
      hhdm ≤ slot ∧ Took taken m m' ∧ taken.length ≤ j := by
  induction j generalizing table m with
  | zero => exact ⟨_, m, [], rfl, by omega, Took.nothing ready, Nat.le_refl 0⟩
  | succ j inductionHypothesis =>
      rw [search]
      simp only [if_true]
      split
      · exact ⟨_, m, [], rfl, by omega, Took.nothing ready, Nat.zero_le _⟩
      · split
        · obtain ⟨phy, head⟩ := Option.ne_none_iff_exists'.mp ready
          simp only [allocatePage_popped head, bind, Except.bind]
          have first := (popped_took hhdm m phy).write (table + stem 512 j page % 512 * 8)
            (format.newEntry (phy + hhdm - hhdm))
          obtain ⟨slot, m', taken, done, behind, took, short⟩ :=
            inductionHypothesis _ (Nat.le_add_left _ _) first.ready
          exact ⟨slot, m', [phy] ++ taken, done, behind, first.trans took, by simp; omega⟩
        · obtain ⟨slot, m', taken, done, behind, took, short⟩ :=
            inductionHypothesis _ (Nat.le_add_left _ _) ready
          exact ⟨slot, m', taken, done, behind, took, Nat.le_succ_of_le short⟩

/-! ### One level of the search -/

namespace StoredTables

open TableFormat

variable {format : TableFormat} {hhdm root page j frame phy : Nat} {m m' : Machine}
  {tables : Nat → Nat → Option Nat} {alloc : Bool}

/-- The look at an entry of an upper table. -/
theorem search_upper (shape : StoredTables format hhdm root m.memory tables)
    (here : tables (j + 1) (stem 512 (j + 1) page) = some frame) :
    format.search hhdm page alloc (j + 1) (frame + hhdm) m =
      match tables j (stem 512 j page) with
      | some child => format.search hhdm page alloc j (child + hhdm) m
      | none =>
          if alloc then do
            let (page', m) ← allocatePage hhdm m
            let slot := frame + hhdm + stem 512 j page % 512 * 8
            let m := m.write slot (format.newEntry (page' - hhdm))
            format.search hhdm page alloc j (format.frame (m.memory slot) + hhdm) m
          else .ok (none, m) := by
  rw [stem_succ] at here
  have entry := shape.stored here
  have small := format.isLeaf_entry (j + 1) (tables j (stem 512 j page)) fun _ => shape.holds
  rw [search, entry]
  simp only [small, Bool.false_eq_true, if_false]
  cases present : tables j (stem 512 j page) with
  | none => simp only [format.isAbsent_none, if_true]
  | some child =>
      have holds := shape.holds present
      simp only [format.isAbsent_some holds, format.frame_entry holds, Bool.false_eq_true, if_false]

/-- Where the table of a page is there, it is found. -/
theorem search_found (shape : StoredTables format hhdm root m.memory tables) (alloc : Bool)
    {leaf : Nat} (present : tables 0 (stem 512 0 page) = some leaf) (low : j ≤ format.depth)
    (here : tables j (stem 512 j page) = some frame) :
    format.search hhdm page alloc j (frame + hhdm) m =
      .ok (some (leaf + hhdm + page % 512 * 8), m) := by
  induction j generalizing frame with
  | zero =>
      obtain rfl : frame = leaf := Option.some.inj (here.symm.trans present)
      rfl
  | succ j inductionHypothesis =>
      obtain ⟨child, there⟩ := shape.above present j (by omega)
      rw [Nat.zero_add] at there
      rw [shape.search_upper here, there]
      exact inductionHypothesis (by omega) there

/-- Where it is missing, the search that does not allocate says so. -/
theorem search_missing (shape : StoredTables format hhdm root m.memory tables)
    (absent : tables 0 (stem 512 0 page) = none)
    (here : tables j (stem 512 j page) = some frame) :
    format.search hhdm page false j (frame + hhdm) m = .ok (none, m) := by
  induction j generalizing frame with
  | zero =>
      rw [absent] at here
      contradiction
  | succ j inductionHypothesis =>
      rw [shape.search_upper here]
      cases there : tables j (stem 512 j page) with
      | none => rfl
      | some child => exact inductionHypothesis there

/-- No more frames are taken than tables are missing on the way. -/
theorem search_taken_le {answer : Option Nat} {taken : List Nat}
    (shape : StoredTables format hhdm root m.memory tables) (low : j ≤ format.depth)
    (here : tables j (stem 512 j page) = some frame) (ready : m.freelist ≠ none)
    (took : Took taken m m')
    (done : format.search hhdm page true j (frame + hhdm) m = .ok (answer, m')) :
    taken.length ≤ missing tables (path 512 j page) := by
  induction j generalizing frame with
  | zero =>
      obtain ⟨_, rfl⟩ := Prod.mk.inj (Except.ok.inj done)
      rw [took.unique (Took.nothing ready)]
      exact Nat.zero_le _
  | succ j inductionHypothesis =>
      cases there : tables j (stem 512 j page) with
      | some child =>
          rw [shape.search_upper here, there] at done
          exact Nat.le_trans (inductionHypothesis (by omega) there done)
            (missing_mono tables (path_mono (Nat.le_succ j)))
      | none =>
          -- no table below this one is there, and each level takes one at most
          obtain ⟨slot, after, taken', again, _, took', short⟩ :=
            format.search_total hhdm page (j + 1) (frame + hhdm) (Nat.le_add_left _ _) ready
          obtain ⟨_, rfl⟩ := Prod.mk.inj (Except.ok.inj (again.symm.trans done))
          rw [shape.missing_path (by omega) there, took.unique took']
          exact short

/-- A missing table is taken from the free list and entered. -/
theorem search_new (shape : StoredTables format hhdm root m.memory tables)
    (here : tables (j + 1) (stem 512 (j + 1) page) = some frame)
    (absent : tables j (stem 512 j page) = none)
    (head : m.freelist = some phy) (ok : format.Holds phy) :
    format.search hhdm page true (j + 1) (frame + hhdm) m =
      format.search hhdm page true j (phy + hhdm)
        { popped hhdm m phy with
          memory := format.entered hhdm m.memory
            (frame + hhdm + stem 512 j page % 512 * 8) phy } := by
  rw [shape.search_upper here, absent]
  simp only [if_true, allocatePage_popped head, bind, Except.bind, write_same,
    Nat.add_sub_cancel, format.newEntry_eq ok, format.frame_entry ok]
  rfl

/-- The record of a search that has to allocate starts with the head of the free
list. -/
theorem first_taken {answer : Option Nat} {taken : List Nat}
    (shape : StoredTables format hhdm root m.memory tables)
    (here : tables (j + 1) (stem 512 (j + 1) page) = some frame)
    (absent : tables j (stem 512 j page) = none)
    (head : m.freelist = some phy) (took : Took taken m m')
    (done : format.search hhdm page true (j + 1) (frame + hhdm) m = .ok (answer, m')) :
    ∃ rest, taken = phy :: rest ∧
      ∀ memory, Took rest { popped hhdm m phy with memory := memory } m' := by
  rw [shape.search_upper here, absent] at done
  simp only [if_true, allocatePage_popped head, bind, Except.bind] at done
  have first := (popped_took hhdm m phy).write
    (frame + hhdm + stem 512 j page % 512 * 8) (format.newEntry (phy + hhdm - hhdm))
  obtain ⟨slot, after, rest, finished, _, tookRest, _⟩ :=
    format.search_total hhdm page j _ (Nat.le_add_left _ _) first.ready
  obtain rfl : after = m' := (Prod.mk.inj (Except.ok.inj (finished.symm.trans done))).2
  refine ⟨rest, took.unique (first.trans tookRest), ?_⟩
  exact fun memory =>
    { calls := tookRest.calls
      ready := tookRest.ready
      slabCaches := tookRest.slabCaches
      kermap := tookRest.kermap
      cr3 := tookRest.cr3 }

end StoredTables

/-! ### The search that allocates -/

/-- What a call did to the tables: it took `taken` for new tables on the way to
`page`, and left `entries` for the pages. -/
structure TableStep (format : TableFormat) (hhdm root page : Nat) (m m' : Machine)
    (tables tables' : Nat → Nat → Option Nat) (taken : List Nat) (entries : Nat → Nat) :
    Prop where
  shape : StoredTables format hhdm root m'.memory tables'
  grown : Grown 512 page tables tables'
  added : ∀ {level place frame : Nat}, tables' level place = some frame →
    tables level place = some frame ∨ frame ∈ taken
  entries : leafEntry hhdm m'.memory tables' = entries
  quiet : ∀ address, ¬InTable hhdm tables' address → m'.memory address = m.memory address

namespace StoredTables

open TableFormat

variable {format : TableFormat} {frame head hhdm page root slot : Nat} {frames taken : List Nat}
  {m m' mid : Machine} {tables : Nat → Nat → Option Nat} {answer : Option Nat}

theorem search_alloc (j : Nat) (shape : StoredTables format hhdm root m.memory tables)
    (low : j ≤ format.depth) (here : tables j (stem 512 j page) = some frame)
    (ready : m.freelist ≠ none) (took : Took taken m m') (new : format.NewFrames tables taken)
    (done : format.search hhdm page true j (frame + hhdm) m = .ok (answer, m')) :
    ∃ tables' leaf, answer = some (leaf + hhdm + page % 512 * 8) ∧
      tables' 0 (page / 512) = some leaf ∧
      TableStep format hhdm root page m m' tables tables' taken (leafEntry hhdm m.memory tables) := by
  induction j generalizing m frame tables taken with
  | zero =>
      obtain ⟨rfl, rfl⟩ := Prod.mk.inj (Except.ok.inj done)
      obtain rfl : taken = [] := took.unique (Took.nothing ready)
      refine ⟨tables, frame, rfl, stem_zero 512 page ▸ here, ?_⟩
      exact
        { shape := shape
          grown := Grown.refl 512 _ tables
          added := Or.inl
          entries := rfl
          quiet := fun _ _ => rfl }
  | succ j inductionHypothesis =>
      cases there : tables j (stem 512 j page) with
      | some child =>
          rw [shape.search_upper here, there] at done
          exact inductionHypothesis shape (by omega) there ready took new done
      | none =>
          obtain ⟨phy, head⟩ := Option.ne_none_iff_exists'.mp ready
          -- the first frame of the record is the one taken here
          obtain ⟨rest, rfl, tookRest⟩ := first_taken shape here there head took done
          have fresh := new.2 phy List.mem_cons_self
          rw [shape.search_new here there head fresh.1] at done
          rw [stem_succ] at here
          obtain ⟨tables', leaf, answerEq, leafEq, step⟩ := inductionHypothesis
            (shape.enter here low there fresh) (by omega) (insert_same _ _ _ _)
            (Option.some_ne_none _) (tookRest _) (new.tail _ _) done
          have kept : tables' j (stem 512 j page) = some phy :=
            step.grown.keeps (insert_same _ _ _ _)
          refine ⟨tables', leaf, answerEq, leafEq, ?_⟩
          exact
            { shape := step.shape
              grown := (Grown.insert phy there).trans step.grown
              added := by
                intro level place other present
                rcases step.added present with earlier | later
                · rcases of_insert_eq_some earlier with ⟨_, _, rfl⟩ | old
                  · exact Or.inr List.mem_cons_self
                  · exact Or.inl old
                · exact Or.inr (List.mem_cons_of_mem phy later)
              entries := step.entries.trans (funext (shape.leafEntry_enter here there fresh))
              quiet := by
                intro address outside
                rw [step.quiet address outside]
                apply entered_outside
                · rintro rfl
                  have upper := (Grown.insert phy there).trans step.grown |>.keeps here
                  exact outside ⟨_, _, _, upper, entry_inPage _ _⟩
                · exact fun inside => outside ⟨_, _, _, kept, inside⟩ }

/-- The entry that was found is written. -/
theorem search_write (shape : StoredTables format hhdm root m.memory tables)
    (small : page < 512 ^ (format.depth + 1)) (ready : m.freelist ≠ none) (took : Took taken m mid)
    (new : format.NewFrames tables taken)
    (done : format.search hhdm page true format.depth (root + hhdm) m = .ok (some slot, mid))
    (value : Nat) :
    ∃ tables' leaf, tables' 0 (page / 512) = some leaf ∧
      slot = leaf + hhdm + page % 512 * 8 ∧
      TableStep format hhdm root page m (mid.write slot value) tables tables' taken
        (Function.update (leafEntry hhdm m.memory tables) page value) := by
  obtain ⟨tables', leaf, answerEq, leafEq, step⟩ := shape.search_alloc format.depth (Nat.le_refl _)
    (shape.root_of_stem small) ready took new done
  obtain rfl := Option.some.inj answerEq
  refine ⟨tables', leaf, leafEq, rfl, ?_⟩
  exact
    { shape := step.shape.writeLeaf leafEq _
      grown := step.grown
      added := step.added
      entries := (step.shape.leafEntry_writeLeaf leafEq _).trans (by rw [step.entries])
      quiet := by
        intro other outside
        rw [write_other, step.quiet other outside]
        rintro rfl
        exact outside ⟨_, _, _, leafEq, entry_inPage _ _⟩ }

/-- The free chain is not touched by a write into a table. -/
theorem chain_write {level place address : Nat} {memory memory' : Nat → Nat}
    (shape : StoredTables format hhdm root memory tables)
    (chain : FreeChain hhdm memory' head frames)
    (new : ∀ other ∈ frames, format.NewFrame tables other)
    (present : tables level place = some frame) (inside : InPage (frame + hhdm) address)
    (value : Nat) : FreeChain hhdm (Function.update memory' address value) head frames := by
  apply chain.congr
  intro other member
  apply Function.update_of_ne
  apply ne_of_inPage (inPage_start (other + hhdm))
  exact shape.not_inPage_new (new other member) present inside

/-- On a chain of frames that can become tables, a search takes them in order, or
runs out and takes frame zero. -/
theorem search_chain (j : Nat) (shape : StoredTables format hhdm root m.memory tables)
    (low : j ≤ format.depth) (here : tables j (stem 512 j page) = some frame)
    (atHead : m.freelist = some head) (chain : FreeChain hhdm m.memory head frames)
    (new : format.NewFrames tables frames) (took : Took taken m m')
    (done : format.search hhdm page true j (frame + hhdm) m = .ok (answer, m')) :
    (∃ rest head', frames = taken ++ rest ∧ m'.freelist = some head' ∧
      FreeChain hhdm m'.memory head' rest) ∨ ∃ more, taken = frames ++ 0 :: more := by
  have ready : m.freelist ≠ none := by simp [atHead]
  induction j generalizing m frame tables taken frames head with
  | zero =>
      obtain ⟨rfl, rfl⟩ := Prod.mk.inj (Except.ok.inj done)
      obtain rfl : taken = [] := took.unique (Took.nothing ready)
      exact Or.inl ⟨frames, head, rfl, atHead, chain⟩
  | succ j inductionHypothesis =>
      cases there : tables j (stem 512 j page) with
      | some child =>
          rw [shape.search_upper here, there] at done
          exact inductionHypothesis shape (by omega) there atHead chain new took done ready
      | none =>
          obtain ⟨rest, rfl, tookRest⟩ := first_taken shape here there atHead took done
          cases frames with
          | nil =>
              obtain rfl : head = 0 := chain.linked
              exact Or.inr ⟨rest, rfl⟩
          | cons phy frames =>
              obtain ⟨rfl, tail⟩ := chain.pop
              have fresh := new.2 head List.mem_cons_self
              rw [shape.search_new here there atHead fresh.1] at done
              rw [stem_succ] at here
              have linked := shape.chain_write tail
                (fun other member => new.2 other (List.mem_cons_of_mem head member)) here
                (entry_inPage _ (stem 512 j page)) (format.entry (some head))
              have later := inductionHypothesis (shape.enter here low there fresh) (by omega)
                (insert_same _ _ _ _) rfl linked (new.tail _ _) (tookRest _) done
                (Option.some_ne_none _)
              rcases later with ⟨left, head', rfl, atHead', chain'⟩ | ⟨more, rfl⟩
              · exact Or.inl ⟨left, head', rfl, atHead', chain'⟩
              · exact Or.inr ⟨more, rfl⟩

/-- So does a search whose entry is then written. -/
theorem search_write_chain (shape : StoredTables format hhdm root m.memory tables)
    (small : page < 512 ^ (format.depth + 1)) (atHead : m.freelist = some head)
    (chain : FreeChain hhdm m.memory head frames) (new : format.NewFrames tables frames)
    (took : Took taken m mid)
    (done : format.search hhdm page true format.depth (root + hhdm) m = .ok (some slot, mid))
    (value : Nat) :
    (∃ rest head', frames = taken ++ rest ∧ (mid.write slot value).freelist = some head' ∧
      FreeChain hhdm (mid.write slot value).memory head' rest) ∨
      ∃ more, taken = frames ++ 0 :: more := by
  have ready : m.freelist ≠ none := by simp [atHead]
  rcases shape.search_chain format.depth (Nat.le_refl _) (shape.root_of_stem small) atHead chain new
    took done with ⟨rest, head', rfl, atHead', chain'⟩ | out
  · have apart := (List.nodup_append.mp new.1).2.2
    obtain ⟨tables', leaf, leafEq, rfl, step⟩ :=
      shape.search_write small ready took new.left done value
    have unused : ∀ frame ∈ rest, format.NewFrame tables' frame := by
      intro frame member
      have older := new.2 frame (List.mem_append_right taken member)
      refine ⟨older.1, ?_⟩
      intro level place present
      rcases step.added present with old | inTaken
      · exact older.2 level place old
      · exact apart frame inTaken frame member rfl
    exact Or.inl ⟨rest, head', rfl, atHead', step.shape.chain_write chain' unused leafEq
      (entry_inPage _ _) _⟩
  · exact Or.inr out

/-! ### Releasing a page -/

section Release

variable {leaf : Nat}

/-- Releasing a frame that is no table leaves the tables alone. -/
theorem quiet_release (shape : StoredTables format hhdm root m.memory tables) (head : Nat)
    (new : format.NewFrame tables frame) :
    ∀ address, InTable hhdm tables address →
      Function.update (WordMemory.zero m.memory (frame + hhdm) pageSize) (frame + hhdm) head address =
        m.memory address := by
  rintro address ⟨level, place, table, present, inside⟩
  have outside := shape.not_inPage_new new present inside
  rw [Function.update_of_ne (ne_of_inPage (inPage_start _) outside).symm]
  exact WordMemory.zero_outside outside

theorem unmapped_shape (shape : StoredTables format hhdm root m.memory tables)
    (present : tables 0 (page / 512) = some leaf) (new : format.NewFrame tables frame) :
    StoredTables format hhdm root
      (unmapped hhdm m (leaf + hhdm + page % 512 * 8) frame head).memory tables :=
  (shape.congr (shape.quiet_release head new)).writeLeaf present 0

theorem unmapped_entries (shape : StoredTables format hhdm root m.memory tables)
    (present : tables 0 (page / 512) = some leaf) (new : format.NewFrame tables frame) :
    leafEntry hhdm
      (unmapped hhdm m (leaf + hhdm + page % 512 * 8) frame head).memory tables =
      Function.update (leafEntry hhdm m.memory tables) page 0 := by
  have quiet := shape.quiet_release head new
  rw [unmapped, (shape.congr quiet).leafEntry_writeLeaf present 0,
    funext (leafEntry_congr quiet)]

end Release

end StoredTables

end NyauxKernel.Memory
