/-
The page tables among the owners of frames: what mapping and unmapping a page does
to the free chain, the slabs and the tables together.
-/

import NyauxKernel.Memory.Ownership

namespace NyauxKernel.Memory

open RadixTree

structure Store (ram : Ram) (root : Nat) (v : View) (m : Machine) : Prop
    extends Pool ram v m where
  shape : Tables ram.hhdm root m.memory v.tables
  tableOwned : ∀ {level place frame : Nat}, v.tables level place = some frame →
    v.owner frame = .table

/-- The entry of each page. -/
def entries (ram : Ram) (v : View) (m : Machine) : Nat → Nat := leafEntry ram.hhdm m.memory v.tables

/-- What a call did that entered `entry` for the page of `virt`. -/
structure PageMapped (ram : Ram) (root : Nat) (v : View) (m : Machine) (virt entry : Nat)
    (v' : View) (m' : Machine) : Prop where
  store : Store ram root v' m'
  took : ∃ taken, v.free = taken ++ v'.free ∧ Took taken m m' ∧
    v'.owner = assign taken .table v.owner
  slabs : v'.slabs = v.slabs
  present : ∃ leaf, v'.tables 0 (pageNumber virt / 512) = some leaf
  grown : Grown 512 (pageNumber virt) v.tables v'.tables
  entries : entries ram v' m' = Function.update (entries ram v m) (pageNumber virt) entry
  quiet : ∀ address, ¬Owned ram.hhdm v'.owner .table address →
    m'.memory address = m.memory address

namespace Store

variable {ram : Ram} {root : Nat} {v : View} {m m' : Machine} {virt phys : Nat} {flags : PT}
  {taken : List Nat}

variable {address frame head leaf phy : Nat} {rest : List Nat}

theorem table_owned (store : Store ram root v m) (inside : InTable ram.hhdm v.tables address) :
    Owned ram.hhdm v.owner .table address := by
  obtain ⟨level, place, frame, present, inPage⟩ := inside
  exact ⟨frame, (store.shape.frameOk present).aligned, store.tableOwned present, inPage⟩

theorem table_real (store : Store ram root v m) {level place table : Nat}
    (present : v.tables level place = some table) : 0 < table + ram.hhdm := by
  have real := (store.usable (store.tableOwned present) (by decide)).real
  omega

theorem newFrame (store : Store ram root v m) (ok : FrameOk frame)
    (noTable : v.owner frame ≠ .table) : Tables.NewFrame v.tables frame :=
  ⟨ok, fun _ _ present => noTable (store.tableOwned present)⟩

theorem newFrames (store : Store ram root v m) : NewFrames v.tables v.free := by
  refine ⟨store.free_nodup, ?_⟩
  intro frame member
  have owned := store.freeOwned frame member
  exact store.newFrame (store.usable owned (by decide)).frameOk (by rw [owned]; decide)

/-! ### Mapping a page -/

theorem map4kib_mapped (store : Store ram root v m) (took : Took taken m m')
    (done : map4kib ram.hhdm root virt phys flags m = .ok (.ok (), m'))
    (enough : ∀ more, taken ≠ v.free ++ 0 :: more) :
    ∃ v', PageMapped ram root v m virt (pageEntry phys flags) v' m' := by
  obtain ⟨head, atHead, chain⟩ := store.chain
  rcases store.shape.map4kib_chain atHead chain store.newFrames took done with
    ⟨rest, head', split, atHead', chain'⟩ | ⟨more, long⟩
  · have new := store.newFrames
    rw [split] at new
    have apart := (List.nodup_append.mp new.1).2.2
    have inFree : ∀ frame ∈ taken, v.owner frame = .free := fun frame member =>
      store.freeOwned frame (split ▸ List.mem_append_left rest member)
    obtain ⟨tables', leaf, leafEq, step⟩ := store.shape.map4kib_step store.ready took new.left done
    have isTable : ∀ {level place frame : Nat}, tables' level place = some frame →
        assign taken .table v.owner frame = .table := by
      intro level place frame present
      by_cases inTaken : frame ∈ taken
      · exact assign_mem .table v.owner inTaken
      · rw [assign_not_mem .table v.owner inTaken]
        exact store.tableOwned ((step.added present).resolve_right inTaken)
    have quiet : ∀ address, ¬Owned ram.hhdm (assign taken .table v.owner) .table address →
        m'.memory address = m.memory address := by
      intro address outside
      apply step.quiet
      rintro ⟨level, place, frame, present, inside⟩
      exact outside ⟨frame, x86Format.aligned (step.shape.holds present), isTable present, inside⟩
    have slabKept : ∀ {frame : Nat}, v.owner frame = .slab →
        assign taken .table v.owner frame = .slab := by
      intro frame isSlab
      rw [assign_not_mem, isSlab]
      intro member
      rw [inFree frame member] at isSlab
      contradiction
    refine ⟨{ v with
      owner := assign taken .table v.owner
      free := rest
      tables := tables' }, ?_⟩
    constructor
    case store =>
      constructor
      case shape => exact step.shape
      case tableOwned => exact isTable
      constructor
      case chain => exact ⟨head', atHead', chain'⟩
      case freeOwned =>
        intro frame member
        refine (assign_not_mem .table v.owner ?_).trans
          (store.freeOwned frame (split ▸ List.mem_append_right taken member))
        exact fun inTaken => apart frame inTaken frame member rfl
      case managed =>
        intro frame inside
        by_cases inTaken : frame ∈ taken
        · exact store.managed frame (inFree frame inTaken ▸ by decide)
        · exact store.managed frame (assign_not_mem .table v.owner inTaken ▸ inside)
      case slab =>
        apply store.slab.congr took.slabCaches
        intro address isPrivate
        apply quiet
        obtain ⟨frame, aligned, isSlab, inside⟩ := store.private_owned isPrivate
        intro clash
        have same := clash.unique ⟨frame, aligned, slabKept isSlab, inside⟩
        contradiction
      case slabOwned =>
        intro page isPage
        obtain ⟨frame, pageEq, isSlab⟩ := store.slabOwned page isPage
        exact ⟨frame, pageEq, slabKept isSlab⟩
    case took => exact ⟨taken, split, took, rfl⟩
    case slabs => rfl
    case present => exact ⟨leaf, leafEq⟩
    case grown => exact step.grown
    case entries => exact step.entries
    case quiet => exact quiet
  · exact absurd long (enough more)

/-- What a `map4kib` did that returned without having run out of pages. -/
theorem map4kib_done (store : Store ram root v m) {answer : Except String Unit}
    (done : map4kib ram.hhdm root virt phys flags m = .ok (answer, m'))
    (supplied : Supplied m') :
    ∃ v', answer = .ok () ∧ PageMapped ram root v m virt (pageEntry phys flags) v' m' := by
  obtain ⟨_, taken, again, took, _⟩ := map4kib_total ram.hhdm root virt phys flags store.ready
  obtain ⟨rfl, rfl⟩ := Prod.mk.inj (Except.ok.inj (done.symm.trans again))
  obtain ⟨v', mapped⟩ := store.map4kib_mapped took done (by
    rintro more rfl
    exact took.ne_zero supplied (List.mem_append_right _ List.mem_cons_self))
  exact ⟨v', rfl, mapped⟩

/-- `map4kib` runs when there are frames for the missing tables. -/
theorem map4kib_enough (store : Store ram root v m) (virt phys : Nat) (flags : PT)
    (enough : missing v.tables (path 512 3 (pageNumber virt)) ≤ v.free.length) :
    ∃ v' m', map4kib ram.hhdm root virt phys flags m = .ok (.ok (), m') ∧
      PageMapped ram root v m virt (pageEntry phys flags) v' m' ∧
      v.free.length ≤ v'.free.length + missing v.tables (path 512 3 (pageNumber virt)) := by
  obtain ⟨m', taken, done, took, _⟩ :=
    map4kib_total ram.hhdm root virt phys flags store.ready
  have short := store.shape.map4kib_taken_le store.ready took done
  obtain ⟨v', mapped⟩ := store.map4kib_mapped took done (by
    rintro more rfl
    rw [List.length_append, List.length_cons] at short
    omega)
  obtain ⟨taken', split, took', _⟩ := mapped.took
  obtain rfl := took.unique took'
  refine ⟨v', m', done, mapped, ?_⟩
  rw [split, List.length_append]
  omega

/-- It runs when there are three frames, or a table for the page. -/
theorem map4kib_runs (store : Store ram root v m) (virt phys : Nat) (flags : PT)
    (enough : 3 ≤ v.free.length ∨ ∃ leaf, v.tables 0 (pageNumber virt / 512) = some leaf) :
    ∃ v' m', map4kib ram.hhdm root virt phys flags m = .ok (.ok (), m') ∧
      PageMapped ram root v m virt (pageEntry phys flags) v' m' ∧
      v.free.length ≤ v'.free.length + 3 ∧
      ((∃ leaf, v.tables 0 (pageNumber virt / 512) = some leaf) → v'.free = v.free) := by
  have three : missing v.tables (path 512 3 (pageNumber virt)) ≤ 3 :=
    card_path 512 3 (pageNumber virt) ▸ missing_le_card v.tables _
  have none : (∃ leaf, v.tables 0 (pageNumber virt / 512) = some leaf) →
      missing v.tables (path 512 3 (pageNumber virt)) = 0 := by
    rintro ⟨leaf, present⟩
    rw [← stem_zero] at present
    exact store.shape.missing_present present
  obtain ⟨v', m', done, mapped, used⟩ := store.map4kib_enough virt phys flags (by
    rcases enough with long | present
    · exact Nat.le_trans three long
    · rw [none present]
      exact Nat.zero_le _)
  refine ⟨v', m', done, mapped, by omega, ?_⟩
  intro present
  rw [none present, Nat.add_zero] at used
  obtain ⟨taken, split, _⟩ := mapped.took
  have lengths := congrArg List.length split
  rw [List.length_append] at lengths
  rw [split, List.length_eq_zero_iff.mp (show taken.length = 0 by omega), List.nil_append]

/-! ### A frame for a page -/

/-- The first free frame becomes the frame of a page. -/
theorem pop (store : Store ram root v m) (split : v.free = phy :: rest) (number : Nat) :
    Store ram root { v with owner := assign [phy] (.page number) v.owner, free := rest }
      (popped ram.hhdm m phy) where
  toPool := (store.toPool.pop split (.page number)).2
  shape := by
    apply store.shape.congr
    intro address inside
    apply WordMemory.zero_outside
    intro inNew
    have clash := (store.table_owned inside).unique
      (store.free_owned (split ▸ List.mem_cons_self) inNew)
    contradiction
  tableOwned := by
    intro level place frame present
    have isTable := store.tableOwned present
    refine (assign_not_mem (.page number) v.owner ?_).trans isTable
    rw [List.mem_singleton]
    rintro rfl
    rw [store.freeOwned frame (split ▸ List.mem_cons_self)] at isTable
    contradiction

/-- Taking a frame leaves the entries alone. -/
theorem pop_entries (store : Store ram root v m) (split : v.free = phy :: rest) (number : Nat) :
    entries ram { v with owner := assign [phy] (.page number) v.owner, free := rest }
      (popped ram.hhdm m phy) = entries ram v m := by
  funext page
  apply leafEntry_congr
  intro address inside
  apply WordMemory.zero_outside
  intro inNew
  have clash := (store.table_owned inside).unique
    (store.free_owned (split ▸ List.mem_cons_self) inNew)
  contradiction

/-! ### Unmapping a page -/

/-- Words of the tables are not in the page of a frame with another owner. -/
theorem slot_ne (store : Store ram root v m) (page : Nat) (aligned : frame % pageSize = 0)
    (present : v.tables 0 (page / 512) = some leaf) (noTable : v.owner frame ≠ .table) :
    ¬InPage (frame + ram.hhdm) (leaf + ram.hhdm + page % 512 * 8) := by
  intro inside
  have clash := (store.table_owned ⟨_, _, _, present, entry_inPage _ page⟩).unique
    ⟨frame, aligned, rfl, inside⟩
  exact noTable clash.symm

/-- Outside the released page and the entry nothing changes. -/
theorem unmapped_outside {hhdm slot : Nat} (apart : address ≠ slot)
    (outside : ¬InPage (frame + hhdm) address) :
    (unmapped hhdm m slot frame head).memory address = m.memory address := by
  refine (Function.update_of_ne apart _ _).trans ?_
  rw [Function.update_of_ne (ne_of_inPage (inPage_start _) outside).symm]
  exact WordMemory.zero_outside outside

/-- Releasing the frame of a page keeps the slabs and the tables; `free'` is the
chain that it leaves. -/
theorem release (store : Store ram root v m) {free' : List Nat} {owner' : Nat → Owner}
    (present : v.tables 0 (pageNumber virt / 512) = some leaf) (ok : FrameOk frame)
    (noTable : v.owner frame ≠ .table) (noSlab : v.owner frame ≠ .slab) (chain : FreeChain ram.hhdm
      (unmapped ram.hhdm m (leaf + ram.hhdm + pageNumber virt % 512 * 8) frame head).memory frame
      free') (freeOwned : ∀ other ∈ free', owner' other = .free)
    (managed : ∀ other, owner' other ≠ .outside → other ∈ ram.frames)
    (kept : ∀ other, other ≠ frame → owner' other = v.owner other) :
    Store ram root { v with owner := owner', free := free' }
      (unmapped ram.hhdm m (leaf + ram.hhdm + pageNumber virt % 512 * 8) frame head) := by
  have slot : Owned ram.hhdm v.owner .table (leaf + ram.hhdm + pageNumber virt % 512 * 8) :=
    store.table_owned ⟨_, _, _, present, entry_inPage _ _⟩
  constructor
  case shape => exact store.shape.unmapped_shape present (store.newFrame ok noTable)
  case tableOwned =>
    intro level place other there
    have isTable := store.tableOwned there
    exact (kept other fun same => noTable (same ▸ isTable)).trans isTable
  constructor
  case chain => exact ⟨frame, rfl, chain⟩
  case freeOwned => exact freeOwned
  case managed => exact managed
  case slab =>
    refine store.slab.congr ?_ ?_
    · rfl
    · intro address isPrivate
      have isSlab := store.private_owned isPrivate
      apply unmapped_outside
      · rintro rfl
        have clash := isSlab.unique slot
        contradiction
      · intro inside
        exact noSlab (isSlab.unique ⟨frame, ok.aligned, rfl, inside⟩).symm
  case slabOwned =>
    intro page isPage
    obtain ⟨other, pageEq, isSlab⟩ := store.slabOwned page isPage
    exact ⟨other, pageEq, (kept other fun same => noSlab (same ▸ isSlab)).trans isSlab⟩

/-- What `unmap` does to the page of `virt` whose frame is the page's own. -/
theorem unmap_owned (store : Store ram root v m) {number : Nat}
    (present : v.tables 0 (pageNumber virt / 512) = some leaf)
    (entry : extractPhysFromPte (entries ram v m (pageNumber virt)) = frame)
    (owned : v.owner frame = .page number) :
    ∃ m', unmap ram.hhdm root virt m = .ok m' ∧
      Store ram root
        { v with owner := assign [frame] .free v.owner, free := frame :: v.free } m' ∧
      leafEntry ram.hhdm m'.memory v.tables =
        Function.update (entries ram v m) (pageNumber virt) 0 ∧
      m'.pmmCalls = m.pmmCalls ++ [.released (frame + ram.hhdm)] ∧
      (∀ address, ¬Owned ram.hhdm v.owner .table address → ¬InPage (frame + ram.hhdm) address →
        m'.memory address = m.memory address) ∧
      m'.kermap = m.kermap ∧ m'.cr3 = m.cr3 := by
  obtain ⟨head, atHead, chain⟩ := store.chain
  have usable := store.usable owned (by simp)
  have ok := usable.frameOk
  have noTable : v.owner frame ≠ .table := by rw [owned]; simp
  have absent : frame ∉ v.free := by
    intro member
    rw [store.freeOwned frame member] at owned
    contradiction
  have slotOutside := store.slot_ne (pageNumber virt) ok.aligned present noTable
  have unmapEq := store.shape.unmap_present (store.table_real present) present atHead
  rw [show leafEntry ram.hhdm m.memory v.tables = entries ram v m from rfl, entry] at unmapEq
  refine ⟨_, unmapEq, ?_, store.shape.unmapped_entries present (store.newFrame ok noTable), rfl, ?_,
    rfl, rfl⟩
  · apply store.release present ok noTable (by rw [owned]; simp)
    · apply chain.push absent ok.aligned usable.real
      · exact (Function.update_of_ne (ne_of_inPage (inPage_start _) slotOutside) _ _).trans
          (Function.update_self _ _ _)
      · intro other member
        apply unmapped_outside
        · rintro same
          have clash := (store.table_owned ⟨_, _, _, present, entry_inPage _ _⟩).unique
            (same ▸ store.free_owned member (inPage_start _))
          contradiction
        · exact chain.outside_page ok.aligned absent other member
    · intro other member
      rcases List.mem_cons.mp member with rfl | older
      · exact assign_mem .free v.owner List.mem_cons_self
      · refine (assign_not_mem .free v.owner ?_).trans (store.freeOwned other older)
        rw [List.mem_singleton]
        rintro rfl
        exact absent older
    · intro other inside
      by_cases same : other ∈ [frame]
      · rw [List.mem_singleton.mp same]
        exact store.managed frame (by rw [owned]; simp)
      · exact store.managed other (assign_not_mem .free v.owner same ▸ inside)
    · intro other different
      exact assign_not_mem .free v.owner (by rwa [List.mem_singleton])
  · intro address outside notInPage
    refine unmapped_outside ?_ notInPage
    rintro rfl
    exact outside (store.table_owned ⟨_, _, _, present, entry_inPage _ _⟩)

/-- Frame zero belongs to nobody. -/
theorem owner_zero (store : Store ram root v m) : v.owner 0 = .outside := by
  by_contra inside
  exact (ram.usable 0 (store.managed 0 inside)).real rfl

/-- `unmap` of a page without an entry whose table is there releases frame zero, and
with it the free chain is lost. -/
theorem unmap_cleared (store : Store ram root v m)
    (present : v.tables 0 (pageNumber virt / 512) = some leaf)
    (cleared : entries ram v m (pageNumber virt) = 0) :
    ∃ m', unmap ram.hhdm root virt m = .ok m' ∧ Store ram root { v with free := [] } m' ∧
      leafEntry ram.hhdm m'.memory v.tables = entries ram v m ∧
      m'.pmmCalls = m.pmmCalls ++ [.released (0 + ram.hhdm)] ∧
      (∀ address, ¬Owned ram.hhdm v.owner .table address → ¬InPage (0 + ram.hhdm) address →
        m'.memory address = m.memory address) ∧
      m'.kermap = m.kermap ∧ m'.cr3 = m.cr3 := by
  obtain ⟨head, atHead, chain⟩ := store.chain
  have ok : FrameOk 0 := { aligned := by decide, bounded := by decide }
  have noTable : v.owner 0 ≠ .table := by rw [store.owner_zero]; decide
  have unmapEq := store.shape.unmap_present (store.table_real present) present atHead
  have entry : extractPhysFromPte (leafEntry ram.hhdm m.memory v.tables (pageNumber virt)) = 0 := by
    rw [show leafEntry ram.hhdm m.memory v.tables = entries ram v m from rfl, cleared]
    rfl
  rw [entry] at unmapEq
  refine ⟨_, unmapEq, ?_, ?_, rfl, ?_, rfl, rfl⟩
  · apply store.release present ok noTable (by rw [store.owner_zero]; decide)
    · exact FreeChain.empty
    · exact fun _ member => absurd member List.not_mem_nil
    · exact store.managed
    · exact fun _ _ => rfl
  · rw [store.shape.unmapped_entries present (store.newFrame ok noTable)]
    funext page
    by_cases same : page = pageNumber virt
    · rw [same, Function.update_self, cleared]
    · rw [Function.update_of_ne same]
      rfl
  · intro address outside notInPage
    refine unmapped_outside ?_ notInPage
    rintro rfl
    exact outside (store.table_owned ⟨_, _, _, present, entry_inPage _ _⟩)

end Store

end NyauxKernel.Memory
