/-
The loops that map and unmap the pages of a region.
-/

import NyauxKernel.Memory.OwnedTables
import NyauxKernel.Memory.Vmm
import NyauxKernel.Library.Folds
import Mathlib.Data.List.Forall2

namespace NyauxKernel.Memory

open RadixTree ExceptFold

/-! ### The record of calls -/

variable {base hhdm length root virt : Nat} {m m' : Machine} {phys virts : List Nat} {flags : PT}
  {ram : Ram} {v v' : View}

theorem getTableLoop_allocates {alloc : Bool} {answer : Except String Nat} (j : Nat) {table : Nat}
    (done : getTableLoop hhdm virt alloc j table m = .ok (answer, m')) : Allocates m m' := by
  induction j generalizing table m with
  | zero =>
      obtain ⟨_, rfl⟩ := Prod.mk.inj (Except.ok.inj done)
      exact Allocates.refl m
  | succ j inductionHypothesis =>
      rw [getTableLoop] at done
      simp only at done
      split at done
      · obtain ⟨_, rfl⟩ := Prod.mk.inj (Except.ok.inj done)
        exact Allocates.refl m
      · split at done
        · split at done
          · obtain ⟨⟨page, mid⟩, taken, rest⟩ := ok_of_bind done
            have later := inductionHypothesis rest
            exact Allocates.trans (allocatePage_allocates taken) later
          · obtain ⟨_, rfl⟩ := Prod.mk.inj (Except.ok.inj done)
            exact Allocates.refl m
        · exact inductionHypothesis done

theorem map4kibUnwrap_ok {phys : Nat} (done : map4kibUnwrap hhdm root virt phys flags m = .ok m') :
    map4kib hhdm root virt phys flags m = .ok (.ok (), m') := by
  obtain ⟨⟨answer, after⟩, mapped, rest⟩ := ok_of_bind done
  cases answer with
  | error message => contradiction
  | ok _ =>
      obtain rfl := Except.ok.inj rest
      exact mapped

theorem map4kibUnwrap_eq {phys : Nat}
    (mapped : map4kib hhdm root virt phys flags m = .ok (.ok (), m')) :
    map4kibUnwrap hhdm root virt phys flags m = .ok m' := by
  simp only [map4kibUnwrap, mapped, bind, Except.bind]

theorem map4kib_allocates {phys : Nat} {answer : Except String Unit}
    (done : map4kib hhdm root virt phys flags m = .ok (answer, m')) : Allocates m m' := by
  obtain ⟨⟨slot, mid⟩, walked, rest⟩ := ok_of_bind done
  have grows := getTableLoop_allocates 4 walked
  cases slot with
  | error message =>
      obtain ⟨_, rfl⟩ := Prod.mk.inj (Except.ok.inj rest)
      exact grows
  | ok slot =>
      obtain ⟨_, rfl⟩ := Prod.mk.inj (Except.ok.inj rest)
      exact grows

/-! ### Steps that map pages -/

/-- Between two states frames were taken, and of all pages only `pages` got other
entries. -/
structure Advanced (ram : Ram) (root : Nat) (v : View) (m : Machine) (pages taken : List Nat)
    (v' : View) (m' : Machine) : Prop where
  store : Store ram root v' m'
  slabs : v'.slabs = v.slabs
  took : Took taken m m'
  real : 0 ∉ taken
  kept : ∀ frame, v.owner frame ≠ .free → v'.owner frame = v.owner frame
  others : ∀ page, page ∉ pages → entries ram v' m' page = entries ram v m page
  quiet : ∀ who address, who ≠ .free → who ≠ .table → Owned ram.hhdm v.owner who address →
    m'.memory address = m.memory address

theorem owned_kept {address : Nat} {owner owner' : Nat → Owner} {who : Owner}
    (kept : ∀ frame, owner frame ≠ .free → owner' frame = owner frame) (used : who ≠ .free)
    (owned : Owned hhdm owner who address) : Owned hhdm owner' who address := by
  obtain ⟨frame, aligned, rfl, inside⟩ := owned
  exact ⟨frame, aligned, kept frame used, inside⟩

namespace Advanced

variable {v'' : View} {m'' : Machine} {pages more taken moreTaken : List Nat}

theorem refl (store : Store ram root v m) : Advanced ram root v m [] [] v m where
  store := store
  slabs := rfl
  took := Took.nothing store.ready
  real := List.not_mem_nil
  kept := fun _ _ => rfl
  others := fun _ _ => rfl
  quiet := fun _ _ _ _ _ => rfl

theorem trans (first : Advanced ram root v m pages taken v' m')
    (second : Advanced ram root v' m' more moreTaken v'' m'') :
    Advanced ram root v m (pages ++ more) (taken ++ moreTaken) v'' m'' where
  store := second.store
  slabs := second.slabs.trans first.slabs
  took := first.took.trans second.took
  real := by
    rw [List.mem_append, not_or]
    exact ⟨first.real, second.real⟩
  kept := by
    intro frame used
    have same := first.kept frame used
    rw [second.kept frame (same ▸ used), same]
  others := by
    intro page absent
    rw [List.mem_append, not_or] at absent
    rw [second.others page absent.2, first.others page absent.1]
  quiet := by
    intro who address notFree notTable owned
    rw [second.quiet who address notFree notTable (owned_kept first.kept notFree owned),
      first.quiet who address notFree notTable owned]

end Advanced

theorem PageMapped.advanced {entry : Nat} (mapped : PageMapped ram root v m virt entry v' m')
    (pool : Pool ram v m) :
    ∃ taken, v.free = taken ++ v'.free ∧
      Advanced ram root v m [pageNumber virt] taken v' m' := by
  obtain ⟨taken, split, took, ownerEq⟩ := mapped.took
  have kept : ∀ frame, v.owner frame ≠ .free → v'.owner frame = v.owner frame := by
    intro frame used
    rw [ownerEq, assign_not_mem]
    intro member
    exact used (pool.freeOwned frame (split ▸ List.mem_append_left _ member))
  refine ⟨taken, split, ?_⟩
  constructor
  · exact mapped.store
  · exact mapped.slabs
  · exact took
  · intro member
    exact pool.free_ne_zero (split ▸ List.mem_append_left _ member)
  · exact kept
  · intro page absent
    rw [mapped.entries, Function.update_of_ne (by rwa [List.mem_singleton] at absent)]
  · intro who address notFree notTable owned
    apply mapped.quiet
    intro isTable
    exact notTable ((owned_kept kept notFree owned).unique isTable)

/-- A free frame was taken for a page. -/
theorem Store.pop_advanced (store : Store ram root v m) {phy : Nat} {rest : List Nat}
    (split : v.free = phy :: rest) (number : Nat) :
    Advanced ram root v m [] [phy]
      { v with owner := assign [phy] (.page number) v.owner, free := rest }
      (popped ram.hhdm m phy) where
  store := store.pop split number
  slabs := rfl
  took := popped_took ram.hhdm m phy
  real := by
    rw [List.mem_singleton]
    rintro rfl
    exact store.free_ne_zero (split ▸ List.mem_cons_self)
  kept := by
    intro frame used
    apply assign_not_mem
    rw [List.mem_singleton]
    rintro rfl
    exact used (store.freeOwned frame (split ▸ List.mem_cons_self))
  others := fun page _ => congrFun (store.pop_entries split number) page
  quiet := by
    intro who address notFree _ owned
    apply WordMemory.zero_outside
    intro inNew
    exact notFree (owned.unique (store.free_owned (split ▸ List.mem_cons_self) inNew))

theorem Advanced.supplied {pages taken : List Nat}
    (advanced : Advanced ram root v m pages taken v' m') (supplied : Supplied m) : Supplied m' :=
  advanced.took.supplied supplied advanced.real

/-! ### Mapping given frames -/

/-- One turn of a loop over `map4kib`: an item is an address, a frame and flags. -/
def mapItem (hhdm root : Nat) (m : Machine) (item : Nat × Nat × PT) : Except Halt Machine :=
  map4kibUnwrap hhdm root item.1 item.2.1 item.2.2 m

def MapStep (ram : Ram) (root : Nat) (v : View) (m : Machine) (item : Nat × Nat × PT)
    (v' : View) (m' : Machine) : Prop :=
  PageMapped ram root v m item.1 (pageEntry item.2.1 item.2.2) v' m'

theorem Store.mapItems_done (store : Store ram root v m) (items : List (Nat × Nat × PT))
    (done : items.foldlM (mapItem ram.hhdm root) m = .ok m') (supplied : Supplied m') :
    ∃ v', Steps (MapStep ram root) v m items v' m' := by
  apply Steps.of_foldlM (Store ram root) Supplied _ _ _ items store done supplied
  · intro s item s' turned fine
    exact fine.before (map4kib_allocates (map4kibUnwrap_ok turned)).grows
  · intro g s item s' inv turned fine
    obtain ⟨v', _, mapped⟩ := inv.map4kib_done (map4kibUnwrap_ok turned) fine
    exact ⟨v', mapped⟩
  · intro g s item g' s' stepped
    exact stepped.store

/-- The entries after the loop are those asked for. -/
theorem mapSteps_advanced {items : List (Nat × Nat × PT)} (store : Store ram root v m)
    (steps : Steps (MapStep ram root) v m items v' m') :
    ∃ taken, Advanced ram root v m (items.map fun item => pageNumber item.1) taken v' m' ∧
      ((items.map fun item => pageNumber item.1).Nodup → ∀ item ∈ items,
        entries ram v' m' (pageNumber item.1) = pageEntry item.2.1 item.2.2) := by
  induction steps with
  | nil => exact ⟨[], Advanced.refl store, fun _ _ member => absurd member List.not_mem_nil⟩
  | @cons v mid v' m t m' item items first rest inductionHypothesis =>
      obtain ⟨taken, _, advanced⟩ := PageMapped.advanced first store.toPool
      obtain ⟨moreTaken, later, laterEntries⟩ := inductionHypothesis first.store
      refine ⟨taken ++ moreTaken, advanced.trans later, ?_⟩
      intro distinct other member
      obtain ⟨absent, distinct'⟩ := List.nodup_cons.mp distinct
      rcases List.mem_cons.mp member with rfl | inRest
      · rw [later.others _ absent, first.entries, Function.update_self]
      · exact laterEntries distinct' other inRest

/-- The tables below the root that pages need. -/
def tablePlaces (pages : List Nat) : Finset (Nat × Nat) := pages.toFinset.biUnion (path 512 3)

theorem tablePlaces_cons (page : Nat) (pages : List Nat) :
    tablePlaces (page :: pages) = path 512 3 page ∪ tablePlaces pages := by
  rw [tablePlaces, List.toFinset_cons, Finset.biUnion_insert]
  rfl

theorem card_tablePlaces_le (pages : List Nat) :
    (tablePlaces pages).card ≤ 3 * pages.length := by
  induction pages with
  | nil => exact Nat.le_refl 0
  | cons page pages inductionHypothesis =>
      have union := Finset.card_union_le (path 512 3 page) (tablePlaces pages)
      rw [card_path] at union
      rw [tablePlaces_cons, List.length_cons]
      omega

/-- The loop runs when there are frames for the tables that its pages miss. -/
theorem Store.mapItems_enough (items : List (Nat × Nat × PT)) (store : Store ram root v m)
    (enough : missing v.tables (tablePlaces (items.map fun item => pageNumber item.1)) ≤
      v.free.length) :
    ∃ v' m', items.foldlM (mapItem ram.hhdm root) m = .ok m' ∧
      Steps (MapStep ram root) v m items v' m' ∧ v.free.length ≤ v'.free.length +
        missing v.tables (tablePlaces (items.map fun item => pageNumber item.1)) := by
  induction items generalizing v m with
  | nil => exact ⟨v, m, rfl, Steps.nil, Nat.le_add_right _ _⟩
  | cons item items inductionHypothesis =>
      rw [List.map_cons, tablePlaces_cons] at enough ⊢
      have onPath : path 512 3 (pageNumber item.1) ⊆ path 512 3 (pageNumber item.1) ∪
          tablePlaces (items.map fun item => pageNumber item.1) := Finset.subset_union_left
      have later : tablePlaces (items.map fun item => pageNumber item.1) ⊆
          path 512 3 (pageNumber item.1) ∪
            tablePlaces (items.map fun item => pageNumber item.1) := Finset.subset_union_right
      obtain ⟨mid, t, done, mapped, used⟩ := store.map4kib_enough item.1 item.2.1 item.2.2
        (Nat.le_trans (missing_mono v.tables onPath) enough)
      obtain ⟨leaf, present⟩ := mapped.present
      rw [← stem_zero] at present
      have whole : missing mid.tables (path 512 3 (pageNumber item.1)) = 0 :=
        mapped.store.shape.missing_present present
      have fewer := mapped.grown.missing_add whole onPath
      have rest := missing_mono mid.tables later
      obtain ⟨v', m', finished, steps, left⟩ := inductionHypothesis mapped.store (by omega)
      refine ⟨v', m', ?_, Steps.cons mapped steps, by omega⟩
      rw [foldlM_cons_eq (map4kibUnwrap_eq done : mapItem ram.hhdm root m item = .ok t), finished]

/-- Three frames for each item are always enough. -/
theorem Store.mapItems_runs (items : List (Nat × Nat × PT)) (store : Store ram root v m)
    (enough : 3 * items.length ≤ v.free.length) :
    ∃ v' m', items.foldlM (mapItem ram.hhdm root) m = .ok m' ∧
      Steps (MapStep ram root) v m items v' m' := by
  have few := missing_le_card v.tables (tablePlaces (items.map fun item => pageNumber item.1))
  have three := card_tablePlaces_le (items.map fun item => pageNumber item.1)
  rw [List.length_map] at three
  obtain ⟨v', m', finished, steps, _⟩ := store.mapItems_enough items (by omega)
  exact ⟨v', m', finished, steps⟩

/-- One turn of the loop of `arch_map_region`. -/
def mapGiven (hhdm root : Nat) (phys : List Nat) (flags : PT) (m : Machine)
    (entry : Nat × Nat) : Except Halt Machine :=
  match phys[entry.2]? with
  | none => .error (.panic "index out of bounds")
  | some pa => map4kibUnwrap hhdm root entry.1 pa flags m

/-- The items that the loop maps. -/
def givenItems (virts phys : List Nat) (flags : PT) : List (Nat × Nat × PT) :=
  (virts.zip phys).map fun pair => (pair.1, pair.2, flags)

theorem mapGiven_short (virts : List Nat) (index : Nat)
    (done : (virts.zipIdx index).foldlM (mapGiven hhdm root phys flags) m = .ok m') :
    virts.length ≤ phys.length - index := by
  induction virts generalizing m index with
  | nil => exact Nat.zero_le _
  | cons virt virts inductionHypothesis =>
      rw [List.zipIdx_cons] at done
      obtain ⟨mid, first, rest⟩ := foldlM_cons_ok done
      have short := inductionHypothesis (index + 1) rest
      have inside : index < phys.length := by
        by_contra outside
        have missing : phys[index]? = none := List.getElem?_eq_none (Nat.not_lt.mp outside)
        simp [mapGiven, missing] at first
      rw [List.length_cons]
      omega

theorem mapGiven_eq (virts : List Nat) (index : Nat) (m : Machine)
    (enough : virts.length ≤ phys.length - index) :
    (virts.zipIdx index).foldlM (mapGiven hhdm root phys flags) m =
      (givenItems virts (phys.drop index) flags).foldlM (mapItem hhdm root) m := by
  induction virts generalizing m index with
  | nil => rfl
  | cons virt virts inductionHypothesis =>
      rw [List.length_cons] at enough
      have inside : index < phys.length := by omega
      have turn : mapGiven hhdm root phys flags m (virt, index) =
          mapItem hhdm root m (virt, phys[index], flags) := by
        rw [mapGiven, List.getElem?_eq_getElem inside]
        rfl
      rw [List.zipIdx_cons, List.drop_eq_getElem_cons inside, List.foldlM_cons, turn, givenItems,
        List.zip_cons_cons, List.map_cons, List.foldlM_cons]
      congr 1
      funext mid
      exact inductionHypothesis (index + 1) mid (by omega)

theorem archMapRegion_eq (flags : VMMFlags) (m : Machine)
    (enough : (pagesBetween base (wrap (base + length))).length ≤ phys.length) :
    archMapRegion hhdm root base length phys flags m =
      (givenItems (pagesBetween base (wrap (base + length))) phys
        (PT.fromVmmflags flags)).foldlM (mapItem hhdm root) m :=
  mapGiven_eq _ 0 m enough

theorem archMapRegion_ok {flags : VMMFlags}
    (done : archMapRegion hhdm root base length phys flags m = .ok m') :
    (pagesBetween base (wrap (base + length))).length ≤ phys.length :=
  mapGiven_short _ 0 done

theorem givenItems_fst (flags : PT) (enough : virts.length ≤ phys.length) :
    (givenItems virts phys flags).map Prod.fst = virts := by
  rw [givenItems, List.map_map]
  exact List.map_fst_zip enough

theorem givenItems_numbers (flags : PT) (enough : virts.length ≤ phys.length) :
    (givenItems virts phys flags).map (fun item => pageNumber item.1) =
      virts.map pageNumber := by
  conv_rhs => rw [← givenItems_fst flags enough]
  rw [List.map_map]
  rfl

/-- A page is mapped to a frame. -/
def Enters (ram : Ram) (v : View) (m : Machine) (flags : PT) (virt frame : Nat) : Prop :=
  entries ram v m (pageNumber virt) = pageEntry frame flags

theorem givenItems_enters (enough : virts.length ≤ phys.length)
    (entered : ∀ item ∈ givenItems virts phys flags,
      entries ram v m (pageNumber item.1) = pageEntry item.2.1 item.2.2) :
    List.Forall₂ (Enters ram v m flags) virts (phys.take virts.length) := by
  induction virts generalizing phys with
  | nil => exact List.Forall₂.nil
  | cons virt virts inductionHypothesis =>
      cases phys with
      | nil => exact absurd enough (by simp)
      | cons pa phys =>
          refine List.Forall₂.cons (entered (virt, pa, flags) List.mem_cons_self) ?_
          exact inductionHypothesis (Nat.le_of_succ_le_succ enough)
            (fun item member => entered item (List.mem_cons_of_mem _ member))

/-! ### Mapping new frames -/

/-- One turn of the loop of `arch_map_region_alloc`. -/
def fillPage (hhdm root : Nat) (flags : PT) (m : Machine) (virt : Nat) : Except Halt Machine := do
  let (page, m) ← allocatePage hhdm m
  map4kibUnwrap hhdm root virt (page - hhdm) flags m

theorem archMapRegionAlloc_eq (hhdm root base length : Nat) (flags : VMMFlags) (m : Machine) :
    archMapRegionAlloc hhdm root base length flags m =
      (pagesBetween base (wrap (base + length))).foldlM
        (fillPage hhdm root (PT.fromVmmflags flags)) m :=
  rfl

/-- A page has a frame of its own. -/
def Backs (ram : Ram) (v : View) (m : Machine) (flags : PT) (virt frame : Nat) : Prop :=
  v.owner frame = .page (pageNumber virt) ∧ Enters ram v m flags virt frame

def FillStep (ram : Ram) (root : Nat) (flags : PT) (v : View) (m : Machine) (virt : Nat)
    (v' : View) (m' : Machine) : Prop :=
  ∃ phy rest, v.free = phy :: rest ∧
    PageMapped ram root
      { v with owner := assign [phy] (.page (pageNumber virt)) v.owner, free := rest }
      (popped ram.hhdm m phy) virt (pageEntry phy flags) v' m'

theorem fillPage_allocates (done : fillPage hhdm root flags m virt = .ok m') : Allocates m m' := by
  obtain ⟨_, taken, rest⟩ := ok_of_bind done
  exact (allocatePage_allocates taken).trans (map4kib_allocates (map4kibUnwrap_ok rest))

theorem fillPage_eq {phy : Nat} (atHead : m.freelist = some phy) :
    fillPage hhdm root flags m virt =
      map4kibUnwrap hhdm root virt phy flags (popped hhdm m phy) := by
  simp only [fillPage, allocatePage_popped atHead, bind, Except.bind, Nat.add_sub_cancel]

theorem Store.fillPage_done (store : Store ram root v m)
    (done : fillPage ram.hhdm root flags m virt = .ok m') (supplied : Supplied m') :
    ∃ v', FillStep ram root flags v m virt v' m' := by
  obtain ⟨phy, atHead⟩ := Option.ne_none_iff_exists'.mp store.ready
  rw [fillPage_eq atHead] at done
  have mapped := map4kibUnwrap_ok done
  have real : phy ≠ 0 := by
    rintro rfl
    exact (popped_took ram.hhdm m 0).ne_zero (supplied.before (map4kib_allocates mapped).grows)
      List.mem_cons_self
  obtain ⟨rest, split⟩ := store.free_of_head atHead real
  obtain ⟨v', _, pageMapped⟩ := (store.pop split (pageNumber virt)).map4kib_done mapped supplied
  exact ⟨v', phy, rest, split, pageMapped⟩

theorem Store.fillPages_done (store : Store ram root v m) (virts : List Nat)
    (done : virts.foldlM (fillPage ram.hhdm root flags) m = .ok m') (supplied : Supplied m') :
    ∃ v', Steps (FillStep ram root flags) v m virts v' m' := by
  apply Steps.of_foldlM (Store ram root) Supplied _ _ _ virts store done supplied
  · intro s virt s' turned fine
    exact fine.before (fillPage_allocates turned).grows
  · intro g s virt s' inv turned fine
    exact inv.fillPage_done turned fine
  · rintro g s virt g' s' ⟨_, _, _, mapped⟩
    exact mapped.store

/-- After the loop every page has a frame of its own, taken in the loop. -/
theorem fillSteps_advanced (store : Store ram root v m) (distinct : (virts.map pageNumber).Nodup)
    (steps : Steps (FillStep ram root flags) v m virts v' m') :
    ∃ taken frames, Advanced ram root v m (virts.map pageNumber) taken v' m' ∧
      frames ⊆ taken ∧ List.Forall₂ (Backs ram v' m' flags) virts frames := by
  induction steps with
  | nil => exact ⟨[], [], Advanced.refl store, List.Subset.refl _, List.Forall₂.nil⟩
  | @cons v mid v' m t m' virt virts first rest inductionHypothesis =>
      obtain ⟨phy, left, split, mapped⟩ := first
      obtain ⟨absent, distinct'⟩ := List.nodup_cons.mp distinct
      have popped := store.pop_advanced split (pageNumber virt)
      obtain ⟨tables, splitLeft, advanced⟩ := PageMapped.advanced mapped popped.store.toPool
      obtain ⟨taken, frames, later, subset, backs⟩ := inductionHypothesis mapped.store distinct'
      have whole := (popped.trans advanced).trans later
      have owned : mid.owner phy = .page (pageNumber virt) := by
        have atPop : assign [phy] (.page (pageNumber virt)) v.owner phy = .page (pageNumber virt) :=
          assign_mem _ _ List.mem_cons_self
        have used : assign [phy] (.page (pageNumber virt)) v.owner phy ≠ .free := by
          rw [atPop]
          simp
        exact (advanced.kept phy used).trans atPop
      refine ⟨_, phy :: frames, whole, ?_, List.Forall₂.cons ⟨?_, ?_⟩ backs⟩
      · intro frame member
        rcases List.mem_cons.mp member with rfl | inFrames
        · simp
        · exact List.mem_append_right _ (subset inFrames)
      · rw [later.kept phy (by rw [owned]; simp), owned]
      · rw [Enters, later.others _ absent, mapped.entries, Function.update_self]

theorem Store.fillPage_runs (store : Store ram root v m) (virt : Nat) (flags : PT)
    (enough : 4 ≤ v.free.length) :
    ∃ v' m', fillPage ram.hhdm root flags m virt = .ok m' ∧
      FillStep ram root flags v m virt v' m' ∧ v.free.length ≤ v'.free.length + 4 := by
  obtain ⟨phy, rest, split⟩ := List.exists_cons_of_length_pos (show 0 < v.free.length by omega)
  have atHead := (store.toPool.pop split .table).1
  rw [split, List.length_cons] at enough
  obtain ⟨v', m', done, mapped, short, _⟩ :=
    (store.pop split (pageNumber virt)).map4kib_runs virt phy flags
      (Or.inl (show 3 ≤ rest.length by omega))
  refine ⟨v', m', ?_, ⟨phy, rest, split, mapped⟩, ?_⟩
  · rw [fillPage_eq atHead, map4kibUnwrap_eq done]
  · rw [split, List.length_cons]
    exact Nat.succ_le_succ short

/-- The loop runs when there are four frames for each page. -/
theorem Store.fillPages_runs (virts : List Nat) (store : Store ram root v m)
    (enough : 4 * virts.length ≤ v.free.length) :
    ∃ v' m', virts.foldlM (fillPage ram.hhdm root flags) m = .ok m' ∧
      Steps (FillStep ram root flags) v m virts v' m' ∧
      v.free.length ≤ v'.free.length + 4 * virts.length := by
  induction virts generalizing v m with
  | nil => exact ⟨v, m, rfl, Steps.nil, Nat.le_add_right _ _⟩
  | cons virt virts inductionHypothesis =>
      rw [List.length_cons] at enough ⊢
      obtain ⟨mid, t, first, step, short⟩ := store.fillPage_runs virt flags (by omega)
      have midStore : Store ram root mid t := by
        obtain ⟨_, _, _, mapped⟩ := step
        exact mapped.store
      obtain ⟨v', m', rest, steps, shorter⟩ := inductionHypothesis midStore (by omega)
      refine ⟨v', m', ?_, Steps.cons step steps, by omega⟩
      rw [foldlM_cons_eq first, rest]

/-! ### Unmapping pages -/

theorem archUnmapRegion_eq (hhdm root base length : Nat) (m : Machine) :
    archUnmapRegion hhdm root base length m =
      (pagesBetween base (wrap (base + length))).foldlM (fun m i => unmap hhdm root i m) m :=
  rfl

/-- Between two states the entries of `pages` were cleared and the pointers
`released` given back to the page allocator. -/
structure Emptied (ram : Ram) (root : Nat) (v : View) (m : Machine) (pages released : List Nat)
    (v' : View) (m' : Machine) : Prop where
  store : Store ram root v' m'
  slabs : v'.slabs = v.slabs
  calls : m'.pmmCalls = m.pmmCalls ++ released.map .released
  kermap : m'.kermap = m.kermap
  cr3 : m'.cr3 = m.cr3
  kept : ∀ frame, frame + ram.hhdm ∉ released → v'.owner frame = v.owner frame
  cleared : ∀ page ∈ pages, entries ram v' m' page = 0
  others : ∀ page, page ∉ pages → entries ram v' m' page = entries ram v m page
  quiet : ∀ address, Owned ram.hhdm v.owner .slab address → m'.memory address = m.memory address

namespace Emptied

variable {v'' : View} {m'' : Machine} {pages more released moreReleased : List Nat}

theorem refl (store : Store ram root v m) : Emptied ram root v m [] [] v m where
  store := store
  slabs := rfl
  calls := (List.append_nil _).symm
  kermap := rfl
  cr3 := rfl
  kept := fun _ _ => rfl
  cleared := fun _ member => absurd member List.not_mem_nil
  others := fun _ _ => rfl
  quiet := fun _ _ => rfl

/-- Slab pages stay slab pages. -/
theorem slab_owned (emptied : Emptied ram root v m pages released v' m')
    (noSlab : ∀ frame, v.owner frame = .slab → frame + ram.hhdm ∉ released) {address : Nat}
    (owned : Owned ram.hhdm v.owner .slab address) : Owned ram.hhdm v'.owner .slab address := by
  obtain ⟨frame, aligned, isSlab, inside⟩ := owned
  exact ⟨frame, aligned, (emptied.kept frame (noSlab frame isSlab)).trans isSlab, inside⟩

theorem trans (first : Emptied ram root v m pages released v' m')
    (noSlab : ∀ frame, v.owner frame = .slab → frame + ram.hhdm ∉ released)
    (second : Emptied ram root v' m' more moreReleased v'' m'') :
    Emptied ram root v m (pages ++ more) (released ++ moreReleased) v'' m'' where
  store := second.store
  slabs := second.slabs.trans first.slabs
  calls := by rw [second.calls, first.calls, List.map_append, List.append_assoc]
  kermap := second.kermap.trans first.kermap
  cr3 := second.cr3.trans first.cr3
  kept := by
    intro frame absent
    rw [List.mem_append, not_or] at absent
    rw [second.kept frame absent.2, first.kept frame absent.1]
  cleared := by
    intro page member
    by_cases later : page ∈ more
    · exact second.cleared page later
    · rw [second.others page later]
      exact first.cleared page ((List.mem_append.mp member).resolve_right later)
  others := by
    intro page absent
    rw [List.mem_append, not_or] at absent
    rw [second.others page absent.2, first.others page absent.1]
  quiet := by
    intro address owned
    rw [second.quiet address (first.slab_owned noSlab owned), first.quiet address owned]

end Emptied

theorem pageEntry_ne_zero (phys : Nat) (present : flags.present = true) :
    pageEntry phys flags ≠ 0 := by
  intro zero
  have bit := (testBit_pageEntry phys flags).1
  rw [zero, present] at bit
  contradiction

/-- A page with an entry has a table. -/
theorem table_of_entry {page : Nat} (entered : entries ram v m page ≠ 0) :
    ∃ leaf, v.tables 0 (page / 512) = some leaf := by
  cases there : v.tables 0 (page / 512) with
  | none => exact absurd (leafEntry_none there) entered
  | some leaf => exact ⟨leaf, rfl⟩

/-- Unmapping a page that has a frame of its own gives that frame back. -/
theorem Store.unmap_backs {frame : Nat} (store : Store ram root v m)
    (present : flags.present = true) (backs : Backs ram v m flags virt frame) :
    ∃ v' m', unmap ram.hhdm root virt m = .ok m' ∧ v'.free = frame :: v.free ∧
      Emptied ram root v m [pageNumber virt] [frame + ram.hhdm] v' m' := by
  obtain ⟨owned, entry⟩ := backs
  have ok := (store.usable owned (by simp)).frameOk
  obtain ⟨leaf, there⟩ := table_of_entry (entry ▸ pageEntry_ne_zero frame present)
  have extracted : extractPhysFromPte (entries ram v m (pageNumber virt)) = frame := by
    rw [entry, extractPhys_pageEntry, ok.extractPhys]
  obtain ⟨m', done, after, entriesEq, calls, quiet, kermap, cr3⟩ :=
    store.unmap_owned there extracted owned
  refine ⟨{ v with owner := assign [frame] .free v.owner, free := frame :: v.free }, m', done, rfl,
    ?_⟩
  constructor
  · exact after
  · rfl
  · exact calls
  · exact kermap
  · exact cr3
  · intro other absent
    apply assign_not_mem
    rw [List.mem_singleton] at absent ⊢
    rintro rfl
    exact absent rfl
  · intro page member
    rw [List.mem_singleton.mp member]
    exact (congrFun entriesEq _).trans (Function.update_self _ _ _)
  · intro page absent
    rw [List.mem_singleton] at absent
    exact (congrFun entriesEq _).trans (Function.update_of_ne absent _ _)
  · intro address isSlab
    apply quiet
    · intro isTable
      have clash := isSlab.unique isTable
      contradiction
    · intro inside
      have clash := isSlab.unique ⟨frame, ok.aligned, owned, inside⟩
      contradiction

/-- Unmapping a page without an entry releases nothing but frame zero. -/
theorem Store.unmap_empty (store : Store ram root v m)
    (cleared : entries ram v m (pageNumber virt) = 0) :
    ∃ v' m' released, unmap ram.hhdm root virt m = .ok m' ∧ v'.owner = v.owner ∧
      (∀ pointer ∈ released, pointer = 0 + ram.hhdm) ∧
      Emptied ram root v m [pageNumber virt] released v' m' ∧
      entries ram v' m' = entries ram v m := by
  cases there : v.tables 0 (pageNumber virt / 512) with
  | none =>
      have same := Emptied.refl store
      refine ⟨v, m, [], store.shape.unmap_missing there, rfl,
        fun _ member => absurd member List.not_mem_nil, ?_, rfl⟩
      exact
        { same with
          cleared := fun page member => by rw [List.mem_singleton.mp member, cleared]
          others := fun _ _ => rfl }
  | some leaf =>
      obtain ⟨m', done, after, entriesEq, calls, quiet, kermap, cr3⟩ :=
        store.unmap_cleared there cleared
      refine ⟨{ v with free := [] }, m', [0 + ram.hhdm], done, rfl, fun _ member => List.mem_singleton.mp member, ?_,
        entriesEq⟩
      constructor
      · exact after
      · rfl
      · exact calls
      · exact kermap
      · exact cr3
      · exact fun _ _ => rfl
      · intro page member
        rw [List.mem_singleton.mp member]
        exact (congrFun entriesEq _).trans cleared
      · exact fun page _ => congrFun entriesEq page
      · intro address isSlab
        apply quiet
        · intro isTable
          have clash := isSlab.unique isTable
          contradiction
        · intro inside
          have clash := isSlab.unique ⟨0, by decide, store.owner_zero, inside⟩
          contradiction

/-- The loop over pages that have frames of their own releases exactly these. -/
theorem Store.unmapBacked (present : flags.present = true) (virts frames : List Nat)
    (store : Store ram root v m) (distinct : (virts.map pageNumber).Nodup)
    (backs : List.Forall₂ (Backs ram v m flags) virts frames) :
    ∃ v' m', virts.foldlM (fun m i => unmap ram.hhdm root i m) m = .ok m' ∧
      v'.free = frames.reverse ++ v.free ∧
      Emptied ram root v m (virts.map pageNumber) (frames.map (· + ram.hhdm)) v' m' := by
  induction virts generalizing frames v m with
  | nil =>
      cases backs
      exact ⟨v, m, rfl, rfl, Emptied.refl store⟩
  | cons virt virts inductionHypothesis =>
      obtain ⟨absent, distinct'⟩ := List.nodup_cons.mp distinct
      cases backs with
      | @cons _ frame _ frames first rest =>
          obtain ⟨mid, t, done, freed, emptied⟩ := store.unmap_backs present first
          have still : List.Forall₂ (Backs ram mid t flags) virts frames := by
            have elsewhere : ∀ other ∈ virts, pageNumber other ≠ pageNumber virt :=
              fun other member same => absent (same ▸ List.mem_map_of_mem member)
            apply ((List.forall₂_and_left virts frames).mpr ⟨elsewhere, rest⟩).imp
            rintro other frame' ⟨differentPage, owned, entry⟩
            have different : frame' + ram.hhdm ∉ [frame + ram.hhdm] := by
              rw [List.mem_singleton]
              intro same
              obtain rfl : frame' = frame := Nat.add_right_cancel same
              rw [first.1] at owned
              exact differentPage (Owner.page.inj owned).symm
            exact ⟨(emptied.kept frame' different).trans owned,
              (emptied.others _ (by rwa [List.mem_singleton])).trans entry⟩
          obtain ⟨v', m', finished, moreFreed, later⟩ :=
            inductionHypothesis frames emptied.store distinct' still
          refine ⟨v', m', by rw [foldlM_cons_eq done, finished], ?_, ?_⟩
          · rw [moreFreed, freed, List.reverse_cons, List.append_assoc]
            rfl
          refine emptied.trans ?_ later
          intro other isSlab member
          rw [List.mem_singleton] at member
          obtain rfl : other = frame := Nat.add_right_cancel member
          rw [first.1] at isSlab
          contradiction

/-- The loop over pages without entries. -/
theorem Store.unmapEmpty (virts : List Nat) (store : Store ram root v m)
    (cleared : ∀ virt ∈ virts, entries ram v m (pageNumber virt) = 0) :
    ∃ v' m' released, virts.foldlM (fun m i => unmap ram.hhdm root i m) m = .ok m' ∧
      v'.owner = v.owner ∧ (∀ pointer ∈ released, pointer = 0 + ram.hhdm) ∧
      Emptied ram root v m (virts.map pageNumber) released v' m' := by
  induction virts generalizing v m with
  | nil =>
      exact ⟨v, m, [], rfl, rfl, fun _ member => absurd member List.not_mem_nil,
        Emptied.refl store⟩
  | cons virt virts inductionHypothesis =>
      obtain ⟨mid, t, released, done, ownerEq, null, emptied, entriesEq⟩ :=
        store.unmap_empty (cleared virt List.mem_cons_self)
      obtain ⟨v', m', more, finished, ownerEq', null', later⟩ := inductionHypothesis emptied.store
        (fun other member => by
          rw [entriesEq]
          exact cleared other (List.mem_cons_of_mem virt member))
      refine ⟨v', m', released ++ more, by rw [foldlM_cons_eq done, finished],
        ownerEq'.trans ownerEq, ?_, emptied.trans ?_ later⟩
      · intro pointer member
        rcases List.mem_append.mp member with first | second
        · exact null pointer first
        · exact null' pointer second
      · intro frame isSlab member
        obtain rfl : frame = 0 := Nat.add_right_cancel (null _ member)
        rw [store.owner_zero] at isSlab
        contradiction

/-! ### The pages of a region -/

/-- The addresses of the pages of a region. -/
def regionPages (base length : Nat) : List Nat :=
  (List.range (length / pageSize)).map fun i => base + i * pageSize

theorem regionPages_length (base length : Nat) :
    (regionPages base length).length = length / pageSize := by
  rw [regionPages, List.length_map, List.length_range]

theorem pagesBetween_region (aligned : length % pageSize = 0)
    (inside : base + length < addressSpace) :
    pagesBetween base (wrap (base + length)) = regionPages base length := by
  have count : (base + length - base + (pageSize - 1)) / pageSize = length / pageSize := by
    unfold pageSize at *
    omega
  rw [wrap, Nat.mod_eq_of_lt inside, pagesBetween, count, regionPages]

/-- The lowest address of the higher half. -/
def higherHalf : Nat := 2 ^ 64 - 2 ^ 47

/-- In the higher half the page number determines the page. -/
theorem pageNumber_high (high : higherHalf ≤ virt) (inside : virt < addressSpace) :
    virt / pageSize = pageNumber virt + (2 ^ 52 - 2 ^ 36) := by
  unfold higherHalf addressSpace at *
  unfold pageNumber pageSize
  omega

theorem mem_regionPages (member : virt ∈ regionPages base length) :
    base ≤ virt ∧ virt + pageSize ≤ base + length := by
  obtain ⟨i, inRange, rfl⟩ := List.mem_map.mp member
  have bound := List.mem_range.mp inRange
  unfold pageSize at *
  omega

theorem regionPages_nodup (high : higherHalf ≤ base) (inside : base + length ≤ addressSpace) :
    ((regionPages base length).map pageNumber).Nodup := by
  rw [regionPages, List.map_map]
  apply List.Nodup.map_on _ List.nodup_range
  intro i inRange j inRange' same
  have bound := List.mem_range.mp inRange
  have bound' := List.mem_range.mp inRange'
  have numbers : pageNumber (base + i * pageSize) = pageNumber (base + j * pageSize) := same
  have first := pageNumber_high (show higherHalf ≤ base + i * pageSize by omega)
    (by unfold pageSize at *; omega)
  have second := pageNumber_high (show higherHalf ≤ base + j * pageSize by omega)
    (by unfold pageSize at *; omega)
  rw [numbers, ← second] at first
  unfold pageSize at first
  omega

end NyauxKernel.Memory
