/-
The start of `kmain`: `pmm::init`, and the initialisation of the boot processor.

`arch_bsp_init` of x86_64 loads descriptor tables, which are static; that of RISC-V calls
`pmm::init` once more.  A list that is there already is not emptied by it: the pages are
pushed on top of it.
-/

import NyauxKernel.Memory.KernelBoot

namespace NyauxKernel.Memory

open LinkPath ExceptFold

inductive Arch
  | x86_64
  | riscV
deriving DecidableEq, Repr

/-- `Processor::arch_bsp_init`, as far as it touches memory. -/
def archBspInit (hhdm : Nat) (entries : List MemmapEntry) (m : Machine) : Arch → Except Halt Machine
  | .x86_64 => .ok m
  | .riscV => pmmInit hhdm entries m

/-- `kmain` up to and including `arch_bsp_init`. -/
def kmainInit (arch : Arch) (hhdm : Nat) (entries : List MemmapEntry) (m : Machine) :
    Except Halt Machine := do
  let m ← pmmInit hhdm entries m
  archBspInit hhdm entries m arch

/-- Following `next` from `FREELIST` ends, meets no frame twice and no slab page. -/
def SoundFreelist (hhdm : Nat) (m : Machine) : Prop :=
  ∃ frames, Path (fun frame => m.memory (frame + hhdm)) (m.freelist.getD 0) frames 0 ∧
    0 ∉ frames ∧ frames.Nodup ∧
    ∀ frame ∈ frames, ∀ cache ∈ m.slabCaches, cache.slabs ≠ frame + hhdm

/-! ### The list through the pages -/

/-- `next` leads from `FREELIST` through the frames `cells` to `finish`. -/
structure Threaded (hhdm : Nat) (m : Machine) (cells : List Nat) (finish : Nat) : Prop where
  start : ∃ head, m.freelist = some head ∧
    Path (fun frame => m.memory (frame + hhdm)) head cells finish
  distinct : cells.Nodup
  aligned : ∀ cell ∈ cells, cell % pageSize = 0

variable {finish hhdm : Nat} {m : Machine} {cells : List Nat}

/-- A slab takes the first frame of the list and writes inside its page only. -/
theorem Threaded.slabHeaderInit {size cell : Nat} (linked : Threaded hhdm m (cell :: cells) finish)
    (positive : 0 < size) (fits : size ≤ pageSize - slabHeaderSize) :
    ∃ m', Memory.slabHeaderInit hhdm size m = .ok (cell + hhdm, m') ∧
      Threaded hhdm m' cells finish ∧ m'.slabCaches = m.slabCaches := by
  rcases linked.start with ⟨head, atHead, path⟩
  cases (path.1 : head = cell)
  rcases List.nodup_cons.mp linked.distinct with ⟨absent, distinct⟩
  rcases slabHeaderInit_eq hhdm positive fits atHead with ⟨taken, m', takenEq, made, writes, _⟩
  rcases allocatePage_ok takenEq with ⟨phy, again, _, rfl⟩
  cases Option.some.inj (atHead.symm.trans again)
  refine ⟨m', made, ?_, writes.slabCaches⟩
  constructor
  case start =>
    refine ⟨_, writes.freelist, path.2.congr ?_⟩
    intro other member
    have outside : ¬InPage (cell + hhdm) (other + hhdm) := by
      intro inside
      have same := inPage_unique hhdm (linked.aligned other (List.mem_cons_of_mem cell member))
        (linked.aligned cell List.mem_cons_self) (inPage_start _) inside
      exact absent (same ▸ member)
    exact (writes.elsewhere _ outside).trans (WordMemory.zero_outside outside)
  case distinct => exact distinct
  case aligned => exact fun other member => linked.aligned other (List.mem_cons_of_mem cell member)

/-- `init_slab` takes a frame of the list for each cache. -/
theorem Threaded.initSlabFrom (sizes : List Nat) (index : Nat)
    (fit : ∀ size ∈ sizes, 0 < size ∧ size ≤ pageSize - slabHeaderSize ∧
      slabHeaderSize + size ≤ pageSize) (linked : Threaded hhdm m cells finish)
    (enough : sizes.length ≤ cells.length) :
    ∃ m', Memory.initSlabFrom hhdm index sizes m = .ok m' ∧
      Threaded hhdm m' (cells.drop sizes.length) finish ∧
      m'.slabCaches.length = m.slabCaches.length ∧
      ∀ i cache, m'.slabCaches[i]? = some cache →
        (∃ cell ∈ cells.take sizes.length, cache.slabs = cell + hhdm) ∨
          ¬(index ≤ i ∧ i < index + sizes.length) ∧ m.slabCaches[i]? = some cache := by
  induction sizes generalizing m cells index with
  | nil => exact ⟨m, rfl, linked, rfl, fun i cache found => Or.inr ⟨by simp, found⟩⟩
  | cons size sizes inductionHypothesis =>
      cases cells with
      | nil => exact absurd enough (by simp)
      | cons cell cells =>
          rcases fit size List.mem_cons_self with ⟨positive, fits, small⟩
          rcases linked.slabHeaderInit positive fits with ⟨made, madeEq, rest, caches⟩
          have cached : Threaded hhdm
              { made with slabCaches := made.slabCaches.set index ⟨size, cell + hhdm⟩ } cells finish :=
            { start := rest.start, distinct := rest.distinct, aligned := rest.aligned }
          rcases inductionHypothesis (index + 1)
            (fun other member => fit other (List.mem_cons_of_mem size member)) cached
            (by simpa using enough) with ⟨m', done, final, length, pages⟩
          refine ⟨m', (initSlabFrom_cons_eq small madeEq).trans done, final, ?_, ?_⟩
          · rw [length, List.length_set, caches]
          · intro i cache found
            rcases pages i cache found with ⟨page, member, same⟩ | ⟨outside, older⟩
            · exact Or.inl ⟨page, List.mem_cons_of_mem cell member, same⟩
            · dsimp only at older
              rw [caches, List.getElem?_set] at older
              by_cases here : index = i
              · rw [if_pos here] at older
                split at older
                · exact Or.inl ⟨cell, List.mem_cons_self, by rw [← Option.some.inj older]⟩
                · contradiction
              · rw [if_neg here] at older
                refine Or.inr ⟨?_, older⟩
                rw [List.length_cons]
                omega

/-- What `pmm::init` does to a list that is there: the usable frames but the first seven
are on top of it. -/
theorem pmmInit_linked (map : MemoryMap) (seven : m.slabCaches.length = 7)
    (enough : slabSizes.length ≤ map.frames.length) :
    ∃ m', pmmInit map.hhdm map.entries m = .ok m' ∧
      Threaded map.hhdm m' (map.frames.reverse.drop slabSizes.length) (m.freelist.getD 0) ∧
      m'.slabCaches.length = 7 ∧
      ∀ cache ∈ m'.slabCaches, ∃ cell ∈ map.frames.reverse.take slabSizes.length,
        cache.slabs = cell + map.hhdm := by
  have path := initFreelist_path map m
  have linked : Threaded map.hhdm (initFreelist map.hhdm map.entries m) map.frames.reverse
      (m.freelist.getD 0) := by
    constructor
    case start =>
      cases atHead : (initFreelist map.hhdm map.entries m).freelist with
      | some head => exact ⟨head, rfl, by rwa [atHead] at path⟩
      | none =>
          rw [atHead] at path
          cases list : map.frames.reverse with
          | nil =>
              rw [List.reverse_eq_nil_iff.mp list] at enough
              exact absurd enough (by decide)
          | cons first rest =>
              rw [list] at path
              have member : first ∈ map.frames.reverse := list ▸ List.mem_cons_self
              have zero : 0 = first := path.1
              exact absurd (List.mem_reverse.mp (zero ▸ member)) map.frames_ne_zero
    case distinct => exact List.nodup_reverse.mpr map.frames_nodup
    case aligned =>
      exact fun cell member => map.frames_aligned cell (List.mem_reverse.mp member)
  rcases linked.initSlabFrom slabSizes 0 slabSizes_fit (by simpa using enough) with
    ⟨m', done, final, length, pages⟩
  rw [initFreelist_caches, seven] at length
  refine ⟨m', done, final, length, ?_⟩
  intro cache member
  rcases List.mem_iff_getElem?.mp member with ⟨i, found⟩
  rcases pages i cache found with there | ⟨outside, _⟩
  · exact there
  · have below := (List.getElem?_eq_some_iff.mp found).1
    rw [length] at below
    have inRange : i < 0 + slabSizes.length := by
      rw [Nat.zero_add]
      exact below
    exact absurd ⟨Nat.zero_le i, inRange⟩ outside

/-! ### The boot sequence -/

/-- One `pmm::init` on an empty list. -/
theorem Threaded.soundFreelist {map : MemoryMap}
    (linked : Threaded map.hhdm m (map.frames.reverse.drop slabSizes.length) 0)
    (pages : ∀ cache ∈ m.slabCaches, ∃ cell ∈ map.frames.reverse.take slabSizes.length,
      cache.slabs = cell + map.hhdm) : SoundFreelist map.hhdm m := by
  rcases linked.start with ⟨head, atHead, path⟩
  refine ⟨_, ?_, ?_, linked.distinct, ?_⟩
  · rw [atHead]
    exact path
  · intro zero
    exact map.frames_ne_zero (List.mem_reverse.mp (List.mem_of_mem_drop zero))
  · intro frame isFree cache member same
    rcases pages cache member with ⟨cell, isTaken, here⟩
    have cellEq : cell = frame := Nat.add_right_cancel (here.symm.trans same)
    have whole : (map.frames.reverse.take slabSizes.length ++
        map.frames.reverse.drop slabSizes.length).Nodup := by
      rw [List.take_append_drop]
      exact List.nodup_reverse.mpr map.frames_nodup
    exact (List.nodup_append.mp whole).2.2 cell isTaken frame isFree cellEq

/-- A list that leads back to its head has no end. -/
theorem Threaded.not_sound {first : Nat} {rest : List Nat}
    (linked : Threaded hhdm m (first :: rest) first) (nonzero : 0 ∉ first :: rest) :
    ¬SoundFreelist hhdm m := by
  rcases linked.start with ⟨head, atHead, path⟩
  rintro ⟨frames, ends, _⟩
  rw [atHead] at ends
  have closed : ∀ cell, cell ∈ first :: rest → m.memory (cell + hhdm) ∈ first :: rest := by
    intro cell member
    rcases path.next_mem member with listed | back
    · exact listed
    · rw [back]
      exact List.mem_cons_self
  have atStart : head ∈ first :: rest := path.1 ▸ List.mem_cons_self
  exact nonzero (ends.inside closed atStart)

/-- The second `pmm::init` of RISC-V links the last free frame to the first one. -/
theorem riscV_cycle (map : MemoryMap) (bare : Bare m)
    (enough : slabSizes.length ≤ map.frames.length) :
    ∃ m', kmainInit .riscV map.hhdm map.entries m = .ok m' ∧
      Threaded map.hhdm m' (map.frames.reverse.drop slabSizes.length)
        ((map.frames.reverse.drop slabSizes.length).headD 0) := by
  rcases pmmInit_linked map bare.seven enough with ⟨t, first, linked, seven, _⟩
  rcases pmmInit_linked map seven enough with ⟨m', second, again, _⟩
  rw [bare.fresh] at linked
  rcases linked.start with ⟨head, atHead, path⟩
  have isHead : head = (map.frames.reverse.drop slabSizes.length).headD 0 := path.start_eq
  rw [atHead, Option.getD_some, isHead] at again
  refine ⟨m', ?_, again⟩
  rw [kmainInit, first]
  exact second

/-- On a machine with a frame for each slab cache, the boot sequence leaves a sound free
list if and only if the architecture is x86_64, or the slab caches take every frame. -/
theorem boot_free_list_sound_iff (arch : Arch) (map : MemoryMap) (m : Machine) (bare : Bare m)
    (enough : slabSizes.length ≤ map.frames.length) :
    ∃ m', kmainInit arch map.hhdm map.entries m = .ok m' ∧
      (SoundFreelist map.hhdm m' ↔ arch = .x86_64 ∨ map.frames.length = slabSizes.length) := by
  cases arch with
  | x86_64 =>
      rcases pmmInit_linked map bare.seven enough with ⟨m', done, linked, _, pages⟩
      rw [bare.fresh] at linked
      refine ⟨m', ?_, iff_of_true (linked.soundFreelist pages) (Or.inl rfl)⟩
      rw [kmainInit, done]
      rfl
  | riscV =>
      rcases riscV_cycle map bare enough with ⟨m', done, linked⟩
      have nonzero : 0 ∉ map.frames.reverse.drop slabSizes.length := fun zero =>
        map.frames_ne_zero (List.mem_reverse.mp (List.mem_of_mem_drop zero))
      refine ⟨m', done, ?_⟩
      have long : (map.frames.reverse.drop slabSizes.length).length =
          map.frames.length - slabSizes.length := by
        rw [List.length_drop, List.length_reverse]
      cases left : map.frames.reverse.drop slabSizes.length with
      | nil =>
          rw [left] at linked long
          rw [List.length_nil] at long
          rcases linked.start with ⟨head, atHead, ends⟩
          refine iff_of_true ⟨[], ?_, List.not_mem_nil, List.nodup_nil, ?_⟩ (Or.inr (by omega))
          · rw [atHead]
            exact ends
          · exact fun frame member => absurd member List.not_mem_nil
      | cons first rest =>
          rw [left] at linked nonzero long
          rw [List.length_cons] at long
          apply iff_of_false (linked.not_sound nonzero)
          rintro (other | exactly)
          · contradiction
          · omega

theorem boot_free_list_sound_small :
    ∃ m', kmainInit .x86_64 smallBoot.hhdm smallBoot.entries smallMachine = .ok m' ∧
      SoundFreelist smallBoot.hhdm m' := by
  rcases boot_free_list_sound_iff .x86_64 smallBoot_good.map smallMachine smallMachine_bare
    (by rw [smallBoot_frames]; decide) with ⟨m', done, sound⟩
  exact ⟨m', done, sound.mpr (Or.inl rfl)⟩

/-- On a RISC-V machine with forty usable frames, `next` leads from the first free frame
through all 33 free frames back to it. -/
theorem boot_free_list_cyclic :
    ∃ m' head cells, kmainInit .riscV smallBoot.hhdm smallBoot.entries smallMachine = .ok m' ∧
      m'.freelist = some head ∧ cells.length = 33 ∧
      Path (fun frame => m'.memory (frame + smallBoot.hhdm)) head cells head ∧
      ¬SoundFreelist smallBoot.hhdm m' := by
  rcases riscV_cycle smallBoot_good.map smallMachine_bare (by rw [smallBoot_frames]; decide) with
    ⟨m', done, linked⟩
  have nonzero : 0 ∉ smallBoot_good.map.frames.reverse.drop slabSizes.length := fun zero =>
    smallBoot_good.map.frames_ne_zero (List.mem_reverse.mp (List.mem_of_mem_drop zero))
  have long : (smallBoot_good.map.frames.reverse.drop slabSizes.length).length = 33 := by
    rw [List.length_drop, List.length_reverse, smallBoot_frames]
    rfl
  cases left : smallBoot_good.map.frames.reverse.drop slabSizes.length with
  | nil =>
      rw [left] at long
      contradiction
  | cons first rest =>
      rw [left] at linked nonzero long
      rcases linked.start with ⟨head, atHead, path⟩
      cases (path.1 : head = first)
      exact ⟨m', first, first :: rest, done, atHead, long, path, linked.not_sound nonzero⟩

end NyauxKernel.Memory
