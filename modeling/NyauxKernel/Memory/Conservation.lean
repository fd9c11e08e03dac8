/-
Conservation of frames by the page allocator.

For a memory map with page aligned, disjoint usable entries, every run of
`allocate_page` and `deallocate_page` keeps the free chain and the allocated
frames a partition of the usable frames other than frame zero.  The list has two
encodings of emptiness; `allocate_page` recognises only the one that no state
after initialisation has, so exhaustion hands out frame zero.
-/

import NyauxKernel.Memory.SlabShape
import Mathlib.Data.List.Pairwise

namespace NyauxKernel.Memory

open LinkPath

/-! ### Memory maps -/

/-- A memory map as the bootloader promises it. -/
structure MemoryMap where
  hhdm : Nat
  entries : List MemmapEntry
  aligned : ∀ entry ∈ entries, entry.type = .usable →
    entry.base % pageSize = 0 ∧ entry.length % pageSize = 0
  disjoint : entries.Pairwise fun entry other => entry.type = .usable → other.type = .usable →
    entry.base + entry.length ≤ other.base ∨ other.base + other.length ≤ entry.base

def usablePages (entry : MemmapEntry) : List Nat :=
  if entry.type = .usable then pagesBetween entry.base (entry.base + entry.length) else []

/-- The usable frames of a map other than frame zero. -/
def MemoryMap.frames (map : MemoryMap) : List Nat :=
  (map.entries.flatMap usablePages).filter (· ≠ 0)

variable {hhdm page : Nat} {m : Machine} {map : MemoryMap}

theorem mem_pagesBetween {start stop : Nat} (member : page ∈ pagesBetween start stop) :
    start ≤ page ∧ page < stop ∧ ∃ i, page = start + i * pageSize := by
  obtain ⟨i, below, rfl⟩ := List.mem_map.mp member
  have bound := List.mem_range.mp below
  refine ⟨Nat.le_add_right _ _, ?_, i, rfl⟩
  unfold pageSize at *
  omega

theorem pagesBetween_nodup (start stop : Nat) : (pagesBetween start stop).Nodup := by
  apply List.Nodup.map _ List.nodup_range
  intro i j same
  simp only [pageSize] at same
  omega

theorem mem_usablePages {entry : MemmapEntry} (member : page ∈ usablePages entry) :
    entry.type = .usable ∧ entry.base ≤ page ∧ page < entry.base + entry.length ∧
      ∃ i, page = entry.base + i * pageSize := by
  unfold usablePages at member
  by_cases usable : entry.type = .usable
  · rw [if_pos usable] at member
    exact ⟨usable, mem_pagesBetween member⟩
  · rw [if_neg usable] at member
    exact absurd member List.not_mem_nil

theorem MemoryMap.pages_nodup (map : MemoryMap) : (map.entries.flatMap usablePages).Nodup := by
  rw [List.nodup_flatMap]
  constructor
  · intro entry _member
    unfold usablePages
    split
    · exact pagesBetween_nodup _ _
    · exact List.nodup_nil
  · refine map.disjoint.imp ?_
    intro entry other apart page inEntry inOther
    obtain ⟨usable, low, high, _⟩ := mem_usablePages inEntry
    obtain ⟨usableOther, lowOther, highOther, _⟩ := mem_usablePages inOther
    rcases apart usable usableOther with below | above
    · omega
    · omega

theorem MemoryMap.pages_aligned (map : MemoryMap) :
    ∀ page ∈ map.entries.flatMap usablePages, page % pageSize = 0 := by
  intro page member
  obtain ⟨entry, inEntries, inEntry⟩ := List.mem_flatMap.mp member
  obtain ⟨usable, _, _, i, rfl⟩ := mem_usablePages inEntry
  have base := (map.aligned entry inEntries usable).1
  unfold pageSize at *
  omega

theorem MemoryMap.frames_nodup (map : MemoryMap) : map.frames.Nodup :=
  map.pages_nodup.filter _

theorem MemoryMap.frames_aligned (map : MemoryMap) :
    ∀ frame ∈ map.frames, frame % pageSize = 0 :=
  fun frame member => map.pages_aligned frame (List.mem_of_mem_filter member)

theorem MemoryMap.frames_ne_zero (map : MemoryMap) : 0 ∉ map.frames := by
  intro member
  simpa using (List.mem_filter.mp member).2

/-! ### The initial chain -/

theorem initFreelist_eq (hhdm : Nat) (entries : List MemmapEntry) (m : Machine) :
    initFreelist hhdm entries m = (entries.flatMap usablePages).foldl (initPage hhdm) m := by
  unfold initFreelist
  induction entries generalizing m with
  | nil => rfl
  | cons entry entries inductionHypothesis =>
      rw [List.foldl_cons, List.flatMap_cons, List.foldl_append, inductionHypothesis]
      congr 1
      cases kind : entry.type <;> simp [initEntry, usablePages, kind]

/-- Pages are pushed on top of the list that is there. -/
theorem initPages_path (pages : List Nat) {cells : List Nat} {finish : Nat}
    (linked : Path (fun frame => m.memory (frame + hhdm)) (m.freelist.getD 0) cells finish)
    (distinct : pages.Nodup) (apart : ∀ page ∈ pages, page ∉ cells) :
    Path (fun frame => (pages.foldl (initPage hhdm) m).memory (frame + hhdm))
      ((pages.foldl (initPage hhdm) m).freelist.getD 0)
      ((pages.filter (· ≠ 0)).reverse ++ cells) finish := by
  induction pages generalizing m cells with
  | nil => exact linked
  | cons page pages inductionHypothesis =>
      rcases List.nodup_cons.mp distinct with ⟨notLater, distinctRest⟩
      have apartRest : ∀ other ∈ pages, other ∉ cells :=
        fun other member => apart other (List.mem_cons_of_mem page member)
      rw [List.foldl_cons]
      by_cases zero : page = 0
      · have skipped : initPage hhdm m page = m := if_pos zero
        rw [skipped, List.filter_cons_of_neg (by simp [zero])]
        exact inductionHypothesis linked distinctRest apartRest
      · have pushed : initPage hhdm m page =
            { m.write (page + hhdm) (m.freelist.getD 0) with freelist := some page } :=
          if_neg zero
        rw [List.filter_cons_of_pos (by simpa using zero), List.reverse_cons, List.append_assoc]
        apply inductionHypothesis
        · rw [pushed]
          refine ⟨rfl, ?_⟩
          dsimp only
          rw [write_same]
          apply linked.congr
          intro cell member
          apply write_other
          intro same
          exact apart page List.mem_cons_self (Nat.add_right_cancel same ▸ member)
        · exact distinctRest
        · intro other member inside
          rcases List.mem_cons.mp inside with same | older
          · exact notLater (same ▸ member)
          · exact apartRest other member older

theorem initPages_calls (hhdm : Nat) (pages : List Nat) (m : Machine) :
    (pages.foldl (initPage hhdm) m).pmmCalls = m.pmmCalls := by
  induction pages generalizing m with
  | nil => rfl
  | cons page pages inductionHypothesis =>
      have kept : (initPage hhdm m page).pmmCalls = m.pmmCalls := by
        unfold initPage
        split
        · rfl
        · rfl
      rw [List.foldl_cons, inductionHypothesis, kept]

/-- After the loop of `pmm::init`, the usable frames are on top of the list before it. -/
theorem initFreelist_path (map : MemoryMap) (m : Machine) :
    Path (fun frame => (initFreelist map.hhdm map.entries m).memory (frame + map.hhdm))
      ((initFreelist map.hhdm map.entries m).freelist.getD 0) map.frames.reverse
      (m.freelist.getD 0) := by
  have before : Path (fun frame => m.memory (frame + map.hhdm)) (m.freelist.getD 0) []
      (m.freelist.getD 0) := rfl
  have path := initPages_path (map.entries.flatMap usablePages) before map.pages_nodup
    (fun _ _ => List.not_mem_nil)
  rwa [← initFreelist_eq, List.append_nil] at path

/-! ### The partition -/

/-- The allocated frames after one more call. -/
def afterCall (hhdm : Nat) (live : List Nat) : PmmCall → List Nat
  | .allocated frame => frame :: live
  | .released pointer => live.erase (pointer - hhdm)

/-- The frames that calls have allocated and not released, latest first. -/
def liveFrames (hhdm : Nat) (calls : List PmmCall) : List Nat :=
  calls.foldl (afterCall hhdm) []

theorem liveFrames_allocated (hhdm : Nat) (calls : List PmmCall) (frame : Nat) :
    liveFrames hhdm (calls ++ [.allocated frame]) = frame :: liveFrames hhdm calls := by
  rw [liveFrames, List.foldl_append]
  rfl

theorem liveFrames_released (hhdm : Nat) (calls : List PmmCall) (pointer : Nat) :
    liveFrames hhdm (calls ++ [.released pointer]) =
      (liveFrames hhdm calls).erase (pointer - hhdm) := by
  rw [liveFrames, List.foldl_append]
  rfl

/-- The free chain and the allocated frames are the usable frames. -/
structure Conserved (map : MemoryMap) (m : Machine) (frames : List Nat) : Prop where
  chain : ∃ head, m.freelist = some head ∧ FreeChain map.hhdm m.memory head frames
  parts : (frames ++ liveFrames map.hhdm m.pmmCalls).Perm map.frames

namespace Conserved

variable {m' : Machine} {frames : List Nat}

theorem nodup (conserved : Conserved map m frames) :
    (frames ++ liveFrames map.hhdm m.pmmCalls).Nodup :=
  conserved.parts.nodup_iff.mpr map.frames_nodup

theorem not_live (conserved : Conserved map m frames) {frame : Nat} (free : frame ∈ frames) :
    frame ∉ liveFrames map.hhdm m.pmmCalls := by
  intro live
  exact (List.nodup_append.mp conserved.nodup).2.2 frame free frame live rfl

theorem mem_frames_iff (conserved : Conserved map m frames) (frame : Nat) :
    frame ∈ frames ∨ frame ∈ liveFrames map.hhdm m.pmmCalls ↔ frame ∈ map.frames := by
  rw [← List.mem_append]
  exact conserved.parts.mem_iff

theorem aligned_live (conserved : Conserved map m frames) {frame : Nat}
    (live : frame ∈ liveFrames map.hhdm m.pmmCalls) : frame % pageSize = 0 :=
  map.frames_aligned frame ((conserved.mem_frames_iff frame).mp (Or.inr live))

/-- Memory outside the free pages is free to change. -/
theorem writes (conserved : Conserved map m frames) {inside : Nat → Prop}
    (written : Writes inside m m')
    (away : ∀ frame ∈ frames, ¬inside (frame + map.hhdm)) : Conserved map m' frames where
  chain := by
    obtain ⟨head, freelist, chain⟩ := conserved.chain
    refine ⟨head, by rw [written.freelist, freelist], chain.congr ?_⟩
    intro frame member
    exact written.elsewhere _ (away frame member)
  parts := by
    rw [written.pmmCalls]
    exact conserved.parts

theorem freelist_eq_zero_iff (conserved : Conserved map m frames) :
    m.freelist = some 0 ↔ frames = [] := by
  obtain ⟨head, freelist, chain⟩ := conserved.chain
  rw [freelist, Option.some.injEq]
  exact chain.head_eq_zero_iff

/-- `allocate_page` takes the first frame of a chain that is not empty. -/
theorem allocatePage {frame : Nat} (conserved : Conserved map m (frame :: frames)) :
    ∃ m', Memory.allocatePage map.hhdm m = .ok (frame + map.hhdm, m') ∧
      Conserved map m' frames ∧
      m'.pmmCalls = m.pmmCalls ++ [.allocated frame] ∧
      ∀ address, InPage (frame + map.hhdm) address → m'.memory address = 0 := by
  obtain ⟨head, freelist, chain⟩ := conserved.chain
  obtain ⟨rfl, rest⟩ := chain.pop
  refine ⟨_, allocatePage_eq freelist, ?_, rfl, ?_⟩
  · constructor
    · exact ⟨_, rfl, rest⟩
    · rw [liveFrames_allocated]
      exact List.perm_middle.trans conserved.parts
  · intro address inside
    exact WordMemory.zero_inside inside.1 inside.2

/-- `deallocate_page` puts an allocated frame in front of the chain. -/
theorem deallocatePage (conserved : Conserved map m frames) {frame : Nat}
    (live : frame ∈ liveFrames map.hhdm m.pmmCalls) :
    ∃ m', Memory.deallocatePage map.hhdm (frame + map.hhdm) m = .ok m' ∧
      Conserved map m' (frame :: frames) := by
  obtain ⟨head, freelist, chain⟩ := conserved.chain
  have usable : frame ∈ map.frames := (conserved.mem_frames_iff frame).mp (Or.inr live)
  have absent : frame ∉ frames := fun member => conserved.not_live member live
  have aligned := conserved.aligned_live live
  have physical : frame + map.hhdm - map.hhdm = frame := Nat.add_sub_cancel _ _
  refine ⟨_, deallocatePage_eq freelist, ?_⟩
  constructor
  · refine ⟨_, rfl, ?_⟩
    rw [physical]
    apply chain.push absent aligned (fun zero => map.frames_ne_zero (zero ▸ usable))
    · exact Function.update_self _ _ _
    · intro other member
      have different : other + map.hhdm ≠ frame + map.hhdm := fun same =>
        absent ((Nat.add_right_cancel same) ▸ member)
      exact (Function.update_of_ne different _ _).trans
        (WordMemory.zero_outside (chain.outside_page aligned absent other member))
  · rw [liveFrames_released, physical]
    have moved := (List.perm_cons_erase live).append_left frames
    exact (List.perm_middle.symm.trans moved.symm).trans conserved.parts

end Conserved

/-! ### Initialisation -/

theorem slabSizes_fit : ∀ size ∈ slabSizes,
    0 < size ∧ size ≤ pageSize - slabHeaderSize ∧ slabHeaderSize + size ≤ pageSize := by
  decide

/-- A round of `init_slab` whose slab is made. -/
theorem initSlabFrom_cons_eq {index size : Nat} {sizes : List Nat} {made : Machine}
    (small : slabHeaderSize + size ≤ pageSize)
    (madeEq : slabHeaderInit hhdm size m = .ok (page, made)) :
    initSlabFrom hhdm index (size :: sizes) m = initSlabFrom hhdm (index + 1) sizes
      { made with slabCaches := made.slabCaches.set index ⟨size, page⟩ } := by
  rw [initSlabFrom, slabCacheInit, if_neg (Nat.not_lt.mpr small)]
  simp only [madeEq, bind, Except.bind]

namespace Conserved

variable {frames : List Nat}

/-- Making a slab takes one frame and writes inside its page only. -/
theorem slabHeaderInit {frame size : Nat} (conserved : Conserved map m (frame :: frames))
    (positive : 0 < size) (fits : size ≤ pageSize - slabHeaderSize) :
    ∃ m', Memory.slabHeaderInit map.hhdm size m = .ok (frame + map.hhdm, m') ∧
      Conserved map m' frames ∧ m'.pmmCalls = m.pmmCalls ++ [.allocated frame] := by
  obtain ⟨taken, takenEq, rest, calls, _⟩ := conserved.allocatePage
  obtain ⟨phy, head, page, _⟩ := allocatePage_ok takenEq
  obtain rfl : frame = phy := Nat.add_right_cancel page
  obtain ⟨taken', m', takenEq', made, writes, _, _⟩ := slabHeaderInit_eq map.hhdm positive fits head
  obtain rfl : taken = taken' := (Prod.mk.inj (Except.ok.inj (takenEq.symm.trans takenEq'))).2
  refine ⟨m', made, rest.writes writes ?_, by rw [writes.pmmCalls, calls]⟩
  obtain ⟨_, _, chain⟩ := rest.chain
  have parts := List.nodup_append.mp conserved.nodup
  have aligned : frame % pageSize = 0 :=
    map.frames_aligned frame ((conserved.mem_frames_iff frame).mp (Or.inl List.mem_cons_self))
  exact chain.outside_page aligned (List.nodup_cons.mp parts.1).1

theorem initSlabFrom (sizes : List Nat) (index : Nat)
    (fit : ∀ size ∈ sizes, 0 < size ∧ size ≤ pageSize - slabHeaderSize ∧
      slabHeaderSize + size ≤ pageSize)
    (enough : sizes.length ≤ frames.length) (conserved : Conserved map m frames) :
    ∃ m', Memory.initSlabFrom map.hhdm index sizes m = .ok m' ∧
      Conserved map m' (frames.drop sizes.length) := by
  induction sizes generalizing m frames index with
  | nil => exact ⟨m, rfl, conserved⟩
  | cons size sizes inductionHypothesis =>
      cases frames with
      | nil => exact absurd enough (by simp)
      | cons frame frames =>
          obtain ⟨positive, fits, small⟩ := fit size List.mem_cons_self
          obtain ⟨made, madeEq, rest, _⟩ := conserved.slabHeaderInit positive fits
          have cached : Conserved map
              { made with
                slabCaches := made.slabCaches.set index ⟨size, frame + map.hhdm⟩ } frames :=
            { chain := rest.chain, parts := rest.parts }
          obtain ⟨m', done, final⟩ := inductionHypothesis (index + 1)
            (fun other member => fit other (List.mem_cons_of_mem size member))
            (by simpa using enough) cached
          exact ⟨m', (initSlabFrom_cons_eq small madeEq).trans done, final⟩

end Conserved

/-- The free chain before the slab caches are set up. -/
theorem initFreelist_chain (map : MemoryMap) (fresh : m.freelist = none) :
    FreeChain map.hhdm (initFreelist map.hhdm map.entries m).memory
        ((initFreelist map.hhdm map.entries m).freelist.getD 0) map.frames.reverse ∧
      (initFreelist map.hhdm map.entries m).pmmCalls = m.pmmCalls := by
  constructor
  · have path := initFreelist_path map m
    rw [fresh] at path
    exact
      { linked := path
        distinct := List.nodup_reverse.mpr map.frames_nodup
        aligned := fun frame member => map.frames_aligned frame (List.mem_reverse.mp member)
        nonzero := fun zero => map.frames_ne_zero (List.mem_reverse.mp zero) }
  · rw [initFreelist_eq]
    exact initPages_calls map.hhdm _ m

theorem initFreelist_conserved (map : MemoryMap) (fresh : m.freelist = none)
    (uncalled : m.pmmCalls = []) (ready : (initFreelist map.hhdm map.entries m).freelist ≠ none) :
    Conserved map (initFreelist map.hhdm map.entries m) map.frames.reverse := by
  obtain ⟨chain, calls⟩ := initFreelist_chain map fresh
  obtain ⟨head, atHead⟩ := Option.ne_none_iff_exists'.mp ready
  rw [atHead] at chain
  constructor
  · exact ⟨head, atHead, chain⟩
  · rw [calls, uncalled]
    change (map.frames.reverse ++ []).Perm map.frames
    rw [List.append_nil]
    exact List.reverse_perm _

/-- `pmm::init` succeeds when the map has a frame for each slab cache. -/
theorem pmmInit_conserved (map : MemoryMap) (fresh : m.freelist = none) (uncalled : m.pmmCalls = [])
    (enough : slabSizes.length ≤ map.frames.length) :
    ∃ m', pmmInit map.hhdm map.entries m = .ok m' ∧
      Conserved map m' (map.frames.reverse.drop slabSizes.length) := by
  have ready : (initFreelist map.hhdm map.entries m).freelist ≠ none := by
    intro missing
    have chain := (initFreelist_chain map fresh).1
    rw [missing] at chain
    have none : map.frames = [] := List.reverse_eq_nil_iff.mp (chain.head_eq_zero_iff.mp rfl)
    rw [none] at enough
    exact absurd enough (by decide)
  exact (initFreelist_conserved map fresh uncalled ready).initSlabFrom slabSizes 0 slabSizes_fit
    (by simpa using enough)

/-! ### Runs -/

/-- The machines that a run of the page allocator reaches when every page is asked
for while the free list is not empty.  Between the calls, whatever is not a free
page of the map may be written. -/
inductive PmmReachable (map : MemoryMap) : Machine → Prop
  | init {m m' : Machine} (fresh : m.freelist = none) (uncalled : m.pmmCalls = [])
      (enough : slabSizes.length ≤ map.frames.length)
      (done : pmmInit map.hhdm map.entries m = .ok m') : PmmReachable map m'
  | allocate {m m' : Machine} {page : Nat} (reached : PmmReachable map m)
      (nonempty : m.freelist ≠ some 0)
      (done : allocatePage map.hhdm m = .ok (page, m')) : PmmReachable map m'
  | deallocate {m m' : Machine} {frame : Nat} (reached : PmmReachable map m)
      (live : frame ∈ liveFrames map.hhdm m.pmmCalls)
      (done : deallocatePage map.hhdm (frame + map.hhdm) m = .ok m') : PmmReachable map m'
  | use {m : Machine} (memory : Nat → Nat) (reached : PmmReachable map m)
      (kept : ∀ frame ∈ map.frames, frame ∉ liveFrames map.hhdm m.pmmCalls →
        ∀ address, InPage (frame + map.hhdm) address → memory address = m.memory address) :
      PmmReachable map { m with memory := memory }

theorem PmmReachable.conserved (reached : PmmReachable map m) :
    ∃ frames, Conserved map m frames := by
  induction reached with
  | init fresh uncalled enough done =>
      obtain ⟨m', initEq, conserved⟩ := pmmInit_conserved map fresh uncalled enough
      rw [initEq] at done
      rw [← Except.ok.inj done]
      exact ⟨_, conserved⟩
  | allocate reached nonempty done inductionHypothesis =>
      obtain ⟨frames, conserved⟩ := inductionHypothesis
      cases frames with
      | nil => exact absurd (conserved.freelist_eq_zero_iff.mpr rfl) nonempty
      | cons frame frames =>
          obtain ⟨m', allocated, rest, _⟩ := conserved.allocatePage
          rw [allocated] at done
          rw [← (Prod.mk.inj (Except.ok.inj done)).2]
          exact ⟨frames, rest⟩
  | deallocate reached live done inductionHypothesis =>
      obtain ⟨frames, conserved⟩ := inductionHypothesis
      obtain ⟨m', released, more⟩ := conserved.deallocatePage live
      rw [released] at done
      rw [← Except.ok.inj done]
      exact ⟨_, more⟩
  | use memory reached kept inductionHypothesis =>
      obtain ⟨frames, conserved⟩ := inductionHypothesis
      obtain ⟨head, freelist, chain⟩ := conserved.chain
      refine ⟨frames, ⟨head, freelist, chain.congr ?_⟩, conserved.parts⟩
      intro frame member
      exact kept frame ((conserved.mem_frames_iff frame).mp (Or.inl member))
        (conserved.not_live member) _ (inPage_start _)

/-- In every run the free chain is finite, has no duplicates and, with the
allocated frames, partitions the usable frames other than frame zero.  A page
asked for while the chain is not empty is handed out, and is all zero. -/
theorem pmm_conserves_frames (map : MemoryMap) (m : Machine) (reached : PmmReachable map m) :
    ∃ frames head, m.freelist = some head ∧
      Path (fun frame => m.memory (frame + map.hhdm)) head frames 0 ∧
      frames.Nodup ∧ (liveFrames map.hhdm m.pmmCalls).Nodup ∧
      (∀ frame, frame ∈ frames ∨ frame ∈ liveFrames map.hhdm m.pmmCalls ↔
        frame ∈ map.frames) ∧
      (∀ frame ∈ frames, frame ∉ liveFrames map.hhdm m.pmmCalls) ∧
      (m.freelist ≠ some 0 → ∃ frame ∈ frames, ∃ m',
        allocatePage map.hhdm m = .ok (frame + map.hhdm, m') ∧
        ∀ address, InPage (frame + map.hhdm) address → m'.memory address = 0) := by
  obtain ⟨frames, conserved⟩ := reached.conserved
  obtain ⟨head, freelist, chain⟩ := conserved.chain
  have parts := List.nodup_append.mp conserved.nodup
  refine ⟨frames, head, freelist, chain.linked, chain.distinct, parts.2.1,
    conserved.mem_frames_iff, fun _ => conserved.not_live, ?_⟩
  intro nonempty
  cases frames with
  | nil => exact absurd (conserved.freelist_eq_zero_iff.mpr rfl) nonempty
  | cons frame frames =>
      obtain ⟨m', allocated, _, _, zeroed⟩ := conserved.allocatePage
      exact ⟨frame, List.mem_cons_self, m', allocated, zeroed⟩

/-! ### One small map -/

/-- The statics before `pmm::init`. -/
def bareMachine (memory : Nat → Nat) : Machine where
  memory := memory
  freelist := none
  slabCaches := List.replicate 7 { size := 0, slabs := 0 }
  kermap := none
  cr3 := 0
  pmmCalls := []

/-- A map with one usable entry of `count` frames, from frame 4096 on. -/
def lowMap (count : Nat) : MemoryMap where
  hhdm := 0xFFFF800000000000
  entries := [{ base := 4096, length := count * pageSize, type := .usable }]
  aligned := by
    intro entry member _usable
    rw [List.mem_singleton.mp member]
    exact ⟨Nat.mod_self pageSize, Nat.mul_mod_left _ _⟩
  disjoint := List.pairwise_singleton _ _

theorem pmm_conserves_frames_low_map :
    ∃ m, PmmReachable (lowMap 9) m ∧ ∃ frames head, m.freelist = some head ∧
      Path (fun frame => m.memory (frame + (lowMap 9).hhdm)) head frames 0 ∧
      frames.Nodup ∧ (liveFrames (lowMap 9).hhdm m.pmmCalls).Nodup ∧
      (∀ frame, frame ∈ frames ∨ frame ∈ liveFrames (lowMap 9).hhdm m.pmmCalls ↔
        frame ∈ (lowMap 9).frames) ∧
      (∀ frame ∈ frames, frame ∉ liveFrames (lowMap 9).hhdm m.pmmCalls) ∧
      (m.freelist ≠ some 0 → ∃ frame ∈ frames, ∃ m',
        allocatePage (lowMap 9).hhdm m = .ok (frame + (lowMap 9).hhdm, m') ∧
        ∀ address, InPage (frame + (lowMap 9).hhdm) address → m'.memory address = 0) := by
  obtain ⟨m, initEq, _⟩ := pmmInit_conserved (lowMap 9) (m := bareMachine fun _ => 0) rfl rfl
    (by decide)
  have reached : PmmReachable (lowMap 9) m :=
    PmmReachable.init (m := bareMachine fun _ => 0) rfl rfl (by decide) initEq
  exact ⟨m, reached, pmm_conserves_frames (lowMap 9) m reached⟩

/-! ### Exhaustion -/

/-- A usable frame is left that is not allocated. -/
def FrameLeft (map : MemoryMap) (m : Machine) : Prop :=
  ∃ frame ∈ map.frames, frame ∉ liveFrames map.hhdm m.pmmCalls

theorem Conserved.frameLeft_iff {frames : List Nat} (conserved : Conserved map m frames) :
    FrameLeft map m ↔ frames ≠ [] := by
  constructor
  · rintro ⟨frame, usable, notLive⟩ empty
    rcases (conserved.mem_frames_iff frame).mpr usable with free | live
    · rw [empty] at free
      exact absurd free List.not_mem_nil
    · exact notLive live
  · intro nonempty
    obtain ⟨frame, free⟩ := List.exists_mem_of_ne_nil frames nonempty
    exact ⟨frame, (conserved.mem_frames_iff frame).mp (Or.inl free), conserved.not_live free⟩

/-- With no frame left, `allocate_page` returns frame zero. -/
theorem Conserved.allocatePage_exhausted (conserved : Conserved map m []) :
    ∃ m', Memory.allocatePage map.hhdm m = .ok (0 + map.hhdm, m') :=
  ⟨_, allocatePage_eq (conserved.freelist_eq_zero_iff.mpr rfl)⟩

/-- After every run in which pages were asked for while a frame was left, the next
`allocate_page` panics or returns a usable frame that is not allocated exactly
when a frame is left.  Where none is left it returns frame zero. -/
theorem pmm_exhaustion_detected_iff (map : MemoryMap) (m : Machine)
    (reached : PmmReachable map m) :
    ((∀ page m', allocatePage map.hhdm m = .ok (page, m') →
        ∃ frame ∈ map.frames, frame ∉ liveFrames map.hhdm m.pmmCalls ∧
          page = frame + map.hhdm) ↔ FrameLeft map m) ∧
      (¬FrameLeft map m → ∃ m', allocatePage map.hhdm m = .ok (0 + map.hhdm, m')) := by
  obtain ⟨frames, conserved⟩ := reached.conserved
  rw [conserved.frameLeft_iff]
  cases frames with
  | nil =>
      obtain ⟨m', returned⟩ := conserved.allocatePage_exhausted
      refine ⟨iff_of_false ?_ (fun nonempty => nonempty rfl), fun _ => ⟨m', returned⟩⟩
      intro detected
      obtain ⟨frame, usable, _, page⟩ := detected _ _ returned
      obtain rfl : 0 = frame := Nat.add_right_cancel page
      exact map.frames_ne_zero usable
  | cons frame frames =>
      have left : frame :: frames ≠ [] := List.cons_ne_nil frame frames
      refine ⟨iff_of_true ?_ left, fun none => absurd left none⟩
      intro page m' done
      obtain ⟨m'', allocated, _⟩ := conserved.allocatePage
      rw [allocated] at done
      refine ⟨frame, (conserved.mem_frames_iff frame).mp (Or.inl List.mem_cons_self),
        conserved.not_live List.mem_cons_self, ?_⟩
      exact (Prod.mk.inj (Except.ok.inj done)).1.symm

theorem pmm_exhaustion_detected_low_map :
    ∃ m, PmmReachable (lowMap 9) m ∧ FrameLeft (lowMap 9) m ∧
      ∀ page m', allocatePage (lowMap 9).hhdm m = .ok (page, m') →
        ∃ frame ∈ (lowMap 9).frames, frame ∉ liveFrames (lowMap 9).hhdm m.pmmCalls ∧
          page = frame + (lowMap 9).hhdm := by
  obtain ⟨m, initEq, conserved⟩ := pmmInit_conserved (lowMap 9) (m := bareMachine fun _ => 0)
    rfl rfl (by decide)
  have reached : PmmReachable (lowMap 9) m :=
    PmmReachable.init (m := bareMachine fun _ => 0) rfl rfl (by decide) initEq
  have left : FrameLeft (lowMap 9) m := conserved.frameLeft_iff.mpr (by decide)
  exact ⟨m, reached, left, (pmm_exhaustion_detected_iff (lowMap 9) m reached).1.mpr left⟩

/-- With seven usable frames, initialisation itself takes the last one, and the
next `allocate_page` returns frame zero, which is not usable. -/
theorem pmm_exhaustion_returns_frame_zero :
    ∃ m, PmmReachable (lowMap 7) m ∧ ¬FrameLeft (lowMap 7) m ∧
      (∃ m', allocatePage (lowMap 7).hhdm m = .ok (0 + (lowMap 7).hhdm, m')) ∧
      0 ∉ (lowMap 7).frames := by
  obtain ⟨m, initEq, conserved⟩ := pmmInit_conserved (lowMap 7) (m := bareMachine fun _ => 0)
    rfl rfl (by decide)
  have none : (lowMap 7).frames.reverse.drop slabSizes.length = [] := by decide
  rw [none] at conserved
  refine ⟨m, PmmReachable.init (m := bareMachine fun _ => 0) rfl rfl (by decide) initEq, ?_,
    conserved.allocatePage_exhausted, (lowMap 7).frames_ne_zero⟩
  rw [conserved.frameLeft_iff]
  exact fun nonempty => nonempty rfl

end NyauxKernel.Memory
