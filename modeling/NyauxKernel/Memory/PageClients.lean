/-
Pages of the page allocator in the hands of those who asked for them: a page keeps its words
while others take, fill and give back theirs.
-/

import NyauxKernel.Library.WordBuffers
import NyauxKernel.Memory.Conservation

namespace NyauxKernel.Memory

open WordBuffers

/-- At least `count` frames are free. -/
def FramesLeft (hhdm : Nat) (m : Machine) (count : Nat) : Prop :=
  ∃ head frames, m.freelist = some head ∧ FreeChain hhdm m.memory head frames ∧
    count ≤ frames.length

/-- All frames can be reached through the direct map. -/
def MemoryMap.Addressed (map : MemoryMap) : Prop :=
  ∀ frame ∈ map.frames, frame + map.hhdm < addressSpace

/-- The page of a frame has the same words as before. -/
def PageKept (hhdm : Nat) (m m' : Machine) (frame : Nat) : Prop :=
  ∀ address, InPage (frame + hhdm) address → m'.memory address = m.memory address

/-- A page that holds a list of words and is zero behind them. -/
def PageHolds (memory : Nat → Nat) (page : Nat) (words : List Nat) : Prop :=
  ∀ i, i < pageSize / 8 → memory (page + 8 * i) = words.getD i 0

variable {frame hhdm page : Nat} {words : List Nat} {memory : Nat → Nat}

theorem inPage_word {i : Nat} (small : i < pageSize / 8) : InPage page (page + 8 * i) := by
  unfold InPage pageSize at *
  omega

theorem PageKept.trans {m m' m'' : Machine} (first : PageKept hhdm m m' frame)
    (second : PageKept hhdm m' m'' frame) : PageKept hhdm m m'' frame :=
  fun address inside => (second address inside).trans (first address inside)

theorem PageKept.holds {m m' : Machine} (kept : PageKept hhdm m m' frame)
    (holds : PageHolds m.memory (frame + hhdm) words) : PageHolds m'.memory (frame + hhdm) words :=
  fun i small => (kept _ (inPage_word small)).trans (holds i small)

theorem PageHolds.load (holds : PageHolds memory page words) (short : words.length ≤ pageSize / 8) :
    load memory page words.length = words :=
  load_eq fun i inside => holds i (Nat.lt_of_lt_of_le inside short)

/-- Words that are stored in an empty page. -/
theorem PageHolds.store (words : List Nat) (empty : PageHolds memory page []) :
    PageHolds (store memory page words) page words := by
  intro i small
  rw [store_word, empty i small]
  rfl

theorem pages_apart {map : MemoryMap} {other address : Nat} (member : frame ∈ map.frames)
    (otherMember : other ∈ map.frames) (different : frame ≠ other)
    (inside : InPage (frame + map.hhdm) address) : ¬InPage (other + map.hhdm) address :=
  fun insideOther => different (inPage_unique map.hhdm (map.frames_aligned frame member)
    (map.frames_aligned other otherMember) inside insideOther)

namespace Conserved

variable {map : MemoryMap} {m m' : Machine} {frames : List Nat}

theorem usable (conserved : Conserved map m frames)
    (live : frame ∈ liveFrames map.hhdm m.pmmCalls) : frame ∈ map.frames :=
  (conserved.mem_frames_iff frame).mp (Or.inr live)

theorem usable_free (conserved : Conserved map m frames) (free : frame ∈ frames) :
    frame ∈ map.frames :=
  (conserved.mem_frames_iff frame).mp (Or.inl free)

/-- The frames that are counted are the free ones. -/
theorem framesLeft (conserved : Conserved map m frames) {count : Nat}
    (left : FramesLeft map.hhdm m count) : count ≤ frames.length := by
  obtain ⟨head, others, freelist, chain, enough⟩ := left
  obtain ⟨head', freelist', chain'⟩ := conserved.chain
  obtain rfl : head = head' := Option.some.inj (freelist.symm.trans freelist')
  rwa [chain.unique chain'] at enough

/-- Allocated pages may be written. -/
theorem writesLive (conserved : Conserved map m frames) {inside : Nat → Prop}
    (written : Writes inside m m')
    (owned : ∀ address, inside address → ∃ frame ∈ liveFrames map.hhdm m.pmmCalls,
      InPage (frame + map.hhdm) address) : Conserved map m' frames := by
  apply conserved.writes written
  intro free isFree isInside
  obtain ⟨frame, live, inPage⟩ := owned _ isInside
  refine pages_apart (conserved.usable live) (conserved.usable_free isFree) ?_ inPage
    (inPage_start _)
  exact fun same => conserved.not_live isFree (same ▸ live)

/-- One page is filled. -/
theorem fill (conserved : Conserved map m frames)
    (live : frame ∈ liveFrames map.hhdm m.pmmCalls) {words : List Nat}
    (short : words.length ≤ pageSize / 8) :
    Conserved map { m with memory := store m.memory (frame + map.hhdm) words } frames ∧
      ∀ other ∈ liveFrames map.hhdm m.pmmCalls, other ≠ frame →
        PageKept map.hhdm m { m with memory := store m.memory (frame + map.hhdm) words } other := by
  have outside : ∀ address, ¬InPage (frame + map.hhdm) address →
      store m.memory (frame + map.hhdm) words address = m.memory address := by
    intro address outside
    apply store_outside
    unfold InPage pageSize at *
    omega
  constructor
  · apply conserved.writesLive ⟨outside, rfl⟩
    exact fun address inside => ⟨frame, live, inside⟩
  · intro other isLive different address inside
    exact outside address (pages_apart (conserved.usable isLive) (conserved.usable live)
      different inside)

/-- One page is taken. -/
theorem take (conserved : Conserved map m (frame :: frames)) :
    ∃ m', Memory.allocatePage map.hhdm m = .ok (frame + map.hhdm, m') ∧ Conserved map m' frames ∧
      liveFrames map.hhdm m'.pmmCalls = frame :: liveFrames map.hhdm m.pmmCalls ∧
      PageHolds m'.memory (frame + map.hhdm) [] ∧
      ∀ other ∈ liveFrames map.hhdm m.pmmCalls, PageKept map.hhdm m m' other := by
  obtain ⟨m', done, after, calls, empty⟩ := conserved.allocatePage
  refine ⟨m', done, after, by rw [calls, liveFrames_allocated], ?_, ?_⟩
  · exact fun i small => empty _ (inPage_word small)
  · intro other live address inside
    have outside := pages_apart (conserved.usable live) (conserved.usable_free List.mem_cons_self)
      (fun same => conserved.not_live List.mem_cons_self (same ▸ live)) inside
    obtain ⟨phy, _, page, rfl⟩ := allocatePage_ok done
    rw [page] at outside
    exact WordMemory.zero_outside outside

/-- One page is given back. -/
theorem give (conserved : Conserved map m frames) {rest : List Nat}
    (owned : (liveFrames map.hhdm m.pmmCalls).Perm (frame :: rest)) :
    ∃ m', Memory.deallocatePage map.hhdm (frame + map.hhdm) m = .ok m' ∧
      Conserved map m' (frame :: frames) ∧ (liveFrames map.hhdm m'.pmmCalls).Perm rest ∧
      ∀ other ∈ rest, PageKept map.hhdm m m' other := by
  have live := owned.mem_iff.mpr List.mem_cons_self
  obtain ⟨m', done, more⟩ := conserved.deallocatePage live
  obtain ⟨head, freelist, _⟩ := conserved.chain
  refine ⟨m', done, more, ?_⟩
  rw [deallocatePage_eq freelist] at done
  obtain rfl := Except.ok.inj done
  constructor
  · rw [liveFrames_released, Nat.add_sub_cancel]
    have erased := owned.erase frame
    rwa [List.erase_cons_head] at erased
  · intro other inRest address inside
    have distinct := owned.nodup_iff.mp (List.nodup_append.mp conserved.nodup).2.1
    have outside : ¬InPage (frame + map.hhdm) address :=
      pages_apart (conserved.usable (owned.mem_iff.mpr (List.mem_cons_of_mem _ inRest)))
        (conserved.usable live) (fun same => (List.nodup_cons.mp distinct).1 (same ▸ inRest)) inside
    have different : address ≠ frame + map.hhdm := fun same => outside (same ▸ inPage_start _)
    exact (Function.update_of_ne different _ _).trans (WordMemory.zero_outside outside)

end Conserved

end NyauxKernel.Memory
