/-
The chain of free frames, and what the page allocator does to it.

`Writes` says that a machine differs from another one in memory only, and there
only inside a given set of addresses.
-/

import NyauxKernel.Memory.Pmm
import NyauxKernel.Library.Path
import Mathlib.Data.List.Nodup

namespace NyauxKernel.Memory

open LinkPath

/-! ### Pages and writes -/

/-- The addresses of the page that starts at `page`. -/
def InPage (page address : Nat) : Prop := page ≤ address ∧ address < page + pageSize

variable {address hhdm other : Nat} {m m' : Machine}

variable {count frame page ptr : Nat} {inside : Nat → Prop}

theorem inPage_unique (offset : Nat) (aligned : frame % pageSize = 0)
    (alignedOther : other % pageSize = 0) (inside : InPage (frame + offset) address)
    (insideOther : InPage (other + offset) address) : frame = other := by
  unfold InPage pageSize at *
  omega

theorem inPage_start (page : Nat) : InPage page page := by
  unfold InPage pageSize
  omega

theorem write_same (m : Machine) (address value : Nat) :
    (m.write address value).memory address = value :=
  Function.update_self _ _ _

theorem write_other (m : Machine) (value : Nat) (different : other ≠ address) :
    (m.write address value).memory other = m.memory other :=
  Function.update_of_ne different _ _

theorem writeBytes_inside (m : Machine) (low : address ≤ other) (high : other < address + count) :
    (m.writeBytes address count).memory other = 0 :=
  WordMemory.zero_inside low high

theorem writeBytes_outside (m : Machine) (outside : ¬(address ≤ other ∧ other < address + count)) :
    (m.writeBytes address count).memory other = m.memory other :=
  WordMemory.zero_outside outside

structure Writes (inside : Nat → Prop) (m m' : Machine) : Prop where
  elsewhere : ∀ address, ¬inside address → m'.memory address = m.memory address
  rest : m' = { m with memory := m'.memory }

namespace Writes

variable {inside' : Nat → Prop} {m'' : Machine}

theorem refl (m : Machine) : Writes inside m m :=
  { elsewhere := fun _ _ => rfl, rest := rfl }

theorem trans (first : Writes inside m m') (second : Writes inside m' m'') :
    Writes inside m m'' where
  elsewhere := by
    intro address outside
    rw [second.elsewhere address outside, first.elsewhere address outside]
  rest := by
    rw [second.rest, first.rest]

theorem mono (writes : Writes inside m m') (wider : ∀ address, inside address → inside' address) :
    Writes inside' m m' where
  elsewhere := fun address outside => writes.elsewhere address fun member =>
    outside (wider address member)
  rest := writes.rest

theorem write (m : Machine) {address value : Nat} (member : inside address) :
    Writes inside m (m.write address value) where
  elsewhere := by
    intro other outside
    apply Function.update_of_ne
    rintro rfl
    exact outside member
  rest := rfl

theorem writeBytes (m : Machine) {address count : Nat}
    (covered : ∀ other, address ≤ other → other < address + count → inside other) :
    Writes inside m (m.writeBytes address count) where
  elsewhere := by
    intro other outside
    apply WordMemory.zero_outside
    rintro ⟨low, high⟩
    exact outside (covered other low high)
  rest := rfl

theorem andWrite (writes : Writes inside m m') {address : Nat} (value : Nat)
    (member : inside address) : Writes inside m (m'.write address value) :=
  writes.trans (Writes.write m' member)

theorem andWriteBytes (writes : Writes inside m m') {address count : Nat}
    (covered : ∀ other, address ≤ other → other < address + count → inside other) :
    Writes inside m (m'.writeBytes address count) :=
  writes.trans (Writes.writeBytes m' covered)

theorem freelist (writes : Writes inside m m') : m'.freelist = m.freelist := by
  rw [writes.rest]

theorem slabCaches (writes : Writes inside m m') : m'.slabCaches = m.slabCaches := by
  rw [writes.rest]

theorem kermap (writes : Writes inside m m') : m'.kermap = m.kermap := by
  rw [writes.rest]

theorem cr3 (writes : Writes inside m m') : m'.cr3 = m.cr3 := by
  rw [writes.rest]

theorem pmmCalls (writes : Writes inside m m') : m'.pmmCalls = m.pmmCalls := by
  rw [writes.rest]

end Writes

/-! ### The free chain -/

/-- The chain of free frames from `head`: physical addresses, linked through the
first word of each page. -/
structure FreeChain (hhdm : Nat) (memory : Nat → Nat) (head : Nat) (frames : List Nat) :
    Prop where
  linked : Path (fun frame => memory (frame + hhdm)) head frames 0
  distinct : frames.Nodup
  aligned : ∀ frame ∈ frames, frame % pageSize = 0
  nonzero : 0 ∉ frames

/-- The free list has the same head, and every frame on it the same link. -/
structure SameFree (hhdm : Nat) (m m' : Machine) : Prop where
  head : m'.freelist = m.freelist
  chain : ∀ head frames, m.freelist = some head → FreeChain hhdm m.memory head frames →
    FreeChain hhdm m'.memory head frames

theorem SameFree.refl (hhdm : Nat) (m : Machine) : SameFree hhdm m m where
  head := rfl
  chain := fun _ _ _ chain => chain

namespace FreeChain

variable {head : Nat} {memory memory' : Nat → Nat} {frames : List Nat}

theorem empty : FreeChain hhdm memory 0 [] where
  linked := rfl
  distinct := List.nodup_nil
  aligned := fun _ member => absurd member List.not_mem_nil
  nonzero := List.not_mem_nil

/-- Only the first word of the free pages matters. -/
theorem congr (chain : FreeChain hhdm memory head frames)
    (same : ∀ frame ∈ frames, memory' (frame + hhdm) = memory (frame + hhdm)) :
    FreeChain hhdm memory' head frames where
  linked := chain.linked.congr same
  distinct := chain.distinct
  aligned := chain.aligned
  nonzero := chain.nonzero

theorem tail (chain : FreeChain hhdm memory head (frame :: frames)) :
    FreeChain hhdm memory (memory (frame + hhdm)) frames where
  linked := chain.linked.2
  distinct := (List.nodup_cons.mp chain.distinct).2
  aligned := fun other member => chain.aligned other (List.mem_cons_of_mem frame member)
  nonzero := fun member => chain.nonzero (List.mem_cons_of_mem frame member)

theorem head_eq_zero_iff (chain : FreeChain hhdm memory head frames) :
    head = 0 ↔ frames = [] := by
  cases frames with
  | nil => exact iff_of_true chain.linked rfl
  | cons frame rest =>
      apply iff_of_false
      · intro zero
        have first : head = frame := chain.linked.1
        exact chain.nonzero (by rw [← zero, first]; exact List.mem_cons_self)
      · exact List.cons_ne_nil frame rest

theorem unique {frames' : List Nat} (chain : FreeChain hhdm memory head frames)
    (other : FreeChain hhdm memory head frames') : frames = frames' := by
  induction frames generalizing head frames' with
  | nil => exact (other.head_eq_zero_iff.mp chain.linked).symm
  | cons frame frames inductionHypothesis =>
      cases frames' with
      | nil => exact absurd (chain.head_eq_zero_iff.mp other.linked) (List.cons_ne_nil _ _)
      | cons frame' frames' =>
          have first : head = frame := chain.linked.1
          have first' : head = frame' := other.linked.1
          subst first first'
          rw [inductionHypothesis chain.tail other.tail]

/-- Another aligned page contains no link of the chain. -/
theorem outside_page (chain : FreeChain hhdm memory head frames) {page : Nat}
    (aligned : page % pageSize = 0) (absent : page ∉ frames) :
    ∀ frame ∈ frames, ¬InPage (page + hhdm) (frame + hhdm) := by
  intro frame member inside
  have same : frame = page := inPage_unique hhdm (chain.aligned frame member) aligned
    (inPage_start (frame + hhdm)) inside
  exact absent (same ▸ member)

theorem pop (chain : FreeChain hhdm memory head (frame :: frames)) :
    head = frame ∧ FreeChain hhdm (WordMemory.zero memory (frame + hhdm) pageSize)
      (memory (frame + hhdm)) frames := by
  have apart := List.nodup_cons.mp chain.distinct
  refine ⟨chain.linked.1, chain.tail.congr ?_⟩
  intro other member
  exact WordMemory.zero_outside
    (chain.tail.outside_page (chain.aligned frame List.mem_cons_self) apart.1 other member)

/-- Linking a page in front. -/
theorem push (chain : FreeChain hhdm memory head frames) (absent : frame ∉ frames)
    (aligned : frame % pageSize = 0) (real : frame ≠ 0)
    (link : memory' (frame + hhdm) = head)
    (same : ∀ other ∈ frames, memory' (other + hhdm) = memory (other + hhdm)) :
    FreeChain hhdm memory' frame (frame :: frames) where
  linked := by
    refine ⟨rfl, ?_⟩
    change Path _ (memory' (frame + hhdm)) frames 0
    rw [link]
    exact chain.linked.congr same
  distinct := List.nodup_cons.mpr ⟨absent, chain.distinct⟩
  aligned := by
    intro other member
    rcases List.mem_cons.mp member with rfl | older
    · exact aligned
    · exact chain.aligned other older
  nonzero := by
    intro member
    rcases List.mem_cons.mp member with first | older
    · exact real first.symm
    · exact chain.nonzero older

end FreeChain

/-! ### The calls -/

theorem allocatePage_eq {phy : Nat} (head : m.freelist = some phy) :
    allocatePage hhdm m = .ok (phy + hhdm,
      { m with
        memory := WordMemory.zero m.memory (phy + hhdm) pageSize
        freelist := some (m.memory (phy + hhdm))
        pmmCalls := m.pmmCalls ++ [.allocated phy] }) := by
  simp only [allocatePage, head, Machine.writeBytes]

theorem deallocatePage_eq {o : Nat} (head : m.freelist = some o) :
    deallocatePage hhdm ptr m = .ok
      { m with
        memory := Function.update (WordMemory.zero m.memory ptr pageSize) ptr o
        freelist := some (ptr - hhdm)
        pmmCalls := m.pmmCalls ++ [.released ptr] } := by
  simp only [deallocatePage, head, Machine.writeBytes, Machine.write]

/-- What a successful `allocate_page` did. -/
theorem allocatePage_ok (done : allocatePage hhdm m = .ok (page, m')) :
    ∃ phy, m.freelist = some phy ∧ page = phy + hhdm ∧
      m' = { m with
        memory := WordMemory.zero m.memory (phy + hhdm) pageSize
        freelist := some (m.memory (phy + hhdm))
        pmmCalls := m.pmmCalls ++ [.allocated phy] } := by
  cases head : m.freelist with
  | none => simp [allocatePage, head] at done
  | some phy =>
      rw [allocatePage_eq head] at done
      obtain ⟨samePage, sameMachine⟩ := Prod.mk.inj (Except.ok.inj done)
      exact ⟨phy, rfl, samePage.symm, sameMachine.symm⟩

/-! ### The record of calls -/

/-- The record of calls has only grown. -/
def Grows (m m' : Machine) : Prop := m.pmmCalls <+: m'.pmmCalls

theorem Grows.refl (m : Machine) : Grows m m := List.prefix_rfl

theorem Grows.trans {m'' : Machine} (first : Grows m m') (second : Grows m' m'') : Grows m m'' :=
  List.IsPrefix.trans first second

theorem Grows.of_eq (same : m'.pmmCalls = m.pmmCalls) : Grows m m' :=
  ⟨[], (List.append_nil _).trans same.symm⟩

theorem Writes.grows (writes : Writes inside m m') : Grows m m' :=
  Grows.of_eq writes.pmmCalls

/-- The calls in between only allocated. -/
def Allocates (m m' : Machine) : Prop :=
  ∃ taken : List Nat, m'.pmmCalls = m.pmmCalls ++ taken.map .allocated

namespace Allocates

variable {m'' : Machine}

theorem of_eq (same : m'.pmmCalls = m.pmmCalls) : Allocates m m' :=
  ⟨[], by rw [same, List.map_nil, List.append_nil]⟩

theorem refl (m : Machine) : Allocates m m := of_eq rfl

theorem trans (first : Allocates m m') (second : Allocates m' m'') : Allocates m m'' := by
  obtain ⟨taken, calls⟩ := first
  obtain ⟨more, moreCalls⟩ := second
  exact ⟨taken ++ more, by rw [moreCalls, calls, List.map_append, List.append_assoc]⟩

theorem grows (allocates : Allocates m m') : Grows m m' := by
  obtain ⟨taken, calls⟩ := allocates
  rw [Grows, calls]
  exact List.prefix_append _ _

theorem released (allocates : Allocates m m') {pointer : Nat}
    (member : .released pointer ∈ m'.pmmCalls) : .released pointer ∈ m.pmmCalls := by
  obtain ⟨taken, calls⟩ := allocates
  rw [calls] at member
  rcases List.mem_append.mp member with old | new
  · exact old
  · obtain ⟨frame, _, same⟩ := List.mem_map.mp new
    contradiction

end Allocates

theorem Writes.allocates (writes : Writes inside m m') : Allocates m m' :=
  Allocates.of_eq writes.pmmCalls

theorem allocatePage_allocates (done : allocatePage hhdm m = .ok (page, m')) : Allocates m m' := by
  obtain ⟨phy, _, _, rfl⟩ := allocatePage_ok done
  exact ⟨[phy], rfl⟩

theorem deallocatePage_grows (done : deallocatePage hhdm ptr m = .ok m') : Grows m m' := by
  cases head : m.freelist with
  | none => simp [deallocatePage, head] at done
  | some o =>
      rw [deallocatePage_eq head] at done
      rw [← Except.ok.inj done]
      exact List.prefix_append _ _

def PmmCall.taken : PmmCall → Option Nat
  | .allocated frame => some frame
  | .released _ => none

/-- The frames that `allocate_page` returned between two states of a run. -/
def takenFrames (m m' : Machine) : List Nat :=
  (m'.pmmCalls.drop m.pmmCalls.length).filterMap PmmCall.taken

theorem mem_calls_of_mem_takenFrames (member : frame ∈ takenFrames m m') :
    .allocated frame ∈ m'.pmmCalls := by
  obtain ⟨call, inCalls, same⟩ := List.mem_filterMap.mp member
  cases call with
  | allocated other =>
      obtain rfl : other = frame := Option.some.inj same
      exact List.mem_of_mem_drop inCalls
  | released pointer => contradiction

theorem takenFrames_allocated {frames : List Nat} {more : List PmmCall}
    (calls : m'.pmmCalls = m.pmmCalls ++ frames.map .allocated ++ more) :
    takenFrames m m' = frames ++ more.filterMap PmmCall.taken := by
  have each : (frames.map PmmCall.allocated).filterMap PmmCall.taken = frames := by
    rw [List.filterMap_map]
    exact List.filterMap_some
  rw [takenFrames, calls, List.append_assoc, List.drop_left, List.filterMap_append, each]

end NyauxKernel.Memory
