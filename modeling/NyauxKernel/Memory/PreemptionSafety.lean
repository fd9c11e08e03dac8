/-
Whole runs of threads that share the heap.

As long as no other thread changes the header of a slab while one of its objects is
being given back, an object in the middle of `slab_dealloc` stays out of every chain
and the last access does what `slab_dealloc` does in one go.  Without that, a stale
header puts an object back on the chain that another thread holds.
-/

import Mathlib.Logic.Relation
import NyauxKernel.Memory.Preemption

namespace NyauxKernel.Memory

open LinkPath

theorem NAlloc.slabAlloc_of_alloc {hhdm size ptr : Nat} {m m' : Machine} (small : size ≤ 1024)
    (done : NAlloc.alloc hhdm size m = .ok (ptr, m')) :
    slabAlloc hhdm size m = .ok (some ptr, m') := by
  rw [NAlloc.alloc, if_pos small] at done
  obtain ⟨⟨object, after⟩, allotted, rest⟩ := ExceptFold.ok_of_bind done
  cases object with
  | none => contradiction
  | some object =>
      obtain ⟨rfl, rfl⟩ := Prod.mk.inj (Except.ok.inj rest)
      exact allotted

/-- What is written inside an object in use does not matter to the allocators. -/
theorem Pool.writeObject {ram : Ram} {v : View} {m m' : Machine} (pool : Pool ram v m)
    (freelist : m'.freelist = m.freelist) (caches : m'.slabCaches = m.slabCaches)
    (own : ∀ address, m'.memory address ≠ m.memory address →
      ∃ size object, LiveObject v.slabs size object ∧ InObject object size address) :
    Pool ram v m' := by
  apply pool.congr freelist caches
  · intro address isFree
    by_contra changed
    obtain ⟨size, object, live, inside⟩ := own address changed
    have clash := (pool.live_owned live inside).unique isFree
    contradiction
  · intro address isPrivate
    by_contra changed
    obtain ⟨size, object, live, inside⟩ := own address changed
    exact pool.slab.live_not_private live inside isPrivate

namespace Threads

variable {T : Type}

/-! ### The invariant -/

/-- The objects that calls are giving back and those that threads own. -/
def pointers (s : Threads T) : List Nat :=
  (s.calls.map fun call => call.block.ptr) ++ s.owned.map Block.ptr

structure Inv (ram : Ram) (v : View) (s : Threads T) : Prop where
  pool : Pool ram v s.m
  live : LiveIn v.slabs s.pointers
  sizes : ∀ block ∈ s.owned, ∃ size, block.size ≤ size ∧ LiveObject v.slabs size block.ptr
  threads : (s.calls.map fun call => call.block.thread).Nodup
  progress : ∀ call ∈ s.calls, ∃ size, LiveObject v.slabs size call.block.ptr ∧
    Progress size call.block.ptr s.m call.pc

/-- Slab headers that other threads' calls rely on are left alone. -/
def HeaderKept (s s' : Threads T) : Prop :=
  ∀ call ∈ s.calls, call.block.thread ≠ s.current →
    readSlabHeader (alignDown call.block.ptr pageSize) s'.m =
      readSlabHeader (alignDown call.block.ptr pageSize) s.m

namespace Inv

variable {ram : Ram} {v : View} {s : Threads T}

theorem progress_kept (inv : Inv ram v s) {call : DeallocCall T} (member : call ∈ s.calls)
    {m' : Machine} {slabs' : Nat → List Slab}
    (header : readSlabHeader (alignDown call.block.ptr pageSize) m' =
      readSlabHeader (alignDown call.block.ptr pageSize) s.m)
    (kept : ∀ size, LiveObject v.slabs size call.block.ptr →
      LiveObject slabs' size call.block.ptr ∧
        ∀ address, InObject call.block.ptr size address →
          m'.memory address = s.m.memory address) :
    ∃ size, LiveObject slabs' size call.block.ptr ∧
      Progress size call.block.ptr m' call.pc := by
  obtain ⟨size, live, progress⟩ := inv.progress call member
  obtain ⟨live', same⟩ := kept size live
  exact ⟨size, live', progress.congr (slabSizes_pos size live.1) header same⟩

theorem alloc (inv : Inv ram v s) {size ptr : Nat} {m' : Machine} (idle : s.Idle)
    (small : size ≤ 1024) (done : NAlloc.alloc ram.hhdm size s.m = .ok (ptr, m'))
    (kept : s.HeaderKept { s with m := m', owned := ⟨s.current, ptr, size⟩ :: s.owned })
    (supplied : Supplied m') :
    ∃ v', Inv ram v' { s with m := m', owned := ⟨s.current, ptr, size⟩ :: s.owned } := by
  obtain ⟨object, v', same, taken⟩ :=
    inv.pool.slabAlloc_done small (NAlloc.slabAlloc_of_alloc small done) supplied
  obtain rfl := Option.some.inj same
  obtain ⟨slotSize, classEq, served⟩ := taken.served
  obtain ⟨_, _, classEq', enough, _⟩ := slabClass_spec small
  obtain rfl := Option.some.inj (classEq.symm.trans classEq')
  refine ⟨v', taken.pool, (inv.live.served served).perm List.perm_middle.symm, ?_,
    inv.threads, ?_⟩
  · intro block member
    rcases List.mem_cons.mp member with rfl | old
    · exact ⟨slotSize, enough, taken.new classEq⟩
    · obtain ⟨size', fits, live⟩ := inv.sizes block old
      exact ⟨size', fits, taken.live live⟩
  · intro call member
    apply inv.progress_kept member (kept call member (idle call member))
    intro size' live
    exact ⟨taken.live live, fun address inside => taken.quiet_live inv.pool live inside⟩

theorem use (inv : Inv ram v s) {memory : Nat → Nat} (idle : s.Idle)
    (own : ∀ address, memory address ≠ s.m.memory address → ∃ block ∈ s.owned,
      block.thread = s.current ∧ InObject block.ptr block.size address)
    (kept : s.HeaderKept { s with m := { s.m with memory := memory } }) :
    Inv ram v { s with m := { s.m with memory := memory } } := by
  have inObject : ∀ address, memory address ≠ s.m.memory address → ∃ block ∈ s.owned, ∃ size,
      LiveObject v.slabs size block.ptr ∧ InObject block.ptr size address := by
    intro address changed
    obtain ⟨block, member, _, low, high⟩ := own address changed
    obtain ⟨size, fits, live⟩ := inv.sizes block member
    exact ⟨block, member, size, live, low, by omega⟩
  refine ⟨inv.pool.writeObject rfl rfl ?_, inv.live, inv.sizes, inv.threads, ?_⟩
  · intro address changed
    obtain ⟨block, _, size, live, inside⟩ := inObject address changed
    exact ⟨size, block.ptr, live, inside⟩
  · intro call member
    apply inv.progress_kept member (kept call member (idle call member))
    intro size live
    refine ⟨live, ?_⟩
    intro address inside
    by_contra changed
    obtain ⟨block, isOwned, size', live', inside'⟩ := inObject address changed
    obtain ⟨_, samePtr⟩ := inv.pool.slab.live_disjoint live live' inside inside'
    exact (List.nodup_append.mp inv.live.distinct).2.2 _
      (List.mem_map_of_mem member) _ (List.mem_map_of_mem isOwned) samePtr

variable [DecidableEq T]

theorem dealloc (inv : Inv ram v s) {block : Block T} (idle : s.Idle) (member : block ∈ s.owned)
    (mine : block.thread = s.current) :
    Inv ram v { s with
      calls := ⟨block, .readSize⟩ :: s.calls
      owned := s.owned.erase block } := by
  have order : s.pointers.Perm (block.ptr :: ((s.calls.map fun call => call.block.ptr) ++
      (s.owned.erase block).map Block.ptr)) :=
    (((List.perm_cons_erase member).map Block.ptr).append_left _).trans List.perm_middle
  refine ⟨inv.pool, inv.live.perm order, ?_, ?_, ?_⟩
  · exact fun other inRest => inv.sizes other (List.mem_of_mem_erase inRest)
  · refine List.nodup_cons.mpr ⟨?_, inv.threads⟩
    intro present
    obtain ⟨call, inCalls, same⟩ := List.mem_map.mp present
    exact idle call inCalls (same.trans mine)
  · intro call inCalls
    rcases List.mem_cons.mp inCalls with rfl | old
    · obtain ⟨size, _, live⟩ := inv.sizes block member
      exact ⟨size, live, trivial⟩
    · exact inv.progress call old

theorem give (inv : Inv ram v s) {block : Block T} (next : T) (member : block ∈ s.owned) :
    Inv ram v { s with owned := { block with thread := next } :: s.owned.erase block } := by
  have order : (s.owned.map Block.ptr).Perm
      (({ block with thread := next } :: s.owned.erase block).map Block.ptr) :=
    (List.perm_cons_erase member).map Block.ptr
  refine ⟨inv.pool, inv.live.perm (order.append_left _), ?_, inv.threads, inv.progress⟩
  intro other isOwned
  rcases List.mem_cons.mp isOwned with rfl | old
  · exact inv.sizes block member
  · exact inv.sizes other (List.mem_of_mem_erase old)

/-- One access of a call: on its own object, or the end of `slab_dealloc`. -/
theorem access (inv : Inv ram v s) {call : DeallocCall T} (member : call ∈ s.calls)
    (mine : call.block.thread = s.current) (kept : s.HeaderKept (s.access call)) :
    ∃ v', Inv ram v' (s.access call) := by
  obtain ⟨size, live, progress⟩ := inv.progress call member
  have order := List.perm_cons_erase member
  have callPtrs : s.pointers.Perm (call.block.ptr ::
      (((s.calls.erase call).map fun call => call.block.ptr) ++ s.owned.map Block.ptr)) :=
    (order.map fun call => call.block.ptr).append_right _
  have threads := (order.map fun call => call.block.thread).nodup_iff.mp inv.threads
  obtain ⟨alone, restThreads⟩ := List.nodup_cons.mp threads
  have absent := (List.nodup_cons.mp (callPtrs.nodup_iff.mp inv.live.distinct)).1
  -- the other calls have other objects and belong to other threads
  have others : ∀ other ∈ s.calls.erase call, other ∈ s.calls ∧
      other.block.thread ≠ s.current ∧ other.block.ptr ≠ call.block.ptr := by
    intro other inRest
    refine ⟨List.mem_of_mem_erase inRest, ?_, ?_⟩
    · intro same
      exact alone (List.mem_map.mpr ⟨other, inRest, same.trans mine.symm⟩)
    · intro same
      exact absent (List.mem_append_left _ (List.mem_map.mpr ⟨other, inRest, same⟩))
  have apart : ∀ other ∈ s.calls.erase call, ∀ size',
      LiveObject v.slabs size' other.block.ptr → ∀ address,
      InObject other.block.ptr size' address → ¬InObject call.block.ptr size address := by
    intro other inRest size' live' address inside' inside
    exact (others other inRest).2.2 (inv.pool.slab.live_disjoint live' live inside' inside).2
  rcases accessed : slabDeallocAccess call.block.ptr s.m call.pc with ⟨next, m'⟩
  have accessEq : s.access call = { s with
      m := m'
      calls := (next.toList.map fun pc => ⟨call.block, pc⟩) ++ s.calls.erase call } := by
    rw [Threads.access, accessed]
  rw [accessEq] at kept ⊢
  cases next with
  | some pc =>
      obtain ⟨writes, after⟩ := progress.access inv.pool.slab live accessed
      refine ⟨v, ?_, inv.live.perm callPtrs, inv.sizes, threads, ?_⟩
      · apply inv.pool.writeObject writes.freelist writes.slabCaches
        intro address changed
        exact ⟨size, call.block.ptr, live, by_contra fun outside =>
          changed (writes.elsewhere address outside)⟩
      · intro other isCall
        rcases List.mem_cons.mp isCall with rfl | inRest
        · exact ⟨size, live, after⟩
        · obtain ⟨isOld, notMine, _⟩ := others other inRest
          apply inv.progress_kept isOld (kept other isOld notMine)
          intro size' live'
          exact ⟨live', fun address inside =>
            writes.elsewhere address (apart other inRest size' live' address inside)⟩
  | none =>
      obtain rfl := progress.finish inv.pool.slab live accessed
      obtain ⟨slabs', pool, lives, writes⟩ := inv.pool.slabDealloc live
      have stillLive : ∀ size' ptr, ptr ≠ call.block.ptr → LiveObject v.slabs size' ptr →
          LiveObject slabs' size' ptr :=
        fun size' ptr other old => (lives _ _).mpr ⟨old, fun both => other both.2⟩
      refine ⟨{ v with slabs := slabs' }, pool,
        (inv.live.perm callPtrs).returned inv.pool.slab live lives, ?_, restThreads, ?_⟩
      · intro block isOwned
        obtain ⟨size', fits, old⟩ := inv.sizes block isOwned
        refine ⟨size', fits, stillLive size' block.ptr ?_ old⟩
        intro same
        exact absent (List.mem_append_right _ (List.mem_map.mpr ⟨block, isOwned, same⟩))
      · intro other inRest
        obtain ⟨isOld, notMine, differs⟩ := others other inRest
        apply inv.progress_kept isOld (kept other isOld notMine)
        intro size' live'
        refine ⟨stillLive size' _ differs live', ?_⟩
        intro address inside
        apply writes.elsewhere
        rintro (isPrivate | inObject)
        · exact inv.pool.slab.live_not_private live' inside isPrivate
        · exact apart other inRest size' live' address inside inObject

end Inv

/-! ### Safety -/

theorem start_inv {boot : Boot} (good : GoodBoot boot) {bare ready : Machine} (isBare : Bare bare)
    (done : pmmInit boot.hhdm boot.entries bare = .ok ready) (supplied : Supplied ready)
    (first : T) (interrupts : T → Bool) :
    ∃ v, Inv good.ram v (start ready first interrupts) := by
  obtain ⟨pool, _⟩ := pmmInit_pool good isBare (good.enough isBare done supplied) done
  refine ⟨_, pool, ⟨List.nodup_nil, ?_⟩, ?_, List.nodup_nil, ?_⟩
  · intro object
    apply iff_of_false List.not_mem_nil
    rintro ⟨size, live⟩
    exact initialSlabs_not_live _ size object live
  · exact fun block member => absurd member List.not_mem_nil
  · exact fun call member => absurd member List.not_mem_nil

/-- No object has two owners, none that is owned is on a free chain, and once no call
is left every other object is on the chain of its slab. -/
structure Safe (s : Threads T) : Prop where
  distinct : (s.owned.map Block.ptr).Nodup
  offChain : ∀ block ∈ s.owned, ∀ size page, IsSlab s.m size page →
    ¬Reaches s.m.memory 0 (s.m.memory (page + objOffset)) block.ptr
  onChain : s.calls = [] → ∀ size page, IsSlab s.m size page → ∀ object ∈ slots page size,
    object ∉ s.owned.map Block.ptr →
      Reaches s.m.memory 0 (s.m.memory (page + objOffset)) object

variable {ram : Ram} {v : View} {s s' : Threads T} {hhdm object page size : Nat} {m m' : Machine}

theorem Inv.safe (inv : Inv ram v s) : s.Safe where
  distinct := (List.nodup_append.mp inv.live.distinct).2.1
  offChain := by
    intro block member size page isSlab reaches
    obtain ⟨slab, inSlabs, isSize, rfl, free⟩ := inv.pool.private_of_isSlab isSlab
    obtain ⟨size', _, live⟩ := inv.sizes block member
    have start := inObject_start block.ptr (slabSizes_pos size isSize)
    exact inv.pool.slab.live_not_private live
      (inObject_start block.ptr (slabSizes_pos size' live.1))
      ⟨size, isSize, slab, inSlabs, Or.inr ⟨block.ptr, (free _).mp reaches, start⟩⟩
  onChain := by
    intro finished size page isSlab object inSlots notOwned
    obtain ⟨slab, inSlabs, isSize, rfl, free⟩ := inv.pool.private_of_isSlab isSlab
    rw [free]
    by_contra notFree
    have listed := (inv.live.mem_iff object).mpr ⟨size, isSize, slab, inSlabs, inSlots, notFree⟩
    rw [pointers, finished] at listed
    exact notOwned listed

/-! ### Runs -/

variable [DecidableEq T]

/-- A step that keeps the headers that other threads' calls rely on. -/
def ExclusiveStep (hhdm : Nat) (s s' : Threads T) : Prop :=
  Step hhdm s s' ∧ s.HeaderKept s'

theorem slabDeallocAccess_calls (addr : Nat) (m : Machine) (pc : DeallocPc) :
    (slabDeallocAccess addr m pc).2.pmmCalls = m.pmmCalls := by
  cases pc with
  | readSize => rfl
  | zero sizeofobj => rfl
  | readOld => rfl
  | link old => rfl
  | readHeader => rfl
  | writeHeader e => rfl

theorem Step.grows (step : Step hhdm s s') : Grows s.m s'.m := by
  cases step with
  | alloc idle small done => exact (slabAlloc_allocates (NAlloc.slabAlloc_of_alloc small done)).grows
  | access member mine => exact Grows.of_eq (slabDeallocAccess_calls _ s.m _)
  | preempt next enabled => exact Grows.refl _
  | setInterrupts enabled idle => exact Grows.refl _
  | dealloc idle member mine => exact Grows.refl _
  | use idle own => exact Grows.refl _
  | give next idle member mine => exact Grows.refl _

theorem run_grows (run : Relation.ReflTransGen (ExclusiveStep hhdm) s s') : Grows s.m s'.m := by
  induction run with
  | refl => exact Grows.refl _
  | tail _ last inductionHypothesis => exact inductionHypothesis.trans last.1.grows

theorem Inv.step (inv : Inv ram v s) (step : ExclusiveStep ram.hhdm s s') (supplied : Supplied s'.m) :
    ∃ v', Inv ram v' s' := by
  obtain ⟨step, kept⟩ := step
  cases step with
  | preempt next enabled => exact ⟨v, inv.pool, inv.live, inv.sizes, inv.threads, inv.progress⟩
  | setInterrupts enabled idle =>
      exact ⟨v, inv.pool, inv.live, inv.sizes, inv.threads, inv.progress⟩
  | alloc idle small done => exact inv.alloc idle small done kept supplied
  | dealloc idle member mine => exact ⟨v, inv.dealloc idle member mine⟩
  | access member mine => exact inv.access member mine kept
  | use idle own => exact ⟨v, inv.use idle own kept⟩
  | give next idle member mine => exact ⟨v, inv.give next member⟩

theorem Inv.run (inv : Inv ram v s) (run : Relation.ReflTransGen (ExclusiveStep ram.hhdm) s s')
    (supplied : Supplied s'.m) : ∃ v', Inv ram v' s' := by
  induction run with
  | refl => exact ⟨v, inv⟩
  | tail _ last inductionHypothesis =>
      obtain ⟨_, before⟩ := inductionHypothesis (supplied.before last.1.grows)
      exact before.step last supplied

/-- In every run in which no thread changes the header of a slab while another thread
is giving one of its objects back, the heap is safe in every state. -/
theorem preempted_heap_safe (boot : Boot) (good : GoodBoot boot) (bare ready : Machine)
    (isBare : Bare bare) (done : pmmInit boot.hhdm boot.entries bare = .ok ready)
    (first : T) (interrupts : T → Bool) (s : Threads T)
    (run : Relation.ReflTransGen (ExclusiveStep boot.hhdm) (start ready first interrupts) s)
    (supplied : Supplied s.m) : s.Safe := by
  have before := supplied.before (run_grows run)
  obtain ⟨v, inv⟩ := start_inv good isBare done before first interrupts
  obtain ⟨v', inv'⟩ := inv.run run supplied
  exact inv'.safe

/-! ### A stale header -/

/-- A request of 1024 bytes that the first slab of its cache can serve. -/
theorem alloc_first
    (found : m.slabCaches.find? (fun cache => ¬cache.size < 1024) = some ⟨1024, page⟩)
    (real : 0 < page) (nonempty : m.memory (page + objOffset) ≠ 0)
    (taken : takeObject page m = (object, m')) : NAlloc.alloc hhdm 1024 m = .ok (object, m') := by
  apply NAlloc.alloc_small (by decide)
  have searched : slabHeaderAlloc hhdm addressSpace page m = .ok (object, m') := by
    rw [show addressSpace = addressSpace - 1 + 1 from rfl, slabHeaderAlloc, if_pos nonempty, taken]
  rw [slabAlloc, if_pos (le_nextPowerOfTwo (by decide)), found]
  simp only [slabCacheAlloc, if_pos (Nat.ne_of_gt real), searched, bind, Except.bind]

/-- The second object of a chain is the one that is taken. -/
theorem takeObject_fst {first second : Nat} (obj : m.memory (page + objOffset) = first)
    (link : m.memory first = second) (real : second ≠ 0) :
    takeObject page m = (second, (takeObject page m).2) := by
  unfold takeObject
  simp only [obj, link, if_pos real]

theorem SlabOk.obj_ne_zero {memory : Nat → Nat} {slab : Slab} (ok : SlabOk memory size slab)
    (nonempty : slab.free ≠ []) : memory (slab.page + objOffset) ≠ 0 :=
  fun null => nonempty (ok.obj_eq_zero_iff.mp null)

/-- An `alloc` while no call is going on. -/
theorem Step.allocAlone (hhdm : Nat) (s : Threads T) (none : s.calls = [])
    (found : s.m.slabCaches.find? (fun cache => ¬cache.size < 1024) = some ⟨1024, page⟩)
    (real : 0 < page) (nonempty : s.m.memory (page + objOffset) ≠ 0)
    (taken : takeObject page s.m = (object, m')) :
    ExclusiveStep hhdm s { s with
      m := m'
      owned := ⟨s.current, object, 1024⟩ :: s.owned } := by
  have noCall : ∀ call, call ∉ s.calls := by
    rw [none]
    exact fun _ => List.not_mem_nil
  refine ⟨Step.alloc ?_ (by decide) (alloc_first found real nonempty taken), ?_⟩
  · exact fun call member => absurd member (noCall call)
  · exact fun call member => absurd member (noCall call)

/-- The access of the only call there is. -/
theorem Step.accessOnly {block : Block T} {pc : DeallocPc} {next : Option DeallocPc}
    (only : s.calls = [⟨block, pc⟩]) (mine : block.thread = s.current)
    (accessed : slabDeallocAccess block.ptr s.m pc = (next, m')) :
    ExclusiveStep hhdm s { s with
      m := m'
      calls := next.toList.map fun pc => ⟨block, pc⟩ } := by
  have step : Step hhdm s (s.access ⟨block, pc⟩) :=
    Step.access (by rw [only]; exact List.mem_cons_self) mine
  have result : s.access ⟨block, pc⟩ = { s with
      m := m'
      calls := next.toList.map fun pc => ⟨block, pc⟩ } := by
    rw [Threads.access, accessed, only]
    simp
  rw [result] at step
  refine ⟨step, ?_⟩
  intro call member notMine
  rw [only, List.mem_singleton] at member
  rw [member] at notMine
  exact absurd mine notMine

/-- A `dealloc` that no one disturbs, up to the write of the header. -/
theorem run_to_writeHeader (hhdm : Nat) (s : Threads T) (block : Block T) {old : Nat}
    (none : s.calls = []) (member : block ∈ s.owned) (mine : block.thread = s.current)
    (masked : alignDown block.ptr pageSize = page)
    (sizeEq : (readSlabHeader page s.m).objSize = size)
    (oldEq : (readSlabHeader page (s.m.writeBytes block.ptr size)).obj = old) (real : old ≠ 0)
    (result : (s.m.writeBytes block.ptr size).write block.ptr old = m') :
    Relation.ReflTransGen (ExclusiveStep hhdm) s
      { s with
        m := m'
        calls := [⟨block, .writeHeader
          { readSlabHeader page m' with
            obj := block.ptr
            objAm := wrap ((readSlabHeader page m').objAm + 1) }⟩]
        owned := s.owned.erase block } := by
  have noCall : ∀ call, call ∉ s.calls := by
    rw [none]
    exact fun _ => List.not_mem_nil
  have begun : ExclusiveStep hhdm s { s with
      calls := [⟨block, .readSize⟩]
      owned := s.owned.erase block } := by
    have step : Step hhdm s _ :=
      Step.dealloc (fun call isCall => absurd isCall (noCall call)) member mine
    rw [none] at step
    exact ⟨step, fun call isCall => absurd isCall (noCall call)⟩
  have sized := (Relation.ReflTransGen.single begun).tail (Step.accessOnly rfl mine rfl)
  have zeroed := sized.tail (Step.accessOnly rfl mine rfl)
  have readOld := zeroed.tail (Step.accessOnly rfl mine rfl)
  simp only [masked, sizeEq, oldEq, if_neg real] at readOld
  have linked := readOld.tail (Step.accessOnly rfl mine rfl)
  have readHeader := linked.tail (Step.accessOnly rfl mine rfl)
  simp only [masked, result] at readHeader
  exact readHeader

/-- The slab of 1024-byte objects after `pmm::init`. -/
theorem smallBoot_slab :
    ∃ bare ready page, Bare bare ∧
      pmmInit smallBoot.hhdm smallBoot.entries bare = .ok ready ∧ Supplied ready ∧
      ready.slabCaches.find? (fun cache => ¬cache.size < 1024) = some ⟨1024, page⟩ ∧
      page % pageSize = 0 ∧ 0 < page ∧ page + pageSize ≤ addressSpace ∧
      SlabOk ready.memory 1024
        ⟨page, [slot page 1024 2, slot page 1024 1, slot page 1024 0]⟩ := by
  have bare : Bare smallMachine := ⟨rfl, rfl, rfl⟩
  have enough : slabSizes.length ≤ smallBoot_good.map.frames.length := by decide
  obtain ⟨ready, done, _⟩ := pmmInit_conserved smallBoot_good.map bare.fresh bare.uncalled enough
  obtain ⟨pool, supplied⟩ := pmmInit_pool smallBoot_good bare enough done
  have inv : SlabInv ready (initialSlabs ready.slabCaches) := pool.slab
  have searched : slabClass 1024 = some 1024 := by decide
  rw [slabClass, ← inv.sizes, List.find?_map, Option.map_eq_some_iff] at searched
  obtain ⟨⟨size, page⟩, found, rfl⟩ := searched
  have member := List.mem_of_find?_eq_some found
  have sizes : (ready.slabCaches.map SlabCache.size).Nodup := by
    rw [inv.sizes]
    decide
  have isFirst : (⟨page, (slots page 1024).reverse⟩ : Slab) ∈
      initialSlabs ready.slabCaches 1024 := by
    rw [initialSlabs_eq sizes member]
    exact List.mem_cons_self
  obtain ⟨aligned, real, bounded⟩ := inv.placed 1024 (by decide) _ isFirst
  exact ⟨smallMachine, ready, page, bare, done, supplied, found, aligned, real, bounded,
    inv.shaped 1024 (by decide) _ isFirst⟩

/-- Thread `false` owns the lowest of three objects and is about to write the header
of the slab with the middle one on its chain; the top one is free. -/
theorem smallBoot_midway :
    ∃ bare ready page m, Bare bare ∧
      pmmInit smallBoot.hhdm smallBoot.entries bare = .ok ready ∧
      m.slabCaches.find? (fun cache => ¬cache.size < 1024) = some ⟨1024, page⟩ ∧ 0 < page ∧
      SlabOk m.memory 1024 ⟨page, [slot page 1024 2]⟩ ∧
      m.memory (slot page 1024 1) = slot page 1024 2 ∧ Supplied m ∧
      alignDown (slot page 1024 1) pageSize = page ∧
      Relation.ReflTransGen (ExclusiveStep smallBoot.hhdm) (start ready false fun _ => true)
        { m := m
          current := true
          interrupts := fun _ => true
          calls := [⟨⟨false, slot page 1024 1, 1024⟩, .writeHeader
            { readSlabHeader page m with
              obj := slot page 1024 1
              objAm := wrap ((readSlabHeader page m).objAm + 1) }⟩]
          owned := [⟨false, slot page 1024 0, 1024⟩] } := by
  obtain ⟨bare, ready, page, isBare, done, supplied, found, aligned, real, bounded, ok⟩ :=
    smallBoot_slab
  have masked : alignDown (slot page 1024 1) pageSize = page :=
    alignDown_slot aligned bounded (mem_slots.mpr ⟨1, by decide, rfl⟩)
  -- two requests take the middle and the lowest object
  obtain ⟨m1, took1, taken1⟩ := ok.take_second (by decide) rfl
  have ok1 := taken1.shape
  rw [show [slot page 1024 2, slot page 1024 1, slot page 1024 0].erase (slot page 1024 1) =
    [slot page 1024 2, slot page 1024 0] by simp [slot]] at ok1
  obtain ⟨m2, took2, taken2⟩ := ok1.take_second (by decide) rfl
  have ok2 := taken2.shape
  rw [show [slot page 1024 2, slot page 1024 0].erase (slot page 1024 0) =
    [slot page 1024 2] by simp [slot]] at ok2
  have found1 := taken1.writes.slabCaches ▸ found
  have found2 := taken2.writes.slabCaches ▸ found1
  have reach1 := Relation.ReflTransGen.single (Step.allocAlone smallBoot.hhdm
    (start ready false fun _ => true) rfl found real
    (SlabOk.obj_ne_zero ok (List.cons_ne_nil _ _)) took1)
  have reach2 := reach1.tail (Step.allocAlone smallBoot.hhdm _ rfl found1 real
    (SlabOk.obj_ne_zero ok1 (List.cons_ne_nil _ _)) took2)
  -- the middle one is zeroed and linked to the top one
  obtain ⟨m3, linked⟩ : ∃ m3, (m2.writeBytes (slot page 1024 1) 1024).write (slot page 1024 1)
      (slot page 1024 2) = m3 := ⟨_, rfl⟩
  have writes : Writes (InObject (slot page 1024 1) 1024) m2 m3 :=
    linked ▸ (Writes.writeBytes m2 fun _ low high => ⟨low, high⟩).andWrite _
      (inObject_start _ (by decide))
  have header : ∀ offset < slabHeaderSize, ¬InObject (slot page 1024 1) 1024 (page + offset) := by
    intro offset below
    unfold InObject slot
    omega
  have sizeEq : (readSlabHeader page m2).objSize = 1024 := ok2.objSize
  have oldEq : (readSlabHeader page (m2.writeBytes (slot page 1024 1) 1024)).obj =
      slot page 1024 2 :=
    (WordMemory.zero_outside (header objOffset (by decide))).trans ok2.chain.1
  have reach3 := reach2.trans (run_to_writeHeader smallBoot.hhdm _
    ⟨false, slot page 1024 1, 1024⟩ rfl (List.mem_cons_of_mem _ List.mem_cons_self) rfl masked
    sizeEq oldEq (by unfold slot; omega) linked)
  have remaining : ([⟨false, slot page 1024 0, 1024⟩, ⟨false, slot page 1024 1, 1024⟩] :
      List (Block Bool)).erase ⟨false, slot page 1024 1, 1024⟩ =
        [⟨false, slot page 1024 0, 1024⟩] := by
    simp [slot]
  have middle : m3.memory (slot page 1024 1) = slot page 1024 2 := by
    rw [← linked]
    simp only [Machine.write, Function.update_self]
  refine ⟨bare, ready, page, m3, isBare, done, writes.slabCaches ▸ found2, real, ?_, middle, ?_,
    masked, ?_⟩
  · apply ok2.congr
    · exact fun offset below =>
        writes.elsewhere _ (header offset (Nat.lt_trans below (by decide)))
    · intro object free
      rw [List.mem_singleton.mp free]
      apply writes.elsewhere
      unfold InObject slot
      omega
  · rw [Supplied, writes.pmmCalls, taken2.writes.pmmCalls, taken1.writes.pmmCalls]
    exact supplied
  · rw [← remaining]
    exact reach3.tail ⟨Step.preempt true rfl, fun _ _ _ => rfl⟩

theorem preempted_heap_safe_midway :
    ∃ bare ready, ∃ s : Threads Bool, Bare bare ∧
      pmmInit smallBoot.hhdm smallBoot.entries bare = .ok ready ∧
      Relation.ReflTransGen (ExclusiveStep smallBoot.hhdm) (start ready false fun _ => true) s ∧
      s.calls.length = 1 ∧ s.owned.length = 1 ∧ Supplied s.m ∧ s.Safe := by
  obtain ⟨bare, ready, page, m, isBare, done, _, _, _, _, supplied, _, run⟩ := smallBoot_midway
  exact ⟨bare, ready, _, isBare, done, run, rfl, rfl, supplied,
    preempted_heap_safe smallBoot smallBoot_good bare ready isBare done false _ _ run supplied⟩

/-- Thread `true` takes the last free object between the read and the write of the
header.  The write puts that object back on the chain, and the next request gets it. -/
theorem stale_header_shares_object :
    ∃ bare ready, ∃ s s' : Threads Bool, Bare bare ∧
      pmmInit smallBoot.hhdm smallBoot.entries bare = .ok ready ∧
      Relation.ReflTransGen (Step smallBoot.hhdm) (start ready false fun _ => true) s ∧
      Step smallBoot.hhdm s s' ∧ Supplied s'.m ∧ s.calls = [] ∧
      (∃ block ∈ s.owned, ∃ size page, IsSlab s.m size page ∧
        Reaches s.m.memory 0 (s.m.memory (page + objOffset)) block.ptr) ∧
      ¬(s'.owned.map Block.ptr).Nodup := by
  obtain ⟨bare, ready, page, m, isBare, done, found, real, ok, link, supplied, masked, run⟩ :=
    smallBoot_midway
  have reach1 : Relation.ReflTransGen (Step smallBoot.hhdm) (start ready false fun _ => true) _ :=
    Relation.ReflTransGen.mono (fun _ _ => And.left) _ _ run
  -- thread `true` takes the top object
  obtain ⟨m1, took, taken⟩ := ok.take_only rfl
  have found1 := taken.writes.slabCaches ▸ found
  have notMine : ∀ call ∈ [(⟨⟨false, slot page 1024 1, 1024⟩, .writeHeader
      { readSlabHeader page m with
        obj := slot page 1024 1
        objAm := wrap ((readSlabHeader page m).objAm + 1) }⟩ : DeallocCall Bool)],
      call.block.thread ≠ true := by
    intro call member
    rw [List.mem_singleton.mp member]
    exact Bool.false_ne_true
  have reach2 := reach1.tail (Step.alloc notMine (by decide)
    (alloc_first found real (SlabOk.obj_ne_zero ok (List.cons_ne_nil _ _)) took))
  have reach3 := reach2.tail (Step.preempt false rfl)
  -- thread `false` writes the header it has read before
  have reach4 := reach3.tail (Step.accessOnly rfl rfl rfl).1
  simp only [masked] at reach4
  obtain ⟨m2, written⟩ : ∃ m2, writeSlabHeader page (wrap ((readSlabHeader page m).objAm + 1))
      (readSlabHeader page m).objSize (slot page 1024 1) (readSlabHeader page m).otherSlabs m1 =
        m2 := ⟨_, rfl⟩
  rw [written] at reach4
  have writes : Writes (fun address => page ≤ address ∧ address < page + slabHeaderSize) m1 m2 :=
    written ▸ writeSlabHeader_writes page _ _ _ _ m1
  have first : m2.memory (page + objOffset) = slot page 1024 1 :=
    written ▸ writeSlabHeader_obj page _ _ _ _ m1
  have second : m2.memory (slot page 1024 1) = slot page 1024 2 := by
    rw [writes.elsewhere, taken.writes.elsewhere, link]
    · rintro (⟨_, inHeader⟩ | ⟨object, free, inObject⟩)
      · change slot page 1024 1 < page + slabHeaderSize at inHeader
        unfold slot at inHeader
        omega
      · rw [List.mem_singleton.mp free] at inObject
        unfold InObject slot at inObject
        omega
    · unfold slot
      omega
  have found2 := writes.slabCaches ▸ found1
  have nonzero : ∀ k, slot page 1024 k ≠ 0 := by
    intro k
    unfold slot
    omega
  refine ⟨bare, ready, _, _, isBare, done, reach4, Step.alloc
    (fun _ member => absurd member List.not_mem_nil) (Nat.le_refl 1024)
    (alloc_first found2 real (first ▸ nonzero 1) (takeObject_fst first second (nonzero 2))),
    ?_, rfl, ?_, ?_⟩
  · rw [Supplied, takeObject_calls, writes.pmmCalls, taken.writes.pmmCalls]
    exact supplied
  · refine ⟨_, List.mem_cons_self, 1024, page,
      IsSlab.first ⟨1024, page⟩ (List.mem_of_find?_eq_some found2) (Nat.ne_of_gt real), ?_⟩
    change Reaches m2.memory 0 (m2.memory (page + objOffset)) (slot page 1024 2)
    rw [← second]
    refine Reaches.next ?_ (second ▸ nonzero 2)
    rw [first]
    exact Reaches.start (nonzero 1)
  · simp

end Threads

end NyauxKernel.Memory
