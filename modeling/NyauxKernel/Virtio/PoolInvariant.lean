/-
The descriptor pool over every run of allocations, frees and rewrites by the owners.

The free descriptors are the first `num_free` that the head leads to; what the last one
links to is stale and may be in use.  A chain is known by its head and its length.  All
of them together are the whole table, each descriptor once.
-/

import NyauxKernel.Library.IteratedLinks
import NyauxKernel.Virtio.DescriptorPool
import Mathlib.Data.List.Perm.Basic
import Mathlib.Data.Nat.Bitwise

namespace NyauxKernel.Virtio

open IteratedLinks

/-! ### The flag that says that a chain goes on -/

theorem and_descNext_ne_zero_iff (flags : UInt16) :
    flags &&& descNext ≠ 0 ↔ flags.toNat.testBit 0 = true := by
  rw [Ne, ← UInt16.toNat_inj, UInt16.toNat_and]
  change ¬flags.toNat &&& 1 = 0 ↔ _
  rw [Nat.and_one_is_mod, Nat.testBit_zero, decide_eq_true_iff]
  omega

theorem or_descNext (flags : UInt16) : (flags ||| descNext) &&& descNext ≠ 0 := by
  rw [and_descNext_ne_zero_iff, UInt16.toNat_or, Nat.testBit_or, Bool.or_eq_true]
  exact Or.inr rfl

theorem and_not_descNext (flags : UInt16) : (flags &&& ~~~descNext) &&& descNext = 0 := by
  by_contra set
  rw [← Ne, and_descNext_ne_zero_iff, UInt16.toNat_and, Nat.testBit_and, Bool.and_eq_true] at set
  exact absurd set.2 (by decide)

/-- Flags that differ in `VIRTQ_DESC_F_WRITE` only. -/
theorem and_descNext_congr {flags flags' : UInt16} (same : flags ||| descWrite = flags' ||| descWrite) :
    (flags &&& descNext ≠ 0) ↔ (flags' &&& descNext ≠ 0) := by
  have bit := congrArg (fun word : UInt16 => word.toNat.testBit 0) same
  have clear : descWrite.toNat.testBit 0 = false := rfl
  simp only [UInt16.toNat_or, Nat.testBit_or, clear, Bool.or_false] at bit
  rw [and_descNext_ne_zero_iff, and_descNext_ne_zero_iff, bit]

namespace FreelistDescPool

/-! ### Links and chains -/

def link (pool : FreelistDescPool) (index : UInt16) : UInt16 :=
  (pool.virtqDescPool index.toNat).next

/-- The chain goes on behind this descriptor. -/
def Continues (pool : FreelistDescPool) (index : UInt16) : Prop :=
  (pool.virtqDescPool index.toNat).flags &&& descNext ≠ 0

/-- The first `count` descriptors that links lead to. -/
def reached (pool : FreelistDescPool) (start : UInt16) (count : Nat) : List UInt16 :=
  List.iterate pool.link start count

variable {pool pool' : FreelistDescPool}

theorem set_self (pool : FreelistDescPool) (index : UInt16) (desc : VirtqDesc) :
    (pool.set index desc).virtqDescPool index.toNat = desc :=
  Function.update_self ..

variable {chainlength head index last start stop : UInt16} {count size : Nat}

theorem set_other {other : UInt16} (desc : VirtqDesc) (differ : other ≠ index) :
    (pool.set index desc).virtqDescPool other.toNat = pool.virtqDescPool other.toNat :=
  Function.update_of_ne (fun same => differ (UInt16.toNat_inj.mp same)) ..

theorem set_link (pool : FreelistDescPool) (index : UInt16) (desc : VirtqDesc) :
    (pool.set index desc).link = Function.update pool.link index desc.next := by
  funext other
  by_cases same : other = index
  · rw [same, Function.update_self, link, set_self]
  · rw [Function.update_of_ne same, link, set_other desc same, link]

/-- A change of a descriptor that keeps its link. -/
theorem set_link_same {desc : VirtqDesc} (same : desc.next = pool.link index) :
    (pool.set index desc).link = pool.link := by
  rw [set_link, same, Function.update_eq_self]

theorem set_continues (pool : FreelistDescPool) (index : UInt16) (desc : VirtqDesc)
    (other : UInt16) :
    (pool.set index desc).Continues other ↔
      if other = index then desc.flags &&& descNext ≠ 0 else pool.Continues other := by
  by_cases same : other = index
  · rw [if_pos same, same, Continues, set_self]
  · rw [if_neg same, Continues, set_other desc same, Continues]

theorem get?_eq (inside : index.toNat < pool.queueSize) :
    pool.get? index = some (pool.virtqDescPool index.toNat) :=
  if_pos inside

/-! ### The loops -/

/-- The loop marks the descriptors that it meets and changes no link. -/
theorem allocateLoop_eq (count : Nat) (cur : UInt16) (pool : FreelistDescPool)
    (inside : ∀ index ∈ pool.reached cur count, index.toNat < pool.queueSize) :
    ∃ pool', allocateLoop count cur pool = some (pool.link^[count] cur, pool') ∧
      pool'.link = pool.link ∧ pool'.queueSize = pool.queueSize ∧ pool'.numFree = pool.numFree ∧
      (∀ index, pool'.Continues index ↔ pool.Continues index ∨ index ∈ pool.reached cur count) ∧
      ∀ index ∉ pool.reached cur count,
        pool'.virtqDescPool index.toNat = pool.virtqDescPool index.toNat := by
  induction count generalizing cur pool with
  | zero => exact ⟨pool, rfl, rfl, rfl, rfl, fun index => by simp [reached], fun _ _ => rfl⟩
  | succ count inductionHypothesis =>
      have here := inside cur List.mem_cons_self
      let desc := pool.virtqDescPool cur.toNat
      let marked := pool.set cur { desc with flags := desc.flags ||| descNext }
      have links : marked.link = pool.link := set_link_same rfl
      obtain ⟨pool', done, links', sizes, frees, marks, quiet⟩ := inductionHypothesis desc.next marked
        (fun index member => inside index (List.mem_cons_of_mem cur (by
          rw [reached, links] at member
          exact member)))
      refine ⟨pool', ?_, links'.trans links, sizes, frees, ?_, ?_⟩
      · rw [allocateLoop, get?_eq here]
        rw [links] at done
        exact done
      · intro index
        rw [marks, set_continues, reached, links]
        change _ ↔ pool.Continues index ∨ index ∈ cur :: List.iterate pool.link desc.next count
        rw [List.mem_cons]
        by_cases same : index = cur
        · rw [if_pos same]
          exact iff_of_true (Or.inl (or_descNext _)) (Or.inr (Or.inl same))
        · rw [if_neg same]
          tauto
      · intro index absent
        change index ∉ cur :: List.iterate pool.link desc.next count at absent
        obtain ⟨notCur, notLater⟩ := not_or.mp (mt List.mem_cons.mpr absent)
        rw [quiet index (by rw [reached, links]; exact notLater)]
        exact set_other _ notCur

/-- The loop clears the flags of a chain up to its last descriptor. -/
theorem deallocateLoop_eq (count fuel : Nat) (cur : UInt16) (pool : FreelistDescPool)
    (enough : count < fuel) (distinct : (pool.reached cur (count + 1)).Nodup)
    (inside : ∀ index ∈ pool.reached cur (count + 1), index.toNat < pool.queueSize)
    (goesOn : ∀ index ∈ pool.reached cur count, pool.Continues index)
    (ends : ¬pool.Continues (pool.link^[count] cur)) :
    ∃ pool', deallocateLoop fuel cur pool = some (pool.link^[count] cur, pool') ∧
      pool'.link = pool.link ∧ pool'.queueSize = pool.queueSize ∧ pool'.head = pool.head ∧
      pool'.numFree = pool.numFree + UInt16.ofNat count ∧
      ∀ index, pool'.Continues index ↔ pool.Continues index ∧ index ∉ pool.reached cur count := by
  induction count generalizing fuel cur pool with
  | zero =>
      obtain ⟨fuel, rfl⟩ := Nat.exists_eq_succ_of_ne_zero (Nat.ne_of_gt enough)
      refine ⟨pool, ?_, rfl, rfl, rfl, by simp, fun index => by simp [reached]⟩
      rw [deallocateLoop, get?_eq (inside cur List.mem_cons_self)]
      exact if_neg ends
  | succ count inductionHypothesis =>
      obtain ⟨fuel, rfl⟩ := Nat.exists_eq_succ_of_ne_zero (Nat.ne_of_gt (Nat.zero_lt_of_lt enough))
      let desc := pool.virtqDescPool cur.toNat
      let cleared : FreelistDescPool :=
        { pool.set cur { desc with flags := 0 } with numFree := pool.numFree + 1 }
      have links : cleared.link = pool.link := set_link_same rfl
      obtain ⟨absent, others⟩ := List.nodup_cons.mp distinct
      have flags : ∀ index, cleared.Continues index ↔ index ≠ cur ∧ pool.Continues index := by
        intro index
        refine (set_continues pool cur _ index).trans ?_
        by_cases same : index = cur
        · simp [same]
        · simp [same]
      have rest : ∀ count, cleared.reached desc.next count = pool.reached (pool.link cur) count :=
        fun count => by rw [reached, links]; rfl
      have notCur : ∀ index ∈ pool.reached (pool.link cur) (count + 1), index ≠ cur := by
        rintro index member rfl
        exact absent member
      obtain ⟨pool', done, links', sizes, heads, frees, marks⟩ := inductionHypothesis fuel desc.next
        cleared (Nat.lt_of_succ_lt_succ enough) (by rw [rest]; exact others)
        (fun index member => inside index (List.mem_cons_of_mem cur (by rwa [rest] at member)))
        (fun index member => by
          rw [rest] at member
          have inChain : index ∈ pool.reached (pool.link cur) (count + 1) := by
            rw [reached, iterate_concat]
            exact List.mem_append_left _ member
          exact (flags index).mpr ⟨notCur index inChain,
            goesOn index (List.mem_cons_of_mem cur member)⟩)
        (by
          rw [links]
          exact fun continues => ends ((flags _).mp continues).2)
      refine ⟨pool', ?_, links'.trans links, sizes, heads, ?_, ?_⟩
      · rw [deallocateLoop, get?_eq (inside cur List.mem_cons_self)]
        rw [links] at done
        exact (if_pos (goesOn cur List.mem_cons_self)).trans done
      · rw [frees]
        change pool.numFree + 1 + UInt16.ofNat count = pool.numFree + UInt16.ofNat (count + 1)
        rw [UInt16.ofNat_add, UInt16.add_assoc, UInt16.add_comm 1]
        rfl
      · intro index
        rw [marks, flags, rest]
        change _ ↔ _ ∧ index ∉ cur :: pool.reached (pool.link cur) count
        rw [List.mem_cons]
        tauto

/-! ### The calls -/

/-- A chain of `count` descriptors: all but the last one say that it goes on. -/
structure Chain (pool : FreelistDescPool) (head : UInt16) (count : Nat) : Prop where
  positive : 0 < count
  flags : ∀ k < count, pool.Continues (pool.link^[k] head) ↔ k + 1 < count

theorem allocateChain_refused (refused : chainlength = 0 ∨ pool.numFree < chainlength) :
    pool.allocateChain chainlength = some (.error (), pool) :=
  if_pos refused

/-- The first descriptors of the free list become a chain: the link of the last one is
cut. -/
theorem allocateChain_eq (length : chainlength.toNat = count + 1)
    (enough : chainlength ≤ pool.numFree)
    (inside : ∀ index ∈ pool.reached pool.head (count + 1), index.toNat < pool.queueSize) :
    ∃ pool', pool.allocateChain chainlength = some (.ok pool.head, pool') ∧
      pool'.queueSize = pool.queueSize ∧ pool'.numFree = pool.numFree - chainlength ∧
      pool'.head = pool.link^[count + 1] pool.head ∧
      pool'.link = Function.update pool.link (pool.link^[count] pool.head) 0 ∧
      (∀ index, pool'.Continues index ↔ index ≠ pool.link^[count] pool.head ∧
        (pool.Continues index ∨ index ∈ pool.reached pool.head count)) ∧
      ∀ index ∉ pool.reached pool.head (count + 1),
        pool'.virtqDescPool index.toNat = pool.virtqDescPool index.toNat := by
  rw [reached, iterate_concat] at inside
  obtain ⟨marked, done, links, sizes, frees, marks, quiet⟩ := allocateLoop_eq count pool.head pool
    (fun index member => inside index (List.mem_append_left _ member))
  have atLast : (pool.link^[count] pool.head).toNat < marked.queueSize := by
    rw [sizes]
    exact inside _ (by simp)
  have accepted : ¬(chainlength = 0 ∨ pool.numFree < chainlength) := by
    rintro (zero | short)
    · rw [zero] at length
      exact absurd length (by simp)
    · exact absurd enough (UInt16.not_le.mpr short)
  have rounds : (chainlength - 1).toNat = count := by
    have one : (1 : UInt16) ≤ chainlength := by
      rw [UInt16.le_iff_toNat_le, length]
      exact Nat.le_add_left 1 count
    rw [UInt16.toNat_sub_of_le _ _ one, length]
    rfl
  let o := marked.virtqDescPool (pool.link^[count] pool.head).toNat
  let cut : FreelistDescPool :=
    { marked.set (pool.link^[count] pool.head)
        { o with flags := o.flags &&& ~~~descNext, next := 0 } with
      numFree := marked.numFree - chainlength
      head := o.next }
  refine ⟨cut, ?_, ?_⟩
  · rw [allocateChain, if_neg accepted, rounds, done]
    change (marked.get? (pool.link^[count] pool.head)).bind _ = _
    rw [get?_eq atLast]
    rfl
  · refine ⟨sizes, congrArg (· - chainlength) frees, ?_, ?_, ?_, ?_⟩
    · rw [Function.iterate_succ_apply']
      exact congrFun links _
    · refine (set_link marked _ _).trans ?_
      rw [links]
    · intro index
      refine (set_continues marked _ _ index).trans ?_
      rw [← marks]
      by_cases same : index = pool.link^[count] pool.head
      · simp [same, and_not_descNext]
      · simp [same]
    · intro index absent
      rw [reached, iterate_concat, List.mem_append, List.mem_singleton, not_or] at absent
      exact (set_other _ absent.2).trans (quiet index absent.1)

/-- A chain goes in front of the free list. -/
theorem deallocateChain_eq (chain : Chain pool head (count + 1))
    (distinct : (pool.reached head (count + 1)).Nodup)
    (inside : ∀ index ∈ pool.reached head (count + 1), index.toNat < pool.queueSize)
    (short : count ≤ pool.queueSize) :
    ∃ pool', pool.deallocateChain head = some pool' ∧
      pool'.queueSize = pool.queueSize ∧
      pool'.numFree = pool.numFree + UInt16.ofNat (count + 1) ∧ pool'.head = head ∧
      pool'.link = Function.update pool.link (pool.link^[count] head) pool.head ∧
      ∀ index, pool'.Continues index ↔
        pool.Continues index ∧ index ∉ pool.reached head (count + 1) := by
  have goesOn : ∀ index ∈ pool.reached head count, pool.Continues index := by
    intro index member
    obtain ⟨k, below, rfl⟩ := List.mem_iterate.mp member
    exact (chain.flags k (by omega)).mpr (by omega)
  have ends : ¬pool.Continues (pool.link^[count] head) := by
    rw [chain.flags count (Nat.lt_succ_self count)]
    exact Nat.lt_irrefl _
  obtain ⟨cleared, done, links, sizes, heads, frees, marks⟩ := deallocateLoop_eq count
    (pool.queueSize + 1) head pool (Nat.lt_succ_of_le short) distinct inside goesOn ends
  have atLast : (pool.link^[count] head).toNat < cleared.queueSize := by
    rw [sizes]
    apply inside
    rw [reached, iterate_concat]
    simp
  let desc := cleared.virtqDescPool (pool.link^[count] head).toNat
  let joined : FreelistDescPool :=
    { cleared.set (pool.link^[count] head) { desc with next := cleared.head, flags := 0 } with
      numFree := cleared.numFree + 1
      head := head }
  refine ⟨joined, ?_, ?_⟩
  · rw [deallocateChain, done]
    change (cleared.get? (pool.link^[count] head)).bind _ = _
    rw [get?_eq atLast]
    rfl
  · refine ⟨sizes, ?_, rfl, ?_, ?_⟩
    · change cleared.numFree + 1 = _
      rw [frees, UInt16.ofNat_add, UInt16.add_assoc]
      rfl
    · refine (set_link cleared _ _).trans ?_
      rw [links, heads]
    · intro index
      refine (set_continues cleared _ _ index).trans ?_
      rw [reached, iterate_concat, List.mem_append, List.mem_singleton, not_or, marks]
      by_cases same : index = pool.link^[count] head
      · simp [same]
      · simp [same, reached]

/-! ### Runs -/

/-- The pools that calls lead to, with the chains in use by their heads and lengths.  The
owner of a chain may write the address, the length and the write flag of its descriptors. -/
inductive PoolRun (queueSize : Nat) : FreelistDescPool → List (UInt16 × UInt16) → Prop
  | new {pool : FreelistDescPool} (created : FreelistDescPool.new queueSize = some pool) :
      PoolRun queueSize pool []
  | allocate {pool pool' : FreelistDescPool} {live : List (UInt16 × UInt16)} {head : UInt16}
      (chainlength : UInt16) (before : PoolRun queueSize pool live)
      (done : pool.allocateChain chainlength = some (.ok head, pool')) :
      PoolRun queueSize pool' ((head, chainlength) :: live)
  | refuse {pool pool' : FreelistDescPool} {live : List (UInt16 × UInt16)}
      (chainlength : UInt16) (before : PoolRun queueSize pool live)
      (done : pool.allocateChain chainlength = some (.error (), pool')) :
      PoolRun queueSize pool' live
  | deallocate {pool pool' : FreelistDescPool} {live : List (UInt16 × UInt16)}
      {chain : UInt16 × UInt16} (before : PoolRun queueSize pool live) (member : chain ∈ live)
      (done : pool.deallocateChain chain.1 = some pool') :
      PoolRun queueSize pool' (live.erase chain)
  | rewrite {pool : FreelistDescPool} {live : List (UInt16 × UInt16)} {chain : UInt16 × UInt16}
      (index : UInt16) (desc : VirtqDesc) (before : PoolRun queueSize pool live)
      (member : chain ∈ live) (own : index ∈ pool.reached chain.1 chain.2.toNat)
      (flags : desc.flags ||| descWrite =
        (pool.virtqDescPool index.toNat).flags ||| descWrite)
      (next : desc.next = pool.link index) :
      PoolRun queueSize (pool.set index desc) live

/-- All indices of a table. -/
def indices (size : Nat) : List UInt16 := (List.range size).map UInt16.ofNat

/-- The free descriptors. -/
def free (pool : FreelistDescPool) : List UInt16 := pool.reached pool.head pool.numFree.toNat

/-- The descriptors of a chain. -/
def ofChain (pool : FreelistDescPool) (chain : UInt16 × UInt16) : List UInt16 :=
  pool.reached chain.1 chain.2.toNat

structure PoolInv (size : Nat) (pool : FreelistDescPool) (live : List (UInt16 × UInt16)) : Prop
    where
  queueSize : pool.queueSize = size
  covers : (pool.free ++ live.flatMap pool.ofChain).Perm (indices size)
  chains : ∀ chain ∈ live, Chain pool chain.1 chain.2.toNat

theorem toNat_ofNat_lt {value : Nat} (small : value < 2 ^ 16) : (UInt16.ofNat value).toNat = value := by
  rw [UInt16.toNat_ofNat', Nat.mod_eq_of_lt small]

theorem indices_nodup (small : size < 2 ^ 16) : (indices size).Nodup := by
  apply List.Nodup.map_on _ List.nodup_range
  intro k inRange l inRange' same
  have below := List.mem_range.mp inRange
  have below' := List.mem_range.mp inRange'
  have numbers := congrArg UInt16.toNat same
  rwa [toNat_ofNat_lt (by omega), toNat_ofNat_lt (by omega)] at numbers

/-- A chain depends on the links and flags of its own descriptors. -/
theorem Chain.congr (chain : Chain pool head count)
    (links : ∀ index ∈ pool.reached head (count - 1), pool'.link index = pool.link index)
    (flags : ∀ index ∈ pool.reached head count, pool'.Continues index ↔ pool.Continues index) :
    Chain pool' head count := by
  refine ⟨chain.positive, ?_⟩
  intro k below
  have same : pool'.link^[k] head = pool.link^[k] head := by
    apply (iterate_congr _).2
    intro index member
    obtain ⟨l, early, rfl⟩ := List.mem_iterate.mp member
    exact links _ (List.mem_iterate.mpr ⟨l, by omega, rfl⟩)
  rw [same, flags _ (List.mem_iterate.mpr ⟨k, below, rfl⟩)]
  exact chain.flags k below

namespace PoolInv

variable {live : List (UInt16 × UInt16)}

theorem nodup (inv : PoolInv size pool live) (small : size < 2 ^ 16) :
    (pool.free ++ live.flatMap pool.ofChain).Nodup :=
  inv.covers.nodup_iff.mpr (indices_nodup small)

variable {chain : UInt16 × UInt16}

theorem inside (inv : PoolInv size pool live) (small : size < 2 ^ 16)
    (member : index ∈ pool.free ++ live.flatMap pool.ofChain) : index.toNat < size := by
  obtain ⟨k, inRange, rfl⟩ := List.mem_map.mp (inv.covers.mem_iff.mp member)
  have below := List.mem_range.mp inRange
  rwa [toNat_ofNat_lt (by omega)]

theorem total (inv : PoolInv size pool live) :
    pool.numFree.toNat + (live.map fun chain => chain.2.toNat).sum = size := by
  have lengths := inv.covers.length_eq
  have each : (fun chain => (pool.ofChain chain).length) =
      fun chain : UInt16 × UInt16 => chain.2.toNat := by
    funext chain
    exact List.length_iterate ..
  rw [List.length_append, List.length_flatMap, each, indices, List.length_map,
    List.length_range] at lengths
  have frees : pool.free.length = pool.numFree.toNat := List.length_iterate ..
  rwa [frees] at lengths

theorem free_distinct (inv : PoolInv size pool live) (small : size < 2 ^ 16) : pool.free.Nodup :=
  (List.nodup_append.mp (inv.nodup small)).1

theorem free_unused (inv : PoolInv size pool live) (small : size < 2 ^ 16)
    (isFree : index ∈ pool.free) (member : chain ∈ live) :
    index ∉ pool.ofChain chain := fun inChain =>
  (List.nodup_append.mp (inv.nodup small)).2.2 index isFree index
    (List.mem_flatMap.mpr ⟨chain, member, inChain⟩) rfl

theorem chain_distinct (inv : PoolInv size pool live) (small : size < 2 ^ 16)
    (member : chain ∈ live) : (pool.ofChain chain).Nodup :=
  (List.nodup_flatMap.mp (List.nodup_append.mp (inv.nodup small)).2.1).1 chain member

theorem chains_disjoint (inv : PoolInv size pool live) (small : size < 2 ^ 16) :
    live.Pairwise fun chain other => List.Disjoint (pool.ofChain chain) (pool.ofChain other) :=
  (List.nodup_flatMap.mp (List.nodup_append.mp (inv.nodup small)).2.1).2

/-- The chains in use are those of `live` without the one, and the one. -/
theorem flatMap_erase (member : chain ∈ live) :
    (live.flatMap pool.ofChain).Perm
      (pool.ofChain chain ++ (live.erase chain).flatMap pool.ofChain) :=
  (List.perm_cons_erase member).flatMap_right pool.ofChain

theorem erase_disjoint (inv : PoolInv size pool live) (small : size < 2 ^ 16)
    (member : chain ∈ live) {other : UInt16 × UInt16} (inRest : other ∈ live.erase chain) :
    List.Disjoint (pool.ofChain chain) (pool.ofChain other) := by
  have distinct := (flatMap_erase member).nodup_iff.mp (List.nodup_append.mp (inv.nodup small)).2.1
  intro index inChain inOther
  exact (List.nodup_append.mp distinct).2.2 index inChain index
    (List.mem_flatMap.mpr ⟨other, inRest, inOther⟩) rfl

end PoolInv

/-! ### What the steps preserve -/

theorem reached_redirected (links : pool'.link = Function.update pool.link last stop)
    (absent : last ∉ pool.reached start count) :
    pool'.reached start count = pool.reached start count := by
  rw [reached, links]
  exact (iterate_update_of_not_mem stop absent).1

theorem mem_reached {k : Nat} (below : k < count) :
    pool.link^[k] start ∈ pool.reached start count :=
  List.mem_iterate.mpr ⟨k, below, rfl⟩

theorem Chain.redirected (chain : Chain pool head count)
    (links : pool'.link = Function.update pool.link last stop)
    (absent : last ∉ pool.reached head count)
    (flags : ∀ index ∈ pool.reached head count, pool'.Continues index ↔ pool.Continues index) :
    Chain pool' head count := by
  apply chain.congr _ flags
  intro index member
  obtain ⟨k, below, rfl⟩ := List.mem_iterate.mp member
  rw [links, Function.update_of_ne]
  intro same
  exact absent (same ▸ mem_reached (by omega))

theorem last_not_reached (distinct : (pool.reached start (count + 1)).Nodup) :
    pool.link^[count] start ∉ pool.reached start count := by
  rw [reached, iterate_concat, List.nodup_append] at distinct
  exact fun member => distinct.2.2 _ member _ List.mem_cons_self rfl

namespace PoolInv

variable {live : List (UInt16 × UInt16)}

theorem free_new (small : size < 2 ^ 16) (created : FreelistDescPool.new size = some pool) :
    pool.free = indices size ∧ pool.queueSize = size := by
  unfold FreelistDescPool.new at created
  split at created
  · contradiction
  · obtain rfl := Option.some.inj created
    refine ⟨?_, rfl⟩
    rw [free, reached, toNat_ofNat_lt small, indices, List.range_eq_range']
    refine iterate_eq_map_range' UInt16.ofNat size 0 fun k below => ?_
    rw [link, toNat_ofNat_lt (by omega)]
    change (if k + 1 < size then UInt16.ofNat k + 1 else 0) = UInt16.ofNat (k + 1)
    rw [if_pos (by omega), UInt16.ofNat_add]
    rfl

theorem new (small : size < 2 ^ 16) (created : FreelistDescPool.new size = some pool) :
    PoolInv size pool [] := by
  obtain ⟨freeEq, sizes⟩ := free_new small created
  refine ⟨sizes, ?_, fun chain member => absurd member List.not_mem_nil⟩
  rw [freeEq, List.flatMap_nil, List.append_nil]

/-- Cutting the free list behind its first descriptors. -/
theorem free_split (pool : FreelistDescPool) {count : Nat} (enough : count ≤ pool.numFree.toNat) :
    pool.free = pool.reached pool.head count ++
      pool.reached (pool.link^[count] pool.head) (pool.numFree.toNat - count) := by
  have split : pool.numFree.toNat = count + (pool.numFree.toNat - count) := by omega
  rw [free, reached, split, List.iterate_add]
  congr 2
  omega

/-- What `allocate_chain` does: the first descriptors of the free list become a chain. -/
structure Taken (size : Nat) (pool : FreelistDescPool) (live : List (UInt16 × UInt16))
    (chainlength : UInt16) (pool' : FreelistDescPool) : Prop where
  inv : PoolInv size pool' ((pool.head, chainlength) :: live)
  split : pool.free = pool'.ofChain (pool.head, chainlength) ++ pool'.free
  cut : pool'.link (pool.link^[chainlength.toNat - 1] pool.head) = 0
  others : ∀ chain ∈ live, pool'.ofChain chain = pool.ofChain chain
  quiet : ∀ index ∉ pool'.ofChain (pool.head, chainlength),
    pool'.virtqDescPool index.toNat = pool.virtqDescPool index.toNat

/-- A request that can be met is met. -/
theorem allocate_returns (inv : PoolInv size pool live) (small : size < 2 ^ 16)
    {chainlength : UInt16} (accepted : ¬(chainlength = 0 ∨ pool.numFree < chainlength)) :
    ∃ pool', pool.allocateChain chainlength = some (.ok pool.head, pool') ∧
      Taken size pool live chainlength pool' := by
  obtain ⟨positive, enough⟩ := not_or.mp accepted
  rw [UInt16.not_lt] at enough
  obtain ⟨count, length⟩ := Nat.exists_eq_succ_of_ne_zero
    (fun zero => positive (UInt16.toNat_inj.mp zero))
  have enoughNat : count + 1 ≤ pool.numFree.toNat := by
    rw [← Nat.succ_eq_add_one, ← length]
    exact UInt16.le_iff_toNat_le.mp enough
  have split := free_split pool enoughNat
  have distinct := inv.free_distinct small
  rw [split] at distinct
  obtain ⟨distinctChain, _, apart⟩ := List.nodup_append.mp distinct
  have inFree : ∀ index ∈ pool.reached pool.head (count + 1), index ∈ pool.free :=
    fun index member => split ▸ List.mem_append_left _ member
  obtain ⟨pool', done, sizes, frees, heads, links, flags, quiet⟩ := allocateChain_eq length enough
    (fun index member => inv.queueSize.symm ▸
      inv.inside small (List.mem_append_left _ (inFree index member)))
  have isLast : pool.link^[count] pool.head ∈ pool.reached pool.head (count + 1) :=
    mem_reached (Nat.lt_succ_self count)
  have notLive : ∀ chain ∈ live, pool.link^[count] pool.head ∉ pool.ofChain chain :=
    fun chain member => inv.free_unused small (inFree _ isLast) member
  have chainEq : pool'.ofChain (pool.head, chainlength) = pool.reached pool.head (count + 1) := by
    rw [ofChain, reached, length, links]
    exact (iterate_redirect 0 distinctChain rfl).1
  have others : ∀ chain ∈ live, pool'.ofChain chain = pool.ofChain chain :=
    fun chain member => reached_redirected links (notLive chain member)
  have freeEq : pool'.free =
      pool.reached (pool.link^[count + 1] pool.head) (pool.numFree.toNat - (count + 1)) := by
    rw [free, heads, frees, UInt16.toNat_sub_of_le _ _ enough, length]
    exact reached_redirected links fun member => apart _ isLast _ member rfl
  refine ⟨pool', done, ⟨sizes.trans inv.queueSize, ?_, ?_⟩, by rw [chainEq, freeEq, split], ?_, others,
    fun index absent => quiet index (chainEq ▸ absent)⟩
  · rw [List.flatMap_cons, chainEq, List.flatMap_congr others, freeEq, ← List.append_assoc]
    refine List.Perm.trans (List.Perm.append_right _ List.perm_append_comm) ?_
    rw [← split]
    exact inv.covers
  · intro chain member
    rcases List.mem_cons.mp member with rfl | older
    · change Chain pool' pool.head chainlength.toNat
      rw [length]
      refine ⟨Nat.succ_pos count, ?_⟩
      intro k below
      have absent := last_not_reached distinctChain
      have same : pool'.link^[k] pool.head = pool.link^[k] pool.head := by
        rw [links]
        apply (iterate_update_of_not_mem 0 _).2
        intro member
        obtain ⟨l, early, isLast⟩ := List.mem_iterate.mp member
        exact absent (isLast ▸ mem_reached (by omega))
      rw [same, flags]
      by_cases early : k < count
      · have before : pool.link^[k] pool.head ∈ pool.reached pool.head count := mem_reached early
        refine iff_of_true ⟨?_, Or.inr before⟩ (by omega)
        exact fun equal => absent (equal ▸ before)
      · obtain rfl : k = count := by omega
        exact iff_of_false (fun continues => continues.1 rfl) (by omega)
    · apply (inv.chains chain older).redirected links (notLive chain older)
      intro index inChain
      have notFree : index ∉ pool.reached pool.head (count + 1) :=
        fun member => inv.free_unused small (inFree index member) older inChain
      rw [flags]
      constructor
      · rintro ⟨_, continues | early⟩
        · exact continues
        · rw [reached, iterate_concat] at notFree
          exact absurd (List.mem_append_left _ early) notFree
      · exact fun continues => ⟨fun same => notFree (same ▸ isLast), Or.inl continues⟩
  · rw [length, Nat.succ_eq_add_one, Nat.add_sub_cancel, links, Function.update_self]

/-- What `deallocate_chain` does: the chain goes in front of the free list. -/
structure Returned (size : Nat) (pool : FreelistDescPool) (live : List (UInt16 × UInt16))
    (chain : UInt16 × UInt16) (pool' : FreelistDescPool) : Prop where
  inv : PoolInv size pool' (live.erase chain)
  joined : pool'.free = pool.ofChain chain ++ pool.free
  others : ∀ other ∈ live.erase chain, pool'.ofChain other = pool.ofChain other

/-- The head of a chain in use can be given back. -/
theorem deallocate_returns (inv : PoolInv size pool live) (small : size < 2 ^ 16)
    {chain : UInt16 × UInt16} (member : chain ∈ live) :
    ∃ pool', pool.deallocateChain chain.1 = some pool' ∧ Returned size pool live chain pool' := by
  have isChain := inv.chains chain member
  obtain ⟨count, length⟩ := Nat.exists_eq_succ_of_ne_zero (Nat.ne_of_gt isChain.positive)
  have chainEq : pool.ofChain chain = pool.reached chain.1 (count + 1) := by
    rw [ofChain, length]
  have distinct := inv.chain_distinct small member
  have room : pool.numFree.toNat + (count + 1) ≤ size := by
    have lengths := ((flatMap_erase member).append_left pool.free).symm.trans inv.covers |>.length_eq
    have frees : pool.free.length = pool.numFree.toNat := List.length_iterate ..
    have own : (pool.ofChain chain).length = count + 1 := chainEq ▸ List.length_iterate ..
    rw [List.length_append, List.length_append, frees, own, indices, List.length_map,
      List.length_range] at lengths
    omega
  have inChains : ∀ index ∈ pool.ofChain chain, index ∈ live.flatMap pool.ofChain :=
    fun index inChain => List.mem_flatMap.mpr ⟨chain, member, inChain⟩
  rw [length] at isChain
  rw [chainEq] at distinct
  obtain ⟨pool', done, sizes, frees, heads, links, flags⟩ := deallocateChain_eq isChain distinct
    (fun index inChain => inv.queueSize.symm ▸
      inv.inside small (List.mem_append_right _ (inChains index (chainEq ▸ inChain))))
    (by rw [inv.queueSize]; omega)
  have isLast : pool.link^[count] chain.1 ∈ pool.ofChain chain :=
    chainEq ▸ mem_reached (Nat.lt_succ_self count)
  have notFree : pool.link^[count] chain.1 ∉ pool.free :=
    fun isFree => inv.free_unused small isFree member isLast
  have notOther : ∀ other ∈ live.erase chain, pool.link^[count] chain.1 ∉ pool.ofChain other :=
    fun other inRest inOther => inv.erase_disjoint small member inRest isLast inOther
  obtain ⟨cells, finish⟩ := iterate_redirect pool.head distinct rfl
  rw [← links] at cells finish
  have freeEq : pool'.free = pool.ofChain chain ++ pool.free := by
    have frees' : pool'.numFree.toNat = (count + 1) + pool.numFree.toNat := by
      rw [frees, UInt16.toNat_add, toNat_ofNat_lt (by omega), Nat.mod_eq_of_lt (by omega)]
      omega
    rw [free, reached, frees', heads, List.iterate_add, cells, finish, chainEq]
    congr 1
    exact reached_redirected links notFree
  have others : ∀ other ∈ live.erase chain, pool'.ofChain other = pool.ofChain other :=
    fun other inRest => reached_redirected links (notOther other inRest)
  refine ⟨pool', done, ⟨sizes.trans inv.queueSize, ?_, ?_⟩, freeEq, others⟩
  · rw [freeEq, List.flatMap_congr others]
    refine List.Perm.trans ?_ inv.covers
    refine (List.Perm.append_right _ List.perm_append_comm).trans ?_
    rw [List.append_assoc]
    exact ((flatMap_erase member).symm).append_left _
  · intro other inRest
    apply (inv.chains other (List.mem_of_mem_erase inRest)).redirected links (notOther other inRest)
    intro index inOther
    rw [flags, ← chainEq, and_iff_left]
    exact fun inChain => inv.erase_disjoint small member inRest inChain inOther

/-- Only the links and the flag for the next descriptor matter. -/
theorem congr (inv : PoolInv size pool live) (sizes : pool'.queueSize = pool.queueSize)
    (heads : pool'.head = pool.head) (frees : pool'.numFree = pool.numFree)
    (links : pool'.link = pool.link)
    (marks : ∀ index, pool'.Continues index ↔ pool.Continues index) :
    PoolInv size pool' live ∧ pool'.free = pool.free ∧ pool'.ofChain = pool.ofChain := by
  have chains : pool'.ofChain = pool.ofChain := by
    funext chain
    rw [ofChain, reached, links]
    rfl
  have freeEq : pool'.free = pool.free := by
    rw [free, reached, links, heads, frees]
    rfl
  refine ⟨⟨sizes.trans inv.queueSize, ?_, ?_⟩, freeEq, chains⟩
  · rw [chains, freeEq]
    exact inv.covers
  · intro chain member
    exact (inv.chains chain member).congr (fun other _ => congrFun links other)
      (fun other _ => marks other)

/-- Owners do not touch links and flags that matter. -/
theorem rewrite (inv : PoolInv size pool live) (index : UInt16) (desc : VirtqDesc)
    (flags : (desc.flags &&& descNext ≠ 0) ↔ pool.Continues index)
    (next : desc.next = pool.link index) :
    PoolInv size (pool.set index desc) live ∧ (pool.set index desc).free = pool.free ∧
      (pool.set index desc).ofChain = pool.ofChain := by
  refine inv.congr ?_ ?_ ?_ (set_link_same next) ?_
  · rfl
  · rfl
  · rfl
  · intro other
    rw [set_continues]
    by_cases same : other = index
    · rw [if_pos same, same]
      exact flags
    · rw [if_neg same]

end PoolInv

theorem PoolRun.inv (small : size < 2 ^ 16) {live : List (UInt16 × UInt16)}
    (run : PoolRun size pool live) : PoolInv size pool live := by
  induction run with
  | new created => exact PoolInv.new small created
  | @allocate pool pool' live head chainlength before done inductionHypothesis =>
      by_cases refused : chainlength = 0 ∨ pool.numFree < chainlength
      · rw [allocateChain_refused refused] at done
        have impossible := (Prod.mk.inj (Option.some.inj done)).1
        contradiction
      · obtain ⟨after, returned, taken⟩ := inductionHypothesis.allocate_returns small refused
        obtain ⟨same, rfl⟩ := Prod.mk.inj (Option.some.inj (done.symm.trans returned))
        obtain rfl := Except.ok.inj same
        exact taken.inv
  | @refuse pool pool' live chainlength before done inductionHypothesis =>
      by_cases refused : chainlength = 0 ∨ pool.numFree < chainlength
      · rw [allocateChain_refused refused] at done
        obtain ⟨_, rfl⟩ := Prod.mk.inj (Option.some.inj done)
        exact inductionHypothesis
      · obtain ⟨after, returned, _⟩ := inductionHypothesis.allocate_returns small refused
        obtain ⟨impossible, _⟩ := Prod.mk.inj (Option.some.inj (done.symm.trans returned))
        contradiction
  | deallocate before member done inductionHypothesis =>
      obtain ⟨after, returned, joined⟩ := inductionHypothesis.deallocate_returns small member
      obtain rfl := Option.some.inj (done.symm.trans returned)
      exact joined.inv
  | rewrite index desc before member own flags next inductionHypothesis =>
      exact (inductionHypothesis.rewrite index desc (and_descNext_congr flags) next).1

/-- The pool in every state of a run: the first `num_free` descriptors from the head are
free, the chains in use are disjoint and linked, nothing is lost and no index is out of
range. -/
structure PoolOk (size : Nat) (pool : FreelistDescPool) (live : List (UInt16 × UInt16)) : Prop
    where
  freeDistinct : pool.free.Nodup
  freeUnused : ∀ index ∈ pool.free, ∀ chain ∈ live, index ∉ pool.ofChain chain
  disjoint : live.Pairwise fun chain other =>
    List.Disjoint (pool.ofChain chain) (pool.ofChain other)
  linked : ∀ chain ∈ live, Chain pool chain.1 chain.2.toNat ∧ (pool.ofChain chain).Nodup
  total : pool.numFree.toNat + (live.map fun chain => chain.2.toNat).sum = size
  inside : ∀ index ∈ pool.free ++ live.flatMap pool.ofChain, index.toNat < size

/-- The descriptor pool.  In every state of every run the pool is in order, `allocate_chain`
refuses exactly the requests for none or for more than `num_free` descriptors and then
changes nothing, and the calls never follow an index out of range. -/
theorem descriptor_pool_invariant (size : Nat) (positive : 1 ≤ size) (small : size ≤ 256)
    (pool : FreelistDescPool) (live : List (UInt16 × UInt16)) (run : PoolRun size pool live) :
    PoolOk size pool live ∧
      (∀ chainlength, chainlength = 0 ∨ pool.numFree < chainlength →
        pool.allocateChain chainlength = some (.error (), pool)) ∧
      (∀ chainlength, ¬(chainlength = 0 ∨ pool.numFree < chainlength) →
        ∃ pool', pool.allocateChain chainlength = some (.ok pool.head, pool')) ∧
      ∀ chain ∈ live, ∃ pool', pool.deallocateChain chain.1 = some pool' := by
  have narrow : size < 2 ^ 16 := by omega
  have inv := run.inv narrow
  refine ⟨?_, fun _ => allocateChain_refused, ?_, ?_⟩
  · exact
      { freeDistinct := inv.free_distinct narrow
        freeUnused := fun _ isFree _ member => inv.free_unused narrow isFree member
        disjoint := inv.chains_disjoint narrow
        linked := fun chain member => ⟨inv.chains chain member, inv.chain_distinct narrow member⟩
        total := inv.total
        inside := fun _ member => inv.inside narrow member }
  · intro chainlength accepted
    obtain ⟨pool', done, _⟩ := inv.allocate_returns narrow accepted
    exact ⟨pool', done⟩
  · intro chain member
    obtain ⟨pool', done, _⟩ := inv.deallocate_returns narrow member
    exact ⟨pool', done⟩

theorem descriptor_pool_invariant_four :
    ∃ pool, PoolRun 4 pool [(0, 3)] ∧ PoolOk 4 pool [(0, 3)] ∧
      pool.allocateChain 2 = some (.error (), pool) := by
  obtain ⟨start, created⟩ : ∃ pool, FreelistDescPool.new 4 = some pool := ⟨_, rfl⟩
  have begun := PoolRun.new created
  obtain ⟨_, _, accepts, _⟩ :=
    descriptor_pool_invariant 4 (by decide) (by decide) start [] begun
  obtain rfl := Option.some.inj created
  obtain ⟨pool, done⟩ := accepts 3 (show ¬((3 : UInt16) = 0 ∨ (4 : UInt16) < 3) by decide)
  have run := PoolRun.allocate 3 begun done
  obtain ⟨ok, refuses, _⟩ := descriptor_pool_invariant 4 (by decide) (by decide) pool _ run
  have left : pool.numFree.toNat = 1 := by
    have total := ok.total
    change pool.numFree.toNat + 3 = 4 at total
    omega
  refine ⟨pool, run, ok, refuses 2 (Or.inr ?_)⟩
  rw [UInt16.lt_iff_toNat_lt, left]
  decide

end FreelistDescPool

end NyauxKernel.Virtio
