/-
Vectors of `u64`s, with the storage that they have from the global allocator.

A full vector asks for twice its capacity, moves its entries and gives the old storage back.
Storage of more than 1024 bytes is a region, in the list that the kernel's windows are in too.
-/

import NyauxKernel.Memory.RegionRuns

namespace NyauxKernel.Memory

open ExceptFold

/-- A `Vec<u64>`.  The entries are kept beside the storage, whose words nobody else uses. -/
structure VecU64 where
  ptr : Nat
  capacity : Nat
  entries : List Nat
  room : entries.length ≤ capacity

namespace VecU64

/-- Without storage; the pointer dangles. -/
def new : VecU64 := ⟨8, 0, [], Nat.le_refl 0⟩

def size (vec : VecU64) : Nat := 8 * vec.capacity

def drop (hhdm : Nat) (vec : VecU64) (m : Machine) : Except Halt Machine :=
  if vec.capacity = 0 then .ok m else NAlloc.dealloc hhdm vec.ptr vec.size m

/-- The capacity after the next growth. -/
def grown (vec : VecU64) : Nat := max 4 (2 * vec.capacity)

theorem push_room (vec : VecU64) (entry : Nat) (left : vec.entries.length < vec.capacity) :
    (vec.entries ++ [entry]).length ≤ vec.capacity := by
  rw [List.length_append, List.length_singleton]
  exact left

theorem grown_room (vec : VecU64) (entry : Nat) : (vec.entries ++ [entry]).length ≤ vec.grown := by
  have room := vec.room
  rw [List.length_append, List.length_singleton, grown]
  omega

def push (hhdm : Nat) (vec : VecU64) (entry : Nat) (m : Machine) :
    Except Halt (VecU64 × Machine) :=
  if left : vec.entries.length < vec.capacity then
    .ok (⟨vec.ptr, vec.capacity, vec.entries ++ [entry], vec.push_room entry left⟩, m)
  else do
    let (ptr, m) ← NAlloc.alloc hhdm (8 * vec.grown) m
    let m ← vec.drop hhdm m
    .ok (⟨ptr, vec.grown, vec.entries ++ [entry], vec.grown_room entry⟩, m)

/-- A new vector that the entries are pushed to one after the other. -/
def collect (hhdm : Nat) (entries : List Nat) (m : Machine) : Except Halt (VecU64 × Machine) :=
  entries.foldlM (fun state entry => state.1.push hhdm entry state.2) (new, m)

end VecU64

/-- The frames are collected in a vector, which `vmm_alloc_with_phys` takes over and drops when
it is done with them. -/
def mapFrames (hhdm len : Nat) (flags : VMMFlags) (frames : List Nat) (m : Machine) :
    Except Halt (Nat × Machine) := do
  let (p, m) ← VecU64.collect hhdm frames m
  match m.kermap with
  | none => .error unwrapNone
  | some pagemap =>
      let (virt, m) ← vmmAllocWithPhys hhdm pagemap len flags p.entries m
      let m ← p.drop hhdm m
      .ok (virt, m)

/-! ### Regions, allocations and objects up to their order -/

variable {ram : Ram} {pagemap : Pagemap} {v : View} {m : Machine} {regions : List Region}
  {devices : List Nat} {vec : VecU64}

theorem Kernel.perm {blocks blocks' : List (Nat × Nat)}
    (kernel : Kernel ram pagemap v m regions blocks devices) (same : blocks'.Perm blocks) :
    Kernel ram pagemap v m regions blocks' devices where
  store := kernel.store
  records :=
    { listed := kernel.records.listed
      nodes := kernel.records.nodes
      blockLive := fun block member => kernel.records.blockLive block (same.mem_iff.mp member)
      distinct := ((same.map Prod.fst).append_left _).nodup_iff.mpr kernel.records.distinct }
  layout := kernel.layout
  content := kernel.content
  kermap := kernel.kermap

theorem Space.perm {boot : Boot} {live live' : List Allocation} {blocks blocks' : List (Nat × Nat)}
    (space : Space boot ram pagemap v m regions live blocks devices) (sameLive : live'.Perm live)
    (sameBlocks : blocks'.Perm blocks) :
    Space boot ram pagemap v m regions live' blocks' devices where
  kernel := space.kernel.perm sameBlocks
  positive := space.positive
  shape := by
    obtain ⟨direct, node, middle, made, split, perm, each⟩ := space.shape
    obtain ⟨made', each', perm'⟩ := List.perm_comp_forall₂ sameLive each
    exact ⟨direct, node, middle, made', split, perm.trans perm'.symm, each'⟩

/-- The page map, with its lists in any order. -/
def Arranged (boot : Boot) (ram : Ram) (pagemap : Pagemap) (m : Machine) (regions : List Region)
    (live : List Allocation) (blocks : List (Nat × Nat)) (devices : List Nat) : Prop :=
  ∃ v regions', Space boot ram pagemap v m regions' live blocks devices ∧ regions'.Perm regions

namespace Arranged

variable {boot : Boot} {m' : Machine} {regions' : List Region} {live live' : List Allocation}
  {blocks blocks' : List (Nat × Nat)}

theorem kermap (arranged : Arranged boot ram pagemap m regions live blocks devices) :
    m.kermap = some pagemap := by
  obtain ⟨_, _, space, _⟩ := arranged
  exact space.kernel.kermap

theorem perm (arranged : Arranged boot ram pagemap m regions live blocks devices)
    (sameRegions : regions'.Perm regions) (sameLive : live'.Perm live)
    (sameBlocks : blocks'.Perm blocks) :
    Arranged boot ram pagemap m regions' live' blocks' devices := by
  obtain ⟨v, listed, space, order⟩ := arranged
  exact ⟨v, listed, space.perm sameLive sameBlocks, order.trans sameRegions.symm⟩

theorem call (arranged : Arranged boot ram pagemap m regions live blocks devices)
    (call : RegionCall) (sized : Sized call.amount) {base : Nat}
    (done : call.run ram.hhdm pagemap m = .ok (base, m')) (supplied : Supplied m') :
    ∃ new, Makes (allocated ram.hhdm pagemap m' call base) new ∧
      Arranged boot ram pagemap m' (new :: regions)
        (allocated ram.hhdm pagemap m' call base :: live) blocks devices := by
  obtain ⟨v, listed, space, order⟩ := arranged
  obtain ⟨v', listed', after, _, ⟨new, makes, placed⟩, _⟩ := space.call call sized done supplied
  exact ⟨new, makes, v', listed', after, placed.perm.trans (order.cons new)⟩

/-- The region at the base of an allocation is the one that is taken out. -/
theorem dealloc {region : Region} {allocation : Allocation} {amount : Nat} {flags : VMMFlags}
    (arranged : Arranged boot ram pagemap m (region :: regions) (allocation :: live) blocks
      devices)
    (own : allocation.call = .vmmAlloc amount flags) (base : region.base = allocation.base) :
    ∃ m', vmmDealloc ram.hhdm pagemap allocation.base false m = .ok (pagemap, m') ∧
      Arranged boot ram pagemap m' regions live blocks devices := by
  obtain ⟨v, listed, space, order⟩ := arranged
  obtain ⟨v', m', front, out, back, done, split, outBase, after, _⟩ :=
    space.deallocOwn List.mem_cons_self own
  rw [List.erase_cons_head] at after
  have distinct : (listed.map Region.base).Nodup :=
    List.pairwise_map.mpr (space.increasing.imp Nat.ne_of_lt)
  have same : out = region := by
    apply List.inj_on_of_nodup_map distinct
    · exact split ▸ List.mem_append_right _ List.mem_cons_self
    · exact order.mem_iff.mpr List.mem_cons_self
    · exact outBase.trans base.symm
  rw [split, same] at order
  exact ⟨m', done, v', front ++ back, after, (List.perm_middle.symm.trans order).cons_inv⟩

theorem alloc (arranged : Arranged boot ram pagemap m regions live blocks devices)
    {size ptr : Nat} (small : size ≤ 1024)
    (done : NAlloc.alloc ram.hhdm size m = .ok (ptr, m')) (supplied : Supplied m') :
    Arranged boot ram pagemap m' regions live ((ptr, size) :: blocks) devices := by
  obtain ⟨v, listed, space, order⟩ := arranged
  obtain ⟨v', after⟩ := space.alloc small done supplied
  exact ⟨v', listed, after, order⟩

theorem free {object : Nat × Nat}
    (arranged : Arranged boot ram pagemap m regions live (object :: blocks) devices) :
    Arranged boot ram pagemap (slabDealloc object.1 m) regions live blocks devices := by
  obtain ⟨v, listed, space, order⟩ := arranged
  obtain ⟨v', after⟩ := space.free List.mem_cons_self
  rw [List.erase_cons_head] at after
  exact ⟨v', listed, after, order⟩

end Arranged

/-! ### Storage -/

/-- What storage at `ptr` adds to the regions, the allocations and the objects. -/
inductive Storage (ptr : Nat) :
    Nat → List Region → List Allocation → List (Nat × Nat) → Prop
  | none : Storage ptr 0 [] [] []
  | object {size : Nat} (some : size ≠ 0) (small : size ≤ 1024) :
      Storage ptr size [] [] [(ptr, size)]
  | region {size : Nat} {region : Region} {allocation : Allocation} (large : 1024 < size)
      (own : allocation.call = .vmmAlloc size writeFlags) (base : region.base = allocation.base)
      (atPtr : allocation.base = ptr) : Storage ptr size [region] [allocation] []

section Storage

variable {boot : Boot} {m' : Machine} {live : List Allocation} {blocks : List (Nat × Nat)}

/-- The page map with the storage of a vector next to what was there. -/
def Stores (boot : Boot) (ram : Ram) (pagemap : Pagemap) (m : Machine) (regions : List Region)
    (live : List Allocation) (blocks : List (Nat × Nat)) (devices : List Nat)
    (vec : VecU64) : Prop :=
  ∃ extraRegions extraLive extraBlocks,
    Storage vec.ptr vec.size extraRegions extraLive extraBlocks ∧
    Arranged boot ram pagemap m (extraRegions ++ regions) (extraLive ++ live)
      (extraBlocks ++ blocks) devices

variable {entry hhdm ptr size : Nat} {vec' : VecU64}

theorem Arranged.nalloc (arranged : Arranged boot ram pagemap m regions live blocks devices)
    (sized : Sized size) (done : NAlloc.alloc ram.hhdm size m = .ok (ptr, m'))
    (supplied : Supplied m') :
    ∃ extraRegions extraLive extraBlocks,
      Storage ptr size extraRegions extraLive extraBlocks ∧
      Arranged boot ram pagemap m' (extraRegions ++ regions) (extraLive ++ live)
        (extraBlocks ++ blocks) devices := by
  by_cases small : size ≤ 1024
  · exact ⟨_, _, _, .object (Nat.pos_iff_ne_zero.mp sized.1) small,
      arranged.alloc small done supplied⟩
  · rw [NAlloc.alloc, if_neg small, arranged.kermap] at done
    obtain ⟨new, makes, after⟩ :=
      arranged.call (.vmmAlloc size writeFlags) sized done supplied
    exact ⟨_, _, _, .region (Nat.lt_of_not_le small) rfl makes.base rfl, after⟩

/-- Storage that is given back is gone, and nothing else. -/
theorem Arranged.ndealloc {extraRegions : List Region} {extraLive : List Allocation}
    {extraBlocks : List (Nat × Nat)} (storage : Storage ptr size extraRegions extraLive extraBlocks)
    (arranged : Arranged boot ram pagemap m (extraRegions ++ regions) (extraLive ++ live)
      (extraBlocks ++ blocks) devices) (some : size ≠ 0)
    (done : NAlloc.dealloc ram.hhdm ptr size m = .ok m') :
    Arranged boot ram pagemap m' regions live blocks devices := by
  cases storage with
  | none => contradiction
  | object _ small =>
      rw [NAlloc.dealloc, if_pos small] at done
      exact Except.ok.inj done ▸ arranged.free
  | region large own base atPtr =>
      obtain ⟨t, dealloc, after⟩ := arranged.dealloc own base
      rw [NAlloc.dealloc, if_neg (Nat.not_le_of_lt large), arranged.kermap, ← atPtr] at done
      obtain ⟨_, deallocated, rest⟩ := ok_of_bind done
      obtain rfl := Except.ok.inj (deallocated.symm.trans dealloc)
      obtain rfl := Except.ok.inj rest
      rw [kermap_eta after.kermap]
      exact after

theorem Stores.drop (stores : Stores boot ram pagemap m regions live blocks devices vec)
    (done : vec.drop ram.hhdm m = .ok m') :
    Arranged boot ram pagemap m' regions live blocks devices := by
  obtain ⟨extraRegions, extraLive, extraBlocks, storage, arranged⟩ := stores
  rw [VecU64.drop] at done
  split at done
  case isTrue empty =>
    have nothing : vec.size = 0 := by rw [VecU64.size, empty]
    rw [nothing] at storage
    obtain rfl := Except.ok.inj done
    cases storage with
    | none => exact arranged
    | object some => contradiction
    | region large => exact absurd large (Nat.not_lt_zero _)
  case isFalse full =>
    exact arranged.ndealloc storage (by unfold VecU64.size; omega) done

theorem Stores.new (arranged : Arranged boot ram pagemap m regions live blocks devices) :
    Stores boot ram pagemap m regions live blocks devices VecU64.new :=
  ⟨[], [], [], .none, arranged⟩

theorem VecU64.drop_grows (done : vec.drop hhdm m = .ok m') : Grows m m' := by
  rw [VecU64.drop] at done
  split at done
  · exact Except.ok.inj done ▸ Grows.refl _
  · exact NAlloc.dealloc_grows done

theorem VecU64.push_grows (done : vec.push hhdm entry m = .ok (vec', m')) : Grows m m' := by
  rw [VecU64.push] at done
  split at done
  · obtain ⟨_, rfl⟩ := Prod.mk.inj (Except.ok.inj done)
    exact Grows.refl _
  · obtain ⟨⟨ptr, t⟩, allocated, rest⟩ := ok_of_bind done
    obtain ⟨t', dropped, last⟩ := ok_of_bind rest
    obtain ⟨_, rfl⟩ := Prod.mk.inj (Except.ok.inj last)
    exact (NAlloc.alloc_allocates allocated).grows.trans (drop_grows dropped)

theorem VecU64.pushAll_grows (items : List Nat)
    (done : items.foldlM (fun state entry => state.1.push hhdm entry state.2) (vec, m) =
      .ok (vec', m')) : Grows m m' :=
  rel_of_foldlM (fun (s s' : VecU64 × Machine) => Grows s.2 s'.2) (fun s => Grows.refl s.2)
    Grows.trans (fun turned => push_grows turned) items done

theorem mapFrames_grows {len : Nat} {flags : VMMFlags} {frames : List Nat}
    (done : mapFrames hhdm len flags frames m = .ok (ptr, m')) : Grows m m' := by
  obtain ⟨⟨vec, t⟩, collected, rest⟩ := ok_of_bind done
  dsimp only at rest
  split at rest
  · contradiction
  · obtain ⟨⟨virt, t'⟩, mapped, rest'⟩ := ok_of_bind rest
    obtain ⟨m'', dropped, last⟩ := ok_of_bind rest'
    cases last
    have mapping : Allocates t t' :=
      RegionCall.run_allocates (.vmmAllocWithPhys len flags vec.entries) mapped
    exact (VecU64.pushAll_grows frames collected).trans
      (mapping.grows.trans (VecU64.drop_grows dropped))

/-- A push keeps what is in use beside the vector, also when the storage is exchanged. -/
theorem Stores.push (stores : Stores boot ram pagemap m regions live blocks devices vec)
    (few : vec.entries.length < 2 ^ 52) (done : vec.push ram.hhdm entry m = .ok (vec', m'))
    (supplied : Supplied m') :
    Stores boot ram pagemap m' regions live blocks devices vec' ∧
      vec'.entries = vec.entries ++ [entry] := by
  have room := vec.room
  rw [VecU64.push] at done
  split at done
  case isTrue left =>
    obtain ⟨rfl, rfl⟩ := Prod.mk.inj (Except.ok.inj done)
    exact ⟨stores, rfl⟩
  case isFalse full =>
    obtain ⟨⟨ptr, t⟩, allocated, rest⟩ := ok_of_bind done
    obtain ⟨t', dropped, last⟩ := ok_of_bind rest
    obtain ⟨rfl, rfl⟩ := Prod.mk.inj (Except.ok.inj last)
    obtain ⟨oldRegions, oldLive, oldBlocks, storage, arranged⟩ := stores
    have sized : Sized (8 * vec.grown) := by
      unfold Sized VecU64.grown addressSpace
      omega
    obtain ⟨newRegions, newLive, newBlocks, newStorage, both⟩ :=
      arranged.nalloc sized allocated (supplied.before (VecU64.drop_grows dropped))
    have swapped := both.perm (List.perm_append_comm_assoc oldRegions newRegions regions)
      (List.perm_append_comm_assoc oldLive newLive live)
      (List.perm_append_comm_assoc oldBlocks newBlocks blocks)
    exact ⟨⟨newRegions, newLive, newBlocks, newStorage,
      Stores.drop ⟨oldRegions, oldLive, oldBlocks, storage, swapped⟩ dropped⟩, rfl⟩

/-- The same for one push after the other. -/
theorem Stores.pushAll (items : List Nat)
    (stores : Stores boot ram pagemap m regions live blocks devices vec)
    (few : vec.entries.length + items.length ≤ 2 ^ 52)
    (done : items.foldlM (fun state entry => state.1.push ram.hhdm entry state.2) (vec, m) =
      .ok (vec', m')) (supplied : Supplied m') :
    Stores boot ram pagemap m' regions live blocks devices vec' ∧
      vec'.entries = vec.entries ++ items := by
  induction items generalizing vec m with
  | nil =>
      obtain ⟨rfl, rfl⟩ := Prod.mk.inj (Except.ok.inj done)
      exact ⟨stores, (List.append_nil _).symm⟩
  | cons entry items inductionHypothesis =>
      obtain ⟨⟨mid, t⟩, first, rest⟩ := foldlM_cons_ok done
      rw [List.length_cons] at few
      obtain ⟨after, same⟩ :=
        stores.push (by omega) first (supplied.before (VecU64.pushAll_grows items rest))
      obtain ⟨last, all⟩ := inductionHypothesis after (by
        rw [same, List.length_append, List.length_singleton]
        omega) rest
      refine ⟨last, ?_⟩
      rw [all, same, List.append_assoc]
      rfl

theorem Arranged.collect (arranged : Arranged boot ram pagemap m regions live blocks devices)
    {items : List Nat} (few : items.length ≤ 2 ^ 52)
    (done : VecU64.collect ram.hhdm items m = .ok (vec, m')) (supplied : Supplied m') :
    Stores boot ram pagemap m' regions live blocks devices vec ∧ vec.entries = items :=
  (Stores.new arranged).pushAll items (by simpa [VecU64.new] using few) done supplied

end Storage

/-! ### Small vectors -/

/-- The objects of a vector whose storage is in the slabs. -/
def VecU64.objects (vec : VecU64) : List (Nat × Nat) :=
  if vec.capacity = 0 then [] else [(vec.ptr, vec.size)]

/-- The capacities up to 1024 bytes. -/
def VecU64.Small (vec : VecU64) : Prop := vec.capacity ∈ [0, 4, 8, 16, 32, 64, 128]

theorem VecU64.Small.size (small : vec.Small) : vec.size ≤ 1024 := by
  have bound : ∀ capacity ∈ [0, 4, 8, 16, 32, 64, 128], 8 * capacity ≤ 1024 := by decide
  exact bound vec.capacity small

theorem VecU64.Small.grown (small : vec.Small) (less : vec.capacity < 128) :
    vec.grown ∈ [4, 8, 16, 32, 64, 128] := by
  have next : ∀ capacity ∈ [0, 4, 8, 16, 32, 64, 128], capacity < 128 →
      max 4 (2 * capacity) ∈ [4, 8, 16, 32, 64, 128] := by decide
  exact next vec.capacity small less

section Runs

variable {blocks : List (Nat × Nat)}

theorem Kernel.drop_small
    (kernel : Kernel ram pagemap v m regions (vec.objects ++ blocks) devices)
    (small : vec.Small) (supplied : Supplied m) :
    ∃ v' m', vec.drop ram.hhdm m = .ok m' ∧ Supplied m' ∧ v'.free = v.free ∧
      Kernel ram pagemap v' m' regions blocks devices := by
  unfold VecU64.objects at kernel
  rw [VecU64.drop]
  split at kernel
  case isTrue empty =>
    rw [if_pos empty]
    exact ⟨v, m, rfl, supplied, rfl, kernel⟩
  case isFalse full =>
    rw [if_neg full, NAlloc.dealloc, if_pos small.size]
    obtain ⟨v', after, free⟩ := kernel.slabDealloc List.mem_cons_self
    rw [List.cons_append, List.nil_append, List.erase_cons_head] at after
    refine ⟨v', _, rfl, ?_, free, after⟩
    rw [Supplied, slabDealloc_calls]
    exact supplied

/-- A vector of less than 128 entries can be pushed to when there is a page left. -/
theorem Kernel.push_runs
    (kernel : Kernel ram pagemap v m regions (vec.objects ++ blocks) devices)
    (small : vec.Small) (few : vec.entries.length < 128) (left : v.free ≠ [])
    (supplied : Supplied m) (entry : Nat) :
    ∃ vec' v' m', vec.push ram.hhdm entry m = .ok (vec', m') ∧ Supplied m' ∧
      v.free.length ≤ v'.free.length + 1 ∧ vec'.Small ∧ vec'.entries = vec.entries ++ [entry] ∧
      Kernel ram pagemap v' m' regions (vec'.objects ++ blocks) devices := by
  have room := vec.room
  rw [VecU64.push]
  split
  case isTrue => exact ⟨_, v, m, rfl, supplied, Nat.le_succ _, small, rfl, kernel⟩
  case isFalse full =>
    have grown := small.grown (by omega)
    have fits : ∀ capacity ∈ [4, 8, 16, 32, 64, 128], 8 * capacity ≤ 1024 ∧ capacity ≠ 0 := by
      decide
    obtain ⟨inSlab, some⟩ := fits vec.grown grown
    obtain ⟨object, v', t, allocated, taken⟩ := kernel.store.toPool.slabAlloc_runs inSlab left
    obtain ⟨pages, atMost, split, took, _⟩ := taken.took
    have nonzero : 0 ∉ pages := fun zero =>
      kernel.store.toPool.free_ne_zero (split ▸ List.mem_append_left _ zero)
    -- The old storage is behind the new one, so that it can be given back from the front.
    have both := kernel.addBlock taken
    have swapped : Kernel ram pagemap v' t regions
        (vec.objects ++ (object, 8 * vec.grown) :: blocks) devices :=
      both.perm List.perm_middle
    obtain ⟨v'', m', dropped, suppliedAfter, free, after⟩ :=
      swapped.drop_small small (took.supplied supplied nonzero)
    have done : NAlloc.alloc ram.hhdm (8 * vec.grown) m = .ok (object, t) := by
      rw [NAlloc.alloc, if_pos inSlab, allocated]
      rfl
    refine ⟨⟨object, vec.grown, vec.entries ++ [entry], vec.grown_room entry⟩, v'', m', ?_,
      suppliedAfter, ?_, List.mem_cons_of_mem 0 grown, rfl, ?_⟩
    · simp only [done, dropped, bind, Except.bind]
    · rw [free, split, List.length_append]
      omega
    · rw [VecU64.objects, if_neg some]
      exact after

theorem Kernel.pushAll_runs (items : List Nat)
    (kernel : Kernel ram pagemap v m regions (vec.objects ++ blocks) devices)
    (small : vec.Small) (few : vec.entries.length + items.length ≤ 128)
    (enough : items.length ≤ v.free.length) (supplied : Supplied m) :
    ∃ vec' v' m', items.foldlM (fun state entry => state.1.push ram.hhdm entry state.2) (vec, m) =
        .ok (vec', m') ∧ Supplied m' ∧ v.free.length ≤ v'.free.length + items.length ∧
      vec'.Small ∧ vec'.entries = vec.entries ++ items ∧
      Kernel ram pagemap v' m' regions (vec'.objects ++ blocks) devices := by
  induction items generalizing vec v m with
  | nil => exact ⟨vec, v, m, rfl, supplied, Nat.le_refl _, small, (List.append_nil _).symm, kernel⟩
  | cons entry items inductionHypothesis =>
      rw [List.length_cons] at few enough
      obtain ⟨mid, v', t, first, suppliedMid, left, smallMid, same, after⟩ :=
        kernel.push_runs small (by omega) (List.ne_nil_of_length_pos (by omega)) supplied entry
      obtain ⟨vec', v'', m', rest, suppliedAfter, left', small', all, last⟩ :=
        inductionHypothesis after smallMid (by
          rw [same, List.length_append, List.length_singleton]
          omega) (by omega) suppliedMid
      refine ⟨vec', v'', m', ?_, suppliedAfter, ?_, small', ?_, last⟩
      · rw [foldlM_cons_eq first]
        exact rest
      · rw [List.length_cons]
        omega
      · rw [all, same, List.append_assoc]
        rfl

/-- A page for each entry is enough to collect 128 of them. -/
theorem Kernel.collect_runs (kernel : Kernel ram pagemap v m regions blocks devices)
    {items : List Nat} (few : items.length ≤ 128) (enough : items.length ≤ v.free.length)
    (supplied : Supplied m) :
    ∃ vec v' m', VecU64.collect ram.hhdm items m = .ok (vec, m') ∧ Supplied m' ∧
      v.free.length ≤ v'.free.length + items.length ∧ vec.Small ∧ vec.entries = items ∧
      Kernel ram pagemap v' m' regions (vec.objects ++ blocks) devices :=
  kernel.pushAll_runs items List.mem_cons_self (by simpa [VecU64.new] using few) enough supplied

end Runs

end NyauxKernel.Memory
