/-
Whose frames the virtual memory manager gives back.

Regions with frames of their own give back exactly these.  Nothing in a region's
record says that its frames were the caller's, and `vmm_dealloc` gives those to the
page allocator as well.
-/

import NyauxKernel.Memory.RegionRuns

namespace NyauxKernel.Memory

/-- Regions with frames of their own and regions with frames of the caller, given back in
any order. -/
def frameTerms : Terms where
  call := fun call => ∀ amount flags, call ≠ .vmmAllocWithoutBacking amount flags
  release := fun _ _ => True
  apart := fun _ _ _ _ => True

/-- The amounts do not wrap, only regions with frames of their own are given back, and devices
are clear of the regions. -/
def ownTerms : Terms where
  call := fun call => 0 < call.amount ∧ call.amount + (2 * pageSize - 1) < addressSpace ∧
    ∀ amount flags, call ≠ .vmmAllocWithoutBacking amount flags
  release := fun _ call => ∃ amount flags, call = .vmmAlloc amount flags
  apart := Clear

theorem ownTerms_unclaimed (boot : Boot) (lent : List Nat) (call : RegionCall)
    (own : ownTerms.release lent call) : Unclaimed boot lent call.given := by
  obtain ⟨amount, flags, rfl⟩ := own
  exact
    { distinct := List.nodup_nil
      spare := fun _ member => absurd member List.not_mem_nil
      unmanaged := fun _ member => absurd member List.not_mem_nil }

variable {boot : Boot} {m : Machine} {ram : Ram} {pagemap : Pagemap} {v : View}
  {regions : List Region} {allocation : Allocation} {amount : Nat} {flags : VMMFlags}

/-- The boot sequence gives nothing back. -/
theorem Booted.unreleased (good : GoodBoot boot) (booted : Booted boot m) (pointer : Nat) :
    .released pointer ∉ m.pmmCalls := by
  obtain ⟨start, ready, bare, pmmDone, vmmDone⟩ := booted
  have calls : (initFreelist boot.hhdm boot.entries start).pmmCalls = start.pmmCalls :=
    (initFreelist_chain good.map bare.fresh).2
  have slabs := initSlabFrom_allocates slabSizes 0 pmmDone
  intro member
  have early := slabs.released ((vmmInit_allocates vmmDone).released member)
  rw [calls, bare.uncalled] at early
  exact absurd early List.not_mem_nil

/-- The frames of a live allocation that are its own are managed. -/
theorem Space.own_frames {live : List Allocation} {blocks : List (Nat × Nat)} {devices : List Nat}
    (space : Space boot ram pagemap v m regions live blocks devices) (member : allocation ∈ live)
    (own : allocation.call = .vmmAlloc amount flags) :
    ∀ frame ∈ allocation.frames, frame ∈ ram.frames := by
  obtain ⟨region, inRegions, makes, _⟩ := space.region_of_allocation member
  have backing := makes.backing
  rw [own] at backing
  intro frame inFrames
  have backs := space.kernel.content.backed region inRegions _ _ backing
  obtain ⟨virt, _, owned, _⟩ := exists_left_of_forall₂ backs inFrames
  exact space.kernel.store.managed frame (by rw [owned]; simp)

/-- `vmm_dealloc` of an allocation with frames of its own gives back exactly these. -/
theorem VmmState.dealloc_own {uses : Uses} (state : VmmState boot ram pagemap v m regions uses)
    (member : allocation ∈ uses.live) (own : allocation.call = .vmmAlloc amount flags) :
    ∃ m', vmmDealloc boot.hhdm pagemap allocation.base false m = .ok (pagemap, m') ∧
      m'.pmmCalls =
        m.pmmCalls ++ allocation.frames.map fun frame => .released (frame + boot.hhdm) := by
  obtain ⟨_, m', _, _, _, done, _, _, _, calls⟩ := state.space.deallocOwn member own
  rw [state.offset] at done calls
  refine ⟨m', done, ?_⟩
  rw [calls, List.map_map]
  rfl

namespace VmmRun

variable {uses : Uses}

theorem own_lent (run : VmmRun boot ownTerms m uses) : uses.lent = [] := by
  induction run with
  | boot _ => rfl
  | call _ _ _ _ _ _ inductionHypothesis => exact inductionHypothesis
  | dealloc _ _ _ allowed _ inductionHypothesis =>
      obtain ⟨amount, flags, same⟩ := allowed
      rw [same]
      exact inductionHypothesis
  | alloc _ _ _ _ inductionHypothesis => exact inductionHypothesis
  | free _ _ _ inductionHypothesis => exact inductionHypothesis
  | use _ _ _ inductionHypothesis => exact inductionHypothesis
  | device _ _ _ _ _ inductionHypothesis => exact inductionHypothesis

/-- Along a run only usable frames are managed. -/
theorem own_inv (good : GoodBoot boot) (run : VmmRun boot ownTerms m uses)
    (supplied : Supplied m) :
    ∃ ram pagemap v regions, VmmState boot ram pagemap v m regions uses ∧
      ∀ frame ∈ ram.frames, frame ∈ usableFrames boot := by
  obtain ⟨ram, pagemap, v, regions, state⟩ := run.inv good
    (fun call (sized : ownTerms.call call) => ⟨sized.1, sized.2.1⟩) (ownTerms_unclaimed boot) rfl
    supplied
  refine ⟨ram, pagemap, v, regions, state, ?_⟩
  intro frame member
  have managed := state.managed frame member
  rw [run.own_lent] at managed
  exact managed.resolve_right List.not_mem_nil

/-- The pointers that were given to `deallocate_page`. -/
theorem own_released (good : GoodBoot boot) (run : VmmRun boot ownTerms m uses)
    (supplied : Supplied m) :
    ∀ pointer, .released pointer ∈ m.pmmCalls →
      ∃ frame ∈ usableFrames boot, pointer = frame + boot.hhdm := by
  induction run with
  | boot booted => exact fun pointer member => absurd member (booted.unreleased good pointer)
  | call call before kermap allowed apart done inductionHypothesis =>
      have allocates := call.run_allocates done
      intro pointer member
      exact inductionHypothesis (supplied.before allocates.grows) pointer (allocates.released member)
  | @dealloc m m' uses pagemap pagemap' allocation before kermap member allowed done
      inductionHypothesis =>
      have grows : Grows m m' := vmmDealloc_grows done
      have suppliedBefore : Supplied m := Supplied.before supplied grows
      obtain ⟨ram, pagemap, v, regions, state, managed⟩ := before.own_inv good suppliedBefore
      obtain rfl := Option.some.inj (state.space.kernel.kermap.symm.trans kermap)
      obtain ⟨amount, flags, own⟩ := allowed
      obtain ⟨t, dealloc, calls⟩ := state.dealloc_own member own
      obtain ⟨_, rfl⟩ := Prod.mk.inj (Except.ok.inj (done.symm.trans dealloc))
      intro pointer inCalls
      change .released pointer ∈ m'.pmmCalls at inCalls
      rw [calls] at inCalls
      rcases List.mem_append.mp inCalls with old | new
      · exact inductionHypothesis suppliedBefore pointer old
      · obtain ⟨frame, inFrames, same⟩ := List.mem_map.mp new
        exact ⟨frame, managed frame (state.space.own_frames member own frame inFrames),
          (PmmCall.released.inj same).symm⟩
  | alloc size before small done inductionHypothesis =>
      have allocates := NAlloc.alloc_allocates done
      intro pointer member
      exact inductionHypothesis (supplied.before allocates.grows) pointer (allocates.released member)
  | free before member done inductionHypothesis =>
      have suppliedBefore := supplied.before (NAlloc.dealloc_grows done)
      obtain ⟨ram, pagemap, v, regions, state, _⟩ := before.own_inv good suppliedBefore
      obtain ⟨size, found, _⟩ := state.space.kernel.records.blockLive _ member
      rw [NAlloc.dealloc, if_pos (slabClass_small found)] at done
      obtain rfl := Except.ok.inj done
      intro pointer inCalls
      rw [slabDealloc_calls] at inCalls
      exact inductionHypothesis suppliedBefore pointer inCalls
  | use memory before own inductionHypothesis => exact inductionHypothesis supplied
  | device device before kermap apart done inductionHypothesis =>
      have allocates := Device.new_allocates done
      intro pointer member
      exact inductionHypothesis (supplied.before allocates.grows) pointer (allocates.released member)

end VmmRun

/-- Frame ownership.  In every state of a run that gives back only regions with frames of
their own, with amounts that do not wrap and without a page asked for on an empty free
list: the free list and all pointers ever given to `deallocate_page` are usable frames;
`vmm_alloc` maps each page to a frame that it took in the call; and `vmm_dealloc` of such
an allocation gives `deallocate_page` exactly the frames that it was mapped to then. -/
theorem vmm_frame_ownership (boot : Boot) (good : GoodBoot boot) (m : Machine) (uses : Uses)
    (run : VmmRun boot ownTerms m uses) (supplied : Supplied m) :
    ∃ pagemap, m.kermap = some pagemap ∧
      (∃ head frames, m.freelist = some head ∧ FreeChain boot.hhdm m.memory head frames ∧
        ∀ frame ∈ frames, frame ∈ usableFrames boot) ∧
      (∀ pointer, .released pointer ∈ m.pmmCalls →
        ∃ frame ∈ usableFrames boot, pointer = frame + boot.hhdm) ∧
      (∀ amount flags base m', 0 < amount → amount + (2 * pageSize - 1) < addressSpace →
        vmmAlloc boot.hhdm pagemap amount flags m = .ok (base, m') → Supplied m' →
        (allocated boot.hhdm pagemap m' (.vmmAlloc amount flags) base).frames ⊆ takenFrames m m' ∧
        (allocated boot.hhdm pagemap m' (.vmmAlloc amount flags) base).frames.length =
          alignUp amount pageSize / pageSize) ∧
      ∀ allocation ∈ uses.live, ∀ amount flags, allocation.call = .vmmAlloc amount flags →
        ∃ m', vmmDealloc boot.hhdm pagemap allocation.base false m = .ok (pagemap, m') ∧
          m'.pmmCalls =
            m.pmmCalls ++ allocation.frames.map fun frame => .released (frame + boot.hhdm) := by
  obtain ⟨ram, pagemap, v, regions, state, managed⟩ := run.own_inv good supplied
  have space := state.space
  have offset := state.offset
  refine ⟨pagemap, space.kernel.kermap, ?_, run.own_released good supplied, ?_, ?_⟩
  · obtain ⟨head, atHead, chain⟩ := space.kernel.store.chain
    rw [offset] at chain
    refine ⟨head, v.free, atHead, chain, ?_⟩
    intro frame member
    apply managed
    apply space.kernel.store.managed
    rw [space.kernel.store.freeOwned frame member]
    decide
  · intro amount flags base m' real small done suppliedAfter
    rw [← offset] at done ⊢
    obtain ⟨_, _, _, _, _, taken, took, own⟩ :=
      space.call (.vmmAlloc amount flags) ⟨real, small⟩ done suppliedAfter
    rw [took.takenFrames]
    exact own amount flags rfl
  · exact fun allocation member amount flags own => state.dealloc_own member own

theorem vmm_frame_ownership_small_boot :
    ∃ m allocation pagemap m', VmmRun smallBoot ownTerms m { live := [allocation] } ∧
      Supplied m ∧ allocation.frames.length = 1 ∧
      vmmDealloc smallBoot.hhdm pagemap allocation.base false m = .ok (pagemap, m') ∧
      m'.pmmCalls =
        m.pmmCalls ++ allocation.frames.map fun frame => .released (frame + smallBoot.hhdm) := by
  rcases smallBoot_allocates with
    ⟨m, pagemap, base, m', booted, supplied, kermap, done, suppliedAfter⟩
  have start : VmmRun smallBoot ownTerms m {} := VmmRun.boot booted
  have run : VmmRun smallBoot ownTerms m' _ :=
    VmmRun.call (.vmmAlloc 4096 writeFlags) start kermap ⟨by decide, by decide, by simp⟩
      (fun _ isDevice => absurd isDevice List.not_mem_nil) done
  obtain ⟨pagemap', kermap', _, _, taken, _⟩ :=
    vmm_frame_ownership smallBoot smallBoot_good m _ start supplied
  obtain rfl := Option.some.inj (kermap.symm.trans kermap')
  have count := (taken 4096 writeFlags base m' (by decide) (by decide) done suppliedAfter).2
  obtain ⟨pagemap', _, _, _, _, exactly⟩ :=
    vmm_frame_ownership smallBoot smallBoot_good m' _ run suppliedAfter
  obtain ⟨after, dealloc, calls⟩ := exactly _ List.mem_cons_self 4096 writeFlags rfl
  exact ⟨m', _, pagemap', after, run, suppliedAfter, count.trans (by decide), dealloc, calls⟩

/-- The frame of ACPI tables of the small machine, mapped and unmapped, is the first of the
free list. -/
theorem acpi_frame_on_free_list :
    ∃ m, VmmRun smallBoot frameTerms m { lent := [0x29000] } ∧ Supplied m ∧
      .released (0x29000 + smallBoot.hhdm) ∈ m.pmmCalls ∧ m.freelist = some 0x29000 ∧
      0x29000 ∉ usableFrames smallBoot := by
  obtain ⟨m, pagemap, v, direct, kernel, booted, supplied, invariant, left⟩ := smallBoot_booted
  obtain ⟨base, t, done, suppliedAfter, v', node, regions', placed, after⟩ :=
    invariant.vmmAllocWithPhys_runs fits_page (show writeFlags.user = false from rfl)
      (smallBoot_findGap direct kernel (by decide)) [0x29000] (by decide)
      (Nat.le_trans (by decide) left) supplied
  have run : VmmRun smallBoot frameTerms t _ :=
    VmmRun.call (.vmmAllocWithPhys 4096 writeFlags [0x29000]) (VmmRun.boot booted)
      invariant.kermap (by simp [frameTerms]) (fun _ _ => trivial) done
  obtain ⟨rfl, baseEq⟩ := placed.pair
  have place : base = smallBoot.hhdm + directSize smallBoot := baseEq
  have shaped : Kernel smallBoot_good.ram pagemap v' t ([] ++ directRegion smallBoot direct ::
      ⟨node, base, alignUp 4096 pageSize, .phys [0x29000] writeFlags⟩ ::
      [kernelRegion smallBoot kernel]) [] := after
  have usable : ∀ frame ∈ [0x29000], Usable smallBoot.hhdm frame := by
    intro frame member
    rw [List.mem_singleton.mp member]
    exact ⟨⟨by decide, by decide⟩, by decide, ⟨by decide, by decide, by decide⟩⟩
  have unmanaged : 0x29000 ∉ usableFrames smallBoot := by decide
  obtain ⟨last, m', dealloc, free, final, calls⟩ := shaped.vmmDealloc_given
    (by
      intro other member
      rw [List.mem_singleton.mp member, place]
      exact (by decide : smallBoot.hhdm ≠ smallBoot.hhdm + directSize smallBoot))
    (by
      rw [place]
      exact (by decide : smallBoot.hhdm + directSize smallBoot + alignUp 4096 pageSize <
        addressSpace)) rfl usable
    (by
      intro frame member
      rw [List.mem_singleton.mp member]
      by_contra used
      exact unmanaged (shaped.store.managed 0x29000 used))
    (List.nodup_singleton _)
  have ended : VmmRun smallBoot frameTerms { m' with kermap := some pagemap } _ :=
    VmmRun.dealloc run after.kermap List.mem_cons_self trivial dealloc
  rw [kermap_eta final.kermap, List.erase_cons_head] at ended
  refine ⟨m', ended, ?_, ?_, ?_, unmanaged⟩
  · intro null
    rw [calls] at null
    rcases List.mem_append.mp null with old | new
    · exact suppliedAfter old
    · simp at new
  · rw [calls]
    exact List.mem_append_right _ List.mem_cons_self
  · obtain ⟨head, atHead, chain⟩ := final.store.chain
    rw [free] at chain
    rw [atHead, chain.linked.1]

end NyauxKernel.Memory
