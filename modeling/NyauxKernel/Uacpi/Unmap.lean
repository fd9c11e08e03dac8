/-
What `uacpi_kernel_unmap` does to a window into the direct map.

The function tells its two kinds of windows apart by comparing a virtual address with
`max_hhdm_phy`, so it searches the list of regions for every window.  The direct map is
a region of that list.
-/

import NyauxKernel.Uacpi.Map

namespace NyauxKernel.Uacpi

open Memory ExceptFold

/-- The list of regions, the translations and the free list are as they were. -/
structure Unchanged (hhdm : Nat) (m m' : Machine) : Prop where
  kermap : m'.kermap = m.kermap
  regions : ∀ pagemap regions, m.kermap = some pagemap → Listed m pagemap.khead regions →
    Listed m' pagemap.khead regions
  translations : ∀ pagemap virt, m.kermap = some pagemap →
    translate hhdm pagemap.archPage m'.memory virt = translate hhdm pagemap.archPage m.memory virt
  free : SameFree hhdm m m'

theorem Unchanged.refl (hhdm : Nat) (m : Machine) : Unchanged hhdm m m where
  kermap := rfl
  regions := fun _ _ _ listed => listed
  translations := fun _ _ _ => rfl
  free := SameFree.refl hhdm m

/-! ### Windows that start inside the direct map -/

variable {m : Machine} {regions : List Region}

variable {boot : Boot} {v : View} {blocks : List (Nat × Nat)} {ram : Ram} {pagemap : Pagemap}
  {live : List Allocation} {devices : List Nat} {addr head hhdm : Nat} {m' : Machine}
  {region : Region}

/-- The direct map is the only region that starts in it. -/
theorem base_ne_direct (space : Space boot ram pagemap v m regions live blocks devices)
    (low : addr < directSize boot) (nonzero : addr ≠ 0) :
    ∀ region ∈ regions, region.base ≠ boot.hhdm + addr := by
  rcases space.shape with ⟨direct, node, middle, made, rfl, _, _⟩
  intro region member same
  rcases List.mem_cons.mp member with isDirect | later
  · have start : region.base = boot.hhdm := congrArg Region.base isDirect
    omega
  · have after := (List.pairwise_cons.mp space.kernel.layout.ordered).1 region later
    have behind : boot.hhdm + directSize boot ≤ region.base := after
    omega

theorem wrap_direct (good : GoodBoot boot) (low : addr < directSize boot) :
    wrap (addr + boot.hhdm) = boot.hhdm + addr ∧ directSize boot < boot.hhdm + addr := by
  have behind := good.kernelAbove
  have inside := good.kernelInside.1
  have high := good.high
  constructor
  · rw [wrap, Nat.mod_eq_of_lt (by omega), Nat.add_comm]
  · unfold higherHalf addressSpace at *
    omega

/-! ### The window that starts with the direct map -/

def AlignedHead (m : Machine) : Prop := ∀ phy, m.freelist = some phy → phy % pageSize = 0

/-- Every word is the old one or the address of a page, zero included: what is left of the
memory when frames in use are released. -/
structure Faded (m m' : Machine) : Prop where
  head : AlignedHead m'
  words : ∀ address, m'.memory address = m.memory address ∨ m'.memory address % pageSize = 0

theorem Faded.refl (aligned : AlignedHead m) : Faded m m where
  head := aligned
  words := fun _ => Or.inl rfl

theorem Faded.trans {t : Machine} (first : Faded m t) (second : Faded t m') : Faded m m' where
  head := second.head
  words := by
    intro address
    rcases second.words address with same | page
    · rw [same]
      exact first.words address
    · exact Or.inr page

theorem unmapped_faded {slot frame : Nat} (alignedFrame : frame % pageSize = 0)
    (alignedHead : head % pageSize = 0) :
    Faded m (unmapped hhdm m slot frame head) where
  head := by
    intro phy same
    rw [← Option.some.inj same]
    exact alignedFrame
  words := by
    intro address
    by_cases atSlot : address = slot
    · right
      simp only [unmapped, atSlot, Function.update_self]
      decide
    · by_cases atStart : address = frame + hhdm
      · right
        rw [atStart] at atSlot ⊢
        simp only [unmapped, Function.update_of_ne atSlot, Function.update_self]
        exact alignedHead
      · simp only [unmapped, Function.update_of_ne atSlot, Function.update_of_ne atStart,
          WordMemory.zero]
        split
        · right
          decide
        · left
          rfl

/-- `unmap` returns as long as there is a free list. -/
theorem unmap_faded (hhdm root virt : Nat) (ready : m.freelist ≠ none) (aligned : AlignedHead m) :
    ∃ m', unmap hhdm root virt m = .ok m' ∧ m'.freelist ≠ none ∧ Faded m m' := by
  rcases Option.ne_none_iff_exists'.mp ready with ⟨head, atHead⟩
  rcases unmap_cases hhdm root virt atHead with nothing | ⟨slot, done⟩
  · exact ⟨m, nothing, ready, Faded.refl aligned⟩
  · exact ⟨_, done, Option.some_ne_none _,
      unmapped_faded (extractPhysFromPte_ok _).aligned (aligned head atHead)⟩

theorem unmapPages_faded (hhdm root : Nat) (pages : List Nat) (ready : m.freelist ≠ none)
    (aligned : AlignedHead m) :
    ∃ m', pages.foldlM (fun m i => unmap hhdm root i m) m = .ok m' ∧ Faded m m' := by
  induction pages generalizing m with
  | nil => exact ⟨m, rfl, Faded.refl aligned⟩
  | cons page pages inductionHypothesis =>
      rcases unmap_faded hhdm root page ready aligned with ⟨t, first, readyAfter, faded⟩
      rcases inductionHypothesis readyAfter faded.head with ⟨m', rest, later⟩
      exact ⟨m', by rw [foldlM_cons_eq first, rest], faded.trans later⟩

/-- No record lies at the start of a page. -/
theorem node_unaligned {head : Option Nat} (records : Records v m head regions blocks)
    (inv : SlabInv m v.slabs) (member : region ∈ regions) : region.node % pageSize ≠ 0 := by
  rcases records.nodes region member with ⟨isSize, slab, inSlabs, inSlots, _⟩
  have placed := inv.placed nodeSize isSize slab inSlabs
  have bounds := slots_bounds inSlots
  unfold pageSize slabHeaderSize nodeSize at *
  omega

theorem next_word {node next : Nat} (linked : regionNext m node = some next) :
    m.memory (node + nextOffset) = next := by
  unfold regionNext at linked
  split at linked
  · contradiction
  · exact Option.some.inj linked

/-- A record that faded does not become its own successor. -/
theorem next_ne_self (listed : Listed m (some region.node) (region :: regions))
    (more : regions ≠ []) (distinct : ((region :: regions).map Region.node).Nodup)
    (unaligned : region.node % pageSize ≠ 0) (faded : Faded m m') :
    regionNext m' region.node ≠ some region.node := by
  cases regions with
  | nil => contradiction
  | cons second back =>
      have next : regionNext m region.node = some second.node := listed.tail.2.tail.1
      have different : second.node ≠ region.node := fun same =>
        (List.nodup_cons.mp distinct).1 (same ▸ List.mem_cons_self)
      intro self
      have word : m.memory (region.node + nextOffset) = second.node := next_word next
      have wordAfter : m'.memory (region.node + nextOffset) = region.node := next_word self
      rcases faded.words (region.node + nextOffset) with same | page
      · exact different (word.symm.trans (same.symm.trans wordAfter))
      · rw [wordAfter] at page
        exact unaligned page

theorem alignedHead_of_chain {frames : List Nat} (atHead : m.freelist = some head)
    (chain : FreeChain hhdm m.memory head frames) : AlignedHead m := by
  intro phy same
  rw [← Option.some.inj (atHead.symm.trans same)]
  cases frames with
  | nil =>
      have atEnd : head = 0 := chain.linked
      rw [atEnd]
      decide
  | cons frame frames =>
      have first : head = frame := chain.linked.1
      rw [first]
      exact chain.aligned frame List.mem_cons_self

/-- The pointer to physical address zero is the base of the direct map's region: unmapping
it takes that region out of the list. -/
theorem unmap_direct_base (good : GoodBoot boot)
    (space : Space boot ram pagemap v m regions live blocks devices) :
    ∃ m', uacpiKernelUnmap boot.hhdm (directSize boot) boot.hhdm m = .ok m' ∧
      m'.kermap ≠ m.kermap := by
  have kernel := space.kernel
  have high : directSize boot < boot.hhdm := (wrap_direct good good.direct).2
  have real : boot.hhdm ≠ 0 := by omega
  rcases space.shape with ⟨direct, node, middle, made, rfl, _, _⟩
  rcases kernel.store.chain with ⟨head, atHead, chain⟩
  have listed := kernel.records.listed
  have atDirect : pagemap.khead = some direct := listed.tail.1
  have base : regionBase m direct = boot.hhdm :=
    (listed.fields (directRegion boot direct) List.mem_cons_self).1
  rcases unmapPages_faded boot.hhdm pagemap.archPage
    (pagesBetween (regionBase m direct) (wrap (regionBase m direct + regionLength m direct)))
    (by rw [atHead]; exact Option.some_ne_none _) (alignedHead_of_chain atHead chain) with
    ⟨t, unmapped, faded⟩
  have notSelf : regionNext t direct ≠ some direct := by
    rw [atDirect] at listed
    exact next_ne_self listed (by simp) kernel.records.nodes_nodup
      (node_unaligned kernel.records kernel.store.slab List.mem_cons_self) faded
  have done : vmmDealloc boot.hhdm pagemap boot.hhdm false m =
      .ok ({ pagemap with khead := regionNext t direct }, slabDealloc direct t) := by
    have fuel : addressSpace = (addressSpace - 1) + 1 := by decide
    rw [vmmDealloc, if_neg real, if_neg Bool.false_ne_true, atDirect, fuel, vmmDeallocLoop,
      if_pos base, archUnmapRegion, unmapped]
    rfl
  refine ⟨{ slabDealloc direct t with
    kermap := some { pagemap with khead := regionNext t direct } }, ?_, ?_⟩
  · rw [uacpiKernelUnmap, if_pos high, kernel.kermap]
    simp only [done, bind, Except.bind]
  · rw [kernel.kermap]
    intro same
    have head := congrArg Pagemap.khead (Option.some.inj same)
    exact notSelf (head.trans atDirect)

/-! ### Windows into the direct map -/

/-- Mapping and unmapping a window into the direct map changes nothing if and only if the
window does not start at physical address zero. -/
theorem uacpi_unmap_direct_iff (boot : Boot) (good : GoodBoot boot) (m : Machine)
    (uses : Uses) (addr len : Nat) (run : VmmRun boot (soundTerms boot) m uses) (supplied : Supplied m)
    (low : addr < directSize boot) :
    (∃ ptr t m', uacpiKernelMap boot.hhdm (directSize boot) addr len m = .ok (ptr, t) ∧
      uacpiKernelUnmap boot.hhdm (directSize boot) ptr t = .ok m' ∧
      Unchanged boot.hhdm m m') ↔ addr ≠ 0 := by
  rcases run.sound good supplied with ⟨ram, pagemap, v, regions, offset, _, space, _⟩
  rcases wrap_direct good low with ⟨place, high⟩
  have mapped : uacpiKernelMap boot.hhdm (directSize boot) addr len m =
      .ok (boot.hhdm + addr, m) := by
    rw [uacpiKernelMap, if_pos low, place]
  constructor
  · rintro ⟨ptr, t, m', again, done, unchanged⟩ rfl
    rcases Prod.mk.inj (Except.ok.inj (mapped.symm.trans again)) with ⟨rfl, rfl⟩
    rcases unmap_direct_base good space with ⟨m'', done', changed⟩
    cases Except.ok.inj (done.symm.trans done')
    exact changed unchanged.kermap
  · intro nonzero
    have nothing := space.kernel.vmmDealloc_missing (base_ne_direct space low nonzero)
    rw [offset] at nothing
    refine ⟨_, m, m, mapped, ?_, Unchanged.refl boot.hhdm m⟩
    rw [uacpiKernelUnmap, if_pos high, space.kernel.kermap]
    simp only [nothing, bind, Except.bind, kermap_eta space.kernel.kermap]

theorem uacpi_unmap_direct_table :
    ∃ m ptr t m', VmmRun smallBoot (soundTerms smallBoot) m {} ∧ Supplied m ∧
      uacpiKernelMap smallBoot.hhdm (directSize smallBoot) 0x29010 36 m = .ok (ptr, t) ∧
      uacpiKernelUnmap smallBoot.hhdm (directSize smallBoot) ptr t = .ok m' ∧
      Unchanged smallBoot.hhdm m m' := by
  rcases smallBoot_booted with ⟨m, _, _, _, _, booted, supplied, _, _⟩
  rcases (uacpi_unmap_direct_iff smallBoot smallBoot_good m {} 0x29010 36
    (VmmRun.boot booted) supplied (by decide)).mpr (by decide) with
    ⟨ptr, t, m', mapped, done, unchanged⟩
  exact ⟨m, ptr, t, m', VmmRun.boot booted, supplied, mapped, done, unchanged⟩

/-- A window at physical address zero: to unmap it is to drop the whole direct map. -/
theorem direct_map_dropped :
    ∃ m ptr m', VmmRun smallBoot (soundTerms smallBoot) m {} ∧ Supplied m ∧
      uacpiKernelMap smallBoot.hhdm (directSize smallBoot) 0 1024 m = .ok (ptr, m) ∧
      uacpiKernelUnmap smallBoot.hhdm (directSize smallBoot) ptr m = .ok m' ∧
      m'.kermap ≠ m.kermap := by
  rcases smallBoot_booted with ⟨m, _, _, _, _, booted, supplied, _, _⟩
  rcases booted.space smallBoot_good supplied with ⟨pagemap, v, regions, space⟩
  rcases unmap_direct_base smallBoot_good space with ⟨m', done, changed⟩
  exact ⟨m, smallBoot.hhdm, m', VmmRun.boot booted, supplied, if_pos (by decide), done, changed⟩

end NyauxKernel.Uacpi
