/-
The kernel's address space as the allocations that were made in it: which region
belongs to which call, and what the calls of the virtual memory manager do to the
allocations.
-/

import NyauxKernel.Memory.KernelBoot

namespace NyauxKernel.Memory

open ExceptFold

/-! ### Calls -/

/-- A call that makes a region. -/
inductive RegionCall
  | vmmAlloc (amount : Nat) (flags : VMMFlags)
  | vmmAllocWithPhys (amount : Nat) (flags : VMMFlags) (pa : List Nat)
  | vmmAllocWithoutBacking (amount : Nat) (flags : VMMFlags)
deriving DecidableEq

namespace RegionCall

def amount : RegionCall → Nat
  | vmmAlloc amount _ => amount
  | vmmAllocWithPhys amount _ _ => amount
  | vmmAllocWithoutBacking amount _ => amount

def run (hhdm : Nat) (pagemap : Pagemap) : RegionCall → Machine → Except Halt (Nat × Machine)
  | vmmAlloc amount flags => Memory.vmmAlloc hhdm pagemap amount flags
  | vmmAllocWithPhys amount flags pa => Memory.vmmAllocWithPhys hhdm pagemap amount flags pa
  | vmmAllocWithoutBacking amount flags =>
      Memory.vmmAllocWithoutBacking hhdm pagemap amount flags

/-- The frames of the caller that the region is mapped to. -/
def given : RegionCall → List Nat
  | vmmAllocWithPhys amount _ pa => pa.take (alignUp amount pageSize / pageSize)
  | vmmAlloc _ _ => []
  | vmmAllocWithoutBacking _ _ => []

end RegionCall

/-- A call that returned, with the base it returned and the frames that its pages were
mapped to then. -/
structure Allocation where
  call : RegionCall
  base : Nat
  frames : List Nat
deriving DecidableEq

def Allocation.length (allocation : Allocation) : Nat := alignUp allocation.call.amount pageSize

/-- The frames that the pages of a range are mapped to. -/
def mappedFrames (hhdm root : Nat) (memory : Nat → Nat) (base length : Nat) : List Nat :=
  (regionPages base length).filterMap fun virt =>
    (translate hhdm root memory virt).map Translation.phys

/-- What `call` allocated when it returned `base` on `m`. -/
def allocated (hhdm : Nat) (pagemap : Pagemap) (m : Machine) (call : RegionCall) (base : Nat) :
    Allocation :=
  { call := call
    base := base
    frames := mappedFrames hhdm pagemap.archPage m.memory base (alignUp call.amount pageSize) }

/-- Amounts that are not rounded to zero and whose gap, with one page more, does not
wrap. -/
def Sized (amount : Nat) : Prop := 0 < amount ∧ amount + 8191 < addressSpace

variable {amount : Nat} {new : Region} {regions' : List Region}

theorem Sized.rounded (sized : Sized amount) :
    alignUp amount pageSize = (amount + 4095) / 4096 * 4096 := by
  obtain ⟨_, small⟩ := sized
  rw [alignUp_pageSize, Nat.mod_eq_of_lt (by omega)]

theorem Sized.fits (sized : Sized amount) : Fits amount := by
  have rounded := sized.rounded
  obtain ⟨_, small⟩ := sized
  unfold Fits
  rw [rounded]
  unfold pageSize
  omega

theorem Sized.positive (sized : Sized amount) : 0 < alignUp amount pageSize := by
  have rounded := sized.rounded
  obtain ⟨real, _⟩ := sized
  omega

/-! ### Regions of calls -/

/-- The region that an allocation made. -/
structure Makes (allocation : Allocation) (region : Region) : Prop where
  base : region.base = allocation.base
  length : region.length = allocation.length
  backing : match allocation.call with
    | .vmmAlloc _ flags => region.backing = .frames allocation.frames flags
    | .vmmAllocWithPhys _ flags _ => region.backing = .phys allocation.call.given flags
    | .vmmAllocWithoutBacking _ _ => region.backing = .none

/-- The regions are the direct map, one for each allocation, and the kernel. -/
structure Space (boot : Boot) (ram : Ram) (pagemap : Pagemap) (v : View) (m : Machine)
    (regions : List Region) (live : List Allocation) (blocks : List (Nat × Nat))
    (devices : List Nat := []) : Prop where
  kernel : Kernel ram pagemap v m regions blocks devices
  positive : ∀ region ∈ regions, 0 < region.length
  shape : ∃ direct node middle made,
    regions = directRegion boot direct :: (middle ++ [kernelRegion boot node]) ∧
    middle.Perm made ∧ List.Forall₂ Makes live made

/-- The frames that a region got of its own are those that its pages are mapped to. -/
theorem Store.mappedFrames_eq {ram : Ram} {root base length : Nat} {flags : PT} {v : View}
    {m : Machine} (store : Store ram root v m) (present : flags.present = true)
    {frames : List Nat}
    (backs : List.Forall₂ (Backs ram v m flags) (regionPages base length) frames) :
    mappedFrames ram.hhdm root m.memory base length = frames := by
  unfold mappedFrames
  generalize regionPages base length = virts at backs
  induction backs with
  | nil => rfl
  | @cons virt frame virts frames first _ inductionHypothesis =>
      have ok := (store.usable first.1 (by simp)).frameOk
      have entry : leafEntry ram.hhdm m.memory v.tables (pageNumber virt) = pageEntry frame flags :=
        first.2
      have found : (translate ram.hhdm root m.memory virt).map Translation.phys = some frame := by
        rw [store.shape.translate_eq, entry, pageTranslation_pageEntry ok present]
        rfl
      simp only [List.filterMap_cons, found, inductionHypothesis]

theorem Placed.mem {regions : List Region} (place : Placed regions amount new regions') :
    new ∈ regions' := by
  obtain ⟨_, _, _, _, _, rfl, _⟩ := place.place
  simp

theorem Placed.perm {regions : List Region} (place : Placed regions amount new regions') :
    regions'.Perm (new :: regions) := by
  obtain ⟨front, prev, cur, back, rfl, rfl, _⟩ := place.place
  rw [List.append_cons, List.append_cons front prev (cur :: back)]
  exact List.perm_middle

theorem Placed.behind {regions : List Region} (place : Placed regions amount new regions') :
    ∃ prev ∈ regions, new.base = prev.base + prev.length := by
  obtain ⟨_, prev, _, _, rfl, _, _, base⟩ := place.place
  exact ⟨prev, by simp, base⟩

/-- A new region between two others is neither the first nor the last. -/
theorem Placed.middle {first last : Region} {middle : List Region}
    (place : Placed (first :: (middle ++ [last])) amount new regions') :
    ∃ middle', regions' = first :: (middle' ++ [last]) ∧ middle'.Perm (new :: middle) := by
  obtain ⟨front, prev, cur, back, split, rfl, _, _⟩ := place.place
  obtain ⟨init, last', splitBack⟩ := List.eq_nil_or_concat (cur :: back)
    |>.resolve_left (List.cons_ne_nil cur back)
  rw [List.concat_eq_append] at splitBack
  rw [splitBack] at split ⊢
  cases front with
  | nil =>
      obtain ⟨rfl, tail⟩ := List.cons.inj split
      obtain ⟨rfl, same⟩ := List.append_inj' tail rfl
      obtain rfl := (List.cons.inj same).1
      exact ⟨new :: middle, rfl, List.Perm.refl _⟩
  | cons other front =>
      obtain ⟨rfl, tail⟩ := List.cons.inj split
      have order : middle ++ [last] = (front ++ prev :: init) ++ [last'] := by
        rw [tail, List.append_assoc]
        rfl
      obtain ⟨rfl, same⟩ := List.append_inj' order rfl
      obtain rfl := (List.cons.inj same).1
      refine ⟨front ++ prev :: new :: init, by simp, ?_⟩
      have moved : (front ++ [prev] ++ new :: init).Perm (new :: (front ++ [prev] ++ init)) :=
        List.perm_middle
      simpa using moved

/-- A region between two others. -/
theorem Placed.pair {first last : Region} (place : Placed [first, last] amount new regions') :
    regions' = [first, new, last] ∧ new.base = first.base + first.length := by
  obtain ⟨front, prev, cur, back, split, regionsEq, _, base⟩ := place.place
  cases front with
  | nil =>
      obtain ⟨rfl, tail⟩ := List.cons.inj split
      obtain ⟨rfl, rfl⟩ := List.cons.inj tail
      exact ⟨regionsEq, base⟩
  | cons other front =>
      have lengths := congrArg List.length split
      simp only [List.length_append, List.length_cons, List.length_nil] at lengths
      omega

namespace Space

variable {boot : Boot} {ram : Ram} {pagemap : Pagemap} {v v' : View} {m m' : Machine}
  {regions : List Region} {live : List Allocation} {blocks : List (Nat × Nat)} {devices : List Nat}

theorem place (space : Space boot ram pagemap v m regions live blocks devices) {allocation : Allocation}
    {new : Region} (sized : Sized allocation.call.amount) (makes : Makes allocation new)
    (placed : Placed regions allocation.call.amount new regions')
    (kernel : Kernel ram pagemap v' m' regions' blocks devices) :
    Space boot ram pagemap v' m' regions' (allocation :: live) blocks devices := by
  obtain ⟨direct, node, middle, made, rfl, perm, each⟩ := space.shape
  obtain ⟨middle', rfl, perm'⟩ := placed.middle
  refine ⟨kernel, ?_, direct, node, middle', new :: made, rfl, perm'.trans (perm.cons new),
    List.Forall₂.cons makes each⟩
  intro region member
  have cases : region = new ∨ region ∈ directRegion boot direct :: (middle ++ [kernelRegion boot node]) := by
    have moved := ((perm'.append_right [kernelRegion boot node]).cons
      (directRegion boot direct)).mem_iff.mp member
    exact (mem_behind : region ∈ [] ++ _ :: new :: _ ↔ _).mp moved
  rcases cases with rfl | old
  · rw [makes.length]
    exact sized.positive
  · exact space.positive region old

/-- A call that returned made its region. -/
theorem call (space : Space boot ram pagemap v m regions live blocks devices) (call : RegionCall)
    (sized : Sized call.amount) {base : Nat}
    (done : call.run ram.hhdm pagemap m = .ok (base, m')) (supplied : Supplied m') :
    ∃ v' regions', Space boot ram pagemap v' m' regions'
        (allocated ram.hhdm pagemap m' call base :: live) blocks devices ∧
      (∀ page ∉ (regionPages base (alignUp call.amount pageSize)).map pageNumber,
        entries ram v' m' page = entries ram v m page) ∧
      (∃ new, Makes (allocated ram.hhdm pagemap m' call base) new ∧
        Placed regions call.amount new regions') ∧
      ∃ taken, Took taken m m' ∧ ∀ amount flags, call = .vmmAlloc amount flags →
        (allocated ram.hhdm pagemap m' call base).frames ⊆ taken ∧
        (allocated ram.hhdm pagemap m' call base).frames.length =
          alignUp amount pageSize / pageSize := by
  cases call with
  | vmmAlloc amount flags =>
      have sizedAmount : Sized amount := sized
      obtain ⟨v', node, frames, regions', placed, kernel, same, taken, took, subset⟩ :=
        space.kernel.vmmAlloc_done sizedAmount.fits done supplied
      have backs := kernel.content.backed _ placed.mem frames flags rfl
      have mapped : mappedFrames ram.hhdm pagemap.archPage m'.memory base
          (alignUp amount pageSize) = frames := kernel.store.mappedFrames_eq rfl backs
      have makes : Makes (allocated ram.hhdm pagemap m' (.vmmAlloc amount flags) base)
          ⟨node, base, alignUp amount pageSize, .frames frames flags⟩ :=
        ⟨rfl, rfl, congrArg (Backing.frames · flags) mapped.symm⟩
      refine ⟨v', regions', space.place sized makes placed kernel, same, ⟨_, makes, placed⟩,
        taken, took, ?_⟩
      intro amount' flags' same
      obtain ⟨rfl, rfl⟩ := RegionCall.vmmAlloc.inj same
      refine ⟨fun frame member => subset (mapped ▸ member), ?_⟩
      refine (congrArg List.length mapped).trans ?_
      rw [← backs.length_eq, regionPages_length]
  | vmmAllocWithPhys amount flags pa =>
      have sizedAmount : Sized amount := sized
      obtain ⟨v', node, regions', placed, kernel, same, taken, took, _⟩ :=
        space.kernel.vmmAllocWithPhys_done sizedAmount.fits done supplied
      have makes : Makes (allocated ram.hhdm pagemap m' (.vmmAllocWithPhys amount flags pa) base)
          ⟨node, base, alignUp amount pageSize,
            .phys (pa.take (alignUp amount pageSize / pageSize)) flags⟩ := ⟨rfl, rfl, rfl⟩
      exact ⟨v', regions', space.place sized makes placed kernel, same, ⟨_, makes, placed⟩, taken,
        took, fun _ _ isOther => absurd isOther (by simp)⟩
  | vmmAllocWithoutBacking amount flags =>
      have sizedAmount : Sized amount := sized
      obtain ⟨v', node, regions', placed, kernel, same, taken, took⟩ :=
        space.kernel.vmmAllocWithoutBacking_done sizedAmount.fits done supplied
      have makes : Makes (allocated ram.hhdm pagemap m' (.vmmAllocWithoutBacking amount flags) base)
          ⟨node, base, alignUp amount pageSize, .none⟩ := ⟨rfl, rfl, rfl⟩
      exact ⟨v', regions', space.place sized makes placed kernel,
        fun page _ => congrFun same page, ⟨_, makes, placed⟩, taken, took,
        fun _ _ isOther => absurd isOther (by simp)⟩

end Space

/-! ### Taking a region out -/

/-- Frames of a caller that the page allocator can take over. -/
structure Foreign (ram : Ram) (frames : List Nat) : Prop where
  distinct : frames.Nodup
  usable : ∀ frame ∈ frames, Usable ram.hhdm frame
  unmanaged : ∀ frame ∈ frames, frame ∉ ram.frames

/-- The partner of an element and the others. -/
theorem forall₂_erase {live : List Allocation} {made : List Region} {allocation : Allocation}
    (each : List.Forall₂ Makes live made) (member : allocation ∈ live) :
    ∃ region made', Makes allocation region ∧ made.Perm (region :: made') ∧
      List.Forall₂ Makes (live.erase allocation) made' := by
  induction each with
  | nil => exact absurd member List.not_mem_nil
  | @cons first region live made makes rest inductionHypothesis =>
      by_cases same : first = allocation
      · subst same
        rw [List.erase_cons_head]
        exact ⟨region, made, makes, List.Perm.refl _, rest⟩
      · obtain ⟨other, made', isOther, perm, others⟩ :=
          inductionHypothesis ((List.mem_cons.mp member).resolve_left (Ne.symm same))
        rw [List.erase_cons_tail (by simpa using same)]
        exact ⟨other, region :: made', isOther,
          (perm.cons region).trans (List.Perm.swap other region made'),
          List.Forall₂.cons makes others⟩

namespace Space

variable {boot : Boot} {ram ram' : Ram} {pagemap : Pagemap} {v v' : View} {m m' : Machine}
  {regions : List Region} {live : List Allocation} {blocks : List (Nat × Nat)} {devices : List Nat}

/-- Where the region of an allocation is in the list. -/
theorem find (space : Space boot ram pagemap v m regions live blocks devices) {allocation : Allocation}
    (member : allocation ∈ live) :
    ∃ front prev region back, regions = front ++ prev :: region :: back ∧
      Makes allocation region ∧ (∀ other ∈ front ++ [prev], other.base ≠ region.base) ∧
      region.base + region.length < addressSpace ∧
      ∀ ram' v' m', Kernel ram' pagemap v' m' (front ++ prev :: back) blocks devices →
        Space boot ram' pagemap v' m' (front ++ prev :: back) (live.erase allocation) blocks devices := by
  obtain ⟨direct, node, middle, made, rfl, perm, each⟩ := space.shape
  obtain ⟨region, made', makes, split, rest⟩ := forall₂_erase each member
  obtain ⟨before, after, rfl⟩ :=
    List.append_of_mem ((perm.trans split).mem_iff.mpr List.mem_cons_self)
  have fewer : (before ++ after).Perm made' :=
    (List.perm_middle.symm.trans (perm.trans split)).cons_inv
  obtain ⟨front, prev, splitFront⟩ := List.eq_nil_or_concat (directRegion boot direct :: before)
    |>.resolve_left (List.cons_ne_nil _ _)
  rw [List.concat_eq_append] at splitFront
  have whole : directRegion boot direct :: (before ++ region :: after ++ [kernelRegion boot node]) =
      front ++ prev :: region :: (after ++ [kernelRegion boot node]) := by
    have joined := congrArg (· ++ region :: (after ++ [kernelRegion boot node])) splitFront
    simpa using joined
  have without : front ++ prev :: (after ++ [kernelRegion boot node]) =
      directRegion boot direct :: (before ++ after ++ [kernelRegion boot node]) := by
    have joined := congrArg (· ++ (after ++ [kernelRegion boot node])) splitFront
    simpa using joined.symm
  have ordered := space.kernel.layout.ordered
  have inside := space.kernel.layout.inside
  have positive := space.positive
  rw [whole] at ordered inside positive
  refine ⟨front, prev, region, after ++ [kernelRegion boot node], whole, makes, ?_, ?_, ?_⟩
  · intro other isBefore same
    rw [← List.singleton_append, ← List.append_assoc] at ordered
    have next := (List.pairwise_append.mp ordered).2.2 other isBefore region List.mem_cons_self
    have real := positive other (by
      rw [List.append_cons]
      exact List.mem_append_left _ isBefore)
    omega
  · have behind := (List.pairwise_cons.mp (List.pairwise_cons.mp
      (List.pairwise_append.mp ordered).2.1).2).1 (kernelRegion boot node) (by simp)
    have below := (inside (kernelRegion boot node) (by simp)).1
    omega
  · intro ram' v' m' kernel
    refine ⟨kernel, ?_, direct, node, before ++ after, made', without, fewer, rest⟩
    intro other inList
    exact positive other (mem_behind.mpr (Or.inr inList))

theorem increasing (space : Space boot ram pagemap v m regions live blocks devices) :
    regions.Pairwise fun region other => region.base < other.base := by
  apply space.kernel.layout.ordered.imp_of_mem
  intro region other member _ next
  have real := space.positive region member
  omega

/-- `vmm_dealloc` of an allocation with frames of its own. -/
theorem deallocOwn (space : Space boot ram pagemap v m regions live blocks devices)
    {allocation : Allocation} (member : allocation ∈ live) {amount : Nat} {flags : VMMFlags}
    (own : allocation.call = .vmmAlloc amount flags) :
    ∃ v' m' front region back,
      vmmDealloc ram.hhdm pagemap allocation.base false m = .ok (pagemap, m') ∧
      regions = front ++ region :: back ∧ region.base = allocation.base ∧
      Space boot ram pagemap v' m' (front ++ back) (live.erase allocation) blocks devices ∧
      m'.pmmCalls =
        m.pmmCalls ++ (allocation.frames.map (· + ram.hhdm)).map PmmCall.released := by
  obtain ⟨front, prev, region, back, rfl, makes, others, below, close⟩ := space.find member
  have backing := makes.backing
  rw [own] at backing
  obtain ⟨v', m', done, _, kernel, calls⟩ := space.kernel.vmmDealloc_backed others below
    (space.kernel.content.backed region (by simp) allocation.frames flags backing)
  rw [← makes.base]
  refine ⟨v', m', front ++ [prev], region, back, done, by simp, rfl, ?_, ?_⟩
  · rw [List.append_assoc]
    exact close ram v' m' kernel
  · rw [calls, List.map_map]
    rfl

/-- `vmm_dealloc` of an allocation takes its region out, and no other. -/
theorem dealloc (space : Space boot ram pagemap v m regions live blocks devices) {allocation : Allocation}
    (member : allocation ∈ live) (foreign : Foreign ram allocation.call.given)
    (noDevice : ∀ page ∈ (regionPages allocation.base allocation.length).map pageNumber,
      page ∉ devices) :
    ∃ ram' v' m' front region back,
      vmmDealloc ram.hhdm pagemap allocation.base false m = .ok (pagemap, m') ∧
      regions = front ++ region :: back ∧ region.base = allocation.base ∧
      ram'.hhdm = ram.hhdm ∧ ram'.frames ⊆ allocation.call.given ++ ram.frames ∧
      Space boot ram' pagemap v' m' (front ++ back) (live.erase allocation) blocks devices := by
  by_cases own : ∃ amount flags, allocation.call = .vmmAlloc amount flags
  · obtain ⟨amount, flags, isCall⟩ := own
    obtain ⟨v', m', front, region, back, done, split, base, after, _⟩ :=
      space.deallocOwn member isCall
    exact ⟨ram, v', m', front, region, back, done, split, base, rfl,
      List.subset_append_right _ _, after⟩
  obtain ⟨front, prev, region, back, rfl, makes, others, below, close⟩ := space.find member
  have outside : ∀ frame ∈ allocation.call.given, v.owner frame = .outside := by
    intro frame inGiven
    by_contra used
    exact foreign.unmanaged frame inGiven (space.kernel.store.managed frame used)
  have split : front ++ prev :: region :: back = (front ++ [prev]) ++ region :: back := by simp
  have rest : front ++ prev :: back = (front ++ [prev]) ++ back := by simp
  have backing := makes.backing
  rw [← makes.base]
  obtain ⟨call, base, frames⟩ := allocation
  cases call with
  | vmmAlloc amount flags => exact absurd ⟨amount, flags, rfl⟩ own
  | vmmAllocWithPhys amount flags pa =>
      obtain ⟨v', m', done, _, kernel, _⟩ := space.kernel.vmmDealloc_given others below backing
        foreign.usable outside foreign.distinct
      exact ⟨ram.more _ foreign.usable, v', m', front ++ [prev], region, back, done, split, rfl,
        rfl, List.Subset.refl _, rest ▸ close _ v' m' kernel⟩
  | vmmAllocWithoutBacking amount flags =>
      obtain ⟨v', m', released, done, kernel, _⟩ :=
        space.kernel.vmmDealloc_none others below backing (by
          intro page inPages
          apply noDevice
          rwa [Region.pages, makes.base, makes.length] at inPages)
      exact ⟨ram, v', m', front ++ [prev], region, back, done, split, rfl, rfl,
        List.subset_append_right _ _, rest ▸ close ram v' m' kernel⟩

end Space

end NyauxKernel.Memory
