/-
The address space that `pt_init` builds: the direct map, the kernel, and nothing else.

The ranges are those that the bootloader's responses give before rounding; `pt_init` maps
the pages that they touch.
-/

import NyauxKernel.Memory.KernelBoot

namespace NyauxKernel.Memory

open ExceptFold LinkPath

/-! ### Ranges of addresses -/

/-- The addresses of four-level paging: bits 48 to 63 repeat bit 47. -/
def CanonicalAddress (virt : Nat) : Prop :=
  virt < 2 ^ 47 ∨ higherHalf ≤ virt ∧ virt < addressSpace

def CanonicalRange (base size : Nat) : Prop := ∀ offset < size, CanonicalAddress (base + offset)

variable {base offset size virt : Nat}

theorem CanonicalRange.size_le (canonical : CanonicalRange base size) : size ≤ 2 ^ 47 := by
  by_contra long
  have start := canonical 0 (by omega)
  have behind := canonical (2 ^ 47) (by omega)
  have hole := canonical (2 ^ 47 - base) (by omega)
  unfold CanonicalAddress higherHalf addressSpace at *
  omega

/-- Rounding a size up to pages, where it does not wrap. -/
theorem alignUp_of_le (small : size ≤ 2 ^ 52) :
    alignUp size pageSize = (size + 4095) / 4096 * 4096 := by
  rw [alignUp_pageSize, Nat.mod_eq_of_lt]
  unfold addressSpace
  omega

/-- What holds of whole pages holds of a range that is rounded up. -/
theorem CanonicalRange.rounded (canonical : CanonicalRange base size)
    (aligned : base % pageSize = 0) : CanonicalRange base (alignUp size pageSize) := by
  intro offset below
  rw [alignUp_of_le (Nat.le_trans canonical.size_le (by decide))] at below
  have page := canonical (offset / 4096 * 4096) (by omega)
  unfold CanonicalAddress higherHalf addressSpace pageSize at *
  omega

theorem CanonicalRange.inside (canonical : CanonicalRange base size) (below : offset < size) :
    base + offset < addressSpace := by
  have there := canonical offset below
  unfold CanonicalAddress addressSpace at *
  omega

/-- The pages of a canonical range start at different addresses. -/
theorem CanonicalRange.pages_nodup (canonical : CanonicalRange base size) :
    ((pagesBetween 0 size).map fun i => wrap (base + i)).Nodup := by
  apply List.Nodup.map_on _ (pagesBetween_nodup 0 size)
  intro i inPages j inPages' same
  have below := canonical.inside (mem_pagesBetween inPages).2.1
  have below' := canonical.inside (mem_pagesBetween inPages').2.1
  rw [wrap, wrap, Nat.mod_eq_of_lt below, Nat.mod_eq_of_lt below'] at same
  omega

/-- A page of whole pages lies inside of them. -/
theorem on_page_inside (whole : size % pageSize = 0) (onPage : (base + offset) % pageSize = 0)
    (aligned : offset % pageSize = 0) (below : offset < size)
    (page : (base + offset) / pageSize = virt / pageSize) :
    ∃ index < size, virt = base + index := by
  refine ⟨offset + virt % pageSize, ?_, ?_⟩
  all_goals
    unfold pageSize at *
    omega

/-- Canonical addresses with one page number are on one page. -/
theorem pageNumber_canonical {other : Nat} (canonical : CanonicalAddress virt)
    (canonicalOther : CanonicalAddress other) (same : pageNumber virt = pageNumber other) :
    virt / pageSize = other / pageSize := by
  unfold pageNumber pageSize CanonicalAddress higherHalf addressSpace at *
  omega

/-! ### What the bootloader promises -/

/-- The length of the kernel's image. -/
def imageSize (boot : Boot) : Nat := boot.kernelEnd - boot.kernelStart

/-- Usable entries are aligned and do not overlap; the direct map and the kernel start at
pages, lie at canonical addresses and do not overlap; the kernel lies at physical addresses,
of which there are 52 bits. -/
structure Placement (boot : Boot) : Prop where
  aligned : ∀ entry ∈ boot.entries, entry.type = .usable →
    entry.base % pageSize = 0 ∧ entry.length % pageSize = 0
  disjoint : boot.entries.Pairwise fun entry other => entry.type = .usable →
    other.type = .usable → entry.base + entry.length ≤ other.base ∨
      other.base + other.length ≤ entry.base
  hhdmAligned : boot.hhdm % pageSize = 0
  virtualAligned : boot.virtualBase % pageSize = 0
  physicalAligned : boot.physicalBase % pageSize = 0
  hhdmCanonical : CanonicalRange boot.hhdm (maxHhdmPhys boot.entries)
  kernelCanonical : CanonicalRange boot.virtualBase (imageSize boot)
  apart : ∀ phys < maxHhdmPhys boot.entries, ∀ offset < imageSize boot,
    boot.hhdm + phys ≠ boot.virtualBase + offset
  physical : ∀ offset < imageSize boot, boot.physicalBase + offset < 2 ^ 52

/-- An entry that the direct map covers ends below its end. -/
theorem le_maxHhdmPhys {entries : List MemmapEntry} {entry : MemmapEntry}
    (member : entry ∈ entries) (covered : entry.type.inDirectMap = true) :
    entry.base + entry.length ≤ maxHhdmPhys entries := by
  have grows : ∀ (rest : List MemmapEntry) (most : Nat), most ≤ rest.foldl
      (fun most entry => if entry.type.inDirectMap then max (entry.base + entry.length) most
        else most) most := by
    intro rest
    induction rest with
    | nil => exact fun most => Nat.le_refl most
    | cons first rest inductionHypothesis =>
        intro most
        refine Nat.le_trans ?_ (inductionHypothesis _)
        dsimp only
        split
        · exact Nat.le_max_right _ _
        · exact Nat.le_refl most
  unfold maxHhdmPhys
  generalize 0 = most
  induction entries generalizing most with
  | nil => exact absurd member List.not_mem_nil
  | cons first rest inductionHypothesis =>
      rcases List.mem_cons.mp member with rfl | later
      · rw [List.foldl_cons, if_pos covered]
        exact Nat.le_trans (Nat.le_max_left _ most) (grows rest _)
      · exact inductionHypothesis later _

namespace Placement

variable {boot : Boot}

def map (placed : Placement boot) : MemoryMap where
  hhdm := boot.hhdm
  entries := boot.entries
  aligned := placed.aligned
  disjoint := placed.disjoint

theorem directSize_eq (placed : Placement boot) :
    directSize boot = (maxHhdmPhys boot.entries + 4095) / 4096 * 4096 :=
  alignUp_of_le (Nat.le_trans placed.hhdmCanonical.size_le (by decide))

theorem kernelSize_eq (placed : Placement boot) :
    kernelSize boot = (imageSize boot + 4095) / 4096 * 4096 :=
  alignUp_of_le (Nat.le_trans placed.kernelCanonical.size_le (by decide))

theorem direct (placed : Placement boot) : CanonicalRange boot.hhdm (directSize boot) :=
  placed.hhdmCanonical.rounded placed.hhdmAligned

theorem kernel (placed : Placement boot) : CanonicalRange boot.virtualBase (kernelSize boot) :=
  placed.kernelCanonical.rounded placed.virtualAligned

/-- The rounded ranges do not overlap either. -/
theorem rounded_apart (placed : Placement boot) {phys offset : Nat} (low : phys < directSize boot)
    (below : offset < kernelSize boot) : boot.hhdm + phys ≠ boot.virtualBase + offset := by
  intro same
  have apart := placed.apart (phys / 4096 * 4096)
    (by rw [placed.directSize_eq] at low; omega) (offset / 4096 * 4096)
    (by rw [placed.kernelSize_eq] at below; omega)
  have hhdmAligned := placed.hhdmAligned
  have virtualAligned := placed.virtualAligned
  unfold pageSize at *
  omega

/-- The frames of the usable entries lie in the direct map. -/
theorem frame_direct (placed : Placement boot) {frame : Nat} (member : frame ∈ placed.map.frames) :
    frame ≠ 0 ∧ frame % pageSize = 0 ∧ frame + pageSize ≤ maxHhdmPhys boot.entries := by
  rcases List.mem_filter.mp member with ⟨inPages, nonzero⟩
  rcases List.mem_flatMap.mp inPages with ⟨entry, inEntries, inEntry⟩
  rcases mem_usablePages inEntry with ⟨isUsable, low, high, i, place⟩
  have aligned := placed.aligned entry inEntries isUsable
  have covered : entry.base + entry.length ≤ maxHhdmPhys boot.entries :=
    le_maxHhdmPhys inEntries (by rw [isUsable]; rfl)
  refine ⟨by simpa using nonzero, ?_, ?_⟩
  all_goals
    unfold pageSize at *
    omega

theorem usable (placed : Placement boot) :
    ∀ frame ∈ placed.map.frames, Usable boot.hhdm frame := by
  intro frame member
  rcases placed.frame_direct member with ⟨real, aligned, covered⟩
  have short := placed.hhdmCanonical.size_le
  have offset := placed.hhdmAligned
  have last := placed.hhdmCanonical.inside (show frame + 4095 < maxHhdmPhys boot.entries by
    unfold pageSize at covered
    omega)
  refine ⟨⟨aligned, ?_⟩, real, ⟨?_, ?_, ?_⟩⟩
  all_goals
    unfold pageSize at *
    omega

/-! ### The pages that are mapped -/

/-- The items of `pt_init`: a page of the kernel or of the direct map. -/
theorem item_cases (placed : Placement boot) {item : Nat × Nat × PT}
    (member : item ∈ bootItems boot) :
    item.2.2.present = true ∧ item.2.1 % pageSize = 0 ∧ item.2.1 < 2 ^ 52 ∧
      ∃ offset, offset % pageSize = 0 ∧
        (offset < kernelSize boot ∧ item.1 = boot.virtualBase + offset ∧
            item.2.1 = boot.physicalBase + offset ∨
          offset < directSize boot ∧ item.1 = boot.hhdm + offset ∧ item.2.1 = offset) := by
  rcases List.mem_append.mp member with inKernel | inDirect
  · rcases List.mem_map.mp inKernel with ⟨offset, inPages, rfl⟩
    rcases mem_pagesBetween inPages with ⟨_, below, i, rfl⟩
    have physical := placed.physical (0 + i * pageSize) (by
      rw [placed.kernelSize_eq] at below
      unfold pageSize at *
      omega)
    have aligned := placed.physicalAligned
    have noWrap : wrap (boot.physicalBase + (0 + i * pageSize)) =
        boot.physicalBase + (0 + i * pageSize) :=
      Nat.mod_eq_of_lt (Nat.lt_trans physical (by decide))
    have bounded : wrap (boot.physicalBase + (0 + i * pageSize)) < 2 ^ 52 := by
      rw [noWrap]
      exact physical
    refine ⟨rfl, ?_, bounded, 0 + i * pageSize, ?_, Or.inl ⟨below, ?_, noWrap⟩⟩
    · change wrap (boot.physicalBase + (0 + i * pageSize)) % pageSize = 0
      rw [noWrap]
      unfold pageSize at *
      omega
    · unfold pageSize
      omega
    · exact Nat.mod_eq_of_lt (placed.kernel.inside below)
  · rcases List.mem_map.mp inDirect with ⟨offset, inPages, rfl⟩
    rcases mem_pagesBetween inPages with ⟨_, below, i, rfl⟩
    have short := placed.direct.size_le
    have aligned : (0 + i * pageSize) % pageSize = 0 := by
      unfold pageSize
      omega
    have bounded : 0 + i * pageSize < 2 ^ 52 :=
      Nat.lt_of_lt_of_le below (Nat.le_trans short (by decide))
    refine ⟨?_, aligned, bounded, 0 + i * pageSize, aligned, Or.inr ⟨below, ?_, rfl⟩⟩
    · change (directMapFlags (memmapFbInfo boot.entries) (0 + i * pageSize)).present = true
      unfold directMapFlags
      split
      · rfl
      · rfl
    · exact Nat.mod_eq_of_lt (placed.direct.inside below)

/-- The addresses of the items are canonical and start pages. -/
theorem item_canonical (placed : Placement boot) {item : Nat × Nat × PT}
    (member : item ∈ bootItems boot) : CanonicalAddress item.1 ∧ item.1 % pageSize = 0 := by
  have hhdmAligned := placed.hhdmAligned
  have virtualAligned := placed.virtualAligned
  rcases placed.item_cases member with ⟨_, _, _, offset, aligned, ⟨below, same, _⟩ | ⟨below, same, _⟩⟩
  · rw [same]
    refine ⟨placed.kernel offset below, ?_⟩
    unfold pageSize at *
    omega
  · rw [same]
    refine ⟨placed.direct offset below, ?_⟩
    unfold pageSize at *
    omega

theorem bootPages_nodup (placed : Placement boot) : (bootPages boot).Nodup := by
  have aligned : ∀ {item other : Nat × Nat × PT}, item ∈ bootItems boot →
      other ∈ bootItems boot → pageNumber item.1 = pageNumber other.1 → item.1 = other.1 := by
    intro item other member member' same
    rcases placed.item_canonical member with ⟨canonical, onPage⟩
    rcases placed.item_canonical member' with ⟨canonical', onPage'⟩
    have page := pageNumber_canonical canonical canonical' same
    unfold pageSize at *
    omega
  have addresses : ((bootItems boot).map Prod.fst).Nodup := by
    rw [bootItems, List.map_append, List.nodup_append]
    refine ⟨?_, ?_, ?_⟩
    · rw [kernelItems, List.map_map]
      exact placed.kernel.pages_nodup
    · rw [directItems, List.map_map]
      exact placed.direct.pages_nodup
    · intro address inKernel other inDirect same
      rcases List.mem_map.mp inKernel with ⟨item, isItem, rfl⟩
      rcases List.mem_map.mp inDirect with ⟨item', isItem', rfl⟩
      rcases List.mem_map.mp isItem with ⟨i, inPages, rfl⟩
      rcases List.mem_map.mp isItem' with ⟨j, inPages', rfl⟩
      have below := (mem_pagesBetween inPages).2.1
      have below' := (mem_pagesBetween inPages').2.1
      have equal : wrap (boot.virtualBase + i) = wrap (boot.hhdm + j) := same
      rw [wrap, wrap, Nat.mod_eq_of_lt (placed.kernel.inside below),
        Nat.mod_eq_of_lt (placed.direct.inside below')] at equal
      exact placed.rounded_apart below' below equal.symm
  rw [bootPages]
  apply List.Nodup.map_on _ (List.Nodup.of_map Prod.fst addresses)
  intro item member other member' same
  exact List.inj_on_of_nodup_map addresses member member' (aligned member member' same)

end Placement

/-! ### The address space -/

/-- The physical address that the processor gets for a virtual one. -/
def translateByte (hhdm root : Nat) (memory : Nat → Nat) (virt : Nat) : Option Nat :=
  (translate hhdm root memory virt).map fun found => found.phys + virt % pageSize

/-- The entry types of the memory map that have to be reachable. -/
def reachableTypes : List MemmapType :=
  [.usable, .bootloaderReclaimable, .executableAndModules, .framebuffer, .mappedReserved,
    .acpiNvs, .acpiReclaimable]

/-- The direct map, the kernel and nothing else are mapped; the direct map covers all the
memory that has to be reachable, and the frames on the free list. -/
structure BootSpace (boot : Boot) (m : Machine) : Prop where
  direct : ∀ phys < directSize boot,
    translateByte boot.hhdm m.cr3 m.memory (boot.hhdm + phys) = some phys
  kernel : ∀ offset < kernelSize boot,
    translateByte boot.hhdm m.cr3 m.memory (boot.virtualBase + offset) =
      some (boot.physicalBase + offset)
  others : ∀ virt, CanonicalAddress virt →
    (∀ phys < directSize boot, virt ≠ boot.hhdm + phys) →
    (∀ offset < kernelSize boot, virt ≠ boot.virtualBase + offset) →
    translate boot.hhdm m.cr3 m.memory virt = none
  covered : ∀ entry ∈ boot.entries, entry.type ∈ reachableTypes →
    ∀ byte, entry.base ≤ byte → byte < entry.base + entry.length → byte < directSize boot
  free : ∀ head frame, m.freelist = some head →
    Reaches (fun frame => m.memory (frame + boot.hhdm)) 0 head frame →
    ∀ i < pageSize,
      translateByte boot.hhdm m.cr3 m.memory (frame + i + boot.hhdm) = some (frame + i)

section Translations

variable {boot : Boot} {ram : Ram} {root : Nat} {v : View} {m : Machine}

/-- A byte of a mapped page. -/
theorem BootEntries.translate_item (entered : BootEntries ram boot v m)
    (store : Store ram root v m) (placed : Placement boot)
    {item : Nat × Nat × PT} (member : item ∈ bootItems boot) {virt : Nat}
    (same : virt / pageSize = item.1 / pageSize) :
    translateByte ram.hhdm root m.memory virt = some (item.2.1 + virt % pageSize) := by
  rcases placed.item_cases member with ⟨present, aligned, bounded, _⟩
  have number : pageNumber virt = pageNumber item.1 := congrArg (· % 2 ^ 36) same
  have entry : leafEntry ram.hhdm m.memory v.tables (pageNumber item.1) = _ :=
    entered.entered placed.bootPages_nodup item member
  rw [translateByte, store.shape.translate_eq, number, entry,
    pageTranslation_pageEntry ⟨aligned, bounded⟩ present]
  rfl

/-- A byte of a range whose pages are mapped. -/
theorem BootEntries.translate_range (entered : BootEntries ram boot v m)
    (store : Store ram root v m) (placed : Placement boot) {base size : Nat}
    {target : Nat → Nat × PT} (aligned : base % pageSize = 0)
    (canonical : CanonicalRange base size)
    (items : ∀ i ∈ pagesBetween 0 size, (wrap (base + i), target i) ∈ bootItems boot)
    {offset : Nat} (below : offset < size) :
    translateByte ram.hhdm root m.memory (base + offset) =
      some ((target (offset / 4096 * 4096)).1 + offset % 4096) := by
  have inside := canonical.inside below
  have inPages : offset / 4096 * 4096 ∈ pagesBetween 0 size := by
    refine List.mem_map.mpr ⟨offset / 4096, List.mem_range.mpr ?_, Nat.zero_add _⟩
    unfold pageSize
    omega
  have noWrap : wrap (base + offset / 4096 * 4096) = base + offset / 4096 * 4096 :=
    Nat.mod_eq_of_lt (by omega)
  have page : (base + offset) / pageSize = wrap (base + offset / 4096 * 4096) / pageSize := by
    rw [noWrap]
    unfold pageSize at *
    omega
  have within : (base + offset) % pageSize = offset % 4096 := by
    unfold pageSize at *
    omega
  rw [entered.translate_item store placed (items _ inPages) page, within]

theorem BootEntries.translate_direct (entered : BootEntries ram boot v m)
    (store : Store ram root v m) (placed : Placement boot) {phys : Nat}
    (below : phys < directSize boot) :
    translateByte ram.hhdm root m.memory (boot.hhdm + phys) = some phys := by
  have items : ∀ i ∈ pagesBetween 0 (directSize boot),
      (wrap (boot.hhdm + i), i, directMapFlags (memmapFbInfo boot.entries) i) ∈ bootItems boot :=
    fun i inPages => List.mem_append_right _ (List.mem_map.mpr ⟨i, inPages, rfl⟩)
  rw [entered.translate_range store placed placed.hhdmAligned placed.direct items below]
  congr 1
  exact Nat.div_add_mod' phys 4096

theorem BootEntries.translate_kernel (entered : BootEntries ram boot v m)
    (store : Store ram root v m) (placed : Placement boot) {offset : Nat}
    (below : offset < kernelSize boot) :
    translateByte ram.hhdm root m.memory (boot.virtualBase + offset) =
      some (boot.physicalBase + offset) := by
  have items : ∀ i ∈ pagesBetween 0 (kernelSize boot),
      (wrap (boot.virtualBase + i), wrap (boot.physicalBase + i), kernelFlags) ∈ bootItems boot :=
    fun i inPages => List.mem_append_left _ (List.mem_map.mpr ⟨i, inPages, rfl⟩)
  have physical := placed.physical (offset / 4096 * 4096) (by
    rw [placed.kernelSize_eq] at below
    omega)
  have noWrap : wrap (boot.physicalBase + offset / 4096 * 4096) =
      boot.physicalBase + offset / 4096 * 4096 :=
    Nat.mod_eq_of_lt (Nat.lt_trans physical (by decide))
  rw [entered.translate_range store placed placed.virtualAligned placed.kernel items below, noWrap,
    Nat.add_assoc, Nat.div_add_mod']

/-- No page outside of the two ranges is mapped. -/
theorem BootEntries.translate_other (entered : BootEntries ram boot v m)
    (store : Store ram root v m) (placed : Placement boot) {virt : Nat}
    (canonical : CanonicalAddress virt)
    (notDirect : ∀ phys < directSize boot, virt ≠ boot.hhdm + phys)
    (notKernel : ∀ offset < kernelSize boot, virt ≠ boot.virtualBase + offset) :
    translate ram.hhdm root m.memory virt = none := by
  rw [store.shape.translate_eq]
  have blank : leafEntry ram.hhdm m.memory v.tables (pageNumber virt) = 0 := by
    apply entered.blank
    intro inPages
    rcases List.mem_map.mp inPages with ⟨item, member, same⟩
    rcases placed.item_canonical member with ⟨itemCanonical, onPage⟩
    have page := pageNumber_canonical itemCanonical canonical same
    rcases placed.item_cases member with
      ⟨_, _, _, offset, aligned, ⟨below, address, _⟩ | ⟨below, address, _⟩⟩
    · rw [address] at page onPage
      rcases on_page_inside (alignUp_aligned _) onPage aligned below page with
        ⟨index, inside, here⟩
      exact notKernel index inside here
    · rw [address] at page onPage
      rcases on_page_inside (alignUp_aligned _) onPage aligned below page with
        ⟨index, inside, here⟩
      exact notDirect index inside here
  rw [blank]
  rfl

end Translations

theorem BootTables.bootSpace {boot : Boot} {ram : Ram} {v v' : View} {m' : Machine}
    (tables : BootTables ram boot v v' m') (placed : Placement boot)
    (offset : ram.hhdm = boot.hhdm) (frames : ram.frames = placed.map.frames) :
    BootSpace boot m' := by
  have whole := placed.directSize_eq
  constructor
  case direct =>
    intro phys below
    rw [← tables.translate_direct tables.store placed below, offset]
  case kernel =>
    intro index below
    rw [← tables.translate_kernel tables.store placed below, offset]
  case others =>
    intro virt canonical notDirect notKernel
    rw [← tables.translate_other tables.store placed canonical notDirect notKernel, offset]
  case covered =>
    intro entry member isReachable byte _ below
    have covered : entry.type.inDirectMap = true := by
      simp only [reachableTypes, List.mem_cons, List.not_mem_nil, or_false] at isReachable
      rcases isReachable with same | same | same | same | same | same | same
      all_goals
        rw [same]
        rfl
    have most := le_maxHhdmPhys member covered
    omega
  case free =>
    intro head frame atHead reaches i below
    rcases tables.store.chain with ⟨first, atFirst, chain⟩
    cases Option.some.inj (atHead.symm.trans atFirst)
    rw [← offset] at reaches
    have isFree := (chain.linked.reaches_iff chain.nonzero).mp reaches
    have managed := tables.store.managed frame (by
      rw [tables.store.freeOwned frame isFree]
      decide)
    rw [frames] at managed
    have covered := (placed.frame_direct managed).2.2
    have direct := tables.translate_direct tables.store placed
      (show frame + i < directSize boot by omega)
    rw [Nat.add_comm, ← offset]
    rw [← offset] at direct
    exact direct

/-- The boot address space is complete.  With frames for the slabs and for its tables,
`pt_init` returns, and its root maps the direct map, the kernel, and no other page. -/
theorem boot_address_space (boot : Boot) (placed : Placement boot) (start ready : Machine)
    (bare : Bare start) (enough : slabSizes.length + tableCount boot ≤ placed.map.frames.length)
    (initialised : pmmInit boot.hhdm boot.entries start = .ok ready) :
    ∃ m', ptInit boot ready = .ok ((directSize boot, kernelSize boot), m') ∧ Supplied m' ∧
      BootSpace boot m' := by
  rcases placed.map.pmmInit_pool placed.usable bare (by omega) initialised with ⟨pool, supplied⟩
  have left : tableCount boot ≤ (placed.map.frames.reverse.drop slabSizes.length).length := by
    rw [List.length_drop, List.length_reverse]
    omega
  rcases Pool.ptInit_runs rfl pool supplied left with ⟨v', m', done, supplied', tables, _⟩
  exact ⟨m', done, supplied', tables.bootSpace placed rfl rfl⟩

theorem smallBoot_placed : Placement smallBoot where
  aligned := smallBoot_good.aligned
  disjoint := smallBoot_good.disjoint
  hhdmAligned := by decide
  virtualAligned := by decide
  physicalAligned := by decide
  hhdmCanonical := by
    intro offset below
    have most : offset < 0x2A000 := below
    change CanonicalAddress (0xFFFF800000000000 + offset)
    unfold CanonicalAddress higherHalf addressSpace
    omega
  kernelCanonical := by
    intro offset below
    have size : offset < 0x1000 := below
    change CanonicalAddress (0xFFFFFFFF80000000 + offset)
    unfold CanonicalAddress higherHalf addressSpace
    omega
  apart := by
    intro phys low offset below
    have most : phys < 0x2A000 := low
    change 0xFFFF800000000000 + phys ≠ 0xFFFFFFFF80000000 + offset
    omega
  physical := by
    intro offset below
    have size : offset < 0x1000 := below
    change 0x2A000 + offset < 2 ^ 52
    omega

theorem boot_address_space_small :
    ∃ ready m', Bare smallMachine ∧
      pmmInit smallBoot.hhdm smallBoot.entries smallMachine = .ok ready ∧
      ptInit smallBoot ready = .ok ((0x2A000, 0x1000), m') ∧ Supplied m' ∧
      BootSpace smallBoot m' := by
  rcases smallBoot_ready with ⟨ready, initialised⟩
  have enough : slabSizes.length + tableCount smallBoot ≤ smallBoot_placed.map.frames.length := by
    rw [smallBoot_tableCount]
    decide
  rcases boot_address_space smallBoot smallBoot_placed smallMachine ready smallMachine_bare enough
    initialised with ⟨m', done, supplied, space⟩
  exact ⟨ready, m', smallMachine_bare, initialised, done, supplied, space⟩

end NyauxKernel.Memory
