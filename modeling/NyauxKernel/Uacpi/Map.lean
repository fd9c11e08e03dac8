/-
The windows to physical memory that uACPI asks for: `uacpi_kernel_map` and
`uacpi_kernel_unmap` of `uacpi/mod.rs`.

`max_hhdm_phy` is the size of the direct map.
-/

import NyauxKernel.Memory.Windows

namespace NyauxKernel.Uacpi

open Memory

def uacpiKernelMap (hhdm maxHhdmPhy addr len : Nat) (m : Machine) : Except Halt (Nat × Machine) :=
  if addr < maxHhdmPhy then .ok (wrap (addr + hhdm), m)
  else
    let addr := alignDown addr 4096
    let ve := pagesBetween addr (wrap (addr + len))
    mapFrames hhdm len writeFlags ve m

def uacpiKernelUnmap (hhdm maxHhdmPhy addr : Nat) (m : Machine) : Except Halt Machine :=
  if addr > maxHhdmPhy then
    match m.kermap with
    | none => .error unwrapNone
    | some pagemap => do
        let (pagemap, m) ← vmmDealloc hhdm pagemap addr false m
        .ok { m with kermap := some pagemap }
  else .ok m

/-- The direct map translates exactly the physical addresses below its size. -/
def DirectExact (boot : Boot) (root : Nat) (m : Machine) : Prop :=
  ∀ phys, boot.hhdm + phys < addressSpace →
    (translateByte boot.hhdm root m.memory (boot.hhdm + phys) = some phys ↔
      phys < directSize boot)

/-- Every byte of the window is the byte of the physical range. -/
def WindowExact (hhdm root : Nat) (m : Machine) (ptr addr len : Nat) : Prop :=
  ∀ i < len, translateByte hhdm root m.memory (ptr + i) = some (addr + i)

/-! ### Windows behind the direct map -/

/-- A window behind the direct map starts at the page of the address. -/
theorem mapped_window {boot : Boot} {m m' : Machine} {uses : Uses}
    (inv : VmmInv boot m uses) {pagemap : Pagemap} (kermap : m.kermap = some pagemap)
    {addr len ptr : Nat} (positive : 0 < len) (bounded : addr + len ≤ 2 ^ 52)
    (above : directSize boot ≤ addr)
    (done : uacpiKernelMap boot.hhdm (directSize boot) addr len m = .ok (ptr, m'))
    (supplied : Supplied m') :
    ∀ i < len, translateByte boot.hhdm pagemap.archPage m'.memory (ptr + i) =
      some (addr / 4096 * 4096 + i) := by
  have inside : addr < addressSpace := by
    unfold addressSpace
    omega
  have aligned : addr / 4096 * 4096 % pageSize = 0 := by
    unfold pageSize
    omega
  rw [uacpiKernelMap, if_neg (Nat.not_lt_of_le above)] at done
  simp only [alignDown_page inside] at done
  have top := Nat.mod_lt (addr / 4096 * 4096 + len) (show 0 < addressSpace by decide)
  rcases inv.phys_window kermap positive aligned (by omega) (Nat.le_of_lt top) done supplied with
    ⟨_, _, _, _, _, _, _, translated⟩
  exact translated

/-! ### Exact windows -/

/-- A window into the direct map is exact when it does not reach behind it. -/
theorem direct_window {boot : Boot} {root : Nat} {m : Machine} (good : GoodBoot boot)
    (direct : DirectExact boot root m) {addr len : Nat} (low : addr < directSize boot) :
    WindowExact boot.hhdm root m (wrap (addr + boot.hhdm)) addr len ↔
      addr + len ≤ directSize boot := by
  have behind := good.kernelAbove
  have inside := good.kernelInside.1
  have noWrap : wrap (addr + boot.hhdm) = boot.hhdm + addr := by
    rw [wrap, Nat.mod_eq_of_lt (by omega), Nat.add_comm]
  rw [noWrap]
  constructor
  · intro exact
    by_contra long
    have first := exact (directSize boot - addr) (by omega)
    have place : boot.hhdm + addr + (directSize boot - addr) = boot.hhdm + directSize boot := by
      omega
    have byte : addr + (directSize boot - addr) = directSize boot := by omega
    rw [place, byte] at first
    exact Nat.lt_irrefl _ ((direct (directSize boot) (by omega)).mp first)
  · intro short i below
    rw [Nat.add_assoc]
    exact (direct (addr + i) (by omega)).mpr (by omega)

/-- The window that `uacpi_kernel_map` returns is exact if and only if the range ends in the
direct map, or starts behind it at a page and consists of physical addresses. -/
theorem uacpi_window_exact_iff (boot : Boot) (good : GoodBoot boot) (m m' : Machine)
    (uses : Uses) (pagemap : Pagemap) (addr len ptr : Nat)
    (run : VmmRun boot (soundTerms boot) m uses) (kermap : m.kermap = some pagemap)
    (direct : DirectExact boot pagemap.archPage m) (positive : 0 < len)
    (done : uacpiKernelMap boot.hhdm (directSize boot) addr len m = .ok (ptr, m'))
    (supplied : Supplied m') :
    WindowExact boot.hhdm pagemap.archPage m' ptr addr len ↔
      addr + len ≤ directSize boot ∨
        directSize boot ≤ addr ∧ addr % pageSize = 0 ∧ addr + len ≤ 2 ^ 52 := by
  by_cases low : addr < directSize boot
  · rw [uacpiKernelMap, if_pos low] at done
    rcases Prod.mk.inj (Except.ok.inj done) with ⟨rfl, rfl⟩
    rw [direct_window good direct low]
    omega
  · have above : directSize boot ≤ addr := Nat.le_of_not_lt low
    -- a call that returned took the pages of tables, of the record and of the vector
    have before : Supplied m := by
      rw [uacpiKernelMap, if_neg low] at done
      exact supplied.before (mapFrames_grows done)
    have inv := run.sound good before
    constructor
    · intro exact
      have last := translateByte_lt (exact (len - 1) (by omega))
      have bounded : addr + len ≤ 2 ^ 52 := by omega
      have first := mapped_window inv kermap positive bounded above done supplied 0 positive
      have same := Option.some.inj (first.symm.trans (exact 0 positive))
      refine Or.inr ⟨above, ?_, bounded⟩
      unfold pageSize
      omega
    · rintro (inDirect | ⟨_, aligned, bounded⟩)
      · omega
      · intro i below
        rw [mapped_window inv kermap positive bounded above done supplied i below]
        unfold pageSize at aligned
        have start : addr / 4096 * 4096 = addr := by omega
        rw [start]

/-! ### The small machine -/

/-- The direct map of the small machine after the boot sequence. -/
theorem smallBoot_direct {m : Machine} {pagemap : Pagemap} (booted : Booted smallBoot m)
    (supplied : Supplied m) (kermap : m.kermap = some pagemap) :
    DirectExact smallBoot pagemap.archPage m := by
  rcases booted.kernel smallBoot_good supplied with ⟨found, v, _, _, kernel, _, entered⟩
  cases Option.some.inj (kernel.kermap.symm.trans kermap)
  have size : directSize smallBoot = 0x2A000 := by decide
  have image : kernelSize smallBoot = 0x1000 := by decide
  intro phys inside
  constructor
  · intro translated
    by_contra outside
    have here : 0xFFFF800000000000 + phys < addressSpace := inside
    by_cases inKernel : ∃ offset < kernelSize smallBoot,
        smallBoot.hhdm + phys = smallBoot.virtualBase + offset
    · rcases inKernel with ⟨offset, below, same⟩
      have byte := entered.translate_kernel kernel.store smallBoot_placed below
      rw [← same] at byte
      have clash : 0x2A000 + offset = phys := Option.some.inj (byte.symm.trans translated)
      have place : 0xFFFF800000000000 + phys = 0xFFFFFFFF80000000 + offset := same
      omega
    · have none : translate smallBoot.hhdm pagemap.archPage m.memory (smallBoot.hhdm + phys) =
          none :=
        entered.translate_other kernel.store smallBoot_placed
          (Or.inr ⟨Nat.le_add_right _ phys, inside⟩) (fun other low same => outside (by omega))
          (fun offset below same => inKernel ⟨offset, below, same⟩)
      rw [translateByte, none] at translated
      contradiction
  · exact fun below => entered.translate_direct kernel.store smallBoot_placed below

theorem uacpi_window_exact_table :
    ∃ m pagemap ptr, VmmRun smallBoot (soundTerms smallBoot) m {} ∧
      m.kermap = some pagemap ∧ DirectExact smallBoot pagemap.archPage m ∧ Supplied m ∧
      uacpiKernelMap smallBoot.hhdm (directSize smallBoot) 0x29010 36 m = .ok (ptr, m) ∧
      WindowExact smallBoot.hhdm pagemap.archPage m ptr 0x29010 36 := by
  rcases smallBoot_booted with ⟨m, pagemap, v, _, _, booted, supplied, kernel, _⟩
  have direct := smallBoot_direct booted supplied kernel.kermap
  have low : 0x29010 < directSize smallBoot := by decide
  have done : uacpiKernelMap smallBoot.hhdm (directSize smallBoot) 0x29010 36 m = .ok (_, m) :=
    if_pos low
  exact ⟨m, pagemap, _, VmmRun.boot booted, kernel.kermap, direct, supplied, done,
    (uacpi_window_exact_iff smallBoot smallBoot_good m m {} pagemap 0x29010 36 _
      (VmmRun.boot booted) kernel.kermap direct (by decide) done supplied).mpr (by decide)⟩

/-- A register block that does not start at a page: its window starts at the page. -/
theorem unaligned_window_shifted :
    ∃ m m' pagemap ptr, VmmRun smallBoot (soundTerms smallBoot) m {} ∧
      m.kermap = some pagemap ∧ DirectExact smallBoot pagemap.archPage m ∧ Supplied m' ∧
      uacpiKernelMap smallBoot.hhdm (directSize smallBoot) 0x2A010 8 m = .ok (ptr, m') ∧
      translateByte smallBoot.hhdm pagemap.archPage m'.memory ptr = some 0x2A000 := by
  rcases smallBoot_room 8 (by decide) (by decide) with
    ⟨m, pagemap, booted, supplied, kermap, room⟩
  have inv := booted.vmmInv smallBoot_good supplied
  rcases inv.mapFrames_runs supplied kermap ⟨by decide, by decide⟩
    (show writeFlags.user = false from rfl) room (pagesBetween 0x2A000 0x2A008) (by decide)
    (by decide) with ⟨ptr, m', done, suppliedAfter⟩
  have mapped : uacpiKernelMap smallBoot.hhdm (directSize smallBoot) 0x2A010 8 m =
      .ok (ptr, m') := by
    rw [uacpiKernelMap, if_neg (by decide)]
    exact done
  have first := mapped_window inv kermap (show 0 < 8 by decide) (by decide)
    (show directSize smallBoot ≤ 0x2A010 by decide) mapped suppliedAfter 0 (by decide)
  exact ⟨m, m', pagemap, ptr, VmmRun.boot booted, kermap,
    smallBoot_direct booted supplied kermap, suppliedAfter, mapped, first⟩

end NyauxKernel.Uacpi
