/-
What `pci_scan` finds, and when it ends.

The scan is the depth-first traversal of the buses: a bus holds the functions present on it,
and a bridge leads to its secondary bus.
-/

import NyauxKernel.Library.Traversal
import NyauxKernel.Pci.Config
import Mathlib.Data.FinEnum

namespace NyauxKernel.Pci

open Traversal

/-! ### Functions and bridges -/

section Hierarchy

variable (info : PciInfo) (ecam : Ecam)

/-- The header of function 0 has the multi-function bit. -/
def MultiFunction (bus slot : UInt8) : Prop :=
  ((pciReadDword info ecam bus slot 0 0xC >>> 16) &&& 0xFF) &&& (1 <<< 7) ≠ 0

instance (bus slot : UInt8) : Decidable (MultiFunction info ecam bus slot) :=
  inferInstanceAs (Decidable (_ ≠ _))

/-- A function exists; its slot has a function 0, and is a multi-function device if the
function is another one. -/
structure Present (location : Location) : Prop where
  slot_lt : location.2.1.toNat < 32
  func_lt : location.2.2.toNat < 8
  device : pciReadWord info ecam location.1 location.2.1 0 0x0 ≠ 0xFFFF
  exists_ : pciReadWord info ecam location.1 location.2.1 location.2.2 0x0 ≠ 0xFFFF
  multi : location.2.2 = 0 ∨ MultiFunction info ecam location.1 location.2.1

def IsBridge (location : Location) : Prop :=
  (pciDevicePrint info ecam location.1 location.2.1 location.2.2).1 = 0x6 ∧
    (pciDevicePrint info ecam location.1 location.2.1 location.2.2).2.1 = 0x4

instance (location : Location) : Decidable (IsBridge info ecam location) :=
  inferInstanceAs (Decidable (_ ∧ _))

def secondaryBus (location : Location) : UInt8 :=
  UInt8.ofNat (pciReadWord info ecam location.1 location.2.1 location.2.2 0x18 >>> 8)

/-- A bridge on the first bus has the second as its secondary bus. -/
def BridgeTo (bus next : UInt8) : Prop :=
  ∃ location, Present info ecam location ∧ location.1 = bus ∧ IsBridge info ecam location ∧
    secondaryBus info ecam location = next

/-- The buses reached through bridges. -/
def BusReached : UInt8 → UInt8 → Prop := Relation.ReflTransGen (BridgeTo info ecam)

/-! ### The scan as a traversal -/

/-- The functions on a bus in the order of the scan. -/
def functionsOn (bus : UInt8) : List Location :=
  slots.flatMap fun i =>
    if pciReadWord info ecam bus i 0 0x0 = 0xFFFF then []
    else if MultiFunction info ecam bus i then
      (functions.filter fun j => pciReadWord info ecam bus i j 0x0 ≠ 0xFFFF).map fun j => (bus, i, j)
    else [(bus, i, 0)]

def leadsTo (location : Location) : Option UInt8 :=
  if IsBridge info ecam location then some (secondaryBus info ecam location) else none

theorem scanFunction_eq (scan : UInt8 → List Location → Option (List Location))
    (bus i j : UInt8) (devices : List Location) :
    scanFunction info ecam scan bus i j devices =
      if IsBridge info ecam (bus, i, j) then
        scan (secondaryBus info ecam (bus, i, j)) (devices ++ [(bus, i, j)])
      else some (devices ++ [(bus, i, j)]) :=
  rfl

theorem pciScan_eq_explore (fuel : Nat) (bus : UInt8) (devices : List Location) :
    pciScan info ecam fuel bus devices =
      explore (functionsOn info ecam) (leadsTo info ecam) fuel bus devices := by
  induction fuel generalizing bus devices with
  | zero => rfl
  | succ fuel inductionHypothesis =>
      have visits (i j : UInt8) (devices : List Location) :
          scanFunction info ecam (pciScan info ecam fuel) bus i j devices =
            enter (leadsTo info ecam) (explore (functionsOn info ecam) (leadsTo info ecam) fuel)
              devices (bus, i, j) := by
        rw [scanFunction_eq, enter, leadsTo]
        by_cases bridge : IsBridge info ecam (bus, i, j)
        · rw [if_pos bridge, if_pos bridge, inductionHypothesis]
        · rw [if_neg bridge, if_neg bridge]
      rw [pciScan, explore, functionsOn, foldlM_flatMap]
      congr 1
      funext devices i
      dsimp only
      by_cases missing : pciReadWord info ecam bus i 0 0x0 = 0xFFFF
      · rw [if_pos missing, if_pos missing]
        rfl
      · rw [if_neg missing, if_neg missing]
        have bit : ((pciReadDword info ecam bus i 0 0xC >>> 16) &&& 0xFF) &&& (1 <<< 7) ≠ 0 ↔
          MultiFunction info ecam bus i := Iff.rfl
        by_cases multi : MultiFunction info ecam bus i
        · rw [if_pos (bit.mpr multi), if_pos multi, List.foldlM_map, List.foldlM_filter]
          congr 1
          funext devices j
          by_cases absent : pciReadWord info ecam bus i j 0x0 = 0xFFFF
          · rw [if_pos absent, if_neg (by simp [absent])]
            rfl
          · rw [if_neg absent, if_pos (by simp [absent])]
            exact visits i j devices
        · rw [if_neg (mt bit.mp multi), if_neg multi, List.foldlM_cons]
          simp only [List.foldlM_nil, bind_pure]
          exact visits i 0 devices

theorem mem_range_ofNat {count : Nat} (small : count ≤ 256) (value : UInt8) :
    value ∈ (List.range count).map UInt8.ofNat ↔ value.toNat < count := by
  rw [List.mem_map]
  constructor
  · intro found
    rcases found with ⟨index, inRange, same⟩
    have below := List.mem_range.mp inRange
    rw [← same, UInt8.toNat_ofNat', Nat.mod_eq_of_lt (by omega)]
    exact below
  · intro below
    exact ⟨value.toNat, List.mem_range.mpr below, UInt8.ofNat_toNat⟩

theorem mem_slots (slot : UInt8) : slot ∈ slots ↔ slot.toNat < 32 :=
  mem_range_ofNat (by decide) slot

theorem mem_functions (func : UInt8) : func ∈ functions ↔ func.toNat < 8 :=
  mem_range_ofNat (by decide) func

/-- The scan finds the functions present on a bus. -/
theorem mem_functionsOn (bus : UInt8) (location : Location) :
    location ∈ functionsOn info ecam bus ↔ location.1 = bus ∧ Present info ecam location := by
  rcases location with ⟨home, slot, func⟩
  rw [functionsOn, List.mem_flatMap]
  constructor
  · intro found
    rcases found with ⟨i, inSlots, here⟩
    split at here
    · contradiction
    · rename_i device
      split at here
      · rename_i multi
        rcases List.mem_map.mp here with ⟨j, inFunctions, same⟩
        rcases List.mem_filter.mp inFunctions with ⟨small, found⟩
        rw [← same]
        exact ⟨rfl, (mem_slots i).mp inSlots, (mem_functions j).mp small, device,
          of_decide_eq_true found, Or.inr multi⟩
      · rw [List.mem_singleton.mp here]
        exact ⟨rfl, (mem_slots i).mp inSlots, Nat.zero_lt_succ 7, device, device, Or.inl rfl⟩
  · intro both
    rcases both with ⟨rfl, present⟩
    refine ⟨slot, (mem_slots slot).mpr present.slot_lt, ?_⟩
    rw [if_neg present.device]
    by_cases multi : MultiFunction info ecam home slot
    · rw [if_pos multi]
      apply List.mem_map.mpr
      exact ⟨func, List.mem_filter.mpr ⟨(mem_functions func).mpr present.func_lt,
        decide_eq_true present.exists_⟩, rfl⟩
    · have first : func = 0 := present.multi.resolve_right multi
      rw [if_neg multi, first]
      exact List.mem_cons_self

theorem leadsTo_eq_some {location : Location} {next : UInt8} :
    leadsTo info ecam location = some next ↔
      IsBridge info ecam location ∧ secondaryBus info ecam location = next := by
  rw [leadsTo]
  by_cases bridge : IsBridge info ecam location
  · rw [if_pos bridge, Option.some_inj, and_iff_right bridge]
  · rw [if_neg bridge]
    apply iff_of_false (Option.some_ne_none next).symm
    exact fun both => bridge both.1

theorem edge_iff_bridgeTo (bus next : UInt8) :
    Edge (functionsOn info ecam) (leadsTo info ecam) bus next ↔ BridgeTo info ecam bus next := by
  constructor
  · intro edge
    rcases edge with ⟨location, member, leads⟩
    rcases (mem_functionsOn info ecam bus location).mp member with ⟨home, present⟩
    exact ⟨location, present, home, (leadsTo_eq_some info ecam).mp leads⟩
  · intro bridge
    rcases bridge with ⟨location, present, home, isBridge, leads⟩
    exact ⟨location, (mem_functionsOn info ecam bus location).mpr ⟨home, present⟩,
      (leadsTo_eq_some info ecam).mpr ⟨isBridge, leads⟩⟩

theorem reaches_iff_busReached (bus below : UInt8) :
    Reaches (functionsOn info ecam) (leadsTo info ecam) bus below ↔
      BusReached info ecam bus below := by
  have same : Edge (functionsOn info ecam) (leadsTo info ecam) = BridgeTo info ecam := by
    funext bus next
    exact propext (edge_iff_bridgeTo info ecam bus next)
  rw [Reaches, same, BusReached]

/-! ### Well-formed hierarchies -/

/-- Bridges lead to buses with greater numbers, and no two of them to the same bus. -/
structure WellFormed (start : UInt8) : Prop where
  upward : ∀ location, BusReached info ecam start location.1 → Present info ecam location →
    IsBridge info ecam location → location.1 < secondaryBus info ecam location
  unshared : ∀ location other, BusReached info ecam start location.1 →
    BusReached info ecam start other.1 → Present info ecam location → Present info ecam other →
    IsBridge info ecam location → IsBridge info ecam other →
    secondaryBus info ecam location = secondaryBus info ecam other → location = other

theorem functionsOn_nodup (bus : UInt8) : (functionsOn info ecam bus).Nodup := by
  rw [functionsOn, List.nodup_flatMap]
  constructor
  · intro i _inSlots
    split
    · exact List.nodup_nil
    · split
      · apply List.Nodup.map
        · intro j j' same
          exact (Prod.mk.inj (Prod.mk.inj same).2).2
        · exact List.Nodup.filter _ (by decide)
      · exact List.nodup_singleton _
  · have slotOf {i : UInt8} {location : Location}
        (member : location ∈ (if pciReadWord info ecam bus i 0 0x0 = 0xFFFF then []
          else if MultiFunction info ecam bus i then
            (functions.filter fun j => pciReadWord info ecam bus i j 0x0 ≠ 0xFFFF).map
              fun j => (bus, i, j)
          else [(bus, i, 0)])) : location.2.1 = i := by
      split at member
      · contradiction
      · split at member
        · rcases List.mem_map.mp member with ⟨j, _, rfl⟩
          rfl
        · rw [List.mem_singleton.mp member]
    have distinct : slots.Nodup := by decide
    apply distinct.imp
    intro i i' different location member member'
    exact different ((slotOf member).symm.trans (slotOf member'))

variable {info ecam} {start : UInt8}

theorem WellFormed.unshared_tree (formed : WellFormed info ecam start) :
    Unshared (functionsOn info ecam) (leadsTo info ecam) start := by
  constructor
  case distinct =>
    intro bus _reached
    exact functionsOn_nodup info ecam bus
  case home =>
    intro bus bus' location member member'
    rw [← ((mem_functionsOn info ecam bus location).mp member).1,
      ((mem_functionsOn info ecam bus' location).mp member').1]
  case unique =>
    intro bus bus' location other below reached reached' member member' leads leads'
    rcases (mem_functionsOn info ecam bus location).mp member with ⟨rfl, present⟩
    rcases (mem_functionsOn info ecam bus' other).mp member' with ⟨rfl, present'⟩
    rcases (leadsTo_eq_some info ecam).mp leads with ⟨bridge, next⟩
    rcases (leadsTo_eq_some info ecam).mp leads' with ⟨bridge', next'⟩
    exact formed.unshared location other
      ((reaches_iff_busReached info ecam start location.1).mp reached)
      ((reaches_iff_busReached info ecam start other.1).mp reached') present present' bridge
      bridge' (next.trans next'.symm)

/-- The numbers of the buses below a bus are bounded, so the scan of a well-formed hierarchy
comes to an end. -/
theorem WellFormed.ends (formed : WellFormed info ecam start) :
    ∃ fuel, (explore (functionsOn info ecam) (leadsTo info ecam) fuel start []).isSome := by
  have up {bus next : UInt8} (reached : BusReached info ecam start bus)
      (bridgeTo : BridgeTo info ecam bus next) : bus.toNat < next.toNat := by
    rcases bridgeTo with ⟨location, present, home, bridge, leads⟩
    rw [← home] at reached
    rw [← home, ← leads]
    exact UInt8.lt_iff_toNat_lt.mp (formed.upward location reached present bridge)
  have below (room : Nat) (bus : UInt8) (reached : BusReached info ecam start bus)
      (few : 255 - bus.toNat ≤ room) :
      Acc (fun next above => Edge (functionsOn info ecam) (leadsTo info ecam) above next) bus := by
    induction room generalizing bus with
    | zero =>
        constructor
        intro next edge
        have higher := up reached ((edge_iff_bridgeTo info ecam bus next).mp edge)
        have small := next.toNat_lt
        omega
    | succ room inductionHypothesis =>
        constructor
        intro next edge
        have bridgeTo := (edge_iff_bridgeTo info ecam bus next).mp edge
        have higher := up reached bridgeTo
        exact inductionHypothesis next (reached.tail bridgeTo) (by omega)
  exact (ends_iff_acc start).mpr (below _ start Relation.ReflTransGen.refl (Nat.le_refl _))

end Hierarchy

/-- The scan ends exactly when no bus that it gets to can be reached from itself through
bridges. -/
theorem pci_scan_ends_iff (info : PciInfo) (ecam : Ecam) (start : UInt8)
    (devices : List Location) :
    (∃ fuel, (pciScan info ecam fuel start devices).isSome) ↔
      ∀ bus, BusReached info ecam start bus →
        ¬Relation.TransGen (BridgeTo info ecam) bus bus := by
  have same : Edge (functionsOn info ecam) (leadsTo info ecam) = BridgeTo info ecam := by
    funext bus next
    exact propext (edge_iff_bridgeTo info ecam bus next)
  have any (fuel : Nat) : (pciScan info ecam fuel start devices).isSome ↔
      (explore (functionsOn info ecam) (leadsTo info ecam) fuel start []).isSome := by
    rw [pciScan_eq_explore, explore_append, Option.isSome_map]
  have acyclic : (∃ fuel, (explore (functionsOn info ecam) (leadsTo info ecam) fuel start []).isSome) ↔
      ∀ bus, Reaches (functionsOn info ecam) (leadsTo info ecam) start bus →
        ¬Relation.TransGen (Edge (functionsOn info ecam) (leadsTo info ecam)) bus bus :=
    ends_iff_no_cycle start
  simp only [any, acyclic, reaches_iff_busReached, same]

/-! ### One bridge -/

def bridgeInfo : PciInfo := { rootBus := 0, ecamBaseAddr := 2 ^ 32 }

/-- The bytes of a configuration space with a bridge at bus 0, slot 0, function 0, and nothing
else. -/
def bridgeEcam (next : UInt8) : Ecam := fun add =>
  if add < 2 ^ 32 ∨ 2 ^ 32 + 4096 ≤ add then 0xFF
  else if add = 2 ^ 32 + 0xA then 4
  else if add = 2 ^ 32 + 0xB then 6
  else if add = 2 ^ 32 + 0xE then 1
  else if add = 2 ^ 32 + 0x19 then next
  else 0

theorem bridgeInfo_address (bus slot func : UInt8) {offset : Nat} (small : offset < 65536) :
    configAddress bridgeInfo bus slot func offset =
      2 ^ 32 + (bus.toNat * 2 ^ 20 + slot.toNat * 2 ^ 15 + func.toNat * 2 ^ 12 + offset) := by
  have busSmall := bus.toNat_lt
  have slotSmall := slot.toNat_lt
  have funcSmall := func.toNat_lt
  have root : bridgeInfo.rootBus.toNat = 0 := rfl
  have base : bridgeInfo.ecamBaseAddr = 2 ^ 32 := rfl
  rw [configAddress, root, base, addressSpace]
  simp only [Nat.shiftLeft_eq]
  omega

theorem bridgeEcam_absent (next : UInt8) {bus slot func : UInt8}
    (other : ¬(bus = 0 ∧ slot = 0 ∧ func = 0)) :
    pciReadWord bridgeInfo (bridgeEcam next) bus slot func 0 = 0xFFFF := by
  have far : 4096 ≤ bus.toNat * 2 ^ 20 + slot.toNat * 2 ^ 15 + func.toNat * 2 ^ 12 := by
    by_contra near
    apply other
    refine ⟨UInt8.toNat_inj.mp ?_, UInt8.toNat_inj.mp ?_, UInt8.toNat_inj.mp ?_⟩
    all_goals
      change _ = 0
      omega
  have ones {offset : Nat} (small : offset < 65536) :
      pciReadByte bridgeInfo (bridgeEcam next) bus slot func offset = 0xFF := by
    rw [pciReadByte, bridgeInfo_address bus slot func small, bridgeEcam, if_pos (by omega)]
  rw [pciReadWord, ones (by decide), ones (by decide)]
  rfl

theorem bridgeEcam_present (next : UInt8) (location : Location) :
    Present bridgeInfo (bridgeEcam next) location ↔ location = (0, 0, 0) := by
  constructor
  · intro present
    rcases location with ⟨bus, slot, func⟩
    by_contra other
    apply present.exists_
    apply bridgeEcam_absent
    intro same
    rcases same with ⟨rfl, rfl, rfl⟩
    exact other rfl
  · intro same
    rw [same]
    have word : pciReadWord bridgeInfo (bridgeEcam next) 0 0 0 0 ≠ 0xFFFF := by
      simp [pciReadWord, pciReadByte, bridgeInfo_address, bridgeEcam]
    exact ⟨by decide, by decide, word, word, Or.inl rfl⟩

theorem bridgeEcam_bridge (next : UInt8) : IsBridge bridgeInfo (bridgeEcam next) (0, 0, 0) := by
  simp [IsBridge, pciDevicePrint, pciReadDword, pciReadByte, bridgeInfo_address, bridgeEcam]

theorem bridgeEcam_secondary (next : UInt8) :
    secondaryBus bridgeInfo (bridgeEcam next) (0, 0, 0) = next := by
  have high : (256 * next.toNat) >>> 8 = next.toNat := by
    rw [Nat.shiftRight_eq_div_pow]
    omega
  simp [secondaryBus, pciReadWord, pciReadByte, bridgeInfo_address, bridgeEcam, high]

/-- The scan of a bridge to an empty bus ends. -/
theorem pci_scan_ends_bridge :
    ∃ fuel, (pciScan bridgeInfo (bridgeEcam 1) fuel 0 []).isSome := by
  apply (pci_scan_ends_iff bridgeInfo (bridgeEcam 1) 0 []).mpr
  have onlyBridge {bus next : UInt8} (bridge : BridgeTo bridgeInfo (bridgeEcam 1) bus next) :
      bus = 0 ∧ next = 1 := by
    rcases bridge with ⟨location, present, home, _, leads⟩
    rw [(bridgeEcam_present 1 location).mp present] at home leads
    rw [bridgeEcam_secondary] at leads
    exact ⟨home.symm, leads.symm⟩
  intro bus _reached loop
  rcases Relation.TransGen.head'_iff.mp loop with ⟨next, first, onward⟩
  rcases Relation.TransGen.tail'_iff.mp loop with ⟨above, _, last⟩
  have start := (onlyBridge first).1
  have stop := (onlyBridge last).2
  rw [start] at stop
  exact absurd stop (by decide)

/-- A bridge that the firmware left at secondary bus 0 on bus 0: no depth is enough. -/
theorem unconfigured_bridge_endless :
    BridgeTo bridgeInfo (bridgeEcam 0) 0 0 ∧
      ∀ fuel, pciScan bridgeInfo (bridgeEcam 0) fuel 0 [] = none := by
  have loop : BridgeTo bridgeInfo (bridgeEcam 0) 0 0 :=
    ⟨(0, 0, 0), (bridgeEcam_present 0 _).mpr rfl, rfl, bridgeEcam_bridge 0, bridgeEcam_secondary 0⟩
  refine ⟨loop, ?_⟩
  intro fuel
  rw [pciScan_eq_explore]
  by_contra ends
  have accessible := (ends_iff_acc 0).mp ⟨fuel, Option.isSome_iff_ne_none.mpr ends⟩
  exact not_rel_of_acc accessible ((edge_iff_bridgeTo _ _ 0 0).mpr loop)

end NyauxKernel.Pci
