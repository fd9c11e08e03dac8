/-
The ring protocol over every interleaving of driver and device steps.

The invariant relates the four sixteen-bit indices to the lengths of the four
histories.  The lengths are ordered along the life of a chain and never spread
over more than one turn of the ring, so the wrapped indices still tell them
apart and every pending entry still sits in its own slot.
-/

import NyauxKernel.Virtio.Queue

namespace NyauxKernel.Virtio

open RingWindow

/-- A sixteen-bit index stands for an unbounded position. -/
def Tracks (index : UInt16) (position : Nat) : Prop :=
  index.toNat = position % 2 ^ 16

variable {high index low : UInt16} {ahead behind position : Nat} {system : System}

theorem Tracks.succ (tracks : Tracks index position) : Tracks (index + 1) (position + 1) := by
  unfold Tracks at tracks ⊢
  rw [UInt16.toNat_add, tracks, UInt16.toNat_one]
  omega

variable {size : Nat} {after before : System}

theorem Tracks.slot (tracks : Tracks index position) (divides : size ∣ 2 ^ 16) :
    index.toNat % size = position % size := by
  rw [tracks, Nat.mod_mod_of_dvd position divides]

/-- Wrapping subtraction measures the true distance while it is below one wrap. -/
theorem Tracks.toNat_sub (tracksHigh : Tracks high ahead) (tracksLow : Tracks low behind)
    (ordered : behind ≤ ahead) (near : ahead - behind < 2 ^ 16) :
    (high - low).toNat = ahead - behind := by
  unfold Tracks at tracksHigh tracksLow
  rw [UInt16.toNat_sub, tracksHigh, tracksLow]
  omega

theorem Tracks.eq_iff (tracksHigh : Tracks high ahead) (tracksLow : Tracks low behind)
    (ordered : behind ≤ ahead) (near : ahead - behind < 2 ^ 16) : high = low ↔ ahead = behind := by
  unfold Tracks at tracksHigh tracksLow
  rw [← UInt16.toNat_inj, tracksHigh, tracksLow]
  omega

/-- What every reachable state of a queue of the given size satisfies. -/
structure Consistent (size : Nat) (system : System) : Prop where
  queueSize : system.vq.desc.queueSize = size
  availTracks : Tracks system.vq.availIdx system.submitted.length
  deviceTracks : Tracks system.device.availIdx system.taken.length
  usedTracks : Tracks system.vq.usedIdx system.posted.length
  consumerTracks : Tracks system.vq.consumerUsedIdx system.received.length
  receivedPrefix : system.received = system.posted.take system.received.length
  takenPrefix : system.taken = system.submitted.take system.taken.length
  receivedLe : system.received.length ≤ system.posted.length
  takenLe : system.taken.length ≤ system.submitted.length
  bounded : system.submitted.length ≤ system.received.length + size
  conserved : (system.posted.map VirtqUsedElem.id ++
    system.device.inFlight.map UInt16.toUInt32).Perm
      (system.taken.map UInt16.toUInt32)
  availHolds : Holds size system.vq.availRing system.submitted system.taken.length
  usedHolds : Holds size system.vq.usedRing system.posted system.received.length

theorem Consistent.posted_add_inFlight (consistent : Consistent size system) :
    system.posted.length + system.device.inFlight.length = system.taken.length := by
  have lengths := consistent.conserved.length_eq
  simpa using lengths

theorem consistent_start {vq : Virtq} (created : Virtq.new size = some vq) :
    Consistent size (System.start vq) := by
  have shape : vq.desc.queueSize = size ∧ vq.availIdx = 0 ∧ vq.usedIdx = 0 ∧
      vq.consumerUsedIdx = 0 := by
    by_cases empty : size = 0
    · simp [Virtq.new, FreelistDescPool.new, empty] at created
    · simp only [Virtq.new, FreelistDescPool.new, empty, if_false] at created
      cases created
      exact ⟨rfl, rfl, rfl, rfl⟩
  obtain ⟨sizeEq, availEq, usedEq, consumerEq⟩ := shape
  exact
    { queueSize := sizeEq
      availTracks := by
        change Tracks vq.availIdx 0
        rw [availEq]
        rfl
      deviceTracks := rfl
      usedTracks := by
        change Tracks vq.usedIdx 0
        rw [usedEq]
        rfl
      consumerTracks := by
        change Tracks vq.consumerUsedIdx 0
        rw [consumerEq]
        rfl
      receivedPrefix := rfl
      takenPrefix := rfl
      receivedLe := Nat.le_refl 0
      takenLe := Nat.le_refl 0
      bounded := Nat.zero_le _
      conserved := List.Perm.refl []
      availHolds := Holds.nil size vq.availRing 0
      usedHolds := Holds.nil size vq.usedRing 0 }

section Steps

/-- The wrapped difference the driver tests is the number of outstanding chains. -/
theorem Consistent.submitToQueue_eq (consistent : Consistent size system)
    (small : size < 2 ^ 16) (chain : UInt16) :
    system.vq.submitToQueue chain =
      if system.submitted.length = system.received.length + size then
        (.error (), system.vq)
      else (.ok (), system.vq.submit chain) := by
  have order : system.received.length ≤ system.submitted.length := by
    have posted := consistent.posted_add_inFlight
    have received := consistent.receivedLe
    have taken := consistent.takenLe
    omega
  have bounded := consistent.bounded
  have distance := consistent.availTracks.toNat_sub consistent.consumerTracks order (by omega)
  have sizeNat : (UInt16.ofNat system.vq.desc.queueSize).toNat = size := by
    rw [consistent.queueSize, UInt16.toNat_ofNat', Nat.mod_eq_of_lt small]
  have full : system.vq.availIdx - system.vq.consumerUsedIdx ≥
      UInt16.ofNat system.vq.desc.queueSize ↔
        system.submitted.length = system.received.length + size := by
    rw [ge_iff_le, UInt16.le_iff_toNat_le, sizeNat, distance]
    omega
  unfold Virtq.submitToQueue
  simp only [full]

theorem Consistent.submit (consistent : Consistent size system)
    (divides : size ∣ 2 ^ 16) (small : size < 2 ^ 16) (chain : UInt16) :
    Consistent size (system.submit chain) := by
  unfold System.submit
  rw [consistent.submitToQueue_eq small chain]
  by_cases full : system.submitted.length = system.received.length + size
  · rw [if_pos full]
    exact consistent
  · rw [if_neg full]
    have posted := consistent.posted_add_inFlight
    have received := consistent.receivedLe
    have taken := consistent.takenLe
    have bounded := consistent.bounded
    have slot : system.vq.availIdx.toNat % system.vq.desc.queueSize =
        system.submitted.length % size := by
      rw [consistent.queueSize]
      exact consistent.availTracks.slot divides
    exact
      { queueSize := consistent.queueSize
        availTracks := by
          change Tracks (system.vq.availIdx + 1) (system.submitted ++ [chain]).length
          rw [List.length_append, List.length_singleton]
          exact consistent.availTracks.succ
        deviceTracks := consistent.deviceTracks
        usedTracks := consistent.usedTracks
        consumerTracks := consistent.consumerTracks
        receivedPrefix := consistent.receivedPrefix
        takenPrefix := by
          change system.taken = (system.submitted ++ [chain]).take system.taken.length
          rw [List.take_append_of_le_length taken]
          exact consistent.takenPrefix
        receivedLe := received
        takenLe := by
          change system.taken.length ≤ (system.submitted ++ [chain]).length
          rw [List.length_append]
          omega
        bounded := by
          change (system.submitted ++ [chain]).length ≤ system.received.length + size
          rw [List.length_append, List.length_singleton]
          omega
        conserved := consistent.conserved
        availHolds := by
          change Holds size (Function.update system.vq.availRing
            (system.vq.availIdx.toNat % system.vq.desc.queueSize) chain)
            (system.submitted ++ [chain]) system.taken.length
          rw [slot]
          exact consistent.availHolds.push (by omega) chain
        usedHolds := consistent.usedHolds }

theorem Consistent.receive (consistent : Consistent size system)
    (divides : size ∣ 2 ^ 16) (small : size < 2 ^ 16)
    (element : VirtqUsedElem) (vq : Virtq)
    (ready : system.vq.readUsedQueueBlocking = some (element, vq)) :
    Consistent size
      { system with vq := vq, received := system.received ++ [element] } := by
  have posted := consistent.posted_add_inFlight
  have received := consistent.receivedLe
  have taken := consistent.takenLe
  have bounded := consistent.bounded
  unfold Virtq.readUsedQueueBlocking at ready
  by_cases idle : system.vq.usedIdx = system.vq.consumerUsedIdx
  · rw [if_pos idle] at ready
    cases ready
  · rw [if_neg idle] at ready
    have pending : system.received.length < system.posted.length := by
      have same := consistent.usedTracks.eq_iff consistent.consumerTracks received (by omega)
      have different : system.posted.length ≠ system.received.length :=
        fun equal => idle (same.mpr equal)
      omega
    have slot : system.vq.consumerUsedIdx.toNat % system.vq.desc.queueSize =
        system.received.length % size := by
      rw [consistent.queueSize]
      exact consistent.consumerTracks.slot divides
    simp only [slot, Option.some.injEq, Prod.mk.injEq] at ready
    obtain ⟨rfl, rfl⟩ := ready
    exact
      { queueSize := consistent.queueSize
        availTracks := consistent.availTracks
        deviceTracks := consistent.deviceTracks
        usedTracks := consistent.usedTracks
        consumerTracks := by
          simpa using consistent.consumerTracks.succ
        receivedPrefix := by
          rw [List.length_append, List.length_singleton,
            consistent.usedHolds.take_succ pending, ← consistent.receivedPrefix]
        takenPrefix := consistent.takenPrefix
        receivedLe := by
          rw [List.length_append, List.length_singleton]
          exact pending
        takenLe := taken
        bounded := by
          rw [List.length_append, List.length_singleton]
          change system.submitted.length ≤ _
          omega
        conserved := consistent.conserved
        availHolds := consistent.availHolds
        usedHolds := by
          rw [List.length_append, List.length_singleton]
          exact consistent.usedHolds.advance (Nat.le_succ _) }

theorem Consistent.take (consistent : Consistent size system)
    (divides : size ∣ 2 ^ 16) (small : size < 2 ^ 16)
    (available : system.device.availIdx ≠ system.vq.availIdx) :
    Consistent size system.take := by
  have posted := consistent.posted_add_inFlight
  have received := consistent.receivedLe
  have taken := consistent.takenLe
  have bounded := consistent.bounded
  have pending : system.taken.length < system.submitted.length := by
    have same := consistent.availTracks.eq_iff consistent.deviceTracks taken (by omega)
    have different : system.submitted.length ≠ system.taken.length :=
      fun equal => available (same.mpr equal).symm
    omega
  have slot : system.device.availIdx.toNat % system.vq.desc.queueSize =
      system.taken.length % size := by
    rw [consistent.queueSize]
    exact consistent.deviceTracks.slot divides
  have found : system.nextAvail = system.vq.availRing (system.taken.length % size) := by
    unfold System.nextAvail
    rw [slot]
  exact
    { queueSize := consistent.queueSize
      availTracks := consistent.availTracks
      deviceTracks := by
        simpa [System.take] using consistent.deviceTracks.succ
      usedTracks := consistent.usedTracks
      consumerTracks := consistent.consumerTracks
      receivedPrefix := consistent.receivedPrefix
      takenPrefix := by
        change system.taken ++ [system.nextAvail] =
          system.submitted.take (system.taken ++ [system.nextAvail]).length
        rw [List.length_append, List.length_singleton,
          consistent.availHolds.take_succ pending, ← consistent.takenPrefix, found]
      receivedLe := received
      takenLe := by
        change (system.taken ++ [system.nextAvail]).length ≤ system.submitted.length
        rw [List.length_append, List.length_singleton]
        exact pending
      bounded := bounded
      conserved := by
        change (system.posted.map VirtqUsedElem.id ++
          (system.device.inFlight ++ [system.nextAvail]).map UInt16.toUInt32).Perm
            ((system.taken ++ [system.nextAvail]).map UInt16.toUInt32)
        rw [List.map_append, List.map_append, ← List.append_assoc]
        exact consistent.conserved.append_right _
      availHolds := by
        change Holds size system.vq.availRing system.submitted
          (system.taken ++ [system.nextAvail]).length
        rw [List.length_append, List.length_singleton]
        exact consistent.availHolds.advance (Nat.le_succ _)
      usedHolds := consistent.usedHolds }

theorem Consistent.complete (consistent : Consistent size system)
    (divides : size ∣ 2 ^ 16) (chain : UInt16) (len : UInt32)
    (held : chain ∈ system.device.inFlight) :
    Consistent size (system.complete chain len) := by
  have posted := consistent.posted_add_inFlight
  have received := consistent.receivedLe
  have taken := consistent.takenLe
  have bounded := consistent.bounded
  have some : 0 < system.device.inFlight.length := List.length_pos_of_mem held
  have slot : system.vq.usedIdx.toNat % system.vq.desc.queueSize =
      system.posted.length % size := by
    rw [consistent.queueSize]
    exact consistent.usedTracks.slot divides
  exact
    { queueSize := consistent.queueSize
      availTracks := consistent.availTracks
      deviceTracks := consistent.deviceTracks
      usedTracks := by
        simpa [System.complete, Virtq.post] using consistent.usedTracks.succ
      consumerTracks := consistent.consumerTracks
      receivedPrefix := by
        change system.received = (system.posted ++ [_]).take system.received.length
        rw [List.take_append_of_le_length received]
        exact consistent.receivedPrefix
      takenPrefix := consistent.takenPrefix
      receivedLe := by
        change system.received.length ≤ (system.posted ++ [_]).length
        rw [List.length_append]
        omega
      takenLe := taken
      bounded := bounded
      conserved := by
        have moved : (chain :: system.device.inFlight.erase chain).Perm
            system.device.inFlight := (List.perm_cons_erase held).symm
        have images := moved.map UInt16.toUInt32
        change ((system.posted ++ [(⟨chain.toUInt32, len⟩ : VirtqUsedElem)]).map
          VirtqUsedElem.id ++ (system.device.inFlight.erase chain).map UInt16.toUInt32).Perm
            (system.taken.map UInt16.toUInt32)
        rw [List.map_append, List.append_assoc]
        exact (images.append_left _).trans consistent.conserved
      availHolds := consistent.availHolds
      usedHolds := by
        change Holds size (Function.update system.vq.usedRing
          (system.vq.usedIdx.toNat % system.vq.desc.queueSize) ⟨chain.toUInt32, len⟩)
          (system.posted ++ [⟨chain.toUInt32, len⟩]) system.received.length
        rw [slot]
        exact consistent.usedHolds.push (by omega) _ }

end Steps

theorem Consistent.step (consistent : Consistent size before) (divides : size ∣ 2 ^ 16)
    (small : size < 2 ^ 16) (step : Step before after) : Consistent size after := by
  cases step with
  | submit chain => exact consistent.submit divides small chain
  | receive element vq ready => exact consistent.receive divides small element vq ready
  | take available => exact consistent.take divides small available
  | complete chain len held => exact consistent.complete divides chain len held

theorem Reachable.consistent (divides : size ∣ 2 ^ 16) (small : size < 2 ^ 16)
    (reachable : Reachable size system) : Consistent size system := by
  obtain ⟨vq, created, run⟩ := reachable
  induction run with
  | refl => exact consistent_start created
  | tail _earlier step ih => exact ih.step divides small step

/-! ### The protocol guarantee -/

/-- Slots of the available ring that hold a chain the device has not taken. -/
def System.UnreadAvail (system : System) (slot : Nat) : Prop :=
  ∃ position, system.taken.length ≤ position ∧ position < system.submitted.length ∧
    slot = position % system.vq.desc.queueSize

/-- Slots of the used ring that hold an element the driver has not read. -/
def System.UnreadUsed (system : System) (slot : Nat) : Prop :=
  ∃ position, system.received.length ≤ position ∧ position < system.posted.length ∧
    slot = position % system.vq.desc.queueSize

/-- What a step does to the two rings: a submission that is not refused writes the slot behind the
submitted chains, and a completion the slot behind the posted elements. -/
theorem Consistent.rings_step (consistent : Consistent size before) (divides : size ∣ 2 ^ 16)
    (small : size < 2 ^ 16) (step : Step before after) :
    (after.vq.availRing = before.vq.availRing ∨
      ∃ chain, before.submitted.length ≠ before.received.length + size ∧
        after.vq.availRing = Function.update before.vq.availRing
          (before.submitted.length % size) chain) ∧
    (after.vq.usedRing = before.vq.usedRing ∨
      ∃ element, 0 < before.device.inFlight.length ∧
        after.vq.usedRing = Function.update before.vq.usedRing
          (before.posted.length % size) element) := by
  cases step with
  | submit chain =>
      unfold System.submit
      rw [consistent.submitToQueue_eq small chain]
      by_cases full : before.submitted.length = before.received.length + size
      · rw [if_pos full]
        exact ⟨Or.inl rfl, Or.inl rfl⟩
      · rw [if_neg full]
        refine ⟨Or.inr ⟨chain, full, ?_⟩, Or.inl rfl⟩
        change Function.update before.vq.availRing
          (before.vq.availIdx.toNat % before.vq.desc.queueSize) chain = _
        rw [consistent.queueSize, consistent.availTracks.slot divides]
  | receive element vq ready =>
      unfold Virtq.readUsedQueueBlocking at ready
      split at ready
      · cases ready
      · cases ready
        exact ⟨Or.inl rfl, Or.inl rfl⟩
  | take available => exact ⟨Or.inl rfl, Or.inl rfl⟩
  | complete chain len held =>
      refine ⟨Or.inl rfl, Or.inr ⟨⟨chain.toUInt32, len⟩, List.length_pos_of_mem held, ?_⟩⟩
      change Function.update before.vq.usedRing
        (before.vq.usedIdx.toNat % before.vq.desc.queueSize) _ = _
      rw [consistent.queueSize, consistent.usedTracks.slot divides]

theorem Consistent.availRing_step (consistent : Consistent size before) (divides : size ∣ 2 ^ 16)
    (small : size < 2 ^ 16) (step : Step before after) (slot : Nat)
    (unread : before.UnreadAvail slot) : after.vq.availRing slot = before.vq.availRing slot := by
  rcases (consistent.rings_step divides small step).1 with same | ⟨chain, notFull, written⟩
  · rw [same]
  · rcases unread with ⟨position, above, below, rfl⟩
    have posted := consistent.posted_add_inFlight
    have received := consistent.receivedLe
    have bounded := consistent.bounded
    rw [written, consistent.queueSize]
    exact Function.update_of_ne (slot_ne below (by omega)) _ _

theorem Consistent.usedRing_step (consistent : Consistent size before) (divides : size ∣ 2 ^ 16)
    (small : size < 2 ^ 16) (step : Step before after) (slot : Nat)
    (unread : before.UnreadUsed slot) : after.vq.usedRing slot = before.vq.usedRing slot := by
  rcases (consistent.rings_step divides small step).2 with same | ⟨element, inFlight, written⟩
  · rw [same]
  · rcases unread with ⟨position, above, below, rfl⟩
    have posted := consistent.posted_add_inFlight
    have taken := consistent.takenLe
    have bounded := consistent.bounded
    rw [written, consistent.queueSize]
    exact Function.update_of_ne (slot_ne below (by omega)) _ _

/-- Over every interleaving, also past the wrap of all indices, chains and used
elements travel in order without loss, no pending slot is overwritten, and the
driver refuses a submission exactly when the ring is full. -/
theorem virtqueue_loses_nothing {exponent : Nat} (small : exponent ≤ 8)
    {system : System} (reachable : Reachable (2 ^ exponent) system) :
    system.taken <+: system.submitted ∧
    system.received <+: system.posted ∧
    (system.posted.map VirtqUsedElem.id ++
      system.device.inFlight.map UInt16.toUInt32).Perm
        (system.taken.map UInt16.toUInt32) ∧
    (∀ next, Step system next →
      (∀ slot, system.UnreadAvail slot →
        next.vq.availRing slot = system.vq.availRing slot) ∧
      (∀ slot, system.UnreadUsed slot →
        next.vq.usedRing slot = system.vq.usedRing slot)) ∧
    system.received.length ≤ system.submitted.length ∧
    system.outstanding ≤ 2 ^ exponent ∧
    (∀ chain, (system.vq.submitToQueue chain).1 = .error () ↔
      system.outstanding = 2 ^ exponent) ∧
    (∀ chain, system.outstanding = 2 ^ exponent → system.submit chain = system) := by
  have divides : 2 ^ exponent ∣ 2 ^ 16 := Nat.pow_dvd_pow 2 (by omega)
  have narrow : 2 ^ exponent < 2 ^ 16 := Nat.pow_lt_pow_right (by omega) (by omega)
  have consistent := reachable.consistent divides narrow
  have posted := consistent.posted_add_inFlight
  have received := consistent.receivedLe
  have taken := consistent.takenLe
  have bounded := consistent.bounded
  have full : system.outstanding = 2 ^ exponent ↔
      system.submitted.length = system.received.length + 2 ^ exponent := by
    have positive := Nat.two_pow_pos exponent
    unfold System.outstanding
    omega
  refine ⟨?_, ?_, consistent.conserved, ?_, by omega, ?_, ?_, ?_⟩
  · rw [consistent.takenPrefix]
    exact List.take_prefix _ _
  · rw [consistent.receivedPrefix]
    exact List.take_prefix _ _
  · intro next step
    exact ⟨consistent.availRing_step divides narrow step,
      consistent.usedRing_step divides narrow step⟩
  · unfold System.outstanding
    omega
  · intro chain
    rw [consistent.submitToQueue_eq narrow chain, full]
    by_cases atLimit : system.submitted.length = system.received.length + 2 ^ exponent
    · simp [atLimit]
    · simp [atLimit]
  · intro chain atLimit
    unfold System.submit
    rw [consistent.submitToQueue_eq narrow chain, if_pos (full.mp atLimit)]

/-- One chain goes all the way round a queue of two slots. -/
theorem virtqueue_loses_nothing_round_trip :
    ∃ system, Reachable (2 ^ 1) system ∧ system.received = [{ id := 7, len := 12 }] ∧
      system.taken <+: system.submitted ∧ system.received <+: system.posted := by
  obtain ⟨vq, created⟩ : ∃ vq, Virtq.new (2 ^ 1) = some vq := ⟨_, rfl⟩
  have reachable : Reachable (2 ^ 1)
      { ((((System.start vq).submit 7).take).complete 7 12) with
        vq := { ((((System.start vq).submit 7).take).complete 7 12).vq with
          consumerUsedIdx := 1 }
        received := [{ id := 7, len := 12 }] } := by
    refine ⟨vq, created, ?_⟩
    cases created
    refine ((((Relation.ReflTransGen.refl).tail (Step.submit _ 7)).tail
      (Step.take _ ?_)).tail (Step.complete _ 7 12 ?_)).tail
        (Step.receive _ { id := 7, len := 12 } _ ?_)
    · decide
    · decide
    · rfl
  have guarantee := virtqueue_loses_nothing (by decide) reachable
  exact ⟨_, reachable, rfl, guarantee.1, guarantee.2.1⟩

end NyauxKernel.Virtio
