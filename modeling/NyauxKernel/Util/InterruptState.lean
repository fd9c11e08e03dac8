/-
The interrupt flag under nested locks.

If every CPU gives its locks back in the reverse order, then its flag is clear while it
holds a lock, and outside of locks the flag is what the CPU itself made it.  The guards of
an activity remember the flag at each depth: the flag from outside for the first lock, and
a clear flag for every further one.
-/

import NyauxKernel.Util.SpinLocks

namespace NyauxKernel.Locks

section Depths

variable {σ ρ : Type}

/-- The flag that code finds when these locks are held. -/
def flagAt (outside : Bool) : List (Guard σ ρ) → Bool
  | [] => outside
  | _ :: _ => false

/-- Every guard remembers the flag of its depth. -/
def Chained (outside : Bool) : List (Guard σ ρ) → Prop
  | [] => True
  | guard :: rest => guard.prev = flagAt outside rest ∧ Chained outside rest

/-- The flag and the remembered flag at each point of the code. -/
def Frame.PcOk (frame : Frame σ ρ) (interrupts : Bool) : Prop :=
  match frame.pc with
  | .idle => interrupts = flagAt frame.outside frame.held
  | .disable _ prev => prev = flagAt frame.outside frame.held ∧ interrupts = prev
  | .attempt _ prev | .exchange _ prev _ | .pause _ prev | .restore prev =>
      prev = flagAt frame.outside frame.held ∧ interrupts = false
  | .store lock prev =>
      interrupts = false ∧ frame.held.head? = some { target := .spin lock, prev := prev }
  | .load guard lock =>
      interrupts = false ∧ frame.held.head? = some guard ∧ guard.target = .spin lock
  | .release guard prev =>
      interrupts = false ∧ frame.held.head? = some guard ∧ prev = guard.prev

/-- An activity is interrupted only while its flag is set, and then holds no lock. -/
structure Cpu.Ok (cpu : Cpu σ ρ) : Prop where
  chained : Chained cpu.frame.outside cpu.frame.held
  pc : cpu.frame.PcOk cpu.interrupts
  below : ∀ frame ∈ cpu.below, frame.held = [] ∧ frame.PcOk true

theorem held_eq_nil_of_flagAt {outside : Bool} {held : List (Guard σ ρ)}
    (set : flagAt outside held = true) : held = [] := by
  cases held with
  | nil => rfl
  | cons guard rest => cases set

theorem Frame.PcOk.held_eq_nil {frame : Frame σ ρ} (ok : frame.PcOk true) : frame.held = [] := by
  unfold Frame.PcOk at ok
  split at ok
  case h_1 => exact held_eq_nil_of_flagAt ok.symm
  case h_2 => exact held_eq_nil_of_flagAt (ok.1.symm.trans ok.2.symm)
  case h_3 => cases ok.2
  case h_4 => cases ok.2
  case h_5 => cases ok.2
  case h_6 => cases ok.2
  case h_7 => cases ok.1
  case h_8 => cases ok.1
  case h_9 => cases ok.1

theorem Cpu.Ok.interrupts_eq_false {cpu : Cpu σ ρ} (ok : cpu.Ok) (locked : cpu.frame.held ≠ []) :
    cpu.interrupts = false := by
  cases flag : cpu.interrupts with
  | false => rfl
  | true => exact absurd (Frame.PcOk.held_eq_nil (flag ▸ ok.pc)) locked

/-- The CPU is outside of the code of the locks and holds none. -/
def Cpu.Outside (cpu : Cpu σ ρ) : Prop :=
  cpu.frame.pc = .idle ∧ cpu.frame.held = []

theorem Cpu.Ok.outside_eq {cpu : Cpu σ ρ} (ok : cpu.Ok) (outside : cpu.Outside) :
    cpu.interrupts = cpu.frame.outside := by
  have pcOk := ok.pc
  unfold Frame.PcOk at pcOk
  rw [outside.1, outside.2] at pcOk
  exact pcOk

variable [DecidableEq σ] [DecidableEq ρ]

/-- A move of a CPU that gives locks back in order keeps the flags right, if the flag that
it loads is the one it saved. -/
theorem Cpu.Ok.moved {cpu cpu' : Cpu σ ρ} {shared shared' : Shared σ ρ} {act : Act σ ρ}
    (ok : cpu.Ok) (nested : ∀ guard, act = .unlock guard → cpu.frame.held.head? = some guard)
    (saved : ∀ guard lock, cpu.frame.pc = .load guard lock →
      (shared.spins lock).prev = guard.prev)
    (moved : Moved cpu shared act shared' cpu') : cpu'.Ok := by
  have pcOk := ok.pc
  have chained := ok.chained
  unfold Frame.PcOk at pcOk
  cases moved with
  | lock target idle =>
      rw [idle] at pcOk
      exact ⟨chained, ⟨pcOk, rfl⟩, ok.below⟩
  | unlock guard idle live =>
      have clear := ok.interrupts_eq_false (List.ne_nil_of_mem live)
      have top := nested guard rfl
      refine ⟨chained, ?_, ok.below⟩
      unfold Frame.PcOk Cpu.goto Guard.dropPc
      cases targetEq : guard.target with
      | spin lock => exact ⟨clear, top, targetEq⟩
      | read lock => exact ⟨clear, top, rfl⟩
      | write lock => exact ⟨clear, top, rfl⟩
  | disable here =>
      rw [here] at pcOk
      exact ⟨chained, ⟨pcOk.1, rfl⟩, ok.below⟩
  | retry trying =>
      refine ⟨chained, ?_, ok.below⟩
      rcases trying with here | ⟨lock, old, _, here⟩
      · rw [here] at pcOk
        exact pcOk
      · rw [here] at pcOk
        exact pcOk
  | takeSpin here free =>
      rw [here] at pcOk
      exact ⟨⟨pcOk.1, chained⟩, ⟨pcOk.2, rfl⟩, ok.below⟩
  | see here small =>
      rw [here] at pcOk
      exact ⟨chained, pcOk, ok.below⟩
  | takeRead here =>
      rw [here] at pcOk
      exact ⟨⟨pcOk.1, chained⟩, pcOk.2, ok.below⟩
  | takeWrite here free =>
      rw [here] at pcOk
      exact ⟨⟨pcOk.1, chained⟩, pcOk.2, ok.below⟩
  | @pause target prev spurious here =>
      rw [here] at pcOk
      refine ⟨chained, ⟨pcOk.1, ?_⟩, ok.below⟩
      change (if prev then true else cpu.interrupts) = prev
      rw [pcOk.2]
      cases prev <;> rfl
  | store here =>
      rw [here] at pcOk
      refine ⟨chained, ?_, ok.below⟩
      change cpu.interrupts = flagAt cpu.frame.outside cpu.frame.held
      obtain ⟨rest, split⟩ := List.head?_eq_some_iff.mp pcOk.2
      rw [split, pcOk.1]
      rfl
  | load here =>
      rw [here] at pcOk
      exact ⟨chained, ⟨pcOk.1, pcOk.2.1, saved _ _ here⟩, ok.below⟩
  | @release guard prev spurious here =>
      rw [here] at pcOk
      obtain ⟨clear, top, same⟩ := pcOk
      obtain ⟨rest, split⟩ := List.head?_eq_some_iff.mp top
      have left : cpu.frame.held.erase guard = rest := by
        rw [split, List.erase_cons_head]
      rw [split] at chained
      refine ⟨?_, ?_, ok.below⟩
      · change Chained cpu.frame.outside (cpu.frame.held.erase guard)
        rw [left]
        exact chained.2
      · change prev = flagAt cpu.frame.outside (cpu.frame.held.erase guard) ∧ _
        rw [left, same]
        exact ⟨chained.1, clear⟩
  | @restore prev spurious here =>
      rw [here] at pcOk
      refine ⟨chained, ?_, ok.below⟩
      change (if prev then true else cpu.interrupts) = flagAt cpu.frame.outside cpu.frame.held
      rw [pcOk.2, ← pcOk.1]
      cases prev <;> rfl
  | interrupt enabled =>
      refine ⟨trivial, rfl, ?_⟩
      intro frame member
      rcases List.mem_cons.mp member with rfl | older
      · have set : cpu.frame.PcOk true := enabled ▸ ok.pc
        exact ⟨set.held_eq_nil, set⟩
      · exact ok.below frame older
  | @iret frame below idle none interrupted =>
      have frames := ok.below
      rw [interrupted] at frames
      obtain ⟨empty, set⟩ := frames frame List.mem_cons_self
      refine ⟨?_, set, fun other member => frames other (List.mem_cons_of_mem frame member)⟩
      rw [empty]
      trivial
  | setInterrupts value idle none =>
      refine ⟨?_, ?_, ok.below⟩
      · change Chained value cpu.frame.held
        rw [none]
        trivial
      · unfold Frame.PcOk
        rw [idle, none]
        rfl

end Depths

/-! ### Who holds a spin lock -/

section Owners

variable {ι σ ρ : Type} [DecidableEq σ] [DecidableEq ρ]

def spinCount (held : List (Guard σ ρ)) (lock : σ) : Nat :=
  held.countP fun guard => guard.target = .spin lock

theorem spinCount_cons (guard : Guard σ ρ) (rest : List (Guard σ ρ)) (lock : σ) :
    spinCount (guard :: rest) lock =
      spinCount rest lock + if guard.target = .spin lock then 1 else 0 := by
  unfold spinCount
  rw [List.countP_cons]
  simp only [decide_eq_true_eq]

variable {s s' : System ι σ ρ} {index : ι} {act : Act σ ρ} {lock : σ} {guard : Guard σ ρ}

theorem spinCount_pos {held : List (Guard σ ρ)} (member : guard ∈ held)
    (isSpin : guard.target = .spin lock) : 0 < spinCount held lock :=
  List.countP_pos_iff.mpr ⟨guard, member, decide_eq_true isSpin⟩

/-- How often the running activity of the CPU holds the spin lock. -/
def Cpu.spinHeld (cpu : Cpu σ ρ) (lock : σ) : Nat := spinCount cpu.frame.held lock

/-- A spin lock has one holder or none, and the flag in it is the holder's, once that is
stored. -/
structure SpinOwners (s : System ι σ ρ) : Prop where
  free : ∀ lock, (s.shared.spins lock).locked = false → ∀ index, (s.cpus index).spinHeld lock = 0
  single : ∀ lock index, (s.cpus index).spinHeld lock ≤ 1
  unique : ∀ lock left right, 0 < (s.cpus left).spinHeld lock →
    0 < (s.cpus right).spinHeld lock → left = right
  saved : ∀ index lock, ∀ guard ∈ (s.cpus index).frame.held, guard.target = .spin lock →
    (s.shared.spins lock).prev = guard.prev ∨
      (s.cpus index).frame.pc = .store lock guard.prev

namespace SpinOwners

variable {cpu : Cpu σ ρ} {shared : Shared σ ρ}

variable {prev : Bool} {pc : Pc σ ρ}

/-- The holder is the only one. -/
theorem alone (owners : SpinOwners s) (member : guard ∈ (s.cpus index).frame.held)
    (isSpin : guard.target = .spin lock) :
    ∀ other, other ≠ index → (s.cpus other).spinHeld lock = 0 := by
  intro other different
  by_contra holds
  exact different (owners.unique lock other index (Nat.pos_of_ne_zero holds)
    (spinCount_pos member isSpin))

theorem start (interrupts : ι → Bool) :
    SpinOwners (System.start interrupts : System ι σ ρ) where
  free := fun _ _ _ => rfl
  single := fun _ _ => Nat.zero_le 1
  unique := fun _ _ _ holds => absurd holds (Nat.lt_irrefl 0)
  saved := fun _ _ _ member => absurd member List.not_mem_nil

variable [DecidableEq ι]

/-- A move that neither takes, stores to nor gives back a spin lock. -/
theorem quiet (owners : SpinOwners s) (spinsEq : shared.spins = s.shared.spins)
    (counts : ∀ lock, cpu.spinHeld lock = (s.cpus index).spinHeld lock)
    (members : ∀ lock, ∀ guard ∈ cpu.frame.held, guard.target = .spin lock →
      guard ∈ (s.cpus index).frame.held)
    (elsewhere : ∀ lock prev, (s.cpus index).frame.pc ≠ .store lock prev) :
    SpinOwners { shared := shared, cpus := Function.update s.cpus index cpu } := by
  have same : ∀ lock other,
      (Function.update s.cpus index cpu other).spinHeld lock = (s.cpus other).spinHeld lock := by
    intro lock other
    by_cases chosen : other = index
    · subst chosen
      rw [Function.update_self, counts]
    · rw [Function.update_of_ne chosen]
  constructor
  · intro lock unlocked other
    rw [same]
    exact owners.free lock (spinsEq ▸ unlocked) other
  · intro lock other
    rw [same]
    exact owners.single lock other
  · intro lock left right
    rw [same, same]
    exact owners.unique lock left right
  · intro other lock guard
    change guard ∈ (Function.update s.cpus index cpu other).frame.held → _ →
      (shared.spins lock).prev = _ ∨ (Function.update s.cpus index cpu other).frame.pc = _
    rw [spinsEq]
    by_cases chosen : other = index
    · subst chosen
      rw [Function.update_self]
      intro member isSpin
      left
      exact (owners.saved other lock guard (members lock guard member isSpin) isSpin).resolve_right
        (elsewhere lock guard.prev)
    · rw [Function.update_of_ne chosen]
      exact owners.saved other lock guard

/-- A move at another point of the code that keeps the held locks. -/
theorem still (owners : SpinOwners s) (spinsEq : shared.spins = s.shared.spins)
    (heldEq : cpu.frame.held = (s.cpus index).frame.held) (here : (s.cpus index).frame.pc = pc)
    (elsewhere : ∀ lock prev, pc ≠ .store lock prev) :
    SpinOwners { shared := shared, cpus := Function.update s.cpus index cpu } := by
  refine owners.quiet spinsEq ?_ ?_ ?_
  · intro lock
    rw [Cpu.spinHeld, heldEq, Cpu.spinHeld]
  · intro lock guard member _
    exact heldEq ▸ member
  · rw [here]
    exact elsewhere

/-- A reader-writer lock is taken. -/
theorem takeOther (owners : SpinOwners s) (spinsEq : shared.spins = s.shared.spins) {pc' : Pc σ ρ}
    (here : (s.cpus index).frame.pc = pc) (elsewhere : ∀ lock prev, pc ≠ .store lock prev)
    (other : ∀ lock, guard.target ≠ .spin lock) :
    SpinOwners
      { shared := shared
        cpus := Function.update s.cpus index ((s.cpus index).take guard pc') } := by
  refine owners.quiet spinsEq ?_ ?_ ?_
  · intro lock
    exact (spinCount_cons ..).trans (by rw [if_neg (other lock)]; rfl)
  · intro lock kept member isSpin
    rcases List.mem_cons.mp member with rfl | older
    · exact absurd isSpin (other lock)
    · exact older
  · rw [here]
    exact elsewhere

/-- A reader-writer lock is given back. -/
theorem dropOther (owners : SpinOwners s) (spinsEq : shared.spins = s.shared.spins)
    (here : (s.cpus index).frame.pc = .release guard prev)
    (top : (s.cpus index).frame.held.head? = some guard) (other : ∀ lock, guard.target ≠ .spin lock) :
    SpinOwners
      { shared := shared
        cpus := Function.update s.cpus index ((s.cpus index).drop guard (.restore prev)) } := by
  obtain ⟨rest, split⟩ := List.head?_eq_some_iff.mp top
  have heldEq : ((s.cpus index).drop guard (.restore prev)).frame.held = rest := by
    change (s.cpus index).frame.held.erase guard = rest
    rw [split, List.erase_cons_head]
  refine owners.quiet spinsEq ?_ ?_ ?_
  · intro lock
    rw [Cpu.spinHeld, heldEq, Cpu.spinHeld, split, spinCount_cons, if_neg (other lock),
      Nat.add_zero]
  · intro lock kept member _
    rw [heldEq] at member
    rw [split]
    exact List.mem_cons_of_mem guard member
  · intro lock prev same
    rw [here] at same
    cases same

/-- A move that touches one spin lock that no other CPU holds. -/
theorem touch (owners : SpinOwners s) {value : SpinLock}
    (counts : ∀ other, other ≠ lock → cpu.spinHeld other = (s.cpus index).spinHeld other)
    (members : ∀ other, other ≠ lock → ∀ guard ∈ cpu.frame.held, guard.target = .spin other →
      guard ∈ (s.cpus index).frame.held)
    (elsewhere : ∀ other, other ≠ lock → ∀ prev, (s.cpus index).frame.pc ≠ .store other prev)
    (alone : ∀ other, other ≠ index → (s.cpus other).spinHeld lock = 0)
    (single : cpu.spinHeld lock ≤ 1) (free : value.locked = false → cpu.spinHeld lock = 0)
    (saved : ∀ guard ∈ cpu.frame.held, guard.target = .spin lock →
      value.prev = guard.prev ∨ cpu.frame.pc = .store lock guard.prev) :
    SpinOwners
      { shared := s.shared.setSpin lock value, cpus := Function.update s.cpus index cpu } := by
  have kept : ∀ other, other ≠ lock → ∀ holder,
      (Function.update s.cpus index cpu holder).spinHeld other =
        (s.cpus holder).spinHeld other := by
    intro other different holder
    by_cases chosen : holder = index
    · subst chosen
      rw [Function.update_self, counts other different]
    · rw [Function.update_of_ne chosen]
  have away : ∀ holder, holder ≠ index →
      (Function.update s.cpus index cpu holder).spinHeld lock = 0 := by
    intro holder chosen
    rw [Function.update_of_ne chosen]
    exact alone holder chosen
  refine ⟨?_, ?_, ?_, ?_⟩
  · intro other unlocked holder
    change (Function.update s.shared.spins lock value other).locked = false at unlocked
    by_cases touched : other = lock
    · subst touched
      rw [Function.update_self] at unlocked
      by_cases chosen : holder = index
      · subst chosen
        change (Function.update s.cpus holder cpu holder).spinHeld other = 0
        rw [Function.update_self]
        exact free unlocked
      · exact away holder chosen
    · rw [Function.update_of_ne touched] at unlocked
      exact (kept other touched holder).trans (owners.free other unlocked holder)
  · intro other holder
    by_cases touched : other = lock
    · subst touched
      by_cases chosen : holder = index
      · subst chosen
        change (Function.update s.cpus holder cpu holder).spinHeld other ≤ 1
        rw [Function.update_self]
        exact single
      · exact Nat.le_trans (Nat.le_of_eq (away holder chosen)) (Nat.zero_le 1)
    · exact Nat.le_trans (Nat.le_of_eq (kept other touched holder)) (owners.single other holder)
  · intro other left right leftHolds rightHolds
    by_cases touched : other = lock
    · subst touched
      have here : ∀ holder, 0 < (Function.update s.cpus index cpu holder).spinHeld other →
          holder = index := by
        intro holder holds
        by_contra chosen
        exact Nat.ne_of_gt holds (away holder chosen)
      rw [here left leftHolds, here right rightHolds]
    · exact owners.unique other left right (kept other touched left ▸ leftHolds)
        (kept other touched right ▸ rightHolds)
  · intro holder other guard
    change guard ∈ (Function.update s.cpus index cpu holder).frame.held → _ →
      (Function.update s.shared.spins lock value other).prev = _ ∨
        (Function.update s.cpus index cpu holder).frame.pc = _
    intro member isSpin
    by_cases touched : other = lock
    · subst touched
      by_cases chosen : holder = index
      · subst chosen
        rw [Function.update_self] at member ⊢
        rw [Function.update_self]
        exact saved guard member isSpin
      · exact absurd (away holder chosen) (Nat.ne_of_gt (spinCount_pos member isSpin))
    · rw [Function.update_of_ne touched]
      by_cases chosen : holder = index
      · subst chosen
        rw [Function.update_self] at member
        left
        exact (owners.saved holder other guard (members other touched guard member isSpin)
          isSpin).resolve_right (elsewhere other touched guard.prev)
      · rw [Function.update_of_ne chosen] at member ⊢
        exact owners.saved holder other guard member isSpin

theorem takeSpin (owners : SpinOwners s)
    (here : (s.cpus index).frame.pc = .attempt (.spin lock) prev)
    (free : (s.shared.spins lock).locked = false) :
    SpinOwners
      { shared := s.shared.setSpin lock { s.shared.spins lock with locked := true }
        cpus := Function.update s.cpus index
          ((s.cpus index).take { target := .spin lock, prev := prev } (.store lock prev)) } := by
  have none := owners.free lock free index
  refine owners.touch ?_ ?_ ?_ (fun other _ => owners.free lock free other) ?_ ?_ ?_
  · intro other different
    have apart : Target.spin lock ≠ (Target.spin other : Target σ ρ) :=
      fun same => different (Target.spin.inj same).symm
    exact (spinCount_cons ..).trans (by rw [if_neg apart]; rfl)
  · intro other different guard member isSpin
    rcases List.mem_cons.mp member with rfl | older
    · exact absurd (Target.spin.inj isSpin).symm different
    · exact older
  · intro other _ saved same
    rw [here] at same
    cases same
  · refine Nat.le_of_eq ((spinCount_cons ..).trans ?_)
    rw [if_pos rfl]
    exact congrArg (· + 1) none
  · intro locked
    cases locked
  · intro guard member isSpin
    rcases List.mem_cons.mp member with rfl | older
    · exact Or.inr rfl
    · exact absurd none (Nat.ne_of_gt (spinCount_pos older isSpin))

theorem store (owners : SpinOwners s) (here : (s.cpus index).frame.pc = .store lock prev)
    (top : (s.cpus index).frame.held.head? = some { target := .spin lock, prev := prev }) :
    SpinOwners
      { shared := s.shared.setSpin lock { s.shared.spins lock with prev := prev }
        cpus := Function.update s.cpus index ((s.cpus index).goto .idle) } := by
  have single := owners.single lock index
  obtain ⟨rest, split⟩ := List.head?_eq_some_iff.mp top
  have member : { target := .spin lock, prev := prev } ∈ (s.cpus index).frame.held := by
    rw [split]
    exact List.mem_cons_self
  refine owners.touch (fun _ _ => rfl) (fun _ _ _ member _ => member) ?_
    (owners.alone member rfl) single ?_ ?_
  · intro other different saved same
    rw [here] at same
    exact different (Pc.store.inj same).1.symm
  · intro unlocked
    exact owners.free lock unlocked index
  · intro guard inside isSpin
    left
    change guard ∈ (s.cpus index).frame.held at inside
    rw [split] at inside
    rcases List.mem_cons.mp inside with rfl | older
    · rfl
    · have second := spinCount_pos older isSpin
      rw [Cpu.spinHeld, split, spinCount_cons, if_pos rfl] at single
      omega

theorem releaseSpin (owners : SpinOwners s) (here : (s.cpus index).frame.pc = .release guard prev)
    (top : (s.cpus index).frame.held.head? = some guard) (isSpin : guard.target = .spin lock) :
    SpinOwners
      { shared := s.shared.setSpin lock { s.shared.spins lock with locked := false }
        cpus := Function.update s.cpus index ((s.cpus index).drop guard (.restore prev)) } := by
  have single := owners.single lock index
  obtain ⟨rest, split⟩ := List.head?_eq_some_iff.mp top
  have member : guard ∈ (s.cpus index).frame.held := by
    rw [split]
    exact List.mem_cons_self
  have heldEq : ((s.cpus index).drop guard (.restore prev)).frame.held = rest := by
    change (s.cpus index).frame.held.erase guard = rest
    rw [split, List.erase_cons_head]
  have count : ((s.cpus index).drop guard (.restore prev)).spinHeld lock = 0 := by
    rw [Cpu.spinHeld, split, spinCount_cons, if_pos isSpin] at single
    rw [Cpu.spinHeld, heldEq]
    omega
  refine owners.touch ?_ ?_ ?_ (owners.alone member isSpin)
    (Nat.le_trans (Nat.le_of_eq count) (Nat.zero_le 1)) (fun _ => count) ?_
  · intro other different
    have apart : guard.target ≠ .spin other := by
      rw [isSpin]
      exact fun same => different (Target.spin.inj same).symm
    rw [Cpu.spinHeld, heldEq, Cpu.spinHeld, split, spinCount_cons, if_neg apart, Nat.add_zero]
  · intro other _ kept inside _
    rw [heldEq] at inside
    rw [split]
    exact List.mem_cons_of_mem guard inside
  · intro other _ saved same
    rw [here] at same
    cases same
  · intro kept inside keptSpin
    exact absurd count (Nat.ne_of_gt (spinCount_pos inside keptSpin))

theorem moved (owners : SpinOwners s) {act : Act σ ρ} (ok : (s.cpus index).Ok)
    (moved : Moved (s.cpus index) s.shared act shared cpu) :
    SpinOwners { shared := shared, cpus := Function.update s.cpus index cpu } := by
  have pcOk := ok.pc
  unfold Frame.PcOk at pcOk
  cases moved with
  | lock target idle => exact owners.still rfl rfl idle nofun
  | unlock guard idle live => exact owners.still rfl rfl idle nofun
  | disable here => exact owners.still rfl rfl here nofun
  | retry trying =>
      rcases trying with here | ⟨_, _, _, here⟩
      · exact owners.still rfl rfl here nofun
      · exact owners.still rfl rfl here nofun
  | takeSpin here free => exact owners.takeSpin here free
  | see here small => exact owners.still rfl rfl here nofun
  | takeRead here =>
      refine owners.takeOther ?_ here nofun nofun
      rfl
  | takeWrite here free =>
      refine owners.takeOther ?_ here nofun nofun
      rfl
  | pause here => exact owners.still rfl rfl here nofun
  | store here =>
      rw [here] at pcOk
      exact owners.store here pcOk.2
  | load here => exact owners.still rfl rfl here nofun
  | @release guard prev spurious here =>
      rw [here] at pcOk
      cases targetEq : guard.target with
      | spin lock => exact owners.releaseSpin here pcOk.2.1 targetEq
      | read lock =>
          refine owners.dropOther ?_ here pcOk.2.1 (by rw [targetEq]; nofun)
          rfl
      | write lock =>
          refine owners.dropOther ?_ here pcOk.2.1 (by rw [targetEq]; nofun)
          rfl
  | restore here => exact owners.still rfl rfl here nofun
  | interrupt enabled =>
      have set : (s.cpus index).frame.PcOk true := enabled ▸ ok.pc
      refine owners.still rfl set.held_eq_nil.symm rfl ?_
      intro lock prev same
      rw [same, enabled] at pcOk
      cases pcOk.1
  | @iret frame below idle none interrupted =>
      have frames := ok.below
      rw [interrupted] at frames
      exact owners.still rfl ((frames frame List.mem_cons_self).1.trans none.symm) idle nofun
  | setInterrupts value idle none => exact owners.still rfl rfl idle nofun

end SpinOwners

/-! ### Runs with nested locks -/

/-- The CPU gives back the lock that it took last. -/
def Nested (s : System ι σ ρ) (index : ι) (act : Act σ ρ) : Prop :=
  ∀ guard, act = .unlock guard → (s.cpus index).frame.held.head? = some guard

structure LockInv (s : System ι σ ρ) : Prop where
  cpus : ∀ index, (s.cpus index).Ok
  owners : SpinOwners s

theorem LockInv.start (interrupts : ι → Bool) :
    LockInv (System.start interrupts : System ι σ ρ) where
  cpus := fun _ => ⟨trivial, rfl, fun _ member => absurd member List.not_mem_nil⟩
  owners := SpinOwners.start interrupts

/-- The flag that `unlock` loads is the one that the holder's `lock` stored. -/
theorem LockInv.saved (inv : LockInv s) (here : (s.cpus index).frame.pc = .load guard lock) :
    (s.cpus index).frame.held.head? = some guard ∧ guard.target = .spin lock ∧
      (s.shared.spins lock).prev = guard.prev := by
  have pcOk := (inv.cpus index).pc
  unfold Frame.PcOk at pcOk
  rw [here] at pcOk
  obtain ⟨_, top, isSpin⟩ := pcOk
  refine ⟨top, isSpin, ?_⟩
  refine (inv.owners.saved index lock guard (List.mem_of_head? top) isSpin).resolve_right ?_
  rw [here]
  nofun

variable [DecidableEq ι]

theorem LockInv.step (inv : LockInv s) (nested : Nested s index act)
    (done : s.step index act = some s') : LockInv s' := by
  obtain ⟨shared, cpu, moved, rfl⟩ := System.step_moved done
  have ok := inv.cpus index
  refine ⟨?_, inv.owners.moved ok moved⟩
  intro other
  change (Function.update s.cpus index cpu other).Ok
  by_cases same : other = index
  · subst same
    rw [Function.update_self]
    exact ok.moved nested (fun _ _ here => (inv.saved here).2.2) moved
  · rw [Function.update_of_ne same]
    exact inv.cpus other

theorem LockInv.reachable {interrupts : ι → Bool}
    (reachable : Reachable Nested (System.start interrupts) s) : LockInv s := by
  induction reachable with
  | refl => exact LockInv.start interrupts
  | tail _ step inductionHypothesis =>
      obtain ⟨index, act, nested, done⟩ := step
      exact inductionHypothesis.step nested done

/-- What the code of the locks is made of. -/
def Act.OfLocks : Act σ ρ → Prop
  | .lock _ | .unlock _ | .advance _ => True
  | .interrupt | .iret | .setInterrupts _ => False

theorem Moved.outside_eq {cpu cpu' : Cpu σ ρ} {shared shared' : Shared σ ρ}
    (moved : Moved cpu shared act shared' cpu') (ofLocks : act.OfLocks) :
    cpu'.frame.outside = cpu.frame.outside := by
  cases moved with
  | interrupt enabled => exact ofLocks.elim
  | iret idle none interrupted => exact ofLocks.elim
  | setInterrupts value idle none => exact ofLocks.elim
  | _ => rfl

theorem System.outside_eq {other : ι} (done : s.step other act = some s')
    (ofLocks : other = index → act.OfLocks) :
    (s'.cpus index).frame.outside = (s.cpus index).frame.outside := by
  obtain ⟨shared, cpu, moved, rfl⟩ := System.step_moved done
  change (Function.update s.cpus other cpu index).frame.outside = _
  by_cases same : index = other
  · subst same
    rw [Function.update_self]
    exact moved.outside_eq (ofLocks rfl)
  · rw [Function.update_of_ne same]

/-- For any number of CPUs and locks and any order of their accesses, if every CPU gives
its locks back in the reverse order: its interrupts are disabled while it holds a lock; the
flag that `unlock` reads is the one that the matching `lock` of the same CPU stored;
outside of locks the flag is what the CPU itself made it; and after any calls of `lock` and
`unlock`, whatever the other CPUs do, it is what it was before. -/
theorem nested_locks_keep_interrupts {interrupts : ι → Bool} {s : System ι σ ρ}
    (reachable : Reachable Nested (System.start interrupts) s) (index : ι) :
    ((s.cpus index).guards ≠ [] → (s.cpus index).interrupts = false) ∧
    (∀ guard lock, (s.cpus index).frame.pc = .load guard lock →
      (s.cpus index).frame.held.head? = some guard ∧ guard.target = .spin lock ∧
        (s.shared.spins lock).prev = guard.prev) ∧
    ((s.cpus index).Outside → (s.cpus index).interrupts = (s.cpus index).frame.outside) ∧
    ∀ s', Reachable (fun s other act => Nested s other act ∧ (other = index → act.OfLocks)) s s' →
      (s.cpus index).Outside → (s'.cpus index).Outside →
      (s'.cpus index).interrupts = (s.cpus index).interrupts := by
  have inv := LockInv.reachable reachable
  refine ⟨?_, fun _ _ here => inv.saved here, (inv.cpus index).outside_eq, ?_⟩
  · intro some
    refine (inv.cpus index).interrupts_eq_false ?_
    intro none
    refine some ?_
    rw [Cpu.guards, none, List.nil_append, List.flatMap_eq_nil_iff]
    exact fun frame member => ((inv.cpus index).below frame member).1
  · intro s' run before after
    have kept : LockInv s' ∧ (s'.cpus index).frame.outside = (s.cpus index).frame.outside := by
      clear after
      induction run with
      | refl => exact ⟨inv, rfl⟩
      | tail _ step inductionHypothesis =>
          obtain ⟨invMiddle, same⟩ := inductionHypothesis
          obtain ⟨other, act, ⟨nested, ofLocks⟩, done⟩ := step
          exact ⟨invMiddle.step nested done, (System.outside_eq done ofLocks).trans same⟩
    rw [(kept.1.cpus index).outside_eq after, kept.2, (inv.cpus index).outside_eq before]

/-- A CPU with interrupts enabled takes a spin lock and then reads. -/
theorem nested_locks_keep_interrupts_two :
    ∃ s : System Bool Unit Unit, Reachable Nested (System.start fun _ => true) s ∧
      (s.cpus false).guards.length = 2 ∧ (s.cpus false).interrupts = false := by
  have step {s s' : System Bool Unit Unit} (act : Act Unit Unit) (nested : Nested s false act)
      (before : Reachable Nested (System.start fun _ => true) s)
      (done : s.step false act = some s') :
      Reachable Nested (System.start fun _ => true) s' :=
    before.tail ⟨false, act, nested, done⟩
  have called := step (.lock (.spin ())) nofun .refl rfl
  have disabled := step (.advance false) nofun called rfl
  have swapped := step (.advance false) nofun disabled rfl
  have stored := step (.advance false) nofun swapped rfl
  have calledAgain := step (.lock (.read ())) nofun stored rfl
  have disabledAgain := step (.advance false) nofun calledAgain rfl
  have seen := step (.advance false) nofun disabledAgain rfl
  have taken := step (.advance false) nofun seen rfl
  exact ⟨_, taken, rfl, (nested_locks_keep_interrupts taken false).1 (List.cons_ne_nil _ _)⟩

end Owners

end NyauxKernel.Locks
