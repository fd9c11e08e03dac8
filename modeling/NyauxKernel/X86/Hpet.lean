/-
The delay of `hpet/mod.rs`.

`poll_for_ms` subtracts two values in whole milliseconds, both from a counter that starts
again at zero after 32 or 64 bits.  Time is the number of ticks since the counter was last
zero at or before the entry of the call: a reading at a time is the time modulo the width
of the counter.  The subtraction is that of the release build, which wraps.
-/

import NyauxKernel.Word
import Mathlib.Data.UInt
import Mathlib.Data.List.Pairwise

namespace NyauxKernel.X86

/-- The period of the clock is in femtoseconds. -/
structure Hpet where
  morebitcounter : Bool
  ctrClkPeriod : Nat
  period_lt : ctrClkPeriod < 2 ^ 32

theorem capability_period_lt (cap : UInt64) :
    ((cap >>> 32) &&& 0xFFFFFFFF).toNat < 2 ^ 32 := by
  rw [UInt64.toNat_and]
  exact Nat.and_lt_two_pow _ (by decide)

/-- `cap` is the capability register. -/
def Hpet.new (cap : UInt64) : Hpet where
  morebitcounter := ((cap >>> 13) &&& 0x1) == 1
  ctrClkPeriod := ((cap >>> 32) &&& 0xFFFFFFFF).toNat
  period_lt := capability_period_lt cap

/-- The time that the counter can tell. -/
def Hpet.modulus (hpet : Hpet) : Nat := if !hpet.morebitcounter then 2 ^ 32 else 2 ^ 64

def readMainCounter (hpet : Hpet) (time : Nat) : Nat :=
  if !hpet.morebitcounter then time % 2 ^ 32 else time % 2 ^ 64

def getMs (hpet : Hpet) (time : Nat) : Nat :=
  readMainCounter hpet time * hpet.ctrClkPeriod / 1000000000000 % addressSpace

/-- The times at which the condition of the loop is evaluated, and the one at which the call
returns. -/
structure Poll where
  evaluated : List Nat
  returned : Option Nat

/-- The loop of `poll_for_ms`, with the times of the readings that it would take. -/
def pollLoop (hpet : Hpet) (inital ms : Nat) : List Nat → Poll
  | [] => { evaluated := [], returned := none }
  | time :: later =>
      if (getMs hpet time + addressSpace - inital) % addressSpace < ms then
        let poll := pollLoop hpet inital ms later
        { poll with evaluated := time :: poll.evaluated }
      else { evaluated := [time], returned := some time }

def pollForMs (hpet : Hpet) (ms entry : Nat) (times : List Nat) : Poll :=
  let inital := getMs hpet entry
  pollLoop hpet inital ms times

/-- The readings go on from the entry, and together by less than one wrap. -/
structure Advancing (hpet : Hpet) (entry : Nat) (times : List Nat) : Prop where
  sorted : times.Pairwise (· ≤ ·)
  since : ∀ time ∈ times, entry ≤ time
  within : ∀ time ∈ times, time < entry + hpet.modulus

/-- No subtraction underflows, and the call does not return within `ms - 1` milliseconds. -/
structure NeverShort (hpet : Hpet) (ms entry : Nat) (poll : Poll) : Prop where
  noUnderflow : ∀ time ∈ poll.evaluated, getMs hpet entry ≤ getMs hpet time
  notShort : ∀ time, poll.returned = some time →
    (ms - 1) * 1000000000000 < (time - entry) * hpet.ctrClkPeriod

/-- Some reading before the wrap has the time, or no reading behind the wrap is in an earlier
millisecond than the entry. -/
def Undisturbed (hpet : Hpet) (ms entry : Nat) (times : List Nat) : Prop :=
  (∃ time ∈ times, time < hpet.modulus ∧ getMs hpet entry + ms ≤ getMs hpet time) ∨
    ∀ time ∈ times, hpet.modulus ≤ time → getMs hpet entry ≤ getMs hpet time

/-! ### Milliseconds -/

theorem readMainCounter_eq (hpet : Hpet) (time : Nat) :
    readMainCounter hpet time = time % hpet.modulus := by
  rw [readMainCounter, Hpet.modulus]
  cases hpet.morebitcounter with
  | false => rfl
  | true => rfl

theorem modulus_le (hpet : Hpet) : hpet.modulus ≤ 2 ^ 64 := by
  rw [Hpet.modulus]
  cases hpet.morebitcounter with
  | false => decide
  | true => decide

theorem modulus_pos (hpet : Hpet) : 0 < hpet.modulus := by
  rw [Hpet.modulus]
  cases hpet.morebitcounter with
  | false => decide
  | true => decide

/-- The milliseconds fit into `usize`. -/
theorem getMs_eq (hpet : Hpet) (time : Nat) :
    getMs hpet time = time % hpet.modulus * hpet.ctrClkPeriod / 1000000000000 := by
  have counter : time % hpet.modulus < 2 ^ 64 :=
    Nat.lt_of_lt_of_le (Nat.mod_lt _ (modulus_pos hpet)) (modulus_le hpet)
  have product : time % hpet.modulus * hpet.ctrClkPeriod < 2 ^ 64 * 2 ^ 32 :=
    Nat.mul_lt_mul'' counter hpet.period_lt
  rw [getMs, readMainCounter_eq]
  apply Nat.mod_eq_of_lt
  rw [addressSpace]
  omega

theorem getMs_lt (hpet : Hpet) (time : Nat) : getMs hpet time < addressSpace :=
  Nat.mod_lt _ (by decide)

variable {entry inital ms time : Nat}

theorem getMs_before (hpet : Hpet) (before : time < hpet.modulus) :
    getMs hpet time = time * hpet.ctrClkPeriod / 1000000000000 := by
  rw [getMs_eq, Nat.mod_eq_of_lt before]

theorem getMs_mono (hpet : Hpet) {later : Nat} (order : time ≤ later)
    (before : later < hpet.modulus) : getMs hpet time ≤ getMs hpet later := by
  rw [getMs_before hpet before, getMs_before hpet (Nat.lt_of_le_of_lt order before)]
  exact Nat.div_le_div_right (Nat.mul_le_mul_right _ order)

/-- Less than one wrap after the entry, the counter is back below its value at the entry. -/
theorem getMs_behind (hpet : Hpet) (counter : entry < hpet.modulus) (behind : hpet.modulus ≤ time)
    (within : time < entry + hpet.modulus) : getMs hpet time ≤ getMs hpet entry := by
  have reading : time % hpet.modulus = time - hpet.modulus := by
    rw [Nat.mod_eq_sub_mod behind, Nat.mod_eq_of_lt (by omega)]
  have same : getMs hpet time = getMs hpet (time - hpet.modulus) := by
    rw [getMs_eq, reading, getMs_before hpet (by omega)]
  rw [same]
  exact getMs_mono hpet (by omega) counter

/-! ### One evaluation of the condition -/

theorem subtraction_eq (hpet : Hpet) (noUnderflow : inital ≤ getMs hpet time) :
    (getMs hpet time + addressSpace - inital) % addressSpace = getMs hpet time - inital := by
  have small := getMs_lt hpet time
  have split : getMs hpet time + addressSpace - inital =
      getMs hpet time - inital + addressSpace := by omega
  rw [split, Nat.add_mod_right, Nat.mod_eq_of_lt (by omega)]

/-- What the whole milliseconds say about the ticks. -/
theorem ticks_of_ms (hpet : Hpet) (positive : 1 ≤ ms) (since : entry ≤ time)
    (before : time < hpet.modulus) (passed : getMs hpet entry + ms ≤ getMs hpet time) :
    (ms - 1) * 1000000000000 < (time - entry) * hpet.ctrClkPeriod := by
  rw [getMs_before hpet before, getMs_before hpet (Nat.lt_of_le_of_lt since before)] at passed
  have order := Nat.mul_le_mul_right hpet.ctrClkPeriod since
  rw [Nat.sub_mul time entry]
  omega

theorem pollLoop_wait (hpet : Hpet) (later : List Nat) (noUnderflow : inital ≤ getMs hpet time)
    (early : getMs hpet time < inital + ms) :
    pollLoop hpet inital ms (time :: later) =
      { evaluated := time :: (pollLoop hpet inital ms later).evaluated
        returned := (pollLoop hpet inital ms later).returned } := by
  rw [pollLoop, subtraction_eq hpet noUnderflow, if_pos (by omega)]

theorem pollLoop_return (hpet : Hpet) (later : List Nat) (passed : inital + ms ≤ getMs hpet time) :
    pollLoop hpet inital ms (time :: later) = { evaluated := [time], returned := some time } := by
  rw [pollLoop, subtraction_eq hpet (by omega), if_neg (by omega)]

theorem mem_evaluated_head (hpet : Hpet) (inital ms time : Nat) (later : List Nat) :
    time ∈ (pollLoop hpet inital ms (time :: later)).evaluated := by
  rw [pollLoop]
  split
  · exact List.mem_cons_self
  · exact List.mem_cons_self

/-! ### A run of the loop -/

theorem Advancing.tail {hpet : Hpet} {later : List Nat} (run : Advancing hpet entry (time :: later)) :
    Advancing hpet entry later where
  sorted := (List.pairwise_cons.mp run.sorted).2
  since := fun other member => run.since other (List.mem_cons_of_mem _ member)
  within := fun other member => run.within other (List.mem_cons_of_mem _ member)

/-- A reading that keeps the loop waiting changes neither side. -/
theorem neverShort_wait (hpet : Hpet) (later : List Nat)
    (noUnderflow : getMs hpet entry ≤ getMs hpet time)
    (early : getMs hpet time < getMs hpet entry + ms) :
    NeverShort hpet ms entry (pollForMs hpet ms entry (time :: later)) ↔
      NeverShort hpet ms entry (pollForMs hpet ms entry later) := by
  rw [pollForMs, pollLoop_wait hpet later noUnderflow early]
  constructor
  · intro safe
    exact ⟨fun other member => safe.noUnderflow other (List.mem_cons_of_mem _ member),
      safe.notShort⟩
  · intro safe
    constructor
    · intro other member
      cases List.mem_cons.mp member with
      | inl same => rw [same]; exact noUnderflow
      | inr member => exact safe.noUnderflow other member
    · exact safe.notShort

theorem undisturbed_wait (hpet : Hpet) (later : List Nat)
    (noUnderflow : getMs hpet entry ≤ getMs hpet time)
    (early : getMs hpet time < getMs hpet entry + ms) :
    Undisturbed hpet ms entry (time :: later) ↔ Undisturbed hpet ms entry later := by
  have notYet : ¬(time < hpet.modulus ∧ getMs hpet entry + ms ≤ getMs hpet time) := by omega
  simp only [Undisturbed, List.exists_mem_cons_iff, List.forall_mem_cons, notYet, false_or,
    noUnderflow, implies_true, true_and]

/-- The delay of a run is right if and only if the wrap does not disturb it. -/
theorem neverShort_iff_undisturbed (hpet : Hpet) {times : List Nat} (positive : 1 ≤ ms)
    (counter : entry < hpet.modulus) (run : Advancing hpet entry times) :
    NeverShort hpet ms entry (pollForMs hpet ms entry times) ↔
      Undisturbed hpet ms entry times := by
  induction times with
  | nil =>
      constructor
      · intro _
        exact Or.inr (fun time member => absurd member List.not_mem_nil)
      · intro _
        exact ⟨fun time member => absurd member List.not_mem_nil, fun time none => nomatch none⟩
  | cons time later inductionHypothesis =>
      have since := run.since time List.mem_cons_self
      have within := run.within time List.mem_cons_self
      by_cases before : time < hpet.modulus
      · have noUnderflow := getMs_mono hpet since before
        by_cases early : getMs hpet time < getMs hpet entry + ms
        · rw [neverShort_wait hpet later noUnderflow early,
            undisturbed_wait hpet later noUnderflow early]
          exact inductionHypothesis run.tail
        · have passed : getMs hpet entry + ms ≤ getMs hpet time := by omega
          constructor
          · intro _
            exact Or.inl ⟨time, List.mem_cons_self, before, passed⟩
          · intro _
            rw [pollForMs, pollLoop_return hpet later passed]
            constructor
            · intro other member
              rw [List.mem_singleton.mp member]
              exact noUnderflow
            · intro other returned
              rw [← Option.some.inj returned]
              exact ticks_of_ms hpet positive since before passed
      · -- From here on every reading is behind the wrap.
        have behind : hpet.modulus ≤ time := by omega
        have back := getMs_behind hpet counter behind within
        by_cases noUnderflow : getMs hpet entry ≤ getMs hpet time
        · rw [neverShort_wait hpet later noUnderflow (by omega),
            undisturbed_wait hpet later noUnderflow (by omega)]
          exact inductionHypothesis run.tail
        · apply iff_of_false
          · intro safe
            exact noUnderflow (safe.noUnderflow time (mem_evaluated_head hpet _ ms time later))
          · intro undisturbed
            rcases undisturbed with ⟨other, member, early, _⟩ | still
            · have order : time ≤ other := by
                cases List.mem_cons.mp member with
                | inl same => omega
                | inr member => exact (List.pairwise_cons.mp run.sorted).1 other member
              omega
            · exact noUnderflow (still time List.mem_cons_self behind)

/-- The wrap disturbs no run exactly for the entries in the first millisecond after the counter
was zero. -/
theorem every_run_undisturbed_iff (hpet : Hpet) (ms : Nat) (counter : entry < hpet.modulus) :
    (∀ times, Advancing hpet entry times → Undisturbed hpet ms entry times) ↔
      entry * hpet.ctrClkPeriod < 1000000000000 := by
  have start : getMs hpet entry = entry * hpet.ctrClkPeriod / 1000000000000 :=
    getMs_before hpet counter
  constructor
  · intro every
    by_cases zero : entry = 0
    · rw [zero, Nat.zero_mul]
      decide
    · have wrapped : Advancing hpet entry [hpet.modulus] := by
        constructor
        · exact List.pairwise_singleton _ _
        · intro time member
          rw [List.mem_singleton.mp member]
          exact Nat.le_of_lt counter
        · intro time member
          rw [List.mem_singleton.mp member]
          omega
      have reading : getMs hpet hpet.modulus = 0 := by
        rw [getMs_eq, Nat.mod_self, Nat.zero_mul, Nat.zero_div]
      rcases every [hpet.modulus] wrapped with ⟨time, member, before, _⟩ | still
      · rw [List.mem_singleton.mp member] at before
        omega
      · have early := still hpet.modulus List.mem_cons_self (Nat.le_refl _)
        omega
  · intro first times run
    apply Or.inr
    intro time member behind
    omega

/-- The delay of a run is right if and only if the wrap does not disturb it, and the delays of
all runs from an entry are if and only if the entry is in the first millisecond. -/
theorem poll_never_short_iff (hpet : Hpet) (ms entry : Nat) (positive : 1 ≤ ms)
    (counter : entry < hpet.modulus) :
    (∀ times, Advancing hpet entry times →
      (NeverShort hpet ms entry (pollForMs hpet ms entry times) ↔
        Undisturbed hpet ms entry times)) ∧
    ((∀ times, Advancing hpet entry times →
        NeverShort hpet ms entry (pollForMs hpet ms entry times)) ↔
      entry * hpet.ctrClkPeriod < 1000000000000) := by
  have oneRun : ∀ times, Advancing hpet entry times →
      (NeverShort hpet ms entry (pollForMs hpet ms entry times) ↔
        Undisturbed hpet ms entry times) :=
    fun times run => neverShort_iff_undisturbed hpet positive counter run
  refine ⟨oneRun, ?_⟩
  rw [← every_run_undisturbed_iff hpet ms counter]
  constructor
  · intro every times run
    exact (oneRun times run).mp (every times run)
  · intro every times run
    exact (oneRun times run).mpr (every times run)

/-- A counter of 32 bits with a period of 100 ns, read after half a millisecond and after one. -/
theorem poll_never_short_start :
    Advancing (Hpet.new 0x05F5E10000000000) 7 [5007, 10007] ∧
      NeverShort (Hpet.new 0x05F5E10000000000) 1 7
        (pollForMs (Hpet.new 0x05F5E10000000000) 1 7 [5007, 10007]) := by
  have run : Advancing (Hpet.new 0x05F5E10000000000) 7 [5007, 10007] :=
    ⟨by decide, by decide, by decide⟩
  refine ⟨run, ?_⟩
  apply ((poll_never_short_iff _ 1 7 (by decide) (by decide)).1 [5007, 10007] run).mpr
  exact Or.inl ⟨10007, by decide, by decide, by decide⟩

/-- The same counter, entered at its last value: two ticks later the delay of ten milliseconds
is over. -/
theorem poll_short_at_wrap :
    Advancing (Hpet.new 0x05F5E10000000000) (2 ^ 32 - 1) [2 ^ 32 + 1] ∧
      (pollForMs (Hpet.new 0x05F5E10000000000) 10 (2 ^ 32 - 1) [2 ^ 32 + 1]).returned =
        some (2 ^ 32 + 1) ∧
      ¬NeverShort (Hpet.new 0x05F5E10000000000) 10 (2 ^ 32 - 1)
        (pollForMs (Hpet.new 0x05F5E10000000000) 10 (2 ^ 32 - 1) [2 ^ 32 + 1]) := by
  refine ⟨⟨by decide, by decide, by decide⟩, by decide, ?_⟩
  intro safe
  exact absurd (safe.notShort (2 ^ 32 + 1) (by decide)) (by decide)

end NyauxKernel.X86
