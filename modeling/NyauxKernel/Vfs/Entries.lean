/-
The entries of an archive, and the rounds of the loader on them.

An entry is a header block whose size field holds the length of the data, then the data and
a padding up to the next block.  All other bytes are arbitrary.  Both the slice `ptr` and
the counter `c` advance by `inc`, so `c` is the offset of `ptr` in the archive.
-/

import NyauxKernel.Vfs.Archive
import NyauxKernel.Library.Folds

namespace NyauxKernel.Vfs

open ExceptFold

/-! ### Entries -/

def octalValue (digits : List UInt8) : Nat :=
  digits.foldl (fun value digit => value * 8 + (digit.toNat - 48)) 0

/-- An entry of an archive.  The size field has octal digits, ended by spaces or NULs. -/
structure Entry where
  header : List UInt8
  data : List UInt8
  pad : List UInt8
  digits : List UInt8
  terminator : List UInt8
  header_length : header.length = ustarInodeSize
  size_eq : (header.drop 124).take 12 = digits ++ terminator
  octal : ∀ digit ∈ digits, 48 ≤ digit ∧ digit ≤ 55
  ended : terminator ≠ [] ∧ ∀ byte ∈ terminator, byte = 0 ∨ byte = 32
  value : octalValue digits = data.length
  pad_length : pad.length = (512 - data.length % 512) % 512

namespace Entry

def bytes (entry : Entry) : List UInt8 := entry.header ++ (entry.data ++ entry.pad)

/-- The entries, then two zero blocks or more. -/
def archive (entries : List Entry) (more : Nat) : List UInt8 :=
  entries.flatMap bytes ++ List.replicate (1024 + 512 * more) 0

end Entry

/-! ### The calls of the loop -/

/-- The offsets at which `loadLoop` calls `transmute_to_ramfs`. -/
def loadTrace (d : List UInt8) (root : Nat) : Nat → List UInt8 → Nat → Vnodes → List Nat
  | 0, _, _, _ => []
  | fuel + 1, ptr, c, vnodes =>
      if c = d.length then []
      else
        match loadRound d root ptr c vnodes with
        | .ok (vnodes, some (ptr, next)) => c :: loadTrace d root fuel ptr next vnodes
        | _ => [c]

/-! ### The size of an entry -/

variable {c more result value : Nat} {d : List UInt8} {entries : List Entry}

theorem octalDigits_value (digits : List UInt8) (decoded : octalDigits value digits = some result) :
    digits.foldl (fun value digit => value * 8 + (digit.toNat - 48)) value = result := by
  induction digits generalizing value with
  | nil => exact Option.some.inj decoded
  | cons digit rest inductionHypothesis =>
      rw [octalDigits] at decoded
      split at decoded
      · dsimp only at decoded
        split at decoded
        · exact inductionHypothesis decoded
        · contradiction
      · contradiction

theorem octalDigits_range (digits : List UInt8) (decoded : octalDigits value digits = some result) :
    ∀ digit ∈ digits, 48 ≤ digit ∧ digit ≤ 55 := by
  induction digits generalizing value with
  | nil => exact fun _ member => absurd member List.not_mem_nil
  | cons digit rest inductionHypothesis =>
      rw [octalDigits] at decoded
      split at decoded
      case isTrue inRange =>
        dsimp only at decoded
        split at decoded
        · intro other member
          rcases List.mem_cons.mp member with rfl | later
          · exact inRange
          · exact inductionHypothesis decoded other later
        · contradiction
      case isFalse => contradiction

/-- Without a sign, `from_str_radix` reads the digits. -/
theorem octalDigits_of_fromStrRadix8 {src : Str} (noSign : 43 ∉ src)
    (decoded : fromStrRadix8 src = some value) : octalDigits 0 src = some value := by
  unfold fromStrRadix8 at decoded
  split at decoded
  · contradiction
  · contradiction
  · exact absurd List.mem_cons_self noSign
  · exact decoded

namespace Entry

/-- If the loader gets a size out of the header, it is the length of the data, and its field
has digits that end with a NUL. -/
theorem octalToNum_ok (entry : Entry) {value : Nat}
    (decoded : octalToNum (entry.digits ++ entry.terminator) = .ok value) :
    value = entry.data.length ∧ entry.digits ≠ [] ∧ entry.terminator.head? = some 0 := by
  rcases ok_of_bind decoded with ⟨src, taken, parsed⟩
  have nonzero : ∀ digit ∈ entry.digits, decide (digit ≠ 0) = true := by
    intro digit member
    have low := (entry.octal digit member).1
    simp only [decide_eq_true_eq]
    rintro rfl
    exact absurd low (by decide)
  have srcEq : src = entry.digits ++ entry.terminator.takeWhile (fun byte => decide (byte ≠ 0)) := by
    unfold quickStrFromUstar at taken
    split at taken
    · dsimp only at taken
      split at taken
      · rw [← Except.ok.inj taken, List.takeWhile_append_of_pos nonzero]
      · contradiction
    · contradiction
  have inSpaces : ∀ byte ∈ entry.terminator.takeWhile (fun byte => decide (byte ≠ 0)),
      byte = 32 := by
    intro byte member
    have real : byte ≠ 0 := of_decide_eq_true (List.all_eq_true.mp List.all_takeWhile byte member)
    exact (entry.ended.2 byte ((List.takeWhile_sublist _).subset member)).resolve_left real
  generalize cut : entry.terminator.takeWhile (fun byte => decide (byte ≠ 0)) = spaces
    at srcEq inSpaces
  have noSign : 43 ∉ src := by
    rw [srcEq]
    intro member
    rcases List.mem_append.mp member with inDigits | inRest
    · exact absurd (entry.octal 43 inDigits).1 (by decide)
    · exact absurd (inSpaces 43 inRest) (by decide)
  have read : octalDigits 0 src = some value := by
    apply octalDigits_of_fromStrRadix8 noSign
    cases number : fromStrRadix8 src with
    | none => simp [number] at parsed
    | some found =>
        simp only [number] at parsed
        rw [Except.ok.inj parsed]
  rw [srcEq, octalDigits_append] at read
  rcases Option.bind_eq_some_iff.mp read with ⟨size, digits, rest⟩
  cases spaces with
  | nil =>
      have same : size = value := Option.some.inj rest
      refine ⟨?_, ?_, ?_⟩
      · rw [← same, ← octalDigits_value entry.digits digits]
        exact entry.value
      · intro nothing
        rw [srcEq, nothing] at parsed
        contradiction
      · cases terminator : entry.terminator with
        | nil => exact absurd terminator entry.ended.1
        | cons byte more =>
            rw [terminator, List.takeWhile_cons] at cut
            split at cut
            · cases cut
            · rename_i isNul
              rw [List.head?_cons, not_not.mp (mt decide_eq_true isNul)]
  | cons byte spaces =>
      -- a space before the NUL is no digit
      rw [inSpaces byte List.mem_cons_self] at rest
      contradiction

theorem foldl_octal_lt (digits : List UInt8) (octal : ∀ digit ∈ digits, 48 ≤ digit ∧ digit ≤ 55)
    (value : Nat) :
    digits.foldl (fun value digit => value * 8 + (digit.toNat - 48)) value <
      (value + 1) * 8 ^ digits.length := by
  induction digits generalizing value with
  | nil => simp
  | cons digit rest inductionHypothesis =>
      have small : digit.toNat ≤ 55 := (octal digit List.mem_cons_self).2
      have later := inductionHypothesis
        (fun other member => octal other (List.mem_cons_of_mem digit member))
        (value * 8 + (digit.toNat - 48))
      have grown : value * 8 + (digit.toNat - 48) + 1 ≤ (value + 1) * 8 := by omega
      rw [List.foldl_cons, List.length_cons, Nat.pow_succ, Nat.mul_comm (8 ^ rest.length) 8,
        ← Nat.mul_assoc]
      exact Nat.lt_of_lt_of_le later (Nat.mul_le_mul_right _ grown)

variable (entry : Entry)

theorem digits_length_le : entry.digits.length ≤ 11 := by
  have field := congrArg List.length entry.size_eq
  have ended : 0 < entry.terminator.length := List.length_pos_iff.mpr entry.ended.1
  rw [List.length_take, List.length_drop, entry.header_length, List.length_append,
    ustarInodeSize] at field
  omega

theorem data_length_lt : entry.data.length < 8 ^ 11 := by
  have few := entry.digits_length_le
  have bound := foldl_octal_lt entry.digits entry.octal 0
  rw [← entry.value]
  calc octalValue entry.digits < (0 + 1) * 8 ^ entry.digits.length := bound
    _ = 8 ^ entry.digits.length := by rw [Nat.zero_add, Nat.one_mul]
    _ ≤ 8 ^ 11 := Nat.pow_le_pow_right (by decide) few

theorem bytes_length :
    entry.bytes.length = alignUp entry.data.length 512 + ustarInodeSize := by
  have small := entry.data_length_lt
  have bounded : entry.data.length + 2 ^ 9 - 1 < addressSpace := by
    have room : 8 ^ 11 + 2 ^ 9 < addressSpace := by decide
    omega
  have rounded := alignUp_eq entry.data.length 9 bounded
  rw [show (2 ^ 9 : Nat) = 512 from rfl] at rounded
  rw [bytes, List.length_append, List.length_append, entry.header_length, entry.pad_length, rounded]
  omega

theorem bytes_length_lt : entry.bytes.length < addressSpace := by
  have small := entry.data_length_lt
  have room : 8 ^ 11 + 2 ^ 11 < addressSpace := by decide
  rw [bytes, List.length_append, List.length_append, entry.header_length, entry.pad_length,
    ustarInodeSize]
  omega

theorem take_header (more : List UInt8) :
    (entry.bytes ++ more).take ustarInodeSize = entry.header := by
  rw [bytes, List.append_assoc]
  exact List.take_left' entry.header_length

/-- A call that returns on an entry returns the length of its data. -/
theorem transmuteToRamfs_size {more : List UInt8} {root fz : Nat} {vnodes vnodes' : Vnodes}
    (done : transmuteToRamfs (entry.bytes ++ more) root vnodes = .ok (fz, vnodes')) :
    fz = entry.data.length := by
  unfold transmuteToRamfs at done
  split at done
  · contradiction
  · rw [entry.take_header] at done
    rcases ok_of_bind done with ⟨us, _, afterMagic⟩
    rcases ok_of_bind afterMagic with ⟨w, _, afterName⟩
    split at afterName
    · contradiction
    · rcases ok_of_bind afterName with ⟨size, decoded, rest⟩
      rw [UstarInode.fromBytes] at decoded
      dsimp only at decoded
      rw [entry.size_eq] at decoded
      dsimp only at rest
      split at rest
      · contradiction
      · rcases ok_of_bind rest with ⟨made, _, last⟩
        rw [← (Prod.mk.inj (Except.ok.inj last)).1]
        exact (entry.octalToNum_ok decoded).1

end Entry

/-! ### The rounds of the loop -/

theorem zeros_sum (count : Nat) : (List.replicate count (0 : UInt8)).sum = 0 := by
  induction count with
  | zero => rfl
  | succ count inductionHypothesis =>
      rw [List.replicate_succ, List.sum_cons, inductionHypothesis]
      rfl

namespace Entry

theorem archive_cons (entry : Entry) (entries : List Entry) (more : Nat) :
    archive (entry :: entries) more = entry.bytes ++ archive entries more := by
  rw [archive, archive, List.flatMap_cons, List.append_assoc]

theorem archive_length (entries : List Entry) (more : Nat) :
    (archive entries more).length = (entries.flatMap bytes).length + (1024 + 512 * more) := by
  rw [archive, List.length_append, List.length_replicate]

theorem archive_nil_sum (more : Nat) : ((archive [] more).take 1024).sum = 0 := by
  rw [archive, List.flatMap_nil, List.nil_append, List.take_replicate]
  exact zeros_sum _

end Entry

/-- What is left of the archive behind an entry. -/
theorem drop_entry {entry : Entry} (here : d.drop c = Entry.archive (entry :: entries) more) :
    d.drop (c + entry.bytes.length) = Entry.archive entries more := by
  rw [← List.drop_drop, here, Entry.archive_cons]
  exact List.drop_left' rfl

theorem drop_entry_ne_end {entry : Entry} (here : d.drop c = Entry.archive (entry :: entries) more) :
    c ≠ d.length := by
  have left : d.length - c = (Entry.archive (entry :: entries) more).length := by
    rw [← here, List.length_drop]
  rw [Entry.archive_length] at left
  omega

/-- One round of the loop on an entry. -/
theorem loadRound_entry {entry : Entry} (root : Nat) (vnodes : Vnodes)
    (here : d.drop c = Entry.archive (entry :: entries) more) :
    loadRound d root (d.drop c) c vnodes =
      match transmuteToRamfs (entry.bytes ++ Entry.archive entries more) root vnodes with
      | .error message => .error message
      | .ok (_, made) =>
          .ok (made, if ((Entry.archive entries more).take 1024).sum = 0 then none
            else some (d.drop (c + entry.bytes.length), c + entry.bytes.length)) := by
  have left : d.length - c = entry.bytes.length + (Entry.archive entries more).length := by
    rw [← List.length_drop, here, Entry.archive_cons, List.length_append]
  have tail := Entry.archive_length entries more
  rw [loadRound, here, Entry.archive_cons]
  cases call : transmuteToRamfs (entry.bytes ++ Entry.archive entries more) root vnodes with
  | error message => rfl
  | ok found =>
      rcases found with ⟨fz, made⟩
      have inc : (alignUp fz 512 + ustarInodeSize) % addressSpace = entry.bytes.length := by
        rw [entry.transmuteToRamfs_size call, ← entry.bytes_length]
        exact Nat.mod_eq_of_lt entry.bytes_length_lt
      have whole : (entry.bytes ++ Entry.archive entries more).length = d.length - c := by
        rw [List.length_append, left]
      have inRange : ¬(d.length - c < entry.bytes.length ∨
          (entry.bytes ++ Entry.archive entries more).length < d.length - c) := by omega
      have advanced : ((entry.bytes ++ Entry.archive entries more).take (d.length - c)).drop
          entry.bytes.length = Entry.archive entries more := by
        rw [List.take_of_length_le (Nat.le_of_eq whole)]
        exact List.drop_left' rfl
      have long : ¬(Entry.archive entries more).length < 1024 := by omega
      simp only [bind, Except.bind]
      rw [inc, if_neg inRange, advanced, if_neg long, drop_entry here]
      split
      · rfl
      · rfl

section Rounds

variable {entry : Entry} (root fuel : Nat) (vnodes : Vnodes)
  (here : d.drop c = Entry.archive (entry :: entries) more)
include here

theorem loadLoop_entry :
    loadLoop d root (fuel + 1) (d.drop c) c vnodes =
      match transmuteToRamfs (entry.bytes ++ Entry.archive entries more) root vnodes with
      | .error message => .error message
      | .ok (_, made) =>
          if ((Entry.archive entries more).take 1024).sum = 0 then .ok made
          else loadLoop d root fuel (d.drop (c + entry.bytes.length)) (c + entry.bytes.length)
            made := by
  rw [loadLoop, if_neg (drop_entry_ne_end here), loadRound_entry root vnodes here]
  cases transmuteToRamfs (entry.bytes ++ Entry.archive entries more) root vnodes with
  | error message => rfl
  | ok found =>
      dsimp only
      by_cases stops : ((Entry.archive entries more).take 1024).sum = 0
      · rw [if_pos stops, if_pos stops]
      · rw [if_neg stops, if_neg stops]

theorem loadTrace_entry :
    loadTrace d root (fuel + 1) (d.drop c) c vnodes =
      match transmuteToRamfs (entry.bytes ++ Entry.archive entries more) root vnodes with
      | .error _ => [c]
      | .ok (_, made) =>
          if ((Entry.archive entries more).take 1024).sum = 0 then [c]
          else c :: loadTrace d root fuel (d.drop (c + entry.bytes.length))
            (c + entry.bytes.length) made := by
  rw [loadTrace, if_neg (drop_entry_ne_end here), loadRound_entry root vnodes here]
  cases transmuteToRamfs (entry.bytes ++ Entry.archive entries more) root vnodes with
  | error message => rfl
  | ok found =>
      dsimp only
      by_cases stops : ((Entry.archive entries more).take 1024).sum = 0
      · rw [if_pos stops, if_pos stops]
      · rw [if_neg stops, if_neg stops]

end Rounds

/-- Every entry has a header, so there are no more entries than bytes. -/
theorem Entry.length_le (entries : List Entry) (more : Nat) :
    entries.length ≤ (Entry.archive entries more).length := by
  induction entries with
  | nil => exact Nat.zero_le _
  | cons entry entries inductionHypothesis =>
      have size := entry.bytes_length
      rw [ustarInodeSize] at size
      rw [Entry.archive_cons, List.length_append, List.length_cons]
      omega

/-! ### The members of a tree -/

/-- A member of a tree as an entry of an archive. -/
def Member.entry (member : Member) : Entry where
  header := member.header
  data := member.content.data
  pad := List.replicate member.padding 0
  digits := Member.octal 11 member.content.data.length
  terminator := [0]
  header_length := member.header_length
  size_eq := congrArg UstarInode.fileSize member.fromBytes_header
  octal := octalDigits_range _ (octalDigits_octal 11 _ (by decide) member.sizeFits)
  ended := by
    constructor
    · exact List.cons_ne_nil _ _
    · intro byte inside
      exact Or.inl (List.mem_singleton.mp inside)
  value := octalDigits_value _ (octalDigits_octal 11 _ (by decide) member.sizeFits)
  pad_length := List.length_replicate

/-- The archive of some members is an archive of entries. -/
theorem archive_eq (members : List Member) :
    archive members = Entry.archive (members.map Member.entry) 0 := by
  rw [archive, Entry.archive, List.flatMap_map]
  rfl

end NyauxKernel.Vfs
