/-
Entries with a ustar header, and what `transmute_to_ramfs` decodes from them.

The name is valid UTF-8 of one to a hundred bytes and ends at a NUL or at the end of its
field.  A name that fills the field has no NUL, and the loader panics on it.
-/

import NyauxKernel.Vfs.Entries

namespace NyauxKernel.Vfs

/-- An entry whose header has the magic, a name, and a size that ends with a NUL. -/
structure UstarEntry extends Entry where
  name : Str
  afterName : List UInt8
  name_eq : header.take 100 = name ++ afterName
  name_ended : afterName = [] ∨ afterName.head? = some 0
  name_nonempty : name ≠ []
  name_noNul : 0 ∉ name
  name_utf8 : name.toByteArray.IsValidUTF8
  magic_eq : (header.drop 257).take 6 = ustarMagic ++ [0]
  digits_nonempty : digits ≠ []
  size_ended : terminator.head? = some 0

namespace UstarEntry

def typ (entry : UstarEntry) : UInt8 := (entry.header.drop 156).headD 0

/-- The components of the path, without empty pieces between slashes. -/
def components (entry : UstarEntry) : List Str :=
  (splitTerminator entry.name).filter fun piece => !piece.isEmpty

/-- The last piece of the name, which may be empty. -/
def last (entry : UstarEntry) : Str := (splitTerminator entry.name).getLast?.getD []

end UstarEntry

/-! ### The size -/

theorem octalDigits_of_range (digits : List UInt8)
    (octal : ∀ digit ∈ digits, 48 ≤ digit ∧ digit ≤ 55) (value : Nat)
    (fits : (value + 1) * 8 ^ digits.length ≤ addressSpace) :
    octalDigits value digits =
      some (digits.foldl (fun value digit => value * 8 + (digit.toNat - 48)) value) := by
  induction digits generalizing value with
  | nil => rfl
  | cons digit rest inductionHypothesis =>
      have inRange := octal digit List.mem_cons_self
      have small : digit.toNat ≤ 55 := inRange.2
      have grown : value * 8 + (digit.toNat - 48) + 1 ≤ (value + 1) * 8 := by omega
      have room : (value * 8 + (digit.toNat - 48) + 1) * 8 ^ rest.length ≤ addressSpace := by
        calc (value * 8 + (digit.toNat - 48) + 1) * 8 ^ rest.length
            ≤ (value + 1) * 8 * 8 ^ rest.length := Nat.mul_le_mul_right _ grown
          _ = (value + 1) * 8 ^ (digit :: rest).length := by
            rw [List.length_cons, Nat.pow_succ, Nat.mul_assoc, Nat.mul_comm 8]
          _ ≤ addressSpace := fits
      have below : value * 8 + (digit.toNat - 48) < addressSpace := by
        have power : 0 < 8 ^ rest.length := Nat.pow_pos (by decide)
        have scaled := Nat.le_mul_of_pos_right (value * 8 + (digit.toNat - 48) + 1) power
        omega
      rw [octalDigits, if_pos inRange, List.foldl_cons]
      dsimp only
      rw [if_pos below]
      exact inductionHypothesis
        (fun other member => octal other (List.mem_cons_of_mem digit member)) _ room

theorem fromStrRadix8_of_unsigned {src : Str} (nonempty : src ≠ []) (noSign : 43 ∉ src) :
    fromStrRadix8 src = octalDigits 0 src := by
  unfold fromStrRadix8
  split
  · exact absurd rfl nonempty
  · exact absurd List.mem_cons_self noSign
  · exact absurd List.mem_cons_self noSign
  · rfl

namespace UstarEntry

variable (entry : UstarEntry)

theorem octalToNum_size :
    octalToNum (entry.digits ++ entry.terminator) = .ok entry.data.length := by
  have noNul : 0 ∉ entry.digits := by
    intro member
    exact absurd (entry.octal 0 member).1 (by decide)
  have ascii : ∀ digit ∈ entry.digits, digit < 128 := by
    intro digit member
    have small : digit.toNat ≤ 55 := (entry.octal digit member).2
    rw [UInt8.lt_iff_toNat_lt]
    exact Nat.lt_of_le_of_lt small (by decide)
  have noSign : 43 ∉ entry.digits := by
    intro member
    exact absurd (entry.octal 43 member).1 (by decide)
  rcases List.head?_eq_some_iff.mp entry.size_ended with ⟨more, terminator⟩
  have taken := quickStrFromUstar_nul more noNul (ascii_valid ascii)
  have fits : (0 + 1) * 8 ^ entry.digits.length ≤ addressSpace := by
    have few : 8 ^ entry.digits.length ≤ 8 ^ 11 :=
      Nat.pow_le_pow_right (by decide) entry.digits_length_le
    have room : 8 ^ 11 ≤ addressSpace := by decide
    omega
  have value := octalDigits_of_range entry.digits entry.octal 0 fits
  rw [octalToNum, terminator, taken]
  simp only [bind, Except.bind, fromStrRadix8_of_unsigned entry.digits_nonempty noSign, value]
  rw [← entry.value]
  rfl

/-! ### The name -/

/-- The name field has a NUL exactly when the name does not fill it. -/
theorem quickStr_name (short : entry.name.length < 100) :
    quickStrFromUstar (entry.name ++ entry.afterName) = .ok entry.name := by
  rcases entry.name_ended with full | ended
  · have field := congrArg List.length entry.name_eq
    rw [List.length_take, entry.header_length, full, List.append_nil, ustarInodeSize] at field
    omega
  · rcases List.head?_eq_some_iff.mp ended with ⟨more, after⟩
    rw [after]
    exact quickStrFromUstar_nul more entry.name_noNul entry.name_utf8

theorem quickStr_full_name (full : ¬entry.name.length < 100) :
    ∃ message, quickStrFromUstar (entry.name ++ entry.afterName) = .error message := by
  have field := congrArg List.length entry.name_eq
  rw [List.length_take, List.length_append] at field
  have nothing : entry.afterName = [] := by
    apply List.length_eq_zero_iff.mp
    omega
  rw [nothing, List.append_nil, quickStrFromUstar, if_neg entry.name_noNul]
  exact ⟨_, rfl⟩

theorem pieces_nonempty : splitTerminator entry.name ≠ [] := by
  intro nothing
  have joined : [slash].intercalate (entry.name.splitOn slash) = entry.name :=
    List.intercalate_splitOn slash
  rw [splitTerminator] at nothing
  split at nothing
  case isTrue trailing =>
    have whole := List.dropLast_append_getLast? [] trailing
    rw [nothing, List.nil_append] at whole
    rw [← whole] at joined
    exact entry.name_nonempty joined.symm
  case isFalse => exact List.splitOn_ne_nil slash entry.name nothing

theorem getLast_pieces : (splitTerminator entry.name).getLast? = some entry.last := by
  rw [last]
  cases found : (splitTerminator entry.name).getLast? with
  | none => exact absurd (List.getLast?_eq_none_iff.mp found) entry.pieces_nonempty
  | some piece => rfl

theorem components_nonempty : ∀ name ∈ entry.components, name ≠ [] := by
  intro name member
  have real := (List.mem_filter.mp member).2
  simpa using real

end UstarEntry

/-- Empty pieces are skipped. -/
theorem transmuteLoop_filter (ptr : List UInt8) (typ : UInt8) (fz : Nat) (last : Str)
    (pieces : List Str) (id : Nat) (vnodes : Vnodes) :
    transmuteLoop ptr typ fz last pieces id vnodes =
      transmuteLoop ptr typ fz last (pieces.filter fun piece => !piece.isEmpty) id vnodes := by
  induction pieces generalizing id vnodes with
  | nil => rfl
  | cons piece rest inductionHypothesis =>
      by_cases empty : piece.isEmpty
      · rw [List.filter_cons_of_neg (by simp [empty]), transmuteLoop, if_pos empty]
        exact inductionHypothesis id vnodes
      · rw [List.filter_cons_of_pos (by simp [empty]), transmuteLoop, transmuteLoop]
        simp only [inductionHypothesis]

namespace UstarEntry

variable (entry : UstarEntry)

theorem length_not_lt (more : List UInt8) :
    ¬(entry.bytes ++ more).length < ustarInodeSize := by
  rw [Entry.bytes, List.length_append, List.length_append, entry.header_length]
  omega

theorem fromBytes_header :
    UstarInode.fromBytes entry.header =
      { name := entry.name ++ entry.afterName
        fileSize := entry.digits ++ entry.terminator
        typ := entry.typ
        ustarInd := ustarMagic ++ [0] } := by
  rw [UstarInode.fromBytes, entry.name_eq, entry.size_eq, entry.magic_eq, typ]

/-- A call on an entry walks along the components, if the name does not fill its field. -/
theorem transmuteToRamfs_eq (short : entry.name.length < 100) (more : List UInt8) (root : Nat)
    (vnodes : Vnodes) :
    transmuteToRamfs (entry.bytes ++ more) root vnodes =
      (transmuteLoop (entry.bytes ++ more) entry.typ entry.data.length entry.last
        entry.components root vnodes).map fun made => (entry.data.length, made) := by
  rw [transmuteToRamfs, if_neg (entry.length_not_lt more), entry.take_header,
    entry.fromBytes_header]
  simp only [Member.quickStr_magic, entry.quickStr_name short, entry.octalToNum_size,
    entry.getLast_pieces, bind, Except.bind]
  rw [if_neg (by simp [entry.name_nonempty]), transmuteLoop_filter, ← components]
  cases transmuteLoop (entry.bytes ++ more) entry.typ entry.data.length entry.last
    entry.components root vnodes with
  | error message => rfl
  | ok made => rfl

theorem transmuteToRamfs_full (full : ¬entry.name.length < 100) (more : List UInt8) (root : Nat)
    (vnodes : Vnodes) :
    ∃ message, transmuteToRamfs (entry.bytes ++ more) root vnodes = .error message := by
  rcases entry.quickStr_full_name full with ⟨message, noNul⟩
  refine ⟨message, ?_⟩
  rw [transmuteToRamfs, if_neg (entry.length_not_lt more), entry.take_header,
    entry.fromBytes_header]
  simp only [Member.quickStr_magic, noNul, bind, Except.bind]

end UstarEntry

/-! ### The entries that a call returns on -/

theorem quickStrFromUstar_ok {field str : Str} (taken : quickStrFromUstar field = .ok str) :
    ∃ more, field = str ++ 0 :: more ∧ 0 ∉ str ∧ str.toByteArray.IsValidUTF8 := by
  rw [quickStrFromUstar] at taken
  split at taken
  case isTrue nul =>
    dsimp only at taken
    split at taken
    case isTrue valid =>
      rw [← Except.ok.inj taken]
      have whole := List.takeWhile_append_dropWhile (p := (· ≠ (0 : UInt8))) (l := field)
      have free : (0 : UInt8) ∉ field.takeWhile (· ≠ 0) := by
        intro inside
        have real := List.all_eq_true.mp List.all_takeWhile _ inside
        contradiction
      cases rest : field.dropWhile (· ≠ (0 : UInt8)) with
      | nil =>
          rw [rest, List.append_nil] at whole
          rw [whole] at free
          exact absurd nul free
      | cons byte more =>
          have isNul : byte = 0 := by
            have first := List.head?_dropWhile_not (· ≠ (0 : UInt8)) field
            rw [rest] at first
            simpa using first
          rw [rest, isNul] at whole
          exact ⟨more, whole.symm, free, valid⟩
    case isFalse => contradiction
  case isFalse => contradiction

/-- A call returns only on an entry with a ustar header. -/
theorem Entry.ustar_of_returns (entry : Entry) {more : List UInt8} {root fz : Nat}
    {vnodes vnodes' : Vnodes}
    (returns : transmuteToRamfs (entry.bytes ++ more) root vnodes = .ok (fz, vnodes')) :
    ∃ ustar : UstarEntry, ustar.toEntry = entry := by
  unfold transmuteToRamfs at returns
  split at returns
  · contradiction
  · rw [entry.take_header] at returns
    rcases ExceptFold.ok_of_bind returns with ⟨us, magic, afterMagic⟩
    rcases ExceptFold.ok_of_bind afterMagic with ⟨w, name, afterName⟩
    split at afterName
    case isTrue => contradiction
    case isFalse valid =>
      rcases ExceptFold.ok_of_bind afterName with ⟨size, decoded, _rest⟩
      rw [UstarInode.fromBytes] at magic name decoded
      dsimp only at magic name decoded
      rw [entry.size_eq] at decoded
      rcases not_or.mp valid with ⟨isMagic, some_⟩
      rcases quickStrFromUstar_ok magic with ⟨afterUs, magicField, _⟩
      rcases quickStrFromUstar_ok name with ⟨afterW, nameField, noNul, utf8⟩
      rcases entry.octalToNum_ok decoded with ⟨_, digits, ended⟩
      have nothing : afterUs = [] := by
        have field := congrArg List.length magicField
        rw [not_not.mp isMagic, List.length_take, List.length_drop, entry.header_length,
          List.length_append, List.length_cons] at field
        apply List.length_eq_zero_iff.mp
        simp only [ustarInodeSize, ustarMagic, List.length_cons, List.length_nil] at field
        omega
      rw [not_not.mp isMagic, nothing] at magicField
      exact ⟨{ toEntry := entry
               name := w
               afterName := 0 :: afterW
               name_eq := nameField
               name_ended := Or.inr rfl
               name_nonempty := some_
               name_noNul := noNul
               name_utf8 := utf8
               magic_eq := magicField
               digits_nonempty := digits
               size_ended := ended }, rfl⟩

/-! ### The members of a tree -/

/-- A member of a tree as an entry with a header. -/
def Member.ustarEntry (member : Member) : UstarEntry where
  toEntry := member.entry
  name := member.headerName
  afterName := List.replicate (100 - member.headerName.length) 0
  name_eq := congrArg UstarInode.name member.fromBytes_header
  name_ended := by
    right
    have short : member.headerName.length < 100 := member.short
    have room : 100 - member.headerName.length = (99 - member.headerName.length) + 1 := by omega
    rw [room, List.replicate_succ, List.head?_cons]
  name_nonempty := member.headerName_ne_nil
  name_noNul := member.headerName_no_nul
  name_utf8 := member.headerName_valid
  magic_eq := congrArg UstarInode.ustarInd member.fromBytes_header
  digits_nonempty := by
    apply List.ne_nil_of_length_pos
    rw [show member.entry.digits = Member.octal 11 member.content.data.length from rfl,
      octal_length]
    decide
  size_ended := rfl

namespace Member

variable (member : Member)

theorem ustarEntry_typ : member.ustarEntry.typ = member.content.typ :=
  congrArg UstarInode.typ member.fromBytes_header

theorem ustarEntry_components : member.ustarEntry.components = member.path := by
  rw [UstarEntry.components, show member.ustarEntry.name = member.headerName from rfl,
    member.splitTerminator_headerName]
  apply List.filter_eq_self.mpr
  intro name inPath
  simp [(member.isName name inPath).nonempty]

theorem ustarEntry_last : member.ustarEntry.last = member.name := by
  rw [UstarEntry.last, show member.ustarEntry.name = member.headerName from rfl,
    member.splitTerminator_headerName, path, List.getLast?_concat, Option.getD_some]

end Member

end NyauxKernel.Vfs
