/-
Ustar archives of finite directory trees, and what the loader decodes from them.

A tree is listed as an archiver writes it: every member has a path, paths are
distinct, and the directory of a member comes before it.  The header fields that
the loader never looks at (mode, owners, times, checksum, link name, version,
device numbers, prefix) are arbitrary bytes of the right length.
-/

import NyauxKernel.Vfs.Ustar
import Mathlib.Data.List.Basic
import Mathlib.Data.List.Nodup

namespace NyauxKernel.Vfs

/-! ### Members and listings -/

inductive Content
  | dir
  | file (data : List UInt8)
deriving DecidableEq, Repr

def Content.data : Content → List UInt8
  | .dir => []
  | .file data => data

def Content.typ : Content → UInt8
  | .dir => ustarDir
  | .file _ => ustarFile

def joinPath (pieces : List Str) : Str := [slash].intercalate pieces

/-- A component of a path. -/
structure IsName (name : Str) : Prop where
  nonempty : name ≠ []
  noSlash : slash ∉ name
  noNul : 0 ∉ name

/-- Header bytes that the loader does not read. -/
structure HeaderRest where
  owner : List UInt8
  stamp : List UInt8
  linkName : List UInt8
  trailer : List UInt8
  owner_length : owner.length = 24
  stamp_length : stamp.length = 20
  linkName_length : linkName.length = 100
  trailer_length : trailer.length = 249

/-- Header bytes of a member with no metadata. -/
def blankRest : HeaderRest where
  owner := List.replicate 24 0
  stamp := List.replicate 20 0
  linkName := List.replicate 100 0
  trailer := List.replicate 249 0
  owner_length := List.length_replicate
  stamp_length := List.length_replicate
  linkName_length := List.length_replicate
  trailer_length := List.length_replicate

/-- The bytes after the path in a header name: directories may end in a slash. -/
def slashes (trailingSlash : Bool) : Str := if trailingSlash then [slash] else []

/-- One member of an archive: a directory, or a regular file whose size fits the eleven
octal digits of the header. -/
structure Member where
  parent : List Str
  name : Str
  content : Content
  trailingSlash : Bool
  rest : HeaderRest
  isName : ∀ piece ∈ parent ++ [name], IsName piece
  slashOfDir : trailingSlash = true → content = .dir
  short : (joinPath (parent ++ [name]) ++ slashes trailingSlash).length < 100
  utf8 : (joinPath (parent ++ [name])).toByteArray.IsValidUTF8
  sizeFits : content.data.length < 8 ^ 11

namespace Member

def path (member : Member) : List Str := member.parent ++ [member.name]

def headerName (member : Member) : Str :=
  joinPath member.path ++ slashes member.trailingSlash

/-- The last `digits` octal digits of a number. -/
def octal : Nat → Nat → List UInt8
  | 0, _ => []
  | digits + 1, value => octal digits (value / 8) ++ [UInt8.ofNat (48 + value % 8)]

def nameField (member : Member) : List UInt8 :=
  member.headerName ++ List.replicate (100 - member.headerName.length) 0

def sizeField (member : Member) : List UInt8 :=
  octal 11 member.content.data.length ++ [0]

def header (member : Member) : List UInt8 :=
  member.nameField ++ (member.rest.owner ++ (member.sizeField ++ (member.rest.stamp ++
    (member.content.typ :: (member.rest.linkName ++
      ((ustarMagic ++ [0]) ++ member.rest.trailer))))))

def padding (member : Member) : Nat :=
  (512 - member.content.data.length % 512) % 512

/-- A header, the data of the member, and zeros up to the next block. -/
def bytes (member : Member) : List UInt8 :=
  member.header ++ (member.content.data ++ List.replicate member.padding 0)

end Member

/-- A finite tree of directories and nonempty regular files, in an order in which an
archiver writes it. -/
structure Listing where
  members : List Member
  nonempty : ∀ member ∈ members, member.content ≠ .file []
  distinct : (members.map Member.path).Nodup
  parents : ∀ front member back, members = front ++ member :: back →
    member.parent = [] ∨
      ∃ directory ∈ front, directory.path = member.parent ∧ directory.content = .dir

/-- The members one after another, then two zero blocks. -/
def archive (members : List Member) : List UInt8 :=
  members.flatMap Member.bytes ++ List.replicate 1024 0

/-! ### Decoding the fields of a header -/

theorem quickStrFromUstar_nul {str : Str} (more : List UInt8) (noNul : 0 ∉ str)
    (valid : str.toByteArray.IsValidUTF8) :
    quickStrFromUstar (str ++ 0 :: more) = .ok str := by
  have before : ∀ byte ∈ str, decide (byte ≠ 0) = true := by
    intro byte member
    simp only [decide_eq_true_eq]
    rintro rfl
    exact noNul member
  have taken : (str ++ 0 :: more).takeWhile (fun byte => decide (byte ≠ 0)) = str := by
    rw [List.takeWhile_append_of_pos before]
    simp
  simp only [quickStrFromUstar, taken]
  rw [if_pos (by simp), if_pos valid]

theorem octalDigits_append (value : Nat) (front back : List UInt8) :
    octalDigits value (front ++ back) =
      (octalDigits value front).bind fun value => octalDigits value back := by
  induction front generalizing value with
  | nil => rfl
  | cons digit rest inductionHypothesis =>
      simp only [List.cons_append, octalDigits]
      split
      · split
        · exact inductionHypothesis _
        · rfl
      · rfl

theorem octal_length (digits value : Nat) : (Member.octal digits value).length = digits := by
  induction digits generalizing value with
  | zero => rfl
  | succ digits inductionHypothesis =>
      simp [Member.octal, inductionHypothesis]

theorem octalDigits_octal (digits value : Nat) (few : digits ≤ 21)
    (fits : value < 8 ^ digits) :
    octalDigits 0 (Member.octal digits value) = some value := by
  induction digits generalizing value with
  | zero =>
      have zero : value = 0 := by simpa using fits
      rw [zero]
      rfl
  | succ digits inductionHypothesis =>
      have quotient : value / 8 < 8 ^ digits := by
        rw [Nat.pow_succ] at fits
        omega
      have bounded : value < addressSpace := by
        calc value < 8 ^ (digits + 1) := fits
          _ ≤ 8 ^ 21 := Nat.pow_le_pow_right (by decide) few
          _ ≤ addressSpace := by decide
      rw [Member.octal, octalDigits_append, inductionHypothesis _ (by omega) quotient]
      have digitNat : (UInt8.ofNat (48 + value % 8)).toNat = 48 + value % 8 := by
        rw [UInt8.toNat_ofNat']
        omega
      have inRange : 48 ≤ UInt8.ofNat (48 + value % 8) ∧
          UInt8.ofNat (48 + value % 8) ≤ 55 := by
        rw [UInt8.le_iff_toNat_le, UInt8.le_iff_toNat_le, digitNat]
        constructor
        · change 48 ≤ 48 + value % 8
          omega
        · change 48 + value % 8 ≤ 55
          omega
      have recombined : value / 8 * 8 + (48 + value % 8 - 48) = value := by omega
      simp only [Option.bind_some, octalDigits, if_pos inRange, digitNat, recombined,
        if_pos bounded]

/-- A byte below 128 is a character on its own. -/
theorem ascii_valid_one (byte : UInt8) (ascii : byte < 128) :
    [byte].toByteArray.IsValidUTF8 := by
  have bound : byte.toNat < 128 := ascii
  have valid : byte.toNat.isValidChar := Or.inl (by omega)
  have code : (Char.ofNat byte.toNat).val.toNat = byte.toNat := by
    rw [Char.ofNat, dif_pos valid]
    rfl
  apply ByteArray.IsValidUTF8.intro [Char.ofNat byte.toNat]
  have small : (Char.ofNat byte.toNat).val.toNat ≤ 127 := by omega
  simp only [List.utf8Encode, List.flatMap_cons, List.flatMap_nil, List.append_nil,
    String.utf8EncodeChar]
  rw [if_pos small, code]
  simp

theorem ascii_of_all {bytes : List UInt8} (all : bytes.all (fun byte => decide (byte < 128)) = true) :
    ∀ byte ∈ bytes, byte < 128 :=
  fun byte member => of_decide_eq_true (List.all_eq_true.mp all byte member)

theorem ascii_valid {bytes : List UInt8} (ascii : ∀ byte ∈ bytes, byte < 128) :
    bytes.toByteArray.IsValidUTF8 := by
  induction bytes with
  | nil => exact ByteArray.IsValidUTF8.intro [] rfl
  | cons byte rest inductionHypothesis =>
      have split : (byte :: rest).toByteArray = [byte].toByteArray ++ rest.toByteArray :=
        List.toByteArray_append (l := [byte])
      rw [split]
      apply ByteArray.IsValidUTF8.append
      · exact ascii_valid_one byte (ascii byte List.mem_cons_self)
      · exact inductionHypothesis fun other member =>
          ascii other (List.mem_cons_of_mem byte member)

theorem splitTerminator_joinPath {pieces : List Str} (trailingSlash : Bool)
    (isName : ∀ piece ∈ pieces, IsName piece) (nonempty : pieces ≠ []) :
    splitTerminator (joinPath pieces ++ slashes trailingSlash) = pieces := by
  have split : (joinPath pieces).splitOn slash = pieces :=
    List.splitOn_intercalate slash (fun piece member => (isName piece member).noSlash) nonempty
  cases trailingSlash with
  | true =>
      have extended : (joinPath pieces ++ [slash]).splitOn slash = pieces ++ [[]] := by
        rw [List.splitOn_append_cons_self, split, List.splitOn_nil]
      simp [splitTerminator, slashes, extended]
  | false =>
      have lastName : pieces.getLast? ≠ some [] := by
        intro last
        exact (isName [] (List.mem_of_getLast? last)).nonempty rfl
      simp [splitTerminator, slashes, split, lastName]

theorem mem_joinPath {pieces : List Str} {byte : UInt8} (inside : byte ∈ joinPath pieces) :
    byte = slash ∨ ∃ piece ∈ pieces, byte ∈ piece := by
  induction pieces with
  | nil => exact absurd inside List.not_mem_nil
  | cons piece rest inductionHypothesis =>
      cases rest with
      | nil =>
          rw [joinPath, List.intercalate_singleton] at inside
          exact Or.inr ⟨piece, List.mem_cons_self, inside⟩
      | cons next rest =>
          rw [joinPath, List.intercalate_cons_cons] at inside
          rcases List.mem_append.mp inside with front | later
          · rcases List.mem_append.mp front with inPiece | inSlash
            · exact Or.inr ⟨piece, List.mem_cons_self, inPiece⟩
            · exact Or.inl (List.mem_singleton.mp inSlash)
          · rcases inductionHypothesis later with isSlash | ⟨other, member, inOther⟩
            · exact Or.inl isSlash
            · exact Or.inr ⟨other, List.mem_cons_of_mem piece member, inOther⟩

theorem joinPath_no_nul {pieces : List Str} (isName : ∀ piece ∈ pieces, IsName piece) :
    0 ∉ joinPath pieces := by
  intro inside
  rcases mem_joinPath inside with isSlash | ⟨piece, member, inPiece⟩
  · exact absurd isSlash (by decide)
  · exact (isName piece member).noNul inPiece

/-! ### Members with plain names -/

/-- A path of nonempty names in ASCII. -/
def plainPath (path : List Str) : Bool :=
  path.all fun name => !name.isEmpty &&
    name.all fun byte => byte != 0 && byte != slash && decide (byte < 128)

section Plain

variable {path : List Str}

theorem plainPath_byte (plain : plainPath path = true) {name : Str} (inPath : name ∈ path)
    {byte : UInt8} (inName : byte ∈ name) : byte ≠ 0 ∧ byte ≠ slash ∧ byte < 128 := by
  have piece := List.all_eq_true.mp plain name inPath
  rw [Bool.and_eq_true, List.all_eq_true] at piece
  simpa [and_assoc] using piece.2 byte inName

theorem plainPath_isName (plain : plainPath path = true) : ∀ name ∈ path, IsName name := by
  intro name inPath
  have piece := List.all_eq_true.mp plain name inPath
  rw [Bool.and_eq_true] at piece
  constructor
  case nonempty => simpa using piece.1
  case noSlash => exact fun inName => (plainPath_byte plain inPath inName).2.1 rfl
  case noNul => exact fun inName => (plainPath_byte plain inPath inName).1 rfl

theorem plainPath_utf8 (plain : plainPath path = true) :
    (joinPath path).toByteArray.IsValidUTF8 := by
  apply ascii_valid
  intro byte inside
  rcases mem_joinPath inside with isSlash | ⟨name, inPath, inName⟩
  · rw [isSlash]
    decide
  · exact (plainPath_byte plain inPath inName).2.2

end Plain

theorem Content.dir_fits : Content.dir.data.length < 8 ^ 11 := Nat.pow_pos (by decide)

def Member.plain (parent : List Str) (name : Str) (content : Content) (rest : HeaderRest)
    (plain : plainPath (parent ++ [name]) = true)
    (short : (joinPath (parent ++ [name])).length < 100)
    (sizeFits : content.data.length < 8 ^ 11) : Member where
  parent := parent
  name := name
  content := content
  trailingSlash := false
  rest := rest
  isName := plainPath_isName plain
  slashOfDir := fun slash => absurd slash Bool.false_ne_true
  short := by
    rw [slashes, if_neg Bool.false_ne_true, List.append_nil]
    exact short
  utf8 := plainPath_utf8 plain
  sizeFits := sizeFits

namespace Member

variable (member : Member)

theorem path_ne_nil : member.path ≠ [] := by
  simp [path]

theorem headerName_ne_nil : member.headerName ≠ [] := by
  have isName : IsName member.name := member.isName _ (by simp)
  have split : splitTerminator member.headerName = member.path :=
    splitTerminator_joinPath _ member.isName member.path_ne_nil
  intro empty
  rw [empty] at split
  exact member.path_ne_nil split.symm

theorem headerName_no_nul : 0 ∉ member.headerName := by
  intro present
  rcases List.mem_append.mp present with inPath | inSlash
  · exact joinPath_no_nul member.isName inPath
  · revert inSlash
    unfold slashes
    cases member.trailingSlash with
    | true => decide
    | false => simp

theorem headerName_valid : member.headerName.toByteArray.IsValidUTF8 := by
  rw [headerName, List.toByteArray_append]
  apply ByteArray.IsValidUTF8.append member.utf8
  apply ascii_valid
  unfold slashes
  cases member.trailingSlash with
  | true => exact ascii_of_all rfl
  | false => exact ascii_of_all rfl

theorem splitTerminator_headerName : splitTerminator member.headerName = member.path :=
  splitTerminator_joinPath _ member.isName member.path_ne_nil

theorem nameField_length : member.nameField.length = 100 := by
  have short : member.headerName.length < 100 := member.short
  simp only [nameField, List.length_append, List.length_replicate]
  omega

theorem sizeField_length : member.sizeField.length = 12 := by
  simp [sizeField, octal_length]

theorem header_length : member.header.length = 512 := by
  simp [header, nameField_length, sizeField_length, member.rest.owner_length,
    member.rest.stamp_length, member.rest.linkName_length, member.rest.trailer_length,
    ustarMagic]

theorem quickStr_magic : quickStrFromUstar (ustarMagic ++ [0]) = .ok ustarMagic :=
  quickStrFromUstar_nul [] (by decide) (ascii_valid (ascii_of_all rfl))

/-- The fields that the loader reads are the ones the archiver wrote. -/
theorem fromBytes_header :
    UstarInode.fromBytes member.header =
      { name := member.nameField
        fileSize := member.sizeField
        typ := member.content.typ
        ustarInd := ustarMagic ++ [0] } := by
  have name := member.nameField_length
  have size := member.sizeField_length
  have owner := member.rest.owner_length
  have stamp := member.rest.stamp_length
  have link := member.rest.linkName_length
  have atSize : member.header.drop 124 =
      member.sizeField ++ (member.rest.stamp ++ (member.content.typ ::
        (member.rest.linkName ++ ((ustarMagic ++ [0]) ++ member.rest.trailer)))) := by
    rw [header, ← List.append_assoc]
    apply List.drop_left'
    simp [name, owner]
  have atTyp : member.header.drop 156 =
      member.content.typ ::
        (member.rest.linkName ++ ((ustarMagic ++ [0]) ++ member.rest.trailer)) := by
    rw [show 156 = 124 + 32 by rfl, ← List.drop_drop, atSize, ← List.append_assoc]
    apply List.drop_left'
    simp [size, stamp]
  have atMagic : member.header.drop 257 = (ustarMagic ++ [0]) ++ member.rest.trailer := by
    rw [show 257 = 156 + 101 by rfl, ← List.drop_drop, atTyp, List.drop_succ_cons]
    exact List.drop_left' link
  unfold UstarInode.fromBytes
  rw [atSize, atTyp, atMagic, List.take_left' size]
  rw [List.take_left' (show (ustarMagic ++ [0]).length = 6 by rfl)]
  rw [header, List.take_left' name]
  rfl

end Member

end NyauxKernel.Vfs
