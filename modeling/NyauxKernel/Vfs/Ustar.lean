/-
The initramfs loader of `vfs/ustar.rs`.

The archive is a byte slice that the loader advances through.  A header is read
from the first 512 bytes of what is left; only the fields below are looked at.
Slices out of range, failed `unwrap`s and explicit panics end the run.
-/

import NyauxKernel.Vfs.Ramfs
import Mathlib.Data.UInt

namespace NyauxKernel.Vfs

def ustarInodeSize : Nat := 512

/-- The fields of a header that the loader reads. -/
structure UstarInode where
  name : List UInt8
  fileSize : List UInt8
  typ : UInt8
  ustarInd : List UInt8

def UstarInode.fromBytes (bytes : List UInt8) : UstarInode :=
  { name := bytes.take 100
    fileSize := (bytes.drop 124).take 12
    typ := (bytes.drop 156).headD 0
    ustarInd := (bytes.drop 257).take 6 }

/-- `quick_str_from_ustar!`: the bytes before the first NUL, which must exist and
be valid UTF-8. -/
def quickStrFromUstar (field : List UInt8) : Except String Str :=
  if 0 ∈ field then
    let str := field.takeWhile (· ≠ 0)
    if str.toByteArray.IsValidUTF8 then .ok str
    else .error "called `Result::unwrap()` on an `Err` value: Utf8Error"
  else .error "called `Result::unwrap()` on an `Err` value: FromBytesUntilNulError"

def octalDigits : Nat → List UInt8 → Option Nat
  | value, [] => some value
  | value, digit :: rest =>
      if 48 ≤ digit ∧ digit ≤ 55 then
        let value := value * 8 + (digit.toNat - 48)
        if value < addressSpace then octalDigits value rest else none
      else none

/-- `usize::from_str_radix(src, 8)`. -/
def fromStrRadix8 : Str → Option Nat
  | [] => none
  | 43 :: [] => none
  | 43 :: digit :: rest => octalDigits 0 (digit :: rest)
  | src => octalDigits 0 src

def octalToNum (field : List UInt8) : Except String Nat := do
  let src ← quickStrFromUstar field
  match fromStrRadix8 src with
  | some value => .ok value
  | none => .error "called `Result::unwrap()` on an `Err` value: ParseIntError"

def unwrap {α : Type} : Except Errno α → Except String α
  | .ok value => .ok value
  | .error _ => .error "called `Result::unwrap()` on an `Err` value: errno"

def ustarFile : UInt8 := 48
def ustarDir : UInt8 := 53

/-- The part of `transmute_to_ramfs` that makes the node of a header whose last
component `i` is missing in `curNode`.  The file's bytes are written through the
guard of the directory. -/
def transmuteCreate (ptr : List UInt8) (typ : UInt8) (fz : Nat) (curNode : Nat)
    (i : Str) (vnodes : Vnodes) : Except String Vnodes :=
  if typ = ustarFile then do
    let (created, vnodes) ← create vnodes curNode i
    let _ ← unwrap created
    if fz = 0 then .error "?"
    else if ptr.length < fz then .error "range end index out of range for slice"
    else
      let (_, c) ← (vnodes.get curNode).vData.write (ptr.take fz) 0
      .ok (vnodes.setData curNode c)
  else if typ = ustarDir then do
    let (made, vnodes) := mkdir vnodes curNode i
    let _ ← unwrap made
    .ok vnodes
  else .ok vnodes

/-- The component loop of `transmute_to_ramfs`. -/
def transmuteLoop (ptr : List UInt8) (typ : UInt8) (fz : Nat) (lastcomp : Str) :
    List Str → Nat → Vnodes → Except String Vnodes
  | [], _, vnodes => .ok vnodes
  | i :: rest, curNode, vnodes =>
      if i.isEmpty then transmuteLoop ptr typ fz lastcomp rest curNode vnodes
      else
        match (vnodes.get curNode).vData.lookup i with
        | some h => transmuteLoop ptr typ fz lastcomp rest h vnodes
        | none =>
            if i = lastcomp then do
              let vnodes ← transmuteCreate ptr typ fz curNode i vnodes
              transmuteLoop ptr typ fz lastcomp rest curNode vnodes
            else do
              let (made, vnodes) := mkdir vnodes curNode i
              let new ← unwrap made
              transmuteLoop ptr typ fz lastcomp rest new vnodes

/-- The bytes of `"ustar"`. -/
def ustarMagic : Str := [117, 115, 116, 97, 114]

def transmuteToRamfs (ptr : List UInt8) (fs : Nat) (vnodes : Vnodes) :
    Except String (Nat × Vnodes) := do
  if ptr.length < ustarInodeSize then
    .error "range end index 512 out of range for slice"
  else
    let h := UstarInode.fromBytes (ptr.take ustarInodeSize)
    let us ← quickStrFromUstar h.ustarInd
    let w ← quickStrFromUstar h.name
    if us ≠ ustarMagic ∨ w = [] then .error "invalid tar header"
    else
      let fz ← octalToNum h.fileSize
      let pieces := splitTerminator w
      match pieces.getLast? with
      | none => .error "called `Option::unwrap()` on a `None` value"
      | some lastcomp =>
          let vnodes ← transmuteLoop ptr h.typ fz lastcomp pieces fs vnodes
          .ok (fz, vnodes)

/-- One round of the loop of `load_ramfs_with_ustar_tar`: the rest of the archive and its
offset, unless the loop breaks. -/
def loadRound (d : List UInt8) (root : Nat) (ptr : List UInt8) (c : Nat) (vnodes : Vnodes) :
    Except String (Vnodes × Option (List UInt8 × Nat)) := do
  let (fz, vnodes) ← transmuteToRamfs ptr root vnodes
  let oo := alignUp fz 512
  let inc := (oo + ustarInodeSize) % addressSpace
  if d.length - c < inc ∨ ptr.length < d.length - c then
    .error "slice index out of range"
  else
    let ptr := (ptr.take (d.length - c)).drop inc
    if ptr.length < 1024 then .error "range end index 1024 out of range for slice"
    else if (ptr.take 1024).sum = 0 then .ok (vnodes, none)
    else .ok (vnodes, some (ptr, c + inc))

/-- The loop of `load_ramfs_with_ustar_tar`.  Every round consumes at least one
header, so the length of the archive is enough fuel. -/
def loadLoop (d : List UInt8) (root : Nat) :
    Nat → List UInt8 → Nat → Vnodes → Except String Vnodes
  | 0, _, _, _ => .error "the loop does not end"
  | fuel + 1, ptr, c, vnodes =>
      if c = d.length then .ok vnodes
      else
        match loadRound d root ptr c vnodes with
        | .error message => .error message
        | .ok (vnodes, none) => .ok vnodes
        | .ok (vnodes, some (ptr, c)) => loadLoop d root fuel ptr c vnodes

/-- A module file handed over by the bootloader. -/
structure LimineFile where
  path : Str
  data : List UInt8

/-- The bytes of `"tar"`, looked for in the module's path. -/
def tarPattern : Str := [116, 97, 114]

def loadRamfsWithUstarTar (modules : Option (List LimineFile)) (cmd : Option Str)
    (root : Nat) (vnodes : Vnodes) : Except String Vnodes :=
  match modules with
  | none =>
      .error ("Nyaux Requires an initramfs. Please check the README.MD for how the " ++
        "intiramfs should be given to Nyaux.")
  | some modules =>
      match cmd with
      | none => .error "called `Option::unwrap()` on a `None` value"
      | some (_ :: _) => .error "not yet implemented"
      | some [] =>
          match modules.head? with
          | none => .error "index out of bounds: the len is 0 but the index is 0"
          | some possibletar =>
              if tarPattern <:+: possibletar.path then
                loadLoop possibletar.data root (possibletar.data.length + 1)
                  possibletar.data 0 vnodes
              else .error "Nyaux Requires an initramfs. Not a valid tar was provided"

end NyauxKernel.Vfs
