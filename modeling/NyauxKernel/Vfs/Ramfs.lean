/-
The virtual file system layer of `vfs/mod.rs` over the ramfs of `vfs/ramfs.rs`.

A `&str` is its bytes.  A vnode is named by the identity of the `Arc` that holds
it; creation takes the next unused identity.  The locks guard single calls and
leave no trace in sequential runs.  A panic is an error that carries its message,
and the kernel's own `Err` values are ordinary results.
-/

import NyauxKernel.Word
import Mathlib.Logic.Function.Basic

namespace NyauxKernel.Vfs

abbrev Str := List UInt8

inductive VType
  | vreg
  | vdir
deriving DecidableEq, Repr

inductive Errno
  | eexist
  | enotdir
  | ebusy
deriving DecidableEq, Repr

structure Dentry where
  name : Str
  inner : Option Nat
deriving DecidableEq, Repr

/-- The implementations of `vops` that a ramfs vnode can carry. -/
inductive Vops
  | ramfsdir (entries : List Dentry)
  | ramfsfile (buf : List UInt8)
deriving DecidableEq, Repr

structure Vnode where
  vType : VType
  vData : Vops
deriving DecidableEq, Repr

structure Vnodes where
  get : Nat → Vnode
  count : Nat

def Vnodes.setData (vnodes : Vnodes) (id : Nat) (data : Vops) : Vnodes :=
  { vnodes with get := Function.update vnodes.get id { vnodes.get id with vData := data } }

/-- `Arc::new` of a new vnode. -/
def Vnodes.alloc (vnodes : Vnodes) (vnode : Vnode) : Nat × Vnodes :=
  (vnodes.count,
    { get := Function.update vnodes.get vnodes.count vnode
      count := vnodes.count + 1 })

def Vops.lookup : Vops → Str → Option Nat
  | .ramfsdir entries, str => (entries.find? fun a => a.name = str).bind Dentry.inner
  | .ramfsfile _, _ => none

/-- `vops::read`: the returned count and the caller's buffer. -/
def Vops.read : Vops → List UInt8 → Nat → Int × List UInt8
  | .ramfsdir _, out, _ => (-1, out)
  | .ramfsfile buf, out, offset =>
      if offset ≥ buf.length then (0, out)
      else
        let byteAmount := min out.length (buf.length - offset)
        (byteAmount, (buf.drop offset).take byteAmount ++ out.drop byteAmount)

/-- `isize::MAX`, the most bytes that a `Vec` can hold. -/
def isizeMax : Nat := 2 ^ 63 - 1

/-- Where a `write` ends.  `Vec::resize` panics above `isize::MAX`, and so does the slice of
the written range if its end wraps around. -/
def writeEnd (offset amount : Nat) : Except String Nat :=
  let stop := (offset + amount) % addressSpace
  if isizeMax < stop then .error "capacity overflow"
  else if offset + amount ≠ stop then
    .error s!"slice index starts at {offset} but ends at {stop}"
  else .ok stop

/-- `vops::write`: the returned count and the state of the file system object. -/
def Vops.write : Vops → List UInt8 → Nat → Except String (Int × Vops)
  | .ramfsdir entries, _, _ => .ok (-1, .ramfsdir entries)
  | .ramfsfile buf, data, offset => do
      let stop ← writeEnd offset data.length
      let buf := if stop > buf.length then buf ++ List.replicate (stop - buf.length) 0 else buf
      .ok (data.length, .ramfsfile (buf.take offset ++ data ++ buf.drop stop))

/-- `ramfsdir::create_entry` on the directory vnode `dir`. -/
def createEntry (vnodes : Vnodes) (dir : Nat) (entries : List Dentry) (name : Str)
    (vnode : Vnode) : Nat × Vnodes :=
  let (id, vnodes) := vnodes.alloc vnode
  (id, vnodes.setData dir (.ramfsdir (entries ++ [{ name := name, inner := some id }])))

def mkdir (vnodes : Vnodes) (dir : Nat) (name : Str) : Except Errno Nat × Vnodes :=
  match (vnodes.get dir).vData with
  | .ramfsdir entries =>
      let (id, vnodes) := createEntry vnodes dir entries name
        { vType := .vdir, vData := .ramfsdir [] }
      (.ok id, vnodes)
  | .ramfsfile _ => (.error .enotdir, vnodes)

/-- `vops::create`; on a regular file the source has `todo!()`. -/
def create (vnodes : Vnodes) (dir : Nat) (name : Str) :
    Except String (Except Errno Nat × Vnodes) :=
  match (vnodes.get dir).vData with
  | .ramfsdir entries =>
      if ((Vops.ramfsdir entries).lookup name).isSome then .ok (.error .eexist, vnodes)
      else
        let (id, vnodes) := createEntry vnodes dir entries name
          { vType := .vreg, vData := .ramfsfile [] }
        .ok (.ok id, vnodes)
  | .ramfsfile _ => .error "not yet implemented"

def slash : UInt8 := 47

/-- `str::split_terminator('/')`: an empty last piece is not produced. -/
def splitTerminator (path : Str) : List Str :=
  let pieces := path.splitOn slash
  if pieces.getLast? = some [] then pieces.dropLast else pieces

/-- The loop of `lookup` over the pieces of a path; `find` looks a name up in a vnode. -/
def lookupLoop (find : Nat → Str → Option Nat) : Nat → List Str → Option Nat
  | a, [] => some a
  | a, i :: rest =>
      if i.isEmpty then lookupLoop find a rest
      else
        match find a i with
        | some f => lookupLoop find f rest
        | none => none

def Vnodes.find (vnodes : Vnodes) (a : Nat) (i : Str) : Option Nat :=
  (vnodes.get a).vData.lookup i

def lookup (vnodes : Vnodes) (vnod : Nat) (path : Str) : Option Nat :=
  lookupLoop vnodes.find vnod (splitTerminator path)

/-- `vfs::new` with an empty ramfs directory: the root is vnode zero. -/
def emptyRoot : Vnodes :=
  { get := fun _ => { vType := .vdir, vData := .ramfsdir [] }
    count := 1 }

end NyauxKernel.Vfs
