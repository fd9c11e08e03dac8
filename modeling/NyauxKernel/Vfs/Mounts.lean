/-
Path lookup and mounting over any file systems.

A vnode carries the operations of the file system it belongs to, and those that a mount
has hidden.  `Box<dyn vops>` is a type with the operations that these functions call; its
`mount` and `unmount` hooks change the file system object itself or panic.  The table
records the hooks that ran.
-/

import NyauxKernel.Vfs.Ramfs
import Mathlib.Data.List.Basic

namespace NyauxKernel.Vfs

/-! ### The file systems and their vnodes -/

class FileSystem (σ : Type) where
  lookup : σ → Str → Option Nat
  mount : σ → Nat → Except String σ
  unmount : σ → Nat → Except String σ

/-- The implementations in the kernel.  `nullfs` only fills a vnode inside `mount`. -/
inductive KernelVops
  | ramfs (ops : Vops)
  | nullfs

instance : FileSystem KernelVops where
  lookup ops str :=
    match ops with
    | .ramfs ops => ops.lookup str
    | .nullfs => none
  mount ops _ :=
    match ops with
    | .ramfs ops => .ok (.ramfs ops)
    | .nullfs => .error "internal error: entered unreachable code"
  unmount ops _ :=
    match ops with
    | .ramfs ops => .ok (.ramfs ops)
    | .nullfs => .error "internal error: entered unreachable code"

structure MountVnode (σ : Type) where
  vPrevData : Option σ
  vData : σ

inductive Hook
  | mount (vnode : Nat)
  | unmount (vnode : Nat)
deriving DecidableEq, Repr

structure MountTable (σ : Type) where
  get : Nat → MountVnode σ
  hooks : List Hook

/-- The vnodes of a ramfs with nothing mounted. -/
def Vnodes.mountTable (vnodes : Vnodes) : MountTable KernelVops :=
  { get := fun id => { vPrevData := none, vData := .ramfs (vnodes.get id).vData }
    hooks := [] }

theorem lookupLoop_append (find : Nat → Str → Option Nat) (front back : List Str) (vnod : Nat) :
    lookupLoop find vnod (front ++ back) =
      (lookupLoop find vnod front).bind fun found => lookupLoop find found back := by
  induction front generalizing vnod with
  | nil => rfl
  | cons i rest inductionHypothesis =>
      rw [List.cons_append, lookupLoop, lookupLoop]
      by_cases empty : i.isEmpty
      · rw [if_pos empty, if_pos empty]
        exact inductionHypothesis vnod
      · rw [if_neg empty, if_neg empty]
        cases find vnod i with
        | none => rfl
        | some f => exact inductionHypothesis f

namespace MountTable

variable {σ : Type}

def set (table : MountTable σ) (vnode : Nat) (value : MountVnode σ) : MountTable σ :=
  { table with get := Function.update table.get vnode value }

def ran (table : MountTable σ) (hook : Hook) : MountTable σ :=
  { table with hooks := table.hooks ++ [hook] }

variable [FileSystem σ]

def find (table : MountTable σ) (a : Nat) (i : Str) : Option Nat :=
  FileSystem.lookup (table.get a).vData i

def lookup (table : MountTable σ) (vnod : Nat) (path : Str) : Option Nat :=
  lookupLoop table.find vnod (splitTerminator path)

/-- The hook of the new file system runs first, before the vnode is looked at. -/
def mount (table : MountTable σ) (vnode : Nat) (vnodeops : σ) :
    Except String (Except Errno Unit × MountTable σ) := do
  let vnodeops ← FileSystem.mount vnodeops vnode
  let table := table.ran (.mount vnode)
  let g := table.get vnode
  if g.vPrevData.isSome then .ok (.error .ebusy, table)
  else .ok (.ok (), table.set vnode { vPrevData := some g.vData, vData := vnodeops })

/-- The hook of the current file system runs whether or not it was mounted. -/
def unmount (table : MountTable σ) (vnode : Nat) :
    Except String (Except Errno Unit × MountTable σ) := do
  let vData ← FileSystem.unmount (table.get vnode).vData vnode
  let table := (table.set vnode { table.get vnode with vData := vData }).ran (.unmount vnode)
  match (table.get vnode).vPrevData with
  | none => .error "called `Option::unwrap()` on a `None` value"
  | some o => .ok (.ok (), table.set vnode { vPrevData := none, vData := o })

/-! ### Path resolution -/

/-- Whether the empty piece after a trailing slash is produced makes no difference. -/
theorem lookup_eq_splitOn (table : MountTable σ) (vnod : Nat) (path : Str) :
    table.lookup vnod path = lookupLoop table.find vnod (path.splitOn slash) := by
  rw [lookup, splitTerminator]
  by_cases trailing : (path.splitOn slash).getLast? = some []
  · have last : path.splitOn slash = (path.splitOn slash).dropLast ++ [[]] :=
      (List.dropLast_append_getLast? [] trailing).symm
    have skipped (found : Nat) : lookupLoop table.find found [[]] = some found := rfl
    rw [if_pos trailing]
    conv_rhs => rw [last]
    rw [lookupLoop_append]
    simp only [skipped, Option.bind_fun_some]
  · rw [if_neg trailing]

/-- A path is resolved piece by piece: what stands before a slash first, the rest from
there.  So a slash more at the start, at the end or beside another slash changes nothing. -/
theorem lookup_compositional (table : MountTable σ) (vnod : Nat) :
    (∀ p q : Str, table.lookup vnod (p ++ slash :: q) =
        (table.lookup vnod p).bind fun found => table.lookup found q) ∧
      (∀ p : Str, table.lookup vnod (slash :: p) = table.lookup vnod p) ∧
      (∀ p : Str, table.lookup vnod (p ++ [slash]) = table.lookup vnod p) ∧
      (∀ p q : Str, table.lookup vnod (p ++ slash :: slash :: q) =
        table.lookup vnod (p ++ slash :: q)) := by
  have split (vnod : Nat) (p q : Str) : table.lookup vnod (p ++ slash :: q) =
      (table.lookup vnod p).bind fun found => table.lookup found q := by
    simp only [lookup_eq_splitOn, List.splitOn_append_cons_self, lookupLoop_append]
  have nothing (vnod : Nat) : table.lookup vnod [] = some vnod := rfl
  have leading (vnod : Nat) (p : Str) :
      table.lookup vnod (slash :: p) = table.lookup vnod p := by
    have first := split vnod [] p
    rwa [nothing, Option.bind_some, List.nil_append] at first
  refine ⟨split vnod, leading vnod, ?_, ?_⟩
  · intro p
    rw [split]
    simp only [nothing, Option.bind_fun_some]
  · intro p q
    rw [split, split]
    simp only [leading]

end MountTable

/-! ### Calls of `mount` and `unmount` -/

inductive MountOp (σ : Type)
  | mount (vnode : Nat) (vnodeops : σ)
  | unmount (vnode : Nat)

section Calls

variable {σ : Type} [FileSystem σ]

def MountOp.call (table : MountTable σ) :
    MountOp σ → Except String (Except Errno Unit × MountTable σ)
  | .mount vnode vnodeops => table.mount vnode vnodeops
  | .unmount vnode => table.unmount vnode

/-- What a call should do.  It never panics.  A refused call changes nothing and runs no
hook of a file system that is not going to be mounted.  Unmounting after a mount brings
every lookup back. -/
def MountOp.Exact (table : MountTable σ) : MountOp σ → Prop
  | .mount vnode vnodeops =>
      if (table.get vnode).vPrevData.isSome then
        ∃ table', table.mount vnode vnodeops = .ok (.error .ebusy, table') ∧
          table'.get = table.get ∧ table'.hooks = table.hooks
      else
        ∃ table', table.mount vnode vnodeops = .ok (.ok (), table') ∧
          ∀ table'', table'.unmount vnode = .ok (.ok (), table'') →
            ∀ start path, table''.lookup start path = table.lookup start path
  | .unmount vnode =>
      if (table.get vnode).vPrevData.isSome then
        ∃ table', table.unmount vnode = .ok (.ok (), table')
      else
        ∃ failure table', table.unmount vnode = .ok (.error failure, table') ∧
          table'.get vnode = table.get vnode

/-- Every call of a sequence does what it should. -/
def MountsExact : MountTable σ → List (MountOp σ) → Prop
  | _, [] => True
  | table, op :: rest =>
      op.Exact table ∧
        ∀ reply table', op.call table = .ok (reply, table') → MountsExact table' rest

/-- A file system is mounted where none is, and unmounted where one is; its hook returns. -/
def MountOp.Fits (table : MountTable σ) : MountOp σ → Prop
  | .mount vnode vnodeops =>
      (table.get vnode).vPrevData = none ∧ (FileSystem.mount vnodeops vnode).isOk
  | .unmount vnode =>
      (table.get vnode).vPrevData ≠ none ∧
        (FileSystem.unmount (table.get vnode).vData vnode).isOk

/-- Mounts and unmounts alternate on every vnode. -/
def MountsFit : MountTable σ → List (MountOp σ) → Prop
  | _, [] => True
  | table, op :: rest =>
      op.Fits table ∧
        ∀ reply table', op.call table = .ok (reply, table') → MountsFit table' rest

theorem lookup_of_get_eq {table table' : MountTable σ} (same : table'.get = table.get)
    (start : Nat) (path : Str) : table'.lookup start path = table.lookup start path := by
  have find : table'.find = table.find := by
    funext a i
    rw [MountTable.find, same, MountTable.find]
  rw [MountTable.lookup, find, MountTable.lookup]

theorem mount_exact_iff (table : MountTable σ) (vnode : Nat) (vnodeops : σ) :
    (MountOp.mount vnode vnodeops).Exact table ↔
      (MountOp.mount vnode vnodeops).Fits table := by
  rw [MountOp.Exact, MountOp.Fits]
  cases hook : FileSystem.mount vnodeops vnode with
  | error message =>
      have panics : table.mount vnode vnodeops = .error message := by
        rw [MountTable.mount, hook]
        rfl
      simp [panics, Except.isOk, Except.toBool]
  | ok mounted =>
      cases previous : (table.get vnode).vPrevData with
      | some hidden =>
          have refused : table.mount vnode vnodeops =
              .ok (.error .ebusy, table.ran (.mount vnode)) := by
            simp [MountTable.mount, hook, MountTable.ran, previous, bind, Except.bind]
          -- the vnode is left alone, but the hook of the refused file system has run
          simp [refused, MountTable.ran]
      | none =>
          have done : table.mount vnode vnodeops =
              .ok (.ok (), (table.ran (.mount vnode)).set vnode
                { vPrevData := some (table.get vnode).vData, vData := mounted }) := by
            simp [MountTable.mount, hook, MountTable.ran, previous, bind, Except.bind]
          apply iff_of_true
          · rw [if_neg (by simp)]
            refine ⟨_, done, ?_⟩
            intro table'' unmounted start path
            apply lookup_of_get_eq
            cases unhook : FileSystem.unmount mounted vnode with
            | error message =>
                simp [MountTable.unmount, MountTable.set, MountTable.ran, unhook, bind,
                  Except.bind] at unmounted
            | ok left =>
                simp only [MountTable.unmount, MountTable.set, MountTable.ran, unhook, bind,
                  Except.bind, Function.update_self, Function.update_idem] at unmounted
                cases unmounted
                dsimp only
                rw [← previous]
                exact Function.update_eq_self vnode table.get
          · exact ⟨rfl, rfl⟩

theorem unmount_exact_iff (table : MountTable σ) (vnode : Nat) :
    (MountOp.unmount vnode).Exact table ↔ (MountOp.unmount vnode).Fits table := by
  rw [MountOp.Exact, MountOp.Fits]
  cases hook : FileSystem.unmount (table.get vnode).vData vnode with
  | error message =>
      have panics : table.unmount vnode = .error message := by
        rw [MountTable.unmount, hook]
        rfl
      simp [panics, Except.isOk, Except.toBool]
  | ok left =>
      cases previous : (table.get vnode).vPrevData with
      | none =>
          have panics : table.unmount vnode =
              .error "called `Option::unwrap()` on a `None` value" := by
            simp [MountTable.unmount, hook, MountTable.ran, MountTable.set, previous, bind,
              Except.bind]
          simp [panics]
      | some hidden =>
          apply iff_of_true
          · rw [if_pos (Option.isSome_some)]
            simp [MountTable.unmount, hook, MountTable.ran, MountTable.set, previous, bind,
              Except.bind]
          · exact ⟨Option.some_ne_none hidden, rfl⟩

/-- In any sequence of calls every call does what it should exactly when each mount is on
a vnode with nothing mounted, each unmount on a vnode with something mounted, and the
hooks return. -/
theorem mounts_exact_iff (table : MountTable σ) (ops : List (MountOp σ)) :
    MountsExact table ops ↔ MountsFit table ops := by
  induction ops generalizing table with
  | nil => exact Iff.rfl
  | cons op rest inductionHypothesis =>
      have here : op.Exact table ↔ op.Fits table := by
        cases op with
        | mount vnode vnodeops => exact mount_exact_iff table vnode vnodeops
        | unmount vnode => exact unmount_exact_iff table vnode
      rw [MountsExact, MountsFit, here]
      simp only [inductionHypothesis]

end Calls

/-- A ramfs mounted on the root of another and unmounted again, twice. -/
theorem mounts_exact_twice :
    MountsExact emptyRoot.mountTable
      [.mount 0 (.ramfs (.ramfsdir [])), .unmount 0,
        .mount 0 (.ramfs (.ramfsdir [])), .unmount 0] := by
  apply (mounts_exact_iff emptyRoot.mountTable _).mpr
  refine ⟨⟨rfl, rfl⟩, ?_⟩
  intro _reply first mounted
  cases mounted
  refine ⟨⟨Option.some_ne_none _, rfl⟩, ?_⟩
  intro _reply second unmounted
  cases unmounted
  refine ⟨⟨rfl, rfl⟩, ?_⟩
  intro _reply third again
  cases again
  exact ⟨⟨Option.some_ne_none _, rfl⟩, fun _ _ _ => trivial⟩

/-- A ramfs root with nothing mounted: the first unmount panics, and a second mount is
refused after its hook has run. -/
theorem mounts_not_exact :
    ¬MountsExact emptyRoot.mountTable [.unmount 0] ∧
      emptyRoot.mountTable.unmount 0 =
        .error "called `Option::unwrap()` on a `None` value" ∧
      ¬MountsExact emptyRoot.mountTable
        [.mount 0 (.ramfs (.ramfsdir [])), .mount 0 (.ramfs (.ramfsdir []))] := by
  refine ⟨?_, rfl, ?_⟩
  · intro exact
    rcases exact.1 with ⟨failure, table', panics, _⟩
    cases panics
  · intro exact
    rcases (exact.2 _ _ rfl).1 with ⟨table', refused, _same, hooks⟩
    cases refused
    cases hooks

end NyauxKernel.Vfs
