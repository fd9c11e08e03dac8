/-
The names in one ramfs directory.

`create` looks the name up first and `mkdir` does not.  A directory keeps its names
distinct over a sequence of calls exactly when no `mkdir` of the sequence takes a name
that the directory already has.
-/

import NyauxKernel.Vfs.Tree
import Mathlib.Data.List.Nodup

namespace NyauxKernel.Vfs

/-! ### The calls -/

inductive DirOp
  | create (name : Str)
  | mkdir (name : Str)
  | lookup (name : Str)

inductive DirReply
  | made (result : Except Errno Nat)
  | found (vnode : Option Nat)

/-- The name that a call adds to the directory. -/
def DirOp.adds : DirOp → Option Str
  | .create name => some name
  | .mkdir name => some name
  | .lookup _ => none

/-- One call of an operation of the vnode `dir`. -/
def DirOp.call (dir : Nat) : DirOp → Vnodes → Except String (DirReply × Vnodes)
  | .create name, vnodes => do
      let (created, vnodes) ← Vfs.create vnodes dir name
      .ok (.made created, vnodes)
  | .mkdir name, vnodes =>
      let (made, vnodes) := Vfs.mkdir vnodes dir name
      .ok (.made made, vnodes)
  | .lookup name, vnodes => .ok (.found ((vnodes.get dir).vData.lookup name), vnodes)

/-- The names in a directory, in the order of its entries. -/
def names (vnodes : Vnodes) (dir : Nat) : List Str :=
  match (vnodes.get dir).vData with
  | .ramfsdir entries => entries.map Dentry.name
  | .ramfsfile _ => []

/-! ### What the calls should do -/

/-- A name that is present is refused and nothing changes.  A name that is absent gets a
new vnode, and every other name keeps its own. -/
def AddsExactly (vnodes : Vnodes) (dir : Nat) (name : Str) (reply : DirReply)
    (vnodes' : Vnodes) : Prop :=
  if name ∈ names vnodes dir then
    reply = .made (.error .eexist) ∧ vnodes'.get dir = vnodes.get dir
  else
    ∃ id, reply = .made (.ok id) ∧ vnodes.count ≤ id ∧ id < vnodes'.count ∧
      (vnodes'.get dir).vData.lookup name = some id ∧
      ∀ other, other ≠ name →
        (vnodes'.get dir).vData.lookup other = (vnodes.get dir).vData.lookup other

def DirOp.Exact (dir : Nat) (vnodes : Vnodes) (reply : DirReply) (vnodes' : Vnodes) :
    DirOp → Prop
  | .create name => AddsExactly vnodes dir name reply vnodes'
  | .mkdir name => AddsExactly vnodes dir name reply vnodes'
  | .lookup name =>
      reply = .found ((vnodes.get dir).vData.lookup name) ∧
        vnodes'.get dir = vnodes.get dir

/-- Every state of the run has distinct names and every call does what it should. -/
def KeepsNamesUnique (dir : Nat) : Vnodes → List DirOp → Prop
  | vnodes, [] => (names vnodes dir).Nodup
  | vnodes, op :: rest =>
      (names vnodes dir).Nodup ∧
        ∃ reply vnodes', op.call dir vnodes = .ok (reply, vnodes') ∧
          op.Exact dir vnodes reply vnodes' ∧ KeepsNamesUnique dir vnodes' rest

/-- No `mkdir` takes a name in use, at the start or through an earlier call. -/
def MkdirsAreNew (used : Str → Prop) (ops : List DirOp) : Prop :=
  ∀ front name back, ops = front ++ .mkdir name :: back →
    ¬used name ∧ some name ∉ front.map DirOp.adds

/-- The vnode `dir` is a directory with distinct names, all of which have a vnode. -/
structure Directory (vnodes : Vnodes) (dir : Nat) : Prop where
  inside : dir < vnodes.count
  isDir : IsDir (vnodes.get dir).vData
  distinct : (names vnodes dir).Nodup

/-! ### One call -/

theorem mkdirsAreNew_cons (used : Str → Prop) (op : DirOp) (rest : List DirOp) :
    MkdirsAreNew used (op :: rest) ↔
      (∀ name, op = .mkdir name → ¬used name) ∧
        MkdirsAreNew (fun name => used name ∨ op.adds = some name) rest := by
  constructor
  · intro new
    constructor
    · intro name isMkdir
      exact (new [] name rest (by rw [isMkdir, List.nil_append])).1
    · intro front name back split
      have later := new (op :: front) name back (by rw [split, List.cons_append])
      rw [List.map_cons, List.mem_cons, not_or] at later
      constructor
      · intro taken
        rcases taken with before | here
        · exact later.1 before
        · exact later.2.1 here.symm
      · exact later.2.2
  · intro both front name back split
    cases front with
    | nil =>
        have same := List.cons.inj split
        exact ⟨both.1 name same.1, List.not_mem_nil⟩
    | cons first front =>
        have same := List.cons.inj split
        have later := both.2 front name back same.2
        rw [not_or] at later
        refine ⟨later.1.1, ?_⟩
        rw [List.map_cons, List.mem_cons, not_or, ← same.1]
        exact ⟨fun here => later.1.2 here.symm, later.2⟩

section Call

variable {vnodes : Vnodes} {dir : Nat}

theorem Directory.lookup_isSome (directory : Directory vnodes dir) (name : Str) :
    ((vnodes.get dir).vData.lookup name).isSome ↔ name ∈ names vnodes dir := by
  rcases directory.isDir with ⟨entries, dirEq, complete⟩
  rw [names, dirEq]
  constructor
  · intro present
    rcases Option.isSome_iff_exists.mp present with ⟨id, lookupEq⟩
    rcases Option.bind_eq_some_iff.mp lookupEq with ⟨entry, found, _inner⟩
    have named := List.find?_some found
    exact List.mem_map.mpr ⟨entry, List.mem_of_find?_eq_some found, of_decide_eq_true named⟩
  · intro present
    rcases List.mem_map.mp present with ⟨entry, inEntries, named⟩
    cases found : entries.find? (fun entry => decide (entry.name = name)) with
    | none =>
        have other := List.find?_eq_none.mp found entry inEntries
        rw [named, decide_eq_true rfl] at other
        contradiction
    | some first =>
        have inner := complete first (List.mem_of_find?_eq_some found)
        rw [Vops.lookup, found]
        exact Option.isSome_iff_ne_none.mpr inner

/-- A new entry with an unused name. -/
theorem Directory.add (directory : Directory vnodes dir) {entries : List Dentry}
    (dirEq : (vnodes.get dir).vData = .ramfsdir entries) {name : Str}
    (absent : name ∉ names vnodes dir) (vnode : Vnode) :
    Directory (createEntry vnodes dir entries name vnode).2 dir ∧
      AddsExactly vnodes dir name
        (.made (.ok (createEntry vnodes dir entries name vnode).1))
        (createEntry vnodes dir entries name vnode).2 ∧
      ∀ other, other ∈ names (createEntry vnodes dir entries name vnode).2 dir ↔
        other ∈ names vnodes dir ∨ name = other := by
  have complete : ∀ entry ∈ entries, entry.inner ≠ none := by
    rcases directory.isDir with ⟨others, isDir, complete⟩
    rw [dirEq] at isDir
    cases isDir
    exact complete
  have missing : (Vops.ramfsdir entries).lookup name = none := by
    rw [← dirEq, ← Option.not_isSome_iff_eq_none, directory.lookup_isSome]
    exact absent
  have after : (createEntry vnodes dir entries name vnode).2.get dir =
      { vnodes.get dir with
        vData := .ramfsdir (entries ++ [{ name := name, inner := some vnodes.count }]) } :=
    createEntry_get_dir directory.inside
  have added : names (createEntry vnodes dir entries name vnode).2 dir =
      names vnodes dir ++ [name] := by
    rw [names, names, after, dirEq]
    exact List.map_append
  constructor
  · constructor
    case inside => exact Nat.lt_succ_of_lt directory.inside
    case isDir =>
      rw [after]
      exact ⟨_, rfl, complete_append complete name vnodes.count⟩
    case distinct =>
      rw [added]
      exact List.nodup_append.mpr ⟨directory.distinct, List.nodup_singleton name,
        fun old inNames new isNew same =>
          absent (by rwa [← List.mem_singleton.mp isNew, ← same])⟩
  · constructor
    · rw [AddsExactly, if_neg absent]
      refine ⟨vnodes.count, rfl, Nat.le_refl _, Nat.lt_succ_self _, ?_, ?_⟩
      · rw [after]
        dsimp only
        rw [lookup_append complete name name vnodes.count missing, if_pos rfl]
      · intro other different
        rw [after, dirEq]
        dsimp only
        rw [lookup_append complete name other vnodes.count missing, if_neg different]
    · intro other
      rw [added, List.mem_append, List.mem_singleton, eq_comm (a := other)]

/-- What a call does, but for a `mkdir` of a name in use. -/
theorem Directory.call (directory : Directory vnodes dir) (op : DirOp)
    (new : ∀ name, op = .mkdir name → name ∉ names vnodes dir) :
    ∃ reply vnodes', op.call dir vnodes = .ok (reply, vnodes') ∧
      op.Exact dir vnodes reply vnodes' ∧ Directory vnodes' dir ∧
      ∀ name, name ∈ names vnodes' dir ↔ name ∈ names vnodes dir ∨ op.adds = some name := by
  rcases directory.isDir with ⟨entries, dirEq, _complete⟩
  cases op with
  | create name =>
      by_cases present : name ∈ names vnodes dir
      · refine ⟨.made (.error .eexist), vnodes, ?_, ?_, directory, ?_⟩
        · have found := (directory.lookup_isSome name).mpr present
          rw [dirEq] at found
          simp only [DirOp.call, create, dirEq, found, if_true, bind, Except.bind]
        · rw [DirOp.Exact, AddsExactly, if_pos present]
          exact ⟨rfl, rfl⟩
        · intro other
          refine ⟨Or.inl, fun either => either.elim id ?_⟩
          intro same
          rwa [← Option.some.inj same]
      · rcases directory.add dirEq present { vType := .vreg, vData := .ramfsfile [] } with
          ⟨kept, exact, added⟩
        refine ⟨_, _, ?_, exact, kept, fun other => ?_⟩
        · have missing := mt (directory.lookup_isSome name).mp present
          rw [dirEq] at missing
          simp only [DirOp.call, create, dirEq, if_neg missing, bind, Except.bind]
        · rw [added, DirOp.adds, Option.some_inj]
  | mkdir name =>
      rcases directory.add dirEq (new name rfl) { vType := .vdir, vData := .ramfsdir [] } with
        ⟨kept, exact, added⟩
      refine ⟨_, _, ?_, exact, kept, fun other => ?_⟩
      · simp only [DirOp.call, mkdir, dirEq]
      · rw [added, DirOp.adds, Option.some_inj]
  | lookup name =>
      refine ⟨_, vnodes, rfl, ⟨rfl, rfl⟩, directory, fun other => ?_⟩
      simp [DirOp.adds]

/-- A `mkdir` of a name in use succeeds. -/
theorem Directory.mkdir_not_exact (directory : Directory vnodes dir) {name : Str}
    (present : name ∈ names vnodes dir) {reply : DirReply} {vnodes' : Vnodes}
    (called : (DirOp.mkdir name).call dir vnodes = .ok (reply, vnodes')) :
    ¬(DirOp.mkdir name).Exact dir vnodes reply vnodes' := by
  intro exact
  rw [DirOp.Exact, AddsExactly, if_pos present] at exact
  rcases directory.isDir with ⟨entries, dirEq, _complete⟩
  simp only [DirOp.call, mkdir, dirEq] at called
  cases called
  exact absurd exact.1 (by simp)

end Call

/-! ### Sequences of calls -/

/-- Over any sequence of calls the names stay distinct, a name in use is refused, and a new
name leads to the new vnode alone, exactly when no `mkdir` of the sequence takes a name in
use. -/
theorem names_unique_iff (dir : Nat) (ops : List DirOp) (vnodes : Vnodes)
    (directory : Directory vnodes dir) :
    KeepsNamesUnique dir vnodes ops ↔ MkdirsAreNew (· ∈ names vnodes dir) ops := by
  induction ops generalizing vnodes with
  | nil =>
      apply iff_of_true directory.distinct
      intro front name back split
      cases front with
      | nil => contradiction
      | cons first front => contradiction
  | cons op rest inductionHypothesis =>
      rw [KeepsNamesUnique, mkdirsAreNew_cons]
      have next {vnodes' : Vnodes} (kept : Directory vnodes' dir)
          (added : ∀ name, name ∈ names vnodes' dir ↔
            name ∈ names vnodes dir ∨ op.adds = some name) :
          KeepsNamesUnique dir vnodes' rest ↔
            MkdirsAreNew (fun name => name ∈ names vnodes dir ∨ op.adds = some name) rest := by
        rw [inductionHypothesis vnodes' kept]
        simp only [MkdirsAreNew, added]
      constructor
      · intro ⟨_distinct, reply, vnodes', called, exact, later⟩
        have new : ∀ name, op = .mkdir name → name ∉ names vnodes dir := by
          intro name isMkdir present
          subst isMkdir
          exact directory.mkdir_not_exact present called exact
        rcases directory.call op new with ⟨reply', vnodes'', calledToo, _exact, kept, added⟩
        rw [called] at calledToo
        cases calledToo
        exact ⟨new, (next kept added).mp later⟩
      · intro ⟨new, later⟩
        rcases directory.call op new with ⟨reply, vnodes', called, exact, kept, added⟩
        exact ⟨directory.distinct, reply, vnodes', called, exact,
          (next kept added).mpr later⟩

theorem directory_emptyRoot : Directory emptyRoot 0 where
  inside := Nat.one_pos
  isDir := ⟨[], rfl, fun _ member => absurd member List.not_mem_nil⟩
  distinct := List.nodup_nil

/-- A directory `x` beside a file `y` in an empty root. -/
theorem names_unique_two :
    KeepsNamesUnique 0 emptyRoot [.mkdir [120], .create [121], .create [120]] := by
  apply (names_unique_iff 0 _ emptyRoot directory_emptyRoot).mpr
  rw [mkdirsAreNew_cons, mkdirsAreNew_cons, mkdirsAreNew_cons]
  refine ⟨?_, ?_, ?_, ?_⟩
  · intro name _isMkdir
    exact List.not_mem_nil
  · intro name isMkdir
    contradiction
  · intro name isMkdir
    contradiction
  · intro front name back split
    cases front with
    | nil => contradiction
    | cons first front => contradiction

/-- The second `mkdir` of the name `x` in an empty root makes a second entry `x`. -/
theorem mkdir_twice_not_unique :
    ¬KeepsNamesUnique 0 emptyRoot [.mkdir [120], .mkdir [120]] ∧
      names (mkdir (mkdir emptyRoot 0 [120]).2 0 [120]).2 0 = [[120], [120]] := by
  refine ⟨?_, rfl⟩
  intro unique
  rcases unique with ⟨_, _, vnodes, first, _, _, _, vnodes', second, _, distinct⟩
  cases first
  cases second
  have twice : ([[120], [120]] : List Str).Nodup := distinct
  exact absurd twice (by simp)

end NyauxKernel.Vfs
