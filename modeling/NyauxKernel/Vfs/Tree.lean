/-
Trees of ramfs vnodes, with the vnode of every path.

The paths of a tree are lists of names.  A new entry in one of its directories adds one path
and changes no other.
-/

import NyauxKernel.Vfs.Ramfs
import Mathlib.Data.List.Basic

namespace NyauxKernel.Vfs

/-- A directory all of whose entries have a vnode. -/
def IsDir (data : Vops) : Prop :=
  ∃ entries, data = .ramfsdir entries ∧ ∀ entry ∈ entries, entry.inner ≠ none

/-- The type of the vnodes that carry some operations. -/
def Vops.kind : Vops → VType
  | .ramfsdir _ => .vdir
  | .ramfsfile _ => .vreg

/-- `node` names the vnode of every path below `root`. -/
structure RamfsTree (vnodes : Vnodes) (root : Nat) (node : List Str → Option Nat) : Prop where
  root_eq : node [] = some root
  below : ∀ path id, node path = some id → id < vnodes.count
  injective : ∀ path other id, node path = some id → node other = some id → path = other
  closed : ∀ path name id, node (path ++ [name]) = some id → ∃ above, node path = some above
  lookup_eq : ∀ path id, node path = some id → ∀ name,
    (vnodes.get id).vData.lookup name = node (path ++ [name])
  complete : ∀ path id entries, node path = some id → (vnodes.get id).vData = .ramfsdir entries →
    ∀ entry ∈ entries, entry.inner ≠ none

/-! ### One directory -/

/-- A directory takes a new entry after its old ones. -/
theorem lookup_append {entries : List Dentry} (complete : ∀ entry ∈ entries, entry.inner ≠ none)
    (name other : Str) (id : Nat) (absent : (Vops.ramfsdir entries).lookup name = none) :
    (Vops.ramfsdir (entries ++ [{ name := name, inner := some id }])).lookup other =
      if other = name then some id else (Vops.ramfsdir entries).lookup other := by
  simp only [Vops.lookup, List.find?_append]
  by_cases same : other = name
  · subst same
    have missing : entries.find? (fun entry => decide (entry.name = other)) = none := by
      cases found : entries.find? (fun entry => decide (entry.name = other)) with
      | none => rfl
      | some entry =>
          simp only [Vops.lookup, found, Option.bind_some] at absent
          exact absurd absent (complete entry (List.mem_of_find?_eq_some found))
    simp [missing]
  · have different : ¬name = other := fun equal => same equal.symm
    simp [same, different]

theorem complete_append {entries : List Dentry} (complete : ∀ entry ∈ entries, entry.inner ≠ none)
    (name : Str) (id : Nat) :
    ∀ entry ∈ entries ++ [{ name := name, inner := some id }], entry.inner ≠ none := by
  intro entry member
  rcases List.mem_append.mp member with older | new
  · exact complete entry older
  · rw [List.mem_singleton.mp new]
    exact Option.some_ne_none id

theorem setData_self (vnodes : Vnodes) (id : Nat) :
    vnodes.setData id (vnodes.get id).vData = vnodes := by
  simp [Vnodes.setData]

section CreateEntry

variable {vnodes : Vnodes} {directory id : Nat} {entries : List Dentry} {name : Str}
  {vnode : Vnode}

theorem createEntry_get_new (inside : directory < vnodes.count) :
    (createEntry vnodes directory entries name vnode).2.get vnodes.count = vnode := by
  simp [createEntry, Vnodes.alloc, Vnodes.setData, Function.update_of_ne (Nat.ne_of_gt inside)]

theorem createEntry_get_dir (inside : directory < vnodes.count) :
    (createEntry vnodes directory entries name vnode).2.get directory =
      { vnodes.get directory with
        vData := .ramfsdir (entries ++ [{ name := name, inner := some vnodes.count }]) } := by
  simp [createEntry, Vnodes.alloc, Vnodes.setData, Function.update_of_ne (Nat.ne_of_lt inside)]

theorem createEntry_get_old (other : id ≠ directory) (old : id < vnodes.count) :
    (createEntry vnodes directory entries name vnode).2.get id = vnodes.get id := by
  simp [createEntry, Vnodes.alloc, Vnodes.setData, Function.update_of_ne other,
    Function.update_of_ne (Nat.ne_of_lt old)]

end CreateEntry

/-! ### Looking up -/

/-- What a numbering knows after one more path. -/
theorem of_update_eq_some {node : List Str → Option Nat} {path other : List Str} {id new : Nat}
    (found : Function.update node path (some new) other = some id) :
    other = path ∧ id = new ∨ other ≠ path ∧ node other = some id := by
  by_cases same : other = path
  · rw [same, Function.update_self] at found
    exact Or.inl ⟨same, (Option.some.inj found).symm⟩
  · rw [Function.update_of_ne same] at found
    exact Or.inr ⟨same, found⟩

theorem some_update {node : List Str → Option Nat} {path other : List Str} {id : Nat} (new : Nat)
    (found : node other = some id) :
    ∃ id', Function.update node path (some new) other = some id' := by
  by_cases same : other = path
  · exact ⟨new, by rw [same, Function.update_self]⟩
  · exact ⟨id, by rw [Function.update_of_ne same, found]⟩

namespace RamfsTree

variable {vnodes : Vnodes} {root : Nat} {node : List Str → Option Nat}

theorem none_extend (tree : RamfsTree vnodes root node) {path : List Str}
    (absent : node path = none) (more : List Str) : node (path ++ more) = none := by
  induction more generalizing path with
  | nil => rw [List.append_nil, absent]
  | cons name rest inductionHypothesis =>
      have childAbsent : node (path ++ [name]) = none := by
        cases found : node (path ++ [name]) with
        | none => rfl
        | some id =>
            rcases tree.closed _ _ _ found with ⟨above, aboveEq⟩
            rw [absent] at aboveEq
            contradiction
      have extended := inductionHypothesis childAbsent
      rwa [List.append_assoc, List.singleton_append] at extended

theorem lookupLoop_eq (tree : RamfsTree vnodes root node) (pieces : List Str)
    (nonempty : ∀ piece ∈ pieces, piece ≠ []) (path : List Str) (id : Nat)
    (found : node path = some id) :
    lookupLoop vnodes.find id pieces = node (path ++ pieces) := by
  induction pieces generalizing path id with
  | nil => rw [List.append_nil, found, lookupLoop]
  | cons piece rest inductionHypothesis =>
      have real : piece.isEmpty = false := by
        simpa using nonempty piece List.mem_cons_self
      have split : path ++ piece :: rest = (path ++ [piece]) ++ rest := by simp
      rw [lookupLoop, real, Vnodes.find, tree.lookup_eq path id found piece, split]
      cases next : node (path ++ [piece]) with
      | none => exact (tree.none_extend next rest).symm
      | some below =>
          apply inductionHypothesis _ _ _ next
          intro other member
          exact nonempty other (List.mem_cons_of_mem piece member)

/-- A root without entries. -/
theorem emptyRoot : RamfsTree emptyRoot 0 (fun path => if path = [] then some 0 else none) where
  root_eq := rfl
  below := by
    intro path id found
    by_cases empty : path = []
    · rw [if_pos empty] at found
      rw [← Option.some.inj found]
      exact Nat.one_pos
    · rw [if_neg empty] at found
      contradiction
  injective := by
    intro path other id found foundOther
    by_cases empty : path = []
    · by_cases emptyOther : other = []
      · rw [empty, emptyOther]
      · rw [if_neg emptyOther] at foundOther
        contradiction
    · rw [if_neg empty] at found
      contradiction
  closed := by
    intro path name id found
    rw [if_neg (by simp)] at found
    contradiction
  lookup_eq := by
    intro path id _found name
    rw [if_neg (by simp)]
    rfl
  complete := by
    intro path id entries _found isDir
    cases isDir
    exact fun _ member => absurd member List.not_mem_nil

/-! ### A new entry -/

section Add

variable {above : List Str} {directory : Nat} {entries : List Dentry} {name : Str} {vnode : Vnode}

/-- A name is looked up in a directory after an entry was added. -/
theorem lookup_add (tree : RamfsTree vnodes root node) (here : node above = some directory)
    (isDir : (vnodes.get directory).vData = .ramfsdir entries)
    (absent : node (above ++ [name]) = none) {path : List Str} {id : Nat} (old : node path = some id)
    (other : Str) :
    ((createEntry vnodes directory entries name vnode).2.get id).vData.lookup other =
      Function.update node (above ++ [name]) (some vnodes.count) (path ++ [other]) := by
  have inside := tree.below _ _ here
  by_cases same : id = directory
  · subst same
    cases tree.injective _ _ _ old here
    have absentEntry : (Vops.ramfsdir entries).lookup name = none := by
      rw [← isDir, tree.lookup_eq _ _ here]
      exact absent
    rw [createEntry_get_dir inside]
    dsimp only
    rw [lookup_append (tree.complete _ _ _ here isDir) _ _ _ absentEntry, ← isDir,
      tree.lookup_eq _ _ here]
    by_cases sameName : other = name
    · rw [if_pos sameName, sameName, Function.update_self]
    · have different : above ++ [other] ≠ above ++ [name] := by
        simpa using sameName
      rw [if_neg sameName, Function.update_of_ne different]
  · have different : path ++ [other] ≠ above ++ [name] := by
      intro equal
      have parents := (List.append_inj' equal rfl).1
      rw [parents, here] at old
      exact same (Option.some.inj old).symm
    rw [createEntry_get_old same (tree.below _ _ old), tree.lookup_eq path id old,
      Function.update_of_ne different]

/-- A vnode with nothing below it is added to a directory of the tree. -/
theorem add (tree : RamfsTree vnodes root node) (here : node above = some directory)
    (isDir : (vnodes.get directory).vData = .ramfsdir entries)
    (absent : node (above ++ [name]) = none) (vnode : Vnode)
    (blank : vnode.vData = .ramfsdir [] ∨ ∃ buf, vnode.vData = .ramfsfile buf) :
    RamfsTree (createEntry vnodes directory entries name vnode).2 root
      (Function.update node (above ++ [name]) (some vnodes.count)) := by
  have inside := tree.below _ _ here
  have empty : ∀ other, vnode.vData.lookup other = none := by
    intro other
    rcases blank with dir | ⟨buf, file⟩
    · rw [dir]
      rfl
    · rw [file]
      rfl
  constructor
  case root_eq =>
    rw [Function.update_of_ne (by simp)]
    exact tree.root_eq
  case below =>
    intro path id found
    change id < vnodes.count + 1
    rcases of_update_eq_some found with ⟨_, rfl⟩ | ⟨_, old⟩
    · exact Nat.lt_succ_self _
    · exact Nat.lt_succ_of_lt (tree.below path id old)
  case injective =>
    intro path other id found foundOther
    rcases of_update_eq_some found with ⟨samePath, sameId⟩ | ⟨_, old⟩
    · rcases of_update_eq_some foundOther with ⟨sameOther, _⟩ | ⟨_, oldOther⟩
      · rw [samePath, sameOther]
      · have oldId := tree.below _ _ oldOther
        omega
    · rcases of_update_eq_some foundOther with ⟨_, sameId⟩ | ⟨_, oldOther⟩
      · have oldId := tree.below _ _ old
        omega
      · exact tree.injective path other id old oldOther
  case closed =>
    intro path last id found
    rcases of_update_eq_some found with ⟨samePath, _⟩ | ⟨_, old⟩
    · rw [(List.append_inj' samePath rfl).1]
      exact some_update _ here
    · rcases tree.closed path last id old with ⟨aboveId, aboveEq⟩
      exact some_update _ aboveEq
  case lookup_eq =>
    intro path id found other
    rcases of_update_eq_some found with ⟨samePath, sameId⟩ | ⟨_, old⟩
    · rw [sameId, createEntry_get_new inside, empty, samePath, Function.update_of_ne (by simp),
        tree.none_extend absent [other]]
    · exact tree.lookup_add here isDir absent old other
  case complete =>
    intro path id others found isOther
    rcases of_update_eq_some found with ⟨_, rfl⟩ | ⟨_, old⟩
    · rw [createEntry_get_new inside] at isOther
      rcases blank with dir | ⟨buf, file⟩
      · rw [dir] at isOther
        cases isOther
        exact fun _ member => absurd member List.not_mem_nil
      · rw [file] at isOther
        cases isOther
    · by_cases same : id = directory
      · subst same
        rw [createEntry_get_dir inside] at isOther
        cases isOther
        exact complete_append (tree.complete _ _ _ here isDir) name vnodes.count
      · rw [createEntry_get_old same (tree.below _ _ old)] at isOther
        exact tree.complete path id others old isOther

end Add

end RamfsTree

end NyauxKernel.Vfs
