/-
The walk of `transmute_to_ramfs` down a path, on the types of the nodes alone.

Which components are looked up, made as directories or made as the node of the header
depends only on which paths exist and which of them are regular files.  The walk over the
vnodes follows the walk over the types step by step.
-/

import NyauxKernel.Vfs.Tree
import NyauxKernel.Vfs.Ustar

namespace NyauxKernel.Vfs

/-! ### The walk on types -/

/-- The type of the node at every path. -/
abbrev Kinds := List Str → Option VType

def kindsOf (vnodes : Vnodes) (node : List Str → Option Nat) : Kinds :=
  fun path => (node path).map fun id => (vnodes.get id).vData.kind

/-- The type of the node that a header asks for; other types are ignored. -/
def headerKind (typ : UInt8) : Option VType :=
  if typ = ustarFile then some .vreg
  else if typ = ustarDir then some .vdir
  else none

/-- A new node in a directory. -/
def Kinds.add (kinds : Kinds) (cur : List Str) (name : Str) (new : VType) : Option Kinds :=
  if kinds cur = some .vdir then some (Function.update kinds (cur ++ [name]) (some new)) else none

/-- The node of the header.  An empty regular file is never made. -/
def placeLast (new : Option VType) (hollow : Bool) (cur : List Str) (name : Str)
    (kinds : Kinds) : Option Kinds :=
  match new with
  | none => some kinds
  | some kind => if kind = .vreg ∧ hollow then none else kinds.add cur name kind

/-- The components of a path, from the directory `cur` on.  After the node of the header is
made the walk stays in its directory. -/
def place (new : Option VType) (hollow : Bool) (last : Str) :
    List Str → List Str → Kinds → Option Kinds
  | _, [], kinds => some kinds
  | cur, name :: rest, kinds =>
      if (kinds (cur ++ [name])).isSome then place new hollow last (cur ++ [name]) rest kinds
      else if name = last then
        (placeLast new hollow cur name kinds).bind (place new hollow last cur rest)
      else (kinds.add cur name .vdir).bind (place new hollow last (cur ++ [name]) rest)

/-! ### Growing trees -/

/-- The tree `node'` has all nodes of `node` where they were, and its directories have no
entries but theirs and those of new paths. -/
structure Extends (vnodes : Vnodes) (node : List Str → Option Nat) (vnodes' : Vnodes)
    (node' : List Str → Option Nat) : Prop where
  kept : ∀ path id, node path = some id → node' path = some id ∧
    (vnodes'.get id).vType = (vnodes.get id).vType ∧
    (vnodes'.get id).vData.kind = (vnodes.get id).vData.kind
  typed : ∀ path id, node path = none → node' path = some id →
    (vnodes'.get id).vType = (vnodes'.get id).vData.kind
  entries : ∀ path id entries', node' path = some id →
    (vnodes'.get id).vData = .ramfsdir entries' → ∀ entry ∈ entries',
      (∃ entries, node path = some id ∧ (vnodes.get id).vData = .ramfsdir entries ∧
        entry ∈ entries) ∨
      node (path ++ [entry.name]) = none ∧ ∃ child, node' (path ++ [entry.name]) = some child

section Growing

variable {vnodes vnodes' vnodes'' : Vnodes} {root : Nat} {node node' node'' : List Str → Option Nat}

theorem Extends.refl (vnodes : Vnodes) (node : List Str → Option Nat) :
    Extends vnodes node vnodes node where
  kept := fun _ _ found => ⟨found, rfl, rfl⟩
  typed := by
    intro path id absent found
    rw [absent] at found
    contradiction
  entries := fun _ _ entries found isDir _ member => Or.inl ⟨entries, found, isDir, member⟩

theorem Extends.none_of_none (extends_ : Extends vnodes node vnodes' node') {path : List Str}
    (absent : node' path = none) : node path = none := by
  cases found : node path with
  | none => rfl
  | some id =>
      rw [(extends_.kept path id found).1] at absent
      contradiction

theorem Extends.trans (first : Extends vnodes node vnodes' node')
    (second : Extends vnodes' node' vnodes'' node'') :
    Extends vnodes node vnodes'' node'' := by
  constructor
  case kept =>
    intro path id found
    rcases first.kept path id found with ⟨found', type', kind'⟩
    rcases second.kept path id found' with ⟨found'', type'', kind''⟩
    exact ⟨found'', type''.trans type', kind''.trans kind'⟩
  case typed =>
    intro path id absent found''
    cases found' : node' path with
    | none => exact second.typed path id found' found''
    | some id' =>
        rcases second.kept path id' found' with ⟨same, type'', kind''⟩
        rw [found''] at same
        cases same
        rw [type'', kind'']
        exact first.typed path id absent found'
  case entries =>
    intro path id entries'' found'' isDir entry member
    rcases second.entries path id entries'' found'' isDir entry member with
      ⟨entries', found', isDir', member'⟩ | ⟨absent, child, childFound⟩
    · rcases first.entries path id entries' found' isDir' entry member' with
        older | ⟨absent, child, childFound⟩
      · exact Or.inl older
      · exact Or.inr ⟨absent, child, (second.kept _ _ childFound).1⟩
    · exact Or.inr ⟨first.none_of_none absent, child, childFound⟩

variable {above : List Str} {directory : Nat} {entries : List Dentry} {name : Str}

/-- What a new entry in a directory of the tree does to the types and the entries. -/
theorem RamfsTree.extends_add (tree : RamfsTree vnodes root node)
    (here : node above = some directory) (isDir : (vnodes.get directory).vData = .ramfsdir entries)
    (absent : node (above ++ [name]) = none) (vnode : Vnode)
    (blank : vnode.vData = .ramfsdir [] ∨ ∃ buf, vnode.vData = .ramfsfile buf)
    (typed : vnode.vType = vnode.vData.kind) :
    Extends vnodes node (createEntry vnodes directory entries name vnode).2
      (Function.update node (above ++ [name]) (some vnodes.count)) := by
  have inside := tree.below _ _ here
  constructor
  case kept =>
    intro path id found
    have different : path ≠ above ++ [name] := by
      intro same
      rw [same, absent] at found
      contradiction
    refine ⟨by rw [Function.update_of_ne different, found], ?_⟩
    by_cases same : id = directory
    · subst same
      rw [createEntry_get_dir inside, isDir]
      exact ⟨rfl, rfl⟩
    · rw [createEntry_get_old same (tree.below _ _ found)]
      exact ⟨rfl, rfl⟩
  case typed =>
    intro path id missing found
    rcases of_update_eq_some found with ⟨_, rfl⟩ | ⟨_, old⟩
    · rw [createEntry_get_new inside]
      exact typed
    · rw [missing] at old
      contradiction
  case entries =>
    intro path id entries' found isDir' entry member
    rcases of_update_eq_some found with ⟨_, rfl⟩ | ⟨_, old⟩
    · rw [createEntry_get_new inside] at isDir'
      rcases blank with dir | ⟨buf, file⟩
      · rw [dir] at isDir'
        cases isDir'
        exact absurd member List.not_mem_nil
      · rw [file] at isDir'
        cases isDir'
    · by_cases same : id = directory
      · subst same
        cases tree.injective _ _ _ old here
        rw [createEntry_get_dir inside] at isDir'
        cases isDir'
        rcases List.mem_append.mp member with older | new
        · exact Or.inl ⟨entries, here, isDir, older⟩
        · rw [List.mem_singleton.mp new]
          exact Or.inr ⟨absent, vnodes.count, Function.update_self _ _ _⟩
      · rw [createEntry_get_old same (tree.below _ _ old)] at isDir'
        exact Or.inl ⟨entries', old, isDir', member⟩

theorem RamfsTree.kindsOf_add (tree : RamfsTree vnodes root node)
    (here : node above = some directory) (isDir : (vnodes.get directory).vData = .ramfsdir entries)
    (vnode : Vnode) :
    kindsOf (createEntry vnodes directory entries name vnode).2
        (Function.update node (above ++ [name]) (some vnodes.count)) =
      Function.update (kindsOf vnodes node) (above ++ [name]) (some vnode.vData.kind) := by
  have inside := tree.below _ _ here
  funext path
  by_cases new : path = above ++ [name]
  · rw [new, kindsOf, Function.update_self, Function.update_self, Option.map_some,
      createEntry_get_new inside]
  · rw [kindsOf, Function.update_of_ne new, Function.update_of_ne new, kindsOf]
    cases found : node path with
    | none => rfl
    | some id =>
        rw [Option.map_some, Option.map_some]
        by_cases same : id = directory
        · subst same
          rw [createEntry_get_dir inside, isDir]
          rfl
        · rw [createEntry_get_old same (tree.below _ _ found)]

end Growing

/-! ### The walk over the vnodes -/

/-- The walk over the vnodes panics where the walk over the types fails, and otherwise makes
nodes of the same types. -/
def Follows (root : Nat) (vnodes : Vnodes) (node : List Str → Option Nat) :
    Option Kinds → Except String Vnodes → Prop
  | none, .error _ => True
  | some kinds', .ok vnodes' => ∃ node', RamfsTree vnodes' root node' ∧
      kindsOf vnodes' node' = kinds' ∧ Extends vnodes node vnodes' node'
  | _, _ => False

section Walk

variable {root : Nat} {vnodes : Vnodes} {node : List Str → Option Nat}

variable {cur : List Str} {id : Nat} {entries : List Dentry} {buf : List UInt8}
  {types : Option Kinds} {result : Except String Vnodes}

theorem Follows.trans {vnodes' : Vnodes} {node' : List Str → Option Nat}
    (first : Extends vnodes node vnodes' node') (second : Follows root vnodes' node' types result) :
    Follows root vnodes node types result := by
  cases types with
  | none =>
      cases result with
      | error message => trivial
      | ok vnodes'' => exact second.elim
  | some kinds' =>
      cases result with
      | error message => exact second.elim
      | ok vnodes'' =>
          rcases second with ⟨node'', tree, types, later⟩
          exact ⟨node'', tree, types, first.trans later⟩

theorem Follows.bind (first : Follows root vnodes node types result) {f : Kinds → Option Kinds}
    {g : Vnodes → Except String Vnodes}
    (second : ∀ vnodes' node', RamfsTree vnodes' root node' → Extends vnodes node vnodes' node' →
      Follows root vnodes' node' (f (kindsOf vnodes' node')) (g vnodes')) :
    Follows root vnodes node (types.bind f) (result >>= g) := by
  cases types with
  | none =>
      cases result with
      | error message => trivial
      | ok vnodes' => exact first.elim
  | some kinds' =>
      cases result with
      | error message => exact first.elim
      | ok vnodes' =>
          rcases first with ⟨node', tree, rfl, extended⟩
          exact Follows.trans extended (second vnodes' node' tree extended)

theorem kindsOf_dir (found : node cur = some id) (isDir : (vnodes.get id).vData = .ramfsdir entries) :
    kindsOf vnodes node cur = some .vdir := by
  rw [kindsOf, found, Option.map_some, isDir]
  rfl

theorem kindsOf_file (found : node cur = some id) (isFile : (vnodes.get id).vData = .ramfsfile buf) :
    kindsOf vnodes node cur = some .vreg := by
  rw [kindsOf, found, Option.map_some, isFile]
  rfl

theorem mkdir_dir (isDir : (vnodes.get id).vData = .ramfsdir entries) (name : Str) :
    mkdir vnodes id name =
      (.ok vnodes.count,
        (createEntry vnodes id entries name { vType := .vdir, vData := .ramfsdir [] }).2) := by
  simp only [mkdir, isDir]
  rfl

theorem mkdir_file (isFile : (vnodes.get id).vData = .ramfsfile buf) (name : Str) :
    mkdir vnodes id name = (.error .enotdir, vnodes) := by
  simp only [mkdir, isFile]

/-- The vnode of a type, with nothing in it. -/
def blankVnode : VType → Vnode
  | .vreg => { vType := .vreg, vData := .ramfsfile [] }
  | .vdir => { vType := .vdir, vData := .ramfsdir [] }

theorem blankVnode_kind (kind : VType) : (blankVnode kind).vData.kind = kind := by
  cases kind with
  | vreg => rfl
  | vdir => rfl

theorem blankVnode_typed (kind : VType) :
    (blankVnode kind).vType = (blankVnode kind).vData.kind := by
  cases kind with
  | vreg => rfl
  | vdir => rfl

theorem blankVnode_blank (kind : VType) :
    (blankVnode kind).vData = .ramfsdir [] ∨ ∃ buf, (blankVnode kind).vData = .ramfsfile buf := by
  cases kind with
  | vreg => exact Or.inr ⟨[], rfl⟩
  | vdir => exact Or.inl rfl

/-- A node added to a directory. -/
theorem RamfsTree.follows_add (tree : RamfsTree vnodes root node) (found : node cur = some id)
    (isDir : (vnodes.get id).vData = .ramfsdir entries) {name : Str}
    (absent : node (cur ++ [name]) = none) (kind : VType) :
    Follows root vnodes node ((kindsOf vnodes node).add cur name kind)
      (.ok (createEntry vnodes id entries name (blankVnode kind)).2) := by
  rw [Kinds.add, if_pos (kindsOf_dir found isDir)]
  refine ⟨_, tree.add found isDir absent (blankVnode kind) (blankVnode_blank kind), ?_,
    tree.extends_add found isDir absent (blankVnode kind) (blankVnode_blank kind)
      (blankVnode_typed kind)⟩
  rw [tree.kindsOf_add found isDir, blankVnode_kind]

/-- Nothing is added to a regular file. -/
theorem Follows.of_file (found : node cur = some id)
    (isFile : (vnodes.get id).vData = .ramfsfile buf) (name : Str) (kind : VType) (message : String) :
    Follows root vnodes node ((kindsOf vnodes node).add cur name kind) (.error message) := by
  rw [Kinds.add, kindsOf_file found isFile]
  trivial

/-! ### The node of the header -/

section Create

variable {ptr : List UInt8} {typ : UInt8} {fz : Nat} {name : Str} {kind : VType}

/-- In a directory without an entry of the name the node is made.  The data goes to the
directory, which ignores it. -/
theorem transmuteCreate_dir {entries : List Dentry} (enough : fz ≤ ptr.length)
    (inside : id < vnodes.count) (isDir : (vnodes.get id).vData = .ramfsdir entries)
    (missing : (vnodes.get id).vData.lookup name = none) (isKind : headerKind typ = some kind)
    (real : ¬(kind = .vreg ∧ fz = 0)) :
    transmuteCreate ptr typ fz id name vnodes =
      .ok (createEntry vnodes id entries name (blankVnode kind)).2 := by
  rw [isDir] at missing
  rw [headerKind] at isKind
  rw [transmuteCreate]
  by_cases file : typ = ustarFile
  · rw [if_pos file] at isKind ⊢
    cases isKind
    have some_ : fz ≠ 0 := fun empty => real ⟨rfl, empty⟩
    have created : create vnodes id name =
        .ok (.ok vnodes.count, (createEntry vnodes id entries name (blankVnode .vreg)).2) := by
      simp only [create, isDir, missing]
      rfl
    have dirNew : ((createEntry vnodes id entries name (blankVnode .vreg)).2.get id).vData =
        .ramfsdir (entries ++ [{ name := name, inner := some vnodes.count }]) := by
      rw [createEntry_get_dir inside]
    simp only [created, bind, Except.bind, unwrap]
    rw [if_neg some_, if_neg (Nat.not_lt.mpr enough)]
    simp only [dirNew, Vops.write]
    rw [← dirNew, setData_self]
  · rw [if_neg file] at isKind ⊢
    by_cases directory : typ = ustarDir
    · rw [if_pos directory] at isKind ⊢
      cases isKind
      rw [mkdir_dir isDir]
      rfl
    · rw [if_neg directory] at isKind
      contradiction

/-- An empty regular file, and any node below a regular file, makes the call panic. -/
theorem transmuteCreate_panics (missing : (vnodes.get id).vData.lookup name = none)
    (isKind : headerKind typ = some kind)
    (panics : kind = .vreg ∧ fz = 0 ∨ ∃ buf, (vnodes.get id).vData = .ramfsfile buf) :
    ∃ message, transmuteCreate ptr typ fz id name vnodes = .error message := by
  rw [headerKind] at isKind
  rw [transmuteCreate]
  by_cases file : typ = ustarFile
  · rw [if_pos file] at isKind ⊢
    cases isKind
    cases data : (vnodes.get id).vData with
    | ramfsfile buf =>
        have refused : create vnodes id name = .error "not yet implemented" := by
          simp only [create, data]
        rw [refused]
        exact ⟨_, rfl⟩
    | ramfsdir entries =>
        have empty : fz = 0 := by
          rcases panics with both | ⟨buf, isFile⟩
          · exact both.2
          · rw [data] at isFile
            contradiction
        rw [data] at missing
        simp only [create, data, missing]
        simp only [Option.isSome_none, Bool.false_eq_true, if_false, bind, Except.bind, unwrap]
        rw [if_pos empty]
        exact ⟨_, rfl⟩
  · rw [if_neg file] at isKind ⊢
    by_cases directory : typ = ustarDir
    · rw [if_pos directory] at isKind ⊢
      cases isKind
      rcases panics with both | ⟨buf, isFile⟩
      · exact absurd both.1 (by decide)
      · rw [mkdir_file isFile]
        exact ⟨_, rfl⟩
    · rw [if_neg directory] at isKind
      contradiction

/-- Headers of other types are ignored. -/
theorem transmuteCreate_other (isKind : headerKind typ = none) :
    transmuteCreate ptr typ fz id name vnodes = .ok vnodes := by
  rw [headerKind] at isKind
  rw [transmuteCreate]
  by_cases file : typ = ustarFile
  · rw [if_pos file] at isKind
    contradiction
  · rw [if_neg file] at isKind ⊢
    by_cases directory : typ = ustarDir
    · rw [if_pos directory] at isKind
      contradiction
    · rw [if_neg directory]

theorem transmuteCreate_follows (typ : UInt8) (enough : fz ≤ ptr.length)
    (tree : RamfsTree vnodes root node) {cur : List Str} (found : node cur = some id)
    (absent : node (cur ++ [name]) = none) :
    Follows root vnodes node
      (placeLast (headerKind typ) (decide (fz = 0)) cur name (kindsOf vnodes node))
      (transmuteCreate ptr typ fz id name vnodes) := by
  have missing : (vnodes.get id).vData.lookup name = none := by
    rw [tree.lookup_eq cur id found, absent]
  cases isKind : headerKind typ with
  | none =>
      rw [transmuteCreate_other isKind, placeLast]
      exact ⟨node, tree, rfl, Extends.refl vnodes node⟩
  | some kind =>
      rw [placeLast]
      by_cases hollow : kind = .vreg ∧ fz = 0
      · rcases transmuteCreate_panics missing isKind (Or.inl hollow) with ⟨message, panics⟩
        rw [panics, if_pos ⟨hollow.1, decide_eq_true hollow.2⟩]
        trivial
      · rw [if_neg (by simpa using hollow)]
        cases data : (vnodes.get id).vData with
        | ramfsfile buf =>
            rcases transmuteCreate_panics missing isKind (Or.inr ⟨buf, data⟩) with
              ⟨message, panics⟩
            rw [panics]
            exact Follows.of_file found data name kind message
        | ramfsdir entries =>
            rw [transmuteCreate_dir enough (tree.below _ _ found) data missing isKind hollow]
            exact tree.follows_add found data absent kind

end Create

/-- The loop over the components follows the walk on types. -/
theorem transmuteLoop_follows {ptr : List UInt8} {typ : UInt8} {fz : Nat} (last : Str)
    (enough : fz ≤ ptr.length) (comps : List Str) (nonempty : ∀ name ∈ comps, name ≠ [])
    (tree : RamfsTree vnodes root node) (found : node cur = some id) :
    Follows root vnodes node
      (place (headerKind typ) (decide (fz = 0)) last cur comps (kindsOf vnodes node))
      (transmuteLoop ptr typ fz last comps id vnodes) := by
  induction comps generalizing vnodes node cur id with
  | nil => exact ⟨node, tree, rfl, Extends.refl vnodes node⟩
  | cons name rest inductionHypothesis =>
      have real : ¬name.isEmpty = true := by
        simpa using nonempty name List.mem_cons_self
      have later {vnodes' : Vnodes} {node' : List Str → Option Nat}
          (tree' : RamfsTree vnodes' root node') {cur' : List Str} {id' : Nat}
          (found' : node' cur' = some id') :=
        inductionHypothesis (fun other member => nonempty other (List.mem_cons_of_mem name member))
          tree' found'
      rw [transmuteLoop, place, if_neg real, tree.lookup_eq cur id found name]
      cases next : node (cur ++ [name]) with
      | some child =>
          have present : (kindsOf vnodes node (cur ++ [name])).isSome := by
            rw [kindsOf, next]
            rfl
          rw [if_pos present]
          exact later tree next
      | none =>
          have absent : ¬(kindsOf vnodes node (cur ++ [name])).isSome := by
            rw [kindsOf, next]
            exact Bool.false_ne_true
          rw [if_neg absent]
          by_cases isLast : name = last
          · rw [if_pos isLast, if_pos isLast]
            apply Follows.bind (transmuteCreate_follows typ enough tree found next)
            intro vnodes' node' tree' extended
            exact later tree' (extended.kept cur id found).1
          · rw [if_neg isLast, if_neg isLast]
            cases data : (vnodes.get id).vData with
            | ramfsfile buf =>
                rw [mkdir_file data, Kinds.add, kindsOf_file found data]
                trivial
            | ramfsdir entries =>
                -- the walk goes on in the directory that was just made
                have made := tree.add found data next (blankVnode .vdir) (Or.inl rfl)
                have extended := tree.extends_add found data next (blankVnode .vdir) (Or.inl rfl) rfl
                have rest := later made (Function.update_self _ _ _)
                rw [tree.kindsOf_add found data] at rest
                rw [mkdir_dir data, Kinds.add, if_pos (kindsOf_dir found data)]
                exact Follows.trans extended rest

end Walk

end NyauxKernel.Vfs
