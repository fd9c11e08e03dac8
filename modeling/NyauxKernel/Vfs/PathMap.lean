/-
The file system as its callers see it: a map from paths to contents.

A call looks a path up and then calls the vnode that it has found, as the kernel does.  The
map knows directories and files with their bytes, and no vnodes.  A directory that is made
with the name of another entry is never found, so it changes nothing in the map.
-/

import NyauxKernel.Library.Replies
import NyauxKernel.Vfs.Archive
import NyauxKernel.Vfs.FileBytes
import NyauxKernel.Vfs.Tree

namespace NyauxKernel.Vfs

open ZeroExtended

/-! ### The calls -/

inductive FsCall
  | lookup (path : Str)
  | create (path name : Str)
  | mkdir (path name : Str)
  | write (path : Str) (data : List UInt8) (offset : Nat)
  | read (path : Str) (out : List UInt8) (offset : Nat)

inductive FsReply
  | missing
  | found (vType : VType)
  | made
  | failed (errno : Errno)
  | count (amount : Int) (out : List UInt8)
deriving DecidableEq, Repr

def FsReply.ofResult : Except Errno Nat → FsReply
  | .ok _ => .made
  | .error errno => .failed errno

/-- The calls on the vnode that the path leads to. -/
def FsCall.onVnode (vnodes : Vnodes) (id : Nat) : FsCall → Except String (FsReply × Vnodes)
  | .lookup _ => .ok (.found (vnodes.get id).vType, vnodes)
  | .create _ name => do
      let (result, vnodes) ← Vfs.create vnodes id name
      .ok (.ofResult result, vnodes)
  | .mkdir _ name =>
      let (result, vnodes) := Vfs.mkdir vnodes id name
      .ok (.ofResult result, vnodes)
  | .write _ data offset => do
      let (amount, vData) ← (vnodes.get id).vData.write data offset
      .ok (.count amount [], vnodes.setData id vData)
  | .read _ out offset =>
      let (amount, out) := (vnodes.get id).vData.read out offset
      .ok (.count amount out, vnodes)

def FsCall.path : FsCall → Str
  | .lookup path => path
  | .create path _ => path
  | .mkdir path _ => path
  | .write path _ _ => path
  | .read path _ _ => path

def FsCall.call (root : Nat) (vnodes : Vnodes) (call : FsCall) :
    Except String (FsReply × Vnodes) :=
  match Vfs.lookup vnodes root call.path with
  | none => .ok (.missing, vnodes)
  | some id => call.onVnode vnodes id

/-! ### The map -/

abbrev PathMap := List Str → Option Content

def PathMap.empty : PathMap := fun path => if path = [] then some .dir else none

/-- The names in a path. -/
def pathNames (path : Str) : List Str :=
  (path.splitOn slash).filter fun piece => !piece.isEmpty

def Content.vType : Content → VType
  | .dir => .vdir
  | .file _ => .vreg

/-- The calls on the content at a path. -/
def PathMap.onContent (map : PathMap) (path : List Str) (content : Content) :
    FsCall → Except String (FsReply × PathMap)
  | .lookup _ => .ok (.found content.vType, map)
  | .create _ name =>
      match content with
      | .file _ => .error "not yet implemented"
      | .dir =>
          if (map (path ++ [name])).isSome then .ok (.failed .eexist, map)
          else .ok (.made, Function.update map (path ++ [name]) (some (.file [])))
  | .mkdir _ name =>
      match content with
      | .file _ => .ok (.failed .enotdir, map)
      | .dir =>
          if (map (path ++ [name])).isSome then .ok (.made, map)
          else .ok (.made, Function.update map (path ++ [name]) (some .dir))
  | .write _ data offset =>
      match content with
      | .dir => .ok (.count (-1) [], map)
      | .file bytes => do
          -- a file holds at most `isize::MAX` bytes
          let _ ← writeEnd offset data.length
          .ok (.count data.length [], Function.update map path
            (some (.file (overwrite 0 bytes { offset := offset, data := data }))))
  | .read _ out offset =>
      match content with
      | .dir => .ok (.count (-1) out, map)
      | .file bytes =>
          let amount := min out.length (bytes.length - offset)
          .ok (.count amount ((bytes.drop offset).take amount ++ out.drop amount), map)

def PathMap.call (map : PathMap) (call : FsCall) : Except String (FsReply × PathMap) :=
  match map (pathNames call.path) with
  | none => .ok (.missing, map)
  | some content => map.onContent (pathNames call.path) content call

/-! ### Paths -/

theorem lookupLoop_filter (vnodes : Vnodes) (pieces : List Str) (id : Nat) :
    lookupLoop vnodes.find id (pieces.filter fun piece => !piece.isEmpty) =
      lookupLoop vnodes.find id pieces := by
  induction pieces generalizing id with
  | nil => rfl
  | cons piece rest inductionHypothesis =>
      by_cases empty : piece.isEmpty
      · rw [List.filter_cons_of_neg (by simp [empty]), inductionHypothesis, lookupLoop, if_pos empty]
      · rw [List.filter_cons_of_pos (by simp [empty]), lookupLoop, lookupLoop, if_neg empty,
          if_neg empty]
        cases vnodes.find id piece with
        | none => rfl
        | some found => exact inductionHypothesis found

theorem splitTerminator_filter (path : Str) :
    (splitTerminator path).filter (fun piece => !piece.isEmpty) = pathNames path := by
  unfold splitTerminator pathNames
  by_cases terminated : (path.splitOn slash).getLast? = some []
  · have whole := List.dropLast_append_getLast? ([] : Str) terminated
    rw [if_pos terminated]
    conv_rhs => rw [← whole]
    rw [List.filter_append]
    exact (List.append_nil _).symm
  · rw [if_neg terminated]

theorem RamfsTree.lookup_path {vnodes : Vnodes} {root : Nat} {node : List Str → Option Nat}
    (tree : RamfsTree vnodes root node) (path : Str) :
    Vfs.lookup vnodes root path = node (pathNames path) := by
  rw [Vfs.lookup, ← lookupLoop_filter, splitTerminator_filter]
  apply tree.lookupLoop_eq _ _ [] root tree.root_eq
  intro piece member
  have real := (List.mem_filter.mp member).2
  intro empty
  rw [empty] at real
  cases real

/-! ### Vnodes and contents -/

def Vops.content : Vops → Content
  | .ramfsdir _ => .dir
  | .ramfsfile buf => .file buf

theorem Vops.content_vType (vData : Vops) : vData.content.vType = vData.kind := by
  cases vData with
  | ramfsdir entries => rfl
  | ramfsfile buf => rfl

/-- The tree below the root is what the map says. -/
structure Represents (root : Nat) (vnodes : Vnodes) (node : List Str → Option Nat)
    (map : PathMap) : Prop where
  tree : RamfsTree vnodes root node
  typed : ∀ path id, node path = some id → (vnodes.get id).vType = (vnodes.get id).vData.kind
  contents : ∀ path, map path = (node path).map fun id => (vnodes.get id).vData.content

section Changes

variable {root id : Nat} {vnodes : Vnodes} {node : List Str → Option Nat} {map : PathMap}
  {path : List Str}

theorem Represents.empty :
    Represents 0 emptyRoot (fun path => if path = [] then some 0 else none) PathMap.empty where
  tree := RamfsTree.emptyRoot
  typed := fun _ _ _ => rfl
  contents := by
    intro path
    rw [PathMap.empty]
    split <;> rfl

theorem Represents.content_eq (represents : Represents root vnodes node map)
    (here : node path = some id) : map path = some (vnodes.get id).vData.content := by
  rw [represents.contents, here, Option.map_some]

theorem Represents.isSome_iff (represents : Represents root vnodes node map) (path : List Str) :
    (map path).isSome = (node path).isSome := by
  rw [represents.contents, Option.isSome_map]

variable {entries : List Dentry} {name : Str} {vnode : Vnode}

/-- A directory with an entry more is a directory, and the other vnodes are as they were. -/
theorem createEntry_kept {old : Nat} (inside : id < vnodes.count)
    (isDir : (vnodes.get id).vData = .ramfsdir entries) (below : old < vnodes.count) :
    ((createEntry vnodes id entries name vnode).2.get old).vType = (vnodes.get old).vType ∧
      ((createEntry vnodes id entries name vnode).2.get old).vData.content =
        (vnodes.get old).vData.content ∧
      ((createEntry vnodes id entries name vnode).2.get old).vData.kind =
        (vnodes.get old).vData.kind := by
  by_cases same : old = id
  · rw [same, createEntry_get_dir inside, isDir]
    exact ⟨rfl, rfl, rfl⟩
  · rw [createEntry_get_old same below]
    exact ⟨rfl, rfl, rfl⟩

/-- A vnode without anything below it is added at a new path. -/
theorem Represents.add (represents : Represents root vnodes node map) (here : node path = some id)
    (isDir : (vnodes.get id).vData = .ramfsdir entries) (absent : node (path ++ [name]) = none)
    (blank : vnode.vData = .ramfsdir [] ∨ ∃ buf, vnode.vData = .ramfsfile buf)
    (typed : vnode.vType = vnode.vData.kind) :
    Represents root (createEntry vnodes id entries name vnode).2
      (Function.update node (path ++ [name]) (some vnodes.count))
      (Function.update map (path ++ [name]) (some vnode.vData.content)) := by
  have inside := represents.tree.below _ _ here
  constructor
  case tree => exact represents.tree.add here isDir absent vnode blank
  case typed =>
    intro other old found
    rcases of_update_eq_some found with ⟨_, isNew⟩ | ⟨_, older⟩
    · rw [isNew, createEntry_get_new inside, typed]
    · rcases createEntry_kept inside isDir (represents.tree.below _ _ older) with ⟨vType, _, kind⟩
      rw [vType, kind]
      exact represents.typed other old older
  case contents =>
    intro other
    by_cases same : other = path ++ [name]
    · rw [same, Function.update_self, Function.update_self, Option.map_some,
        createEntry_get_new inside]
    · rw [Function.update_of_ne same, Function.update_of_ne same, represents.contents]
      cases found : node other with
      | none => rfl
      | some old =>
          rcases createEntry_kept inside isDir (represents.tree.below _ _ found) with ⟨_, content, _⟩
          rw [Option.map_some, Option.map_some, content]

/-- An entry behind another one of the same name is not found. -/
theorem lookup_append_taken (taken : (Vops.ramfsdir entries).lookup name ≠ none) (new : Nat)
    (other : Str) :
    (Vops.ramfsdir (entries ++ [{ name := name, inner := some new }])).lookup other =
      (Vops.ramfsdir entries).lookup other := by
  simp only [Vops.lookup, List.find?_append]
  cases found : entries.find? (fun entry => decide (entry.name = other)) with
  | some entry => rfl
  | none =>
      have different : ¬name = other := by
        intro same
        rw [same, Vops.lookup, found] at taken
        exact taken rfl
      simp [different]

theorem RamfsTree.hide (tree : RamfsTree vnodes root node) (here : node path = some id)
    (isDir : (vnodes.get id).vData = .ramfsdir entries) (taken : node (path ++ [name]) ≠ none)
    (vnode : Vnode) : RamfsTree (createEntry vnodes id entries name vnode).2 root node := by
  have inside := tree.below _ _ here
  constructor
  case root_eq => exact tree.root_eq
  case below => exact fun other old found => Nat.lt_succ_of_lt (tree.below other old found)
  case injective => exact tree.injective
  case closed => exact tree.closed
  case lookup_eq =>
    intro other old found other'
    rw [← tree.lookup_eq other old found]
    by_cases same : old = id
    · rw [same, createEntry_get_dir inside, isDir]
      apply lookup_append_taken
      rw [← isDir, tree.lookup_eq _ _ here]
      exact taken
    · rw [createEntry_get_old same (tree.below _ _ found)]
  case complete =>
    intro other old others found isOther
    by_cases same : old = id
    · rw [same, createEntry_get_dir inside] at isOther
      cases isOther
      exact complete_append (tree.complete _ _ _ here isDir) name vnodes.count
    · rw [createEntry_get_old same (tree.below _ _ found)] at isOther
      exact tree.complete other old others found isOther

theorem Represents.hide (represents : Represents root vnodes node map) (here : node path = some id)
    (isDir : (vnodes.get id).vData = .ramfsdir entries) (taken : node (path ++ [name]) ≠ none)
    (vnode : Vnode) : Represents root (createEntry vnodes id entries name vnode).2 node map := by
  have inside := represents.tree.below _ _ here
  constructor
  case tree => exact represents.tree.hide here isDir taken vnode
  case typed =>
    intro other old found
    rcases createEntry_kept inside isDir (represents.tree.below _ _ found) with ⟨vType, _, kind⟩
    rw [vType, kind]
    exact represents.typed other old found
  case contents =>
    intro other
    rw [represents.contents]
    cases found : node other with
    | none => rfl
    | some old =>
        rcases createEntry_kept inside isDir (represents.tree.below _ _ found) with ⟨_, content, _⟩
        rw [Option.map_some, Option.map_some, content]

/-- The bytes of a file change. -/
theorem Represents.setFile (represents : Represents root vnodes node map) {buf : List UInt8}
    (here : node path = some id) (isFile : (vnodes.get id).vData = .ramfsfile buf)
    (buf' : List UInt8) :
    Represents root (vnodes.setData id (.ramfsfile buf')) node
      (Function.update map path (some (.file buf'))) := by
  have self : (vnodes.setData id (.ramfsfile buf')).get id =
      { vnodes.get id with vData := .ramfsfile buf' } := Function.update_self _ _ _
  have others (old : Nat) (other : old ≠ id) :
      (vnodes.setData id (.ramfsfile buf')).get old = vnodes.get old :=
    Function.update_of_ne other _ _
  constructor
  case tree =>
    constructor
    case root_eq => exact represents.tree.root_eq
    case below => exact represents.tree.below
    case injective => exact represents.tree.injective
    case closed => exact represents.tree.closed
    case lookup_eq =>
      intro other old found name
      rw [← represents.tree.lookup_eq other old found]
      by_cases same : old = id
      · rw [same, self, isFile]
        rfl
      · rw [others old same]
    case complete =>
      intro other old entries found isDir
      by_cases same : old = id
      · rw [same, self] at isDir
        cases isDir
      · rw [others old same] at isDir
        exact represents.tree.complete other old entries found isDir
  case typed =>
    intro other old found
    have typed := represents.typed other old found
    by_cases same : old = id
    · rw [same, isFile] at typed
      rw [same, self]
      exact typed
    · rw [others old same]
      exact typed
  case contents =>
    intro other
    by_cases same : other = path
    · rw [same, Function.update_self, here, Option.map_some, self]
      rfl
    · rw [Function.update_of_ne same, represents.contents]
      cases found : node other with
      | none => rfl
      | some old =>
          have apart : old ≠ id := by
            intro equal
            rw [equal] at found
            exact same (represents.tree.injective _ _ _ found here)
          rw [Option.map_some, Option.map_some, others old apart]

end Changes

/-! ### The calls on both levels -/

def Mirrors (root : Nat) (vnodes : Vnodes) (map : PathMap) : Prop :=
  ∃ node, Represents root vnodes node map

section Calls

open Replies

variable {root id : Nat} {vnodes : Vnodes} {node : List Str → Option Nat} {map : PathMap}
  {path : List Str}

theorem create_agrees (represents : Represents root vnodes node map) (here : node path = some id)
    (given name : Str) :
    Agree (Mirrors root) ((FsCall.create given name).onVnode vnodes id)
      (map.onContent path (vnodes.get id).vData.content (.create given name)) := by
  cases data : (vnodes.get id).vData with
  | ramfsfile buf =>
      rw [FsCall.onVnode, Vfs.create, data]
      exact Agree.error _
  | ramfsdir entries =>
      have entry : (Vops.ramfsdir entries).lookup name = node (path ++ [name]) := by
        rw [← data, represents.tree.lookup_eq _ _ here]
      rw [FsCall.onVnode, Vfs.create, data]
      simp only [Vops.content, PathMap.onContent, entry]
      rw [represents.isSome_iff]
      by_cases taken : (node (path ++ [name])).isSome
      · rw [if_pos taken, if_pos taken]
        exact Agree.ok _ ⟨node, represents⟩
      · rw [if_neg taken, if_neg taken]
        have absent := Option.not_isSome_iff_eq_none.mp taken
        exact Agree.ok _ ⟨_, represents.add here data absent (Or.inr ⟨[], rfl⟩) rfl⟩

theorem mkdir_agrees (represents : Represents root vnodes node map) (here : node path = some id)
    (given name : Str) :
    Agree (Mirrors root) ((FsCall.mkdir given name).onVnode vnodes id)
      (map.onContent path (vnodes.get id).vData.content (.mkdir given name)) := by
  cases data : (vnodes.get id).vData with
  | ramfsfile buf =>
      rw [FsCall.onVnode, Vfs.mkdir, data]
      exact Agree.ok _ ⟨node, represents⟩
  | ramfsdir entries =>
      rw [FsCall.onVnode, Vfs.mkdir, data]
      simp only [Vops.content, PathMap.onContent]
      rw [represents.isSome_iff]
      by_cases taken : (node (path ++ [name])).isSome
      · rw [if_pos taken]
        exact Agree.ok _ ⟨node, represents.hide here data (Option.isSome_iff_ne_none.mp taken) _⟩
      · rw [if_neg taken]
        have absent := Option.not_isSome_iff_eq_none.mp taken
        exact Agree.ok _ ⟨_, represents.add here data absent (Or.inl rfl) rfl⟩

theorem write_agrees (represents : Represents root vnodes node map) (here : node path = some id)
    (given : Str) (data : List UInt8) (offset : Nat) :
    Agree (Mirrors root) ((FsCall.write given data offset).onVnode vnodes id)
      (map.onContent path (vnodes.get id).vData.content (.write given data offset)) := by
  cases ops : (vnodes.get id).vData with
  | ramfsdir entries =>
      rw [FsCall.onVnode, ops]
      simp only [Vops.write, Vops.content, PathMap.onContent, bind, Except.bind]
      rw [← ops, setData_self]
      exact Agree.ok _ ⟨node, represents⟩
  | ramfsfile buf =>
      rw [FsCall.onVnode, ops]
      simp only [Vops.content, PathMap.onContent]
      by_cases small : offset + data.length ≤ isizeMax
      · rw [write_eq buf data small, writeEnd_ok small]
        exact Agree.ok _ ⟨node, represents.setFile here ops _⟩
      · rcases writeEnd_error small with ⟨message, panics⟩
        rw [Vops.write, panics]
        exact Agree.error message

theorem read_agrees (represents : Represents root vnodes node map) (given : Str)
    (out : List UInt8) (offset : Nat) :
    Agree (Mirrors root) ((FsCall.read given out offset).onVnode vnodes id)
      (map.onContent path (vnodes.get id).vData.content (.read given out offset)) := by
  cases ops : (vnodes.get id).vData with
  | ramfsdir entries =>
      rw [FsCall.onVnode, ops]
      exact Agree.ok _ ⟨node, represents⟩
  | ramfsfile buf =>
      rw [FsCall.onVnode, ops]
      simp only [Vops.content, PathMap.onContent, Vops.read]
      by_cases behind : offset ≥ buf.length
      · have nothing : min out.length (buf.length - offset) = 0 := by omega
        rw [if_pos behind, nothing]
        exact Agree.ok _ ⟨node, represents⟩
      · rw [if_neg behind]
        exact Agree.ok _ ⟨node, represents⟩

theorem call_agrees (mirrors : Mirrors root vnodes map) (call : FsCall) :
    Agree (Mirrors root) (call.call root vnodes) (map.call call) := by
  rcases mirrors with ⟨node, represents⟩
  rw [FsCall.call, represents.tree.lookup_path, PathMap.call]
  cases here : node (pathNames call.path) with
  | none =>
      rw [represents.contents, here]
      exact Agree.ok _ ⟨node, represents⟩
  | some id =>
      rw [represents.content_eq here]
      cases call with
      | lookup path =>
          have typed := represents.typed _ id here
          rw [← Vops.content_vType] at typed
          simp only [FsCall.onVnode, PathMap.onContent, typed]
          exact Agree.ok _ ⟨node, represents⟩
      | create path name => exact create_agrees represents here path name
      | mkdir path name => exact mkdir_agrees represents here path name
      | write path data offset => exact write_agrees represents here path data offset
      | read path out offset => exact read_agrees represents path out offset

end Calls

/-- Over an empty root, every sequence of lookups, creations, writes and reads by path gets
from the vnodes exactly the answers that a map from paths to contents gives, up to and
including the call that panics. -/
theorem ramfs_refines_path_map (calls : List FsCall) :
    Replies.run (FsCall.call 0) emptyRoot calls = Replies.run PathMap.call PathMap.empty calls :=
  Replies.run_eq (fun _ _ call mirrors => call_agrees mirrors call) calls
    ⟨_, Represents.empty⟩

end NyauxKernel.Vfs
