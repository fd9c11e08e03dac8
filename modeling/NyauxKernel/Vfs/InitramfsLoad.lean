/-
What `load_ramfs_with_ustar_tar` makes of an archive.

The invariant of the loader names, for the members processed so far, the vnode of
every path.  Directories are rebuilt exactly.  Regular files get a vnode of the
right type, but the bytes are written to the vnode of the directory, which
ignores them, so the buffer of every loaded file is empty.
-/

import NyauxKernel.Vfs.Descent
import NyauxKernel.Vfs.Headers
import Mathlib.Data.List.Perm.Subperm

namespace NyauxKernel.Vfs

/-! ### The state after some members -/

/-- The vnode that the loader makes for a member. -/
def Matches (content : Content) (vnode : Vnode) : Prop :=
  match content with
  | .dir => vnode.vType = .vdir ∧ IsDir vnode.vData
  | .file _ => vnode = { vType := .vreg, vData := .ramfsfile [] }

/-- `node` names the vnode of every path made by the members `done`. -/
structure Loaded (done : List Member) (vnodes : Vnodes) (node : List Str → Option Nat) : Prop
    extends RamfsTree vnodes 0 node where
  rootDir : IsDir (vnodes.get 0).vData
  known : ∀ path id, node path = some id → path = [] ∨ ∃ member ∈ done, member.path = path
  present : ∀ member ∈ done, ∃ id, node member.path = some id ∧
    Matches member.content (vnodes.get id)

theorem loaded_emptyRoot :
    Loaded [] emptyRoot (fun path => if path = [] then some 0 else none) where
  toRamfsTree := RamfsTree.emptyRoot
  rootDir := ⟨[], rfl, fun _ member => absurd member List.not_mem_nil⟩
  known := by
    intro path id found
    by_cases empty : path = []
    · exact Or.inl empty
    · rw [if_neg empty] at found
      contradiction
  present := fun _ member => absurd member List.not_mem_nil

namespace Loaded

variable {done : List Member} {vnodes : Vnodes} {node : List Str → Option Nat}

/-- Looking a path up from the root finds exactly the vnode the loader made. -/
theorem lookup_joinPath (loaded : Loaded done vnodes node) (member : Member) :
    lookup vnodes 0 (joinPath member.path) = node member.path := by
  have pieces : splitTerminator (joinPath member.path) = member.path := by
    have split := splitTerminator_joinPath false member.isName member.path_ne_nil
    rwa [slashes, if_neg (by decide), List.append_nil] at split
  rw [lookup, pieces]
  exact loaded.lookupLoop_eq _ (fun piece inPath => (member.isName piece inPath).nonempty)
    [] 0 loaded.root_eq

theorem transmuteLoop_walk (loaded : Loaded done vnodes node) (ptr : List UInt8)
    (typ : UInt8) (fz : Nat) (lastcomp : Str) (front rest : List Str)
    (nonempty : ∀ piece ∈ front, piece ≠ []) (path : List Str) (id target : Nat)
    (found : node path = some id) (reached : node (path ++ front) = some target) :
    transmuteLoop ptr typ fz lastcomp (front ++ rest) id vnodes =
      transmuteLoop ptr typ fz lastcomp rest target vnodes := by
  induction front generalizing path id with
  | nil =>
      rw [List.append_nil, found] at reached
      rw [Option.some.inj reached, List.nil_append]
  | cons piece front inductionHypothesis =>
      have real : piece.isEmpty = false := by
        simpa using nonempty piece List.mem_cons_self
      have split : path ++ piece :: front = (path ++ [piece]) ++ front := by simp
      rw [split] at reached
      cases next : node (path ++ [piece]) with
      | none =>
          rw [loaded.none_extend next front] at reached
          contradiction
      | some below =>
          rw [List.cons_append, transmuteLoop, real, loaded.lookup_eq path id found piece, next]
          apply inductionHypothesis _ _ _ next reached
          intro other member
          exact nonempty other (List.mem_cons_of_mem piece member)

/-! ### A new entry -/

section CreateEntry

variable {directory id : Nat} {entries : List Dentry} {name : Str} {vnode : Vnode}

/-- Directories stay directories. -/
theorem createEntry_isDir (inside : directory < vnodes.count)
    (complete : ∀ entry ∈ entries, entry.inner ≠ none) (old : id < vnodes.count)
    (dir : IsDir (vnodes.get id).vData) :
    IsDir ((createEntry vnodes directory entries name vnode).2.get id).vData := by
  by_cases same : id = directory
  · rw [same, createEntry_get_dir inside]
    exact ⟨_, rfl, complete_append complete name vnodes.count⟩
  · rwa [createEntry_get_old same old]

/-- The vnodes of members stay what they are. -/
theorem createEntry_matches (inside : directory < vnodes.count)
    (isDir : (vnodes.get directory).vData = .ramfsdir entries)
    (complete : ∀ entry ∈ entries, entry.inner ≠ none) (old : id < vnodes.count)
    {content : Content} (isMatch : Matches content (vnodes.get id)) :
    Matches content ((createEntry vnodes directory entries name vnode).2.get id) := by
  cases content with
  | dir =>
      refine ⟨?_, createEntry_isDir inside complete old isMatch.2⟩
      by_cases same : id = directory
      · subst same
        rw [createEntry_get_dir inside]
        exact isMatch.1
      · rw [createEntry_get_old same old]
        exact isMatch.1
  | file data =>
      have other : id ≠ directory := by
        intro same
        rw [← same, show vnodes.get id = _ from isMatch] at isDir
        contradiction
      rw [createEntry_get_old other old]
      exact isMatch

end CreateEntry

/-- Adding the vnode of one more member whose directory exists. -/
theorem add (loaded : Loaded done vnodes node) (member : Member) {directory : Nat}
    {entries : List Dentry} (above : node member.parent = some directory)
    (isDir : (vnodes.get directory).vData = .ramfsdir entries)
    (absent : node member.path = none) (vnode : Vnode)
    (isMatch : Matches member.content vnode)
    (blank : vnode.vData = .ramfsdir [] ∨ ∃ buf, vnode.vData = .ramfsfile buf) :
    Loaded (done ++ [member]) (createEntry vnodes directory entries member.name vnode).2
      (Function.update node member.path (some vnodes.count)) := by
  have inside := loaded.below _ _ above
  have complete := loaded.complete _ _ _ above isDir
  constructor
  case toRamfsTree => exact loaded.toRamfsTree.add above isDir absent vnode blank
  case rootDir =>
    exact createEntry_isDir inside complete (loaded.below _ _ loaded.root_eq) loaded.rootDir
  case known =>
    intro path id found
    rcases of_update_eq_some found with ⟨rfl, _⟩ | ⟨_, old⟩
    · exact Or.inr ⟨member, by simp, rfl⟩
    · rcases loaded.known path id old with empty | ⟨origin, inDone, same⟩
      · exact Or.inl empty
      · exact Or.inr ⟨origin, List.mem_append_left _ inDone, same⟩
  case present =>
    intro other inDone
    rcases List.mem_append.mp inDone with old | new
    · obtain ⟨id, found, isMatchOld⟩ := loaded.present other old
      have different : other.path ≠ member.path := by
        intro same
        rw [same, absent] at found
        contradiction
      exact ⟨id, by rw [Function.update_of_ne different, found],
        createEntry_matches inside isDir complete (loaded.below _ _ found) isMatchOld⟩
    · rw [List.mem_singleton.mp new]
      refine ⟨vnodes.count, Function.update_self _ _ _, ?_⟩
      rwa [createEntry_get_new inside]

/-- Creating the node of a member in its directory. -/
theorem transmuteCreate_eq (loaded : Loaded done vnodes node) (member : Member)
    {directory : Nat} (above : node member.parent = some directory)
    (isDir : IsDir (vnodes.get directory).vData) (absent : node member.path = none)
    (some_ : member.content ≠ .file []) {ptr : List UInt8}
    (enough : member.content.data.length ≤ ptr.length) :
    ∃ vnodes' node', transmuteCreate ptr member.content.typ member.content.data.length
        directory member.name vnodes = .ok vnodes' ∧
      Loaded (done ++ [member]) vnodes' node' := by
  rcases isDir with ⟨entries, dirEq, _complete⟩
  have missing : (vnodes.get directory).vData.lookup member.name = none := by
    rw [loaded.lookup_eq _ _ above]
    exact absent
  have made (kind : VType) (isKind : headerKind member.content.typ = some kind)
      (isMatch : Matches member.content (blankVnode kind))
      (real : ¬(kind = .vreg ∧ member.content.data.length = 0)) :=
    And.intro (transmuteCreate_dir enough (loaded.below _ _ above) dirEq missing isKind real)
      (loaded.add member above dirEq absent (blankVnode kind) isMatch (blankVnode_blank kind))
  cases content : member.content with
  | dir =>
      rw [content] at made
      refine ⟨_, _, made .vdir rfl ?_ ?_⟩
      · exact ⟨rfl, [], rfl, fun _ member => absurd member List.not_mem_nil⟩
      · exact fun both => absurd both.1 (by decide)
  | file data =>
      rw [content] at made
      refine ⟨_, _, made .vreg rfl rfl ?_⟩
      intro both
      apply some_
      rw [content]
      exact congrArg Content.file (List.length_eq_zero_iff.mp both.2)

/-- One round of the loader on the bytes of a member. -/
theorem transmuteToRamfs_eq (loaded : Loaded done vnodes node) (member : Member)
    (some_ : member.content ≠ .file [])
    (parentDone : member.parent = [] ∨
      ∃ directory ∈ done, directory.path = member.parent ∧ directory.content = .dir)
    (fresh : member.path ∉ done.map Member.path) (more : List UInt8) :
    ∃ vnodes' node', transmuteToRamfs (member.bytes ++ more) 0 vnodes =
        .ok (member.content.data.length, vnodes') ∧
      Loaded (done ++ [member]) vnodes' node' := by
  have absent : node member.path = none := by
    cases found : node member.path with
    | none => rfl
    | some id =>
        rcases loaded.known _ _ found with empty | ⟨other, inDone, same⟩
        · exact absurd empty member.path_ne_nil
        · exact absurd (List.mem_map.mpr ⟨other, inDone, same⟩) fresh
  obtain ⟨directory, above, isDir⟩ : ∃ directory, node member.parent = some directory ∧
      IsDir (vnodes.get directory).vData := by
    rcases parentDone with empty | ⟨origin, inDone, same, isDirectory⟩
    · exact ⟨0, by rw [empty, loaded.root_eq], loaded.rootDir⟩
    · obtain ⟨id, found, isMatch⟩ := loaded.present origin inDone
      rw [isDirectory] at isMatch
      exact ⟨id, by rw [← same, found], isMatch.2⟩
  have enough : member.content.data.length ≤ (member.bytes ++ more).length := by
    simp only [Member.bytes, List.length_append, member.header_length, List.length_replicate]
    omega
  rcases loaded.transmuteCreate_eq member above isDir absent some_ enough with
    ⟨vnodes', node', created, loaded'⟩
  refine ⟨vnodes', node', ?_, loaded'⟩
  have real : member.name ≠ [] := (member.isName member.name (by simp)).nonempty
  have walked : transmuteLoop (member.bytes ++ more) member.content.typ
      member.content.data.length member.name member.path 0 vnodes = .ok vnodes' := by
    rw [Member.path, loaded.transmuteLoop_walk _ _ _ _ member.parent [member.name]
      (fun piece inParent => (member.isName piece (List.mem_append_left _ inParent)).nonempty)
      [] 0 directory loaded.root_eq above]
    have missing : (vnodes.get directory).vData.lookup member.name = none := by
      rw [loaded.lookup_eq _ _ above]
      exact absent
    simp [transmuteLoop, real, missing, created, bind, Except.bind]
  have call := member.ustarEntry.transmuteToRamfs_eq member.short more 0 vnodes
  rw [member.ustarEntry_typ, member.ustarEntry_last, member.ustarEntry_components] at call
  exact call.trans (congrArg _ walked)

end Loaded

/-! ### The rounds of the loader -/

/-- The members the loader gets to: it stops where the next 1024 bytes add up to
zero modulo 256. -/
def processed : List Member → List Member
  | [] => []
  | member :: todo =>
      if ((archive todo).take 1024).sum = 0 then [member] else member :: processed todo

theorem archive_cons (member : Member) (todo : List Member) :
    archive (member :: todo) = member.bytes ++ archive todo := by
  rw [archive, archive, List.flatMap_cons, List.append_assoc]

theorem archive_append (done todo : List Member) :
    archive (done ++ todo) = done.flatMap Member.bytes ++ archive todo := by
  rw [archive, archive, List.flatMap_append, List.append_assoc]

variable {vnodes : Vnodes} {node : List Str → Option Nat} {done : List Member} {member : Member}

/-- One round, on a member whose directory and predecessors are loaded. -/
theorem loadLoop_round (listing : Listing) {todo : List Member} (fuel : Nat)
    (split : listing.members = done ++ member :: todo) (loaded : Loaded done vnodes node) :
    ∃ vnodes' node', Loaded (done ++ [member]) vnodes' node' ∧
      loadLoop (archive listing.members) 0 (fuel + 1) (archive (member :: todo))
          (done.flatMap Member.bytes).length vnodes =
        if ((archive todo).take 1024).sum = 0 then .ok vnodes'
        else loadLoop (archive listing.members) 0 fuel (archive todo)
          ((done ++ [member]).flatMap Member.bytes).length vnodes' := by
  have fresh : member.path ∉ done.map Member.path := by
    have distinct := listing.distinct
    rw [split, List.map_append, List.nodup_append] at distinct
    intro present
    exact distinct.2.2 _ present member.path (by simp) rfl
  have some_ : member.content ≠ .file [] := by
    apply listing.nonempty
    rw [split]
    exact List.mem_append_right _ List.mem_cons_self
  rcases loaded.transmuteToRamfs_eq member some_ (listing.parents done member todo split) fresh
    (archive todo) with ⟨vnodes', node', made, loaded'⟩
  refine ⟨vnodes', node', loaded', ?_⟩
  have reached : (archive listing.members).drop (done.flatMap Member.bytes).length =
      archive (member :: todo) := by
    rw [split, archive_append]
    exact List.drop_left' rfl
  have here : (archive listing.members).drop (done.flatMap Member.bytes).length =
      Entry.archive (member.entry :: todo.map Member.entry) 0 :=
    reached.trans (archive_eq (member :: todo))
  have next : (done.flatMap Member.bytes).length + member.entry.bytes.length =
      ((done ++ [member]).flatMap Member.bytes).length := by
    rw [List.flatMap_append, List.length_append, List.flatMap_singleton]
    rfl
  have call : transmuteToRamfs (member.entry.bytes ++ Entry.archive (todo.map Member.entry) 0) 0
      vnodes = .ok (member.content.data.length, vnodes') := by
    rw [← archive_eq]
    exact made
  have round := loadLoop_entry 0 fuel vnodes here
  rw [call, drop_entry here, next, reached, ← archive_eq] at round
  exact round

theorem loadLoop_eq (listing : Listing) (todo : List Member) :
    ∀ (done : List Member) (member : Member) (vnodes : Vnodes) (node : List Str → Option Nat)
      (fuel : Nat), listing.members = done ++ member :: todo → Loaded done vnodes node →
      todo.length < fuel →
      ∃ vnodes' node', loadLoop (archive listing.members) 0 fuel (archive (member :: todo))
          (done.flatMap Member.bytes).length vnodes = .ok vnodes' ∧
        Loaded (done ++ processed (member :: todo)) vnodes' node' := by
  induction todo with
  | nil =>
      intro done member vnodes node fuel split loaded enough
      obtain ⟨fuel, rfl⟩ := Nat.exists_eq_succ_of_ne_zero (Nat.ne_of_gt enough)
      obtain ⟨vnodes', node', loaded', round⟩ := loadLoop_round listing fuel split loaded
      have stops : ((archive []).take 1024).sum = 0 := Entry.archive_nil_sum 0
      rw [if_pos stops] at round
      refine ⟨vnodes', node', round, ?_⟩
      rwa [processed, if_pos stops]
  | cons next todo inductionHypothesis =>
      intro done member vnodes node fuel split loaded enough
      obtain ⟨fuel, rfl⟩ := Nat.exists_eq_succ_of_ne_zero (Nat.ne_of_gt (Nat.zero_lt_of_lt enough))
      obtain ⟨vnodes', node', loaded', round⟩ := loadLoop_round listing fuel split loaded
      rw [processed]
      by_cases stops : ((archive (next :: todo)).take 1024).sum = 0
      · rw [if_pos stops] at round ⊢
        exact ⟨vnodes', node', round, loaded'⟩
      · rw [if_neg stops] at round ⊢
        rw [round]
        have moved : listing.members = (done ++ [member]) ++ next :: todo := by simp [split]
        have fewer : todo.length < fuel := by
          rw [List.length_cons] at enough
          omega
        have rest := inductionHypothesis _ next vnodes' node' fuel moved loaded' fewer
        rwa [List.append_assoc] at rest

/-! ### What is restored -/

/-- Loading ends in a ramfs that holds exactly the members the loader got to. -/
theorem loadRamfs_eq (listing : Listing) (nonempty : listing.members ≠ []) (path : Str)
    (named : tarPattern <:+: path) (others : List LimineFile) :
    ∃ vnodes node, loadRamfsWithUstarTar
        (some ({ path := path, data := archive listing.members } :: others)) (some []) 0
        emptyRoot = .ok vnodes ∧
      Loaded (processed listing.members) vnodes node := by
  cases split : listing.members with
  | nil => exact absurd split nonempty
  | cons member todo =>
      have long : todo.length < (archive listing.members).length + 1 := by
        have bound := Entry.length_le (listing.members.map Member.entry) 0
        rw [← archive_eq, List.length_map, split, List.length_cons] at bound
        rw [split]
        omega
      obtain ⟨vnodes, node, loop, loaded⟩ := loadLoop_eq listing todo [] member emptyRoot _ _
        split loaded_emptyRoot long
      refine ⟨vnodes, node, ?_, loaded⟩
      simp only [loadRamfsWithUstarTar, List.head?_cons, if_pos named, ← split]
      rw [← split] at loop
      exact loop

/-- Every member can be looked up as a vnode of its type, and every regular file
reads back, through any buffer long enough, as the bytes archived for it. -/
def Restored (members : List Member) (vnodes : Vnodes) : Prop :=
  ∀ member ∈ members, ∃ id, lookup vnodes 0 (joinPath member.path) = some id ∧
    match member.content with
    | .dir => (vnodes.get id).vType = .vdir
    | .file data => (vnodes.get id).vType = .vreg ∧
        ∀ buf : List UInt8, data.length ≤ buf.length →
          (vnodes.get id).vData.read buf 0 =
            ((data.length : Int), data ++ buf.drop data.length)

/-- No boundary before a later member is mistaken for the end of the archive. -/
def NoEarlyStop (members : List Member) : Prop :=
  ∀ front back, members = front ++ back → front ≠ [] → back ≠ [] →
    ((archive back).take 1024).sum ≠ 0

theorem noEarlyStop_cons (member : Member) (todo : List Member) :
    NoEarlyStop (member :: todo) ↔
      (todo ≠ [] → ((archive todo).take 1024).sum ≠ 0) ∧ NoEarlyStop todo := by
  constructor
  · intro clear
    constructor
    · intro more
      exact clear [member] todo rfl (by simp) more
    · intro front back split _nonempty more
      exact clear (member :: front) back (by rw [split, List.cons_append]) (by simp) more
  · rintro ⟨here, later⟩ front back split nonempty more
    cases front with
    | nil => contradiction
    | cons first front =>
        obtain ⟨_same, rest⟩ := List.cons.inj split
        cases front with
        | nil =>
            change todo = back at rest
            rw [← rest]
            apply here
            rwa [rest]
        | cons second front => exact later _ back rest (by simp) more

theorem processed_eq_iff (members : List Member) :
    processed members = members ↔ NoEarlyStop members := by
  induction members with
  | nil =>
      apply iff_of_true rfl
      intro front back split nonempty
      exact absurd (List.append_eq_nil_iff.mp split.symm).1 nonempty
  | cons member todo inductionHypothesis =>
      rw [noEarlyStop_cons, processed, ← inductionHypothesis]
      by_cases stops : ((archive todo).take 1024).sum = 0
      · rw [if_pos stops]
        cases todo with
        | nil => simp [processed]
        | cons next todo => simp [stops]
      · simp [stops]

theorem processed_singleton (member : Member) : processed [member] = [member] := by
  rw [processed]
  split
  · rfl
  · rfl

theorem processed_initial (members : List Member) : processed members <+: members := by
  induction members with
  | nil => exact List.prefix_rfl
  | cons member todo inductionHypothesis =>
      rw [processed]
      split
      · exact List.cons_prefix_cons.mpr ⟨rfl, List.nil_prefix⟩
      · exact List.cons_prefix_cons.mpr ⟨rfl, inductionHypothesis⟩

/-- A loaded regular file is empty. -/
theorem Loaded.read_file (loaded : Loaded done vnodes node) (inDone : member ∈ done)
    {data : List UInt8} (isFile : member.content = .file data) (buf : List UInt8) :
    ∃ id, lookup vnodes 0 (joinPath member.path) = some id ∧
      (vnodes.get id).vData.read buf 0 = (0, buf) := by
  obtain ⟨id, found, isMatch⟩ := loaded.present member inDone
  rw [isFile] at isMatch
  refine ⟨id, by rw [loaded.lookup_joinPath, found], ?_⟩
  rw [isMatch]
  rfl

/-- Where every member can be looked up, the loader got to the end. -/
theorem Loaded.processed_eq (listing : Listing)
    (loaded : Loaded (processed listing.members) vnodes node)
    (found : ∀ member ∈ listing.members, ∃ id,
      lookup vnodes 0 (joinPath member.path) = some id) :
    processed listing.members = listing.members := by
  have inside : listing.members.map Member.path ⊆
      (processed listing.members).map Member.path := by
    intro path inPaths
    obtain ⟨member, inMembers, rfl⟩ := List.mem_map.mp inPaths
    obtain ⟨id, lookupEq⟩ := found member inMembers
    rw [loaded.lookup_joinPath] at lookupEq
    rcases loaded.known _ _ lookupEq with empty | ⟨other, inDone, same⟩
    · exact absurd empty member.path_ne_nil
    · exact List.mem_map.mpr ⟨other, inDone, same⟩
  have shorter := (List.subperm_of_subset listing.distinct inside).length_le
  rw [List.length_map, List.length_map] at shorter
  exact (processed_initial listing.members).eq_of_length_le shorter

theorem Loaded.restored_iff (listing : Listing)
    (loaded : Loaded (processed listing.members) vnodes node) :
    Restored listing.members vnodes ↔
      (∀ member ∈ listing.members, member.content = .dir) ∧ NoEarlyStop listing.members := by
  constructor
  · intro restored
    have complete := loaded.processed_eq listing fun member inMembers =>
      (restored member inMembers).imp fun _ both => both.1
    refine ⟨?_, (processed_eq_iff _).mp complete⟩
    intro member inMembers
    cases content : member.content with
    | dir => rfl
    | file data =>
        rw [complete] at loaded
        obtain ⟨id, lookupEq, same⟩ := restored member inMembers
        obtain ⟨other, otherEq, empty⟩ := loaded.read_file inMembers content data
        rw [lookupEq] at otherEq
        rw [content] at same
        have reads := same.2 data (Nat.le_refl _)
        rw [Option.some.inj otherEq, empty] at reads
        have zero : data.length = 0 := by
          have counts := congrArg Prod.fst reads
          simp only at counts
          omega
        rw [List.length_eq_zero_iff.mp zero] at content
        exact absurd content (listing.nonempty member inMembers)
  · rintro ⟨directories, clear⟩ member inMembers
    rw [(processed_eq_iff _).mpr clear] at loaded
    obtain ⟨id, found, isMatch⟩ := loaded.present member inMembers
    refine ⟨id, by rw [loaded.lookup_joinPath, found], ?_⟩
    rw [directories member inMembers] at isMatch ⊢
    exact isMatch.1

/-- The loader finishes on the archive of every nonempty tree.  The ramfs it
leaves restores the tree exactly when the tree has no regular file and no
boundary between members looks like the end of the archive. -/
theorem initramfs_restored_iff (listing : Listing) (path : Str) (named : tarPattern <:+: path)
    (others : List LimineFile) :
    (listing.members ≠ [] → ∃ vnodes, loadRamfsWithUstarTar
        (some ({ path := path, data := archive listing.members } :: others)) (some []) 0
        emptyRoot = .ok vnodes) ∧
      ((∀ vnodes, loadRamfsWithUstarTar
          (some ({ path := path, data := archive listing.members } :: others)) (some []) 0
          emptyRoot = .ok vnodes → Restored listing.members vnodes) ↔
        (∀ member ∈ listing.members, member.content = .dir) ∧
          NoEarlyStop listing.members) := by
  by_cases nonempty : listing.members = []
  · refine ⟨fun some => absurd nonempty some, ?_⟩
    rw [nonempty]
    apply iff_of_true
    · intro vnodes _finished member inMembers
      exact absurd inMembers List.not_mem_nil
    · refine ⟨fun member inMembers => absurd inMembers List.not_mem_nil, ?_⟩
      exact (processed_eq_iff []).mp rfl
  · obtain ⟨vnodes, node, finished, loaded⟩ :=
      loadRamfs_eq listing nonempty path named others
    refine ⟨fun _ => ⟨vnodes, finished⟩, ?_⟩
    rw [← loaded.restored_iff listing]
    constructor
    · intro always
      exact always vnodes finished
    · intro restored other finishedOther
      rw [finished] at finishedOther
      rwa [← Except.ok.inj finishedOther]

/-! ### Small trees -/

/-- The directories `a`, `a/b` and `x`. -/
def nestedListing : Listing where
  members :=
    [.plain [] [97] .dir blankRest (by decide) (by decide) (by decide),
      .plain [[97]] [98] .dir blankRest (by decide) (by decide) (by decide),
      .plain [] [120] .dir blankRest (by decide) (by decide) (by decide)]
  nonempty := by
    intro member inMembers isFile
    simp only [List.mem_cons, List.not_mem_nil, or_false] at inMembers
    rcases inMembers with rfl | rfl | rfl
    all_goals cases isFile
  distinct := by decide
  parents := by
    intro front member back split
    rcases front with _ | ⟨first, _ | ⟨second, _ | ⟨third, front⟩⟩⟩
    · cases split
      exact Or.inl rfl
    · cases split
      exact Or.inr ⟨_, List.mem_cons_self, rfl, rfl⟩
    · cases split
      exact Or.inl rfl
    · simp at split

/-- The tree of the directories `a`, `a/b` and `x` is restored. -/
theorem initramfs_restored_directory :
    ∃ vnodes, loadRamfsWithUstarTar
        (some [{ path := tarPattern, data := archive nestedListing.members }]) (some []) 0
        emptyRoot = .ok vnodes ∧
      Restored nestedListing.members vnodes := by
  obtain ⟨finishes, restored⟩ := initramfs_restored_iff nestedListing tarPattern List.infix_rfl []
  obtain ⟨vnodes, finished⟩ := finishes (List.cons_ne_nil _ _)
  refine ⟨vnodes, finished, restored.mpr ⟨?_, ?_⟩ vnodes finished⟩
  · intro member inMembers
    simp only [nestedListing, List.mem_cons, List.not_mem_nil, or_false] at inMembers
    rcases inMembers with rfl | rfl | rfl
    all_goals rfl
  · apply (processed_eq_iff _).mp
    have first : ((archive (nestedListing.members.drop 1)).take 1024).sum ≠ 0 := by decide +kernel
    have second : ((archive (nestedListing.members.drop 2)).take 1024).sum ≠ 0 := by decide +kernel
    have rest : processed (nestedListing.members.drop 1) = nestedListing.members.drop 1 :=
      (if_neg second).trans (congrArg (List.cons _) (processed_singleton _))
    exact (if_neg first).trans (congrArg (List.cons _) rest)

/-- A file `x` in the root of the tree. -/
def fileListing (byte : UInt8) : Listing where
  members := [.plain [] [120] (.file [byte]) blankRest (by decide) (by decide)
    (Nat.one_lt_pow (by decide) (by decide))]
  nonempty := by
    intro member inMembers isFile
    rw [List.mem_singleton.mp inMembers] at isFile
    cases isFile
  distinct := List.nodup_singleton _
  parents := by
    intro front member back split
    cases front with
    | nil =>
        cases split
        exact Or.inl rfl
    | cons first front => simp at split

/-- The tree with the one file `x` holding the byte 7: the loaded file is empty. -/
theorem initramfs_file_lost :
    ∃ vnodes, loadRamfsWithUstarTar
        (some [{ path := tarPattern, data := archive (fileListing 7).members }]) (some []) 0
        emptyRoot = .ok vnodes ∧
      (∃ id, lookup vnodes 0 [120] = some id ∧ (vnodes.get id).vData.read [1] 0 = (0, [1])) ∧
      ¬Restored (fileListing 7).members vnodes := by
  obtain ⟨vnodes, node, finished, loaded⟩ :=
    loadRamfs_eq (fileListing 7) (List.cons_ne_nil _ _) tarPattern List.infix_rfl []
  refine ⟨vnodes, finished, ?_, ?_⟩
  · have whole : processed (fileListing 7).members = (fileListing 7).members :=
      processed_singleton _
    rw [whole] at loaded
    exact loaded.read_file List.mem_cons_self rfl [1]
  · rw [loaded.restored_iff]
    rintro ⟨directories, _⟩
    have isDirectory : Content.file [7] = .dir := directories _ List.mem_cons_self
    cases isDirectory

end NyauxKernel.Vfs
