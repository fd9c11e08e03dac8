/-
The directories that `transmute_to_ramfs` makes on the way to a node.

The walk takes a component for the last one when it has the same text.  Where such a
component is missing on the way, the node of the header is made there, the walk stays in
its directory, and no node can appear at the depth of the full path any more.
-/

import NyauxKernel.Vfs.Descent
import NyauxKernel.Vfs.Headers

namespace NyauxKernel.Vfs

/-! ### What the walk on types makes -/

section Place

variable {new : Option VType} {hollow : Bool} {last : Str} {kinds kinds' mid : Kinds}
  {cur comps : List Str} {name : Str}

variable {kind : VType} {path rest : List Str}

theorem Kinds.add_eq_some (added : kinds.add cur name kind = some mid) :
    mid = Function.update kinds (cur ++ [name]) (some kind) := by
  rw [Kinds.add] at added
  split at added
  · exact (Option.some.inj added).symm
  · contradiction

/-- The node of the header is the only one that can be new. -/
theorem placeLast_other (made : placeLast new hollow cur name kinds = some mid)
    (other : path ≠ cur ++ [name]) : mid path = kinds path := by
  cases new with
  | none =>
      cases made
      rfl
  | some kind =>
      rw [placeLast] at made
      split at made
      · contradiction
      · rw [Kinds.add_eq_some made, Function.update_of_ne other]

theorem ne_of_deeper (deeper : cur.length + 1 < path.length) : path ≠ cur ++ [name] := by
  intro same
  rw [same, List.length_append, List.length_singleton] at deeper
  omega

/-- The walk makes nothing deeper than it has components left. -/
theorem place_depth (made : place new hollow last cur comps kinds = some kinds')
    (deep : cur.length + comps.length < path.length) : kinds' path = kinds path := by
  induction comps generalizing cur kinds with
  | nil =>
      cases made
      rfl
  | cons name rest inductionHypothesis =>
      rw [List.length_cons] at deep
      have below : (cur ++ [name]).length + rest.length < path.length := by
        rw [List.length_append, List.length_singleton]
        omega
      have other : path ≠ cur ++ [name] := ne_of_deeper (by omega)
      rw [place] at made
      split at made
      · exact inductionHypothesis made below
      · split at made
        · rcases Option.bind_eq_some_iff.mp made with ⟨mid, first, later⟩
          rw [inductionHypothesis later (by omega), placeLast_other first other]
        · rcases Option.bind_eq_some_iff.mp made with ⟨mid, first, later⟩
          rw [inductionHypothesis later below, Kinds.add_eq_some first,
            Function.update_of_ne other]

/-- A missing component with the text of the last one costs the walk a level. -/
theorem place_lag {front back : List Str} (more : back ≠ [])
    (missing : kinds (cur ++ (front ++ [last])) = none)
    (made : place new hollow last cur (front ++ last :: back) kinds = some kinds')
    (atEnd : path.length = cur.length + (front ++ last :: back).length) :
    kinds' path = kinds path := by
  have left : 0 < back.length := List.length_pos_iff.mpr more
  induction front generalizing cur kinds with
  | nil =>
      rw [List.nil_append, List.length_cons] at atEnd
      rw [List.nil_append] at made missing
      rw [place, missing, if_neg (by simp), if_pos rfl] at made
      rcases Option.bind_eq_some_iff.mp made with ⟨mid, first, later⟩
      rw [place_depth later (by omega), placeLast_other first (ne_of_deeper (by omega))]
  | cons name front inductionHypothesis =>
      have missingBelow : kinds ((cur ++ [name]) ++ (front ++ [last])) = none := by
        rwa [List.append_assoc, List.singleton_append, ← List.cons_append]
      rw [List.cons_append, List.length_cons] at atEnd
      have atEndBelow : path.length = (cur ++ [name]).length + (front ++ last :: back).length := by
        rw [List.length_append, List.length_singleton]
        omega
      have other : path ≠ cur ++ [name] := by
        apply ne_of_deeper
        rw [List.length_append, List.length_cons] at atEnd
        omega
      rw [List.cons_append, place] at made
      split at made
      · exact inductionHypothesis missingBelow made atEndBelow
      · split at made
        · rcases Option.bind_eq_some_iff.mp made with ⟨mid, first, later⟩
          rw [place_depth later (by omega), placeLast_other first other]
        · rcases Option.bind_eq_some_iff.mp made with ⟨mid, first, later⟩
          have deeper : (cur ++ [name]) ++ (front ++ [last]) ≠ cur ++ [name] := by simp
          have same := Kinds.add_eq_some first
          rw [inductionHypothesis _ later atEndBelow, same, Function.update_of_ne other]
          rw [same, Function.update_of_ne deeper]
          exact missingBelow

/-- Where no component has the text of the last piece, all that is made is directories. -/
theorem place_directories (never : last ∉ comps)
    (made : place new hollow last cur comps kinds = some kinds') (path : List Str) :
    kinds' path = kinds path ∨ kinds' path = some .vdir := by
  induction comps generalizing cur kinds with
  | nil =>
      cases made
      exact Or.inl rfl
  | cons name rest inductionHypothesis =>
      have neverLater : last ∉ rest := fun member => never (List.mem_cons_of_mem name member)
      rw [place] at made
      split at made
      · exact inductionHypothesis neverLater made
      · split at made
        case isTrue same => exact absurd (same ▸ List.mem_cons_self) never
        case isFalse =>
          rcases Option.bind_eq_some_iff.mp made with ⟨mid, first, later⟩
          have same := Kinds.add_eq_some first
          rcases inductionHypothesis neverLater later with kept | directory
          · by_cases here : path = cur ++ [name]
            · right
              rw [kept, same, here, Function.update_self]
            · left
              rw [kept, same, Function.update_of_ne here]
          · exact Or.inr directory

/-- The components below `cur` are directories but for the last one, which has the type
`kind`, and nothing else is new. -/
structure Filled (kinds kinds' : Kinds) (cur comps : List Str) (kind : VType) : Prop where
  parents : ∀ front, front <+: comps → front ≠ comps → kinds' (cur ++ front) = some .vdir
  target : kinds' (cur ++ comps) = some kind
  others : ∀ path, kinds' path ≠ kinds path →
    kinds path = none ∧ ∃ front, front <+: comps ∧ path = cur ++ front

theorem Filled.single (isDir : kinds cur = some .vdir) (missing : kinds (cur ++ [name]) = none) :
    Filled kinds (Function.update kinds (cur ++ [name]) (some kind)) cur [name] kind where
  parents := by
    intro front initial proper
    rcases List.prefix_cons_iff.mp initial with nothing | ⟨later, same, initialLater⟩
    · rw [nothing, List.append_nil, Function.update_of_ne (by simp), isDir]
    · rw [List.prefix_nil.mp initialLater] at same
      exact absurd same proper
  target := Function.update_self _ _ _
  others := by
    intro path changed
    by_cases here : path = cur ++ [name]
    · exact ⟨by rw [here, missing], [name], List.prefix_rfl, here⟩
    · rw [Function.update_of_ne here] at changed
      exact absurd rfl changed

theorem Filled.cons (below : Filled mid kinds' (cur ++ [name]) rest kind)
    (isDir : kinds cur = some .vdir)
    (step : ∀ path, mid path ≠ kinds path → kinds path = none ∧ path = cur ++ [name]) :
    Filled kinds kinds' cur (name :: rest) kind where
  parents := by
    intro front initial proper
    rcases List.prefix_cons_iff.mp initial with nothing | ⟨later, same, initialLater⟩
    · have midDir : mid cur = some .vdir := by
        by_contra changed
        rw [← isDir] at changed
        have absent := (step cur changed).1
        rw [isDir] at absent
        contradiction
      rw [nothing, List.append_nil, ← midDir]
      by_contra changed
      have absent := (below.others cur changed).1
      rw [midDir] at absent
      contradiction
    · have properLater : later ≠ rest := by
        intro equal
        exact proper (by rw [same, equal])
      have parent := below.parents later initialLater properLater
      rwa [List.append_assoc, List.singleton_append, ← same] at parent
  target := by
    have target := below.target
    rwa [List.append_assoc, List.singleton_append] at target
  others := by
    intro path changed
    by_cases midChanged : mid path = kinds path
    · rw [← midChanged] at changed ⊢
      rcases below.others path changed with ⟨absent, front, initial, same⟩
      refine ⟨absent, name :: front, List.cons_prefix_cons.mpr ⟨rfl, initial⟩, ?_⟩
      rw [same, List.append_assoc, List.singleton_append]
    · rcases step path midChanged with ⟨absent, same⟩
      exact ⟨absent, [name], List.cons_prefix_cons.mpr ⟨rfl, List.nil_prefix⟩, same⟩

/-- No missing component before the end has the text of the last piece.  After an empty last
piece everything is made as a directory. -/
def Direct (kinds : Kinds) (cur comps : List Str) (last : Str) (kind : VType) : Prop :=
  if last = [] then kind = .vdir
  else ∀ front, front ++ [last] <+: comps → front ++ [last] ≠ comps →
    kinds (cur ++ (front ++ [last])) ≠ none

theorem Direct.tail (direct : Direct kinds cur (name :: rest) last kind)
    (more : ∀ path, mid path = none → kinds path = none) :
    Direct mid (cur ++ [name]) rest last kind := by
  rw [Direct] at direct ⊢
  split
  case isTrue empty =>
    rwa [if_pos empty] at direct
  case isFalse real =>
    rw [if_neg real] at direct
    intro front initial proper missing
    apply direct (name :: front)
    · rw [List.cons_append]
      exact List.cons_prefix_cons.mpr ⟨rfl, initial⟩
    · rw [List.cons_append]
      intro same
      exact proper (List.cons.inj same).2
    · rw [List.append_assoc, List.singleton_append, ← List.cons_append] at missing
      exact more _ missing

/-- The walk can make the missing path below the directory `cur`: it meets no file, and the
text of the last piece at the end only. -/
structure Fillable (kinds : Kinds) (cur comps : List Str) (last : Str) (kind : VType) : Prop where
  nonempty : ∀ name ∈ comps, name ≠ []
  ends : last ≠ [] → comps.getLast? = some last
  noFile : ∀ front, front <+: comps → kinds (cur ++ front) ≠ some .vreg
  isDir : kinds cur = some .vdir
  missing : kinds (cur ++ comps) = none
  direct : Direct kinds cur comps last kind

namespace Fillable

/-- What is left below the first component, once that is a directory. -/
theorem tail (fillable : Fillable kinds cur (name :: rest) last kind) (more : rest ≠ [])
    (isDir : mid (cur ++ [name]) = some .vdir)
    (same : ∀ path, path ≠ cur ++ [name] → mid path = kinds path) :
    Fillable mid (cur ++ [name]) rest last kind where
  nonempty := fun other member => fillable.nonempty other (List.mem_cons_of_mem name member)
  ends := by
    intro real
    have whole := fillable.ends real
    rwa [List.getLast?_cons_of_ne_nil more] at whole
  noFile := by
    intro front initial
    by_cases nothing : front = []
    · rw [nothing, List.append_nil, isDir]
      intro clash
      cases clash
    · have file := fillable.noFile (name :: front) (List.cons_prefix_cons.mpr ⟨rfl, initial⟩)
      rw [same _ (by simpa using nothing)]
      rwa [List.append_assoc, List.singleton_append]
  isDir := isDir
  missing := by
    rw [same _ (by simpa using more), List.append_assoc, List.singleton_append]
    exact fillable.missing
  direct := by
    apply fillable.direct.tail
    intro path absent
    by_cases here : path = cur ++ [name]
    · rw [here, isDir] at absent
      contradiction
    · rwa [same path here] at absent

/-- A component that is there is a directory. -/
theorem present_dir (fillable : Fillable kinds cur (name :: rest) last kind) {present : VType}
    (here : kinds (cur ++ [name]) = some present) : kinds (cur ++ [name]) = some .vdir := by
  have file := fillable.noFile [name] (List.cons_prefix_cons.mpr ⟨rfl, List.nil_prefix⟩)
  rw [here] at file ⊢
  cases present with
  | vreg => exact absurd rfl file
  | vdir => rfl

/-- When the text of the last piece is met, nothing is left of the path. -/
theorem rest_eq_nil (fillable : Fillable kinds cur (last :: rest) last kind)
    (here : kinds (cur ++ [last]) = none) : rest = [] := by
  have real : last ≠ [] := fillable.nonempty last List.mem_cons_self
  have direct := fillable.direct
  rw [Direct, if_neg real] at direct
  by_contra more
  apply direct []
  · exact List.cons_prefix_cons.mpr ⟨rfl, List.nil_prefix⟩
  · intro same
    exact more (List.cons.inj same).2.symm
  · exact here

/-- A path that ends with another text is made of directories. -/
theorem kind_eq (fillable : Fillable kinds cur [name] last kind) (other : name ≠ last) :
    kind = .vdir := by
  have empty : last = [] := by
    by_contra real
    have whole := fillable.ends real
    rw [List.getLast?_singleton] at whole
    exact other (Option.some.inj whole)
  have direct := fillable.direct
  rwa [Direct, if_pos empty] at direct

end Fillable

theorem place_filled (real : ¬(kind = .vreg ∧ hollow)) (some_ : comps ≠ [])
    (fillable : Fillable kinds cur comps last kind) :
    ∃ kinds', place (some kind) hollow last cur comps kinds = some kinds' ∧
      Filled kinds kinds' cur comps kind := by
  induction comps generalizing cur kinds with
  | nil => exact absurd rfl some_
  | cons name rest inductionHypothesis =>
      rw [place]
      cases here : kinds (cur ++ [name]) with
      | some present =>
          have more : rest ≠ [] := by
            intro nothing
            have missing := fillable.missing
            rw [nothing, here] at missing
            contradiction
          rcases inductionHypothesis more
            (fillable.tail more (fillable.present_dir here) fun _ _ => rfl) with
            ⟨kinds', made, filled⟩
          rw [if_pos Option.isSome_some]
          exact ⟨kinds', made, filled.cons fillable.isDir fun _ changed => absurd rfl changed⟩
      | none =>
          have added (kind : VType) : kinds.add cur name kind =
              some (Function.update kinds (cur ++ [name]) (some kind)) := by
            rw [Kinds.add, if_pos fillable.isDir]
          rw [if_neg (by simp)]
          by_cases isLast : name = last
          · subst isLast
            rw [fillable.rest_eq_nil here, if_pos rfl, placeLast, if_neg real, added,
              Option.bind_some, place]
            exact ⟨_, rfl, Filled.single fillable.isDir here⟩
          · rw [if_neg isLast, added, Option.bind_some]
            by_cases more : rest = []
            · subst more
              rw [fillable.kind_eq isLast, place]
              exact ⟨_, rfl, Filled.single fillable.isDir here⟩
            · rcases inductionHypothesis more
                (fillable.tail more (Function.update_self _ _ _)
                  fun _ other => Function.update_of_ne other _ _) with ⟨kinds', made, filled⟩
              refine ⟨kinds', made, filled.cons fillable.isDir ?_⟩
              intro path changed
              by_cases same : path = cur ++ [name]
              · exact ⟨by rw [same, here], same⟩
              · rw [Function.update_of_ne same] at changed
                exact absurd rfl changed

/-- Where the walk makes a missing path, it met the text of the last piece at the end only. -/
theorem direct_of_placed (made : place (some kind) hollow last [] comps kinds = some kinds')
    (nonempty : ∀ name ∈ comps, name ≠ []) (missing : kinds comps = none)
    (target : kinds' comps = some kind) : Direct kinds [] comps last kind := by
  rw [Direct]
  split
  case isTrue empty =>
    have never : last ∉ comps := fun member => nonempty last member empty
    rcases place_directories never made comps with kept | directory
    · rw [target, missing] at kept
      contradiction
    · rw [target] at directory
      exact Option.some.inj directory
  case isFalse =>
    intro front initial proper absent
    rcases initial with ⟨back, split⟩
    have more : back ≠ [] := by
      intro nothing
      rw [nothing, List.append_nil] at split
      exact proper split
    have whole : comps = front ++ last :: back := by
      rw [← split, List.append_assoc, List.singleton_append]
    rw [whole] at made
    have lagged : kinds' comps = kinds comps := place_lag more absent made (by rw [whole]; simp)
    rw [target, missing] at lagged
    contradiction

end Place

/-! ### What a call makes -/

/-- Every proper part of the path leads to a directory and the path to a node of the type
`kind`; every old node is where it was; and every entry is an old one or a missing part of
the path. -/
structure ParentsMade (vnodes vnodes' : Vnodes) (root : Nat) (path : List Str) (kind : VType) :
    Prop where
  parents : ∀ front, front <+: path → front ≠ path →
    ∃ id, lookupLoop vnodes'.find root front = some id ∧ (vnodes'.get id).vData.kind = .vdir
  target : ∃ id, lookupLoop vnodes'.find root path = some id ∧ (vnodes'.get id).vType = kind ∧
    (vnodes'.get id).vData.kind = kind
  kept : ∀ old id, (∀ name ∈ old, name ≠ []) → lookupLoop vnodes.find root old = some id →
    lookupLoop vnodes'.find root old = some id
  only : ∀ above id entries', (∀ name ∈ above, name ≠ []) →
    lookupLoop vnodes'.find root above = some id → (vnodes'.get id).vData = .ramfsdir entries' →
    ∀ entry ∈ entries',
      (∃ entries, lookupLoop vnodes.find root above = some id ∧
        (vnodes.get id).vData = .ramfsdir entries ∧ entry ∈ entries) ∨
      above ++ [entry.name] <+: path ∧ lookupLoop vnodes.find root (above ++ [entry.name]) = none

section Call

variable {vnodes vnodes' : Vnodes} {root : Nat} {node node' : List Str → Option Nat}
  {path : List Str} {kind : VType}

theorem kindsOf_eq_none_iff : kindsOf vnodes node path = none ↔ node path = none := by
  rw [kindsOf, Option.map_eq_none_iff]

/-- A filled path, read off the vnodes. -/
theorem Filled.parentsMade (filled : Filled (kindsOf vnodes node) (kindsOf vnodes' node') [] path kind)
    (tree : RamfsTree vnodes root node) (tree' : RamfsTree vnodes' root node')
    (extended : Extends vnodes node vnodes' node') (nonempty : ∀ name ∈ path, name ≠ [])
    (missing : node path = none) : ParentsMade vnodes vnodes' root path kind := by
  have found (front : List Str) (real : ∀ name ∈ front, name ≠ []) :
      lookupLoop vnodes.find root front = node front :=
    tree.lookupLoop_eq front real [] root tree.root_eq
  have found' (front : List Str) (real : ∀ name ∈ front, name ≠ []) :
      lookupLoop vnodes'.find root front = node' front :=
    tree'.lookupLoop_eq front real [] root tree'.root_eq
  constructor
  case parents =>
    intro front initial proper
    rcases Option.map_eq_some_iff.mp (filled.parents front initial proper) with ⟨id, made, isDir⟩
    exact ⟨id, by rw [found' front fun name member => nonempty name (initial.subset member)]; exact made,
      isDir⟩
  case target =>
    rcases Option.map_eq_some_iff.mp filled.target with ⟨id, made, isKind⟩
    refine ⟨id, by rw [found' path nonempty]; exact made, ?_, isKind⟩
    rw [extended.typed path id missing made, isKind]
  case kept =>
    intro old id real before
    rw [found old real] at before
    rw [found' old real]
    exact (extended.kept old id before).1
  case only =>
    intro above id entries' real reached isDir entry member
    rw [found' above real] at reached
    rcases extended.entries above id entries' reached isDir entry member with
      ⟨entries, before, isDirBefore, older⟩ | ⟨absent, child, made⟩
    · exact Or.inl ⟨entries, by rw [found above real]; exact before, isDirBefore, older⟩
    · right
      have changed : kindsOf vnodes' node' (above ++ [entry.name]) ≠
          kindsOf vnodes node (above ++ [entry.name]) := by
        rw [kindsOf, kindsOf, absent, made]
        exact Option.some_ne_none _
      rcases filled.others _ changed with ⟨_, front, initial, same⟩
      rw [List.nil_append] at same
      rw [same]
      refine ⟨initial, ?_⟩
      rw [found front fun name member => nonempty name (initial.subset member), ← same]
      exact absent

theorem ParentsMade.kindsOf_target (made : ParentsMade vnodes vnodes' root path kind)
    (tree' : RamfsTree vnodes' root node') (nonempty : ∀ name ∈ path, name ≠ []) :
    kindsOf vnodes' node' path = some kind := by
  rcases made.target with ⟨id, found, _isType, isKind⟩
  rw [tree'.lookupLoop_eq path nonempty [] root tree'.root_eq, List.nil_append] at found
  rw [kindsOf, found, Option.map_some, isKind]

end Call

namespace UstarEntry

variable (entry : UstarEntry)

theorem getLast_components (real : entry.last ≠ []) :
    entry.components.getLast? = some entry.last := by
  have whole := List.dropLast_append_getLast? _ entry.getLast_pieces
  have kept : ([entry.last].filter fun piece => !piece.isEmpty) = [entry.last] := by
    simp [real]
  rw [components, ← whole, List.filter_append, kept, List.getLast?_append, List.getLast?_singleton]
  rfl

/-- A call on an entry, followed on the types of the nodes. -/
theorem transmuteToRamfs_follows {vnodes : Vnodes} {root : Nat} {node : List Str → Option Nat}
    (tree : RamfsTree vnodes root node) (more : List UInt8) :
    Follows root vnodes node
      (place (headerKind entry.typ) (decide (entry.data.length = 0)) entry.last []
        entry.components (kindsOf vnodes node))
      (transmuteLoop (entry.bytes ++ more) entry.typ entry.data.length entry.last
        entry.components root vnodes) := by
  apply transmuteLoop_follows entry.last _ entry.components entry.components_nonempty tree
    tree.root_eq
  rw [Entry.bytes, List.length_append, List.length_append, List.length_append]
  omega

end UstarEntry

namespace UstarEntry

variable (entry : UstarEntry)

theorem direct_of_parentsMade {more : List UInt8} {vnodes vnodes' : Vnodes} {root fz : Nat}
    {node : List Str → Option Nat} (tree : RamfsTree vnodes root node) {kind : VType}
    (isKind : headerKind entry.typ = some kind) (missing : node entry.components = none)
    (called : transmuteToRamfs (entry.bytes ++ more) root vnodes = .ok (fz, vnodes'))
    (made : ParentsMade vnodes vnodes' root entry.components kind) :
    entry.name.length < 100 ∧
      Direct (kindsOf vnodes node) [] entry.components entry.last kind := by
  have short : entry.name.length < 100 := by
    by_contra full
    rcases entry.transmuteToRamfs_full full more root vnodes with ⟨message, panics⟩
    rw [panics] at called
    contradiction
  refine ⟨short, ?_⟩
  have follows := entry.transmuteToRamfs_follows tree more
  rw [isKind] at follows
  rw [entry.transmuteToRamfs_eq short] at called
  cases result : transmuteLoop (entry.bytes ++ more) entry.typ entry.data.length entry.last
      entry.components root vnodes with
  | error message =>
      rw [result] at called
      contradiction
  | ok after =>
      rw [result] at called follows
      cases called
      cases placed : place (some kind) (decide (entry.data.length = 0)) entry.last []
          entry.components (kindsOf vnodes node) with
      | none =>
          rw [placed] at follows
          exact follows.elim
      | some kinds' =>
          rw [placed] at follows
          rcases follows with ⟨node', tree', rfl, _extended⟩
          exact direct_of_placed placed entry.components_nonempty
            (kindsOf_eq_none_iff.mpr missing) (made.kindsOf_target tree' entry.components_nonempty)

end UstarEntry

/-- A call on a header whose path is missing makes the missing parts of the path and nothing
else exactly when the name does not fill its field and no missing part before the end has
the text of the last one. -/
theorem missing_parents_iff (entry : UstarEntry) (more : List UInt8) {vnodes : Vnodes}
    {root : Nat} {node : List Str → Option Nat} (tree : RamfsTree vnodes root node) {kind : VType}
    (isKind : headerKind entry.typ = some kind) (real : kind = .vreg → entry.data ≠ [])
    (noFile : ∀ front id, front <+: entry.components → node front = some id →
      (vnodes.get id).vData.kind = .vdir)
    (missing : node entry.components = none) :
    (∃ vnodes', transmuteToRamfs (entry.bytes ++ more) root vnodes =
        .ok (entry.data.length, vnodes') ∧
      ParentsMade vnodes vnodes' root entry.components kind) ↔
      entry.name.length < 100 ∧
        if entry.last = [] then kind = .vdir
        else ∀ front, front ++ [entry.last] <+: entry.components →
          front ++ [entry.last] ≠ entry.components → node (front ++ [entry.last]) ≠ none := by
  have follows := entry.transmuteToRamfs_follows tree more
  rw [isKind] at follows
  have direct : Direct (kindsOf vnodes node) [] entry.components entry.last kind ↔
      if entry.last = [] then kind = .vdir
      else ∀ front, front ++ [entry.last] <+: entry.components →
        front ++ [entry.last] ≠ entry.components → node (front ++ [entry.last]) ≠ none := by
    simp only [Direct, List.nil_append, ne_eq, kindsOf_eq_none_iff]
  rw [← direct]
  constructor
  · intro result
    rcases result with ⟨vnodes', called, made⟩
    exact entry.direct_of_parentsMade tree isKind missing called made
  · intro both
    rcases both with ⟨short, isDirect⟩
    have some_ : entry.components ≠ [] := by
      intro nothing
      rw [nothing, tree.root_eq] at missing
      contradiction
    have rootDir : kindsOf vnodes node [] = some .vdir := by
      rw [kindsOf, tree.root_eq, Option.map_some, noFile [] root List.nil_prefix tree.root_eq]
    have noFileKinds : ∀ front, front <+: entry.components →
        kindsOf vnodes node ([] ++ front) ≠ some .vreg := by
      intro front initial isFile
      rcases Option.map_eq_some_iff.mp isFile with ⟨id, found, isReg⟩
      rw [noFile front id initial found] at isReg
      contradiction
    have notHollow : ¬(kind = .vreg ∧ decide (entry.data.length = 0) = true) := by
      intro both
      exact real both.1 (List.length_eq_zero_iff.mp (of_decide_eq_true both.2))
    rcases place_filled notHollow some_
      { nonempty := entry.components_nonempty
        ends := entry.getLast_components
        noFile := noFileKinds
        isDir := rootDir
        missing := kindsOf_eq_none_iff.mpr missing
        direct := isDirect } with ⟨kinds', placed, filled⟩
    rw [placed] at follows
    rw [entry.transmuteToRamfs_eq short]
    cases result : transmuteLoop (entry.bytes ++ more) entry.typ entry.data.length entry.last
        entry.components root vnodes with
    | error message =>
        rw [result] at follows
        exact follows.elim
    | ok vnodes' =>
        rw [result] at follows
        rcases follows with ⟨node', tree', rfl, extended⟩
        exact ⟨vnodes', rfl,
          filled.parentsMade tree tree' extended entry.components_nonempty missing⟩

/-! ### Two components -/

/-- The directory of one letter in the directory `a`. -/
def directoryIn (letter : UInt8) (plain : plainPath ([[97]] ++ [[letter]]) = true) : Member :=
  .plain [[97]] [letter] .dir blankRest plain (show 3 < 100 by decide) Content.dir_fits

def directoryAB : Member := directoryIn 98 rfl

def directoryAA : Member := directoryIn 97 rfl

/-- The directory `a/b` and its missing parent `a` are made in an empty root. -/
theorem missing_parents_ab :
    ∃ vnodes', transmuteToRamfs (directoryAB.ustarEntry.bytes ++ []) 0 emptyRoot =
        .ok (0, vnodes') ∧
      ParentsMade emptyRoot vnodes' 0 [[97], [98]] .vdir := by
  have components : directoryAB.ustarEntry.components = [[97], [98]] :=
    directoryAB.ustarEntry_components
  have last : directoryAB.ustarEntry.last = [98] := directoryAB.ustarEntry_last
  have isKind : headerKind directoryAB.ustarEntry.typ = some .vdir := by
    rw [directoryAB.ustarEntry_typ]
    rfl
  have exactly := missing_parents_iff directoryAB.ustarEntry [] RamfsTree.emptyRoot isKind
    (fun isReg => by cases isReg) (fun _ _ _ _ => rfl) (by rw [components]; rfl)
  rw [components, last] at exactly
  apply exactly.mpr
  refine ⟨show 3 < 100 by decide, ?_⟩
  rw [if_neg (List.cons_ne_nil _ _)]
  intro front initial proper
  exfalso
  cases front with
  | nil => exact absurd (List.cons_prefix_cons.mp initial).1 (by decide)
  | cons first rest =>
      cases rest with
      | nil =>
          rcases initial with ⟨back, split⟩
          cases split
          exact proper rfl
      | cons second rest =>
          have short := initial.length_le
          simp at short

/-- The directory `a/a` in an empty root: the walk takes the first `a` for the last
component, makes it, and looks for the second `a` beside it. -/
theorem repeated_component_lost :
    directoryAA.ustarEntry.components = [[97], [97]] ∧
      headerKind directoryAA.ustarEntry.typ = some .vdir ∧
      transmuteToRamfs (directoryAA.ustarEntry.bytes ++ []) 0 emptyRoot =
        .ok (0, (mkdir emptyRoot 0 [97]).2) ∧
      lookup (mkdir emptyRoot 0 [97]).2 0 [97, slash, 97] = none ∧
      ¬∃ vnodes', transmuteToRamfs (directoryAA.ustarEntry.bytes ++ []) 0 emptyRoot =
          .ok (0, vnodes') ∧
        ParentsMade emptyRoot vnodes' 0 [[97], [97]] .vdir := by
  have components : directoryAA.ustarEntry.components = [[97], [97]] :=
    directoryAA.ustarEntry_components
  have last : directoryAA.ustarEntry.last = [97] := directoryAA.ustarEntry_last
  have isKind : headerKind directoryAA.ustarEntry.typ = some .vdir := by
    rw [directoryAA.ustarEntry_typ]
    rfl
  have short : directoryAA.ustarEntry.name.length < 100 := show 3 < 100 by decide
  have returns : transmuteToRamfs (directoryAA.ustarEntry.bytes ++ []) 0 emptyRoot =
      .ok (0, (mkdir emptyRoot 0 [97]).2) := by
    rw [directoryAA.ustarEntry.transmuteToRamfs_eq short, components, last,
      directoryAA.ustarEntry_typ]
    rfl
  refine ⟨components, isKind, returns, rfl, ?_⟩
  intro result
  rcases result with ⟨vnodes', called, made⟩
  rw [← components] at made
  have direct := (directoryAA.ustarEntry.direct_of_parentsMade RamfsTree.emptyRoot isKind
    (by rw [components]; rfl) called made).2
  rw [components, last, Direct, if_neg (List.cons_ne_nil _ _)] at direct
  apply direct []
  · exact List.cons_prefix_cons.mpr ⟨rfl, List.nil_prefix⟩
  · intro same
    cases same
  · rfl

end NyauxKernel.Vfs
