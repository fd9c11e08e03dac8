/-
The headers that `load_ramfs_with_ustar_tar` reads, by their offsets in the archive.

They are the headers of all entries unless a call panics, or the loader takes 1024 bytes of
an entry for the end of the archive because they add up to zero modulo 256.  Whether a call
panics depends on the name of its entry and on the types of the nodes made so far, so a run
of the loader can be followed on types alone.
-/

import NyauxKernel.Vfs.MissingParents

namespace NyauxKernel.Vfs

open ExceptFold

/-! ### The entries of a run -/

namespace UstarEntry

/-- What an entry makes of the types of the nodes, if its call returns: the name has room for
a NUL, nothing is to be made below a regular file, and the node is no empty file. -/
def placed (entry : UstarEntry) (kinds : Kinds) : Option Kinds :=
  if entry.name.length < 100 then
    place (headerKind entry.typ) (decide (entry.data.length = 0)) entry.last []
      entry.components kinds
  else none

/-- The types of the nodes after some entries. -/
def placedAll (entries : List UstarEntry) (kinds : Kinds) : Option Kinds :=
  entries.foldlM (fun kinds entry => entry.placed kinds) kinds

theorem placedAll_cons (entry : UstarEntry) (entries : List UstarEntry) (kinds : Kinds) :
    placedAll (entry :: entries) kinds = (entry.placed kinds).bind (placedAll entries) := by
  rw [placedAll, List.foldlM_cons]
  rfl

/-- A call on an entry returns exactly when the entry can be placed. -/
theorem call_cases (entry : UstarEntry) (more : List UInt8) {vnodes : Vnodes} {root : Nat}
    {node : List Str → Option Nat} (tree : RamfsTree vnodes root node) :
    (entry.placed (kindsOf vnodes node) = none ∧
      ∃ message, transmuteToRamfs (entry.bytes ++ more) root vnodes = .error message) ∨
    ∃ fz vnodes' node', transmuteToRamfs (entry.bytes ++ more) root vnodes = .ok (fz, vnodes') ∧
      RamfsTree vnodes' root node' ∧
      entry.placed (kindsOf vnodes node) = some (kindsOf vnodes' node') := by
  rw [placed]
  by_cases short : entry.name.length < 100
  · rw [if_pos short, entry.transmuteToRamfs_eq short]
    have follows := entry.transmuteToRamfs_follows tree more
    cases result : transmuteLoop (entry.bytes ++ more) entry.typ entry.data.length entry.last
        entry.components root vnodes with
    | error message =>
        rw [result] at follows
        cases made : place (headerKind entry.typ) (decide (entry.data.length = 0)) entry.last []
            entry.components (kindsOf vnodes node) with
        | none => exact Or.inl ⟨rfl, message, rfl⟩
        | some kinds' =>
            rw [made] at follows
            exact follows.elim
    | ok vnodes' =>
        rw [result] at follows
        cases made : place (headerKind entry.typ) (decide (entry.data.length = 0)) entry.last []
            entry.components (kindsOf vnodes node) with
        | none =>
            rw [made] at follows
            exact follows.elim
        | some kinds' =>
            rw [made] at follows
            rcases follows with ⟨node', tree', same, _extended⟩
            exact Or.inr ⟨_, vnodes', node', rfl, tree', congrArg some same.symm⟩
  · rw [if_neg short]
    exact Or.inl ⟨rfl, entry.transmuteToRamfs_full short more root vnodes⟩

end UstarEntry

/-- The types of the nodes of an empty root. -/
def rootKinds : Kinds := fun path => if path = [] then some .vdir else none

theorem kindsOf_emptyRoot :
    kindsOf emptyRoot (fun path => if path = [] then some 0 else none) = rootKinds := by
  funext path
  rw [kindsOf, rootKinds]
  split
  · rfl
  · rfl

theorem Member.placed_ustarEntry (member : Member) (kinds : Kinds) :
    member.ustarEntry.placed kinds =
      place (headerKind member.content.typ) (decide (member.content.data.length = 0)) member.name
        [] member.path kinds := by
  have short : member.ustarEntry.name.length < 100 := member.short
  rw [UstarEntry.placed, if_pos short, member.ustarEntry_typ, member.ustarEntry_components,
    member.ustarEntry_last]
  rfl

/-! ### Offsets -/

/-- The offsets of entries that start at `c`. -/
def Entry.offsets : Nat → List Entry → List Nat
  | _, [] => []
  | c, entry :: entries => c :: offsets (c + entry.bytes.length) entries

/-- The offsets at which `load_ramfs_with_ustar_tar` calls `transmute_to_ramfs`. -/
def loadOffsets (d : List UInt8) (root : Nat) (vnodes : Vnodes) : List Nat :=
  loadTrace d root (d.length + 1) d 0 vnodes

/-- The loop calls `transmute_to_ramfs` before it does anything else. -/
theorem loadTrace_first {d : List UInt8} {c : Nat} (root fuel : Nat) (ptr : List UInt8)
    (vnodes : Vnodes) (going : c ≠ d.length) :
    loadTrace d root (fuel + 1) ptr c vnodes ≠ [] := by
  rw [loadTrace, if_neg going]
  split
  · exact List.cons_ne_nil _ _
  · exact List.cons_ne_nil _ _

/-- The entries before the last one have ustar headers and can be placed one after another,
and the bytes from no later entry on are taken for the end of the archive. -/
structure Clear (entries : List Entry) (more : Nat) (kinds : Kinds) : Prop where
  placed : ∃ before : List UstarEntry, before.map UstarEntry.toEntry = entries.dropLast ∧
    (UstarEntry.placedAll before kinds).isSome
  goesOn : ∀ later, later <:+ entries.tail → later ≠ [] →
    ((Entry.archive later more).take 1024).sum ≠ 0

section Run

variable {more : Nat} {kinds : Kinds}

theorem clear_cons {entry next : Entry} {rest : List Entry} :
    Clear (entry :: next :: rest) more kinds ↔
      ∃ (ustar : UstarEntry) (kinds' : Kinds), ustar.toEntry = entry ∧
        ustar.placed kinds = some kinds' ∧
        ((Entry.archive (next :: rest) more).take 1024).sum ≠ 0 ∧
        Clear (next :: rest) more kinds' := by
  constructor
  · rintro ⟨⟨before, entries, all⟩, goesOn⟩
    cases before with
    | nil => cases entries
    | cons ustar before =>
        rcases List.cons.inj entries with ⟨first, others⟩
        rw [UstarEntry.placedAll_cons] at all
        cases here : ustar.placed kinds with
        | none =>
            rw [here] at all
            contradiction
        | some kinds' =>
            rw [here] at all
            exact ⟨ustar, kinds', first, here,
              goesOn _ List.suffix_rfl (List.cons_ne_nil _ _), ⟨before, others, all⟩,
              fun later suffix => goesOn later (suffix.trans (List.suffix_cons next rest))⟩
  · rintro ⟨ustar, kinds', first, here, boundary, ⟨before, others, all⟩, goesOn⟩
    constructor
    case placed =>
      refine ⟨ustar :: before, ?_, ?_⟩
      · rw [List.map_cons, first, others]
        rfl
      · rw [UstarEntry.placedAll_cons, here]
        exact all
    case goesOn =>
      intro later suffix some_
      rcases List.suffix_cons_iff.mp suffix with whole | later
      · rw [whole]
        exact boundary
      · exact goesOn _ later some_

theorem clear_single (entry : Entry) : Clear [entry] more kinds where
  placed := ⟨[], rfl, rfl⟩
  goesOn := fun _ suffix some_ => absurd (List.suffix_nil.mp suffix) some_

theorem loadTrace_offsets {d : List UInt8} (root : Nat) (entries : List Entry) (entry : Entry)
    (c fuel : Nat) {vnodes : Vnodes} {node : List Str → Option Nat}
    (tree : RamfsTree vnodes root node)
    (here : d.drop c = Entry.archive (entry :: entries) more) (enough : entries.length < fuel) :
    loadTrace d root fuel (d.drop c) c vnodes = Entry.offsets c (entry :: entries) ↔
      Clear (entry :: entries) more (kindsOf vnodes node) := by
  induction entries generalizing entry c fuel vnodes node with
  | nil =>
      rcases Nat.exists_eq_succ_of_ne_zero (Nat.ne_of_gt enough) with ⟨fuel, rfl⟩
      refine iff_of_true ?_ (clear_single entry)
      rw [loadTrace_entry root fuel vnodes here]
      cases transmuteToRamfs (entry.bytes ++ Entry.archive [] more) root vnodes with
      | error message => rfl
      | ok found =>
          dsimp only
          rw [if_pos (Entry.archive_nil_sum more)]
          rfl
  | cons next entries inductionHypothesis =>
      rcases Nat.exists_eq_succ_of_ne_zero (Nat.ne_of_gt (Nat.zero_lt_of_lt enough)) with
        ⟨fuel, rfl⟩
      have fewer : entries.length < fuel := by
        rw [List.length_cons] at enough
        omega
      have skipped : [c] ≠ Entry.offsets c (entry :: next :: entries) := by
        intro same
        cases (List.cons.inj same).2
      rw [loadTrace_entry root fuel vnodes here, clear_cons]
      cases call : transmuteToRamfs (entry.bytes ++ Entry.archive (next :: entries) more) root
          vnodes with
      | error message =>
          refine iff_of_false skipped ?_
          rintro ⟨ustar, kinds', rfl, placed, _⟩
          rcases ustar.call_cases (Entry.archive (next :: entries) more) tree with
            ⟨panics, _⟩ | ⟨fz, made, node', returns, _⟩
          · rw [placed] at panics
            contradiction
          · rw [call] at returns
            contradiction
      | ok found =>
          rcases found with ⟨fz, made⟩
          have placed (ustar : UstarEntry) (same : ustar.toEntry = entry) :
              ∃ node', RamfsTree made root node' ∧
                ustar.placed (kindsOf vnodes node) = some (kindsOf made node') := by
            rcases ustar.call_cases (Entry.archive (next :: entries) more) tree with
              ⟨_, message, panics⟩ | ⟨_, made', node', returns, tree', kinds'⟩
            · rw [same, call] at panics
              contradiction
            · rw [same, call] at returns
              cases returns
              exact ⟨node', tree', kinds'⟩
          by_cases stops : ((Entry.archive (next :: entries) more).take 1024).sum = 0
          · dsimp only
            rw [if_pos stops]
            refine iff_of_false skipped ?_
            rintro ⟨_, _, _, _, goesOn, _⟩
            exact goesOn stops
          · have later (node' : List Str → Option Nat) (tree' : RamfsTree made root node') :=
              inductionHypothesis next (c + entry.bytes.length) fuel tree' (drop_entry here) fewer
            dsimp only
            rw [if_neg stops]
            constructor
            · intro same
              rcases entry.ustar_of_returns call with ⟨ustar, isEntry⟩
              rcases placed ustar isEntry with ⟨node', tree', kinds'⟩
              exact ⟨ustar, _, isEntry, kinds', stops,
                (later node' tree').mp (List.cons.inj same).2⟩
            · rintro ⟨ustar, kinds', isEntry, here, _, clear⟩
              rcases placed ustar isEntry with ⟨node', tree', kinds''⟩
              rw [here] at kinds''
              cases kinds''
              exact congrArg (c :: ·) ((later node' tree').mpr clear)

end Run

/-- The loader reads exactly the headers of the entries if there is an entry, the entries
before the last one have ustar headers and can be placed one after another, and no 1024 bytes
from a later entry on add up to zero modulo 256.  Otherwise it reads a zero block as a header,
or skips an entry. -/
theorem loader_offsets_exact_iff (entries : List Entry) (more : Nat) {root : Nat}
    {vnodes : Vnodes} {node : List Str → Option Nat} (tree : RamfsTree vnodes root node) :
    loadOffsets (Entry.archive entries more) root vnodes = Entry.offsets 0 entries ↔
      entries ≠ [] ∧ Clear entries more (kindsOf vnodes node) := by
  cases entries with
  | nil =>
      have going : 0 ≠ (Entry.archive [] more).length := by
        rw [Entry.archive_length]
        omega
      refine iff_of_false (loadTrace_first root _ _ vnodes going) ?_
      rintro ⟨present, _⟩
      exact present rfl
  | cons entry entries =>
      have enough : entries.length < (Entry.archive (entry :: entries) more).length + 1 := by
        have bound := Entry.length_le (entry :: entries) more
        rw [List.length_cons] at bound
        omega
      have whole : (Entry.archive (entry :: entries) more).drop 0 =
          Entry.archive (entry :: entries) more := List.drop_zero
      have offsets := loadTrace_offsets root entries entry 0 _ tree whole enough
      rw [List.drop_zero] at offsets
      rw [loadOffsets, offsets]
      exact (and_iff_right (List.cons_ne_nil _ _)).symm

/-! ### Archives of directories -/

/-- The sum of the bytes of a header, with spaces in place of the checksum. -/
def headerSum (header : List UInt8) : Nat :=
  ((header.take 148 ++ (List.replicate 8 32 ++ header.drop 156)).map UInt8.toNat).sum

/-- The checksum field holds the sum in six octal digits. -/
def Checksummed (header : List UInt8) : Prop :=
  octalValue ((header.drop 148).take 6) = headerSum header

instance (header : List UInt8) : Decidable (Checksummed header) :=
  inferInstanceAs (Decidable (_ = _))

/-- Header bytes with the permissions and the checksum in octal, of the user 0 and last
changed at time 0. -/
def plainRest (mode checksum : List UInt8) (modeDigits : mode.length = 3)
    (digits : checksum.length = 6) : HeaderRest where
  owner := ([48, 48, 48, 48] ++ (mode ++ [0])) ++
    ((List.replicate 7 48 ++ [0]) ++ (List.replicate 7 48 ++ [0]))
  stamp := (List.replicate 11 48 ++ [0]) ++ (checksum ++ [0, 32])
  linkName := blankRest.linkName
  trailer := [48, 48] ++ List.replicate 247 0
  owner_length := by simp [modeDigits]
  stamp_length := by simp [digits]
  linkName_length := blankRest.linkName_length
  trailer_length := rfl

/-- A member with the name `x`. -/
def memberX (content : Content) (rest : HeaderRest) (sizeFits : content.data.length < 8 ^ 11) :
    Member :=
  .plain [] [120] content rest rfl (show 1 < 100 by decide) sizeFits

def directoryX : Member :=
  memberX .dir (plainRest [55, 53, 53] [48, 48, 54, 49, 51, 53] rfl rfl) Content.dir_fits

def directoryFf : Member :=
  .plain [] [102, 102] .dir (plainRest [55, 53, 53] [48, 48, 54, 50, 54, 49] rfl rfl) rfl
    (show 2 < 100 by decide) Content.dir_fits

/-- A directory has a header and no data. -/
theorem directory_offsets (first : Member) (isDirectory : first.content = .dir) (second : Entry) :
    Entry.offsets 0 [first.entry, second] = [0, 512] := by
  have size : first.entry.bytes.length = 512 := by
    have empty : first.entry.data = [] := congrArg Content.data isDirectory
    rw [Entry.bytes_length, empty]
    decide
  rw [Entry.offsets, Entry.offsets, Entry.offsets, size]

/-- Both headers of the directory `ff` and then `x` are read. -/
theorem loader_offsets_exact_directories :
    loadOffsets (Entry.archive [directoryFf.entry, directoryX.entry] 0) 0 emptyRoot = [0, 512] := by
  rw [← directory_offsets directoryFf rfl directoryX.entry]
  apply (loader_offsets_exact_iff [directoryFf.entry, directoryX.entry] 0
    RamfsTree.emptyRoot).mpr
  refine ⟨List.cons_ne_nil _ _, ?_⟩
  rw [kindsOf_emptyRoot]
  constructor
  case placed =>
    refine ⟨[directoryFf.ustarEntry], rfl, ?_⟩
    rw [UstarEntry.placedAll_cons, Member.placed_ustarEntry]
    decide +kernel
  case goesOn =>
    intro later suffix some_
    rcases List.suffix_cons_iff.mp suffix with whole | nothing
    · rw [whole]
      decide +kernel
    · exact absurd (List.suffix_nil.mp nothing) some_

/-- The directory `x` and then `ff`: the bytes of the second header add up to 3328, which is
zero modulo 256, and the loader stops before it. -/
theorem second_directory_skipped :
    (∀ entry ∈ [directoryX.entry, directoryFf.entry], Checksummed entry.header) ∧
    Entry.offsets 0 [directoryX.entry, directoryFf.entry] = [0, 512] ∧
    loadOffsets (Entry.archive [directoryX.entry, directoryFf.entry] 0) 0 emptyRoot = [0] := by
  refine ⟨?_, directory_offsets directoryX rfl _, ?_⟩
  · intro entry member
    rcases List.mem_cons.mp member with rfl | member
    · decide +kernel
    · rw [List.mem_singleton.mp member]
      decide +kernel
  · have placed : directoryX.ustarEntry.placed rootKinds ≠ none := by
      rw [Member.placed_ustarEntry]
      decide +kernel
    have stops : ((Entry.archive [directoryFf.entry] 0).take 1024).sum = 0 := by decide +kernel
    have round := loadTrace_entry 0 (Entry.archive [directoryX.entry, directoryFf.entry] 0).length
      emptyRoot (List.drop_zero (l := Entry.archive [directoryX.entry, directoryFf.entry] 0))
    rcases directoryX.ustarEntry.call_cases (Entry.archive [directoryFf.entry] 0)
      RamfsTree.emptyRoot with ⟨panics, _⟩ | ⟨fz, made, node, call, _⟩
    · rw [kindsOf_emptyRoot] at panics
      exact absurd panics placed
    · rw [List.drop_zero, show transmuteToRamfs (directoryX.entry.bytes ++ _) 0 emptyRoot = _
        from call] at round
      dsimp only at round
      rw [if_pos stops] at round
      exact round

end NyauxKernel.Vfs
