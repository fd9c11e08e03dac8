/-
The archives on which `load_ramfs_with_ustar_tar` returns.

A run of the loader over an empty root is followed on the types of the nodes.
-/

import NyauxKernel.Vfs.LoaderOffsets

namespace NyauxKernel.Vfs

open ExceptFold

/-! ### The entries of a run -/

namespace UstarEntry

def archive (entries : List UstarEntry) (more : Nat) : List UInt8 :=
  Entry.archive (entries.map UstarEntry.toEntry) more

/-- The entries the loader gets to: it stops where the next 1024 bytes add up to zero
modulo 256. -/
def reached (more : Nat) : List UstarEntry → List UstarEntry
  | [] => []
  | entry :: entries =>
      if ((archive entries more).take 1024).sum = 0 then [entry]
      else entry :: reached more entries

end UstarEntry

/-! ### The loop -/

/-- One round of the loop on an entry with a header. -/
theorem loadLoop_ustarEntry {d : List UInt8} {c more : Nat} {entry : UstarEntry}
    {entries : List UstarEntry} (root fuel : Nat) (vnodes : Vnodes)
    (here : d.drop c = UstarEntry.archive (entry :: entries) more) :
    loadLoop d root (fuel + 1) (d.drop c) c vnodes =
      match transmuteToRamfs (entry.bytes ++ UstarEntry.archive entries more) root vnodes with
      | .error message => .error message
      | .ok (_, made) =>
          if ((UstarEntry.archive entries more).take 1024).sum = 0 then .ok made
          else loadLoop d root fuel (d.drop (c + entry.bytes.length))
            (c + entry.bytes.length) made :=
  loadLoop_entry root fuel vnodes here

theorem loadLoop_returns_iff {d : List UInt8} {more : Nat} (root : Nat)
    (entries : List UstarEntry) (entry : UstarEntry) (c fuel : Nat) {vnodes : Vnodes}
    {node : List Str → Option Nat} (tree : RamfsTree vnodes root node)
    (here : d.drop c = UstarEntry.archive (entry :: entries) more)
    (enough : entries.length < fuel) :
    (∃ vnodes', loadLoop d root fuel (d.drop c) c vnodes = .ok vnodes') ↔
      (UstarEntry.placedAll (UstarEntry.reached more (entry :: entries))
        (kindsOf vnodes node)).isSome := by
  induction entries generalizing entry c fuel vnodes node with
  | nil =>
      rcases Nat.exists_eq_succ_of_ne_zero (Nat.ne_of_gt enough) with ⟨fuel, rfl⟩
      have stops : ((UstarEntry.archive [] more).take 1024).sum = 0 := Entry.archive_nil_sum more
      rw [loadLoop_ustarEntry root fuel vnodes here, UstarEntry.reached, if_pos stops]
      rcases entry.call_cases (UstarEntry.archive [] more) tree with
        ⟨panics, message, call⟩ | ⟨fz, vnodes', node', call, _, returns⟩
      · rw [call, UstarEntry.placedAll_cons, panics]
        simp
      · rw [call, UstarEntry.placedAll_cons, returns]
        dsimp only
        rw [if_pos stops]
        exact iff_of_true ⟨vnodes', rfl⟩ rfl
  | cons next entries inductionHypothesis =>
      rcases Nat.exists_eq_succ_of_ne_zero (Nat.ne_of_gt (Nat.zero_lt_of_lt enough)) with
        ⟨fuel, rfl⟩
      have fewer : entries.length < fuel := by
        rw [List.length_cons] at enough
        omega
      rw [loadLoop_ustarEntry root fuel vnodes here, UstarEntry.reached]
      rcases entry.call_cases (UstarEntry.archive (next :: entries) more) tree with
        ⟨panics, message, call⟩ | ⟨fz, vnodes', node', call, tree', returns⟩
      · rw [call]
        apply iff_of_false
        · intro returned
          rcases returned with ⟨vnodes', impossible⟩
          contradiction
        · split
          · simp [UstarEntry.placedAll_cons, panics]
          · simp [UstarEntry.placedAll_cons, panics]
      · rw [call]
        dsimp only
        by_cases stops : ((UstarEntry.archive (next :: entries) more).take 1024).sum = 0
        · rw [if_pos stops, if_pos stops, UstarEntry.placedAll_cons, returns]
          exact iff_of_true ⟨vnodes', rfl⟩ rfl
        · rw [if_neg stops, if_neg stops, UstarEntry.placedAll_cons, returns]
          exact inductionHypothesis next _ fuel tree' (drop_entry here) fewer

/-- The loader returns on an archive exactly when every entry it gets to can be placed after
those before it. -/
theorem initramfs_returns_iff (entries : List UstarEntry) (some_ : entries ≠ []) (more : Nat)
    (path : Str) (named : tarPattern <:+: path) (others : List LimineFile) :
    (∃ vnodes, loadRamfsWithUstarTar
        (some ({ path := path, data := UstarEntry.archive entries more } :: others)) (some []) 0
        emptyRoot = .ok vnodes) ↔
      (UstarEntry.placedAll (UstarEntry.reached more entries) rootKinds).isSome := by
  cases entries with
  | nil => exact absurd rfl some_
  | cons entry entries =>
      have enough : entries.length < (UstarEntry.archive (entry :: entries) more).length + 1 := by
        have bound := Entry.length_le ((entry :: entries).map UstarEntry.toEntry) more
        rw [List.length_map, List.length_cons] at bound
        exact Nat.lt_succ_of_lt bound
      have whole : (UstarEntry.archive (entry :: entries) more).drop 0 =
          UstarEntry.archive (entry :: entries) more := List.drop_zero
      have loop := loadLoop_returns_iff 0 entries entry 0 _ RamfsTree.emptyRoot whole enough
      rw [List.drop_zero, kindsOf_emptyRoot] at loop
      simp only [loadRamfsWithUstarTar, List.head?_cons, if_pos named]
      exact loop

/-! ### Two directories -/

/-- An archive of the directories `a/b` and `x`. -/
theorem initramfs_returns_directories :
    ∃ vnodes, loadRamfsWithUstarTar
      (some [{ path := tarPattern
               data := UstarEntry.archive [directoryAB.ustarEntry, directoryX.ustarEntry] 0 }])
      (some []) 0 emptyRoot = .ok vnodes := by
  apply (initramfs_returns_iff [directoryAB.ustarEntry, directoryX.ustarEntry]
    (List.cons_ne_nil _ _) 0 tarPattern List.infix_rfl []).mpr
  have goesOn : ¬((UstarEntry.archive [directoryX.ustarEntry] 0).take 1024).sum = 0 := by
    decide +kernel
  rw [UstarEntry.reached, if_neg goesOn]
  simp only [UstarEntry.placedAll, UstarEntry.reached, ite_self, List.foldlM_cons,
    Member.placed_ustarEntry]
  decide +kernel

/-! ### An empty file -/

/-- The empty regular file `x` with mode 644 of the user 0. -/
def emptyFile : UstarEntry :=
  (memberX (.file []) (plainRest [54, 52, 52] [48, 48, 54, 49, 50, 53] rfl rfl)
    (Nat.pow_pos (by decide))).ustarEntry

/-- The loader panics on the archive of one empty file. -/
theorem empty_file_panics :
    Checksummed emptyFile.header ∧ emptyFile.typ = ustarFile ∧
      emptyFile.components = [[120]] ∧ emptyFile.data = [] ∧
      loadRamfsWithUstarTar
        (some [{ path := tarPattern, data := UstarEntry.archive [emptyFile] 0 }]) (some []) 0
        emptyRoot = .error "?" := by
  have short : emptyFile.name.length < 100 := show 1 < 100 by decide
  have isFile : emptyFile.typ = ustarFile := Member.ustarEntry_typ _
  have components : emptyFile.components = [[120]] := Member.ustarEntry_components _
  have last : emptyFile.last = [120] := Member.ustarEntry_last _
  refine ⟨by decide +kernel, isFile, components, rfl, ?_⟩
  have whole : (UstarEntry.archive [emptyFile] 0).drop 0 = UstarEntry.archive [emptyFile] 0 :=
    List.drop_zero
  have round := loadLoop_ustarEntry 0 (UstarEntry.archive [emptyFile] 0).length emptyRoot whole
  rw [List.drop_zero, emptyFile.transmuteToRamfs_eq short, isFile, components, last] at round
  simp only [loadRamfsWithUstarTar, List.head?_cons, if_pos List.infix_rfl]
  exact round

end NyauxKernel.Vfs
