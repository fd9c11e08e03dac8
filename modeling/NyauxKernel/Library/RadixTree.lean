/-
Radix trees by their nodes.

A node is known by its level and by its stem, the leading digits that the keys
below it share: the node of level `l` on the way to `key` has the stem
`key / fanout ^ (l + 1)`, and lies below the node of the next level whose stem is
one digit shorter.
-/

import Mathlib.Algebra.Group.Nat.Defs
import Mathlib.Data.Finset.Card
import Mathlib.Data.Finset.Union
import Mathlib.Data.Nat.Basic

namespace RadixTree

variable {α : Type} {fanout depth : Nat} {root : α}

/-- The stem of the node of level `level` on the way to `key`. -/
def stem (fanout level key : Nat) : Nat := key / fanout ^ (level + 1)

theorem stem_zero (fanout key : Nat) : stem fanout 0 key = key / fanout := by
  rw [stem, Nat.zero_add, Nat.pow_one]

theorem stem_succ (fanout level key : Nat) :
    stem fanout (level + 1) key = stem fanout level key / fanout := by
  rw [stem, stem, Nat.div_div_eq_div_mul, ← Nat.pow_succ]

variable {key level place : Nat}

theorem stem_eq_zero (small : key < fanout ^ (level + 1)) : stem fanout level key = 0 :=
  Nat.div_eq_of_lt small

/-- `nodes` are those of a tree of nodes of levels up to `depth`: one root, every
other node below one of the next level, and no node in two places. -/
structure Tree (fanout depth : Nat) (root : α) (nodes : Nat → Nat → Option α) : Prop where
  top : ∀ place, nodes depth place = if place = 0 then some root else none
  height : ∀ {level place : Nat} {node : α}, nodes level place = some node → level ≤ depth
  parent : ∀ {level place : Nat} {node : α}, level < depth → nodes level place = some node →
    ∃ above, nodes (level + 1) (place / fanout) = some above
  injective : ∀ {level place level' place' : Nat} {node : α}, nodes level place = some node →
    nodes level' place' = some node → level = level' ∧ place = place'

/-- A node put at a place. -/
def insert (nodes : Nat → Nat → Option α) (level place : Nat) (node : α) :
    Nat → Nat → Option α :=
  fun level' place' => if level' = level ∧ place' = place then some node else nodes level' place'

theorem insert_same (nodes : Nat → Nat → Option α) (level place : Nat) (node : α) :
    insert nodes level place node level place = some node :=
  if_pos ⟨rfl, rfl⟩

variable {level' place' : Nat} {nodes nodes' : Nat → Nat → Option α} {node other : α}
  {places : Finset (Nat × Nat)}

theorem insert_other (nodes : Nat → Nat → Option α) (node : α)
    (different : ¬(level' = level ∧ place' = place)) :
    insert nodes level place node level' place' = nodes level' place' :=
  if_neg different

theorem insert_keeps (absent : nodes level place = none)
    (present : nodes level' place' = some other) :
    insert nodes level place node level' place' = some other := by
  rw [insert_other, present]
  rintro ⟨rfl, rfl⟩
  rw [absent] at present
  contradiction

theorem of_insert_eq_some (present : insert nodes level place node level' place' = some other) :
    (level' = level ∧ place' = place ∧ other = node) ∨ nodes level' place' = some other := by
  by_cases same : level' = level ∧ place' = place
  · left
    rw [insert, if_pos same] at present
    exact ⟨same.1, same.2, (Option.some.inj present).symm⟩
  · right
    rwa [insert_other _ _ same] at present

/-- A new node below one that is there. -/
theorem Tree.insert (tree : Tree fanout depth root nodes) {above : α} (low : level < depth)
    (absent : nodes level place = none) (parent : nodes (level + 1) (place / fanout) = some above)
    (fresh : ∀ level place, nodes level place ≠ some node) :
    Tree fanout depth root (insert nodes level place node) where
  top := by
    intro other
    rw [insert_other, tree.top other]
    rintro ⟨rfl, _⟩
    exact Nat.lt_irrefl _ low
  height := by
    intro level' place' other present
    rcases of_insert_eq_some present with ⟨rfl, _, _⟩ | old
    · exact Nat.le_of_lt low
    · exact tree.height old
  parent := by
    intro level' place' other below present
    rcases of_insert_eq_some present with ⟨rfl, rfl, _⟩ | old
    · exact ⟨above, insert_keeps absent parent⟩
    · obtain ⟨upper, present⟩ := tree.parent below old
      exact ⟨upper, insert_keeps absent present⟩
  injective := by
    intro level' place' level'' place'' other first second
    rcases of_insert_eq_some first with ⟨rfl, rfl, rfl⟩ | oldFirst
    · rcases of_insert_eq_some second with ⟨rfl, rfl, _⟩ | oldSecond
      · exact ⟨rfl, rfl⟩
      · exact absurd oldSecond (fresh _ _)
    · rcases of_insert_eq_some second with ⟨rfl, rfl, rfl⟩ | oldSecond
      · exact absurd oldFirst (fresh _ _)
      · exact tree.injective oldFirst oldSecond

/-- Above a node on the way to a key there are nodes on that way at every level. -/
theorem Tree.above (tree : Tree fanout depth root nodes)
    (present : nodes level (stem fanout level key) = some node) (more : Nat)
    (low : level + more ≤ depth) :
    ∃ upper, nodes (level + more) (stem fanout (level + more) key) = some upper := by
  induction more with
  | zero => exact ⟨node, present⟩
  | succ more inductionHypothesis =>
      obtain ⟨upper, there⟩ := inductionHypothesis (by omega)
      rw [← Nat.add_assoc, stem_succ]
      exact tree.parent (by omega) there

/-- The tree of a root alone. -/
theorem Tree.single (fanout depth : Nat) (root : α) :
    Tree fanout depth root (RadixTree.insert (fun _ _ => none) depth 0 root) where
  top := by
    intro place
    simp [RadixTree.insert]
  height := by
    intro level place node present
    rcases of_insert_eq_some present with ⟨rfl, _, _⟩ | old
    · exact Nat.le_refl _
    · contradiction
  parent := by
    intro level place node below present
    rcases of_insert_eq_some present with ⟨rfl, _, _⟩ | old
    · exact absurd below (Nat.lt_irrefl _)
    · contradiction
  injective := by
    intro level place level' place' node first second
    rcases of_insert_eq_some first with ⟨rfl, rfl, _⟩ | old
    · rcases of_insert_eq_some second with ⟨rfl, rfl, _⟩ | old
      · exact ⟨rfl, rfl⟩
      · contradiction
    · contradiction

/-- `nodes'` has the nodes of `nodes` and possibly new ones on the way to `key`. -/
def Grown (fanout key : Nat) (nodes nodes' : Nat → Nat → Option α) : Prop :=
  ∀ level place, nodes' level place = nodes level place ∨
    (nodes level place = none ∧ place = stem fanout level key)

theorem Grown.refl (fanout key : Nat) (nodes : Nat → Nat → Option α) :
    Grown fanout key nodes nodes :=
  fun _ _ => Or.inl rfl

theorem Grown.trans {nodes'' : Nat → Nat → Option α} (first : Grown fanout key nodes nodes')
    (second : Grown fanout key nodes' nodes'') : Grown fanout key nodes nodes'' := by
  intro level place
  rcases first level place with same | ⟨absent, onPath⟩
  · rcases second level place with same' | ⟨absent', onPath⟩
    · exact Or.inl (same'.trans same)
    · exact Or.inr ⟨same ▸ absent', onPath⟩
  · exact Or.inr ⟨absent, onPath⟩

theorem Grown.insert (node : α) (absent : nodes level (stem fanout level key) = none) :
    Grown fanout key nodes (RadixTree.insert nodes level (stem fanout level key) node) := by
  intro level' place'
  by_cases same : level' = level ∧ place' = stem fanout level key
  · obtain ⟨rfl, rfl⟩ := same
    exact Or.inr ⟨absent, rfl⟩
  · exact Or.inl (insert_other nodes node same)

theorem Grown.keeps (grown : Grown fanout key nodes nodes')
    (present : nodes level place = some node) : nodes' level place = some node := by
  rcases grown level place with same | ⟨absent, _⟩
  · exact same.trans present
  · rw [absent] at present
    contradiction

/-! ### Missing nodes -/

/-- The places below the root on the way to a key. -/
def path (fanout depth key : Nat) : Finset (Nat × Nat) :=
  (Finset.range depth).image fun level => (level, stem fanout level key)

/-- How many of the places have no node. -/
def missing (nodes : Nat → Nat → Option α) (places : Finset (Nat × Nat)) : Nat :=
  (places.filter fun place => (nodes place.1 place.2).isNone).card

theorem mem_path :
    (level, place) ∈ path fanout depth key ↔ level < depth ∧ place = stem fanout level key := by
  simp only [path, Finset.mem_image, Finset.mem_range, Prod.mk.injEq]
  constructor
  · rintro ⟨_, low, rfl, rfl⟩
    exact ⟨low, rfl⟩
  · rintro ⟨low, rfl⟩
    exact ⟨level, low, rfl, rfl⟩

theorem path_mono (low : level ≤ depth) : path fanout level key ⊆ path fanout depth key := by
  rintro ⟨other, place⟩ member
  rw [mem_path] at member ⊢
  exact ⟨Nat.lt_of_lt_of_le member.1 low, member.2⟩

theorem missing_mono (nodes : Nat → Nat → Option α) {more : Finset (Nat × Nat)}
    (subset : places ⊆ more) : missing nodes places ≤ missing nodes more :=
  Finset.card_le_card (Finset.filter_subset_filter _ subset)

theorem missing_le_card (nodes : Nat → Nat → Option α) (places : Finset (Nat × Nat)) :
    missing nodes places ≤ places.card :=
  Finset.card_filter_le _ _

theorem card_path (fanout depth key : Nat) : (path fanout depth key).card = depth := by
  rw [path, Finset.card_image_of_injective _ fun _ _ same => (Prod.mk.inj same).1,
    Finset.card_range]

/-- Below a missing node there is none. -/
theorem Tree.missing_path (tree : Tree fanout depth root nodes) (low : level ≤ depth)
    (absent : nodes level (stem fanout level key) = none) :
    missing nodes (path fanout (level + 1) key) = level + 1 := by
  rw [missing, Finset.filter_true_of_mem, card_path]
  rintro ⟨other, place⟩ member
  obtain ⟨below, rfl⟩ := mem_path.mp member
  rw [Option.isNone_iff_eq_none]
  by_contra present
  obtain ⟨node, there⟩ := Option.ne_none_iff_exists'.mp present
  obtain ⟨more, rfl⟩ := Nat.exists_eq_add_of_le (Nat.le_of_lt_succ below)
  obtain ⟨upper, clash⟩ := tree.above there more low
  rw [absent] at clash
  contradiction

/-- Above a node none is missing. -/
theorem Tree.missing_present (tree : Tree fanout depth root nodes)
    (present : nodes 0 (stem fanout 0 key) = some node) :
    missing nodes (path fanout depth key) = 0 := by
  rw [missing, Finset.card_eq_zero, Finset.filter_eq_empty_iff]
  rintro ⟨level, place⟩ member
  obtain ⟨below, rfl⟩ := mem_path.mp member
  obtain ⟨upper, there⟩ := tree.above present level (by omega)
  rw [Nat.zero_add] at there
  simp [there]

/-- New nodes up to a leaf are no longer missing. -/
theorem Grown.missing_add (grown : Grown fanout key nodes nodes')
    (whole : missing nodes' (path fanout depth key) = 0) (onPath : path fanout depth key ⊆ places) :
    missing nodes' places + missing nodes (path fanout depth key) ≤ missing nodes places := by
  have still : ∀ place : Nat × Nat, (nodes' place.1 place.2).isNone = true →
      (nodes place.1 place.2).isNone = true := by
    intro place absent
    cases before : nodes place.1 place.2 with
    | none => rfl
    | some node =>
        rw [grown.keeps before] at absent
        contradiction
  have apart : Disjoint (places.filter fun place => (nodes' place.1 place.2).isNone = true)
      ((path fanout depth key).filter fun place => (nodes place.1 place.2).isNone = true) := by
    rw [Finset.disjoint_left]
    intro place left right
    have none : place ∉ (path fanout depth key).filter fun place =>
        (nodes' place.1 place.2).isNone = true := by
      rw [Finset.card_eq_zero.mp whole]
      exact Finset.notMem_empty place
    exact none (Finset.mem_filter.mpr
      ⟨(Finset.mem_filter.mp right).1, (Finset.mem_filter.mp left).2⟩)
  rw [missing, missing, missing, ← Finset.card_union_of_disjoint apart]
  apply Finset.card_le_card
  intro place member
  rcases Finset.mem_union.mp member with left | right
  · obtain ⟨inPlaces, absent⟩ := Finset.mem_filter.mp left
    exact Finset.mem_filter.mpr ⟨inPlaces, still place absent⟩
  · obtain ⟨inPath, absent⟩ := Finset.mem_filter.mp right
    exact Finset.mem_filter.mpr ⟨onPath inPath, absent⟩

end RadixTree
