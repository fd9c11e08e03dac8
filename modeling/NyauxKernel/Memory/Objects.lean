/-
Objects of the slabs that are in use next to the region list, and users that write into
their own memory.
-/

import NyauxKernel.Memory.AddressSpace

namespace NyauxKernel.Memory

open ExceptFold

theorem Content.congr {ram : Ram} {v v' : View} {m m' : Machine} {regions : List Region}
    {devices : List Nat} (content : Content ram v m regions devices)
    (kept : ∀ frame number, v.owner frame = .page number → v'.owner frame = .page number)
    (same : entries ram v' m' = entries ram v m) : Content ram v' m' regions devices where
  backed := fun region member frames flags backing =>
    backs_congr (content.backed region member frames flags backing)
      (fun frame number _ => kept frame number) (fun page _ => congrFun same page)
  given := fun region member frames flags backing =>
    enters_congr (content.given region member frames flags backing)
      (fun page _ => congrFun same page)
  empty := fun page noDevice uncovered =>
    (congrFun same page).trans (content.empty page noDevice uncovered)

/-- The records without one of the blocks. -/
theorem Records.dropBlock {v : View} {m : Machine} {head : Option Nat} {regions : List Region}
    {blocks : List (Nat × Nat)} (records : Records v m head regions blocks) {block : Nat × Nat}
    (member : block ∈ blocks) :
    Records v m head regions (blocks.erase block) ∧
      block.1 ∉ regions.map Region.node ++ (blocks.erase block).map Prod.fst := by
  have order : (regions.map Region.node ++ blocks.map Prod.fst).Perm
      (block.1 :: (regions.map Region.node ++ (blocks.erase block).map Prod.fst)) :=
    (((List.perm_cons_erase member).map Prod.fst).append_left _).trans List.perm_middle
  obtain ⟨absent, distinct⟩ := List.nodup_cons.mp (order.nodup_iff.mp records.distinct)
  refine ⟨⟨records.listed, records.nodes, ?_, distinct⟩, absent⟩
  exact fun other inRest => records.blockLive other (List.mem_of_mem_erase inRest)

namespace Kernel

variable {ram : Ram} {pagemap : Pagemap} {v : View} {m m' : Machine} {regions : List Region}
  {blocks : List (Nat × Nat)} {devices : List Nat}

/-- An object more in use. -/
theorem addBlock (kernel : Kernel ram pagemap v m regions blocks devices) {request object : Nat}
    {v' : View} (taken : ObjectTaken ram v m request object v' m') :
    Kernel ram pagemap v' m' regions ((object, request) :: blocks) devices := by
  obtain ⟨store, entriesEq⟩ := taken.store kernel.store
  obtain ⟨records, noNode, noBlock⟩ := kernel.records.objectTaken kernel.store.toPool taken
  obtain ⟨size, classEq, _⟩ := taken.served
  obtain ⟨_, _, _, took, _⟩ := taken.took
  exact
    { store := store
      records := records.addBlock classEq (taken.new classEq) noNode noBlock
      layout := kernel.layout
      content := kernel.content.congr (fun frame number owned =>
        (taken.kept kernel.store.toPool frame (by rw [owned]; simp)).trans owned) entriesEq
      kermap := took.kermap.trans kernel.kermap }

theorem slabAlloc_done (kernel : Kernel ram pagemap v m regions blocks devices) {request : Nat}
    (small : request ≤ 1024) {result : Option Nat}
    (done : slabAlloc ram.hhdm request m = .ok (result, m')) (supplied : Supplied m') :
    ∃ object v', result = some object ∧
      Kernel ram pagemap v' m' regions ((object, request) :: blocks) devices := by
  obtain ⟨object, v', rfl, taken⟩ := kernel.store.toPool.slabAlloc_done small done supplied
  exact ⟨object, v', rfl, kernel.addBlock taken⟩

theorem slabDealloc (kernel : Kernel ram pagemap v m regions blocks devices) {block : Nat × Nat}
    (member : block ∈ blocks) :
    ∃ v', Kernel ram pagemap v' (Memory.slabDealloc block.1 m) regions (blocks.erase block)
      devices ∧ v'.free = v.free := by
  obtain ⟨records, absent⟩ := kernel.records.dropBlock member
  obtain ⟨size, _, live⟩ := kernel.records.blockLive block member
  obtain ⟨slabs', store, entriesEq, after, writes⟩ := records.slabDealloc kernel.store live absent
  exact ⟨{ v with slabs := slabs' },
    { store := store
      records := after
      layout := kernel.layout
      content := kernel.content.congr (fun _ _ owned => owned) entriesEq
      kermap := writes.kermap.trans kernel.kermap }, rfl⟩

/-- An address that belongs to a user: in an object of a block, or in a frame of a
region. -/
def Lent (ram : Ram) (v : View) (blocks : List (Nat × Nat)) (address : Nat) : Prop :=
  (∃ block ∈ blocks, ∃ size, LiveObject v.slabs size block.1 ∧ InObject block.1 size address) ∨
    ∃ number, Owned ram.hhdm v.owner (.page number) address

theorem lent_not_owned (kernel : Kernel ram pagemap v m regions blocks devices) {address : Nat}
    {who : Owner} (lent : Lent ram v blocks address) (notSlab : who ≠ .slab)
    (notPage : ∀ number, who ≠ .page number) : ¬Owned ram.hhdm v.owner who address := by
  intro owned
  rcases lent with ⟨block, _, size, live, inside⟩ | ⟨number, isPage⟩
  · exact notSlab (owned.unique (kernel.store.live_owned live inside))
  · exact notPage number (owned.unique isPage)

theorem lent_not_private (kernel : Kernel ram pagemap v m regions blocks devices) {address : Nat}
    (lent : Lent ram v blocks address) : ¬SlabPrivate v.slabs address := by
  intro isPrivate
  rcases lent with ⟨block, _, size, live, inside⟩ | ⟨number, isPage⟩
  · exact kernel.store.slab.live_not_private live inside isPrivate
  · have clash := isPage.unique (kernel.store.private_owned isPrivate)
    contradiction

theorem lent_not_node (kernel : Kernel ram pagemap v m regions blocks devices) {address : Nat}
    (lent : Lent ram v blocks address) {region : Region} (member : region ∈ regions) :
    ¬InObject region.node nodeSize address := by
  intro inNode
  have isLive := kernel.records.nodes region member
  rcases lent with ⟨block, inBlocks, size, live, inside⟩ | ⟨number, isPage⟩
  · have same := (kernel.store.slab.live_disjoint isLive live inNode inside).2
    exact (List.nodup_append.mp kernel.records.distinct).2.2 _ (List.mem_map_of_mem member) _
      (List.mem_map_of_mem inBlocks) same
  · have clash := isPage.unique (kernel.store.live_owned isLive inNode)
    contradiction

/-- Users write into their own memory. -/
theorem use (kernel : Kernel ram pagemap v m regions blocks devices) {memory : Nat → Nat}
    (own : ∀ address, memory address ≠ m.memory address → Lent ram v blocks address) :
    Kernel ram pagemap v { m with memory := memory } regions blocks devices := by
  have same : ∀ address, ¬Lent ram v blocks address → memory address = m.memory address :=
    fun address notLent => by_contra fun changed => notLent (own address changed)
  have kept : Store ram pagemap.archPage v { m with memory := memory } ∧
      entries ram v { m with memory := memory } = entries ram v m := by
    refine kernel.store.congr ?_ ?_ ?_ ?_ ?_
    · rfl
    · rfl
    · exact fun address isFree => same address fun lent =>
        kernel.lent_not_owned lent (by decide) (by simp) isFree
    · exact fun address isTable => same address fun lent =>
        kernel.lent_not_owned lent (by decide) (by simp) isTable
    · exact fun address isPrivate => same address fun lent =>
        kernel.lent_not_private lent isPrivate
  exact
    { store := kept.1
      records :=
        { listed := kernel.records.listed.congr fun region member address inside =>
            same address fun lent => kernel.lent_not_node lent member inside
          nodes := kernel.records.nodes
          blockLive := kernel.records.blockLive
          distinct := kernel.records.distinct }
      layout := kernel.layout
      content := kernel.content.congr (fun _ _ owned => owned) kept.2
      kermap := kernel.kermap }

end Kernel

namespace Space

variable {boot : Boot} {ram : Ram} {pagemap : Pagemap} {v : View} {m m' : Machine}
  {regions : List Region} {live : List Allocation} {blocks : List (Nat × Nat)}
  {devices : List Nat}

theorem alloc (space : Space boot ram pagemap v m regions live blocks devices) {size ptr : Nat}
    (small : size ≤ 1024) (done : NAlloc.alloc ram.hhdm size m = .ok (ptr, m'))
    (supplied : Supplied m') :
    ∃ v', Space boot ram pagemap v' m' regions live ((ptr, size) :: blocks) devices := by
  rw [NAlloc.alloc, if_pos small] at done
  obtain ⟨⟨result, t⟩, taken, rest⟩ := ok_of_bind done
  cases result with
  | none => contradiction
  | some object =>
      obtain ⟨rfl, rfl⟩ := Prod.mk.inj (Except.ok.inj rest)
      obtain ⟨object', v', same, kernel⟩ := space.kernel.slabAlloc_done small taken supplied
      obtain rfl := Option.some.inj same
      exact ⟨v', kernel, space.positive, space.shape⟩

theorem free (space : Space boot ram pagemap v m regions live blocks devices)
    {object : Nat × Nat} (member : object ∈ blocks) :
    ∃ v', Space boot ram pagemap v' (slabDealloc object.1 m) regions live (blocks.erase object)
      devices := by
  obtain ⟨v', kernel, _⟩ := space.kernel.slabDealloc member
  exact ⟨v', kernel, space.positive, space.shape⟩

end Space

end NyauxKernel.Memory
