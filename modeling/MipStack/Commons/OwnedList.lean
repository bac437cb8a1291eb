import MipStack.Commons.ListLoops

/-! Lists of pointers to objects that the list owns: every object was allocated for the
list and is freed when its node goes. -/
namespace MipStack
open LinkedChain

/-- The nodes of all lists, and the objects they point to. -/
structure ObjectMemory (α : Type) where
  nodes : Heap (ListNode ℕ)
  objects : Heap α

/-- A node, the pointer it holds, and the object there. -/
structure Slot (α : Type) where
  node : ℕ
  pointer : ℕ
  object : α

structure ObjectAllocators (α : Type) where
  node : Heap.Allocator (ListNode ℕ)
  object : Heap.Allocator α

variable {α : Type}

/-- The number of nodes bounds the turns of a loop over them. -/
def LinkedList.fuel (list : LinkedList) : ℕ := list.count.toNat

def Slot.cell (slot : Slot α) : ℕ × ℕ := (slot.node, slot.pointer)

namespace ObjectMemory

/-- The list holds the objects of the slots, each behind a pointer of its own. -/
structure Owns (memory : ObjectMemory α) (list : LinkedList) (slots : List (Slot α)) : Prop where
  represents : list.Represents memory.nodes (slots.map Slot.cell)
  distinct : (slots.map Slot.pointer).Nodup
  objects : ∀ slot ∈ slots, memory.objects slot.pointer = some slot.object

/-- An owner gives up the nodes and objects of some slots and takes those of others. -/
structure Exchange (memory memory' : ObjectMemory α) (slots slots' : List (Slot α)) : Prop where
  nodes : memory.nodes.Turnover memory'.nodes (slots.map Slot.node) (slots'.map Slot.node)
  objects : memory.objects.Turnover memory'.objects (slots.map Slot.pointer)
    (slots'.map Slot.pointer)

/-- All that is in use. -/
structure Accounts (memory : ObjectMemory α) (slots : List (Slot α)) : Prop where
  nodes : memory.nodes.Allocated (slots.map Slot.node)
  objects : memory.objects.Allocated (slots.map Slot.pointer)

/-- The objects of some slots are changed, and nothing else. -/
structure InPlace (objects objects' : Heap α) (slots slots' : List (Slot α)) : Prop where
  cells : slots'.map Slot.cell = slots.map Slot.cell
  live : ∀ slot ∈ slots', objects' slot.pointer = some slot.object
  elsewhere : ∀ a, a ∉ slots.map Slot.pointer → objects' a = objects a

variable {memory memory' memory'' : ObjectMemory α} {list list' : LinkedList}
  {slots slots' slots'' others front rest : List (Slot α)} {slot : Slot α}

@[simp]
theorem addresses_cells : addresses (slots.map Slot.cell) = slots.map Slot.node := by
  rw [addresses, List.map_map]
  rfl

@[simp]
theorem pointers_cells : (slots.map Slot.cell).map Prod.snd = slots.map Slot.pointer := by
  rw [List.map_map]
  rfl

theorem Exchange.refl (memory : ObjectMemory α) (slots : List (Slot α)) :
    Exchange memory memory slots slots :=
  ⟨Heap.turnover_refl _ _, Heap.turnover_refl _ _⟩

/-- Changes of the memory one after the other are one change. -/
theorem Exchange.trans (first : Exchange memory memory' slots slots')
    (second : Exchange memory' memory'' slots' slots'') : Exchange memory memory'' slots slots'' :=
  ⟨first.nodes.trans second.nodes, first.objects.trans second.objects⟩

theorem Owns.nodup (h : Owns memory list slots) : (slots.map Slot.node).Nodup := by
  rw [← addresses_cells]
  exact h.represents.nodup

/-- A loop over the list takes as many turns as there are objects in it. -/
theorem Owns.fuel (h : Owns memory list slots) : list.fuel = slots.length := by
  rw [LinkedList.fuel, h.represents.count, List.length_map]
  exact Int.toNat_natCast _

/-- The nodes of the list and the objects that they point to are in use. -/
theorem Owns.live (h : Owns memory list slots) (hMem : slot ∈ slots) :
    memory.nodes slot.node ≠ none ∧ memory.objects slot.pointer ≠ none := by
  obtain ⟨node, hNode, -⟩ := h.represents.linked.live (List.mem_map_of_mem hMem)
  exact ⟨hNode ▸ Option.some_ne_none node, h.objects slot hMem ▸ Option.some_ne_none slot.object⟩

/-- What one owner does leaves the lists of the others alone. -/
theorem Owns.other {mine : List (Slot α)} (h : Owns memory list mine) (hSub : mine ⊆ others)
    (hAccounts : Accounts memory (others ++ slots))
    (hExchange : Exchange memory memory' slots slots') : Owns memory' list mine := by
  have hNodes := hAccounts.nodes.nodup
  have hPointers := hAccounts.objects.nodup
  rw [List.map_append] at hNodes hPointers
  have hApart : ∀ slot ∈ mine, slot.node ∉ slots.map Slot.node ∧
      slot.pointer ∉ slots.map Slot.pointer := fun slot hMem =>
    ⟨fun hOld => (List.nodup_append.mp hNodes).2.2 _ (List.mem_map_of_mem (hSub hMem)) _ hOld rfl,
      fun hOld =>
        (List.nodup_append.mp hPointers).2.2 _ (List.mem_map_of_mem (hSub hMem)) _ hOld rfl⟩
  refine ⟨h.represents.congr fun cell hCell => ?_, h.distinct, fun slot hMem => ?_⟩
  · obtain ⟨slot, hMem, rfl⟩ := List.mem_map.mp hCell
    exact hExchange.nodes.untouched (h.live hMem).1 (hApart slot hMem).1
  · exact (hExchange.objects.untouched (h.live hMem).2 (hApart slot hMem).2).trans
      (h.objects slot hMem)

theorem Accounts.perm (h : Accounts memory slots) (hPerm : slots.Perm slots') :
    Accounts memory slots' :=
  ⟨h.nodes.perm (hPerm.map _), h.objects.perm (hPerm.map _)⟩

/-- What is accounted for next to the list stays as it is while the list changes. -/
theorem Accounts.exchange (h : Accounts memory (others ++ slots))
    (hExchange : Exchange memory memory' slots slots') (hOwns : Owns memory' list slots') :
    Accounts memory' (others ++ slots') := by
  have hNodes := h.nodes
  have hObjects := h.objects
  rw [List.map_append] at hNodes hObjects
  constructor
  · rw [List.map_append]
    refine hNodes.turnover hExchange.nodes hOwns.nodup fun a ha => ?_
    obtain ⟨slot, hMem, rfl⟩ := List.mem_map.mp ha
    exact (hOwns.live hMem).1
  · rw [List.map_append]
    refine hObjects.turnover hExchange.objects hOwns.distinct fun a ha => ?_
    obtain ⟨slot, hMem, rfl⟩ := List.mem_map.mp ha
    exact (hOwns.live hMem).2

/-- An object that malloc returns is not one that the list points to already. -/
theorem Owns.not_mem_of_fresh {pointer : ℕ} (h : Owns memory list slots)
    (hFresh : memory.objects pointer = none) : pointer ∉ slots.map Slot.pointer := by
  intro hMem
  obtain ⟨slot, hSlot, rfl⟩ := List.mem_map.mp hMem
  exact (h.live hSlot).2 hFresh

variable {objects objects' : Heap α}

theorem InPlace.refl (hLive : ∀ slot ∈ slots, objects slot.pointer = some slot.object) :
    InPlace objects objects slots slots :=
  ⟨rfl, hLive, fun _ _ => rfl⟩

/-- The object of one slot is changed, then those behind it. -/
theorem InPlace.cons {object : α}
    (h : InPlace (Function.update objects slot.pointer (some object)) objects' slots slots')
    (hApart : slot.pointer ∉ slots.map Slot.pointer) :
    InPlace objects objects' (slot :: slots) ({ slot with object } :: slots') := by
  refine ⟨?_, fun other hMem => ?_, fun a ha => ?_⟩
  · rw [List.map_cons, List.map_cons, h.cells]
    rfl
  · rcases List.mem_cons.mp hMem with rfl | hRest
    · rw [h.elsewhere slot.pointer hApart, Function.update_self]
    · exact h.live other hRest
  · obtain ⟨hHead, hTail⟩ := not_or.mp (mt List.mem_cons.mpr ha)
    rw [h.elsewhere a hTail, Function.update_of_ne hHead]

/-- Writing to the objects, wherever they are, leaves the nodes alone and changes what the list
reads as. -/
theorem Owns.inPlace (h : Owns memory list slots)
    (hPlace : InPlace memory.objects objects' slots slots') :
    Owns { memory with objects := objects' } list slots' ∧
      Exchange memory { memory with objects := objects' } slots slots' := by
  have hNodes : slots'.map Slot.node = slots.map Slot.node := by
    rw [← addresses_cells, ← addresses_cells, hPlace.cells]
  have hPointers : slots'.map Slot.pointer = slots.map Slot.pointer := by
    rw [← pointers_cells, ← pointers_cells, hPlace.cells]
  refine ⟨⟨?_, ?_, hPlace.live⟩, ?_, ?_⟩
  · rw [hPlace.cells]
    exact h.represents
  · rw [hPointers]
    exact h.distinct
  · rw [hNodes]
    exact Heap.turnover_refl memory.nodes (slots.map Slot.node)
  · rw [hPointers]
    exact ⟨fun a ha _ => hPlace.elsewhere a ha, fun a ha hGone => absurd ha hGone,
      fun a ha => Or.inl ha⟩

/-- A new object belongs to no list yet. -/
theorem Owns.alloc {pointer : ℕ} (h : Owns memory list slots)
    (hFresh : memory.objects pointer = none) (object : α) :
    Owns { memory with objects := memory.objects.alloc pointer object } list slots := by
  refine { h with objects := fun slot hMem => ?_ }
  have hNe : slot.pointer ≠ pointer := fun hEq =>
    h.not_mem_of_fresh hFresh (hEq ▸ List.mem_map_of_mem hMem)
  exact (Heap.alloc_of_ne hNe).trans (h.objects slot hMem)

/-- What happens to one object leaves the objects of other slots alone. -/
theorem update_live {objects : Heap α} (hApart : slot.pointer ∉ rest.map Slot.pointer)
    (hObjects : ∀ other ∈ rest, objects other.pointer = some other.object) (cell : Option α) :
    ∀ other ∈ rest, Function.update objects slot.pointer cell other.pointer =
      some other.object := by
  intro other hMem
  have hNe : other.pointer ≠ slot.pointer := fun hEq => hApart (hEq ▸ List.mem_map_of_mem hMem)
  rw [Function.update_of_ne hNe]
  exact hObjects other hMem

/-- An object of someone else is freed. -/
def freed (memory : ObjectMemory α) (pointer : ℕ) : ObjectMemory α :=
  { memory with objects := Function.update memory.objects pointer none }

theorem freed_of_ne {pointer : ℕ} (hNe : slot.pointer ≠ pointer) :
    (memory.freed pointer).objects slot.pointer = memory.objects slot.pointer :=
  Function.update_of_ne hNe ..

/-- Freeing an object outside the list leaves the list as it was. -/
theorem Owns.freed {pointer : ℕ} (h : Owns memory list slots)
    (hOther : pointer ∉ slots.map Slot.pointer) : Owns (memory.freed pointer) list slots := by
  refine { h with objects := fun slot hMem => ?_ }
  have hNe : slot.pointer ≠ pointer := fun hEq => hOther (hEq ▸ List.mem_map_of_mem hMem)
  rw [freed_of_ne hNe]
  exact h.objects slot hMem

/-- A fresh object is put at the end of the list. -/
theorem Owns.push {pointer node : ℕ} {object : α} (h : Owns memory list slots)
    (hObject : memory.objects pointer = some object) (hOther : pointer ∉ slots.map Slot.pointer)
    (hFresh : memory.nodes node = none) :
    ∃ nodes' list', list.push memory.nodes pointer (some node) = .ok (nodes', list') ∧
      Owns { memory with nodes := nodes' } list' (slots ++ [⟨node, pointer, object⟩]) ∧
      memory.nodes.Turnover nodes' (slots.map Slot.node)
        ((slots ++ [(⟨node, pointer, object⟩ : Slot α)]).map Slot.node) := by
  obtain ⟨nodes', list', hPush, hAfter, hChanges⟩ := h.represents.push pointer hFresh
  refine ⟨nodes', list', hPush, ⟨?_, ?_, ?_⟩, ?_⟩
  · rw [List.map_append]
    exact hAfter
  · rw [List.map_append]
    exact h.distinct.append (List.nodup_singleton pointer) (List.disjoint_singleton.mpr hOther)
  · intro slot hMem
    rcases List.mem_append.mp hMem with hOld | hNew
    · exact h.objects slot hOld
    · obtain rfl := List.mem_singleton.mp hNew
      exact hObject
  · simpa [Changes] using hChanges

/-- An object that was allocated first is put at the end of the list, after what else was
done to the list. -/
theorem Owns.pushAllocated {pointer node : ℕ} {object : α} {kept : List (Slot α)}
    (h : Owns memory list slots) (hFresh : memory.objects pointer = none)
    (hExchange : Exchange { memory with objects := memory.objects.alloc pointer object } memory'
      slots kept)
    (hSub : kept ⊆ slots) (hOwns : Owns memory' list' kept) (hNode : memory'.nodes node = none) :
    ∃ nodes' list'', list'.push memory'.nodes pointer (some node) = .ok (nodes', list'') ∧
      Owns { memory' with nodes := nodes' } list'' (kept ++ [⟨node, pointer, object⟩]) ∧
      Exchange memory { memory' with nodes := nodes' } slots
        (kept ++ [⟨node, pointer, object⟩]) := by
  have hOther : pointer ∉ slots.map Slot.pointer := h.not_mem_of_fresh hFresh
  have hObject : memory'.objects pointer = some object := by
    rw [hExchange.objects.untouched (by simp) hOther]
    exact Heap.alloc_same
  obtain ⟨nodes', list'', hPush, hAfter, hTurnover⟩ := hOwns.push hObject
    (fun hMem => hOther (List.map_subset Slot.pointer hSub hMem)) hNode
  refine ⟨nodes', list'', hPush, hAfter, hExchange.nodes.trans hTurnover, ?_⟩
  have hAlloc := Heap.turnover_alloc hFresh object (slots.map Slot.pointer)
  rw [List.map_append]
  exact hAlloc.trans (hExchange.objects.frame [] [pointer])

/-- Taking a node off the list and freeing its object. -/
theorem Owns.remove {nodes' : Heap (ListNode ℕ)} (h : Owns memory list (front ++ slot :: rest))
    (hAfter : list'.Represents nodes' ((front ++ rest).map Slot.cell))
    (hChanges : memory.nodes.Turnover nodes' ((front ++ slot :: rest).map Slot.node)
      ((front ++ rest).map Slot.node)) :
    ∃ objects', memory.objects.free (some slot.pointer) = .ok objects' ∧
      Owns ⟨nodes', objects'⟩ list' (front ++ rest) ∧
      Exchange memory ⟨nodes', objects'⟩ (front ++ slot :: rest) (front ++ rest) := by
  have hSub : (front ++ rest).Sublist (front ++ slot :: rest) :=
    (List.sublist_cons_self slot rest).append_left front
  have hMem : slot ∈ front ++ slot :: rest := by simp
  have hDistinct := h.distinct
  rw [List.map_append, List.map_cons, List.nodup_middle, ← List.map_append] at hDistinct
  obtain ⟨hGone, -⟩ := List.nodup_cons.mp hDistinct
  refine ⟨_, Heap.free_of_live (h.objects slot hMem), ⟨hAfter, ?_, ?_⟩, hChanges, ?_⟩
  · exact (hSub.map Slot.pointer).nodup h.distinct
  · intro other hOtherMem
    have hNe : other.pointer ≠ slot.pointer := fun hEq =>
      hGone (hEq ▸ List.mem_map_of_mem hOtherMem)
    exact (Function.update_of_ne hNe ..).trans (h.objects other (hSub.subset hOtherMem))
  · have hTurnover := h.distinct
    simp only [List.map_append, List.map_cons] at hTurnover ⊢
    exact Heap.turnover_free hTurnover

/-- Taking out a node and then freeing the object that it pointed to: the pattern of every removal
in the two programs. -/
theorem Owns.removeNode (h : Owns memory list (front ++ slot :: rest)) :
    ∃ nodes' list' objects',
      list.remove memory.nodes (some slot.node) = .ok (nodes', list', some slot.pointer) ∧
      memory.objects.free (some slot.pointer) = .ok objects' ∧
      Owns ⟨nodes', objects'⟩ list' (front ++ rest) ∧
      Exchange memory ⟨nodes', objects'⟩ (front ++ slot :: rest) (front ++ rest) := by
  have hRepresents := h.represents
  rw [List.map_append, List.map_cons] at hRepresents
  obtain ⟨nodes', list', hRemove, hAfter, hChanges⟩ := hRepresents.remove
  rw [← List.map_append] at hAfter hChanges
  rw [← List.map_cons, ← List.map_append, Changes, addresses_cells, addresses_cells] at hChanges
  obtain ⟨objects', hFree, hOwns, hExchange⟩ := h.remove hAfter hChanges
  exact ⟨nodes', list', objects', hRemove, hFree, hOwns, hExchange⟩

/-- A fresh object is put at the front of the list. -/
theorem Owns.unshift {pointer node : ℕ} {object : α} (h : Owns memory list slots)
    (hObject : memory.objects pointer = some object) (hOther : pointer ∉ slots.map Slot.pointer)
    (hFresh : memory.nodes node = none) :
    ∃ nodes' list', list.unshift memory.nodes pointer (some node) = .ok (nodes', list') ∧
      Owns { memory with nodes := nodes' } list' (⟨node, pointer, object⟩ :: slots) ∧
      memory.nodes.Turnover nodes' (slots.map Slot.node)
        (((⟨node, pointer, object⟩ : Slot α) :: slots).map Slot.node) := by
  obtain ⟨nodes', list', hUnshift, hAfter, hChanges⟩ := h.represents.unshift pointer hFresh
  refine ⟨nodes', list', hUnshift, ⟨hAfter, List.nodup_cons.mpr ⟨hOther, h.distinct⟩, ?_⟩, ?_⟩
  · intro slot hMem
    rcases List.mem_cons.mp hMem with rfl | hOld
    · exact hObject
    · exact h.objects slot hOld
  · simpa [Changes] using hChanges

/-- The object at the end is taken off the list and freed. -/
theorem Owns.pop (h : Owns memory list (front ++ [slot])) :
    ∃ nodes' list' objects', list.pop memory.nodes = .ok (nodes', list', some slot.pointer) ∧
      memory.objects.free (some slot.pointer) = .ok objects' ∧
      Owns ⟨nodes', objects'⟩ list' front ∧
      Exchange memory ⟨nodes', objects'⟩ (front ++ [slot]) front := by
  have hLast : list.last = some slot.node := by
    rw [h.represents.last, List.map_append, List.map_singleton, exit_concat]
    rfl
  have hRemove := h.removeNode
  rw [List.append_nil] at hRemove
  rw [LinkedList.pop, if_pos (by rw [hLast]; exact Option.some_ne_none _), hLast]
  exact hRemove

/-- `List_clear_destroy`: both the nodes and the objects go. -/
theorem Owns.clearDestroy (h : Owns memory list slots) :
    ∃ memory' : ObjectMemory α,
      list.clear list.fuel memory.nodes memory.objects = .ok memory'.objects ∧
      list.destroy list.fuel memory.nodes = .ok memory'.nodes ∧
      Exchange memory memory' slots [] := by
  have hLength : (slots.map Slot.cell).length ≤ list.fuel := by
    rw [List.length_map, h.fuel]
  have hPointers : ((slots.map Slot.pointer).map some).reduceOption = slots.map Slot.pointer := by
    simp [List.reduceOption]
  have hLive : ∀ a ∈ ((slots.map Slot.pointer).map some).reduceOption, memory.objects a ≠ none := by
    rw [hPointers]
    intro a ha
    obtain ⟨slot, hMem, rfl⟩ := List.mem_map.mp ha
    exact (h.live hMem).2
  have hClear := h.represents.clear hLength memory.objects
  rw [pointers_cells, Heap.foldlM_free (by rw [hPointers]; exact h.distinct) hLive,
    hPointers] at hClear
  have hDestroy := h.represents.destroy hLength
  rw [addresses_cells] at hDestroy
  refine ⟨⟨memory.nodes.without (slots.map Slot.node),
    memory.objects.without (slots.map Slot.pointer)⟩, hClear, hDestroy, ?_, ?_⟩
  · simpa using Heap.turnover_without memory.nodes (slots.map Slot.node) []
  · simpa using Heap.turnover_without memory.objects (slots.map Slot.pointer) []

/-- A loop at which turns change nothing up to the first matching object. -/
theorem Owns.forEach_first {State : Type} {body : State → ℕ → Except Heap.Failure (Flow State)}
    (h : Owns memory list slots) (q : α → Bool) (heapOf : State → Heap (ListNode ℕ))
    (state : State) (hNodes : heapOf state = memory.nodes)
    (hSkip : ∀ slot ∈ slots, q slot.object = false → body state slot.node = .ok (.next state)) :
    ((∀ slot ∈ slots, q slot.object = false) ∧
        LinkedList.forEach heapOf LinkedCell.next body list.fuel list.first state = .ok state) ∨
      ∃ front slot rest, slots = front ++ slot :: rest ∧
        (∀ other ∈ front, q other.object = false) ∧ q slot.object = true ∧
        LinkedList.forEach heapOf LinkedCell.next body list.fuel list.first state =
          LinkedList.forEach heapOf LinkedCell.next body (rest.length + 1) (some slot.node)
            state := by
  have hSkipCells : ∀ front : List (Slot α), front ⊆ slots →
      (∀ other ∈ front, q other.object = false) →
      ∀ cell ∈ front.map Slot.cell, body state cell.1 = .ok (.next state) := by
    intro front hSub hFalse cell hCell
    obtain ⟨slot, hMem, rfl⟩ := List.mem_map.mp hCell
    exact hSkip slot (hSub hMem) (hFalse slot hMem)
  have hLinked := h.represents.linked
  rw [← hNodes] at hLinked
  rw [h.fuel, h.represents.first]
  cases hFind : slots.find? fun slot => q slot.object with
  | none =>
      have hNone : ∀ slot ∈ slots, q slot.object = false := fun slot hMem =>
        Bool.eq_false_iff.mpr (List.find?_eq_none.mp hFind slot hMem)
      rw [← List.append_nil (slots.map Slot.cell)] at hLinked
      have hLoop := LinkedList.forEach_skip hLinked
        (hSkipCells slots (List.Subset.refl slots) hNone) 0
      rw [List.append_nil, List.length_map, Nat.add_zero] at hLoop
      exact Or.inl ⟨hNone, hLoop.trans (LinkedList.forEach.eq_1 ..)⟩
  | some slot =>
      obtain ⟨hMatch, front, rest, rfl, hFront⟩ := List.find?_eq_some_iff_append.mp hFind
      have hFalse : ∀ other ∈ front, q other.object = false := fun other hMem => by
        simpa using hFront other hMem
      refine Or.inr ⟨front, slot, rest, rfl, hFalse, hMatch, ?_⟩
      rw [List.map_append] at hLinked
      have hLoop := LinkedList.forEach_skip hLinked
        (hSkipCells front (List.subset_append_left ..) hFalse) (rest.length + 1)
      rw [List.length_map] at hLoop
      rw [List.map_append, List.length_append, List.length_cons]
      exact hLoop

/-- Taking the first matching object off the list, by a loop over the nodes, and
freeing it. -/
theorem Owns.removeFirst {p : ℕ → Except Heap.Failure Bool} {q : α → Bool} {fuel : ℕ}
    (h : Owns memory list slots) (hFuel : slots.length ≤ fuel)
    (hp : ∀ pointer object, memory.objects pointer = some object → p pointer = .ok (q object)) :
    ∃ nodes' list' objects',
      LinkedList.removeLoop .leave p fuel memory.nodes list = .ok (nodes', list',
        (slots.find? fun slot => q slot.object).map Slot.pointer) ∧
      memory.objects.free ((slots.find? fun slot => q slot.object).map Slot.pointer) =
        .ok objects' ∧
      Owns ⟨nodes', objects'⟩ list' (slots.eraseP fun slot => q slot.object) ∧
      Exchange memory ⟨nodes', objects'⟩ slots (slots.eraseP fun slot => q slot.object) := by
  have hTest : ∀ slot ∈ slots, p slot.cell.2 = .ok (q slot.object) := fun slot hMem =>
    hp slot.pointer slot.object (h.objects slot hMem)
  have hLength : (slots.map Slot.cell).length ≤ fuel := by rwa [List.length_map]
  cases hFind : slots.find? fun slot => q slot.object with
  | none =>
      have hNone := List.find?_eq_none.mp hFind
      rw [List.eraseP_of_forall_not hNone]
      refine ⟨_, _, _, h.represents.removeLoop_of_none hLength fun cell hCell => ?_, rfl, h,
        Exchange.refl memory slots⟩
      obtain ⟨slot, hMem, rfl⟩ := List.mem_map.mp hCell
      rw [hTest slot hMem, Bool.eq_false_iff.mpr (hNone slot hMem)]
  | some slot =>
      obtain ⟨hMatch, front, rest, rfl, hFront⟩ := List.find?_eq_some_iff_append.mp hFind
      have hFrontTest : ∀ cell ∈ front.map Slot.cell, p cell.2 = .ok false := by
        intro cell hCell
        obtain ⟨other, hMem, rfl⟩ := List.mem_map.mp hCell
        rw [hTest other (List.mem_append_left _ hMem)]
        simpa using hFront other hMem
      have hRepresents := h.represents
      rw [List.map_append, List.map_cons] at hRepresents hLength
      obtain ⟨nodes', list', hLoop, hAfter, hChanges⟩ := hRepresents.removeLoop_leave hLength
        hFrontTest (by rw [hTest slot (by simp), hMatch])
      rw [← List.map_append] at hAfter hChanges
      rw [← List.map_cons, ← List.map_append, Changes, addresses_cells, addresses_cells] at hChanges
      obtain ⟨objects', hFree, hOwns, hExchange⟩ := h.remove hAfter hChanges
      have hErase : (front ++ slot :: rest).eraseP (fun slot => q slot.object) = front ++ rest := by
        rw [List.eraseP_append_right _ fun other hMem => by simpa using hFront other hMem,
          List.eraseP_cons_of_pos (p := fun slot : Slot α => q slot.object) hMatch]
      rw [hErase]
      exact ⟨nodes', list', objects', hLoop, hFree, hOwns, hExchange⟩

/-- Looking for the first matching object, by a loop over the nodes. -/
theorem forEach_find {q : α → Bool} {heap : Heap (ListNode ℕ)} {pointer : Option ℕ} {fuel : ℕ}
    {body : Option ℕ → ℕ → Except Heap.Failure (Flow (Option ℕ))}
    (h : Visits heap LinkedCell.next pointer (slots.map Slot.cell)) (hFuel : slots.length ≤ fuel)
    (hBody : ∀ slot ∈ slots, ∀ node, heap slot.node = some node → node.value = slot.pointer →
      body none slot.node =
        .ok (if q slot.object then .leave (some slot.pointer) else .next none)) :
    LinkedList.forEach (fun _ => heap) LinkedCell.next body fuel pointer none =
      .ok ((slots.find? fun slot => q slot.object).map Slot.pointer) := by
  induction slots generalizing pointer fuel with
  | nil =>
      obtain rfl : pointer = none := h
      rw [LinkedList.forEach]
      rfl
  | cons slot rest ih =>
      obtain ⟨rfl, node, hNode, hValue, hRest⟩ := h
      cases fuel with
      | zero => cases hFuel
      | succ fuel =>
          have hTurn := hBody slot List.mem_cons_self node hNode hValue
          by_cases hMatch : q slot.object = true
          · rw [if_pos hMatch] at hTurn
            rw [List.find?_cons_of_pos (p := fun slot : Slot α => q slot.object) hMatch]
            exact LinkedList.forEach_leave hTurn fuel
          · rw [if_neg hMatch] at hTurn
            rw [List.find?_cons_of_neg (p := fun slot : Slot α => q slot.object) hMatch]
            refine (LinkedList.forEach_next hTurn hNode fuel).trans ?_
            exact ih hRest (Nat.le_of_succ_le_succ hFuel)
              fun other hMem => hBody other (List.mem_cons_of_mem slot hMem)

end ObjectMemory

end MipStack
