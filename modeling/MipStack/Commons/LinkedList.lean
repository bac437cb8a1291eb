import Mathlib.Data.Int.Notation
import MipStack.Library.LinkedChain

/-! The linked list of the three daemons (`commons/src/list.c`, `list.h`, `queue.h`) on
a heap of nodes. Every allocation gives a node that is not in use, or NULL. -/
namespace MipStack

abbrev ListNode (V : Type*) := LinkedCell V

/-- The struct `List`. Its `count` is an `int`, which is taken not to overflow. -/
structure LinkedList where
  count : ℤ
  first : Option ℕ
  last : Option ℕ
  deriving DecidableEq, Repr

namespace LinkedList
open LinkedChain

variable {V : Type*}

def create : LinkedList := ⟨0, none, none⟩

/-- `node` is the answer to the request for memory; on NULL the value is dropped. -/
def push (heap : Heap (ListNode V)) (list : LinkedList) (value : V) (node : Option ℕ) :
    Except Heap.Failure (Heap (ListNode V) × LinkedList) :=
  match node with
  | none => .ok (heap, list)
  | some node =>
    let heap := heap.alloc node ⟨none, none, value⟩
    if list.last = none then
      .ok (heap, ⟨list.count + 1, some node, some node⟩)
    else do
      let heap ← heap.modify list.last fun cell => { cell with next := some node }
      let heap ← heap.modify (some node) fun cell => { cell with prev := list.last }
      .ok (heap, { list with count := list.count + 1, last := some node })

def unshift (heap : Heap (ListNode V)) (list : LinkedList) (value : V) (node : Option ℕ) :
    Except Heap.Failure (Heap (ListNode V) × LinkedList) :=
  match node with
  | none => .ok (heap, list)
  | some node =>
    let heap := heap.alloc node ⟨none, none, value⟩
    if list.first = none then
      .ok (heap, ⟨list.count + 1, some node, some node⟩)
    else do
      let heap ← heap.modify (some node) fun cell => { cell with next := list.first }
      let heap ← heap.modify list.first fun cell => { cell with prev := some node }
      .ok (heap, { list with count := list.count + 1, first := some node })

/-- The end of `remove`, after the neighbours have been joined. -/
def release (heap : Heap (ListNode V)) (list : LinkedList) (node : Option ℕ) :
    Except Heap.Failure (Heap (ListNode V) × LinkedList × Option V) := do
  let cell ← heap.read node
  let heap ← heap.free node
  .ok (heap, { list with count := list.count - 1 }, some cell.value)

/-- A failed check returns NULL, in two places with the list already changed. -/
def remove (heap : Heap (ListNode V)) (list : LinkedList) (node : Option ℕ) :
    Except Heap.Failure (Heap (ListNode V) × LinkedList × Option V) :=
  if list.first = none ∨ list.last = none then .ok (heap, list, none)
  else if node = none then .ok (heap, list, none)
  else if node = list.first ∧ node = list.last then
    release heap { list with first := none, last := none } node
  else if node = list.first then do
    let cell ← heap.read node
    let list := { list with first := cell.next }
    if list.first = none then .ok (heap, list, none)
    else
      let heap ← heap.modify list.first fun cell => { cell with prev := none }
      release heap list node
  else if node = list.last then do
    let cell ← heap.read node
    let list := { list with last := cell.prev }
    if list.last = none then .ok (heap, list, none)
    else
      let heap ← heap.modify list.last fun cell => { cell with next := none }
      release heap list node
  else do
    let cell ← heap.read node
    let heap ← heap.modify cell.next fun after => { after with prev := cell.prev }
    let heap ← heap.modify cell.prev fun before => { before with next := cell.next }
    release heap list node

def pop (heap : Heap (ListNode V)) (list : LinkedList) :
    Except Heap.Failure (Heap (ListNode V) × LinkedList × Option V) :=
  if list.last ≠ none then remove heap list list.last else .ok (heap, list, none)

def shift (heap : Heap (ListNode V)) (list : LinkedList) :
    Except Heap.Failure (Heap (ListNode V) × LinkedList × Option V) :=
  if list.first ≠ none then remove heap list list.first else .ok (heap, list, none)

/-- The list holds the cells in this order, and no other ones. -/
structure Represents (heap : Heap (ListNode V)) (list : LinkedList) (cells : List (ℕ × V)) :
    Prop where
  linked : Linked heap none cells none
  nodup : (addresses cells).Nodup
  first : list.first = entry cells none
  last : list.last = exit none cells
  count : list.count = cells.length

variable {heap heap' : Heap (ListNode V)} {list : LinkedList} {cells front rest : List (ℕ × V)}
  {cell : ℕ × V} {node : ℕ} {value : V}

theorem represents_create : Represents heap create ([] : List (ℕ × V)) :=
  ⟨trivial, List.nodup_nil, rfl, rfl, rfl⟩

/-- Changes to other cells leave the list as it is. -/
theorem Represents.congr (h : Represents heap list cells)
    (hSame : ∀ cell ∈ cells, heap' cell.1 = heap cell.1) : Represents heap' list cells :=
  { h with linked := h.linked.congr hSame }

/-- A node that malloc returns is none of the list's own. -/
theorem Represents.ne_of_fresh (h : Represents heap list cells) (hFresh : heap node = none) :
    node ∉ addresses cells := by
  intro hMem
  obtain ⟨cell, hCell, rfl⟩ := List.mem_map.mp hMem
  obtain ⟨_, hLive, -⟩ := h.linked.live hCell
  cases hLive.symm.trans hFresh

/-- A stretch of the list is exchanged; the ends of the list are as the new cells
tell. -/
theorem Represents.splice {list' : LinkedList} (front middle middle' rest : List (ℕ × V))
    (h : Represents heap list (front ++ (middle ++ rest)))
    (hMiddle : Linked heap' (exit none front) middle' (entry rest none))
    (hChanges : Changes heap heap' middle middle')
    (hNodup : (addresses (front ++ (middle' ++ rest))).Nodup)
    (hEntry : front = [] ∨ entry middle' (entry rest none) = entry middle (entry rest none))
    (hExit : rest = [] ∨ exit (exit none front) middle' = exit (exit none front) middle)
    (hFirst : list'.first = entry (front ++ (middle' ++ rest)) none)
    (hLast : list'.last = exit none (front ++ (middle' ++ rest)))
    (hCount : list'.count = list.count + (middle'.length - middle.length : ℤ)) :
    Represents heap' list' (front ++ (middle' ++ rest)) ∧
      Changes heap heap' (front ++ (middle ++ rest)) (front ++ (middle' ++ rest)) := by
  refine ⟨⟨h.linked.splice hMiddle hChanges h.nodup hNodup hEntry hExit, hNodup, hFirst, hLast,
    ?_⟩, hChanges.frame front rest⟩
  have hOld := h.count
  simp only [List.length_append, Int.natCast_add] at hOld ⊢
  omega

/-- A new node becomes the last one. The node that was last points to it, or the list does. -/
theorem Represents.push (h : Represents heap list cells) (value : V) (hFresh : heap node = none) :
    ∃ heap' list', list.push heap value (some node) = .ok (heap', list') ∧
      Represents heap' list' (cells ++ [(node, value)]) ∧
      Changes heap heap' cells (cells ++ [(node, value)]) := by
  have hNode := h.ne_of_fresh hFresh
  have hNodup : (addresses (cells ++ [(node, value)])).Nodup := by
    rw [addresses_append]
    exact h.nodup.append (List.nodup_singleton node) (List.disjoint_singleton.mpr hNode)
  rcases List.eq_nil_or_concat' cells with rfl | ⟨front, last, rfl⟩
  · refine ⟨heap.alloc node ⟨none, none, value⟩, ⟨list.count + 1, some node, some node⟩, ?_,
      h.splice [] [] [(node, value)] []
        ⟨Heap.alloc_same, trivial⟩ ⟨?_, by simp, by simpa using hFresh⟩ hNodup (Or.inl rfl)
        (Or.inl rfl) rfl rfl rfl⟩
    · have hLast : list.last = none := h.last
      simp only [LinkedList.push, if_pos hLast]
    · intro a _ hNew
      exact Heap.alloc_of_ne (List.ne_of_not_mem_cons hNew)
  · have hLast : list.last = some last.1 := h.last.trans exit_concat
    obtain ⟨-, hCell, -⟩ := linked_append.mp h.linked
    have hOther : node ≠ last.1 := fun hEq => hNode (by simp [hEq])
    have hLive : heap.alloc node ⟨none, none, value⟩ last.1 =
        some ⟨none, exit none front, last.2⟩ := (Heap.alloc_of_ne hOther.symm).trans hCell
    refine ⟨Function.update (Function.update (heap.alloc node ⟨none, none, value⟩) last.1
      (some ⟨some node, exit none front, last.2⟩)) node (some ⟨none, some last.1, value⟩),
      ⟨list.count + 1, list.first, some node⟩, ?_, ?_⟩
    · rw [LinkedList.push, if_neg (by rw [hLast]; exact Option.some_ne_none _), hLast,
        Heap.modify_of_live _ hLive]
      simp only [bind, Except.bind]
      rw [Heap.modify_of_live _ ((Function.update_of_ne hOther _ _).trans Heap.alloc_same)]
    · rw [List.append_assoc] at hNodup ⊢
      refine h.splice front [last] [last, (node, value)] [] ?_
        ⟨?_, by simp, by simpa using Or.inr hFresh⟩ hNodup (Or.inr rfl) (Or.inl rfl) ?_ ?_ rfl
      · refine ⟨?_, Function.update_self .., trivial⟩
        exact (Function.update_of_ne hOther.symm ..).trans (Function.update_self ..)
      · intro a hOld hNew
        have hNe : a ≠ node := fun hEq => hNew (by simp [hEq])
        rw [Function.update_of_ne hNe, Function.update_of_ne (List.ne_of_not_mem_cons hOld),
          Heap.alloc_of_ne hNe]
      · rw [h.first, entry_append, entry_append]
        rfl
      · rw [exit_append]
        rfl

/-- A new node becomes the first one, as `push` at the other end. -/
theorem Represents.unshift (h : Represents heap list cells) (value : V)
    (hFresh : heap node = none) :
    ∃ heap' list', list.unshift heap value (some node) = .ok (heap', list') ∧
      Represents heap' list' ((node, value) :: cells) ∧
      Changes heap heap' cells ((node, value) :: cells) := by
  have hNode := h.ne_of_fresh hFresh
  have hNodup : (addresses ((node, value) :: cells)).Nodup :=
    List.nodup_cons.mpr ⟨hNode, h.nodup⟩
  cases cells with
  | nil =>
      refine ⟨heap.alloc node ⟨none, none, value⟩, ⟨list.count + 1, some node, some node⟩, ?_,
        h.splice [] [] [(node, value)] []
          ⟨Heap.alloc_same, trivial⟩ ⟨?_, by simp, by simpa using hFresh⟩ hNodup (Or.inl rfl)
          (Or.inl rfl) rfl rfl rfl⟩
      · have hFirst : list.first = none := h.first
        simp only [LinkedList.unshift, if_pos hFirst]
      · intro a _ hNew
        exact Heap.alloc_of_ne (List.ne_of_not_mem_cons hNew)
  | cons first rest =>
      have hFirst : list.first = some first.1 := h.first
      have hOther : node ≠ first.1 := fun hEq => hNode (by simp [hEq])
      have hLive : Function.update (heap.alloc node ⟨none, none, value⟩) node
          (some ⟨some first.1, none, value⟩) first.1 =
            some ⟨entry rest none, none, first.2⟩ :=
        ((Function.update_of_ne hOther.symm ..).trans (Heap.alloc_of_ne hOther.symm)).trans
          h.linked.1
      refine ⟨Function.update (Function.update (heap.alloc node ⟨none, none, value⟩) node
        (some ⟨some first.1, none, value⟩)) first.1
        (some ⟨entry rest none, some node, first.2⟩), ⟨list.count + 1, some node, list.last⟩,
        ?_, ?_⟩
      · rw [LinkedList.unshift, if_neg (by rw [hFirst]; exact Option.some_ne_none _), hFirst,
          Heap.modify_of_live _ Heap.alloc_same]
        simp only [bind, Except.bind]
        rw [Heap.modify_of_live _ hLive]
      · refine h.splice [] [first] [(node, value), first] rest ?_
          ⟨?_, by simp, by simpa using Or.inr hFresh⟩ hNodup (Or.inl rfl) (Or.inr rfl) rfl
          h.last rfl
        · refine ⟨?_, Function.update_self .., trivial⟩
          exact (Function.update_of_ne hOther ..).trans (Function.update_self ..)
        · intro a hOld hNew
          have hNe : a ≠ node := List.ne_of_not_mem_cons hNew
          rw [Function.update_of_ne (List.ne_of_not_mem_cons hOld), Function.update_of_ne hNe,
            Heap.alloc_of_ne hNe]

/-- Freeing a node that is not linked any more ends a removal. -/
theorem release_of_live {node : ListNode V} {address : ℕ} (h : heap address = some node) :
    release heap list (some address) = .ok (Function.update heap address none,
      { list with count := list.count - 1 }, some node.value) := by
  simp only [release, Heap.read_of_live h, Heap.free_of_live h, bind, Except.bind]

/-- The first branch of `List_remove`: the only node becomes neither first nor last. -/
theorem remove_only (h : Represents heap list [cell]) :
    ∃ heap' list', list.remove heap (some cell.1) = .ok (heap', list', some cell.2) ∧
      Represents heap' list' [] ∧ Changes heap heap' [cell] [] := by
  have hFirst : list.first = some cell.1 := h.first
  have hLast : list.last = some cell.1 := h.last
  refine ⟨Function.update heap cell.1 none, ⟨list.count - 1, none, none⟩, ?_,
    h.splice [] [cell] [] [] trivial ⟨?_, ?_, by simp⟩ List.nodup_nil (Or.inl rfl) (Or.inl rfl)
      rfl rfl rfl⟩
  · rw [remove, if_neg (by simp [hFirst, hLast]), if_neg (Option.some_ne_none _),
      if_pos ⟨hFirst.symm, hLast.symm⟩, release_of_live h.linked.1]
  · intro a hOld _
    exact Function.update_of_ne (List.ne_of_not_mem_cons hOld) ..
  · intro a hOld _
    rw [List.mem_singleton.mp hOld, Function.update_self]

/-- The second branch: the node behind becomes the first one, and its `prev` pointer NULL. -/
theorem remove_first {second : ℕ × V} (h : Represents heap list (cell :: second :: rest)) :
    ∃ heap' list', list.remove heap (some cell.1) = .ok (heap', list', some cell.2) ∧
      Represents heap' list' (second :: rest) ∧
      Changes heap heap' (cell :: second :: rest) (second :: rest) := by
  have hCell : heap cell.1 = some ⟨some second.1, none, cell.2⟩ := h.linked.1
  have hSecond : heap second.1 = some ⟨entry rest none, some cell.1, second.2⟩ := h.linked.2.1
  obtain ⟨hHead, hTail⟩ := List.nodup_cons.mp h.nodup
  have hFirst : list.first = some cell.1 := h.first
  obtain ⟨last, hMem, hExit⟩ := exists_exit (some cell.1) (List.cons_ne_nil second rest)
  have hLast : list.last = some last := h.last.trans hExit
  have hOther : cell.1 ≠ last := fun hEq => hHead (hEq ▸ hMem)
  have hSecondNe : cell.1 ≠ second.1 := List.ne_of_not_mem_cons hHead
  have hLive : Function.update heap second.1 (some ⟨entry rest none, none, second.2⟩) cell.1 =
      some ⟨some second.1, none, cell.2⟩ := (Function.update_of_ne hSecondNe ..).trans hCell
  refine ⟨Function.update (Function.update heap second.1
    (some ⟨entry rest none, none, second.2⟩)) cell.1 none,
    ⟨list.count - 1, some second.1, list.last⟩, ?_,
    h.splice [] [cell, second] [second] rest ⟨?_, trivial⟩ ⟨?_, ?_, by simp⟩ hTail
      (Or.inl rfl) (Or.inr rfl) rfl h.last rfl⟩
  · rw [remove, if_neg (by simp [hFirst, hLast]), if_neg (Option.some_ne_none _),
      if_neg (by simp [hLast, hOther]), if_pos hFirst.symm, Heap.read_of_live hCell]
    simp only [bind, Except.bind]
    rw [if_neg (Option.some_ne_none _), Heap.modify_of_live _ hSecond]
    simp only [release_of_live hLive]
  · exact (Function.update_of_ne hSecondNe.symm ..).trans (Function.update_self ..)
  · intro a hOld hNew
    rw [Function.update_of_ne (List.ne_of_not_mem_cons hOld),
      Function.update_of_ne (List.ne_of_not_mem_cons hNew)]
  · intro a hOld hNew
    rcases List.mem_cons.mp hOld with rfl | hOld
    · exact Function.update_self ..
    · exact absurd hOld hNew

/-- The third branch: the node before becomes the last one, and its `next` pointer NULL. -/
theorem remove_last {before : ℕ × V} (h : Represents heap list (front ++ [before, cell])) :
    ∃ heap' list', list.remove heap (some cell.1) = .ok (heap', list', some cell.2) ∧
      Represents heap' list' (front ++ [before]) ∧
      Changes heap heap' (front ++ [before, cell]) (front ++ [before]) := by
  obtain ⟨-, hBefore, hCell, -⟩ := linked_append.mp h.linked
  have hNodup := h.nodup
  rw [List.append_cons, addresses_append] at hNodup
  obtain ⟨hFront, -, hDisjoint⟩ := List.nodup_append.mp hNodup
  have hLast : list.last = some cell.1 := h.last.trans exit_append
  obtain ⟨first, hMem, hEntry⟩ := exists_entry (entry [cell] none)
    (List.append_ne_nil_of_right_ne_nil front (List.cons_ne_nil before []))
  have hFirst : list.first = some first := by
    rw [h.first, List.append_cons, entry_append, hEntry]
  have hOther : cell.1 ≠ first := (hDisjoint first hMem cell.1 List.mem_cons_self).symm
  have hBeforeNe : cell.1 ≠ before.1 :=
    (hDisjoint before.1 (by simp) cell.1 List.mem_cons_self).symm
  have hLive : Function.update heap before.1 (some ⟨none, exit none front, before.2⟩) cell.1 =
      some ⟨none, some before.1, cell.2⟩ := (Function.update_of_ne hBeforeNe ..).trans hCell
  refine ⟨Function.update (Function.update heap before.1
    (some ⟨none, exit none front, before.2⟩)) cell.1 none,
    ⟨list.count - 1, list.first, some before.1⟩, ?_,
    h.splice front [before, cell] [before] [] ⟨?_, trivial⟩ ⟨?_, ?_, by simp⟩ hFront
      (Or.inr rfl) (Or.inl rfl) ?_ exit_concat.symm rfl⟩
  · rw [remove, if_neg (by simp [hFirst, hLast]), if_neg (Option.some_ne_none _),
      if_neg (by simp [hFirst, hOther]), if_neg (by simp [hFirst, hOther]), if_pos hLast.symm,
      Heap.read_of_live hCell]
    simp only [bind, Except.bind]
    rw [if_neg (Option.some_ne_none _), Heap.modify_of_live _ hBefore]
    simp only [release_of_live hLive]
  · exact (Function.update_of_ne hBeforeNe.symm ..).trans (Function.update_self ..)
  · intro a hOld hNew
    have hNe : a ≠ cell.1 := fun hEq => hOld (by simp [hEq])
    rw [Function.update_of_ne hNe, Function.update_of_ne (List.ne_of_not_mem_cons hNew)]
  · intro a hOld hNew
    have hEq : a = cell.1 := by
      simpa [List.ne_of_not_mem_cons hNew] using hOld
    rw [hEq, Function.update_self]
  · rw [h.first, entry_append, entry_append]
    rfl

/-- A node with neighbours is none of the ends. -/
theorem exists_ends_ne {before after : ℕ × V}
    (h : Represents heap list (front ++ ([before, cell, after] ++ rest))) :
    ∃ first last, list.first = some first ∧ list.last = some last ∧ cell.1 ≠ first ∧
      cell.1 ≠ last := by
  obtain ⟨first, hFirstMem, hEntry⟩ := exists_entry (entry (cell :: after :: rest) none)
    (List.append_ne_nil_of_right_ne_nil front (List.cons_ne_nil before []))
  obtain ⟨last, hLastMem, hExit⟩ := exists_exit (some cell.1)
    (List.cons_ne_nil after rest)
  have hFirst : list.first = some first := by
    rw [h.first, ← hEntry, ← entry_append, ← List.append_cons]
    rfl
  have hLast : list.last = some last := by
    rw [h.last, exit_append, ← hExit]
    rfl
  have hNodup := h.nodup
  rw [show front ++ ([before, cell, after] ++ rest) = (front ++ [before]) ++ cell :: after :: rest
    by simp, addresses_append] at hNodup
  obtain ⟨-, hOthers, hDisjoint⟩ := List.nodup_append.mp hNodup
  exact ⟨first, last, hFirst, hLast, (hDisjoint first hFirstMem cell.1 List.mem_cons_self).symm,
    fun hEq => (List.nodup_cons.mp hOthers).1 (hEq ▸ hLastMem)⟩

/-- The heap with the neighbours of the node joined and the node freed. -/
def joined (heap : Heap (ListNode V)) (cell before after : ℕ × V) (prev next : Option ℕ) :
    Heap (ListNode V) :=
  Function.update (Function.update (Function.update heap after.1
    (some ⟨next, some before.1, after.2⟩)) before.1
    (some ⟨some after.1, prev, before.2⟩)) cell.1 none

/-- The neighbours are joined before the node is freed. -/
theorem remove_eq_joined {before after : ℕ × V} {first last : ℕ} {prev next : Option ℕ}
    (hFirst : list.first = some first) (hLast : list.last = some last)
    (hFirstNe : cell.1 ≠ first) (hLastNe : cell.1 ≠ last)
    (hBefore : heap before.1 = some ⟨some cell.1, prev, before.2⟩)
    (hCell : heap cell.1 = some ⟨some after.1, some before.1, cell.2⟩)
    (hAfter : heap after.1 = some ⟨next, some cell.1, after.2⟩)
    (hBeforeCell : before.1 ≠ cell.1) (hBeforeAfter : before.1 ≠ after.1)
    (hCellAfter : cell.1 ≠ after.1) :
    list.remove heap (some cell.1) = .ok (joined heap cell before after prev next,
      ⟨list.count - 1, list.first, list.last⟩, some cell.2) := by
  have hLiveBefore : Function.update heap after.1 (some ⟨next, some before.1, after.2⟩) before.1 =
      some ⟨some cell.1, prev, before.2⟩ :=
    (Function.update_of_ne hBeforeAfter ..).trans hBefore
  have hLive : Function.update (Function.update heap after.1
      (some ⟨next, some before.1, after.2⟩)) before.1
        (some ⟨some after.1, prev, before.2⟩) cell.1 = some ⟨some after.1, some before.1, cell.2⟩ :=
    ((Function.update_of_ne (Ne.symm hBeforeCell) ..).trans
      (Function.update_of_ne hCellAfter ..)).trans hCell
  rw [remove, if_neg (by simp [hFirst, hLast]), if_neg (Option.some_ne_none _),
    if_neg (by simp [hFirst, hFirstNe]), if_neg (by simp [hFirst, hFirstNe]),
    if_neg (by simp [hLast, hLastNe]), Heap.read_of_live hCell]
  simp only [bind, Except.bind, Heap.modify_of_live _ hAfter, Heap.modify_of_live _ hLiveBefore,
    release_of_live hLive]
  rfl

/-- The last branch: the nodes on both sides are joined. The list's own pointers stay. -/
theorem remove_inner {before after : ℕ × V}
    (h : Represents heap list (front ++ ([before, cell, after] ++ rest))) :
    ∃ heap' list', list.remove heap (some cell.1) = .ok (heap', list', some cell.2) ∧
      Represents heap' list' (front ++ ([before, after] ++ rest)) ∧
      Changes heap heap' (front ++ ([before, cell, after] ++ rest))
        (front ++ ([before, after] ++ rest)) := by
  obtain ⟨-, hBefore, hCell, hAfter, hRest⟩ :
      Linked heap none front _ ∧ heap before.1 = some ⟨some cell.1, exit none front, before.2⟩ ∧
        heap cell.1 = some ⟨some after.1, some before.1, cell.2⟩ ∧
        heap after.1 = some ⟨entry rest none, some cell.1, after.2⟩ ∧ _ :=
    linked_append.mp h.linked
  have hMiddle := nodup_middle h.nodup
  simp only [addresses_cons, addresses_nil, List.nodup_cons, List.mem_cons, List.not_mem_nil,
    or_false, not_or] at hMiddle
  obtain ⟨⟨hBeforeCell, hBeforeAfter⟩, hCellAfter, -⟩ := hMiddle
  obtain ⟨first, last, hFirst, hLast, hFirstNe, hLastNe⟩ := exists_ends_ne h
  refine ⟨joined heap cell before after (exit none front) (entry rest none),
    ⟨list.count - 1, list.first, list.last⟩, remove_eq_joined hFirst hLast hFirstNe hLastNe hBefore
      hCell hAfter hBeforeCell hBeforeAfter hCellAfter,
    h.splice front [before, cell, after] [before, after] rest ⟨?_, ?_, trivial⟩
      ⟨?_, ?_, by simp⟩ ?_ (Or.inr rfl) (Or.inr rfl) ?_ ?_ rfl⟩
  · exact (Function.update_of_ne hBeforeCell ..).trans (Function.update_self ..)
  · exact ((Function.update_of_ne (Ne.symm hCellAfter) ..).trans
      (Function.update_of_ne (Ne.symm hBeforeAfter) ..)).trans (Function.update_self ..)
  · intro a hOld _
    simp only [addresses_cons, addresses_nil, List.mem_cons, List.not_mem_nil, or_false,
      not_or] at hOld
    rw [joined, Function.update_of_ne hOld.2.1, Function.update_of_ne hOld.1,
      Function.update_of_ne hOld.2.2]
  · intro a hOld hNew
    simp only [addresses_cons, addresses_nil, List.mem_cons, List.not_mem_nil, or_false,
      not_or] at hOld hNew
    have hEq : a = cell.1 := (hOld.resolve_left hNew.1).resolve_right hNew.2
    rw [hEq, joined, Function.update_self]
  · have hSub : (front ++ ([before, after] ++ rest)).Sublist
        (front ++ ([before, cell, after] ++ rest)) :=
      (((List.sublist_cons_self cell [after]).cons_cons before).append_right rest).append_left front
    exact (hSub.map Prod.fst).nodup h.nodup
  · simp only [h.first, entry_append]
    rfl
  · simp only [h.last, exit_append]
    rfl

/-- A node of the list is taken off and freed, wherever it stands. -/
theorem Represents.remove {front : List (ℕ × V)}
    (h : Represents heap list (front ++ cell :: rest)) :
    ∃ heap' list', list.remove heap (some cell.1) = .ok (heap', list', some cell.2) ∧
      Represents heap' list' (front ++ rest) ∧
      Changes heap heap' (front ++ cell :: rest) (front ++ rest) := by
  rcases List.eq_nil_or_concat' front with rfl | ⟨front, before, rfl⟩
  · cases rest with
    | nil => exact remove_only h
    | cons second rest => exact remove_first h
  · rw [List.append_assoc] at h ⊢
    rw [List.append_assoc]
    cases rest with
    | nil => exact remove_last h
    | cons after rest => exact remove_inner h

/-- The last node goes; an empty list gives NULL. -/
theorem Represents.pop (h : Represents heap list (front ++ [cell])) :
    ∃ heap' list', list.pop heap = .ok (heap', list', some cell.2) ∧
      Represents heap' list' front ∧ Changes heap heap' (front ++ [cell]) front := by
  have hLast : list.last = some cell.1 := h.last.trans exit_concat
  rw [LinkedList.pop, if_pos (by rw [hLast]; exact Option.some_ne_none _), hLast]
  simpa using h.remove

/-- `List_shift` is the removal of the first node. -/
theorem Represents.shift (h : Represents heap list (cell :: rest)) :
    ∃ heap' list', list.shift heap = .ok (heap', list', some cell.2) ∧
      Represents heap' list' rest ∧ Changes heap heap' (cell :: rest) rest := by
  have hFirst : list.first = some cell.1 := h.first
  rw [LinkedList.shift, if_pos (by rw [hFirst]; exact Option.some_ne_none _), hFirst]
  have hSplit : Represents heap list ([] ++ cell :: rest) := h
  exact hSplit.remove

theorem Represents.pop_nil (h : Represents heap list []) :
    list.pop heap = .ok (heap, list, none) := by
  rw [LinkedList.pop, if_neg (fun hLast => hLast h.last)]

theorem Represents.shift_nil (h : Represents heap list []) :
    list.shift heap = .ok (heap, list, none) := by
  rw [LinkedList.shift, if_neg (fun hFirst => hFirst h.first)]

end LinkedList

end MipStack
