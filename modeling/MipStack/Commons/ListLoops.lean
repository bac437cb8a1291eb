import MipStack.Commons.LinkedList

/-! Loops over the nodes of a list (`LIST_FOREACH` and `QUEUE_FOREACH` in
`commons/src/list.h`, `queue.h`). After its body a loop reads the node it has just
looked at, to find the next one. -/
namespace MipStack

/-- How the body of a loop ends: at its end, or with a `break` or `return`. -/
inductive Flow (State : Type*) where
  | next (state : State)
  | leave (state : State)

namespace LinkedList
open LinkedChain

variable {V State : Type}

/-- `fuel` bounds the number of turns. -/
def forEach (heapOf : State → Heap (ListNode V)) (move : ListNode V → Option ℕ)
    (body : State → ℕ → Except Heap.Failure (Flow State)) :
    ℕ → Option ℕ → State → Except Heap.Failure State
  | _, none, state => .ok state
  | 0, some _, _ => .error .outOfFuel
  | fuel + 1, some current, state =>
    match body state current with
    | .error failure => .error failure
    | .ok (.leave state) => .ok state
    | .ok (.next state) =>
      match (heapOf state).read (some current) with
      | .error failure => .error failure
      | .ok node => forEach heapOf move body fuel (move node) state

/-- The values met on the way along one of the two pointers. -/
def values (heap : Heap (ListNode V)) (move : ListNode V → Option ℕ) (fuel : ℕ)
    (start : Option ℕ) : Except Heap.Failure (List V) :=
  forEach (fun _ => heap) move (fun seen current => do
    let node ← heap.read (some current)
    .ok (.next (seen ++ [node.value]))) fuel start []

/-- Every turn but the first frees the node before the current one. -/
def destroyTurn (heap : Heap (ListNode V)) (current : ℕ) :
    Except Heap.Failure (Flow (Heap (ListNode V))) := do
  let node ← heap.read (some current)
  let heap ← if node.prev = none then .ok heap else heap.free node.prev
  .ok (.next heap)

def destroy (fuel : ℕ) (heap : Heap (ListNode V)) (list : LinkedList) :
    Except Heap.Failure (Heap (ListNode V)) := do
  let heap ← forEach id LinkedCell.next destroyTurn fuel list.first heap
  heap.free list.last

/-- Frees what the values point to; the nodes keep the dangling pointers. -/
def clear {α : Type} (fuel : ℕ) (heap : Heap (ListNode ℕ)) (list : LinkedList)
    (objects : Heap α) : Except Heap.Failure (Heap α) :=
  forEach (fun _ => heap) LinkedCell.next (fun objects current => do
    let node ← heap.read (some current)
    let objects ← objects.free (some node.value)
    .ok (.next objects)) fuel list.first objects

/-- What a loop that removes nodes carries: the last value taken off is kept. -/
abbrev Removal (V : Type) := Heap (ListNode V) × LinkedList × Option V

/-- A matching node is taken off the list; then the loop leaves or goes on. -/
def removeTurn (after : Removal V → Flow (Removal V)) (p : V → Except Heap.Failure Bool)
    (state : Removal V) (current : ℕ) : Except Heap.Failure (Flow (Removal V)) := do
  let node ← state.1.read (some current)
  if ← p node.value then
    let state ← remove state.1 state.2.1 (some current)
    .ok (after state)
  else .ok (.next state)

def removeLoop (after : Removal V → Flow (Removal V)) (p : V → Except Heap.Failure Bool)
    (fuel : ℕ) (heap : Heap (ListNode V)) (list : LinkedList) :
    Except Heap.Failure (Removal V) :=
  forEach Prod.fst LinkedCell.next (removeTurn after p) fuel list.first (heap, list, none)

variable {heapOf : State → Heap (ListNode V)} {move : ListNode V → Option ℕ}
  {body : State → ℕ → Except Heap.Failure (Flow State)} {state state' : State}
  {heap heap' : Heap (ListNode V)} {list : LinkedList} {cells front rest : List (ℕ × V)}
  {cell : ℕ × V} {pointer : Option ℕ} {fuel : ℕ}

theorem forEach_leave {current : ℕ} (h : body state current = .ok (.leave state')) (fuel : ℕ) :
    forEach heapOf move body (fuel + 1) (some current) state = .ok state' := by
  simp only [forEach, h]

theorem forEach_next {current : ℕ} {node : ListNode V}
    (h : body state current = .ok (.next state')) (hNode : heapOf state' current = some node)
    (fuel : ℕ) :
    forEach heapOf move body (fuel + 1) (some current) state =
      forEach heapOf move body fuel (move node) state' := by
  simp only [forEach, h, Heap.read_of_live hNode]

/-- The node is gone when the loop wants its successor. -/
theorem forEach_freed {current : ℕ} (h : body state current = .ok (.next state'))
    (hNode : heapOf state' current = none) (fuel : ℕ) :
    forEach heapOf move body (fuel + 1) (some current) state = .error .fault := by
  simp only [forEach, h, Heap.read_of_dead hNode]

/-- Nodes at which a turn changes nothing are passed over. -/
theorem forEach_skip {before : Option ℕ} (h : Linked (heapOf state) before (front ++ rest) none)
    (hSkip : ∀ cell ∈ front, body state cell.1 = .ok (.next state)) (fuel : ℕ) :
    forEach heapOf LinkedCell.next body (front.length + fuel) (entry (front ++ rest) none) state =
      forEach heapOf LinkedCell.next body fuel (entry rest none) state := by
  induction front generalizing before with
  | nil => rw [List.length_nil, Nat.zero_add, List.nil_append]
  | cons cell front ih =>
      obtain ⟨hCell, hRest⟩ := h
      rw [List.length_cons, Nat.add_right_comm]
      refine (forEach_next (hSkip cell List.mem_cons_self) hCell _).trans ?_
      exact ih hRest fun c hc => hSkip c (List.mem_cons_of_mem cell hc)

/-- A loop that leaves the nodes alone folds over the values, in the order visited. -/
theorem forEach_foldlM {f : State → V → Except Heap.Failure State}
    (h : Visits heap move pointer cells) (hFuel : cells.length ≤ fuel)
    (hBody : ∀ state current node, heap current = some node →
      body state current = f state node.value >>= fun state => .ok (.next state)) :
    forEach (fun _ => heap) move body fuel pointer state =
      (cells.map Prod.snd).foldlM f state := by
  induction cells generalizing pointer state fuel with
  | nil =>
      obtain rfl : pointer = none := h
      rw [forEach]
      rfl
  | cons cell rest ih =>
      obtain ⟨rfl, node, hNode, hValue, hRest⟩ := h
      cases fuel with
      | zero => cases hFuel
      | succ fuel =>
          have hTurn := hBody state cell.1 node hNode
          rw [List.map_cons, List.foldlM_cons, ← hValue]
          cases hStep : f state node.value with
          | error failure =>
              rw [hStep] at hTurn
              simp only [forEach, hTurn]
              rfl
          | ok state' =>
              rw [hStep] at hTurn
              rw [forEach_next hTurn hNode, ih hRest (Nat.le_of_succ_le_succ hFuel)]
              rfl

/-- A loop over the nodes that collects the values returns them in the order of the visit, if it
may take as many turns as there are nodes. -/
theorem values_of_visits (h : Visits heap move pointer cells) (hFuel : cells.length ≤ fuel) :
    values heap move fuel pointer = .ok (cells.map Prod.snd) := by
  have hFold : ∀ (vs seen : List V), vs.foldlM (fun seen value => .ok (seen ++ [value])) seen =
      (.ok (seen ++ vs) : Except Heap.Failure (List V)) := by
    intro vs
    induction vs with
    | nil => simp [pure, Except.pure]
    | cons v vs ih => simp [bind, Except.bind, ih]
  rw [values, forEach_foldlM (f := fun seen value => .ok (seen ++ [value])) h hFuel, hFold,
    List.nil_append]
  intro seen current node hNode
  rw [Heap.read_of_live hNode]
  rfl

/-- Looking at the list from either end shows its values. -/
theorem Represents.values_next (h : Represents heap list cells) (hFuel : cells.length ≤ fuel) :
    values heap LinkedCell.next fuel list.first = .ok (cells.map Prod.snd) := by
  rw [h.first]
  exact values_of_visits h.linked.visits_next hFuel

/-- Read backwards the list is the reversed sequence. -/
theorem Represents.values_prev (h : Represents heap list cells) (hFuel : cells.length ≤ fuel) :
    values heap LinkedCell.prev fuel list.last = .ok (cells.map Prod.snd).reverse := by
  rw [h.last, ← List.map_reverse]
  exact values_of_visits h.linked.visits_prev (by rwa [List.length_reverse])

/-- Each turn of `List_destroy` frees the node before the current one, which the loop does not
need any more. -/
theorem destroyTurn_eq {current : ℕ} {node : ListNode V} (hNode : heap current = some node)
    (hPrev : ∀ b ∈ node.prev, heap b ≠ none) :
    destroyTurn heap current = .ok (.next (heap.without node.prev.toList)) := by
  simp only [destroyTurn, Heap.read_of_live hNode, bind, Except.bind]
  cases hBefore : node.prev with
  | none => rw [if_pos rfl, Option.toList_none, Heap.without_nil]
  | some b =>
      obtain ⟨cell, hCell⟩ := Option.ne_none_iff_exists'.mp (hPrev b hBefore)
      rw [if_neg (Option.some_ne_none b), Heap.free_of_live hCell, Heap.update_none]
      rfl

/-- From some node on the turns free everything but the last node. -/
theorem forEach_destroyTurn {before : Option ℕ} (h : Linked heap before (cell :: rest) none)
    (hNodup : (before.toList ++ addresses (cell :: rest)).Nodup)
    (hBefore : ∀ b ∈ before, heap b ≠ none) (hFuel : rest.length < fuel) :
    forEach id LinkedCell.next destroyTurn fuel (some cell.1) heap =
      .ok (heap.without (before.toList ++ (addresses (cell :: rest)).dropLast)) := by
  induction rest generalizing before cell heap fuel with
  | nil =>
      obtain ⟨hCell, -⟩ := h
      obtain ⟨fuel, rfl⟩ := Nat.exists_eq_succ_of_ne_zero (Nat.ne_of_gt hFuel)
      have hApart : cell.1 ∉ before.toList := fun hMem =>
        (List.nodup_append.mp hNodup).2.2 _ hMem _ List.mem_cons_self rfl
      rw [forEach_next (destroyTurn_eq hCell hBefore)
        ((Heap.without_of_not_mem hApart).trans hCell)]
      simp [forEach, entry]
  | cons second rest ih =>
      obtain ⟨hCell, hRest⟩ := h
      obtain ⟨fuel, rfl⟩ := Nat.exists_eq_succ_of_ne_zero (Nat.ne_of_gt (Nat.zero_lt_of_lt hFuel))
      obtain ⟨-, hCells, hDisjoint⟩ := List.nodup_append.mp hNodup
      have hApart : ∀ a ∈ addresses (cell :: second :: rest), a ∉ before.toList :=
        fun a ha hMem => hDisjoint a hMem a ha rfl
      have hLive : heap.without before.toList cell.1 = some ⟨some second.1, before, cell.2⟩ :=
        (Heap.without_of_not_mem (hApart _ List.mem_cons_self)).trans hCell
      rw [forEach_next (destroyTurn_eq hCell hBefore) hLive]
      have hLinked : Linked (heap.without before.toList) (some cell.1) (second :: rest) none :=
        hRest.congr fun c hc => Heap.without_of_not_mem
          (hApart _ (List.mem_cons_of_mem _ (mem_addresses hc)))
      rw [ih hLinked hCells (by simp [hLive]) (Nat.lt_of_succ_lt_succ hFuel),
        Heap.without_append]
      simp

/-- Every node is freed, once, and nothing else. The last one is freed after the loop. -/
theorem Represents.destroy (h : Represents heap list cells) (hFuel : cells.length ≤ fuel) :
    destroy fuel heap list = .ok (heap.without (addresses cells)) := by
  rcases List.eq_nil_or_concat' cells with rfl | ⟨front, last, rfl⟩
  · have hFirst : list.first = none := h.first
    have hLast : list.last = none := h.last
    simp [LinkedList.destroy, hFirst, hLast, forEach, bind, Except.bind, Heap.free]
  · have hLast : list.last = some last.1 := h.last.trans exit_concat
    obtain ⟨cell, rest, hCells⟩ := List.exists_cons_of_ne_nil
      (List.append_ne_nil_of_right_ne_nil front (List.cons_ne_nil last []))
    have hFirst : list.first = some cell.1 := by
      rw [h.first, hCells]
      rfl
    have hAddresses : (addresses (cell :: rest)).dropLast = addresses front := by
      rw [← hCells, addresses_append, addresses_cons, addresses_nil, List.dropLast_concat]
    have hLinked : Linked heap none (cell :: rest) none := hCells ▸ h.linked
    have hLess : rest.length < fuel := by
      rw [hCells] at hFuel
      exact hFuel
    have hTurns : forEach id LinkedCell.next destroyTurn fuel (some cell.1) heap =
        .ok (heap.without (addresses front)) := by
      rw [forEach_destroyTurn hLinked (hCells ▸ h.nodup) (by simp) hLess, hAddresses]
      rfl
    have hNodup := h.nodup
    rw [addresses_append] at hNodup
    obtain ⟨node, hNode, -⟩ := h.linked.live (List.mem_append_right front List.mem_cons_self)
    have hLive : heap.without (addresses front) last.1 = some node :=
      (Heap.without_of_not_mem fun hMem =>
        (List.nodup_append.mp hNodup).2.2 _ hMem _ List.mem_cons_self rfl).trans hNode
    simp only [LinkedList.destroy, hFirst, hTurns, hLast, bind, Except.bind]
    rw [Heap.free_of_live hLive, Heap.update_none, Heap.without_append, addresses_append]
    rfl

/-- The values are freed one after the other and the nodes are left as they are. -/
theorem Represents.clear {α : Type} {heap : Heap (ListNode ℕ)} {cells : List (ℕ × ℕ)}
    (h : Represents heap list cells) (hFuel : cells.length ≤ fuel) (objects : Heap α) :
    clear fuel heap list objects =
      ((cells.map Prod.snd).map some).foldlM Heap.free objects := by
  rw [LinkedList.clear, h.first, List.foldlM_map]
  refine forEach_foldlM h.linked.visits_next hFuel fun objects current node hNode => ?_
  rw [Heap.read_of_live hNode]
  rfl

variable {after : Removal V → Flow (Removal V)} {p : V → Except Heap.Failure Bool}
  {turn : Removal V}

/-- A turn that finds nothing to remove changes nothing. -/
theorem removeTurn_of_neg {current : ℕ} {node : ListNode V}
    (hNode : turn.1 current = some node) (hNeg : p node.value = .ok false) :
    removeTurn after p turn current = .ok (.next turn) := by
  simp [removeTurn, Heap.read_of_live hNode, bind, Except.bind, hNeg]

/-- Nodes that do not match are passed over. -/
theorem forEach_removeTurn_skip {before : Option ℕ}
    (h : Linked turn.1 before (front ++ rest) none) (hNone : ∀ cell ∈ front, p cell.2 = .ok false)
    (fuel : ℕ) :
    forEach Prod.fst LinkedCell.next (removeTurn after p) (front.length + fuel)
        (entry (front ++ rest) none) turn =
      forEach Prod.fst LinkedCell.next (removeTurn after p) fuel (entry rest none) turn := by
  refine forEach_skip h (fun cell hMem => ?_) fuel
  obtain ⟨node, hNode, hValue⟩ := h.live (List.mem_append_left rest hMem)
  exact removeTurn_of_neg hNode (hValue ▸ hNone cell hMem)

/-- Without a match the list stays as it is. -/
theorem Represents.removeLoop_of_none (h : Represents heap list cells)
    (hFuel : cells.length ≤ fuel) (hNone : ∀ cell ∈ cells, p cell.2 = .ok false) :
    removeLoop after p fuel heap list = .ok (heap, list, none) := by
  obtain ⟨more, rfl⟩ := Nat.exists_eq_add_of_le hFuel
  have hLinked : Linked heap none (cells ++ []) none := by simpa using h.linked
  rw [removeLoop, h.first, ← List.append_nil cells, List.length_append, List.length_nil,
    Nat.add_zero, forEach_removeTurn_skip hLinked hNone]
  exact forEach.eq_1 ..

/-- The turn on a matching node: it is taken out, and the loop goes on or is left as `after`
says. -/
theorem Represents.removeTurn_of_pos (h : Represents heap list (front ++ cell :: rest))
    (after : Removal V → Flow (Removal V)) (hPos : p cell.2 = .ok true) :
    ∃ heap' list', removeTurn after p (heap, list, none) cell.1 =
        .ok (after (heap', list', some cell.2)) ∧
      Represents heap' list' (front ++ rest) ∧
      Changes heap heap' (front ++ cell :: rest) (front ++ rest) := by
  obtain ⟨heap', list', hRemove, hAfter, hChanges⟩ := h.remove
  obtain ⟨-, hCell, -⟩ := linked_append.mp h.linked
  refine ⟨heap', list', ?_, hAfter, hChanges⟩
  simp [removeTurn, Heap.read_of_live hCell, bind, Except.bind, hPos, hRemove]

/-- A loop that leaves at once takes off the first match. -/
theorem Represents.removeLoop_leave (h : Represents heap list (front ++ cell :: rest))
    (hFuel : (front ++ cell :: rest).length ≤ fuel) (hNone : ∀ cell ∈ front, p cell.2 = .ok false)
    (hPos : p cell.2 = .ok true) :
    ∃ heap' list', removeLoop .leave p fuel heap list = .ok (heap', list', some cell.2) ∧
      Represents heap' list' (front ++ rest) ∧
      Changes heap heap' (front ++ cell :: rest) (front ++ rest) := by
  obtain ⟨heap', list', hTurn, hAfter, hChanges⟩ := h.removeTurn_of_pos .leave hPos
  refine ⟨heap', list', ?_, hAfter, hChanges⟩
  obtain ⟨more, rfl⟩ := Nat.exists_eq_add_of_le hFuel
  rw [removeLoop, h.first, List.length_append, List.length_cons, Nat.add_assoc,
    forEach_removeTurn_skip h.linked hNone, Nat.add_right_comm]
  exact forEach_leave hTurn _

end LinkedList

end MipStack
