import MipStack.Commons.ListLoops
import MipStack.Library.Execution

/-! Any number of lists on one heap, used in any order. What the lists hold is told by
the addresses and values of their nodes. -/
namespace MipStack
open LinkedChain

/-- The calls on one list, with the answers to their requests for memory. -/
inductive ListCall (V : Type) where
  | create
  | push (value : V) (node : Option ℕ)
  | unshift (value : V) (node : Option ℕ)
  | pop
  | shift
  | remove (node : ℕ)
  | destroy

/-- A list that was not created is a pointer that must not be followed. -/
structure ListStore (ι V : Type) where
  nodes : Heap (ListNode V)
  lists : ι → Option LinkedList

/-- What the lists hold. -/
abbrev Sequences (ι V : Type) := ι → Option (List (ℕ × V))

variable {ι V : Type}

namespace ListCall

/-- The nodes and the list after the call, and its result. -/
def run (nodes : Heap (ListNode V)) : Option LinkedList → ListCall V →
    Except Heap.Failure (Heap (ListNode V) × Option LinkedList × Option V)
  | _, .create => .ok (nodes, some LinkedList.create, none)
  | none, _ => .error .fault
  | some list, .push value node => do
    let (nodes, list) ← list.push nodes value node
    .ok (nodes, some list, none)
  | some list, .unshift value node => do
    let (nodes, list) ← list.unshift nodes value node
    .ok (nodes, some list, none)
  | some list, .pop => do
    let (nodes, list, value) ← list.pop nodes
    .ok (nodes, some list, value)
  | some list, .shift => do
    let (nodes, list, value) ← list.shift nodes
    .ok (nodes, some list, value)
  | some list, .remove node => do
    let (nodes, list, value) ← list.remove nodes (some node)
    .ok (nodes, some list, value)
  | some list, .destroy => do
    let nodes ← list.destroy list.count.toNat nodes
    .ok (nodes, none, none)

/-- What the call means for the sequence. A value for which there is no memory is
dropped without a word. -/
def meaning : Option (List (ℕ × V)) → ListCall V → Option (List (ℕ × V)) × Option V
  | _, .create => (some [], none)
  | none, _ => (none, none)
  | some cells, .push value node => (some (cells ++ (node.map fun a => (a, value)).toList), none)
  | some cells, .unshift value node => (some ((node.map fun a => (a, value)).toList ++ cells), none)
  | some cells, .pop => (some cells.dropLast, cells.getLast?.map Prod.snd)
  | some cells, .shift => (some cells.tail, cells.head?.map Prod.snd)
  | some cells, .remove node =>
    (some (cells.eraseP fun cell => cell.1 = node),
      (cells.find? fun cell => cell.1 = node).map Prod.snd)
  | some _, .destroy => (none, none)

/-- Memory in use is not given out again, a list is created before it is used, and
only its own nodes are removed from it. -/
def Legal (inUse : ℕ → Prop) : Option (List (ℕ × V)) → ListCall V → Prop
  | none, .create => True
  | none, _ => False
  | some _, .create => False
  | some _, .push _ node => ∀ a ∈ node, ¬ inUse a
  | some _, .unshift _ node => ∀ a ∈ node, ¬ inUse a
  | some cells, .remove node => node ∈ addresses cells
  | some _, _ => True

end ListCall

namespace Sequences

def empty : Sequences ι V := fun _ => none

def cells (s : Sequences ι V) (i : ι) : List (ℕ × V) := (s i).getD []

def perform [DecidableEq ι] (s : Sequences ι V) (c : ι × ListCall V) : Sequences ι V :=
  Function.update s c.1 (c.2.meaning (s c.1)).1

/-- The results of the calls, one after the other. -/
def results [DecidableEq ι] : Sequences ι V → List (ι × ListCall V) → List (Option V)
  | _, [] => []
  | s, c :: cs => (c.2.meaning (s c.1)).2 :: results (s.perform c) cs

def Legal (s : Sequences ι V) (c : ι × ListCall V) : Prop :=
  c.2.Legal (fun a => ∃ i, a ∈ addresses (s.cells i)) (s c.1)

end Sequences

namespace ListStore

def empty : ListStore ι V := ⟨fun _ => none, fun _ => none⟩

def perform [DecidableEq ι] (store : ListStore ι V) (c : ι × ListCall V) :
    Except Heap.Failure (ListStore ι V × Option V) := do
  let (nodes, list, value) ← c.2.run store.nodes (store.lists c.1)
  .ok (⟨nodes, Function.update store.lists c.1 list⟩, value)

def performAll [DecidableEq ι] (store : ListStore ι V) :
    List (ι × ListCall V) → Except Heap.Failure (ListStore ι V × List (Option V))
  | [] => .ok (store, [])
  | c :: cs => do
    let (store, value) ← store.perform c
    let (store, values) ← store.performAll cs
    .ok (store, value :: values)

end ListStore

/-- A list exists where a sequence does, and holds it. -/
def Holds (nodes : Heap (ListNode V)) : Option LinkedList → Option (List (ℕ × V)) → Prop
  | none, none => True
  | some list, some cells => list.Represents nodes cells
  | _, _ => False

/-- The lists hold the sequences, share no node, and there are no other nodes. -/
structure Models (store : ListStore ι V) (s : Sequences ι V) : Prop where
  holds : ∀ i, Holds store.nodes (store.lists i) (s i)
  apart : ∀ i j a, a ∈ addresses (s.cells i) → a ∈ addresses (s.cells j) → i = j
  owned : ∀ a, store.nodes a ≠ none → ∃ i, a ∈ addresses (s.cells i)

variable {nodes nodes' : Heap (ListNode V)} {list : Option LinkedList}
  {cells cells' : Option (List (ℕ × V))} {store store' : ListStore ι V} {s : Sequences ι V}
  {i : ι} {c : ListCall V} {cs : List (ι × ListCall V)}

theorem models_empty : Models (ListStore.empty : ListStore ι V) Sequences.empty :=
  ⟨fun _ => trivial, fun _ _ _ h => absurd h List.not_mem_nil, fun _ h => absurd rfl h⟩

/-- What a list holds depends on its own nodes only, so calls on other lists do not disturb it. -/
theorem Holds.congr (h : Holds nodes list cells)
    (hSame : ∀ cell ∈ cells.getD [], nodes' cell.1 = nodes cell.1) : Holds nodes' list cells := by
  match list, cells, h with
  | none, none, _ => trivial
  | some _, some _, h => exact LinkedList.Represents.congr h hSame

/-- Every node of a sequence is in use, so that malloc does not return it for another one. -/
theorem Models.live (h : Models store s) {a : ℕ} (hMem : a ∈ addresses (s.cells i)) :
    store.nodes a ≠ none := by
  obtain ⟨cell, hCell, rfl⟩ := List.mem_map.mp hMem
  have hHolds := h.holds i
  rw [Sequences.cells] at hCell
  cases hSeq : s i with
  | none =>
      rw [hSeq] at hCell
      cases hCell
  | some cells =>
      rw [hSeq] at hCell hHolds
      cases hList : store.lists i with
      | none => rw [hList] at hHolds; cases hHolds
      | some list =>
          rw [hList] at hHolds
          obtain ⟨node, hNode, -⟩ := hHolds.linked.live hCell
          exact hNode ▸ Option.some_ne_none node

/-- The call on this list does to it what it means. -/
def ListCall.RunsOn (c : ListCall V) (nodes : Heap (ListNode V)) (list : Option LinkedList)
    (cells : Option (List (ℕ × V))) : Prop :=
  ∃ nodes' list', c.run nodes list = .ok (nodes', list', (c.meaning cells).2) ∧
    Holds nodes' list' (c.meaning cells).1 ∧
    Changes nodes nodes' (cells.getD []) ((c.meaning cells).1.getD [])

section Calls

variable {list : LinkedList} {cells : List (ℕ × V)}

/-- On NULL from malloc the value is dropped and the list stays. -/
theorem push_runsOn (h : list.Represents nodes cells) (value : V) {node : Option ℕ}
    (hFree : ∀ a, node = some a → ¬ nodes a ≠ none) :
    (ListCall.push value node).RunsOn nodes (some list) (some cells) := by
  cases node with
  | none =>
      have hMeaning : (ListCall.push value none).meaning (some cells) = (some cells, none) := by
        simp [ListCall.meaning]
      rw [ListCall.RunsOn, hMeaning]
      exact ⟨nodes, some list, rfl, h, Heap.turnover_refl nodes _⟩
  | some node =>
      obtain ⟨nodes', list', hRun, hAfter, hChanges⟩ := h.push value (not_not.mp (hFree node rfl))
      exact ⟨nodes', some list', by rw [ListCall.run, hRun]; rfl, hAfter, hChanges⟩

/-- With the node that malloc returned, or NULL where it returned none. -/
theorem unshift_runsOn (h : list.Represents nodes cells) (value : V) {node : Option ℕ}
    (hFree : ∀ a, node = some a → ¬ nodes a ≠ none) :
    (ListCall.unshift value node).RunsOn nodes (some list) (some cells) := by
  cases node with
  | none => exact ⟨nodes, some list, rfl, h, Heap.turnover_refl nodes _⟩
  | some node =>
      obtain ⟨nodes', list', hRun, hAfter, hChanges⟩ :=
        h.unshift value (not_not.mp (hFree node rfl))
      exact ⟨nodes', some list', by rw [ListCall.run, hRun]; rfl, hAfter, hChanges⟩

/-- From an empty list NULL is returned. -/
theorem pop_runsOn (h : list.Represents nodes cells) :
    ListCall.pop.RunsOn nodes (some list) (some cells) := by
  rcases List.eq_nil_or_concat' cells with rfl | ⟨front, cell, rfl⟩
  · exact ⟨nodes, some list, by rw [ListCall.run, h.pop_nil]; rfl, h, Heap.turnover_refl nodes _⟩
  · obtain ⟨nodes', list', hRun, hAfter, hChanges⟩ := h.pop
    have hMeaning : ListCall.pop.meaning (some (front ++ [cell])) = (some front, some cell.2) := by
      simp [ListCall.meaning]
    rw [ListCall.RunsOn, hMeaning, ListCall.run, hRun]
    exact ⟨nodes', some list', rfl, hAfter, hChanges⟩

/-- As `pop`, from the other end. -/
theorem shift_runsOn (h : list.Represents nodes cells) :
    ListCall.shift.RunsOn nodes (some list) (some cells) := by
  cases cells with
  | nil =>
      exact ⟨nodes, some list, by rw [ListCall.run, h.shift_nil]; rfl, h,
        Heap.turnover_refl nodes _⟩
  | cons cell rest =>
      obtain ⟨nodes', list', hRun, hAfter, hChanges⟩ := h.shift
      exact ⟨nodes', some list', by rw [ListCall.run, hRun]; rfl, hAfter, hChanges⟩

/-- A node of the list is taken off at the place where the sequence has its value. -/
theorem remove_runsOn (h : list.Represents nodes cells) {node : ℕ} (hMem : node ∈ addresses cells) :
    (ListCall.remove node).RunsOn nodes (some list) (some cells) := by
  obtain ⟨cell, hCell, rfl⟩ := List.mem_map.mp hMem
  obtain ⟨found, front, rest, hFront, hFound, rfl, hErase⟩ := List.exists_of_eraseP
    (p := fun c : ℕ × V => c.1 = cell.1) hCell (decide_eq_true rfl)
  obtain ⟨nodes', list', hRun, hAfter, hChanges⟩ := h.remove
  have hAddress : found.1 = cell.1 := of_decide_eq_true hFound
  have hFind : (front ++ found :: rest).find? (fun c => c.1 = cell.1) = some found :=
    List.find?_eq_some_iff_append.mpr ⟨hFound, front, rest, rfl, fun c hc => by
      simpa using hFront c hc⟩
  refine ⟨nodes', some list', ?_, ?_, ?_⟩
  · rw [ListCall.run, ← hAddress, hRun, ListCall.meaning, hAddress, hFind]
    rfl
  · rw [ListCall.meaning, hErase]
    exact hAfter
  · rw [ListCall.meaning, hErase]
    exact hChanges

/-- Afterwards none of the nodes of the list is in use. -/
theorem destroy_runsOn (h : list.Represents nodes cells) :
    ListCall.destroy.RunsOn nodes (some list) (some cells) := by
  have hRun := h.destroy (Nat.le_of_eq (Int.toNat_natCast cells.length).symm)
  rw [← h.count] at hRun
  refine ⟨_, none, by rw [ListCall.run, hRun]; rfl, trivial, ?_, ?_, by simp [ListCall.meaning]⟩
  · exact fun a hOld _ => Heap.without_of_not_mem hOld
  · exact fun a hOld _ => Heap.without_of_mem hOld

end Calls

/-- Whichever call it is, on a list that exists or for one that does not exist yet. -/
theorem run_of_holds (h : Holds nodes list cells)
    (hLegal : c.Legal (fun a => nodes a ≠ none) cells) : c.RunsOn nodes list cells := by
  match list, cells, h with
  | none, none, _ =>
      cases c with
      | create =>
          exact ⟨nodes, some LinkedList.create, rfl, LinkedList.represents_create,
            Heap.turnover_refl nodes _⟩
      | _ => cases hLegal
  | some list, some cells, h =>
      cases c with
      | create => cases hLegal
      | push value node => exact push_runsOn h value hLegal
      | unshift value node => exact unshift_runsOn h value hLegal
      | pop => exact pop_runsOn h
      | shift => exact shift_runsOn h
      | remove node => exact remove_runsOn h hLegal
      | destroy => exact destroy_runsOn h

section Runs

variable [DecidableEq ι]

theorem cells_perform (s : Sequences ι V) (c : ι × ListCall V) (i : ι) :
    (s.perform c).cells i =
      if i = c.1 then (c.2.meaning (s c.1)).1.getD [] else s.cells i := by
  rw [Sequences.perform, Sequences.cells, Function.update_apply, Sequences.cells]
  split_ifs <;> rfl

/-- One call keeps the lists apart and loses no node. -/
theorem perform_of_models (h : Models store s) {c : ι × ListCall V} (hLegal : s.Legal c) :
    ∃ store', store.perform c = .ok (store', (c.2.meaning (s c.1)).2) ∧
      Models store' (s.perform c) := by
  have hInUse : ∀ a, store.nodes a ≠ none ↔ ∃ i, a ∈ addresses (s.cells i) :=
    fun a => ⟨h.owned a, fun ⟨_, hMem⟩ => h.live hMem⟩
  have hLegal' : c.2.Legal (fun a => store.nodes a ≠ none) (s c.1) := by
    simp only [hInUse]
    exact hLegal
  obtain ⟨nodes', list', hRun, hHolds, hChanges⟩ := run_of_holds (h.holds c.1) hLegal'
  -- What the list of the call holds afterwards is no node of another list.
  have hOther : ∀ i, i ≠ c.1 → ∀ a ∈ addresses (s.cells i),
      a ∉ addresses ((c.2.meaning (s c.1)).1.getD []) := by
    intro i hNe a hMem hNew
    rcases hChanges.fresh a hNew with hOld | hFresh
    · exact hNe (h.apart i c.1 a hMem hOld)
    · exact h.live hMem hFresh
  refine ⟨⟨nodes', Function.update store.lists c.1 list'⟩, ?_, ?_, ?_, ?_⟩
  · rw [ListStore.perform, hRun]
    rfl
  · intro i
    by_cases hi : i = c.1
    · subst hi
      simpa only [Sequences.perform, Function.update_self] using hHolds
    · simp only [Sequences.perform, Function.update_of_ne hi]
      refine (h.holds i).congr fun cell hCell => hChanges.elsewhere cell.1 ?_ ?_
      · exact fun hMem => hi (h.apart i c.1 cell.1 (mem_addresses hCell) hMem)
      · exact hOther i hi cell.1 (mem_addresses hCell)
  · intro i j a hi hj
    rw [cells_perform] at hi hj
    split_ifs at hi hj with hFirst hSecond hSecond
    · exact hFirst.trans hSecond.symm
    · exact absurd hi (hOther j hSecond a hj)
    · exact absurd hj (hOther i hFirst a hi)
    · exact h.apart i j a hi hj
  · intro a (hLive : nodes' a ≠ none)
    by_cases hNew : a ∈ addresses ((c.2.meaning (s c.1)).1.getD [])
    · exact ⟨c.1, by rwa [cells_perform, if_pos rfl]⟩
    · by_cases hOld : a ∈ addresses (s.cells c.1)
      · exact absurd (hChanges.gone a hOld hNew) hLive
      · rw [hChanges.elsewhere a hOld hNew] at hLive
        obtain ⟨i, hMem⟩ := h.owned a hLive
        have hNe : i ≠ c.1 := by
          rintro rfl
          exact hOld hMem
        exact ⟨i, by rwa [cells_perform, if_neg hNe]⟩

/-- The run lemma: the lists in the heap follow the sequences call by call, with the same
results. -/
theorem performAll_of_models (h : Models store s)
    (hLegal : Execution.Runs Sequences.Legal Sequences.perform s cs) :
    ∃ store', store.performAll cs = .ok (store', s.results cs) ∧
      Models store' (cs.foldl Sequences.perform s) := by
  induction cs generalizing store s with
  | nil => exact ⟨store, rfl, h⟩
  | cons c cs ih =>
      obtain ⟨middle, hFirst, hMiddle⟩ := perform_of_models h hLegal.1
      obtain ⟨store', hRest, hEnd⟩ := ih hMiddle hLegal.2
      refine ⟨store', ?_, hEnd⟩
      simp only [ListStore.performAll, hFirst, bind, Except.bind, hRest, Sequences.results]

/-- Whatever is done with any number of lists, no call reads, writes or frees a node it
must not, each gives the value a sequence would give, the lists show the same values
from both ends, and exactly their nodes are in use. -/
theorem lists_refine_sequences
    (hLegal : Execution.Runs Sequences.Legal Sequences.perform
      (Sequences.empty : Sequences ι V) cs) :
    ∃ store, ListStore.empty.performAll cs = .ok (store, Sequences.empty.results cs) ∧
      (∀ a, store.nodes a ≠ none ↔
        ∃ i, a ∈ addresses ((cs.foldl Sequences.perform Sequences.empty).cells i)) ∧
      ∀ i cells, cs.foldl Sequences.perform Sequences.empty i = some cells →
        ∃ list, store.lists i = some list ∧ list.count = cells.length ∧
          ∀ fuel, cells.length ≤ fuel →
            LinkedList.values store.nodes LinkedCell.next fuel list.first =
              .ok (cells.map Prod.snd) ∧
            LinkedList.values store.nodes LinkedCell.prev fuel list.last =
              .ok (cells.map Prod.snd).reverse := by
  obtain ⟨store, hRun, hModels⟩ := performAll_of_models models_empty hLegal
  refine ⟨store, hRun, fun a => ⟨hModels.owned a, fun ⟨_, hMem⟩ => hModels.live hMem⟩, ?_⟩
  intro i cells hCells
  have hHolds := hModels.holds i
  rw [hCells] at hHolds
  cases hList : store.lists i with
  | none => rw [hList] at hHolds; cases hHolds
  | some list =>
      rw [hList] at hHolds
      exact ⟨list, rfl, hHolds.count, fun fuel hFuel =>
        ⟨hHolds.values_next hFuel, hHolds.values_prev hFuel⟩⟩

/-- Two lists, where the second reuses the node the first has given back. -/
def twoLists : List (Bool × ListCall ℕ) :=
  [(false, .create), (true, .create), (false, .push 10 (some 0)), (true, .unshift 20 (some 1)),
    (false, .unshift 30 (some 2)), (false, .remove 0), (true, .push 40 (some 0)), (true, .shift),
    (false, .destroy)]

/-- Two lists in one heap whose calls take turns. What is left of the first one is read from
memory. -/
theorem lists_refine_sequences_twoLists :
    ∃ store, ListStore.empty.performAll twoLists =
        .ok (store, [none, none, none, none, none, some 10, none, some 20, none]) ∧
      ∃ list, store.lists true = some list ∧
        LinkedList.values store.nodes LinkedCell.next 1 list.first = .ok [40] := by
  have hLegal : Execution.Runs Sequences.Legal Sequences.perform Sequences.empty twoLists := by
    simp [twoLists, Execution.Runs, Sequences.Legal, ListCall.Legal, Sequences.perform,
      Sequences.empty, ListCall.meaning, Sequences.cells, Function.update_apply, addresses]
  obtain ⟨store, hRun, -, hLists⟩ := lists_refine_sequences hLegal
  obtain ⟨list, hList, -, hValues⟩ := hLists true [(0, 40)] rfl
  exact ⟨store, hRun, list, hList, (hValues 1 le_rfl).1⟩

end Runs

end MipStack
