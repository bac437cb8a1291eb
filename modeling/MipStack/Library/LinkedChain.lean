import Mathlib.Data.List.Induction
import Mathlib.Data.List.Nodup
import MipStack.Library.Heap

/-! Doubly linked cells in a heap. A chain is described by the addresses and values
of its cells in order; a change of a few neighbouring cells is a splice. -/

structure LinkedCell (V : Type*) where
  next : Option ℕ
  prev : Option ℕ
  value : V
  deriving DecidableEq, Repr

namespace LinkedChain

variable {V : Type*}

/-- The pointer to the first cell, or what stands behind an empty chain. -/
def entry : List (ℕ × V) → Option ℕ → Option ℕ
  | [], behind => behind
  | cell :: _, _ => some cell.1

/-- The pointer to the last cell, or what stands before an empty chain. -/
def exit : Option ℕ → List (ℕ × V) → Option ℕ
  | before, [] => before
  | _, cell :: rest => exit (some cell.1) rest

def Linked (heap : Heap (LinkedCell V)) : Option ℕ → List (ℕ × V) → Option ℕ → Prop
  | _, [], _ => True
  | before, cell :: rest, behind =>
    heap cell.1 = some ⟨entry rest behind, before, cell.2⟩ ∧
      Linked heap (some cell.1) rest behind

/-- Following one of the two pointers from here leads through the cells to NULL. -/
def Visits (heap : Heap (LinkedCell V)) (move : LinkedCell V → Option ℕ) :
    Option ℕ → List (ℕ × V) → Prop
  | pointer, [] => pointer = none
  | pointer, cell :: rest =>
    pointer = some cell.1 ∧ ∃ node, heap cell.1 = some node ∧ node.value = cell.2 ∧
      Visits heap move (move node) rest

def addresses (cells : List (ℕ × V)) : List ℕ := cells.map Prod.fst

/-- From one chain to another only cells of the two change. -/
abbrev Changes (heap heap' : Heap (LinkedCell V)) (cells cells' : List (ℕ × V)) : Prop :=
  heap.Turnover heap' (addresses cells) (addresses cells')

variable {heap heap' : Heap (LinkedCell V)} {before behind : Option ℕ}
  {cells front middle middle' rest : List (ℕ × V)} {cell : ℕ × V}

theorem entry_append : entry (front ++ rest) behind = entry front (entry rest behind) := by
  cases front with
  | nil => rfl
  | cons cell front => rfl

theorem exit_append : exit before (front ++ rest) = exit (exit before front) rest := by
  induction front generalizing before with
  | nil => rfl
  | cons cell front ih => exact ih

theorem exit_concat : exit before (front ++ [cell]) = some cell.1 := exit_append

/-- A chain that is not empty is entered at one of its own nodes. -/
theorem exists_entry (behind : Option ℕ) (h : cells ≠ []) :
    ∃ a ∈ addresses cells, entry cells behind = some a := by
  cases cells with
  | nil => exact absurd rfl h
  | cons cell rest => exact ⟨cell.1, List.mem_cons_self, rfl⟩

/-- A chain that is not empty is left at one of its own nodes. -/
theorem exists_exit (before : Option ℕ) (h : cells ≠ []) :
    ∃ a ∈ addresses cells, exit before cells = some a := by
  rcases List.eq_nil_or_concat' cells with rfl | ⟨front, cell, rfl⟩
  · exact absurd rfl h
  · exact ⟨cell.1, List.mem_map_of_mem (List.mem_append_right _ List.mem_cons_self), exit_concat⟩

@[simp]
theorem addresses_append : addresses (front ++ rest) = addresses front ++ addresses rest :=
  List.map_append

@[simp]
theorem addresses_cons : addresses (cell :: rest) = cell.1 :: addresses rest := rfl

@[simp]
theorem addresses_nil : addresses ([] : List (ℕ × V)) = [] := rfl

theorem mem_addresses (h : cell ∈ cells) : cell.1 ∈ addresses cells := List.mem_map_of_mem h

/-- A stretch of a chain shares no address with what stands around it. -/
theorem not_mem_middle (h : (addresses (front ++ (middle ++ rest))).Nodup)
    {a : ℕ} (hMem : a ∈ addresses (front ++ rest)) : a ∉ addresses middle := by
  simp only [addresses_append] at h hMem
  obtain ⟨-, hOthers, hFront⟩ := List.nodup_append.mp h
  obtain ⟨-, -, hRest⟩ := List.nodup_append.mp hOthers
  intro hMiddle
  rcases List.mem_append.mp hMem with hc | hc
  · exact hFront _ hc _ (List.mem_append_left _ hMiddle) rfl
  · exact hRest _ hMiddle _ hc rfl

theorem nodup_middle (h : (addresses (front ++ (middle ++ rest))).Nodup) :
    (addresses middle).Nodup := by
  simp only [addresses_append] at h
  exact (List.nodup_append.mp (List.nodup_append.mp h).2.1).1

/-- A chain of two parts is linked exactly if both parts are, each seen from the node where the
other one begins or ends. Every proof about a change in the middle splits the chain with this. -/
theorem linked_append :
    Linked heap before (front ++ rest) behind ↔
      Linked heap before front (entry rest behind) ∧
        Linked heap (exit before front) rest behind := by
  induction front generalizing before with
  | nil => exact ⟨fun h => ⟨trivial, h⟩, And.right⟩
  | cons cell front ih =>
      simp only [List.cons_append, Linked, entry_append, exit, ih, and_assoc]

/-- Only the cells of the chain matter. -/
theorem Linked.congr (h : Linked heap before cells behind)
    (hSame : ∀ cell ∈ cells, heap' cell.1 = heap cell.1) : Linked heap' before cells behind := by
  induction cells generalizing before with
  | nil => trivial
  | cons cell rest ih =>
      obtain ⟨hCell, hRest⟩ := h
      exact ⟨(hSame cell List.mem_cons_self).trans hCell,
        ih hRest fun c hc => hSame c (List.mem_cons_of_mem cell hc)⟩

/-- The nodes of a chain are in use and have the values of its cells. -/
theorem Linked.live (h : Linked heap before cells behind) (hMem : cell ∈ cells) :
    ∃ node, heap cell.1 = some node ∧ node.value = cell.2 := by
  obtain ⟨front, rest, rfl⟩ := List.append_of_mem hMem
  obtain ⟨-, hCell, -⟩ := linked_append.mp h
  exact ⟨_, hCell, rfl⟩

/-- A stretch in the middle of a chain is exchanged. Neighbours that exist see the
same first and last address. -/
theorem Linked.splice (h : Linked heap before (front ++ (middle ++ rest)) behind)
    (hMiddle : Linked heap' (exit before front) middle' (entry rest behind))
    (hChanges : Changes heap heap' middle middle')
    (hNodup : (addresses (front ++ (middle ++ rest))).Nodup)
    (hNodup' : (addresses (front ++ (middle' ++ rest))).Nodup)
    (hEntry : front = [] ∨
      entry middle' (entry rest behind) = entry middle (entry rest behind))
    (hExit : rest = [] ∨
      exit (exit before front) middle' = exit (exit before front) middle) :
    Linked heap' before (front ++ (middle' ++ rest)) behind := by
  obtain ⟨hFront, hOthers⟩ := linked_append.mp h
  obtain ⟨-, hRest⟩ := linked_append.mp hOthers
  have hSame : ∀ cell ∈ front ++ rest, heap' cell.1 = heap cell.1 := fun cell hMem =>
    hChanges.elsewhere cell.1 (not_mem_middle hNodup (mem_addresses hMem))
      (not_mem_middle hNodup' (mem_addresses hMem))
  refine linked_append.mpr ⟨?_, linked_append.mpr ⟨hMiddle, ?_⟩⟩
  · rcases hEntry with rfl | hEntry
    · trivial
    · rw [entry_append, hEntry, ← entry_append]
      exact hFront.congr fun c hc => hSame c (List.mem_append_left _ hc)
  · rcases hExit with rfl | hExit
    · trivial
    · rw [hExit]
      exact hRest.congr fun c hc => hSame c (List.mem_append_right _ hc)

/-- A change of a stretch is a change of the chain around it. -/
theorem Changes.frame (h : Changes heap heap' middle middle') (front rest : List (ℕ × V)) :
    Changes heap heap' (front ++ (middle ++ rest)) (front ++ (middle' ++ rest)) := by
  simp only [Changes, addresses_append]
  exact Heap.Turnover.frame h (addresses front) (addresses rest)

/-- Following the `next` pointers visits the cells in order and ends with NULL. -/
theorem Linked.visits_next (h : Linked heap before cells none) :
    Visits heap LinkedCell.next (entry cells none) cells := by
  induction cells generalizing before with
  | nil => rfl
  | cons cell rest ih => exact ⟨rfl, _, h.1, rfl, ih h.2⟩

/-- Following the `prev` pointers from the end visits them in the opposite order. -/
theorem Linked.visits_prev (h : Linked heap none cells behind) :
    Visits heap LinkedCell.prev (exit none cells) cells.reverse := by
  induction cells using List.reverseRecOn generalizing behind with
  | nil => rfl
  | append_singleton front cell ih =>
      obtain ⟨hFront, hCell, -⟩ := linked_append.mp h
      rw [exit_concat, List.reverse_concat]
      exact ⟨rfl, _, hCell, rfl, ih hFront⟩

end LinkedChain
