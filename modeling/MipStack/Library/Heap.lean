import Mathlib.Data.List.ReduceOption
import Mathlib.Data.Fintype.EquivFin
import Mathlib.Data.Set.Card
import Mathlib.Logic.Function.Basic
import Mathlib.Order.Lattice.Nat
import Mathlib.Tactic.Common

/-! Heaps of cells of one type. A pointer is an address or NULL; what is not live
can be neither read nor freed. -/
namespace Heap

/-- How an operation on a heap fails: at a pointer without a live cell, or because a
loop was not given enough turns. -/
inductive Failure where
  | fault
  | outOfFuel
  deriving DecidableEq, Repr

end Heap

/-- The live cells. -/
abbrev Heap (α : Type*) := ℕ → Option α

namespace Heap

variable {α : Type*} {heap : Heap α} {address other : ℕ} {cell : α} {update : α → α}

def read (heap : Heap α) (pointer : Option ℕ) : Except Failure α :=
  match pointer.bind heap with
  | none => .error .fault
  | some cell => .ok cell

/-- A fresh cell. The address is the allocator's to choose. -/
def alloc (heap : Heap α) (address : ℕ) (cell : α) : Heap α :=
  Function.update heap address (some cell)

def modify (heap : Heap α) (pointer : Option ℕ) (update : α → α) : Except Failure (Heap α) :=
  match pointer with
  | none => .error .fault
  | some address =>
    match heap address with
    | none => .error .fault
    | some cell => .ok (Function.update heap address (some (update cell)))

/-- Freeing NULL does nothing. -/
def free (heap : Heap α) (pointer : Option ℕ) : Except Failure (Heap α) :=
  match pointer with
  | none => .ok heap
  | some address =>
    match heap address with
    | none => .error .fault
    | some _ => .ok (Function.update heap address none)

/-- The heap without the cells at these addresses. -/
def without (heap : Heap α) (dead : List ℕ) : Heap α := fun a => if a ∈ dead then none else heap a

theorem read_of_live (h : heap address = some cell) : heap.read (some address) = .ok cell := by
  simp only [read, Option.bind_some, h]

theorem read_of_dead (h : heap address = none) : heap.read (some address) = .error .fault := by
  simp only [read, Option.bind_some, h]

theorem modify_of_live (update : α → α) (h : heap address = some cell) :
    heap.modify (some address) update =
      .ok (Function.update heap address (some (update cell))) := by
  simp only [modify, h]

@[simp]
theorem alloc_same : heap.alloc address cell address = some cell := by
  rw [alloc, Function.update_self]

theorem alloc_of_ne (h : other ≠ address) : heap.alloc address cell other = heap other := by
  rw [alloc, Function.update_of_ne h]

variable {dead dead' : List ℕ}

theorem without_of_mem (h : address ∈ dead) : heap.without dead address = none := if_pos h

theorem without_of_not_mem (h : address ∉ dead) : heap.without dead address = heap address :=
  if_neg h

@[simp]
theorem without_nil : heap.without [] = heap := by
  funext a
  exact without_of_not_mem List.not_mem_nil

theorem without_append : (heap.without dead).without dead' = heap.without (dead ++ dead') := by
  funext a
  by_cases hSecond : a ∈ dead'
  · rw [without_of_mem hSecond, without_of_mem (List.mem_append_right _ hSecond)]
  · rw [without_of_not_mem hSecond]
    by_cases hFirst : a ∈ dead
    · rw [without_of_mem hFirst, without_of_mem (List.mem_append_left _ hFirst)]
    · rw [without_of_not_mem hFirst, without_of_not_mem (List.not_mem_append hFirst hSecond)]

theorem free_of_live (h : heap address = some cell) :
    heap.free (some address) = .ok (Function.update heap address none) := by
  simp only [free, h]

theorem update_none : Function.update heap address none = heap.without [address] := by
  funext a
  by_cases hEq : a = address
  · rw [hEq, Function.update_self, without_of_mem List.mem_cons_self]
  · rw [Function.update_of_ne hEq, without_of_not_mem (by simpa using hEq)]

/-- Freeing one pointer after the other, each of them live and none twice. -/
theorem foldlM_free {pointers : List (Option ℕ)} (hNodup : pointers.reduceOption.Nodup)
    (hLive : ∀ a ∈ pointers.reduceOption, heap a ≠ none) :
    pointers.foldlM free heap = .ok (heap.without pointers.reduceOption) := by
  induction pointers generalizing heap with
  | nil => rw [List.foldlM_nil, List.reduceOption_nil, without_nil]; rfl
  | cons pointer rest ih =>
      cases pointer with
      | none =>
          rw [List.reduceOption_cons_of_none] at hNodup hLive ⊢
          exact ih hNodup hLive
      | some address =>
          rw [List.reduceOption_cons_of_some] at hNodup hLive ⊢
          obtain ⟨hHead, hRest⟩ := List.nodup_cons.mp hNodup
          obtain ⟨cell, hCell⟩ := Option.ne_none_iff_exists'.mp (hLive address List.mem_cons_self)
          rw [List.foldlM_cons, free_of_live hCell, update_none]
          refine (ih hRest fun a ha => ?_).trans (by rw [without_append]; rfl)
          rw [without_of_not_mem (by rintro hEq; exact hHead (List.mem_singleton.mp hEq ▸ ha))]
          exact hLive a (List.mem_cons_of_mem _ ha)

/-- The cells in use, each listed once. -/
structure Allocated (heap : Heap α) (live : List ℕ) : Prop where
  nodup : live.Nodup
  live_iff : ∀ a, heap a ≠ none ↔ a ∈ live

/-- The owner of some cells exchanges them for others: what it gives up is freed, what
it takes was not in use, and the cells of others stay. -/
structure Turnover (heap heap' : Heap α) (old new : List ℕ) : Prop where
  elsewhere : ∀ a, a ∉ old → a ∉ new → heap' a = heap a
  gone : ∀ a ∈ old, a ∉ new → heap' a = none
  fresh : ∀ a ∈ new, a ∈ old ∨ heap a = none

variable {heap' heap'' : Heap α} {live old new newer others : List ℕ}

theorem turnover_refl (heap : Heap α) (old : List ℕ) : Turnover heap heap old old :=
  ⟨fun _ _ _ => rfl, fun _ hMem hGone => absurd hMem hGone, fun _ hMem => Or.inl hMem⟩

/-- An address that was given up in between may have been taken again. -/
theorem Turnover.trans (first : Turnover heap heap' old new)
    (second : Turnover heap' heap'' new newer) : Turnover heap heap'' old newer := by
  constructor
  · intro a hOld hNewer
    by_cases hNew : a ∈ new
    · rw [second.gone a hNew hNewer, (first.fresh a hNew).resolve_left hOld]
    · rw [second.elsewhere a hNew hNewer, first.elsewhere a hOld hNew]
  · intro a hOld hNewer
    by_cases hNew : a ∈ new
    · exact second.gone a hNew hNewer
    · rw [second.elsewhere a hNew hNewer, first.gone a hOld hNew]
  · intro a hNewer
    by_cases hOld : a ∈ old
    · exact Or.inl hOld
    · refine Or.inr ?_
      by_cases hNew : a ∈ new
      · exact (first.fresh a hNew).resolve_left hOld
      · rw [← first.elsewhere a hOld hNew]
        exact (second.fresh a hNewer).resolve_left hNew

/-- A turnover seen by an owner of more cells. -/
theorem Turnover.frame (h : Turnover heap heap' old new) (before behind : List ℕ) :
    Turnover heap heap' (before ++ (old ++ behind)) (before ++ (new ++ behind)) := by
  constructor
  · intro a hOld hNew
    simp only [List.mem_append, not_or] at hOld hNew
    exact h.elsewhere a hOld.2.1 hNew.2.1
  · intro a hOld hNew
    simp only [List.mem_append, not_or] at hOld hNew
    rcases hOld with hBefore | hMiddle | hBehind
    · exact absurd hBefore hNew.1
    · exact h.gone a hMiddle hNew.2.1
    · exact absurd hBehind hNew.2.2
  · intro a hNew
    simp only [List.mem_append] at hNew ⊢
    rcases hNew with hBefore | hMiddle | hBehind
    · exact Or.inl (Or.inl hBefore)
    · exact (h.fresh a hMiddle).imp_left fun hOld => Or.inr (Or.inl hOld)
    · exact Or.inl (Or.inr (Or.inr hBehind))

/-- An allocation adds one live address to those that are accounted for. -/
theorem turnover_alloc (h : heap address = none) (cell : α) (old : List ℕ) :
    Turnover heap (heap.alloc address cell) old (old ++ [address]) := by
  constructor
  · exact fun a _ hNew => alloc_of_ne fun hEq => hNew (by simp [hEq])
  · exact fun a hOld hNew => absurd (List.mem_append_left _ hOld) hNew
  · intro a hNew
    rcases List.mem_append.mp hNew with hOld | hEq
    · exact Or.inl hOld
    · rw [List.mem_singleton.mp hEq]
      exact Or.inr h

/-- A free takes one address out of those that are accounted for, wherever it stands among them.
-/
theorem turnover_free {front rest : List ℕ} (hNodup : (front ++ address :: rest).Nodup) :
    Turnover heap (Function.update heap address none) (front ++ address :: rest)
      (front ++ rest) := by
  have hGone : address ∉ front ++ rest := (List.nodup_cons.mp (List.nodup_middle.mp hNodup)).1
  have hOld : ∀ a, a ∈ front ++ address :: rest ↔ a = address ∨ a ∈ front ++ rest := by
    intro a
    simp only [List.mem_append, List.mem_cons]
    tauto
  refine ⟨fun a ha _ => ?_, fun a ha hNew => ?_, fun a ha => Or.inl ((hOld a).mpr (Or.inr ha))⟩
  · exact Function.update_of_ne (fun hEq => ha ((hOld a).mpr (Or.inl hEq))) ..
  · rw [((hOld a).mp ha).resolve_right hNew]
    exact Function.update_self ..

/-- Dropping many cells at once leaves the kept ones as they were. -/
theorem turnover_without (heap : Heap α) (dead kept : List ℕ) :
    Turnover heap (heap.without dead) (dead ++ kept) kept := by
  refine ⟨fun a ha _ => ?_, fun a ha hKept => ?_, fun a ha => Or.inl (List.mem_append_right _ ha)⟩
  · exact without_of_not_mem fun hDead => ha (List.mem_append_left _ hDead)
  · exact without_of_mem ((List.mem_append.mp ha).resolve_right hKept)

/-- Cells of others are not touched: what was in use before and is not listed stays. -/
theorem Turnover.untouched (h : Turnover heap heap' old new) {a : ℕ} (hLive : heap a ≠ none)
    (hOld : a ∉ old) : heap' a = heap a :=
  h.elsewhere a hOld fun hNew => (h.fresh a hNew).elim hOld hLive

theorem Allocated.perm {live' : List ℕ} (h : Allocated heap live) (hPerm : live.Perm live') :
    Allocated heap live' :=
  ⟨hPerm.nodup_iff.mp h.nodup, fun a => (h.live_iff a).trans hPerm.mem_iff⟩

/-- The number of cells in use is the length of the list of live addresses: this is what turns an
account of addresses into a count of leaks. -/
theorem Allocated.ncard_eq (h : Allocated heap live) : {a | heap a ≠ none}.ncard = live.length := by
  have hSet : {a | heap a ≠ none} = (live.toFinset : Set ℕ) := by
    ext a
    simp [h.live_iff a]
  rw [hSet, Set.ncard_coe_finset, List.toFinset_card_of_nodup h.nodup]

/-- The books stay right: after a change the live addresses are the others and the new ones. -/
theorem Allocated.turnover (h : Allocated heap (others ++ old))
    (hTurnover : Turnover heap heap' old new) (hNodup : new.Nodup)
    (hLive : ∀ a ∈ new, heap' a ≠ none) : Allocated heap' (others ++ new) := by
  obtain ⟨hOthers, -, hApart⟩ := List.nodup_append.mp h.nodup
  have hOther : ∀ a ∈ others, heap a ≠ none ∧ a ∉ old := fun a ha =>
    ⟨(h.live_iff a).mpr (List.mem_append_left _ ha), fun hOld => hApart a ha a hOld rfl⟩
  constructor
  · refine List.nodup_append.mpr ⟨hOthers, hNodup, ?_⟩
    rintro a ha b hb rfl
    exact (hTurnover.fresh a hb).elim (hOther a ha).2 (hOther a ha).1
  · intro a
    constructor
    · intro hUsed
      by_cases hNew : a ∈ new
      · exact List.mem_append_right _ hNew
      · by_cases hOld : a ∈ old
        · exact absurd (hTurnover.gone a hOld hNew) hUsed
        · rw [hTurnover.elsewhere a hOld hNew] at hUsed
          exact List.mem_append_left _
            ((List.mem_append.mp ((h.live_iff a).mp hUsed)).resolve_right hOld)
    · intro hMem
      rcases List.mem_append.mp hMem with ha | hNew
      · rw [hTurnover.untouched (hOther a ha).1 (hOther a ha).2]
        exact (hOther a ha).1
      · exact hLive a hNew

/-- A fresh cell is one more that is live. -/
theorem Allocated.alloc (h : Allocated heap live) (hFresh : heap address = none) (cell : α) :
    Allocated (heap.alloc address cell) (address :: live) := by
  have hNew : address ∉ live := fun hMem => (h.live_iff address).mpr hMem hFresh
  refine ⟨List.nodup_cons.mpr ⟨hNew, h.nodup⟩, fun a => ?_⟩
  by_cases hEq : a = address
  · subst hEq
    exact iff_of_true (by simp) List.mem_cons_self
  · rw [alloc_of_ne hEq, h.live_iff, List.mem_cons, or_iff_right hEq]

theorem Allocated.exists_live (h : Allocated heap live) (hMem : address ∈ live) :
    ∃ cell, heap address = some cell :=
  Option.ne_none_iff_exists'.mp ((h.live_iff address).mpr hMem)

/-- What is freed is in use no more, and it was in use before. -/
theorem Allocated.free (h : Allocated heap (address :: live)) :
    heap.free (some address) = .ok (Function.update heap address none) ∧
      Allocated (Function.update heap address none) live := by
  obtain ⟨cell, hCell⟩ := h.exists_live List.mem_cons_self
  obtain ⟨hGone, hNodup⟩ := List.nodup_cons.mp h.nodup
  refine ⟨free_of_live hCell, hNodup, fun a => ?_⟩
  by_cases hEq : a = address
  · subst hEq
    exact iff_of_false (by simp) hGone
  · rw [Function.update_of_ne hEq, h.live_iff, List.mem_cons, or_iff_right hEq]

/-- Writing to a live cell neither allocates nor frees. -/
theorem Allocated.overwrite (h : Allocated heap live) (hMem : address ∈ live) (cell : α) :
    Allocated (Function.update heap address (some cell)) live := by
  refine ⟨h.nodup, fun a => ?_⟩
  by_cases hEq : a = address
  · subst hEq
    exact iff_of_true (by simp) hMem
  · rw [Function.update_of_ne hEq, h.live_iff]

/-- An allocator gives out an address that is free, as long as there is one. -/
structure Allocator (α : Type*) where
  malloc : Heap α → ℕ
  fresh : ∀ heap : Heap α, (∃ a, heap a = none) → heap (malloc heap) = none

open Classical in
/-- The least free address from a start on, and the least one of all when there is none. -/
noncomputable def Allocator.firstFit (α : Type*) (start : ℕ) : Allocator α where
  malloc heap :=
    if ∃ a, start ≤ a ∧ heap a = none then sInf {a | start ≤ a ∧ heap a = none}
    else sInf {a | heap a = none}
  fresh heap hFree := by
    split_ifs with hAbove
    · exact (Nat.sInf_mem hAbove).2
    · exact Nat.sInf_mem hFree

/-- With finitely many cells in use there is always a free address, so the allocator returns one
of these. -/
theorem Allocator.fresh_of_allocated (allocator : Allocator α) {live : List ℕ}
    (h : Allocated heap live) : heap (allocator.malloc heap) = none := by
  refine allocator.fresh heap ?_
  obtain ⟨a, ha⟩ := Infinite.exists_notMem_finset live.toFinset
  exact ⟨a, not_not.mp fun hUsed => ha (List.mem_toFinset.mpr ((h.live_iff a).mp hUsed))⟩

/-- The first fit goes no farther than there are cells in use. -/
theorem Allocator.firstFit_bounds {live : List ℕ} (h : Allocated heap live) (start : ℕ) :
    start ≤ (firstFit α start).malloc heap ∧
      (firstFit α start).malloc heap ≤ start + live.length := by
  have hCard : live.toFinset.card < (Finset.Icc start (start + live.length)).card := by
    rw [Nat.card_Icc]
    have hLive := live.toFinset_card_le
    omega
  obtain ⟨a, hRange, hUnused⟩ := Finset.exists_mem_notMem_of_card_lt_card hCard
  obtain ⟨hStart, hEnd⟩ := Finset.mem_Icc.mp hRange
  have hFree : heap a = none :=
    not_not.mp fun hUsed => hUnused (List.mem_toFinset.mpr ((h.live_iff a).mp hUsed))
  have hAbove : ∃ a, start ≤ a ∧ heap a = none := ⟨a, hStart, hFree⟩
  rw [firstFit]
  simp only [if_pos hAbove]
  exact ⟨(Nat.sInf_mem hAbove).1, (Nat.sInf_le (And.intro hStart hFree)).trans hEnd⟩

end Heap
