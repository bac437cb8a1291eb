import Mathlib.Data.Int.Notation
import Mathlib.Data.Nat.Notation
import Mathlib.Tactic.Common

/-! Arrays of a fixed capacity of which the first slots are in use. A removal shifts the
later slots to the left, and the slots that are not in use hold a blank. -/

/-- `size` slots are in use, counted from the first. -/
structure SlotArray (α : Type*) (capacity : ℕ) where
  entries : Vector α capacity
  size : ℤ
  deriving Repr

namespace SlotArray

variable {α : Type*} {capacity : ℕ}

def empty (blank : α) : SlotArray α capacity :=
  { entries := Vector.replicate capacity blank, size := 0 }

/-- The slots in use. -/
def used (a : SlotArray α capacity) : List α := a.entries.toList.take a.size.toNat

/-- `none` stands for a read outside the array. -/
def read (a : SlotArray α capacity) (i : ℤ) : Option α :=
  if 0 ≤ i then a.entries.toList[i.toNat]? else none

/-- `none` stands for a write outside the array. -/
def write (a : SlotArray α capacity) (i : ℤ) (x : α) : Option (SlotArray α capacity) :=
  if h : 0 ≤ i ∧ i < capacity then
    some { a with entries := a.entries.set i.toNat x (by omega) }
  else none

/-- As many slots as given, from slot `i` on, move one slot to the left. -/
def shiftLeft : ℕ → ℤ → SlotArray α capacity → Option (SlotArray α capacity)
  | 0, _, a => some a
  | n + 1, i, a =>
    match a.read i with
    | none => none
    | some x =>
      match a.write (i - 1) x with
      | none => none
      | some a => shiftLeft n (i + 1) a

/-- The values stand in the first slots, in this order, and all other slots are blank. -/
structure Holds (a : SlotArray α capacity) (blank : α) (values : List α) : Prop where
  size : a.size = values.length
  entries : a.entries.toList = values ++ List.replicate (capacity - values.length) blank

variable {a b : SlotArray α capacity} {blank x y : α} {before after rest values : List α} {i : ℤ}

theorem write_size (h : a.write i x = some b) : b.size = a.size := by
  unfold write at h
  split_ifs at h
  rw [← Option.some.inj h]

theorem shiftLeft_size {n : ℕ} (h : shiftLeft n i a = some b) : b.size = a.size := by
  induction n generalizing i a with
  | zero => exact congrArg size (Option.some.inj h).symm
  | succ n ih =>
      rw [shiftLeft] at h
      cases hRead : a.read i with
      | none => simp [hRead] at h
      | some x =>
          cases hWrite : a.write (i - 1) x with
          | none => simp [hRead, hWrite] at h
          | some c =>
              simp only [hRead, hWrite] at h
              rw [ih h, write_size hWrite]

/-- A slot is read by the number of slots before it. -/
theorem read_eq (h : a.entries.toList = before ++ x :: after) :
    a.read before.length = some x := by
  rw [read, if_pos (Int.natCast_nonneg _), h, Int.toNat_natCast,
    List.getElem?_append_right (Nat.le_refl _), Nat.sub_self]
  rfl

/-- A slot in the array can be written, and only that one changes. -/
theorem exists_write (h : a.entries.toList = before ++ x :: after) (y : α) :
    ∃ b, a.write before.length y = some b ∧ b.size = a.size ∧
      b.entries.toList = before ++ y :: after := by
  have hInside : before.length < capacity := by
    rw [← a.entries.length_toList, h, List.length_append, List.length_cons]
    omega
  refine ⟨_, dif_pos ⟨Int.natCast_nonneg _, Int.ofNat_lt.mpr hInside⟩, rfl, ?_⟩
  simp only [Vector.toList_set, h, Int.toNat_natCast, List.set_append_right _ _ (Nat.le_refl _),
    Nat.sub_self, List.set_cons_zero]

/-- The slots behind one move onto it, and the last of them is left twice. -/
theorem exists_shiftLeft (h : a.entries.toList = before ++ x :: (rest ++ after)) :
    ∃ b y, shiftLeft rest.length (before.length + 1) a = some b ∧ b.size = a.size ∧
      b.entries.toList = before ++ (rest ++ y :: after) := by
  induction rest generalizing a before x with
  | nil => exact ⟨a, x, rfl, rfl, h⟩
  | cons z rest ih =>
      have hRead : a.read (before.length + 1) = some z := by
        have hNext : a.entries.toList = (before ++ [x]) ++ z :: (rest ++ after) := by
          rw [h, List.append_assoc]
          rfl
        simpa using read_eq hNext
      obtain ⟨c, hWrite, hSize, hEntries⟩ := exists_write h z
      have hMoved : c.entries.toList = (before ++ [z]) ++ z :: (rest ++ after) := by
        rw [hEntries, List.append_assoc]
        rfl
      obtain ⟨b, y, hShift, hKept, hShifted⟩ := ih hMoved
      rw [List.length_append, List.length_singleton, Int.natCast_add, Int.natCast_one] at hShift
      refine ⟨b, y, ?_, hKept.trans hSize, ?_⟩
      · rw [List.length_cons, shiftLeft, hRead]
        simp only [Int.add_sub_cancel, hWrite]
        exact hShift
      · rw [hShifted, List.append_assoc]
        rfl

theorem Holds.empty (capacity : ℕ) (blank : α) :
    (empty blank : SlotArray α capacity).Holds blank [] :=
  ⟨rfl, by simp [SlotArray.empty]⟩

theorem Holds.length_le (h : a.Holds blank values) : values.length ≤ capacity := by
  rw [← a.entries.length_toList, h.entries, List.length_append]
  exact Nat.le_add_right _ _

/-- The used slots are the list that the array holds. The rest is blank and never looked at. -/
theorem Holds.used (h : a.Holds blank values) : a.used = values := by
  rw [SlotArray.used, h.entries, h.size, Int.toNat_natCast, List.take_left' rfl]

/-- A slot behind those in use is blank. -/
theorem Holds.blank_of_le (h : a.Holds blank values) {n : ℕ} (hn : a.size ≤ n)
    (hInside : n < capacity) : a.entries[n] = blank := by
  have hBehind : values.length ≤ n := by
    rw [h.size] at hn
    exact Int.ofNat_le.mp hn
  rw [← Vector.getElem_toList (by simpa using hInside)]
  simp only [h.entries, List.getElem_append_right hBehind, List.getElem_replicate]

/-- A way to establish that an array holds a shorter list after its slots were moved. -/
theorem Holds.of_entries (h : a.Holds blank values) (hLength : rest.length = values.length)
    (hSize : b.size = a.size)
    (hEntries : b.entries.toList =
      rest ++ List.replicate (capacity - values.length) blank) : b.Holds blank rest :=
  ⟨by rw [hSize, h.size, hLength], by rw [hEntries, hLength]⟩

/-- The slots around one in use. -/
theorem Holds.split (h : a.Holds blank (before ++ x :: after)) :
    a.entries.toList = before ++ x :: (after ++
      List.replicate (capacity - (before ++ x :: after).length) blank) := by
  rw [h.entries, List.append_assoc]
  rfl

/-- A slot in use is overwritten. -/
theorem Holds.set (h : a.Holds blank (before ++ x :: after)) (y : α) :
    ∃ b, a.write before.length y = some b ∧ b.Holds blank (before ++ y :: after) := by
  obtain ⟨b, hWrite, hSize, hEntries⟩ := exists_write h.split y
  refine ⟨b, hWrite, h.of_entries (by simp) hSize ?_⟩
  rw [hEntries, List.append_assoc]
  rfl

/-- The next free slot is filled. -/
theorem Holds.push (h : a.Holds blank values) (hFree : values.length < capacity) (y : α) :
    ∃ b, a.write a.size y = some b ∧
      ({ b with size := b.size + 1 } : SlotArray α capacity).Holds blank (values ++ [y]) := by
  obtain ⟨free, hCount⟩ : ∃ free, capacity - values.length = free + 1 :=
    ⟨capacity - values.length - 1, by omega⟩
  have hSplit := h.entries
  rw [hCount, List.replicate_succ] at hSplit
  obtain ⟨b, hWrite, hSize, hEntries⟩ := exists_write hSplit y
  refine ⟨b, by rw [h.size, hWrite], ?_, ?_⟩
  · simp [hSize, h.size]
  · have hLeft : capacity - (values ++ [y]).length = free := by
      rw [List.length_append, List.length_singleton]
      omega
    rw [hLeft, List.append_assoc]
    exact hEntries

/-- With all slots in use the next one lies outside the array. -/
theorem Holds.write_full (h : a.Holds blank values) (hFull : capacity ≤ values.length) (y : α) :
    a.write a.size y = none := by
  refine dif_neg fun hInside => ?_
  rw [h.size] at hInside
  omega

/-- Shifting the later slots and blanking the last one removes a slot. -/
theorem Holds.remove (h : a.Holds blank (before ++ x :: after)) :
    ∃ b c, shiftLeft after.length (before.length + 1) a = some b ∧ b.size = a.size ∧
      b.write (b.size - 1) blank = some c ∧
      ({ c with size := c.size - 1 } : SlotArray α capacity).Holds blank (before ++ after) := by
  obtain ⟨b, y, hShift, hSize, hShifted⟩ := exists_shiftLeft h.split
  rw [← List.append_assoc] at hShifted
  obtain ⟨c, hWrite, hKept, hEntries⟩ := exists_write hShifted blank
  have hLast : b.size - 1 = (before ++ after).length := by
    rw [hSize, h.size]
    simp only [List.length_append, List.length_cons]
    omega
  have hBlanks : capacity - (before ++ after).length =
      capacity - (before ++ x :: after).length + 1 := by
    have hFits := h.length_le
    simp only [List.length_append, List.length_cons] at hFits ⊢
    omega
  refine ⟨b, c, hShift, hSize, by rw [hLast, hWrite], ?_, ?_⟩
  · rw [← hLast, hKept]
  · rw [hBlanks, List.replicate_succ]
    exact hEntries

end SlotArray
