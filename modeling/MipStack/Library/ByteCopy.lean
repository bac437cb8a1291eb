import Mathlib.Data.List.Basic
import Mathlib.Data.Nat.Notation
import Mathlib.Tactic.Common

/-! Copies of ranges of bytes, with the indices that they read and write. -/

/-- As many bytes as given, from the index `source` on, go to the indices from `target` on. -/
structure ByteCopy where
  target : ℕ
  source : ℕ
  count : ℕ
  deriving DecidableEq, Repr

namespace ByteCopy

def reads (c : ByteCopy) : List ℕ := List.range' c.source c.count

def writes (c : ByteCopy) : List ℕ := List.range' c.target c.count

/-- One byte after the other. An index behind the end is not written. -/
def run (memory : ℕ → UInt8) (c : ByteCopy) (bytes : List UInt8) : List UInt8 :=
  (List.range c.count).foldl
    (fun bytes i => bytes.set (c.target + i) (memory (c.source + i))) bytes

/-- A block of indices stays below a bound exactly if it is empty or its end does. An empty copy
is harmless wherever it starts. -/
theorem forall_range'_lt_iff {start count n : ℕ} :
    (∀ i ∈ List.range' start count, i < n) ↔ count = 0 ∨ start + count ≤ n := by
  constructor
  · intro h
    cases count with
    | zero => exact Or.inl rfl
    | succ count =>
        have hLast := h (start + count) (List.mem_range'_1.mpr ⟨Nat.le_add_right _ _, by omega⟩)
        exact Or.inr hLast
  · intro h i hMem
    have hRange := List.mem_range'_1.mp hMem
    omega

/-- A copy reads inside an object of `n` bytes exactly if it copies nothing or its last byte read
is in the object. -/
theorem reads_lt_iff {c : ByteCopy} {n : ℕ} :
    (∀ i ∈ c.reads, i < n) ↔ c.count = 0 ∨ c.source + c.count ≤ n :=
  forall_range'_lt_iff

theorem writes_lt_iff {c : ByteCopy} {n : ℕ} :
    (∀ i ∈ c.writes, i < n) ↔ c.count = 0 ∨ c.target + c.count ≤ n :=
  forall_range'_lt_iff

/-- A copy that fits replaces the bytes that it writes and no others. -/
theorem run_eq (memory : ℕ → UInt8) (c : ByteCopy) {bytes : List UInt8}
    (hFits : c.target + c.count ≤ bytes.length) :
    c.run memory bytes = bytes.take c.target ++
      (c.reads.map memory ++ bytes.drop (c.target + c.count)) := by
  obtain ⟨target, source, count⟩ := c
  simp only [run, reads] at hFits ⊢
  induction count with
  | zero => simp
  | succ count ih =>
      have hInside : target + count < bytes.length := hFits
      have hLength : (bytes.take target ++ (List.range' source count).map memory).length =
          target + count := by
        simp only [List.length_append, List.length_take, List.length_map, List.length_range']
        omega
      rw [List.range_succ, List.foldl_append, ih (Nat.le_of_lt hInside), List.foldl_cons,
        List.foldl_nil, List.drop_eq_getElem_cons hInside, ← List.append_assoc,
        List.set_append_right _ _ (Nat.le_of_eq hLength), hLength, Nat.sub_self, List.set_cons_zero,
        List.range'_1_concat, List.map_append, List.append_assoc, List.append_assoc]
      rfl

end ByteCopy
