import Mathlib.Data.List.TakeWhile
import Mathlib.Data.Nat.Notation
import Mathlib.Tactic.Common

/-! Lists cut into parts of one size, of which the last may be shorter, and the
numbers for which a loop over consecutive numbers goes on. -/
namespace Chunks

variable {α : Type*}

/-- The parts before a number are the beginning of the list. -/
theorem flatMap_range (size : ℕ) (l : List α) (n : ℕ) :
    (List.range n).flatMap (fun i => (l.drop (i * size)).take size) = l.take (n * size) := by
  induction n with
  | zero => simp
  | succ n ih =>
      rw [List.range_succ, List.flatMap_append, ih, List.flatMap_singleton, Nat.succ_mul,
        List.take_add]

/-- Enough parts make up the list. -/
theorem flatMap_range_eq {size n : ℕ} {l : List α} (h : l.length ≤ n * size) :
    (List.range n).flatMap (fun i => (l.drop (i * size)).take size) = l := by
  rw [flatMap_range, List.take_of_length_le h]

variable {p : ℕ → Bool} {start inside rest : ℕ}

/-- A loop that goes on for the first numbers ends right after them exactly if no
number is left or the next one ends it. -/
theorem takeWhile_range'_eq_iff (hInside : ∀ k, start ≤ k → k < start + inside → p k) :
    (List.range' start (inside + rest)).takeWhile p = List.range' start inside ↔
      rest = 0 ∨ p (start + inside) = false := by
  have hAll : ∀ k ∈ List.range' start inside, p k := fun k hMem =>
    hInside k (List.mem_range'_1.mp hMem).1 (List.mem_range'_1.mp hMem).2
  have hSplit : List.range' start (inside + rest) =
      List.range' start inside ++ List.range' (start + inside) rest := by
    rw [← List.range'_append, Nat.one_mul]
  rw [hSplit, List.takeWhile_append_of_pos hAll, List.append_right_eq_self]
  cases rest with
  | zero => simp
  | succ rest => simp [List.range'_succ, List.takeWhile_cons]

/-- The numbers before the loop ends are consecutive. -/
theorem takeWhile_range'_eq (p : ℕ → Bool) (start turns : ℕ) :
    ∃ made ≤ turns, (List.range' start turns).takeWhile p = List.range' start made := by
  have hPrefix := List.takeWhile_prefix p (l := List.range' start turns)
  have hLength := hPrefix.length_le
  rw [List.length_range'] at hLength
  refine ⟨_, hLength, ?_⟩
  conv_lhs => rw [List.prefix_iff_eq_take.mp hPrefix]
  exact List.take_range'_of_length_ge hLength

/-- A loop that goes on for all numbers but one goes on no longer. -/
theorem length_takeWhile_range'_le_iff (p : ℕ → Bool) (start rest : ℕ) :
    ((List.range' start (rest + 1)).takeWhile p).length ≤ rest ↔
      ∃ k ≤ rest, p (start + k) = false := by
  have hPrefix := List.takeWhile_prefix p (l := List.range' start (rest + 1))
  have hLength := hPrefix.length_le
  rw [List.length_range'] at hLength
  have hAll : (List.range' start (rest + 1)).takeWhile p = List.range' start (rest + 1) ↔
      ((List.range' start (rest + 1)).takeWhile p).length = rest + 1 := by
    constructor
    · intro h
      rw [h, List.length_range']
    · intro h
      exact hPrefix.eq_of_length (by rw [h, List.length_range'])
  rw [List.takeWhile_eq_self_iff] at hAll
  constructor
  · intro hShort
    by_contra hNone
    have hLong := hAll.mp fun k hMem => by
      obtain ⟨hLow, hHigh⟩ := List.mem_range'_1.mp hMem
      by_contra hEnds
      refine hNone ⟨k - start, by omega, ?_⟩
      rw [Nat.add_sub_cancel' hLow]
      simpa using hEnds
    omega
  · rintro ⟨k, hk, hEnds⟩
    by_contra hLong
    have hGoesOn := hAll.mpr (by omega) (start + k) (List.mem_range'_1.mpr (by omega))
    rw [hEnds] at hGoesOn
    cases hGoesOn

end Chunks
