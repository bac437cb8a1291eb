import Mathlib.Data.List.Nodup
import Mathlib.Tactic.Common

/-! Numbered tokens that are moved from place to place. Where each of them is, is one list of
places; what is at each place, the places themselves know. -/
namespace Placement

variable {Place : Type*}

/-- Every place lists the tokens that are there, each once. -/
structure Lists (contents : Place → List ℕ) (places : List Place) : Prop where
  nodup : ∀ place, (contents place).Nodup
  mem_iff : ∀ place token, token ∈ contents place ↔ places[token]? = some place

/-- Every place lists the other tokens that are there. -/
structure Lifted (contents : Place → List ℕ) (places : List Place) (token : ℕ) : Prop where
  nodup : ∀ place, (contents place).Nodup
  not_mem : ∀ place, token ∉ contents place
  mem_iff : ∀ place other, other ≠ token →
    (other ∈ contents place ↔ places[other]? = some place)

variable {contents contents' : Place → List ℕ} {places : List Place} {source target : Place}
  {token : ℕ}

theorem Lists.nil : Lists (fun _ : Place => []) [] :=
  ⟨fun _ => List.nodup_nil, fun _ _ => by simp⟩

/-- No token is at two places. -/
theorem Lists.unique (h : Lists contents places) (hSource : token ∈ contents source)
    (hTarget : token ∈ contents target) : source = target :=
  Option.some.inj (((h.mem_iff source token).mp hSource).symm.trans
    ((h.mem_iff target token).mp hTarget))

/-- Every token is at some place. -/
theorem Lists.exists_iff (h : Lists contents places) (token : ℕ) :
    (∃ place, token ∈ contents place) ↔ token < places.length := by
  constructor
  · rintro ⟨place, hMem⟩
    obtain ⟨hLt, -⟩ := List.getElem?_eq_some_iff.mp ((h.mem_iff place token).mp hMem)
    exact hLt
  · intro hLt
    exact ⟨places[token], (h.mem_iff _ token).mpr (List.getElem?_eq_getElem hLt)⟩

/-- A token is taken from its place. -/
theorem Lists.take (h : Lists contents places)
    (hSource : (contents source).Perm (token :: contents' source))
    (hOthers : ∀ place, place ≠ source → contents' place = contents place) :
    Lifted contents' places token ∧ token < places.length := by
  have hNodup : (token :: contents' source).Nodup := hSource.nodup (h.nodup source)
  obtain ⟨hToken, hRest⟩ := List.nodup_cons.mp hNodup
  have hThere : token ∈ contents source := hSource.mem_iff.mpr List.mem_cons_self
  refine ⟨⟨fun place => ?_, fun place => ?_, fun place other hOther => ?_⟩,
    (h.exists_iff token).mp ⟨source, hThere⟩⟩
  · by_cases hPlace : place = source
    · rw [hPlace]
      exact hRest
    · rw [hOthers place hPlace]
      exact h.nodup place
  · by_cases hPlace : place = source
    · rw [hPlace]
      exact hToken
    · rw [hOthers place hPlace]
      exact fun hMem => hPlace (h.unique hMem hThere)
  · rw [← h.mem_iff]
    by_cases hPlace : place = source
    · rw [hPlace, hSource.mem_iff, List.mem_cons, or_iff_right hOther]
    · rw [hOthers place hPlace]

/-- A new token, which is nowhere yet, gets the next number. -/
theorem Lists.fresh (h : Lists contents places) (place : Place) :
    Lifted contents (places ++ [place]) places.length := by
  refine ⟨h.nodup, fun other hMem => ?_, fun other token hToken => ?_⟩
  · exact absurd ((h.exists_iff _).mp ⟨other, hMem⟩) (Nat.lt_irrefl _)
  · rw [h.mem_iff, List.getElem?_append]
    split_ifs with hLt
    · exact Iff.rfl
    · have hBeyond : [place].length ≤ token - places.length := by
        rw [List.length_singleton]
        omega
      rw [List.getElem?_eq_none (Nat.le_of_not_lt hLt), List.getElem?_eq_none hBeyond]

/-- A token is put at a place. -/
theorem Lifted.put (h : Lifted contents places token) (hToken : token < places.length)
    (hTarget : contents' target = contents target ++ [token])
    (hOthers : ∀ place, place ≠ target → contents' place = contents place) :
    Lists contents' (places.set token target) := by
  refine ⟨fun place => ?_, fun place other => ?_⟩
  · by_cases hPlace : place = target
    · rw [hPlace, hTarget]
      rw [← List.concat_eq_append]
      exact (h.nodup target).concat (h.not_mem target)
    · rw [hOthers place hPlace]
      exact h.nodup place
  · by_cases hOther : other = token
    · subst hOther
      rw [List.getElem?_set_self hToken]
      by_cases hPlace : place = target
      · rw [hPlace, hTarget]
        simp
      · rw [hOthers place hPlace]
        exact iff_of_false (h.not_mem place) fun hEq => hPlace (Option.some.inj hEq).symm
    · rw [List.getElem?_set_ne (Ne.symm hOther), ← h.mem_iff place other hOther]
      by_cases hPlace : place = target
      · rw [hPlace, hTarget, List.mem_append, List.mem_singleton, or_iff_left hOther]
      · rw [hOthers place hPlace]

end Placement
