import Mathlib.Data.List.Nodup
import Mathlib.Data.Set.Card

/-! Lists of records with pairwise distinct keys, searched from the front. -/
namespace KeyedList

variable {α κ : Type*} [DecidableEq κ] (key : α → κ)

/-- Remove the first record with the key of `x`, then append `x`. -/
def replace (x : α) (l : List α) : List α := (l.eraseP fun y => key y = key x) ++ [x]

variable {key} {x z : α} {k : κ} {l : List α}

/-- With distinct keys a search finds exactly the record that is present. -/
theorem find?_eq_some_iff (hNodup : (l.map key).Nodup) :
    l.find? (fun y => key y = k) = some z ↔ z ∈ l ∧ key z = k := by
  constructor
  · intro h
    exact ⟨List.mem_of_find?_eq_some h, by simpa using List.find?_some h⟩
  · rintro ⟨hMem, hKey⟩
    cases hFind : l.find? (fun y => key y = k) with
    | none =>
        have hAbsent := List.find?_eq_none.mp hFind z hMem
        simp [hKey] at hAbsent
    | some y =>
        have hy : key y = k := by simpa using List.find?_some hFind
        have hEq := List.inj_on_of_nodup_map hNodup (List.mem_of_find?_eq_some hFind) hMem
          (hy.trans hKey.symm)
        rw [hEq]

/-- With distinct keys the first record under a key is the only one. -/
theorem mem_eraseP_iff (hNodup : (l.map key).Nodup) :
    z ∈ l.eraseP (fun y => key y = k) ↔ z ∈ l ∧ key z ≠ k := by
  induction l with
  | nil => simp
  | cons y rest ih =>
      obtain ⟨hHead, hRest⟩ := List.nodup_cons.mp hNodup
      by_cases hy : key y = k
      · rw [List.eraseP_cons_of_pos (by simpa using hy)]
        constructor
        · intro hz
          refine ⟨List.mem_cons_of_mem _ hz, fun hKey => hHead ?_⟩
          exact List.mem_map.mpr ⟨z, hz, hKey.trans hy.symm⟩
        · rintro ⟨hz, hKey⟩
          rcases List.mem_cons.mp hz with rfl | hz
          · exact absurd hy hKey
          · exact hz
      · rw [List.eraseP_cons_of_neg (by simpa using hy), List.mem_cons, ih hRest, List.mem_cons]
        constructor
        · rintro (rfl | ⟨hz, hKey⟩)
          · exact ⟨Or.inl rfl, hy⟩
          · exact ⟨Or.inr hz, hKey⟩
        · rintro ⟨rfl | hz, hKey⟩
          · exact Or.inl rfl
          · exact Or.inr ⟨hz, hKey⟩

theorem mem_replace_iff (hNodup : (l.map key).Nodup) :
    z ∈ replace key x l ↔ z = x ∨ z ∈ l ∧ key z ≠ key x := by
  rw [replace, List.mem_append, mem_eraseP_iff hNodup, List.mem_singleton, or_comm]

/-- Keys stay distinct when an element is put in place of the one with its key. -/
theorem nodup_replace (hNodup : (l.map key).Nodup) : ((replace key x l).map key).Nodup := by
  rw [replace, List.map_append, List.nodup_append]
  refine ⟨(List.eraseP_sublist.map key).nodup hNodup, by simp, ?_⟩
  intro a ha b hb hEq
  obtain ⟨y, hy, rfl⟩ := List.mem_map.mp ha
  obtain rfl : b = key x := by simpa using hb
  exact ((mem_eraseP_iff hNodup).mp hy).2 hEq

/-- A look-up after a replacement is that of a map after an update: only the replaced key is
affected. -/
theorem find?_replace (hNodup : (l.map key).Nodup) :
    (replace key x l).find? (fun y => key y = k) =
      if key x = k then some x else l.find? (fun y => key y = k) := by
  ext z
  rw [find?_eq_some_iff (nodup_replace hNodup), mem_replace_iff hNodup]
  split_ifs with hk
  · rw [Option.some.injEq]
    constructor
    · rintro ⟨rfl | ⟨_, hKey⟩, hz⟩
      · rfl
      · exact absurd (hz.trans hk.symm) hKey
    · rintro rfl
      exact ⟨Or.inl rfl, hk⟩
  · rw [find?_eq_some_iff hNodup]
    constructor
    · rintro ⟨rfl | ⟨hMem, _⟩, hz⟩
      · exact absurd hz hk
      · exact ⟨hMem, hz⟩
    · rintro ⟨hMem, hz⟩
      exact ⟨Or.inr ⟨hMem, fun hKey => hk (hKey.symm.trans hz)⟩, hz⟩

/-! Records that are overwritten where they stand. -/

section InPlace

variable {i : ℕ}

theorem map_set (hFound : l.findIdx? (fun y => key y = key x) = some i) :
    (l.set i x).map key = l.map key := by
  obtain ⟨hLt, hKey, -⟩ := List.findIdx?_eq_some_iff_getElem.mp hFound
  have hMapped : i < (l.map key).length := by simpa using hLt
  have hSame : (l.map key)[i] = key x := by simpa using hKey
  rw [List.map_set, ← hSame, List.set_getElem_self]

/-- The same where the element with the key is overwritten at its position. -/
theorem find?_set (hFound : l.findIdx? (fun y => key y = key x) = some i) :
    (l.set i x).find? (fun y => key y = k) =
      if key x = k then some x else l.find? (fun y => key y = k) := by
  induction l generalizing i with
  | nil => simp at hFound
  | cons y rest ih =>
      rw [List.findIdx?_cons] at hFound
      by_cases hy : key y = key x
      · rw [if_pos (by simpa using hy), Option.some.injEq] at hFound
        subst hFound
        rw [List.set_cons_zero, List.find?_cons, List.find?_cons, hy]
        split_ifs with hk <;> simp [hk]
      · rw [if_neg (by simpa using hy)] at hFound
        obtain ⟨j, hRest, rfl⟩ := Option.map_eq_some_iff.mp hFound
        rw [List.set_cons_succ, List.find?_cons, List.find?_cons, ih hRest]
        split_ifs with hk
        · simp [← hk, hy]
        · rfl

/-- A new record is found behind the others. -/
theorem find?_append (hNew : ∀ y ∈ l, key y ≠ key x) :
    (l ++ [x]).find? (fun y => key y = k) =
      if key x = k then some x else l.find? (fun y => key y = k) := by
  rw [List.find?_append]
  split_ifs with hk
  · rw [List.find?_eq_none.mpr fun y hMem => by simpa [← hk] using hNew y hMem]
    simp [hk]
  · simp [hk]

theorem nodup_append {β ι : Type*} {key : β → ι} {x : β} {l : List β}
    (hNodup : (l.map key).Nodup) (hNew : ∀ y ∈ l, key y ≠ key x) :
    ((l ++ [x]).map key).Nodup := by
  rw [List.map_append, List.nodup_append]
  refine ⟨hNodup, by simp, ?_⟩
  intro a ha b hb hEq
  obtain ⟨y, hy, rfl⟩ := List.mem_map.mp ha
  exact hNew y hy (hEq.trans (by simpa using hb))

/-- With distinct keys a record that is filtered out leaves no other under its key. -/
theorem find?_filter (hNodup : (l.map key).Nodup) (p : α → Bool) :
    (l.filter p).find? (fun y => key y = k) = (l.find? fun y => key y = k).filter p := by
  induction l with
  | nil => rfl
  | cons y rest ih =>
      obtain ⟨hHead, hRest⟩ := List.nodup_cons.mp hNodup
      by_cases hk : key y = k
      · have hAbsent : rest.find? (fun z => key z = k) = none := by
          refine List.find?_eq_none.mpr fun z hz hKey => hHead ?_
          rw [hk, ← of_decide_eq_true hKey]
          exact List.mem_map_of_mem hz
        rw [List.find?_cons_of_pos (by simpa using hk), List.filter_cons]
        split_ifs with hp
        · rw [List.find?_cons_of_pos (by simpa using hk), Option.filter_some, if_pos hp]
        · rw [ih hRest, hAbsent, Option.filter_some, if_neg hp]
          rfl
      · rw [List.find?_cons_of_neg (by simpa using hk), List.filter_cons, ← ih hRest]
        split_ifs
        · rw [List.find?_cons_of_neg (by simpa using hk)]
        · rfl

/-- With distinct keys there are as many keys as records. -/
theorem ncard_keys (hNodup : (l.map key).Nodup) :
    {k | (l.find? fun y => key y = k).isSome}.ncard = l.length := by
  have hKeys : {k | (l.find? fun y => key y = k).isSome} = ((l.map key).toFinset : Set κ) := by
    ext k
    simp [List.find?_isSome]
  rw [hKeys, Set.ncard_coe_finset, List.toFinset_card_of_nodup hNodup, List.length_map]

end InPlace

end KeyedList
