import MipStack.Routerd.RouteRefinement
import MipStack.Mipd.Routing

/-! What a table package lists, from the table it is made of, through the split
horizon of mipd, to the table a neighbour makes of it. -/
namespace MipStack
open DistanceVector

/-- What travels of an entry. -/
def MIPRouteEntry.toPackageEntry (entry : MIPRouteEntry) : MIPRoutePackageEntry :=
  ⟨entry.destination, entry.nextHop, entry.cost⟩

/-- The entries that the package announces. -/
def MIPRouteTablePackage.listed (package : MIPRouteTablePackage) : List MIPRoutePackageEntry :=
  package.entries.toList.take package.numEntries.toNat

namespace MIPRouteTable

variable {table : MIPRouteTable} {package : MIPRouteTablePackage} {destination : MIPAddress}
  {cost : ℕ} {clock : Clock}

theorem offer_eq_some (h : table.offer destination = some cost) : ∃ entry ∈ table.entries,
    entry.destination = destination ∧ entry.cost ≠ uintMax ∧ entry.cost.toNat = cost := by
  have hMem := List.min?_mem h
  simp only [advertised, List.mem_map, List.mem_filter, decide_eq_true_eq] at hMem
  obtain ⟨entry, ⟨hEntry, hDest, hCost⟩, rfl⟩ := hMem
  exact ⟨entry, hEntry, hDest, hCost, rfl⟩

theorem cost_of_offer_eq_none (h : table.offer destination = none) {entry : MIPRouteEntry}
    (hMem : entry ∈ table.entries) (hDest : entry.destination = destination) :
    entry.cost = uintMax := by
  rw [offer, List.min?_eq_none_iff, advertised, List.map_eq_nil_iff, List.filter_eq_nil_iff] at h
  by_contra hCost
  exact h entry hMem (by simp [hDest, hCost])

theorem createPackage_isSome :
    table.createPackage.isSome ↔ table.entries.length < mipTablePackageEntriesMaxSize := by
  unfold createPackage
  split_ifs with h <;> simp [h]

/-- The first slots hold the entries of the table, and those that it does not need stay
zero. -/
theorem createPackage_entries (h : table.createPackage = some package) :
    package.entries.toList = table.entries.map MIPRouteEntry.toPackageEntry ++
      List.replicate (mipTablePackageEntriesMaxSize - table.entries.length) ⟨0, 0, 0⟩ := by
  have hSize := (createPackage_numEntries h).2
  unfold createPackage at h
  rw [if_pos hSize] at h
  obtain rfl := Option.some.inj h
  refine List.ext_getElem ?_ fun i hi _ => ?_
  · simp only [Vector.length_toList, List.length_append, List.length_map, List.length_replicate]
    exact (Nat.add_sub_cancel' hSize.le).symm
  · rw [Vector.getElem_toList, Vector.getElem_ofFn, List.getElem_append]
    split_ifs with hListed
    · rw [List.length_map] at hListed
      rw [List.getElem?_eq_getElem hListed, List.getElem_map]
      rfl
    · rw [List.length_map, Nat.not_lt] at hListed
      rw [List.getElem?_eq_none hListed, List.getElem_replicate]

/-- A package lists its table, entry for entry and in the same order. -/
theorem createPackage_listed (h : table.createPackage = some package) :
    package.listed = table.entries.map MIPRouteEntry.toPackageEntry := by
  rw [MIPRouteTablePackage.listed, createPackage_entries h, (createPackage_numEntries h).1,
    List.take_left' (List.length_map _)]

/-- There is no table for a package that announces too many entries. -/
theorem createTable_eq_none_iff : package.createTable clock = none ↔
    ¬ package.numEntries.toNat < mipTablePackageEntriesMaxSize := by
  rw [MIPRouteTablePackage.createTable]
  split_ifs with hCount <;> simp [hCount]

theorem numEntries_lt_of_createTable {neighborTable : MIPRouteTable}
    (h : package.createTable clock = some neighborTable) :
    package.numEntries.toNat < mipTablePackageEntriesMaxSize := by
  by_contra hMany
  rw [createTable_eq_none_iff.mpr hMany] at h
  cases h

/-- The table a neighbour reads has exactly the listed entries. -/
theorem createTable_entries {neighborTable : MIPRouteTable}
    (h : package.createTable clock = some neighborTable) :
    neighborTable.tableAddress = package.tableAddress ∧
      neighborTable.entries.map MIPRouteEntry.toPackageEntry = package.listed := by
  unfold MIPRouteTablePackage.createTable at h
  split_ifs at h with hCount
  obtain rfl := Option.some.inj h
  refine ⟨rfl, ?_⟩
  rw [List.map_map]
  exact List.zipIdx_map_fst 0 _

end MIPRouteTable

/-- Poisoning changes the costs of the listed entries through the destination. -/
theorem poisonReverse_eq_some {package poisoned : MIPRouteTablePackage} {destination : MIPAddress}
    (h : poisonReverse package destination = some poisoned) :
    poisoned.tableAddress = package.tableAddress ∧ poisoned.listed = package.listed.map fun entry =>
      if entry.nextHop = destination then { entry with cost := uintMax } else entry := by
  unfold poisonReverse at h
  split_ifs at h with hFits
  obtain rfl := Option.some.inj h
  refine ⟨rfl, List.ext_getElem ?_ ?_⟩
  · simp [MIPRouteTablePackage.listed]
  · intro i hi hi'
    simp only [MIPRouteTablePackage.listed, List.length_take, Vector.length_toList] at hi
    have hListed : i < package.numEntries.toNat := (Nat.lt_min.mp hi).1
    simp [MIPRouteTablePackage.listed, hListed]

end MipStack
