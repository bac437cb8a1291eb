import MipStack.Routerd.MIPRouteTable
import MipStack.Library.Execution
import MipStack.Library.Relaxation

/-! A routing table read as a finite map from destinations to routes. Merging a
neighbour's table relaxes every destination by the neighbour's best offer. -/
namespace MipStack
open DistanceVector Execution

namespace MIPRouteTable

/-- No destination is listed twice. -/
def Distinct (table : MIPRouteTable) : Prop :=
  (table.entries.map MIPRouteEntry.destination).Nodup

/-- The cost and next hop of the entry a lookup finds. -/
def route (table : MIPRouteTable) (destination : MIPAddress) : Option (Route MIPAddress) :=
  (table.get destination).map fun entry => ⟨entry.cost.toNat, entry.nextHop⟩

/-- The costs other than the poison value that the table lists for a destination. -/
def advertised (table : MIPRouteTable) (destination : MIPAddress) : List ℕ :=
  (table.entries.filter fun entry =>
    entry.destination = destination ∧ entry.cost ≠ uintMax).map fun entry => entry.cost.toNat

/-- The best cost the table offers for a destination, if it offers any. -/
def offer (table : MIPRouteTable) (destination : MIPAddress) : Option ℕ :=
  (table.advertised destination).min?

variable {table neighborTable : MIPRouteTable} {destination nextHop : MIPAddress}
  {cost : UInt32} {now : ℤ} {clock : Clock} {entry challenger : MIPRouteEntry}

theorem get_eq_some_iff (hDistinct : table.Distinct) :
    table.get destination = some entry ↔
      entry ∈ table.entries ∧ entry.destination = destination :=
  KeyedList.find?_eq_some_iff hDistinct

theorem get_of_mem (hDistinct : table.Distinct) (hMem : entry ∈ table.entries) :
    table.get entry.destination = some entry :=
  (get_eq_some_iff hDistinct).mpr ⟨hMem, rfl⟩

theorem mem_of_get (hGet : table.get destination = some entry) :
    entry ∈ table.entries ∧ entry.destination = destination :=
  ⟨List.mem_of_find?_eq_some hGet, by simpa using List.find?_some hGet⟩

/-- A route is known exactly if some entry carries it. -/
theorem route_eq_some_iff (hDistinct : table.Distinct) {r : Route MIPAddress} :
    table.route destination = some r ↔ ∃ entry ∈ table.entries,
      entry.destination = destination ∧ entry.cost.toNat = r.cost ∧ entry.nextHop = r.hop := by
  rw [route, Option.map_eq_some_iff]
  constructor
  · rintro ⟨entry, hGet, rfl⟩
    obtain ⟨hMem, hDest⟩ := mem_of_get hGet
    exact ⟨entry, hMem, hDest, rfl, rfl⟩
  · rintro ⟨entry, hMem, hDest, hCost, hHop⟩
    exact ⟨entry, (get_eq_some_iff hDistinct).mpr ⟨hMem, hDest⟩, by rw [hCost, hHop]⟩

theorem route_of_mem (hDistinct : table.Distinct) (hMem : entry ∈ table.entries) :
    table.route entry.destination = some ⟨entry.cost.toNat, entry.nextHop⟩ :=
  (route_eq_some_iff hDistinct).mpr ⟨entry, hMem, rfl, rfl, rfl⟩

theorem remove_fst (table : MIPRouteTable) (destination : MIPAddress) :
    (table.remove destination).1 ≠ -1 := by
  unfold remove
  split_ifs <;> simp

@[simp] theorem remove_snd (table : MIPRouteTable) (destination : MIPAddress) :
    (table.remove destination).2 = { table with
      entries := table.entries.eraseP fun current => current.destination = destination } := by
  unfold remove
  split_ifs with hEmpty hFound
  · have hNil := List.length_eq_zero_iff.mp hEmpty
    cases table
    simp_all
  · rfl
  · rw [List.eraseP_of_forall_not]
    intro current hMem hMatch
    exact hFound (List.find?_isSome.mpr ⟨current, hMem, hMatch⟩)

/-- An update always succeeds and leaves one entry for the destination, the last one. -/
theorem update_eq (table : MIPRouteTable) (destination nextHop : MIPAddress) (cost : UInt32)
    (now : ℤ) :
    table.update destination nextHop cost now = (1, { table with
      entries := KeyedList.replace MIPRouteEntry.destination
        (MIPRouteEntry.create destination nextHop cost now) table.entries }) := by
  have hRemoved := remove_fst table destination
  unfold update
  simp only [if_neg hRemoved, remove_snd]
  rfl

theorem Distinct.update (hDistinct : table.Distinct) :
    (table.update destination nextHop cost now).2.Distinct := by
  rw [update_eq]
  exact KeyedList.nodup_replace hDistinct

/-- `MIPRouteTable_update` is the update of a map: the entry of one destination is replaced, or
there is a new one. -/
theorem get_update (hDistinct : table.Distinct) (d : MIPAddress) :
    (table.update destination nextHop cost now).2.get d =
      if destination = d then some (MIPRouteEntry.create destination nextHop cost now)
      else table.get d := by
  rw [update_eq]
  exact KeyedList.find?_replace hDistinct

/-- The same for the routes, with costs as numbers. -/
theorem update_route (hDistinct : table.Distinct) (d : MIPAddress) :
    (table.update destination nextHop cost now).2.route d =
      if destination = d then some ⟨cost.toNat, nextHop⟩ else table.route d := by
  rw [route, get_update hDistinct]
  split_ifs <;> rfl

/-- The merge replaces an entry or leaves the table alone; it never takes a
poisoned challenger and never worsens a cost. -/
theorem updateEntry_cases (table : MIPRouteTable) (neighborAddress : MIPAddress)
    (challenger : MIPRouteEntry) (now : ℤ) :
    (challenger.cost ≠ uintMax ∧
        (∀ champion, table.get challenger.destination = some champion →
          challenger.cost.toNat + 1 ≤ champion.cost.toNat) ∧
        table.updateEntry neighborAddress challenger now =
          (table.update challenger.destination neighborAddress (challenger.cost + 1) now).2) ∨
      ((challenger.cost = uintMax ∨ ∃ champion,
          table.get challenger.destination = some champion ∧
            champion.cost.toNat < challenger.cost.toNat + 1) ∧
        table.updateEntry neighborAddress challenger now = table) := by
  by_cases hPoison : challenger.cost = uintMax
  · exact Or.inr ⟨Or.inl hPoison, by simp [updateEntry, hPoison]⟩
  · have hSum := toNat_add_one hPoison
    cases hGet : table.get challenger.destination with
    | none => exact Or.inl ⟨hPoison, by simp, by simp [updateEntry, hGet, hPoison]⟩
    | some champion =>
        by_cases hCost : challenger.cost + 1 ≤ champion.cost
        · refine Or.inl ⟨hPoison, ?_, by simp [updateEntry, hGet, hPoison, hCost]⟩
          rintro _ ⟨⟩
          rw [← hSum]
          exact UInt32.le_iff_toNat_le.mp hCost
        · refine Or.inr ⟨Or.inr ⟨champion, rfl, ?_⟩, by simp [updateEntry, hGet, hCost]⟩
          rw [← hSum]
          exact Nat.not_le.mp fun hLe => hCost (UInt32.le_iff_toNat_le.mpr hLe)

/-- There is one entry for each destination, before and after an offer. -/
theorem Distinct.updateEntry (hDistinct : table.Distinct) (neighborAddress : MIPAddress)
    (challenger : MIPRouteEntry) (now : ℤ) :
    (table.updateEntry neighborAddress challenger now).Distinct := by
  rcases updateEntry_cases table neighborAddress challenger now with ⟨_, _, hEq⟩ | ⟨_, hEq⟩
  · exact hEq ▸ hDistinct.update
  · exact hEq.symm ▸ hDistinct

/-- One turn of the merge loop relaxes the challenger's destination. -/
theorem updateEntry_route (hDistinct : table.Distinct) (neighborAddress : MIPAddress)
    (challenger : MIPRouteEntry) (now : ℤ) (d : MIPAddress) :
    (table.updateEntry neighborAddress challenger now).route d =
      if challenger.destination = d ∧ challenger.cost ≠ uintMax then
        relax neighborAddress (table.route d) challenger.cost.toNat
      else table.route d := by
  rcases updateEntry_cases table neighborAddress challenger now with
    ⟨hPoison, hWins, hEq⟩ | ⟨hKeeps, hEq⟩
  · rw [hEq, update_route hDistinct]
    by_cases hd : challenger.destination = d
    · subst hd
      rw [if_pos rfl, if_pos ⟨rfl, hPoison⟩, toNat_add_one hPoison, relax_adopt]
      intro q hq
      obtain ⟨champion, hGet, rfl⟩ := Option.map_eq_some_iff.mp hq
      exact hWins champion hGet
    · rw [if_neg hd, if_neg fun h => hd h.1]
  · rw [hEq]
    split_ifs with h
    · obtain ⟨rfl, hPoison⟩ := h
      obtain ⟨champion, hGet, hLt⟩ := hKeeps.resolve_left hPoison
      rw [route, hGet, Option.map_some, relax_keep hLt]
    · rfl

/-- What each turn of the merge loop keeps, the whole merge keeps. -/
theorem updateRouting_induction {motive : MIPRouteTable → Prop}
    (neighborTable : MIPRouteTable) (clock : Clock) (hStart : motive table)
    (hTurn : ∀ t challenger now, motive t → challenger ∈ neighborTable.entries →
      motive (t.updateEntry neighborTable.tableAddress challenger now)) :
    motive (table.updateRouting neighborTable clock) := by
  refine List.foldlRecOn _ _ hStart fun t ht entry hMem => hTurn t entry.1 _ ht ?_
  exact List.fst_mem_of_mem_zipIdx hMem

theorem Distinct.updateRouting (hDistinct : table.Distinct) (neighborTable : MIPRouteTable)
    (clock : Clock) : (table.updateRouting neighborTable clock).Distinct :=
  updateRouting_induction neighborTable clock hDistinct fun _ challenger now h _ =>
    h.updateEntry neighborTable.tableAddress challenger now

/-- Merging a table relaxes every destination by the best cost the table
offers, whatever the order and the repetitions of its entries. -/
theorem updateRouting_route (hDistinct : table.Distinct) (neighborTable : MIPRouteTable)
    (clock : Clock) (d : MIPAddress) :
    (table.updateRouting neighborTable clock).route d =
      relaxOffer neighborTable.tableAddress (table.route d) (neighborTable.offer d) := by
  rw [offer, ← foldl_relax, advertised, updateRouting]
  generalize neighborTable.tableAddress = address
  generalize 0 = start
  induction neighborTable.entries generalizing table start with
  | nil => rfl
  | cons challenger rest ih =>
      rw [List.zipIdx_cons, List.foldl_cons, ih (hDistinct.updateEntry _ _ _),
        updateEntry_route hDistinct, List.filter_cons]
      split_ifs with h <;> simp_all

/-- Expiry keeps the surviving entries as they are, in their order. -/
theorem removeOldEntries_sublist (table : MIPRouteTable) (clock : Clock) :
    (table.removeOldEntries clock).2.entries.Sublist table.entries := by
  simp only [removeOldEntries, List.partition_eq_filter_filter]
  refine (List.Sublist.map Prod.fst List.filter_sublist).trans ?_
  rw [List.zipIdx_map_fst]

/-- Expiry spares the local routes: entries of cost 0 are never too old. -/
theorem mem_removeOldEntries (hMem : entry ∈ table.entries) (hLocal : entry.cost = 0) :
    entry ∈ (table.removeOldEntries clock).2.entries := by
  obtain ⟨i, hi, rfl⟩ := List.mem_iff_getElem.mp hMem
  simp only [removeOldEntries, List.partition_eq_filter_filter, List.mem_map, List.mem_filter]
  exact ⟨(table.entries[i], i), ⟨List.mk_mem_zipIdx_iff_getElem?.mpr (by simp [hi]),
    by simp [hLocal]⟩, rfl⟩

theorem Distinct.removeOldEntries (hDistinct : table.Distinct) (clock : Clock) :
    (table.removeOldEntries clock).2.Distinct :=
  hDistinct.sublist ((removeOldEntries_sublist table clock).map _)

/-- Expiry only forgets routes. Those that stay are what they were. -/
theorem removeOldEntries_route {r : Route MIPAddress} (hDistinct : table.Distinct)
    (hRoute : (table.removeOldEntries clock).2.route destination = some r) :
    table.route destination = some r := by
  obtain ⟨entry, hMem, hEntry⟩ :=
    (route_eq_some_iff (hDistinct.removeOldEntries clock)).mp hRoute
  exact (route_eq_some_iff hDistinct).mpr
    ⟨entry, (removeOldEntries_sublist table clock).subset hMem, hEntry⟩

end MIPRouteTable

end MipStack
