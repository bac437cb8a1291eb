import MipStack.Mipd.Routing

/-! How exact the split horizon of `broadcast_route_table` is when several
neighbours, or none, are cached for an interface. -/
namespace MipStack

/-- A neighbour the cache reaches through the socket. -/
def MipArpCache.Reaches (cache : MipArpCache) (socket : ℤ) (address : MIPAddress) : Prop :=
  ∃ neighbor ∈ cache.entries, neighbor.srcSocket = socket ∧ neighbor.mipAddress = address

instance (cache : MipArpCache) (socket : ℤ) (address : MIPAddress) :
    Decidable (cache.Reaches socket address) :=
  inferInstanceAs (Decidable (∃ neighbor ∈ cache.entries, _))

/-- What split horizon asks for: the address of the interface, and the poison
value in the listed entries that lead through a neighbour on this interface. -/
def exactSplitHorizon (cache : MipArpCache) (record : InterfaceRecord)
    (tablePackage : MIPRouteTablePackage) : MIPRouteTablePackage :=
  { tablePackage with
    tableAddress := record.mipAddress
    entries := tablePackage.entries.mapIdx fun i entry =>
      if i < tablePackage.numEntries.toNat ∧ cache.Reaches record.rawSocket entry.nextHop then
        { entry with cost := uintMax }
      else entry }

/-- Only the first neighbour of an interface is looked up, and the address of the
interface stands in for a missing one: no other listed route may lead through a
neighbour on the interface, and none through the interface itself. -/
def OneNeighborSuffices (cache : MipArpCache) (record : InterfaceRecord)
    (tablePackage : MIPRouteTablePackage) : Prop :=
  tablePackage.numEntries.toNat ≤ mipTablePackageEntriesMaxSize ∧
    ∀ i entry, tablePackage.entries[i]? = some entry → i < tablePackage.numEntries.toNat →
      entry.cost ≠ uintMax →
        match cache.entries.find? fun neighbor => neighbor.srcSocket = record.rawSocket with
        | some first => cache.Reaches record.rawSocket entry.nextHop →
            entry.nextHop = first.mipAddress
        | none => entry.nextHop ≠ record.mipAddress

variable {cache : MipArpCache} {record : InterfaceRecord} {tablePackage : MIPRouteTablePackage}

/-- The next hop whose routes are poisoned on the interface. -/
def poisonedNextHop (cache : MipArpCache) (record : InterfaceRecord) : MIPAddress :=
  match cache.entries.find? fun entry => entry.srcSocket = record.rawSocket with
  | some first => first.mipAddress
  | none => record.mipAddress

/-- The copy for an interface is the table under its address, poisoned for one neighbour: the
first in the cache on this interface, or else the interface itself. -/
theorem splitHorizonCopy_eq (cache : MipArpCache) (record : InterfaceRecord)
    (tablePackage : MIPRouteTablePackage) :
    splitHorizonCopy cache record tablePackage =
      poisonReverse { tablePackage with tableAddress := record.mipAddress }
        (poisonedNextHop cache record) := by
  unfold splitHorizonCopy MipArpCache.queryCacheSocketMipAddress poisonedNextHop
  cases hFind : cache.entries.find? fun entry => entry.srcSocket = record.rawSocket with
  | none => simp
  | some first =>
      have hNe := cache.address_ne first (List.mem_of_find?_eq_some hFind)
      have hLt : first.mipAddress < 255 :=
        UInt8.lt_iff_toNat_lt.mpr (Nat.lt_of_le_of_ne (Nat.le_of_lt_succ first.mipAddress.toNat_lt)
          fun hEq => hNe (UInt8.toNat_inj.mp hEq))
      simp [hLt, hNe]

/-- Whether the poisoned next hop is the only neighbour, seen at one address. -/
theorem poisonedNextHop_iff (nextHop : MIPAddress) :
    (nextHop = poisonedNextHop cache record ↔ cache.Reaches record.rawSocket nextHop) ↔
      match cache.entries.find? fun entry => entry.srcSocket = record.rawSocket with
      | some first => cache.Reaches record.rawSocket nextHop → nextHop = first.mipAddress
      | none => nextHop ≠ record.mipAddress := by
  unfold poisonedNextHop
  cases hFind : cache.entries.find? fun entry => entry.srcSocket = record.rawSocket with
  | some first =>
      have hReached : cache.Reaches record.rawSocket first.mipAddress :=
        ⟨first, List.mem_of_find?_eq_some hFind, by simpa using List.find?_some hFind, rfl⟩
      exact ⟨fun h => h.mpr, fun h => ⟨fun hEq => hEq ▸ hReached, h⟩⟩
  | none =>
      have hUnreached : ¬ cache.Reaches record.rawSocket nextHop := by
        rintro ⟨neighbor, hMem, hSocket, -⟩
        exact absurd hSocket (by simpa using List.find?_eq_none.mp hFind neighbor hMem)
      simp [hUnreached]

/-- If some neighbour is cached for the interface, the poisoned next hop is one. -/
theorem reaches_poisonedNextHop {address : MIPAddress}
    (hReached : cache.Reaches record.rawSocket address) :
    cache.Reaches record.rawSocket (poisonedNextHop cache record) := by
  unfold poisonedNextHop
  cases hFind : cache.entries.find? fun entry => entry.srcSocket = record.rawSocket with
  | some first =>
      exact ⟨first, List.mem_of_find?_eq_some hFind, by simpa using List.find?_some hFind, rfl⟩
  | none =>
      obtain ⟨neighbor, hMem, hSocket, -⟩ := hReached
      exact absurd hSocket (by simpa using List.find?_eq_none.mp hFind neighbor hMem)

/-- Poisoning an entry shows unless its cost is the poison value already. -/
theorem poison_eq_iff {entry : MIPRoutePackageEntry} {p q : Prop} [Decidable p] [Decidable q] :
    (if p then { entry with cost := uintMax } else entry) =
        (if q then { entry with cost := uintMax } else entry) ↔
      (entry.cost ≠ uintMax → (p ↔ q)) := by
  obtain ⟨destination, nextHop, cost⟩ := entry
  by_cases hp : p <;> by_cases hq : q <;> simp [hp, hq, eq_comm]

/-- That is what split horizon asks for exactly if no route leads over a second neighbour on the
interface. -/
theorem splitHorizonCopy_eq_exact_iff :
    splitHorizonCopy cache record tablePackage =
        some (exactSplitHorizon cache record tablePackage) ↔
      OneNeighborSuffices cache record tablePackage := by
  rw [splitHorizonCopy_eq, poisonReverse, OneNeighborSuffices]
  split_ifs with hFits
  · simp only [hFits, true_and, Option.some.injEq, exactSplitHorizon,
      MIPRouteTablePackage.mk.injEq, Vector.ext_iff, Vector.getElem_ofFn, Vector.getElem_mapIdx,
      Fin.getElem_fin, poison_eq_iff]
    constructor
    · intro h i entry hEntry hi hCost
      obtain ⟨hBound, rfl⟩ := Vector.getElem?_eq_some_iff.mp hEntry
      refine (poisonedNextHop_iff _).mp ?_
      have hSame := h i hBound hCost
      simpa [hi] using hSame
    · intro h i hi hCost
      by_cases hListed : i < tablePackage.numEntries.toNat
      · have hSame := (poisonedNextHop_iff _).mpr
          (h i _ (Vector.getElem?_eq_getElem hi) hListed hCost)
        simpa [hListed] using hSame
      · simp [hListed]
  · simp [hFits]

/-- The broadcast is the exact split horizon on every interface exactly if on
every interface looking at one neighbour suffices. -/
theorem broadcast_exact_iff (iTable : InterfaceTable) (cache : MipArpCache)
    (tablePackage : MIPRouteTablePackage) (pointers : ℕ → PointerBytes) :
    (∃ outputs, broadcastRouteTable iTable cache tablePackage pointers = .ok outputs ∧
      List.Forall₂ (fun record output => ∃ package, output = .sendto record.rawSocket package ∧
        package.message = padMessage (exactSplitHorizon cache record tablePackage).toBytes)
        iTable.interfaces outputs) ↔
      ∀ record ∈ iTable.interfaces, OneNeighborSuffices cache record tablePackage := by
  simp only [← splitHorizonCopy_eq_exact_iff]
  constructor
  · rintro ⟨outputs, hSend, hExact⟩ record hMem
    obtain ⟨i, hi, rfl⟩ := List.mem_iff_getElem.mp hMem
    have hOutput : i < outputs.length := hExact.length_eq ▸ hi
    obtain ⟨tmp, package, hCopy, hSent, hMessage, -⟩ :=
      broadcastOnInterface_eq_ok ((broadcastRouteTable_eq_ok_iff.mp hSend).get hi hOutput)
    obtain ⟨package', hSent', hMessage'⟩ := hExact.get hi hOutput
    obtain ⟨-, rfl⟩ := Output.sendto.inj (hSent.symm.trans hSent')
    -- Equal messages carry equal tables.
    have hTable := (parseBroadcastedTable_eq hMessage).symm.trans
      (parseBroadcastedTable_eq hMessage')
    exact hCopy.trans (congrArg some hTable)
  · intro hCopies
    refine exists_broadcast iTable pointers _ fun record hMem => ?_
    obtain ⟨package, hSend, hMessage, -⟩ :=
      exists_broadcastOnInterface (hCopies record hMem) pointers
    exact ⟨_, hSend, package, rfl, hMessage⟩

/-- Of two neighbours 20 and 30 on one link, 30 is told the route through itself, as only the
first one in the cache is looked at. -/
theorem second_neighbor_not_poisoned :
    let record : InterfaceRecord := ⟨ethBroadcastAddr, ethBroadcastAddr, 10, 3⟩
    let cache : MipArpCache :=
      ⟨[⟨20, 3, ethBroadcastAddr, 0⟩, ⟨30, 3, ethBroadcastAddr, 0⟩], 10000, 0, by decide, by decide⟩
    let tablePackage : MIPRouteTablePackage := ⟨0, 1, Vector.ofFn fun _ => ⟨40, 30, 2⟩⟩
    cache.Reaches 3 30 ∧ ∃ package,
      broadcastRouteTable ⟨[record]⟩ cache tablePackage (fun _ => Vector.replicate 8 0) =
          .ok [.sendto 3 package] ∧
        (parseBroadcastedTable package).entries[0] = ⟨40, 30, 2⟩ := by
  intro record cache tablePackage
  refine ⟨by decide, ?_⟩
  obtain ⟨tmp, hCopy, hEntry⟩ : ∃ tmp, splitHorizonCopy cache record tablePackage = some tmp ∧
      tmp.entries[0] = ⟨40, 30, 2⟩ := ⟨_, rfl, by decide⟩
  obtain ⟨package, hSend, hMessage, -⟩ :=
    exists_broadcastOnInterface hCopy fun _ => Vector.replicate 8 0
  refine ⟨package, broadcastRouteTable_eq_ok_iff.mpr (List.Forall₂.cons hSend List.Forall₂.nil), ?_⟩
  rw [← hEntry, parseBroadcastedTable_eq hMessage]

end MipStack
