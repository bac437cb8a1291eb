import MipStack.Network.RouteNetwork
import MipStack.Mipd.SplitHorizon
import MipStack.Library.Convergence

/-! The network of routing daemons runs the distance-vector protocol: what a
host packs is a snapshot of its routes, and what a neighbour merges of it is a
part of that snapshot. -/
namespace MipStack
open DistanceVector Execution

namespace Network

variable {ρ σ : Type*} {net : Network ρ σ} {caches : ρ → MipArpCache → Prop}

/-- The links and names a distance-vector protocol sees. -/
def topology (net : Network ρ σ) (hUnique : net.AddressesUnique) :
    Topology ρ MIPAddress MIPAddress where
  graph := net.graph
  owners := net.owners
  names := net.addresses
  home := fun d => d
  names_unique := fun hu hv => hUnique hu hv
  home_name := fun h => Or.inl h

/-- A package lists a snapshot of routes. -/
structure Lists (package : MIPRouteTablePackage) (snap : Snapshot MIPAddress MIPAddress) :
    Prop where
  listed : ∀ entry ∈ package.listed,
    snap entry.destination = some ⟨entry.cost.toNat, entry.nextHop⟩
  complete : ∀ d r, snap d = some r →
    ∃ entry ∈ package.listed, entry.destination = d ∧ entry.cost.toNat = r.cost ∧
      entry.nextHop = r.hop

variable {s t : State ρ σ} {a : DistanceVector.State ρ MIPAddress MIPAddress} {event : Event ρ}
  {table neighborTable : MIPRouteTable} {package tablePackage : MIPRouteTablePackage}
  {snap : Snapshot MIPAddress MIPAddress} {cache : MipArpCache} {record : InterfaceRecord}
  {clock : Clock}

/-- The package that is made of a table lists the snapshot of its routes. -/
theorem lists_of_createPackage (hDistinct : table.Distinct)
    (hPack : table.createPackage = some package) : Lists package table.route where
  listed := by
    intro listed hMem
    rw [MIPRouteTable.createPackage_listed hPack, List.mem_map] at hMem
    obtain ⟨entry, hEntry, rfl⟩ := hMem
    exact MIPRouteTable.route_of_mem hDistinct hEntry
  complete := by
    intro d r hRoute
    obtain ⟨entry, hEntry, hDest, hCost, hHop⟩ :=
      (MIPRouteTable.route_eq_some_iff hDistinct).mp hRoute
    refine ⟨entry.toPackageEntry, ?_, hDest, hCost, hHop⟩
    rw [MIPRouteTable.createPackage_listed hPack]
    exact List.mem_map_of_mem hEntry

/-- A copy leaves the entries it does not poison as they are, so what is not poison was in the
table. -/
theorem mem_listed_of_copy {entry : MIPRoutePackageEntry}
    (hCopy : splitHorizonCopy cache record tablePackage = some package)
    (hListed : entry ∈ package.listed) (hCost : entry.cost ≠ uintMax) :
    entry ∈ tablePackage.listed := by
  rw [splitHorizonCopy_eq] at hCopy
  rw [(poisonReverse_eq_some hCopy).2, List.mem_map] at hListed
  obtain ⟨original, hOriginal, hPoison⟩ := hListed
  split_ifs at hPoison with hHop
  · exact absurd (congrArg MIPRoutePackageEntry.cost hPoison).symm hCost
  · exact hPoison ▸ hOriginal

/-- What a table read from a split horizon copy offers is in the snapshot, at the cost that it has
there. -/
theorem Lists.offer (hLists : Lists tablePackage snap)
    (hCopy : splitHorizonCopy cache record tablePackage = some package)
    (hTable : package.createTable clock = some neighborTable) {d : MIPAddress} {cost : ℕ}
    (hOffer : neighborTable.offer d = some cost) : ∃ r, snap d = some r ∧ r.cost = cost := by
  obtain ⟨entry, hEntry, rfl, hCost, rfl⟩ := MIPRouteTable.offer_eq_some hOffer
  have hListed : entry.toPackageEntry ∈ package.listed := by
    rw [← (MIPRouteTable.createTable_entries hTable).2]
    exact List.mem_map_of_mem hEntry
  exact ⟨_, hLists.listed _ (mem_listed_of_copy hCopy hListed hCost), rfl⟩

/-- A route of the snapshot that a copy does not offer leads through the
poisoned next hop or has the poison value as its cost. -/
theorem Lists.withheld (hLists : Lists tablePackage snap)
    (hCopy : splitHorizonCopy cache record tablePackage = some package)
    (hTable : package.createTable clock = some neighborTable) {d : MIPAddress}
    {r : Route MIPAddress} (hRoute : snap d = some r) (hOffer : neighborTable.offer d = none) :
    r.hop = poisonedNextHop cache record ∨ uintMax.toNat ≤ r.cost := by
  obtain ⟨original, hOriginal, hDest, hCost, hHop⟩ := hLists.complete d r hRoute
  rw [← hHop, ← hCost]
  by_cases hPoisoned : original.nextHop = poisonedNextHop cache record
  · exact Or.inl hPoisoned
  · right
    rw [splitHorizonCopy_eq] at hCopy
    have hListed : original ∈ package.listed := by
      rw [(poisonReverse_eq_some hCopy).2, List.mem_map]
      exact ⟨original, hOriginal, if_neg hPoisoned⟩
    rw [← (MIPRouteTable.createTable_entries hTable).2, List.mem_map] at hListed
    obtain ⟨entry, hEntry, rfl⟩ := hListed
    have hMax := MIPRouteTable.cost_of_offer_eq_none hOffer hEntry hDest
    exact (congrArg UInt32.toNat hMax).ge

/-- The tables are the routes of the protocol, the packages handed to mipd list
snapshots in the air, and the frames carry split horizon copies of such packages. -/
structure Refines (net : Network ρ σ) (caches : ρ → MipArpCache → Prop) (s : State ρ σ)
    (a : DistanceVector.State ρ MIPAddress MIPAddress) : Prop where
  distinct : ∀ v, (s.tables v).Distinct
  route : ∀ v d, a.route v d = (s.tables v).route d
  packed : ∀ u package, (u, package) ∈ s.packed → ∃ snap, (u, snap) ∈ a.air ∧ Lists package snap
  sent : ∀ u w package, (u, w, package) ∈ s.sent → ∃ record cache tablePackage snap,
    net.Attached u w record ∧ caches u cache ∧ (u, snap) ∈ a.air ∧ Lists tablePackage snap ∧
      splitHorizonCopy cache record tablePackage = some (parseBroadcastedTable package)
  merged : ∀ v u, (v, u) ∈ s.merged → ∃ snap, (v, u, snap) ∈ a.heard

/-- On every wire the next hop poisoned there is an address of the receiver. -/
def PoisonsReceiver (net : Network ρ σ) (caches : ρ → MipArpCache → Prop) : Prop :=
  ∀ ⦃u v : ρ⦄ ⦃w : σ⦄ ⦃record record' : InterfaceRecord⦄ ⦃cache : MipArpCache⦄,
    caches u cache → net.Attached u w record → net.Attached v w record' → u ≠ v →
      poisonedNextHop cache record ∈ net.addresses v

theorem Refines.initial (clocks : ρ → Clock) : Refines net caches (net.initial clocks)
    ⟨fun v => ((net.initial clocks).tables v).route, ∅, ∅⟩ where
  distinct v := (RouterServer.LocalRoutes.create (net.configured v) [] (clocks v)).distinct
  route _ _ := rfl
  packed _ _ h := h.elim
  sent _ _ _ h := h.elim
  merged _ _ h := h.elim

/-- The tables RouterServer_create leaves are the initial routes of the protocol: the own
addresses at cost 0. -/
theorem initial_topology (hUnique : net.AddressesUnique) (clocks : ρ → Clock) :
    DistanceVector.Initial (net.topology hUnique)
      ⟨fun v => ((net.initial clocks).tables v).route, ∅, ∅⟩ where
  route := by
    rintro v d ⟨cost, hop⟩
    have hLocal := RouterServer.LocalRoutes.create (net.configured v) [] (clocks v)
    constructor
    · intro hRoute
      have hZero : cost = 0 := by
        by_contra hPos
        exact absurd (hLocal.learned d ⟨cost, hop⟩ hPos hRoute) List.not_mem_nil
      subst hZero
      obtain ⟨hOwner, rfl⟩ := (hLocal.locals d ⟨0, hop⟩ rfl).mp hRoute
      exact ⟨hOwner, rfl⟩
    · rintro ⟨hOwner, hRoute⟩
      rw [hRoute]
      exact (hLocal.locals d ⟨0, d⟩ rfl).mpr ⟨hOwner, rfl⟩
  air := rfl
  heard := rfl

/-- A table that is handed to mipd is a snapshot put in the air. -/
theorem Refines.pack (h : Refines net caches s a) {u : ρ}
    (hPack : (s.tables u).createPackage = some package) :
    Refines net caches { s with packed := insert (u, package) s.packed }
      { a with air := insert (u, a.route u) a.air } := by
  refine ⟨h.distinct, h.route, ?_, ?_, h.merged⟩
  · rintro v package' (hNew | hOld)
    · cases hNew
      refine ⟨a.route u, Or.inl rfl, ?_⟩
      rw [show a.route u = (s.tables u).route from funext (h.route u)]
      exact lists_of_createPackage (h.distinct u) hPack
    · obtain ⟨snap, hAir, hLists⟩ := h.packed v package' hOld
      exact ⟨snap, Or.inr hAir, hLists⟩
  · intro v w frame hFrame
    obtain ⟨record, cache, tablePackage, snap, hRecord, hCache, hAir, hCopy⟩ :=
      h.sent v w frame hFrame
    exact ⟨record, cache, tablePackage, snap, hRecord, hCache, Or.inr hAir, hCopy⟩

/-- The copies on the wires are taken from a snapshot that is in the air already, each poisoned
for its wire. -/
theorem Refines.broadcast (h : Refines net caches s a) {u : ρ} {pointers : ℕ → PointerBytes}
    {outputs : List Output} (hPacked : (u, package) ∈ s.packed) (hCache : caches u cache)
    (hSend : broadcastRouteTable (net.iTable u) cache package pointers = .ok outputs) :
    Refines net caches { s with
      sent := {frame | frame ∈ s.sent ∨ ∃ socket package, .sendto socket package ∈ outputs ∧
        frame = (u, net.wire u socket, package)} } a := by
  refine ⟨h.distinct, h.route, h.packed, ?_, h.merged⟩
  rintro v w frame (hOld | ⟨socket, frame', hOutput, hNew⟩)
  · exact h.sent v w frame hOld
  · cases hNew
    obtain ⟨snap, hAir, hLists⟩ := h.packed u package hPacked
    obtain ⟨record, hRecord, hFrame⟩ := mem_broadcastRouteTable hSend hOutput
    obtain ⟨tmp, frame', hCopy, hSent, hMessage, -⟩ := broadcastOnInterface_eq_ok hFrame
    obtain ⟨rfl, rfl⟩ := Output.sendto.inj hSent
    refine ⟨record, cache, package, snap, ⟨hRecord, rfl⟩, hCache, hAir, hLists, ?_⟩
    rw [parseBroadcastedTable_eq hMessage]
    exact hCopy

theorem Refines.hear (h : Refines net caches s a) {u v : ρ} :
    Refines net caches { s with merged := insert (v, u) s.merged }
      { a with heard := insert (v, u, snap) a.heard } := by
  refine ⟨h.distinct, h.route, h.packed, h.sent, ?_⟩
  rintro x y (hNew | hOld)
  · cases hNew
    exact ⟨snap, Or.inl rfl⟩
  · obtain ⟨snap', hHeard⟩ := h.merged x y hOld
    exact ⟨snap', Or.inr hHeard⟩

variable [DecidableEq ρ]

/-- One table changes, and the routes of its host with it. Packages that were made of the old
table are still snapshots in the air. -/
theorem Refines.update (h : Refines net caches s a) (v : ρ) (hDistinct : table.Distinct)
    (hRoute : ∀ d, snap d = table.route d) :
    Refines net caches { s with tables := Function.update s.tables v table }
      { a with route := Function.update a.route v snap } := by
  refine ⟨?_, ?_, h.packed, h.sent, h.merged⟩
  · intro x
    by_cases hx : x = v
    · subst hx
      simpa using hDistinct
    · simpa [Function.update_of_ne hx] using h.distinct x
  · intro x d
    by_cases hx : x = v
    · subst hx
      simpa using hRoute d
    · simpa [Function.update_of_ne hx] using h.route x d

/-- Every event of the network is at most one step of the protocol. It forgets
routes only when it expires them, and withholds from a receiver only the routes
through itself when the caches single the receiver out. -/
theorem Refines.step (hUnique : net.AddressesUnique) (h : Refines net caches s a)
    (hStep : net.Step caches s event t) : ∃ ls b,
      Trace (Guarded (DistanceVector.Step (net.topology hUnique)) fun _ l _ =>
        event.Retains → l.Retains ∧ (net.PoisonsReceiver caches →
          l.Honest (net.topology hUnique) uintMax.toNat)) a ls b ∧ Refines net caches t b := by
  cases hStep with
  | @pack u package hPack =>
      exact ⟨_, _, Trace.single ⟨.advertise a u, fun _ => ⟨trivial, fun _ => trivial⟩⟩,
        h.pack hPack⟩
  | @broadcast u package cache pointers outputs hPacked hCache hSend =>
      exact ⟨[], a, Trace.nil a, h.broadcast hPacked hCache hSend⟩
  | @deliver u v w record package received merging neighborTable hSent hNe hAttached hTable =>
      obtain ⟨record', cache, tablePackage, snap, hSender, hCache, hAir, hLists, hCopy⟩ :=
        h.sent u w package hSent
      have hAddress : neighborTable.tableAddress = record'.mipAddress := by
        rw [(MIPRouteTable.createTable_entries hTable).1]
        rw [splitHorizonCopy_eq] at hCopy
        exact (poisonReverse_eq_some hCopy).1
      have hName : neighborTable.tableAddress ∈ net.addresses u :=
        hAddress ▸ Or.inr ⟨record', hSender.1, rfl⟩
      refine ⟨_, _, Trace.single ⟨.receive a hAir ⟨hNe, w, record', record, hSender, hAttached⟩
        hName fun d cost hOffer => hLists.offer hCopy hTable hOffer, fun _ => ⟨trivial, ?_⟩⟩, ?_⟩
      · intro hPoisons d r hRoute hOffer
        rcases hLists.withheld hCopy hTable hRoute hOffer with hHop | hCost
        · exact Or.inl (hHop ▸ hPoisons hCache hSender hAttached hNe)
        · exact Or.inr hCost
      · have hMerged := (h.distinct v).updateRouting neighborTable merging
        refine (h.update v hMerged ?_).hear
        intro d
        rw [h.route, MIPRouteTable.updateRouting_route (h.distinct v)]
  | expire v clock =>
      have hKept : ∀ d r, ((s.tables v).removeOldEntries clock).2.route d = some r →
          a.route v d = some r := by
        intro d r hRoute
        rw [h.route]
        exact MIPRouteTable.removeOldEntries_route (h.distinct v) hRoute
      exact ⟨_, _, Trace.single ⟨.forget a hKept, fun hKeeps => hKeeps.elim⟩,
        h.update v ((h.distinct v).removeOldEntries clock) fun _ => rfl⟩

end Network

end MipStack
