import MipStack.Routerd.RouteRefinement
import Mathlib.Data.List.Dedup

/-! The routing daemon (`routerd/src/lib/router_server.c`): its table starts with
the configured addresses, and its loop merges received tables and expires routes. -/
namespace MipStack
open DistanceVector Execution

structure RouterServer where
  table : MIPRouteTable
  deriving DecidableEq, Repr

namespace RouterServer

/-- A local route costs 0 and has the address itself as next hop. -/
def addLocal (table : MIPRouteTable) (address : MIPAddress) (now : ℤ) : MIPRouteTable :=
  (table.update address address 0 now).2

def create (mipAddresses : List MIPAddress) (clock : Clock) : RouterServer :=
  { table := mipAddresses.zipIdx.foldl
      (fun table current => addLocal table current.1 (clock current.2)) MIPRouteTable.create }

inductive Event where
  | neighborTable (neighborTable : MIPRouteTable)
  | expiry

/-- What `RouterServer_run` does to the table, at any readings of the clock. -/
inductive Step : RouterServer → Event → RouterServer → Prop where
  | merge (server : RouterServer) (neighborTable : MIPRouteTable) (clock : Clock) :
      Step server (.neighborTable neighborTable)
        { server with table := server.table.updateRouting neighborTable clock }
  | expire (server : RouterServer) (clock : Clock) :
      Step server .expiry { server with table := (server.table.removeOldEntries clock).2 }

/-- The addresses of the tables received during a run. -/
def senders (events : List Event) : List MIPAddress :=
  events.filterMap fun
    | .neighborTable neighborTable => some neighborTable.tableAddress
    | .expiry => none

@[simp] theorem senders_append (events events' : List Event) :
    senders (events ++ events') = senders events ++ senders events' :=
  List.filterMap_append

/-- Exactly the configured addresses have a route of cost 0, to themselves, and
every other route leads through a sender. -/
structure LocalRoutes (addresses senders : List MIPAddress) (table : MIPRouteTable) : Prop where
  distinct : table.Distinct
  locals : ∀ d r, r.cost = 0 → (table.route d = some r ↔ d ∈ addresses ∧ r.hop = d)
  learned : ∀ d r, r.cost ≠ 0 → table.route d = some r → r.hop ∈ senders

variable {addresses heard heard' : List MIPAddress} {table : MIPRouteTable} {clock : Clock}
  {server server' : RouterServer} {event : Event} {events : List Event}

theorem LocalRoutes.empty : LocalRoutes [] heard MIPRouteTable.create :=
  ⟨List.nodup_nil, by simp [MIPRouteTable.route, MIPRouteTable.get, MIPRouteTable.create],
    by simp [MIPRouteTable.route, MIPRouteTable.get, MIPRouteTable.create]⟩

/-- Each configured address becomes a route of cost 0 to itself. -/
theorem LocalRoutes.addLocal (h : LocalRoutes addresses heard table) (address : MIPAddress)
    (now : ℤ) : LocalRoutes (addresses ++ [address]) heard (addLocal table address now) := by
  refine ⟨h.distinct.update, ?_, ?_⟩
  · rintro d ⟨cost, hop⟩ hZero
    obtain rfl : cost = 0 := hZero
    rw [RouterServer.addLocal, MIPRouteTable.update_route h.distinct]
    split_ifs with hd
    · subst hd
      simp [eq_comm]
    · simp [h.locals d ⟨0, hop⟩ rfl, Ne.symm hd]
  · intro d r hPos hRoute
    rw [RouterServer.addLocal, MIPRouteTable.update_route h.distinct] at hRoute
    split_ifs at hRoute with hd
    · obtain rfl := Option.some.inj hRoute
      exact absurd rfl hPos
    · exact h.learned d r hPos hRoute

theorem LocalRoutes.create (addresses heard : List MIPAddress) (clock : Clock) :
    LocalRoutes addresses heard (create addresses clock).table := by
  have hFold : ∀ (rest done : List MIPAddress) (start : ℕ) (table : MIPRouteTable),
      LocalRoutes done heard table → LocalRoutes (done ++ rest) heard
        ((rest.zipIdx start).foldl
          (fun table current => RouterServer.addLocal table current.1 (clock current.2))
          table) := by
    intro rest
    induction rest with
    | nil => simp
    | cons address rest ih =>
        intro done start table h
        simpa using ih (done ++ [address]) (start + 1) _ (h.addLocal address (clock start))
  exact hFold addresses [] 0 MIPRouteTable.create LocalRoutes.empty

/-- A merged route costs at least 1, so it never takes the place of a local one, and it leads
through the sender. -/
theorem LocalRoutes.updateRouting (h : LocalRoutes addresses heard table)
    (neighborTable : MIPRouteTable) (clock : Clock) :
    LocalRoutes addresses (heard ++ [neighborTable.tableAddress])
      (table.updateRouting neighborTable clock) := by
  refine ⟨h.distinct.updateRouting neighborTable clock, ?_, ?_⟩
  · intro d r hZero
    rw [MIPRouteTable.updateRouting_route h.distinct, relaxOffer_eq_some_zero hZero]
    exact h.locals d r hZero
  · intro d r hPos hRoute
    rw [MIPRouteTable.updateRouting_route h.distinct] at hRoute
    rcases relaxOffer_eq_some hRoute with hOld | ⟨hHop, _⟩
    · exact List.mem_append_left _ (h.learned d r hPos hOld)
    · simp [hHop]

/-- A sweep spares the routes of cost 0, however old they are. -/
theorem LocalRoutes.removeOldEntries (h : LocalRoutes addresses heard table) (clock : Clock) :
    LocalRoutes addresses heard (table.removeOldEntries clock).2 := by
  have hOld : ∀ d r, (table.removeOldEntries clock).2.route d = some r →
      table.route d = some r := fun d r => MIPRouteTable.removeOldEntries_route h.distinct
  refine ⟨h.distinct.removeOldEntries clock, ?_, fun d r hPos hRoute =>
    h.learned d r hPos (hOld d r hRoute)⟩
  intro d r hZero
  rw [← h.locals d r hZero]
  refine ⟨hOld d r, fun hRoute => ?_⟩
  obtain ⟨entry, hMem, rfl, hCost, hHop⟩ := (MIPRouteTable.route_eq_some_iff h.distinct).mp hRoute
  have hLocal : entry.cost = 0 := UInt32.toNat_inj.mp (hCost.trans hZero)
  exact (MIPRouteTable.route_eq_some_iff (h.distinct.removeOldEntries clock)).mpr
    ⟨entry, MIPRouteTable.mem_removeOldEntries hMem hLocal, rfl, hCost, hHop⟩

theorem LocalRoutes.step (h : LocalRoutes addresses heard server.table)
    (hStep : Step server event server') :
    LocalRoutes addresses (heard ++ senders [event]) server'.table := by
  cases hStep with
  | merge neighborTable clock => exact h.updateRouting neighborTable clock
  | expire clock => simpa [senders] using h.removeOldEntries clock

/-- The run lemma: the configured addresses, and only they, keep their routes of cost 0. -/
theorem LocalRoutes.run (run : Trace Step (RouterServer.create addresses clock) events server) :
    LocalRoutes addresses (senders events) server.table := by
  induction run with
  | nil => exact LocalRoutes.create addresses [] clock
  | snoc prior last ih =>
      rw [senders_append]
      exact ih.step last

/-- The local entries, in the order of the list, are the configured addresses,
each once; every other entry was learned from a sender. -/
theorem LocalRoutes.entries (h : LocalRoutes addresses heard table) :
    ((table.entries.filter fun entry => entry.cost = 0).map fun entry =>
        (entry.destination, entry.nextHop)).Perm (addresses.dedup.map fun a => (a, a)) ∧
      ∀ entry ∈ table.entries, entry.cost ≠ 0 → entry.nextHop ∈ heard := by
  constructor
  · refine (List.perm_ext_iff_of_nodup ?_ ?_).mpr ?_
    · refine List.Nodup.of_map Prod.fst ?_
      rw [List.map_map]
      exact h.distinct.sublist (List.filter_sublist.map _)
    · exact (List.nodup_dedup addresses).map fun a b hab => (Prod.mk.inj hab).1
    · rintro ⟨d, n⟩
      have hLocal := (h.locals d ⟨0, n⟩ rfl).symm.trans
        (MIPRouteTable.route_eq_some_iff h.distinct)
      simp only [List.mem_map, List.mem_filter, List.mem_dedup, decide_eq_true_eq]
      constructor
      · rintro ⟨entry, ⟨hMem, hCost⟩, hPair⟩
        obtain ⟨rfl, rfl⟩ := Prod.mk.inj hPair
        obtain ⟨hAddress, hHop⟩ := hLocal.mpr ⟨entry, hMem, rfl, by rw [hCost]; rfl, rfl⟩
        exact ⟨entry.destination, hAddress, Prod.ext rfl hHop.symm⟩
      · rintro ⟨a, hAddress, hPair⟩
        obtain ⟨rfl, rfl⟩ := Prod.mk.inj hPair
        obtain ⟨entry, hMem, hDest, hCost, hHop⟩ := hLocal.mp ⟨hAddress, rfl⟩
        exact ⟨entry, ⟨hMem, UInt32.toNat_inj.mp hCost⟩, by rw [hDest, hHop]⟩
  · intro entry hMem hPos
    refine h.learned _ _ ?_ (MIPRouteTable.route_of_mem h.distinct hMem)
    exact fun hZero => hPos (UInt32.toNat_inj.mp hZero)

/-- Neither received tables nor the clock displace a local route. No table is trusted in this: it
may announce any cost for any address. -/
theorem local_routes_stay (run : Trace Step (create addresses clock) events server) :
    (server.table.entries.map MIPRouteEntry.destination).Nodup ∧
      ((server.table.entries.filter fun entry => entry.cost = 0).map fun entry =>
        (entry.destination, entry.nextHop)).Perm (addresses.dedup.map fun a => (a, a)) ∧
      ∀ entry ∈ server.table.entries, entry.cost ≠ 0 → entry.nextHop ∈ senders events :=
  have h := LocalRoutes.run run
  ⟨h.distinct, h.entries⟩

/-- A host with one address, listed twice, hears a neighbour that poisons one
destination and claims to own the host's address; its learned route then expires. -/
theorem local_routes_stay_two_events :
    let events : List Event :=
      [.neighborTable ⟨10, 5000, [⟨20, 20, uintMax, 0⟩, ⟨30, 10, 0, 0⟩, ⟨10, 10, 0, 0⟩]⟩, .expiry]
    let table : MIPRouteTable := ⟨0, 5000, [⟨30, 30, 0, 0⟩]⟩
    (table.entries.map MIPRouteEntry.destination).Nodup ∧
      ((table.entries.filter fun entry => entry.cost = 0).map fun entry =>
        (entry.destination, entry.nextHop)).Perm ([30, 30].dedup.map fun a => (a, a)) ∧
      ∀ entry ∈ table.entries, entry.cost ≠ 0 → entry.nextHop ∈ senders events := by
  intro events table
  have run : Trace Step (create [30, 30] fun _ => 0) events ⟨table⟩ :=
    Trace.snoc (Trace.single (Step.merge _ _ fun _ => 0)) (Step.expire _ fun _ => 6000)
  exact local_routes_stay run

end RouterServer

end MipStack
