import MipStack.Network.Convergence

/-! Where the next hops of the routing tables lie: on the other end of a wire of the host, and
after enough rounds one link closer to the destination. -/
namespace MipStack
open DistanceVector Execution

namespace Network

variable {ρ σ : Type*} {net : Network ρ σ} {caches : ρ → MipArpCache → Prop} {s t : State ρ σ}
  {event : Event ρ} {k n : ℕ} {u v w : ρ} {d a : MIPAddress}

/-- An interface of another host on a wire of `v` has the address. -/
def Beside (net : Network ρ σ) (v : ρ) (a : MIPAddress) : Prop :=
  ∃ u w record record', v ≠ u ∧ net.Attached v w record ∧ net.Attached u w record' ∧
    record'.mipAddress = a

/-- Tables on the wires name the interface they were sent from, and learned routes lead there. -/
structure HopsBeside (net : Network ρ σ) (s : State ρ σ) : Prop where
  distinct : ∀ v, (s.tables v).Distinct
  sent : ∀ u w package, (u, w, package) ∈ s.sent → ∃ record, net.Attached u w record ∧
    (parseBroadcastedTable package).tableAddress = record.mipAddress
  tables : ∀ v d r, (s.tables v).route d = some r → r.cost ≠ 0 → net.Beside v r.hop

theorem HopsBeside.initial (clocks : ρ → Clock) : HopsBeside net (net.initial clocks) := by
  have hLocal := fun v => RouterServer.LocalRoutes.create (net.configured v) [] (clocks v)
  refine ⟨fun v => (hLocal v).distinct, fun _ _ _ h => h.elim, fun v d r hRoute hPos => ?_⟩
  exact absurd ((hLocal v).learned d r hPos hRoute) List.not_mem_nil

theorem HopsBeside.beginRound (h : HopsBeside net s) : HopsBeside net s.beginRound :=
  ⟨h.distinct, fun _ _ _ h => h.elim, h.tables⟩

variable [DecidableEq ρ]

/-- One table changes, by a merge or by a sweep. Frames on the wires stay. -/
theorem HopsBeside.update (h : HopsBeside net s) (v : ρ) {table : MIPRouteTable}
    (hDistinct : table.Distinct)
    (hRoutes : ∀ d r, table.route d = some r → r.cost ≠ 0 → net.Beside v r.hop)
    (merged : Set (ρ × ρ)) :
    HopsBeside net { s with tables := Function.update s.tables v table, merged } := by
  refine ⟨?_, h.sent, ?_⟩
  · intro x
    by_cases hx : x = v
    · subst hx
      simpa using hDistinct
    · simpa [Function.update_of_ne hx] using h.distinct x
  · intro x
    by_cases hx : x = v
    · subst hx
      simpa using hRoutes
    · simpa [Function.update_of_ne hx] using h.tables x

/-- The step lemma: a merged route leads to the interface that the table came from, which is on a
wire of the receiver. -/
theorem HopsBeside.step (h : HopsBeside net s) (hStep : net.Step caches s event t) :
    HopsBeside net t := by
  cases hStep with
  | pack hPack => exact ⟨h.distinct, h.sent, h.tables⟩
  | @broadcast u package cache pointers outputs hPacked hCache hSend =>
      refine ⟨h.distinct, ?_, h.tables⟩
      rintro v w frame (hOld | ⟨socket, frame', hOutput, hNew⟩)
      · exact h.sent v w frame hOld
      · cases hNew
        obtain ⟨record, hRecord, hFrame⟩ := mem_broadcastRouteTable hSend hOutput
        obtain ⟨tmp, _, hCopy, hSent, hMessage, -⟩ := broadcastOnInterface_eq_ok hFrame
        obtain ⟨rfl, rfl⟩ := Output.sendto.inj hSent
        refine ⟨record, ⟨hRecord, rfl⟩, ?_⟩
        rw [splitHorizonCopy_eq] at hCopy
        rw [parseBroadcastedTable_eq hMessage]
        exact (poisonReverse_eq_some hCopy).1
  | @deliver u v w record package received merging neighborTable hSent hNe hAttached hTable =>
      obtain ⟨record', hSender, hAddress⟩ := h.sent u w package hSent
      refine h.update v ((h.distinct v).updateRouting neighborTable merging) ?_ _
      intro d r hRoute hPos
      rw [MIPRouteTable.updateRouting_route (h.distinct v)] at hRoute
      rcases relaxOffer_eq_some hRoute with hOld | ⟨hHop, -⟩
      · exact h.tables v d r hOld hPos
      · refine ⟨u, w, record, record', hNe.symm, hAttached, hSender, ?_⟩
        rw [hHop, (MIPRouteTable.createTable_entries hTable).1, hAddress]
  | expire v clock =>
      exact h.update v ((h.distinct v).removeOldEntries clock) (fun d r hRoute =>
        h.tables v d r (MIPRouteTable.removeOldEntries_route (h.distinct v) hRoute)) _

theorem HopsBeside.rounds (h : HopsBeside net s) (rounds : net.Rounds caches k s t) :
    HopsBeside net t := by
  induction rounds with
  | zero s => exact h
  | succ prior last ih =>
      obtain ⟨⟨events, run⟩, -⟩ := last
      exact run.invariant (ih h).beginRound fun _ _ _ h hStep => h.step hStep.1

/-- What a host looks up after `k` rounds for a destination up to `k` links away: an interface
of a host one link closer that shares a wire with it. -/
theorem Rounds.getNextHop (hUnique : net.AddressesUnique)
    (hNonempty : ∀ u, net.configured u ≠ []) (hLinks : net.PointToPoint) {clocks : ρ → Clock}
    (rounds : net.Rounds net.ExactCache k (net.initial clocks) t) (hk : n + 1 ≤ k)
    (hDist : setDist net.graph (net.owners d) v = (n + 1 : ℕ))
    (hBroadcast : d ≠ mipBroadcastAddress) :
    ∃ x w record record', v ≠ x ∧ net.Attached v w record ∧ net.Attached x w record' ∧
      record'.mipAddress = (t.tables v).getNextHop d ∧
      setDist net.graph (net.owners d) x = n := by
  obtain ⟨b, hRounds, hRefines⟩ := rounds.refines hUnique hLinks (Refines.initial clocks)
  obtain ⟨hSound, hSettled⟩ := hRounds.settled (initial_topology hUnique clocks)
  have hShort : n + 1 < 256 := by
    let addressBook := (List.range 256).map UInt8.ofNat
    have hBook : ∀ u, net.configured u ⊆ addressBook := fun u a _ =>
      List.mem_map.mpr ⟨a.toNat, List.mem_range.mpr a.toNat_lt, UInt8.ofNat_toNat⟩
    have hLt := setDist_lt_length hUnique hNonempty hBook hDist
    rwa [List.length_map, List.length_range] at hLt
  have hLimit : n + 1 ≤ uintMax.toNat := hShort.le.trans (by decide)
  obtain ⟨r, hRoute, hCost⟩ := hSettled v d (n + 1) hk hLimit hDist
  have hPos : r.cost ≠ 0 := hCost ▸ Nat.succ_ne_zero n
  obtain ⟨entry, hMem, rfl, -, hHop⟩ := hRefines.exists_entry hRoute
  have hLookup : (t.tables v).getNextHop entry.destination = r.hop := by
    rw [MIPRouteTable.getNextHop, if_neg hBroadcast,
      MIPRouteTable.get_of_mem (hRefines.distinct v) hMem]
    exact hHop
  obtain ⟨x, w, record, record', hNe, hHere, hThere, hAddress⟩ :=
    ((HopsBeside.initial clocks).rounds rounds).tables v _ r
      ((hRefines.route v _).symm.trans hRoute) hPos
  refine ⟨x, w, record, record', hNe, hHere, hThere, hAddress.trans hLookup.symm, ?_⟩
  -- The neighbour the route was learned from is the only host with the address.
  obtain ⟨y, hAdj, hName, hLe⟩ := (hSound.route v _ r hRoute).next hPos
  obtain rfl : y = x := hUnique hName (Or.inr ⟨record', hThere.1, hAddress⟩)
  have hFar : ((n + 1 : ℕ) : ℕ∞) ≤ setDist net.graph (net.owners entry.destination) y + 1 :=
    hDist ▸ setDist_le_succ hAdj
  have hNear : setDist net.graph (net.owners entry.destination) y + 1 ≤ (n + 1 : ℕ) :=
    hCost ▸ hLe
  have hEq := le_antisymm hNear hFar
  rw [Nat.cast_add, Nat.cast_one] at hEq
  exact (ENat.add_left_injective_of_ne_top ENat.one_ne_top) hEq

end Network

end MipStack
