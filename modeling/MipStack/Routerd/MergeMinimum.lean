import MipStack.Routerd.LatestWord

/-! The table after any sequence of merges: for every destination the least cost that was
known or announced. -/
namespace MipStack
open DistanceVector Execution

namespace MIPRouteTable

/-- The costs that the tables announce for a destination and do not poison, in their order,
each with the address of its table. -/
def advertisements (news : List MIPRouteTable) (d : MIPAddress) : List (MIPAddress × ℕ) :=
  news.flatMap fun neighborTable =>
    (neighborTable.advertised d).map fun cost => (neighborTable.tableAddress, cost)

variable {table final : MIPRouteTable} {news news' : List MIPRouteTable} {d : MIPAddress}

theorem relaxAll_advertised (neighborTable : MIPRouteTable) (r : Option (Route MIPAddress))
    (d : MIPAddress) :
    relaxAll r ((neighborTable.advertised d).map fun cost => (neighborTable.tableAddress, cost)) =
      relaxOffer neighborTable.tableAddress r (neighborTable.offer d) := by
  rw [relaxAll, List.foldl_map, offer, ← foldl_relax]

/-- The announced costs are those of the entries, in whichever table they stand. -/
theorem mem_announced_iff {cost : ℕ} :
    cost ∈ (advertisements news d).map Prod.snd ↔
      ∃ entry ∈ news.flatMap MIPRouteTable.entries,
        entry.destination = d ∧ entry.cost ≠ uintMax ∧ entry.cost.toNat = cost := by
  simp only [advertisements, advertised, List.mem_flatMap, List.mem_map, List.mem_filter,
    decide_eq_true_eq]
  constructor
  · rintro ⟨_, ⟨neighborTable, hNews, _, ⟨entry, ⟨hMem, hDest, hCost⟩, rfl⟩, rfl⟩, rfl⟩
    exact ⟨entry, ⟨neighborTable, hNews, hMem⟩, hDest, hCost, rfl⟩
  · rintro ⟨entry, ⟨neighborTable, hNews, hMem⟩, hDest, hCost, rfl⟩
    exact ⟨_, ⟨neighborTable, hNews, _, ⟨entry, ⟨hMem, hDest, hCost⟩, rfl⟩, rfl⟩, rfl⟩

/-- A sequence of merges relaxes every destination by what was announced of it. -/
theorem Merge.run (hDistinct : table.Distinct) (run : Trace Merge table news final) :
    final.Distinct ∧ ∀ d, final.route d = relaxAll (table.route d) (advertisements news d) := by
  induction run with
  | nil => exact ⟨hDistinct, fun d => rfl⟩
  | snoc prior last ih =>
      obtain ⟨hMiddle, hRoutes⟩ := ih
      obtain ⟨clock⟩ := last
      refine ⟨hMiddle.updateRouting _ clock, fun d => ?_⟩
      rw [updateRouting_route hMiddle, hRoutes, ← relaxAll_advertised, ← relaxAll_append]
      simp only [advertisements, List.flatMap_append, List.flatMap_singleton]

/-- The costs depend on the announced entries alone, not on their order. -/
theorem Merge.cost_congr {final' : MIPRouteTable} (hDistinct : table.Distinct)
    (run : Trace Merge table news final) (run' : Trace Merge table news' final')
    (hPerm : (news.flatMap entries).Perm (news'.flatMap entries)) (d : MIPAddress) :
    (final'.route d).map Route.cost = (final.route d).map Route.cost := by
  rw [(Merge.run hDistinct run).2, (Merge.run hDistinct run').2]
  apply relaxAll_cost_congr
  intro cost
  simp only [mem_announced_iff, hPerm.mem_iff]

/-- Merging a table again changes no route: its offers were taken or lost against cheaper ones. -/
theorem updateRouting_twice (hDistinct : table.Distinct) (neighborTable : MIPRouteTable)
    (clock clock' : Clock) (d : MIPAddress) :
    ((table.updateRouting neighborTable clock).updateRouting neighborTable clock').route d =
      (table.updateRouting neighborTable clock).route d := by
  rw [updateRouting_route (hDistinct.updateRouting neighborTable clock),
    updateRouting_route hDistinct, relaxOffer_relaxOffer]

/-- After any merges the cost of a destination is the least of what was known and one more
than what was announced, and the next hop is the neighbour that announced it last. The order
does not matter for the cost, and a table that is merged twice has no further effect. -/
theorem merges_compute_minimum (hDistinct : table.Distinct)
    (run : Trace Merge table news final) (d : MIPAddress) :
    final.Distinct ∧
      (final.route d).map Route.cost =
        (costs (table.route d) (advertisements news d)).min? ∧
      (∀ r, final.route d = some r →
        some r.hop = (lastHop (advertisements news d) r.cost).or
          ((table.route d).map Route.hop)) ∧
      (∀ news' final', Trace Merge table news' final' →
        (news.flatMap entries).Perm (news'.flatMap entries) →
        (final'.route d).map Route.cost = (final.route d).map Route.cost) ∧
      ∀ neighborTable clock clock',
        ((final.updateRouting neighborTable clock).updateRouting neighborTable clock').route d =
          (final.updateRouting neighborTable clock).route d := by
  obtain ⟨hFinal, hRoutes⟩ := Merge.run hDistinct run
  refine ⟨hFinal, ?_, ?_, ?_, ?_⟩
  · rw [hRoutes]
    exact relaxAll_cost _ _
  · intro r hRoute
    exact relaxAll_hop ((hRoutes d).symm.trans hRoute)
  · intro news' final' run' hPerm
    exact Merge.cost_congr hDistinct run run' hPerm d
  · intro neighborTable clock clock'
    exact updateRouting_twice hFinal neighborTable clock clock' d

/-- Two neighbours announce the known cost, the first one also as poisoned; packages go
to the second one. -/
theorem merges_compute_minimum_tie :
    let table : MIPRouteTable := ⟨0, 5000, [⟨30, 30, 0, 0⟩, ⟨20, 10, 2, 0⟩]⟩
    let news : List MIPRouteTable :=
      [⟨10, 5000, [⟨20, 20, 1, 0⟩, ⟨20, 30, uintMax, 0⟩]⟩, ⟨40, 5000, [⟨20, 20, 1, 0⟩]⟩]
    let final : MIPRouteTable := ⟨0, 5000, [⟨30, 30, 0, 0⟩, ⟨20, 40, 2, 7⟩]⟩
    final.Distinct ∧
      (final.route 20).map Route.cost =
        (costs (table.route 20) (advertisements news 20)).min? ∧
      (∀ r, final.route 20 = some r →
        some r.hop = (lastHop (advertisements news 20) r.cost).or
          ((table.route 20).map Route.hop)) ∧
      (∀ news' final', Trace Merge table news' final' →
        (news.flatMap entries).Perm (news'.flatMap entries) →
        (final'.route 20).map Route.cost = (final.route 20).map Route.cost) ∧
      ∀ neighborTable clock clock',
        ((final.updateRouting neighborTable clock).updateRouting neighborTable clock').route 20 =
          (final.updateRouting neighborTable clock).route 20 := by
  intro table news final
  have run : Trace Merge table news final :=
    Trace.snoc (Trace.single (Merge.mk _ _ fun _ => 5)) (Merge.mk _ _ fun _ => 7)
  exact merges_compute_minimum (by decide) run 20

end MIPRouteTable

end MipStack
