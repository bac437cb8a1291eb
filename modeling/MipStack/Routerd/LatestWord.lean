import MipStack.Routerd.RouteRefinement

/-! What a merge does with news that are worse than what a neighbour announced
before. The README defines the cost of a destination as the minimum over the
neighbours' current costs; the merge only looks for improvements. -/
namespace MipStack
open DistanceVector Execution

namespace MIPRouteTable

/-- Merging one neighbour's table. -/
inductive Merge : MIPRouteTable → MIPRouteTable → MIPRouteTable → Prop where
  | mk (table neighborTable : MIPRouteTable) (clock : Clock) :
      Merge table neighborTable (table.updateRouting neighborTable clock)

/-- The routes through the neighbour cost one more than what it now offers, and
there are none for destinations it poisons or no longer lists. -/
def FollowsLatestWord (neighborTable table : MIPRouteTable) : Prop :=
  ∀ entry ∈ table.entries, entry.cost ≠ 0 → entry.nextHop = neighborTable.tableAddress →
    (neighborTable.offer entry.destination).map (· + 1) = some entry.cost.toNat

/-- The neighbour still offers every route through it, at no higher cost. -/
def BringsNoWorseNews (table neighborTable : MIPRouteTable) : Prop :=
  ∀ entry ∈ table.entries, entry.cost ≠ 0 → entry.nextHop = neighborTable.tableAddress →
    ∃ cost ∈ neighborTable.offer entry.destination, cost + 1 ≤ entry.cost.toNat

instance (table : MIPRouteTable) : Decidable table.Distinct :=
  inferInstanceAs (Decidable (List.Nodup _))

instance (neighborTable table : MIPRouteTable) :
    Decidable (FollowsLatestWord neighborTable table) :=
  inferInstanceAs (Decidable (∀ entry ∈ table.entries, _ → _ → _))

instance (table neighborTable : MIPRouteTable) :
    Decidable (BringsNoWorseNews table neighborTable) :=
  inferInstanceAs (Decidable (∀ entry ∈ table.entries, _ → _ →
    ∃ cost ∈ neighborTable.offer entry.destination, cost + 1 ≤ entry.cost.toNat))

variable {table neighborTable final : MIPRouteTable} {clock : Clock}

theorem toNat_ne_zero {cost : UInt32} (h : cost ≠ 0) : cost.toNat ≠ 0 :=
  fun hZero => h (UInt32.toNat_inj.mp hZero)

/-- Quantifying over the entries through a neighbour is quantifying over the
routes through it. -/
theorem forall_entries_iff (hDistinct : table.Distinct) {v : MIPAddress}
    {P : MIPAddress → ℕ → Prop} :
    (∀ entry ∈ table.entries, entry.cost ≠ 0 → entry.nextHop = v →
        P entry.destination entry.cost.toNat) ↔
      ∀ d cost, table.route d = some ⟨cost, v⟩ → cost ≠ 0 → P d cost := by
  constructor
  · intro h d cost hRoute hPos
    obtain ⟨entry, hMem, rfl, rfl, hHop⟩ := (route_eq_some_iff hDistinct).mp hRoute
    exact h entry hMem (fun hZero => hPos (by rw [hZero]; rfl)) hHop
  · rintro h entry hMem hPos rfl
    exact h _ _ (route_of_mem hDistinct hMem) (toNat_ne_zero hPos)

/-- After a merge the routes through the neighbour follow its latest word
exactly if its table was no worse than what was known before. -/
theorem followsLatestWord_iff (hDistinct : table.Distinct) (clock : Clock) :
    FollowsLatestWord neighborTable (table.updateRouting neighborTable clock) ↔
      BringsNoWorseNews table neighborTable := by
  rw [FollowsLatestWord, BringsNoWorseNews,
    forall_entries_iff (hDistinct.updateRouting neighborTable clock)
      (P := fun d cost => (neighborTable.offer d).map (· + 1) = some cost),
    forall_entries_iff hDistinct
      (P := fun d cost => ∃ c ∈ neighborTable.offer d, c + 1 ≤ cost)]
  simp only [updateRouting_route hDistinct]
  refine forall_congr' fun d => ?_
  constructor
  · intro hFollows cost hRoute hPos
    cases hOffer : neighborTable.offer d with
    | none => simpa [hOffer] using hFollows cost (by rw [hOffer]; exact hRoute) hPos
    | some c =>
        refine ⟨c, rfl, ?_⟩
        by_contra hWorse
        -- A worse offer leaves the old route in place, at its old cost.
        have hKept : relaxOffer neighborTable.tableAddress (table.route d)
            (neighborTable.offer d) = some ⟨cost, neighborTable.tableAddress⟩ := by
          rw [hOffer, hRoute, relaxOffer_some, relax_keep (Nat.not_le.mp hWorse)]
        have hCost := hFollows cost hKept hPos
        rw [hOffer, Option.map_some, Option.some.injEq] at hCost
        omega
  · intro hNews cost hMerged hPos
    rcases relaxOffer_eq_some hMerged with hRoute | ⟨_, c, hOffer, rfl⟩
    · obtain ⟨c, hOffer, hLe⟩ := hNews cost hRoute hPos
      have hAdopted : relaxOffer neighborTable.tableAddress (table.route d)
          (neighborTable.offer d) = some ⟨c + 1, neighborTable.tableAddress⟩ := by
        rw [Option.mem_def.mp hOffer, hRoute, relaxOffer_some]
        refine relax_adopt fun q hq => ?_
        obtain rfl := Option.some.inj hq
        exact hLe
      rw [hAdopted] at hMerged
      obtain ⟨rfl, _⟩ := Route.mk.inj (Option.some.inj hMerged)
      rw [Option.mem_def.mp hOffer, Option.map_some]
    · rw [hOffer, Option.map_some]

/-- In a sequence of merges every merge leaves routes that follow the
neighbour's latest word exactly if no neighbour ever brings worse news. -/
theorem merges_follow_latest_word_iff (hDistinct : table.Distinct) (news : List MIPRouteTable) :
    Trace (Guarded Merge fun _ neighborTable after => FollowsLatestWord neighborTable after)
        table news final ↔
      Trace (Guarded Merge fun before neighborTable _ => BringsNoWorseNews before neighborTable)
        table news final := by
  refine Trace.guarded_iff (I := Distinct) hDistinct ?_ ?_
  · rintro before neighborTable _ h ⟨⟩ _
    exact h.updateRouting neighborTable _
  · rintro before neighborTable _ h ⟨⟩
    exact followsLatestWord_iff h _

/-- A table that knows address 20 at cost 2 through 10 and hears from 10 that the
cost there is still 1. -/
theorem repeated_news_followed :
    Trace (Guarded Merge fun _ neighborTable after => FollowsLatestWord neighborTable after)
      ⟨0, 5000, [⟨30, 30, 0, 0⟩, ⟨20, 10, 2, 0⟩]⟩ [⟨10, 5000, [⟨20, 20, 1, 0⟩]⟩]
      ⟨0, 5000, [⟨30, 30, 0, 0⟩, ⟨20, 10, 2, 7⟩]⟩ := by
  refine (merges_follow_latest_word_iff (by decide) _).mpr ?_
  exact Trace.single ⟨Merge.mk _ _ fun _ => 7, by decide⟩

/-- The same table keeps its route when 10 poisons the destination: an entry with the poison value
is never taken over, not even from the next hop itself. -/
theorem poison_does_not_withdraw_route :
    let table : MIPRouteTable := ⟨0, 5000, [⟨30, 30, 0, 0⟩, ⟨20, 10, 2, 0⟩]⟩
    let poisoned : MIPRouteTable := ⟨10, 5000, [⟨20, 20, uintMax, 0⟩]⟩
    table.Distinct ∧ Merge table poisoned table ∧ ¬ FollowsLatestWord poisoned table :=
  ⟨by decide, Merge.mk _ _ fun _ => 7, by decide⟩

end MIPRouteTable

end MipStack
