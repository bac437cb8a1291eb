import MipStack.Network.RouteGuarantees

/-! Convergence of the routing tables in a network of point-to-point links. -/
namespace MipStack
open DistanceVector Execution

namespace Network

variable {ρ σ : Type*} {net : Network ρ σ} {s t : State ρ σ}
  {a : DistanceVector.State ρ MIPAddress MIPAddress} {k n : ℕ} {v : ρ} {d : MIPAddress}

/-- With exact caches on point-to-point links the first cached neighbour is the
receiver, so a host is denied only the routes through itself. -/
theorem poisonsReceiver_of_exact (hLinks : net.PointToPoint) :
    net.PoisonsReceiver net.ExactCache := by
  intro u v w record record' cache hExact hSender hReceiver hNe
  have hReached : cache.Reaches record.rawSocket record'.mipAddress :=
    (hExact record hSender.1 _).mpr ⟨v, record', hNe, hSender.2.symm ▸ hReceiver, rfl⟩
  obtain ⟨x, record'', hNe', hOther, hAddress⟩ :=
    (hExact record hSender.1 _).mp (reaches_poisonedNextHop hReached)
  obtain rfl := hLinks hSender hReceiver (hSender.2 ▸ hOther) hNe hNe'
  exact Or.inr ⟨record'', hOther.1, hAddress⟩

/-- The hosts on a shortest path have different addresses, so a network with few
addresses has short distances. -/
theorem setDist_lt_length (hUnique : net.AddressesUnique) (hNonempty : ∀ u, net.configured u ≠ [])
    {addressBook : List MIPAddress} (hBook : ∀ u, net.configured u ⊆ addressBook)
    (hDist : setDist net.graph (net.owners d) v = n) : n < addressBook.length := by
  classical
  obtain ⟨o, -, hEdist⟩ := exists_setDist_eq hDist
  obtain ⟨walk, hLength⟩ := SimpleGraph.exists_walk_of_edist_eq_coe hEdist
  have hPath : n ≤ walk.bypass.length := by
    have hLe := SimpleGraph.edist_le walk.bypass
    rw [hEdist] at hLe
    exact_mod_cast hLe
  let first := fun u => (net.configured u).head (hNonempty u)
  have hFirst : ∀ u, first u ∈ net.configured u := fun u => List.head_mem (hNonempty u)
  have hNodup : (walk.bypass.support.map first).Nodup := by
    refine walk.bypass_isPath.support_nodup.map fun x y hxy => ?_
    exact hUnique (Or.inl (hFirst x)) (Or.inl (hxy ▸ hFirst y))
  have hSubset : walk.bypass.support.map first ⊆ addressBook := by
    intro address hMem
    obtain ⟨u, -, rfl⟩ := List.mem_map.mp hMem
    exact hBook u (hFirst u)
  have hCount := (hNodup.subperm hSubset).length_le
  rw [List.length_map, SimpleGraph.Walk.length_support] at hCount
  omega

/-- Tables that know only reachable destinations have at most as many entries as there are
addresses. -/
theorem entries_length_le_of_sound (hUnique : net.AddressesUnique)
    {caches : ρ → MipArpCache → Prop} {addressBook : List MIPAddress}
    (hBook : ∀ u, net.configured u ⊆ addressBook) (hRefines : Refines net caches t a)
    (hSound : Sound (net.topology hUnique) a) (v : ρ) :
    (t.tables v).entries.length ≤ addressBook.length := by
  have hSubset : (t.tables v).entries.map MIPRouteEntry.destination ⊆ addressBook := by
    intro d hMem
    obtain ⟨entry, hEntry, rfl⟩ := List.mem_map.mp hMem
    have hLe := (hSound.route v _ _ (hRefines.mem_route hEntry)).setDist_le
    obtain ⟨n, hDist⟩ := ENat.ne_top_iff_exists.mp (ne_top_of_le_ne_top (ENat.natCast_ne_top _) hLe)
    obtain ⟨o, hOwner, -⟩ := exists_setDist_eq hDist.symm
    exact hBook o hOwner
  have hCount := ((hRefines.distinct v).subperm hSubset).length_le
  rwa [List.length_map] at hCount

/-- Such tables are short enough to be packed: each destination is a configured address, and there
are fewer than 64 of these. -/
theorem createPackage_isSome_of_sound (hUnique : net.AddressesUnique)
    {caches : ρ → MipArpCache → Prop} {addressBook : List MIPAddress}
    (hBook : ∀ u, net.configured u ⊆ addressBook)
    (hFew : addressBook.length < mipTablePackageEntriesMaxSize)
    (hRefines : Refines net caches t a) (hSound : Sound (net.topology hUnique) a) (v : ρ) :
    (t.tables v).createPackage.isSome := by
  rw [MIPRouteTable.createPackage_isSome]
  exact (entries_length_le_of_sound hUnique hBook hRefines hSound v).trans_lt hFew

variable [DecidableEq ρ]

omit [DecidableEq ρ] in
theorem Refines.beginRound {caches : ρ → MipArpCache → Prop} (h : Refines net caches s a) :
    Refines net caches s.beginRound a.beginRound :=
  ⟨h.distinct, h.route, fun _ _ hNone => hNone.elim, fun _ _ _ hNone => hNone.elim,
    fun _ _ hNone => hNone.elim⟩

/-- A round of the network is a round of the protocol, in which every neighbour hears a snapshot
taken in the round. -/
theorem Round.refines (hUnique : net.AddressesUnique) (hLinks : net.PointToPoint)
    (h : Refines net net.ExactCache s a) (hRound : net.Round net.ExactCache s t) :
    ∃ b, DistanceVector.Round (net.topology hUnique) uintMax.toNat a b ∧
      Refines net net.ExactCache t b := by
  obtain ⟨⟨events, run⟩, hMerged⟩ := hRound
  obtain ⟨ls, b, hTrace, hEnd⟩ := h.beginRound.run_retains hUnique run
  refine ⟨b, ⟨⟨ls, hTrace.mono fun _ _ _ hl => ⟨hl.1, hl.2.2 (poisonsReceiver_of_exact hLinks)⟩⟩,
    fun u v hAdj => hEnd.merged v u (hMerged u v hAdj)⟩, hEnd⟩

/-- Rounds of the network are rounds of the protocol, up to the largest cost that is announced. -/
theorem Rounds.refines (hUnique : net.AddressesUnique) (hLinks : net.PointToPoint)
    (h : Refines net net.ExactCache s a) (rounds : net.Rounds net.ExactCache k s t) :
    ∃ b, DistanceVector.Rounds (net.topology hUnique) uintMax.toNat k a b ∧
      Refines net net.ExactCache t b := by
  induction rounds with
  | zero s => exact ⟨a, .zero a, h⟩
  | succ prior last ih =>
      obtain ⟨m, hRounds, hMiddle⟩ := ih h
      obtain ⟨b, hRound, hEnd⟩ := last.refines hUnique hLinks hMiddle
      exact ⟨b, .succ hRounds hRound, hEnd⟩

section Existence

variable {addressBook : List MIPAddress}

/-- Neighbours can exchange tables in any order, in one round. -/
theorem exists_exchanges (hUnique : net.AddressesUnique)
    (hBook : ∀ u, net.configured u ⊆ addressBook)
    (hFew : addressBook.length < mipTablePackageEntriesMaxSize)
    (hCaches : ∀ u, ∃ cache, net.ExactCache u cache)
    (hRefines : Refines net net.ExactCache s a) (hSound : Sound (net.topology hUnique) a)
    (pairs : List (ρ × ρ)) (hPairs : ∀ p ∈ pairs, net.graph.Adj p.1 p.2) : ∃ events t,
      Trace (Guarded (net.Step net.ExactCache) fun _ event _ => event.Retains) s events t ∧
      s.merged ⊆ t.merged ∧ ∀ p ∈ pairs, (p.2, p.1) ∈ t.merged := by
  induction pairs with
  | nil => exact ⟨[], s, Trace.nil s, subset_rfl, by simp⟩
  | cons p rest ih =>
      obtain ⟨events, m, run, hSub, hMerged⟩ := ih fun q hq => hPairs q (List.mem_cons_of_mem p hq)
      obtain ⟨ls, b, hTrace, hMiddle⟩ := hRefines.run hUnique run.unguard
      obtain ⟨hNe, w, record, record', hSender, hReceiver⟩ := hPairs p List.mem_cons_self
      obtain ⟨cache, hCache⟩ := hCaches p.1
      obtain ⟨t, last, hLast⟩ := exists_exchange net.ExactCache cache m
        (createPackage_isSome_of_sound hUnique hBook hFew hMiddle (hSound.run hTrace) p.1)
        hSender hReceiver hNe hCache
      refine ⟨_, t, run.trans last, ?_, ?_⟩
      · rw [hLast]
        exact hSub.trans (Set.subset_insert _ _)
      · intro q hq
        rw [hLast]
        rcases List.mem_cons.mp hq with rfl | hRest
        · exact Or.inl rfl
        · exact Or.inr (hMerged q hRest)

/-- A finite network whose caches are exact can run any number of rounds, so what is shown of them
is not empty. -/
theorem exists_rounds [Finite ρ] (hUnique : net.AddressesUnique) (hLinks : net.PointToPoint)
    (hBook : ∀ u, net.configured u ⊆ addressBook)
    (hFew : addressBook.length < mipTablePackageEntriesMaxSize)
    (hCaches : ∀ u, ∃ cache, net.ExactCache u cache) (clocks : ρ → Clock) (k : ℕ) :
    ∃ t, net.Rounds net.ExactCache k (net.initial clocks) t := by
  classical
  induction k with
  | zero => exact ⟨_, .zero _⟩
  | succ k ih =>
      obtain ⟨m, prior⟩ := ih
      obtain ⟨b, hRounds, hRefines⟩ := prior.refines hUnique hLinks (Refines.initial clocks)
      have hSound := (hRounds.settled (initial_topology hUnique clocks)).1
      have := Fintype.ofFinite ρ
      let pairs := (Finset.univ.filter fun p : ρ × ρ => net.graph.Adj p.1 p.2).toList
      obtain ⟨events, t, run, -, hMerged⟩ := exists_exchanges hUnique hBook hFew hCaches
        hRefines.beginRound ⟨hSound.route, fun _ _ h => h.elim⟩ pairs (by simp [pairs])
      exact ⟨t, .succ prior ⟨⟨events, run⟩, fun u v hAdj => hMerged (u, v) (by simpa [pairs])⟩⟩

end Existence

/-- After `k` rounds every table can be packed and holds, for every address at
most `k` links away, the exact distance and a next hop that is one link closer. -/
theorem routes_converge (net : Network ρ σ) (hUnique : net.AddressesUnique)
    (hNonempty : ∀ u, net.configured u ≠ []) (addressBook : List MIPAddress)
    (hBook : ∀ u, net.configured u ⊆ addressBook)
    (hFew : addressBook.length < mipTablePackageEntriesMaxSize) (hLinks : net.PointToPoint)
    (clocks : ρ → Clock) (rounds : net.Rounds net.ExactCache k (net.initial clocks) t) :
    (∀ v, (t.tables v).createPackage.isSome) ∧
      ∀ v d n, n ≤ k → setDist net.graph (net.owners d) v = n →
        ∃ entry ∈ (t.tables v).entries, entry.destination = d ∧ entry.cost.toNat = n ∧
          (n = 0 → entry.nextHop = d) ∧
          (n ≠ 0 → ∃ w, net.graph.Adj v w ∧ entry.nextHop ∈ net.addresses w ∧
            setDist net.graph (net.owners d) w = (n - 1 : ℕ)) := by
  obtain ⟨b, hRounds, hRefines⟩ := rounds.refines hUnique hLinks (Refines.initial clocks)
  obtain ⟨hSound, hSettled⟩ := hRounds.settled (initial_topology hUnique clocks)
  refine ⟨createPackage_isSome_of_sound hUnique hBook hFew hRefines hSound, ?_⟩
  intro v d n hk hDist
  have hShort : n ≤ uintMax.toNat := by
    have hLt := (setDist_lt_length hUnique hNonempty hBook hDist).trans hFew
    unfold mipTablePackageEntriesMaxSize at hLt
    change n ≤ 4294967295
    omega
  obtain ⟨r, hRoute, hCost⟩ := hSettled v d n hk hShort hDist
  obtain ⟨entry, hMem, hDest, hEntryCost, hHop⟩ := hRefines.exists_entry hRoute
  have hSoundRoute := hSound.route v d r hRoute
  refine ⟨entry, hMem, hDest, hEntryCost.trans hCost, ?_, ?_⟩
  · intro hZero
    exact hHop.trans (hSoundRoute.cost_eq_zero (hCost.trans hZero)).2
  · intro hPos
    obtain ⟨w, hAdj, hName, hLe⟩ := hSoundRoute.next (hCost ▸ hPos)
    refine ⟨w, hAdj, hHop ▸ hName, ?_⟩
    -- The neighbour is closer by its own cost and cannot be closer by two.
    have hFar : (n : ℕ∞) ≤ setDist net.graph (net.owners d) w + 1 := hDist ▸ setDist_le_succ hAdj
    have hNear : setDist net.graph (net.owners d) w + 1 ≤ n := hCost ▸ hLe
    have hEq := le_antisymm hNear hFar
    obtain ⟨m, rfl⟩ := Nat.exists_eq_succ_of_ne_zero hPos
    rw [Nat.succ_sub_one]
    rw [Nat.succ_eq_add_one, Nat.cast_add, Nat.cast_one] at hEq
    exact (ENat.add_left_injective_of_ne_top ENat.one_ne_top) hEq

/-- After one round of the two hosts, 20 reaches 10 at cost 1, which is the distance between
them. -/
theorem two_hosts_converge : ∃ t,
    twoHosts.Rounds twoHosts.ExactCache 1 (twoHosts.initial fun _ _ => 0) t ∧
      ∃ entry ∈ (t.tables true).entries, entry.destination = 10 ∧ entry.cost.toNat = 1 := by
  have hBook : ∀ u, twoHosts.configured u ⊆ [10, 20] := by
    intro u
    cases u <;> simp [twoHosts]
  have hLinks : twoHosts.PointToPoint := by
    intro u v x w record record' record'' _ _ _ huv hux
    cases u <;> cases v <;> cases x <;> simp_all
  have hCaches : ∀ u, ∃ cache, twoHosts.ExactCache u cache := by
    intro u
    refine ⟨⟨[⟨if u then 10 else 20, 3, ethBroadcastAddr, 0⟩], 10000, 0,
      by cases u <;> decide, by cases u <;> decide⟩, ?_⟩
    intro record hRecord a
    obtain rfl := List.mem_singleton.mp hRecord
    cases u <;> simp [MipArpCache.Reaches, Attached, twoHosts]
  have hDist : setDist twoHosts.graph (twoHosts.owners 10) true = (1 : ℕ) := by
    have hOwner : true ∉ twoHosts.owners 10 := by
      intro hMem
      exact absurd (List.mem_singleton.mp hMem) (by decide)
    have hZero : setDist twoHosts.graph (twoHosts.owners 10) false = 0 :=
      setDist_eq_zero_iff.mpr List.mem_cons_self
    have hAdj : twoHosts.graph.Adj true false :=
      ⟨by decide, (), _, _, ⟨List.mem_cons_self, rfl⟩, ⟨List.mem_cons_self, rfl⟩⟩
    refine le_antisymm ((setDist_le_succ hAdj).trans (by simp [hZero])) ?_
    rw [Nat.cast_one]
    exact Order.one_le_iff_pos.mpr (pos_iff_ne_zero.mpr (setDist_eq_zero_iff.not.mpr hOwner))
  obtain ⟨t, rounds⟩ := exists_rounds twoHosts_addressesUnique hLinks hBook (by decide) hCaches
    (fun _ _ => 0) 1
  obtain ⟨entry, hMem, hDest, hCost, -⟩ := (routes_converge twoHosts twoHosts_addressesUnique
    (by simp [twoHosts]) [10, 20] hBook (by decide) hLinks (fun _ _ => 0) rounds).2 true 10 1
    (Nat.le_refl 1) hDist
  exact ⟨t, rounds, entry, hMem, hDest, hCost⟩

end Network

end MipStack
