import MipStack.Network.RouteSimulation

/-! What the routing daemons of a network guarantee as long as frames arrive as they
were sent: costs are never below the hop distance, and next hops form no loops while
nothing expires. -/
namespace MipStack
open DistanceVector Execution

namespace Network

variable {ρ σ : Type*} [DecidableEq ρ] {net : Network ρ σ} {caches : ρ → MipArpCache → Prop}
  {s t : State ρ σ} {a b : DistanceVector.State ρ MIPAddress MIPAddress}
  {events : List (Event ρ)} {k : ℕ}

omit [DecidableEq ρ] in
theorem Refines.mem_route (h : Refines net caches t b) {u : ρ} {entry : MIPRouteEntry}
    (hMem : entry ∈ (t.tables u).entries) :
    b.route u entry.destination = some ⟨entry.cost.toNat, entry.nextHop⟩ :=
  (h.route u _).trans (MIPRouteTable.route_of_mem (h.distinct u) hMem)

omit [DecidableEq ρ] in
theorem Refines.exists_entry (h : Refines net caches t b) {u : ρ} {d : MIPAddress}
    {r : Route MIPAddress} (hRoute : b.route u d = some r) : ∃ entry ∈ (t.tables u).entries,
      entry.destination = d ∧ entry.cost.toNat = r.cost ∧ entry.nextHop = r.hop :=
  (MIPRouteTable.route_eq_some_iff (h.distinct u)).mp ((h.route u d).symm.trans hRoute)

/-- Runs of the network are runs of the protocol, so what holds of all of the latter holds of
tables and frames. -/
theorem Refines.run (hUnique : net.AddressesUnique) (h : Refines net caches s a)
    (run : Trace (net.Step caches) s events t) : ∃ ls b,
      Trace (DistanceVector.Step (net.topology hUnique)) a ls b ∧ Refines net caches t b := by
  refine run.simulation h ?_
  intro s event t a hRefines hStep
  obtain ⟨ls, b, hTrace, hEnd⟩ := hRefines.step hUnique hStep
  exact ⟨ls, b, hTrace.unguard, hEnd⟩

/-- Runs without expiry are runs in which nothing is forgotten, which is what the order of costs
needs. -/
theorem Refines.run_retains (hUnique : net.AddressesUnique) (h : Refines net caches s a)
    (run : Trace (Guarded (net.Step caches) fun _ event _ => event.Retains) s events t) :
    ∃ ls b, Trace (Guarded (DistanceVector.Step (net.topology hUnique))
        fun _ l _ => l.Retains ∧ (net.PoisonsReceiver caches →
          l.Honest (net.topology hUnique) uintMax.toNat)) a ls b ∧ Refines net caches t b := by
  refine run.simulation h ?_
  intro s event t a hRefines hStep
  obtain ⟨ls, b, hTrace, hEnd⟩ := hRefines.step hUnique hStep.1
  exact ⟨ls, b, hTrace.mono fun _ _ _ hl => ⟨hl.1, hl.2 hStep.2⟩, hEnd⟩

/-- A host whose table can be packed puts a split horizon copy of it on each of its wires. -/
theorem exists_packed_broadcast (caches : ρ → MipArpCache → Prop) {u : ρ} {w : σ}
    {record : InterfaceRecord} (cache : MipArpCache) (s : State ρ σ)
    (hPackable : (s.tables u).createPackage.isSome) (hSender : net.Attached u w record)
    (hCache : caches u cache) : ∃ package tmp frame m,
      (s.tables u).createPackage = some package ∧
      splitHorizonCopy cache record package = some tmp ∧
      frame.message = padMessage tmp.toBytes ∧ frame.mHeader.payloadLen = 129 ∧
      Trace (Guarded (net.Step caches) fun _ event _ => event.Retains ∧ ¬ event.Delivers) s
        [.pack u, .broadcast u] m ∧
      (u, w, frame) ∈ m.sent ∧ m.tables = s.tables ∧ m.merged = s.merged := by
  obtain ⟨package, hPack⟩ := Option.isSome_iff_exists.mp hPackable
  obtain ⟨hCount, hSize⟩ := MIPRouteTable.createPackage_numEntries hPack
  let pointers : ℕ → PointerBytes := fun _ => Vector.replicate 8 0
  have hCopy : ∀ r, ∃ tmp, splitHorizonCopy cache r package = some tmp := by
    intro r
    rw [splitHorizonCopy_eq, poisonReverse, if_pos (hCount ▸ hSize.le)]
    exact ⟨_, rfl⟩
  obtain ⟨outputs, hSend, hFrames⟩ := exists_broadcast (net.iTable u) pointers
    (fun r output => ∃ tmp frame, splitHorizonCopy cache r package = some tmp ∧
      output = .sendto r.rawSocket frame ∧ frame.message = padMessage tmp.toBytes ∧
      frame.mHeader.payloadLen = 129) fun r _ => by
    obtain ⟨tmp, hTmp⟩ := hCopy r
    obtain ⟨frame, hFrame, hMessage, hHeader⟩ := exists_broadcastOnInterface hTmp pointers
    exact ⟨_, hFrame, tmp, frame, hTmp, rfl, hMessage, by rw [hHeader]⟩
  obtain ⟨i, hi, hRecord⟩ := List.mem_iff_getElem.mp hSender.1
  have hi' : i < outputs.length := hFrames.length_eq ▸ hi
  obtain ⟨tmp, frame, hTmp, hFrame, hMessage, hWords⟩ := hFrames.get hi hi'
  have hOutput : .sendto record.rawSocket frame ∈ outputs := by
    rw [← hRecord]
    exact hFrame ▸ List.get_mem outputs ⟨i, hi'⟩
  let packed : State ρ σ := { s with packed := insert (u, package) s.packed }
  let sent : State ρ σ := { packed with
    sent := {frame | frame ∈ s.sent ∨ ∃ socket package, .sendto socket package ∈ outputs ∧
      frame = (u, net.wire u socket, package)} }
  have hPackStep : net.Step caches s (.pack u) packed := .pack s hPack
  have hSendStep : net.Step caches packed (.broadcast u) sent :=
    .broadcast packed (Or.inl rfl) hCache hSend
  refine ⟨package, tmp, frame, sent, hPack, hRecord ▸ hTmp, hMessage, hWords,
    (Trace.single ⟨hPackStep, trivial, id⟩).snoc ⟨hSendStep, trivial, id⟩, ?_, rfl, rfl⟩
  exact Or.inr ⟨_, _, hOutput, by rw [hSender.2]⟩

/-- A copy announces as many entries as the table it is made of. -/
theorem splitHorizonCopy_numEntries {cache : MipArpCache} {record : InterfaceRecord}
    {package tmp : MIPRouteTablePackage}
    (hCopy : splitHorizonCopy cache record package = some tmp) :
    tmp.numEntries = package.numEntries := by
  rw [splitHorizonCopy_eq, poisonReverse] at hCopy
  split_ifs at hCopy with hFits
  obtain rfl := Option.some.inj hCopy
  rfl

/-- A host whose table can be packed can pass it to any neighbour: pack, broadcast and merge are
possible one after the other. -/
theorem exists_exchange (caches : ρ → MipArpCache → Prop) {u v : ρ} {w : σ}
    {record record' : InterfaceRecord} (cache : MipArpCache) (s : State ρ σ)
    (hPackable : (s.tables u).createPackage.isSome)
    (hSender : net.Attached u w record) (hReceiver : net.Attached v w record') (hNe : u ≠ v)
    (hCache : caches u cache) : ∃ t,
      Trace (Guarded (net.Step caches) fun _ event _ => event.Retains) s
        [.pack u, .broadcast u, .deliver v u] t ∧ t.merged = insert (v, u) s.merged := by
  obtain ⟨package, tmp, frame, m, hPack, hCopy, hMessage, -, run, hSent, -, hMerged⟩ :=
    exists_packed_broadcast caches cache s hPackable hSender hCache
  obtain ⟨hCount, hSize⟩ := MIPRouteTable.createPackage_numEntries hPack
  obtain ⟨neighborTable, hTable⟩ : ∃ neighborTable,
      (parseBroadcastedTable frame).createTable (fun _ => 0) = some neighborTable := by
    refine ⟨_, if_pos ?_⟩
    rw [parseBroadcastedTable_eq hMessage, splitHorizonCopy_numEntries hCopy, hCount]
    exact hSize
  let merged : State ρ σ := { m with
    tables := Function.update m.tables v ((m.tables v).updateRouting neighborTable fun _ => 0)
    merged := insert (v, u) m.merged }
  have hMergeStep : net.Step caches m (.deliver v u) merged :=
    .deliver m hSent hNe hReceiver hTable
  refine ⟨merged, (run.mono fun _ _ _ h => ⟨h.1, h.2.1⟩).snoc ⟨hMergeStep, trivial⟩, ?_⟩
  show insert (v, u) m.merged = insert (v, u) s.merged
  rw [hMerged]

/-- Where frames arrive as they were sent, route costs are never too good to be true, in
tables and in frames on the wire, whatever is lost, repeated, reordered or expired. -/
theorem costs_at_least_distance (net : Network ρ σ) (hUnique : net.AddressesUnique)
    (clocks : ρ → Clock)
    (run : Trace (net.Step fun _ _ => True) (net.initial clocks) events t) :
    (∀ u, ∀ entry ∈ (t.tables u).entries,
      setDist net.graph (net.owners entry.destination) u ≤ entry.cost.toNat ∧
        (entry.cost = 0 → u ∈ net.owners entry.destination) ∧
        (entry.cost ≠ 0 → ∃ v, net.graph.Adj u v ∧ entry.nextHop ∈ net.addresses v)) ∧
      ∀ u w package, (u, w, package) ∈ t.sent →
        ∀ entry ∈ (parseBroadcastedTable package).listed, entry.cost ≠ uintMax →
          setDist net.graph (net.owners entry.destination) u ≤ entry.cost.toNat ∧
            (entry.cost + 1).toNat = entry.cost.toNat + 1 := by
  obtain ⟨ls, b, hTrace, hRefines⟩ := (Refines.initial clocks).run hUnique run
  have hSound := (initial_topology hUnique clocks).sound.run hTrace
  constructor
  · intro u entry hMem
    have hRoute := hSound.route u _ _ (hRefines.mem_route hMem)
    refine ⟨hRoute.setDist_le, ?_, ?_⟩
    · intro hZero
      exact (hRoute.cost_eq_zero (congrArg UInt32.toNat hZero)).1
    · intro hPos
      obtain ⟨v, hAdj, hName, -⟩ := hRoute.next fun hZero => hPos (UInt32.toNat_inj.mp hZero)
      exact ⟨v, hAdj, hName⟩
  · intro u w package hSent entry hListed hCost
    obtain ⟨record, cache, tablePackage, snap, -, -, hAir, hLists, hCopy⟩ :=
      hRefines.sent u w package hSent
    have hOriginal := mem_listed_of_copy hCopy hListed hCost
    exact ⟨(hSound.air u snap hAir _ _ (hLists.listed _ hOriginal)).setDist_le,
      toNat_add_one hCost⟩

/-- Two hosts with addresses 10 and 20 on one wire. -/
def twoHosts : Network Bool Unit where
  configured u := [if u then 20 else 10]
  iTable u := ⟨[⟨ethBroadcastAddr, ethBroadcastAddr, if u then 20 else 10, 3⟩]⟩
  wire _ _ := ()

theorem twoHosts_addressesUnique : twoHosts.AddressesUnique := by
  have hAddress : ∀ u a, a ∈ twoHosts.addresses u → a = if u then 20 else 10 := by
    rintro u a (hConfigured | ⟨record, hRecord, rfl⟩)
    · exact List.mem_singleton.mp hConfigured
    · rw [List.mem_singleton.mp hRecord]
  intro u v a hu hv
  have hSame := (hAddress u a hu).symm.trans (hAddress v a hv)
  cases u <;> cases v <;> first | rfl | exact absurd hSame (by decide)

/-- `u` looks up a route to `d` that is not its own and hands the package to `v`. -/
def HandsTo (net : Network ρ σ) (t : State ρ σ) (d : MIPAddress) (u v : ρ) : Prop :=
  ∃ entry ∈ (t.tables u).entries, entry.destination = d ∧ entry.cost ≠ 0 ∧
    entry.nextHop ∈ net.addresses v

omit [DecidableEq ρ] in
/-- A host hands a package to the host that its next hop belongs to in the protocol. -/
theorem Refines.handsTo_iff (h : Refines net caches t b) (hUnique : net.AddressesUnique)
    {d : MIPAddress} {u v : ρ} :
    net.HandsTo t d u v ↔ Next (net.topology hUnique) b d u v := by
  constructor
  · rintro ⟨entry, hMem, rfl, hPos, hHop⟩
    exact ⟨_, h.mem_route hMem, fun hZero => hPos (UInt32.toNat_inj.mp hZero), hHop⟩
  · rintro ⟨r, hRoute, hPos, hHop⟩
    obtain ⟨entry, hMem, hDest, hCost, hNext⟩ := h.exists_entry hRoute
    refine ⟨entry, hMem, hDest, ?_, hNext ▸ hHop⟩
    intro hZero
    exact hPos (hCost.symm.trans (congrArg UInt32.toNat hZero))

/-- Where frames arrive as they were sent and nothing expires, the next hop's own route is
strictly cheaper, so following next hops reaches the owner without visiting a host twice. -/
theorem next_hops_lead_to_owner (net : Network ρ σ) (hUnique : net.AddressesUnique)
    (clocks : ρ → Clock)
    (run : Trace (Guarded (net.Step fun _ _ => True) fun _ event _ => event.Retains)
      (net.initial clocks) events t) :
    ∀ u, ∀ entry ∈ (t.tables u).entries,
      (∀ v, entry.cost ≠ 0 → entry.nextHop ∈ net.addresses v → ∃ entry' ∈ (t.tables v).entries,
        entry'.destination = entry.destination ∧ entry'.cost < entry.cost) ∧
      (entry.destination ≠ mipBroadcastAddress →
        (t.tables u).getNextHop entry.destination = entry.nextHop) ∧
      (∃ path, (u :: path).IsChain (net.HandsTo t entry.destination) ∧
        (u :: path).getLast (List.cons_ne_nil u path) ∈ net.owners entry.destination) ∧
      ∀ path, (u :: path).IsChain (net.HandsTo t entry.destination) →
        path.length ≤ entry.cost.toNat ∧ (u :: path).Nodup := by
  obtain ⟨ls, b, hTrace, hRefines⟩ := (Refines.initial clocks).run_retains hUnique run
  have hInitial := initial_topology hUnique clocks
  have hSound := hInitial.sound.run hTrace.unguard
  have hOrdered := hInitial.ordered.run (hTrace.mono fun _ _ _ h => ⟨h.1, h.2.1⟩)
  intro u entry hMem
  have hRoute := hRefines.mem_route hMem
  refine ⟨?_, ?_, ?_, ?_⟩
  · intro v hPos hHop
    obtain ⟨r', hRoute', hLt⟩ := hOrdered.next u v _ _ hRoute
      (fun hZero => hPos (UInt32.toNat_inj.mp hZero)) hHop
    obtain ⟨entry', hMem', hDest, hCost, -⟩ := hRefines.exists_entry hRoute'
    exact ⟨entry', hMem', hDest, UInt32.lt_iff_toNat_lt.mpr (hCost ▸ hLt)⟩
  · intro hDest
    rw [MIPRouteTable.getNextHop, if_neg hDest,
      MIPRouteTable.get_of_mem (hRefines.distinct u) hMem]
  · obtain ⟨path, hChain, hLast⟩ := hOrdered.exists_chain hSound hRoute
    exact ⟨path, hChain.imp fun x y => (hRefines.handsTo_iff hUnique).mpr, hLast⟩
  · intro path hChain
    exact hOrdered.chain_bounded (hChain.imp fun x y => (hRefines.handsTo_iff hUnique).mp) hRoute

end Network

end MipStack
