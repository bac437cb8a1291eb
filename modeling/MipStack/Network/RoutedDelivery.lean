import MipStack.Network.Delivery
import MipStack.Network.NextHops
import MipStack.Network.WireRounds

/-! Messages in a network whose routing tables have converged and whose ARP caches are exact:
each host puts the package on the wire to a host one link closer to the destination. -/
namespace MipStack
open DistanceVector MIPDServer

/-- A host on the way, and what its mipd does. -/
structure Site (ρ : Type*) where
  host : ρ
  relay : Relay

/-- A package on the wire behind a socket of the host. -/
structure OnWire (ρ : Type*) where
  host : ρ
  socket : ℤ
  package : MIPPackage

namespace Network

variable {ρ σ : Type*}

/-- The cache is exact, and every neighbour in it was heard on a socket of the host. -/
structure KnowsNeighbors (net : Network ρ σ) (u : ρ) (cache : MipArpCache) : Prop where
  exact : net.ExactCache u cache
  sockets : ∀ entry ∈ cache.entries, (net.iTable u).isSocketInTable entry.srcSocket

/-- The mipd and the routerd of the host, with the routing table that has converged. -/
structure Serves (net : Network ρ σ) (t : State ρ σ) (u : ρ) (d : MIPAddress) (stop : Stop)
    (bytes : List UInt8) : Prop extends stop.Operates bytes where
  iTable : stop.daemon.server.iTable = net.iTable u
  knows : net.KnowsNeighbors u stop.daemon.server.cache
  knowsLater : net.KnowsNeighbors u (stop.answering bytes).server.cache
  looksUp : stop.nextHop = (t.tables u).getNextHop d

/-- Every site is on the wire that the package was put on, at another host. -/
def Follows (net : Network ρ σ) (t : State ρ σ) (d : MIPAddress) :
    OnWire ρ → List (Site ρ) → Prop
  | _, [] => True
  | frame, site :: rest =>
    frame.host ≠ site.host ∧
    (∃ record, net.Attached site.host (net.wire frame.host frame.socket) record) ∧
    site.relay.stop.daemon.server.source site.relay.stop.fd = .rawSocket ∧
    net.Serves t site.host d site.relay.stop (site.relay.frame frame.package) ∧
    ∀ sent ∈ site.relay.stop.sent (site.relay.frame frame.package),
      net.Follows t d ⟨site.host, sent.1, sent.2⟩ rest

def carry : OnWire ρ → List (Site ρ) → Option (OnWire ρ)
  | frame, [] => some frame
  | frame, site :: rest => (site.relay.stop.sent (site.relay.frame frame.package)).bind
      fun sent => carry ⟨site.host, sent.1, sent.2⟩ rest

/-- The host is the only other one on the wire of the package. -/
structure LeadsTo (net : Network ρ σ) (frame : OnWire ρ) (x : ρ) : Prop where
  ne : frame.host ≠ x
  attached : ∃ record, net.Attached x (net.wire frame.host frame.socket) record
  unique : ∀ y record, frame.host ≠ y →
    net.Attached y (net.wire frame.host frame.socket) record → y = x

/-- No socket is -1 and no interface has the broadcast address. -/
def ProperInterfaces (net : Network ρ σ) : Prop :=
  ∀ u, ∀ record ∈ (net.iTable u).interfaces, record.rawSocket ≠ -1 ∧ record.mipAddress ≠ 255

variable {net : Network ρ σ} {t : State ρ σ} {u v x o : ρ} {d a : MIPAddress} {k n : ℕ}
  {cache : MipArpCache} {frame : OnWire ρ} {stop : Stop} {bytes : List UInt8}
  {package : MIPPackage} {sites : List (Site ρ)}

/-- A cached address belongs to the host on the other end of the wire, which is the only other one
there. -/
theorem KnowsNeighbors.leadsTo (h : net.KnowsNeighbors u cache) (hLinks : net.PointToPoint)
    (hCached : cache.queryMipAddressSrcSocket a ≠ -1) (package : MIPPackage) :
    ∃ x, a ∈ net.addresses x ∧ net.graph.Adj u x ∧
      net.LeadsTo ⟨u, cache.queryMipAddressSrcSocket a, package⟩ x := by
  cases hFind : cache.entries.find? fun entry => entry.mipAddress = a with
  | none => simp [MipArpCache.queryMipAddressSrcSocket, hFind] at hCached
  | some entry =>
      have hQuery : cache.queryMipAddressSrcSocket a = entry.srcSocket := by
        simp only [MipArpCache.queryMipAddressSrcSocket, hFind]
      have hMem := List.mem_of_find?_eq_some hFind
      obtain ⟨record, hRecord, hSocket⟩ :=
        InterfaceTable.isSocketInTable_iff.mp (h.sockets entry hMem)
      obtain ⟨x, record', hNe, hAttached, hAddress⟩ := (h.exact record hRecord a).mp
        ⟨entry, hMem, hSocket.symm, by simpa using List.find?_some hFind⟩
      rw [hQuery, ← hSocket]
      refine ⟨x, Or.inr ⟨record', hAttached.1, hAddress⟩,
        ⟨hNe, _, record, record', ⟨hRecord, rfl⟩, hAttached⟩, hNe, ⟨record', hAttached⟩, ?_⟩
      intro y record'' hNe' hOther
      exact hLinks ⟨hRecord, rfl⟩ hOther hAttached hNe' hNe

/-- The interfaces on the other ends of the wires are cached, so a next hop out of a table can be
sent to. -/
theorem KnowsNeighbors.cached (h : net.KnowsNeighbors u cache) (hProper : net.ProperInterfaces)
    {w : σ} {record record' : InterfaceRecord} (hNe : u ≠ x) (hHere : net.Attached u w record)
    (hThere : net.Attached x w record') :
    cache.queryMipAddressSrcSocket record'.mipAddress ≠ -1 := by
  obtain ⟨entry, hMem, -, hAddress⟩ := (h.exact record hHere.1 record'.mipAddress).mpr
    ⟨x, record', hNe, hHere.2.symm ▸ hThere, rfl⟩
  cases hFind : cache.entries.find? fun entry => entry.mipAddress = record'.mipAddress with
  | none => exact absurd (decide_eq_true hAddress) (List.find?_eq_none.mp hFind entry hMem)
  | some found =>
      obtain ⟨other, hOther, hSocket⟩ := InterfaceTable.isSocketInTable_iff.mp
        (h.sockets found (List.mem_of_find?_eq_some hFind))
      simp only [MipArpCache.queryMipAddressSrcSocket, hFind, ← hSocket]
      exact (hProper u other hOther).1

section Converged

variable [DecidableEq ρ] {clocks : ρ → Clock}

/-- A host up to `k` links from the destination asks for a package only where it can go on, and
then the next hop is one link closer. -/
theorem Serves.ready (h : net.Serves t u d stop bytes) (hUnique : net.AddressesUnique)
    (hNonempty : ∀ u, net.configured u ≠ []) (hLinks : net.PointToPoint)
    (hProper : net.ProperInterfaces)
    (rounds : net.Rounds net.ExactCache k (net.initial clocks) t) (hk : n + 1 ≤ k)
    (hDist : setDist net.graph (net.owners d) u = (n + 1 : ℕ)) (hBroadcast : d ≠ 255) :
    stop.Ready bytes ∧ ∀ package, ∃ x, setDist net.graph (net.owners d) x = n ∧ net.LeadsTo
      ⟨u, (stop.answering bytes).server.cache.queryMipAddressSrcSocket stop.nextHop, package⟩
        x := by
  obtain ⟨x, w, record, record', hNe, hHere, hThere, hHop, hCloser⟩ :=
    rounds.getNextHop hUnique hNonempty hLinks hk hDist hBroadcast
  rw [← h.looksUp] at hHop
  have hCached := h.knowsLater.cached hProper hNe hHere hThere
  rw [hHop] at hCached
  refine ⟨⟨h.toOperates, ?_, fun _ => ⟨?_, hCached⟩⟩, fun package => ?_⟩
  · rw [h.iTable]
    exact List.ne_nil_of_mem hHere.1
  · rw [← hHop]
    exact (hProper x record' hThere.1).2
  · obtain ⟨y, hName, -, hLeads⟩ := h.knowsLater.leadsTo hLinks hCached package
    obtain rfl : y = x := hUnique hName (Or.inr ⟨record', hThere.1, hHop⟩)
    exact ⟨y, hCloser, hLeads⟩

omit [DecidableEq ρ] in
/-- Only the owner has an interface with the address. -/
theorem getInterfacePosForMipAddress_eq_none (hUnique : net.AddressesUnique)
    (hOwner : o ∈ net.owners d) (hDist : setDist net.graph (net.owners d) u = (n + 1 : ℕ)) :
    (net.iTable u).getInterfacePosForMipAddress d = none := by
  rw [InterfaceTable.getInterfacePosForMipAddress, List.findIdx?_eq_none_iff]
  intro record hMem
  by_contra hAddress
  have hHere : d ∈ net.addresses u := Or.inr ⟨record, hMem, by simpa using hAddress⟩
  obtain rfl : u = o := hUnique hHere (Or.inl hOwner)
  rw [setDist_eq_zero_iff.mpr hOwner] at hDist
  exact absurd hDist.symm (by exact_mod_cast Nat.succ_ne_zero n)

/-- As many hosts as there are links to the destination carry the package there, unless its
ttl is used up on the way. -/
theorem carry_of_follows (hUnique : net.AddressesUnique)
    (hNonempty : ∀ u, net.configured u ≠ []) (hLinks : net.PointToPoint)
    (hProper : net.ProperInterfaces)
    (rounds : net.Rounds net.ExactCache k (net.initial clocks) t) (hBroadcast : d ≠ 255)
    (hOwner : o ∈ net.owners d) (hPackage : Transportable frame.package)
    (hFits : FitsLink frame.package) (hDst : frame.package.mHeader.dstAddr = d)
    (hLeads : net.LeadsTo frame x) (hk : sites.length ≤ k)
    (hDist : setDist net.graph (net.owners d) x = sites.length)
    (hFollows : net.Follows t d frame sites) :
    ((carry frame sites).isSome ↔ sites.length ≤ frame.package.mHeader.ttl.toNat) ∧
      ∀ last ∈ carry frame sites, SameCargo frame.package last.package ∧ net.LeadsTo last o := by
  induction sites generalizing frame x with
  | nil =>
      refine ⟨iff_of_true rfl (Nat.zero_le _), fun last hLast => ?_⟩
      obtain rfl := Option.some.inj hLast
      have hThere : x ∈ net.owners d := by simpa using hDist
      obtain rfl : x = o := hUnique (Or.inl hThere) (Or.inl hOwner)
      exact ⟨SameCargo.refl _, hLeads⟩
  | cons site rest ih =>
      obtain ⟨hNe, ⟨record, hAttached⟩, hSource, hServes, hRest⟩ := hFollows
      obtain rfl : site.host = x := hLeads.unique _ record hNe hAttached
      obtain ⟨hReady, hNext⟩ := hServes.ready hUnique hNonempty hLinks hProper rounds hk hDist
        hBroadcast
      have hOther := getInterfacePosForMipAddress_eq_none hUnique hOwner hDist
      rw [← hServes.iTable, ← hDst] at hOther
      obtain ⟨hZero, hPos⟩ := hReady.sent_package hPackage hFits hSource hOther
      by_cases hTtl : frame.package.mHeader.ttl = 0
      · have hNone : carry frame (site :: rest) = none :=
          congrArg (Option.bind · _) (hZero hTtl)
        rw [hNone, hTtl]
        exact ⟨iff_of_false Bool.false_ne_true (Nat.not_succ_le_zero _), fun _ h => nomatch h⟩
      · obtain ⟨package', hSent, hSame, hLower⟩ := hPos hTtl
        obtain ⟨y, hCloser, hLeads'⟩ := hNext package'
        have hCarry : carry frame (site :: rest) = carry ⟨site.host, _, package'⟩ rest :=
          congrArg (Option.bind · _) hSent
        have hDst' : package'.mHeader.dstAddr = d := by
          rw [hSame.header]
          exact hDst
        obtain ⟨hReach, hCargo⟩ := ih (hPackage.of_sameCargo hSame)
          (hFits.of_sameCargo hSame) hDst' hLeads'
          ((Nat.le_succ _).trans hk) hCloser (hRest _ hSent)
        rw [hCarry]
        refine ⟨hReach.trans ?_, fun last hLast => ?_⟩
        · show rest.length ≤ package'.mHeader.ttl.toNat ↔ rest.length + 1 ≤ _
          omega
        · obtain ⟨hSame', hEnd⟩ := hCargo last hLast
          exact ⟨hSame.trans hSame', hEnd⟩

/-- What a host has sent towards a destination goes to a host one link closer, and has the size
and the header of the message. -/
theorem Serves.sent_message {message : MIPDMessage} {source : Stop}
    (hServes : net.Serves t v message.mipAddress source message.toBytes)
    (hUnique : net.AddressesUnique) (hNonempty : ∀ u, net.configured u ≠ [])
    (hLinks : net.PointToPoint) (hProper : net.ProperInterfaces)
    (rounds : net.Rounds net.ExactCache k (net.initial clocks) t)
    (hLong : 13 ≤ message.data.length) (hFits : message.data.length ≤ 1493)
    (hBroadcast : message.mipAddress ≠ 255)
    (hSource : source.daemon.server.source source.fd = .appConnection)
    (hOwner : o ∈ net.owners message.mipAddress) (hk : n + 1 ≤ k)
    (hDist : setDist net.graph (net.owners message.mipAddress) v = (n + 1 : ℕ)) :
    ∃ socket first, ∃ record ∈ (net.iTable v).interfaces,
      source.sent message.toBytes = (if FitsLink first then some (socket, first) else none) ∧
      MadeOf message record.mipAddress first ∧
      ∃ x, setDist net.graph (net.owners message.mipAddress) x = n ∧
        net.LeadsTo ⟨v, socket, first⟩ x := by
  obtain ⟨hReady, hNext⟩ := hServes.ready hUnique hNonempty hLinks hProper rounds hk hDist
    hBroadcast
  obtain ⟨socket, first, record, hMem, hSent, hMade, hSocket⟩ :=
    hReady.sent_message hSource hLong hFits
  rw [hServes.iTable] at hMem
  refine ⟨socket, first, record, hMem, hSent, hMade, ?_⟩
  -- At once or after an answer, the package goes to a host one link closer.
  split_ifs at hSocket with hUnknown
  · exact hSocket ▸ hNext first
  · obtain ⟨x, hName, hAdj, hLeads⟩ := hServes.knows.leadsTo hLinks hUnknown first
    obtain rfl : x = o := hUnique hName (Or.inl hOwner)
    have hThere : setDist net.graph (net.owners message.mipAddress) x = 0 :=
      setDist_eq_zero_iff.mpr hOwner
    have hNear := setDist_le_succ (S := net.owners message.mipAddress) hAdj
    rw [hDist, hThere, zero_add] at hNear
    have hDirect : n = 0 := by
      have hLe : n + 1 ≤ 1 := by exact_mod_cast hNear
      omega
    exact ⟨x, by rw [hThere, hDirect]; rfl, hSocket ▸ hLeads⟩

/-- Once the routes have converged in a network of at most 20 addresses, a message to a host
`n` links away follows the wires to that host and to no other, and is delivered there exactly
if a link takes its frame and `n` is at most 16. -/
theorem converged_network_delivers_iff (net : Network ρ σ) (hUnique : net.AddressesUnique)
    (hNonempty : ∀ u, net.configured u ≠ []) (addressBook : List MIPAddress)
    (hBook : ∀ u, net.configured u ⊆ addressBook) (hSmall : addressBook.length ≤ 20)
    (hLinks : net.PointToPoint) (hProper : net.ProperInterfaces) (clocks : ρ → Clock)
    (rounds : net.WireRounds net.ExactCache k (net.initial clocks) t) (source : Stop)
    (message : MIPDMessage) (sites : List (Site ρ)) (hLong : 13 ≤ message.data.length)
    (hFits : message.data.length ≤ 1493) (hBroadcast : message.mipAddress ≠ 255)
    (hSource : source.daemon.server.source source.fd = .appConnection)
    (hServes : net.Serves t v message.mipAddress source message.toBytes)
    (hOwner : o ∈ net.owners message.mipAddress) (hk : n ≤ k)
    (hDist : setDist net.graph (net.owners message.mipAddress) v = n)
    (hSites : sites.length + 1 = n)
    (hFollows : ∀ frame ∈ source.sent message.toBytes,
      net.Follows t message.mipAddress ⟨v, frame.1, frame.2⟩ sites) :
    (((source.sent message.toBytes).bind fun frame =>
        carry ⟨v, frame.1, frame.2⟩ sites).isSome ↔ message.data.length ≤ 1488 ∧ n ≤ 16) ∧
      ∀ last ∈ (source.sent message.toBytes).bind fun frame => carry ⟨v, frame.1, frame.2⟩ sites,
        net.LeadsTo last o ∧ ∀ arrival : Arrival, arrival.Accepts message.mipAddress →
          ∃ received : MIPDMessage, arrival.outputs last.package = [.sendApp received.toBytes] ∧
            received.mipAddress ∈ net.addresses v ∧ Delivered message received := by
  subst hSites
  have hRounds := (wireRounds_iff hUnique hBook hSmall).mp rounds
  obtain ⟨socket, first, record, hMem, hSent, hMade, x, hCloser, hLeads⟩ :=
    hServes.sent_message hUnique hNonempty hLinks hProper hRounds hLong hFits hBroadcast hSource
      hOwner hk hDist
  by_cases hLink : FitsLink first
  · have hFirst := hMade.transportable (hProper v record hMem).2
    have hShort := hMade.fitsLink_iff.mp hLink
    have hTtl : first.mHeader.ttl.toNat = 15 := by
      rw [hMade.header]
      rfl
    have hDst : first.mHeader.dstAddr = message.mipAddress := by
      rw [hMade.header]
      rfl
    rw [if_pos hLink] at hSent
    have hCarry : ((source.sent message.toBytes).bind fun frame =>
        carry ⟨v, frame.1, frame.2⟩ sites) = carry ⟨v, socket, first⟩ sites := by
      rw [hSent]
      rfl
    obtain ⟨hReach, hCargo⟩ := carry_of_follows hUnique hNonempty hLinks hProper hRounds
      hBroadcast hOwner hFirst hLink hDst hLeads ((Nat.le_succ _).trans hk) hCloser
      (hFollows _ hSent)
    rw [hCarry]
    refine ⟨hReach.trans (by rw [hTtl]; omega), fun last hLast => ?_⟩
    obtain ⟨hSame, hEnd⟩ := hCargo last hLast
    refine ⟨hEnd, fun arrival hAccepts => ?_⟩
    obtain ⟨received, hOutputs, hSrc, hDelivered⟩ := hAccepts.delivered hMade hFirst hSame
    exact ⟨received, hOutputs, hSrc ▸ Or.inr ⟨record, hMem, rfl⟩, hDelivered⟩
  · rw [if_neg hLink] at hSent
    rw [hSent]
    refine ⟨iff_of_false Bool.false_ne_true fun h => ?_, fun _ h => nomatch h⟩
    exact hLink (hMade.fitsLink_iff.mpr h.1)

end Converged

inductive Place where
  | left
  | middle
  | right
  deriving DecidableEq

instance : Finite Place :=
  Finite.of_injective (fun
    | .left => (false, false)
    | .middle => (false, true)
    | .right => (true, true)) (by rintro ⟨⟩ ⟨⟩ <;> simp)

/-- Three hosts in a row; the middle one has an interface on each of the two wires. -/
def threeHosts : Network Place Bool where
  configured
    | .left => [10]
    | .middle => [20, 21]
    | .right => [30]
  iTable
    | .left => ⟨[⟨ethBroadcastAddr, ethBroadcastAddr, 10, 6⟩]⟩
    | .middle => ⟨[⟨ethBroadcastAddr, ethBroadcastAddr, 20, 6⟩,
        ⟨ethBroadcastAddr, ethBroadcastAddr, 21, 7⟩]⟩
    | .right => ⟨[⟨ethBroadcastAddr, ethBroadcastAddr, 30, 6⟩]⟩
  wire
    | .left, _ => false
    | .middle, socket => socket = 7
    | .right, _ => true

def threeCaches : Place → MipArpCache
  | .left => ⟨[⟨20, 6, ethBroadcastAddr, 0⟩], 10000, 0, by decide, by decide⟩
  | .middle => ⟨[⟨10, 6, ethBroadcastAddr, 0⟩, ⟨30, 7, ethBroadcastAddr, 0⟩], 10000, 0,
      by decide, by decide⟩
  | .right => ⟨[⟨21, 6, ethBroadcastAddr, 0⟩], 10000, 0, by decide, by decide⟩

theorem threeHosts_addressesUnique : threeHosts.AddressesUnique := by
  intro u v a hu hv
  cases u <;> cases v <;> simp_all [threeHosts, addresses]
  all_goals grind

theorem threeHosts_pointToPoint : threeHosts.PointToPoint := by
  intro u v x w record record' record'' hu hv hx hNe hNe'
  cases u <;> cases v <;> cases x <;> simp_all [threeHosts, Attached]

/-- One cached neighbour on a wire with one other interface. -/
theorem reaches_iff_of_single {ρ σ : Type*} {net : Network ρ σ} {u : ρ} {record : InterfaceRecord}
    {cache : MipArpCache} (v : ρ) (record' : InterfaceRecord) (hNe : u ≠ v)
    (hAttached : net.Attached v (net.wire u record.rawSocket) record')
    (hOnly : ∀ x other, u ≠ x → net.Attached x (net.wire u record.rawSocket) other →
      other = record')
    (hReaches : ∀ a, cache.Reaches record.rawSocket a ↔ record'.mipAddress = a) (a : MIPAddress) :
    cache.Reaches record.rawSocket a ↔ ∃ v record', u ≠ v ∧
      net.Attached v (net.wire u record.rawSocket) record' ∧ record'.mipAddress = a := by
  rw [hReaches]
  constructor
  · intro hAddress
    exact ⟨v, record', hNe, hAttached, hAddress⟩
  · rintro ⟨x, other, hNe', hOther, hAddress⟩
    exact hOnly x other hNe' hOther ▸ hAddress

theorem threeHosts_knowsNeighbors (u : Place) : threeHosts.KnowsNeighbors u (threeCaches u) := by
  constructor
  · intro record hRecord
    cases u with
    | left =>
        obtain rfl := List.mem_singleton.mp hRecord
        refine reaches_iff_of_single .middle ⟨ethBroadcastAddr, ethBroadcastAddr, 20, 6⟩
          (by decide) ⟨by decide, rfl⟩ ?_
          (by simp [MipArpCache.Reaches, threeCaches])
        rintro ⟨⟩ other hNe ⟨hOther, hWire⟩ <;> simp_all [threeHosts]
        grind
    | middle =>
        rcases List.mem_pair.mp hRecord with rfl | rfl
        · refine reaches_iff_of_single .left ⟨ethBroadcastAddr, ethBroadcastAddr, 10, 6⟩
            (by decide) ⟨by decide, rfl⟩ ?_ (by simp [MipArpCache.Reaches, threeCaches])
          rintro ⟨⟩ other hNe ⟨hOther, hWire⟩ <;> simp_all [threeHosts]
        · refine reaches_iff_of_single .right ⟨ethBroadcastAddr, ethBroadcastAddr, 30, 6⟩
            (by decide) ⟨by decide, rfl⟩ ?_ (by simp [MipArpCache.Reaches, threeCaches])
          rintro ⟨⟩ other hNe ⟨hOther, hWire⟩ <;> simp_all [threeHosts]
    | right =>
        obtain rfl := List.mem_singleton.mp hRecord
        refine reaches_iff_of_single .middle ⟨ethBroadcastAddr, ethBroadcastAddr, 21, 7⟩
          (by decide) ⟨by decide, rfl⟩ ?_
          (by simp [MipArpCache.Reaches, threeCaches])
        rintro ⟨⟩ other hNe ⟨hOther, hWire⟩ <;> simp_all [threeHosts]
        grind
  · cases u <;> decide

theorem threeHosts_dist :
    setDist threeHosts.graph (threeHosts.owners 30) .left = (2 : ℕ) := by
  have hHops : threeHosts.graph.Adj .left .middle ∧ threeHosts.graph.Adj .middle .right :=
    ⟨⟨by decide, false, _, ⟨ethBroadcastAddr, ethBroadcastAddr, 20, 6⟩, ⟨List.mem_cons_self, rfl⟩,
        ⟨by decide, rfl⟩⟩,
      ⟨by decide, true, ⟨ethBroadcastAddr, ethBroadcastAddr, 21, 7⟩, _, ⟨by decide, rfl⟩,
        ⟨List.mem_cons_self, rfl⟩⟩⟩
  have hEnd : setDist threeHosts.graph (threeHosts.owners 30) .right = 0 :=
    setDist_eq_zero_iff.mpr List.mem_cons_self
  have hApart : ¬ threeHosts.graph.Adj .left .right := by
    rintro ⟨-, w, record, record', ⟨-, hLeft⟩, ⟨-, hRight⟩⟩
    exact Bool.false_ne_true (hLeft.trans hRight.symm)
  have hLe : setDist threeHosts.graph (threeHosts.owners 30) .left ≤ (2 : ℕ) := by
    calc
      _ ≤ setDist threeHosts.graph (threeHosts.owners 30) .middle + 1 := setDist_le_succ hHops.1
      _ ≤ setDist threeHosts.graph (threeHosts.owners 30) .right + 1 + 1 := by
        gcongr
        exact setDist_le_succ hHops.2
      _ = (2 : ℕ) := by rw [hEnd]; rfl
  obtain ⟨n, hDist⟩ := ENat.ne_top_iff_exists.mp (ne_top_of_le_ne_top (ENat.natCast_ne_top _) hLe)
  rw [← hDist] at hLe ⊢
  have hn : n ≤ 2 := by exact_mod_cast hLe
  interval_cases n
  · have hOwner : Place.left ∈ threeHosts.owners 30 := setDist_eq_zero_iff.mp hDist.symm
    exact absurd (List.mem_singleton.mp hOwner) (by decide)
  · obtain ⟨x, hAdj, hZero⟩ := exists_adj_setDist hDist.symm
    have hOwner : x ∈ threeHosts.owners 30 := setDist_eq_zero_iff.mp hZero
    cases x with
    | left => exact absurd hAdj (SimpleGraph.irrefl _)
    | middle => exact absurd hOwner (by simp [owners, threeHosts])
    | right => exact absurd hAdj hApart
  · rfl

theorem threeHosts_getNextHop {t : State Place Bool} {clocks : Place → Clock}
    (rounds : threeHosts.Rounds threeHosts.ExactCache 2 (threeHosts.initial clocks) t) :
    (t.tables .left).getNextHop 30 = 20 ∧ (t.tables .middle).getNextHop 30 = 30 := by
  have hNonempty : ∀ u, threeHosts.configured u ≠ [] := by rintro ⟨⟩ <;> decide
  obtain ⟨x, w, record, record', hNe, hHere, hThere, hHop, hDist⟩ :=
    rounds.getNextHop threeHosts_addressesUnique hNonempty threeHosts_pointToPoint (le_refl 2)
      threeHosts_dist (by decide)
  obtain rfl : w = false := hHere.2.symm
  cases x with
  | left => exact absurd rfl hNe
  | right => exact absurd hThere.2 Bool.noConfusion
  | middle =>
      obtain ⟨y, w', record₂, record₃, hNe', hHere', hThere', hHop', hDist'⟩ :=
        rounds.getNextHop threeHosts_addressesUnique hNonempty threeHosts_pointToPoint
          (by decide : 0 + 1 ≤ 2) hDist (by decide)
      have hOwner : y ∈ threeHosts.owners 30 := setDist_eq_zero_iff.mp hDist'
      cases y with
      | left => exact absurd (List.mem_singleton.mp hOwner) (by decide)
      | middle => exact absurd rfl hNe'
      | right =>
          obtain rfl := List.mem_singleton.mp hThere'.1
          refine ⟨hHop.symm.trans ?_, hHop'.symm⟩
          rcases List.mem_pair.mp hThere.1 with rfl | rfl
          · rfl
          · exact absurd hThere.2 (by decide)

theorem KnowsNeighbors.of_entries {ρ σ : Type*} {net : Network ρ σ} {u : ρ}
    {cache cache' : MipArpCache} (h : net.KnowsNeighbors u cache)
    (hEntries : cache'.entries = cache.entries) : net.KnowsNeighbors u cache' := by
  refine ⟨fun record hRecord a => ?_, by rw [hEntries]; exact h.sockets⟩
  rw [← h.exact record hRecord a, MipArpCache.Reaches, hEntries]
  rfl

/-- 10 sends a message to 30, two links away, after two rounds of three hosts in a row. -/
theorem three_hosts_deliver : ∃ t,
    threeHosts.WireRounds threeHosts.ExactCache 2 (threeHosts.initial fun _ _ => 0) t ∧
      let source : Stop := ⟨.idle (threeHosts.iTable .left) (threeCaches .left), 8, quietEnv,
        [.answer 20], 9, 20⟩
      let relay : Relay := ⟨⟨.idle (threeHosts.iTable .middle) (threeCaches .middle), 6, quietEnv,
        [.answer 30], 9, 30⟩, Vector.replicate 8 0⟩
      let message : MIPDMessage := ⟨30, List.replicate 13 7, by decide⟩
      ∃ last ∈ (source.sent message.toBytes).bind fun frame =>
          carry ⟨.left, frame.1, frame.2⟩ [⟨.middle, relay⟩],
        threeHosts.LeadsTo last .right := by
  have hCaches : ∀ u, ∃ cache, threeHosts.ExactCache u cache :=
    fun u => ⟨threeCaches u, (threeHosts_knowsNeighbors u).exact⟩
  have hBook : ∀ u, threeHosts.configured u ⊆ [10, 20, 21, 30] := by
    rintro ⟨⟩ <;> simp [threeHosts]
  obtain ⟨t, rounds⟩ := exists_rounds threeHosts_addressesUnique threeHosts_pointToPoint hBook
    (by decide) hCaches (fun _ _ => 0) 2
  obtain ⟨hLeft, hMiddle⟩ := threeHosts_getNextHop rounds
  have hWire := (wireRounds_iff threeHosts_addressesUnique hBook (by decide)).mpr rounds
  refine ⟨t, hWire, ?_⟩
  intro source relay message
  let first : MIPPackage := ⟨createEthernetFrame ethBroadcastAddr ethBroadcastAddr,
    ⟨3, 15, 4, 30, 10⟩, List.replicate 13 7 ++ [0, 0, 0]⟩
  have hSent : source.sent message.toBytes = some (6, first) := by
    decide +kernel
  have hServes : threeHosts.Serves t .left 30 source message.toBytes :=
    ⟨⟨⟨rfl, by decide⟩, ⟨by decide, rfl⟩, by decide +kernel, by decide +kernel⟩, rfl,
      threeHosts_knowsNeighbors .left,
      (threeHosts_knowsNeighbors .left).of_entries (by decide +kernel), hLeft.symm⟩
  have hRelays : threeHosts.Serves t .middle 30 relay.stop (relay.frame first) :=
    ⟨⟨⟨rfl, by decide⟩, ⟨by decide, rfl⟩, by decide +kernel, by decide +kernel⟩, rfl,
      threeHosts_knowsNeighbors .middle,
      (threeHosts_knowsNeighbors .middle).of_entries (by decide +kernel), hMiddle.symm⟩
  have hFollows : ∀ frame ∈ source.sent message.toBytes,
      threeHosts.Follows t 30 ⟨.left, frame.1, frame.2⟩ [⟨.middle, relay⟩] := by
    intro frame hFrame
    obtain rfl := Option.some.inj (hSent.symm.trans hFrame)
    exact ⟨Place.noConfusion, ⟨⟨ethBroadcastAddr, ethBroadcastAddr, 20, 6⟩, List.mem_cons_self,
      rfl⟩, by decide, hRelays, fun _ _ => trivial⟩
  obtain ⟨hReach, hLast⟩ := converged_network_delivers_iff threeHosts threeHosts_addressesUnique
    (by rintro ⟨⟩ <;> decide) [10, 20, 21, 30] hBook (by decide) threeHosts_pointToPoint
    (by rintro ⟨⟩ <;> decide) (fun _ _ => 0) hWire source message [⟨.middle, relay⟩] (by decide)
    (by decide) (by decide) (by decide) hServes (o := .right) List.mem_cons_self (le_refl 2)
    threeHosts_dist rfl hFollows
  obtain ⟨last, hMem⟩ := Option.isSome_iff_exists.mp (hReach.mpr ⟨by decide, by decide⟩)
  exact ⟨last, hMem, (hLast last hMem).1⟩

end Network

end MipStack
