import MipStack.Network.RouteGuarantees
import MipStack.Mipd.MIPDServer

/-! Routing tables over raw sockets. The receive buffer of mipd has room for the first 20
entries of a table; the others are read from whatever the heap holds behind it. -/
namespace MipStack
open DistanceVector Execution MIPDServer

/-- The entries of a table that fit into the receive buffer. -/
def arrivingEntries : ℕ := 20

/-- What a host reads of a table that was sent to it. -/
def arrivingTable (package : MIPRouteTablePackage) (heap : ℕ → UInt8) : MIPRouteTablePackage :=
  { package with
    entries := Vector.ofFn fun i =>
      if i.val < arrivingEntries then package.entries.get i
      else MIPRoutePackageEntry.ofBytes
        ((List.range 8).map fun j => heap (8 * (i.val - arrivingEntries) + j)) }

@[simp] theorem arrivingTable_tableAddress (package : MIPRouteTablePackage) (heap : ℕ → UInt8) :
    (arrivingTable package heap).tableAddress = package.tableAddress := by
  simp only [arrivingTable]

@[simp] theorem arrivingTable_numEntries (package : MIPRouteTablePackage) (heap : ℕ → UInt8) :
    (arrivingTable package heap).numEntries = package.numEntries := by
  simp only [arrivingTable]

theorem arrivingTable_getElem (package : MIPRouteTablePackage) (heap : ℕ → UInt8) {i : ℕ}
    (hi : i < mipTablePackageEntriesMaxSize) : (arrivingTable package heap).entries[i] =
      if i < arrivingEntries then package.entries[i]
      else MIPRoutePackageEntry.ofBytes
        ((List.range 8).map fun j => heap (8 * (i - arrivingEntries) + j)) := by
  rw [arrivingTable, Vector.getElem_ofFn]
  rfl

section Arrival

variable {tmp : MIPRouteTablePackage} {package received : MIPPackage} {pointer : PointerBytes}
  {env : Env} {heap : ℕ → UInt8}

/-- An entry is read from eight bytes. -/
theorem MIPRoutePackageEntry.ofBytes_take (bytes : List UInt8) :
    ofBytes (bytes.take 8) = ofBytes bytes := by
  simp only [ofBytes, List.getD_eq_getElem?_getD, List.getElem?_take, List.drop_take,
    List.take_take]
  rfl

/-- Of the bytes of a table 162 arrive: the address, the count and twenty entries. -/
theorem arrivingPayload_getElem? (tmp : MIPRouteTablePackage) (heap : ℕ → UInt8) {i : ℕ}
    (hi : i < 516) : (arrivingPayload (padMessage tmp.toBytes) heap)[i]? =
      if i < payloadRoom then (padMessage tmp.toBytes)[i]? else some (heap (i - payloadRoom)) := by
  have hLength : (padMessage tmp.toBytes).length = 516 := by
    rw [padMessage_length, MIPRouteTablePackage.toBytes_length]
    rfl
  have hFront : ((padMessage tmp.toBytes).take payloadRoom).length = payloadRoom :=
    List.length_take_of_le (by rw [hLength]; decide)
  rw [arrivingPayload, hLength, List.getElem?_append, hFront]
  split_ifs with hRoom
  · rw [List.getElem?_take_of_lt hRoom]
  · have hRange : i - payloadRoom < 516 - payloadRoom := by
      rw [payloadRoom_eq] at *
      omega
    rw [List.getElem?_map, List.getElem?_range hRange]
    rfl

/-- An entry is read from the message if it arrived, and else from the heap. -/
theorem ofBytes_arrivingEntry (tmp : MIPRouteTablePackage) (heap : ℕ → UInt8) {i : ℕ}
    (hi : i < 64) :
    MIPRoutePackageEntry.ofBytes (((arrivingPayload (padMessage tmp.toBytes) heap).take
        MIPRouteTablePackage.sizeofMIPRouteTablePackage).drop (2 + 8 * i)) =
      if i < arrivingEntries then
        MIPRoutePackageEntry.ofBytes ((padMessage tmp.toBytes).drop (2 + 8 * i))
      else MIPRoutePackageEntry.ofBytes
        ((List.range 8).map fun j => heap (8 * (i - arrivingEntries) + j)) := by
  have hBytes : ∀ j < 8, (((arrivingPayload (padMessage tmp.toBytes) heap).take
      MIPRouteTablePackage.sizeofMIPRouteTablePackage).drop (2 + 8 * i))[j]? =
        if i < arrivingEntries then (padMessage tmp.toBytes)[2 + 8 * i + j]?
        else some (heap (8 * (i - arrivingEntries) + j)) := by
    intro j hj
    have hTable : 2 + 8 * i + j < MIPRouteTablePackage.sizeofMIPRouteTablePackage := by
      unfold MIPRouteTablePackage.sizeofMIPRouteTablePackage
      omega
    rw [List.getElem?_drop, List.getElem?_take_of_lt hTable,
      arrivingPayload_getElem? tmp heap (by omega), payloadRoom_eq, arrivingEntries]
    have hRoom : 2 + 8 * i + j < 162 ↔ i < 20 := by omega
    simp only [hRoom]
    split_ifs with hArrives
    · rfl
    · rw [show 2 + 8 * i + j - 162 = 8 * (i - 20) + j by omega]
  rw [← MIPRoutePackageEntry.ofBytes_take]
  split_ifs with hArrives
  · rw [← MIPRoutePackageEntry.ofBytes_take ((padMessage tmp.toBytes).drop (2 + 8 * i))]
    refine congrArg _ (List.ext_getElem? fun j => ?_)
    rw [List.getElem?_take, List.getElem?_take]
    split_ifs with hj
    · rw [hBytes j hj, if_pos hArrives, List.getElem?_drop]
    · rfl
  · refine congrArg _ (List.ext_getElem? fun j => ?_)
    rw [List.getElem?_take, List.getElem?_map]
    split_ifs with hj
    · rw [hBytes j hj, if_neg hArrives, List.getElem?_range hj]
      rfl
    · rw [List.getElem?_eq_none (by simpa using Nat.not_lt.mp hj)]
      rfl

/-- The table as it is read out of the message that arrives: entry by entry from the frame or from
the heap. -/
theorem ofBytes_arrivingPayload (tmp : MIPRouteTablePackage) (heap : ℕ → UInt8) :
    MIPRouteTablePackage.ofBytes ((arrivingPayload (padMessage tmp.toBytes) heap).take
      MIPRouteTablePackage.sizeofMIPRouteTablePackage) = arrivingTable tmp heap := by
  have hSent : MIPRouteTablePackage.ofBytes (padMessage tmp.toBytes) = tmp :=
    MIPRouteTablePackage.ofBytes_toBytes tmp _
  have hStart : ∀ i < 2, ((arrivingPayload (padMessage tmp.toBytes) heap).take
      MIPRouteTablePackage.sizeofMIPRouteTablePackage).getD i 0 =
        (padMessage tmp.toBytes).getD i 0 := by
    intro i hi
    have hTable : i < MIPRouteTablePackage.sizeofMIPRouteTablePackage :=
      hi.trans (by decide)
    rw [List.getD_eq_getElem?_getD, List.getD_eq_getElem?_getD, List.getElem?_take_of_lt hTable,
      arrivingPayload_getElem? tmp heap (by omega), if_pos (hi.trans (by decide))]
  have hEntries : ∀ (i : ℕ) (hi : i < 64),
      MIPRoutePackageEntry.ofBytes ((padMessage tmp.toBytes).drop (2 + 8 * i)) =
        tmp.entries[i] := by
    intro i hi
    have hSame := congrArg (fun package => package.entries[i]) hSent
    simpa [MIPRouteTablePackage.ofBytes] using hSame
  have hFields : ∀ package package' : MIPRouteTablePackage,
      package.tableAddress = package'.tableAddress → package.numEntries = package'.numEntries →
        package.entries = package'.entries → package = package' := by
    rintro ⟨⟩ ⟨⟩ rfl rfl rfl
    rfl
  refine hFields _ _ ?_ ?_ (Vector.ext fun i hi => ?_)
  · simp only [arrivingTable_tableAddress, MIPRouteTablePackage.ofBytes]
    exact hStart 0 (by decide)
  · simp only [arrivingTable_numEntries, MIPRouteTablePackage.ofBytes]
    exact hStart 1 (by decide)
  · rw [arrivingTable_getElem tmp heap hi, ← hEntries i hi, ← ofBytes_arrivingEntry tmp heap hi,
      MIPRouteTablePackage.ofBytes, Vector.getElem_ofFn]

/-- What mipd passes on to routerd of a table that was broadcast, for every heap and every message
pointer. -/
theorem parseBroadcastedTable_receivePackage (hMessage : package.message = padMessage tmp.toBytes)
    (hWords : package.mHeader.payloadLen = 129)
    (hReceive : receivePackage (sendtoRawMipPackage package pointer) env = some received) :
    parseBroadcastedTable received = arrivingTable tmp env.heap := by
  have hPadded : (padMessage tmp.toBytes).length = 516 := by
    rw [padMessage_length, MIPRouteTablePackage.toBytes_length]
    rfl
  have hPayload : package.payload = padMessage tmp.toBytes := by
    rw [MIPPackage.payload, hMessage, hWords, List.take_of_length_le (by rw [hPadded]; decide)]
  obtain ⟨empty, hEmpty, hRoom⟩ := MIPPackage.exists_createEmpty
  have hLength : package.payload.length = package.mHeader.payloadLen.toNat * mipPayloadWord := by
    rw [hPayload, hPadded, hWords]
    rfl
  have hFits : package.payload.length ≤ empty.message.length := by
    rw [hPayload, hPadded, hRoom]
    decide
  have hRecv := recv_sendto pointer env.heap hLength hFits
  rw [receivePackage, hEmpty, Option.bind_some, hRecv, hPayload] at hReceive
  obtain rfl := Option.some.inj hReceive
  rw [parseBroadcastedTable, List.take_append_of_le_length, ofBytes_arrivingPayload]
  rw [arrivingPayload_length, hPadded]
  decide

/-- Every table that is broadcast can be received: its 129 words fit into the message buffer,
whatever the heap holds. -/
theorem exists_receive_broadcast (hWords : package.mHeader.payloadLen = 129)
    (pointer : PointerBytes) (env : Env) :
    ∃ received, receivePackage (sendtoRawMipPackage package pointer) env = some received := by
  obtain ⟨empty, hEmpty, hRoom⟩ := MIPPackage.exists_createEmpty
  rw [receivePackage, hEmpty, Option.bind_some]
  refine Option.isSome_iff_exists.mp (recvRawMipPackage_isSome ?_)
  rw [receivedHeader_sendto, hWords, hRoom]
  decide

/-- A table of at most twenty entries gets to the other routerd as it was sent. -/
theorem createTable_arrivingTable (hFew : tmp.numEntries.toNat ≤ arrivingEntries)
    (heap : ℕ → UInt8) (clock : Clock) :
    (arrivingTable tmp heap).createTable clock = tmp.createTable clock := by
  have hListed : (arrivingTable tmp heap).entries.toList.take tmp.numEntries.toNat =
      tmp.entries.toList.take tmp.numEntries.toNat := by
    refine List.ext_getElem (by simp) fun i hi _ => ?_
    rw [List.length_take, Vector.length_toList] at hi
    have hEntry : i < arrivingEntries := by omega
    rw [List.getElem_take, List.getElem_take, Vector.getElem_toList, Vector.getElem_toList,
      arrivingTable_getElem tmp heap (by omega), if_pos hEntry]
  simp only [MIPRouteTablePackage.createTable, arrivingTable_tableAddress,
    arrivingTable_numEntries, hListed]

end Arrival

theorem MIPRouteTable.offer_of_mem_zero {table : MIPRouteTable} {entry : MIPRouteEntry}
    (hMem : entry ∈ table.entries) (hCost : entry.cost = 0) :
    table.offer entry.destination = some 0 := by
  rw [offer, List.min?_eq_some_iff]
  refine ⟨List.mem_map.mpr ⟨entry, List.mem_filter.mpr ⟨hMem, ?_⟩, ?_⟩, fun _ _ => Nat.zero_le _⟩
  · rw [hCost]
    simp only [true_and, decide_eq_true_eq]
    decide
  · rw [hCost]
    rfl

/-- A route that a table does not have yet is taken from the neighbour that offers it. -/
theorem MIPRouteTable.exists_entry_of_offer {table neighborTable : MIPRouteTable}
    {destination : MIPAddress} {cost : ℕ} (hDistinct : table.Distinct)
    (hNew : table.route destination = none) (hOffer : neighborTable.offer destination = some cost)
    (clock : Clock) : ∃ entry ∈ (table.updateRouting neighborTable clock).entries,
      entry.destination = destination ∧ entry.cost.toNat = cost + 1 ∧
        entry.nextHop = neighborTable.tableAddress := by
  have hRoute := updateRouting_route hDistinct neighborTable clock destination
  rw [hNew, hOffer] at hRoute
  exact (route_eq_some_iff (r := ⟨cost + 1, neighborTable.tableAddress⟩)
    (hDistinct.updateRouting neighborTable clock)).mp hRoute

namespace Network

variable {ρ σ : Type*} (net : Network ρ σ)

/-- What happens at one host, or a table that gets from one to another in a package. -/
inductive WireEvent (ρ : Type*) where
  | host (event : Event ρ)
  | deliver (v u : ρ) (package : MIPPackage)

def WireEvent.onHosts : WireEvent ρ → Event ρ
  | .host event => event
  | .deliver v u _ => .deliver v u

/-- The table that is delivered announces no more entries than arrive. -/
def WireEvent.Whole : WireEvent ρ → Prop
  | .host _ => True
  | .deliver _ _ package => (parseBroadcastedTable package).numEntries.toNat ≤ 20

/-- One event on one host, where a table is read from the socket: `pointer` is the address that
is sent along with the frame, and the heap behind the receive buffer holds anything. -/
inductive WireStep [DecidableEq ρ] (caches : ρ → MipArpCache → Prop) :
    State ρ σ → WireEvent ρ → State ρ σ → Prop where
  | host {s t : State ρ σ} {event : Event ρ} (hStep : net.Step caches s event t)
      (hHost : ¬ event.Delivers) : WireStep caches s (.host event) t
  | deliver (s : State ρ σ) {u v : ρ} {w : σ} {record : InterfaceRecord}
      {package received : MIPPackage} {pointer : PointerBytes} {env : Env} {clock : Clock}
      {merging : Clock} {neighborTable : MIPRouteTable}
      (hSent : (u, w, package) ∈ s.sent) (hNe : u ≠ v) (hAttached : net.Attached v w record)
      (hReceive : receivePackage (sendtoRawMipPackage package pointer) env = some received)
      (hTable : (parseBroadcastedTable received).createTable clock = some neighborTable) :
      WireStep caches s (.deliver v u package) { s with
        tables := Function.update s.tables v ((s.tables v).updateRouting neighborTable merging)
        merged := insert (v, u) s.merged }

/-- The frames on the wires are broadcast tables. -/
def SentTables (s : State ρ σ) : Prop :=
  ∀ u w package, (u, w, package) ∈ s.sent → ∃ tmp : MIPRouteTablePackage,
    package.message = padMessage tmp.toBytes ∧ package.mHeader.payloadLen = 129

variable {net} {caches : ρ → MipArpCache → Prop} {s t : State ρ σ} {event : WireEvent ρ}
  {events : List (WireEvent ρ)}

theorem SentTables.initial (clocks : ρ → Clock) : SentTables (net.initial clocks) :=
  fun _ _ _ h => h.elim

theorem SentTables.broadcast {u : ρ} {cache : MipArpCache} {package : MIPRouteTablePackage}
    {pointers : ℕ → PointerBytes} {outputs : List Output} (h : SentTables s)
    (hSend : broadcastRouteTable (net.iTable u) cache package pointers = .ok outputs) :
    SentTables { s with
      sent := {frame | frame ∈ s.sent ∨ ∃ socket package, .sendto socket package ∈ outputs ∧
        frame = (u, net.wire u socket, package)} } := by
  rintro v w frame (hOld | ⟨socket, frame', hOutput, hNew⟩)
  · exact h v w frame hOld
  · cases hNew
    obtain ⟨record, -, hFrame⟩ := mem_broadcastRouteTable hSend hOutput
    obtain ⟨tmp, _, -, hSent, hMessage, hHeader⟩ := broadcastOnInterface_eq_ok hFrame
    obtain ⟨rfl, rfl⟩ := Output.sendto.inj hSent
    exact ⟨tmp, hMessage, by rw [hHeader]⟩

variable [DecidableEq ρ]

theorem SentTables.step {event : Event ρ} (h : SentTables s)
    (hStep : net.Step caches s event t) : SentTables t := by
  cases hStep with
  | pack hPack => exact h
  | broadcast hPacked hCache hSend => exact h.broadcast hSend
  | deliver hSent hNe hAttached hTable => exact h
  | expire v clock => exact h

/-- The step lemma: all that is ever on the wires are tables as routerd packed them, with 129
words of payload. -/
theorem SentTables.wireStep (h : SentTables s) (hStep : net.WireStep caches s event t) :
    SentTables t := by
  cases hStep with
  | host hStep hHost => exact h.step hStep
  | deliver hSent hNe hAttached hReceive hTable => exact h

/-- A table that arrives whole is merged as if its frame had arrived as it was sent. -/
theorem WireStep.step (h : SentTables s) (hStep : net.WireStep caches s event t)
    (hWhole : event.Whole) : net.Step caches s event.onHosts t := by
  cases hStep with
  | host hStep hHost => exact hStep
  | @deliver u v w record package received pointer env clock merging neighborTable hSent hNe
      hAttached hReceive hTable =>
      obtain ⟨tmp, hMessage, hWords⟩ := h u w package hSent
      have hFew : tmp.numEntries.toNat ≤ arrivingEntries := by
        have hAnnounced := hWhole
        rwa [WireEvent.Whole, parseBroadcastedTable_eq hMessage] at hAnnounced
      rw [parseBroadcastedTable_receivePackage hMessage hWords hReceive,
        createTable_arrivingTable hFew, ← parseBroadcastedTable_eq hMessage] at hTable
      exact .deliver s hSent hNe hAttached hTable

/-- Whatever the heap holds, a table that arrives whole can be delivered, and it is merged as it
was sent. -/
theorem Step.wireStep {event : Event ρ} (h : SentTables s) (hStep : net.Step caches s event t)
    (hFew : ∀ u w package, (u, w, package) ∈ s.sent →
      (parseBroadcastedTable package).numEntries.toNat ≤ 20) :
    ∃ event' : WireEvent ρ, event'.onHosts = event ∧ net.WireStep caches s event' t := by
  cases hStep with
  | pack hPack => exact ⟨.host _, rfl, .host (.pack s hPack) id⟩
  | broadcast hPacked hCache hSend =>
      exact ⟨.host _, rfl, .host (.broadcast s hPacked hCache hSend) id⟩
  | @deliver u v w record package clock merging neighborTable hSent hNe hAttached hTable =>
      obtain ⟨tmp, hMessage, hWords⟩ := h u w package hSent
      let pointer : PointerBytes := Vector.replicate 8 0
      let env : Env := ⟨fun _ => 0, fun _ => pointer, fun _ => 0, true⟩
      obtain ⟨received, hReceive⟩ := exists_receive_broadcast hWords pointer env
      have hSame : (parseBroadcastedTable received).createTable clock = some neighborTable := by
        have hAnnounced := hFew u w package hSent
        rw [parseBroadcastedTable_eq hMessage] at hAnnounced hTable
        rw [parseBroadcastedTable_receivePackage hMessage hWords hReceive,
          createTable_arrivingTable hAnnounced, hTable]
      exact ⟨.deliver v u package, rfl, .deliver s hSent hNe hAttached hReceive hSame⟩
  | expire v clock => exact ⟨.host _, rfl, .host (.expire s v clock) id⟩

/-- A run in which every delivered table arrives whole is one of the network whose frames
arrive as they were sent. -/
theorem run_of_whole {kept : Event ρ → Prop} (h : SentTables s)
    (run : Trace (Guarded (net.WireStep caches) fun _ event _ =>
      event.Whole ∧ kept event.onHosts) s events t) :
    Trace (Guarded (net.Step caches) fun _ event _ => kept event) s
      (events.map WireEvent.onHosts) t := by
  have hTables : Trace (Guarded (Guarded (net.WireStep caches) fun _ event _ =>
      event.Whole ∧ kept event.onHosts) fun s _ _ => SentTables s) s events t :=
    run.strengthen h (fun s event t hSent hStep => hSent.wireStep hStep.1)
      fun s event t hSent _ => hSent
  refine hTables.relabel WireEvent.onHosts fun s event t hStep => ?_
  obtain ⟨⟨hStep, hWhole, hKept⟩, hSent⟩ := hStep
  exact ⟨hStep.step hSent hWhole, hKept⟩

/-- A host whose table can be packed can pass on what arrives of it to any neighbour. -/
theorem exists_wire_exchange (caches : ρ → MipArpCache → Prop) {u v : ρ} {w : σ}
    {record record' : InterfaceRecord} (cache : MipArpCache) (s : State ρ σ)
    (hPackable : (s.tables u).createPackage.isSome)
    (hSender : net.Attached u w record) (hReceiver : net.Attached v w record') (hNe : u ≠ v)
    (hCache : caches u cache) : ∃ package tmp frame neighborTable t,
      (s.tables u).createPackage = some package ∧
      splitHorizonCopy cache record package = some tmp ∧
      (parseBroadcastedTable frame).numEntries.toNat = (s.tables u).entries.length ∧
      (arrivingTable tmp fun _ => 0).createTable (fun _ => 0) = some neighborTable ∧
      Trace (net.WireStep caches) s
        [.host (.pack u), .host (.broadcast u), .deliver v u frame] t ∧
      t.tables = Function.update s.tables v
        ((s.tables v).updateRouting neighborTable fun _ => 0) := by
  obtain ⟨package, tmp, frame, m, hPack, hCopy, hMessage, hWords, run, hSent, hTables, -⟩ :=
    exists_packed_broadcast caches cache s hPackable hSender hCache
  obtain ⟨hCount, hSize⟩ := MIPRouteTable.createPackage_numEntries hPack
  have hEntries : tmp.numEntries.toNat = (s.tables u).entries.length := by
    rw [splitHorizonCopy_numEntries hCopy, hCount]
  let pointer : PointerBytes := Vector.replicate 8 0
  let env : Env := ⟨fun _ => 0, fun _ => pointer, fun _ => 0, true⟩
  obtain ⟨received, hReceive⟩ := exists_receive_broadcast hWords pointer env
  have hArrives := parseBroadcastedTable_receivePackage hMessage hWords hReceive
  obtain ⟨neighborTable, hTable⟩ : ∃ neighborTable,
      (arrivingTable tmp fun _ => 0).createTable (fun _ => 0) = some neighborTable :=
    ⟨_, if_pos (by rw [arrivingTable_numEntries, hEntries]; exact hSize)⟩
  have hQuiet : Trace (net.WireStep caches) s ([.pack u, .broadcast u].map WireEvent.host) m :=
    run.relabel WireEvent.host fun _ _ _ h => .host h.1 h.2.2
  have hMerge : net.WireStep caches m (.deliver v u frame) { m with
      tables := Function.update m.tables v ((m.tables v).updateRouting neighborTable fun _ => 0)
      merged := insert (v, u) m.merged } :=
    .deliver m hSent hNe hReceiver hReceive (hArrives ▸ hTable)
  refine ⟨package, tmp, frame, neighborTable, _, hPack, hCopy, ?_, hTable, hQuiet.snoc hMerge, ?_⟩
  · rw [parseBroadcastedTable_eq hMessage, hEntries]
  · rw [hTables]

/-- Route costs are never too good to be true as long as no table that is delivered announces
more than 20 entries, in tables and in frames on the wire, whatever is lost, repeated,
reordered or expired. -/
theorem route_costs_at_least_distance (net : Network ρ σ) (hUnique : net.AddressesUnique)
    (clocks : ρ → Clock)
    (run : Trace (Guarded (net.WireStep fun _ _ => True) fun _ event _ => event.Whole)
      (net.initial clocks) events t) :
    (∀ u, ∀ entry ∈ (t.tables u).entries,
      setDist net.graph (net.owners entry.destination) u ≤ entry.cost.toNat ∧
        (entry.cost = 0 → u ∈ net.owners entry.destination) ∧
        (entry.cost ≠ 0 → ∃ v, net.graph.Adj u v ∧ entry.nextHop ∈ net.addresses v)) ∧
      ∀ u w package, (u, w, package) ∈ t.sent →
        ∀ entry ∈ (parseBroadcastedTable package).listed, entry.cost ≠ uintMax →
          setDist net.graph (net.owners entry.destination) u ≤ entry.cost.toNat ∧
            (entry.cost + 1).toNat = entry.cost.toNat + 1 := by
  have hRun : Trace (Guarded (net.Step fun _ _ => True) fun _ _ _ => True)
      (net.initial clocks) (events.map WireEvent.onHosts) t :=
    run_of_whole (SentTables.initial clocks) (run.mono fun _ _ _ h => ⟨h.1, h.2, trivial⟩)
  exact costs_at_least_distance net hUnique clocks hRun.unguard

/-- The 10 of the two hosts passes its table to the other one, in a run whose one delivery is
whole. -/
theorem twoHosts_exists_exchange : ∃ frame t,
    Trace (Guarded (twoHosts.WireStep fun _ _ => True) fun _ event _ =>
      event.Whole ∧ event.onHosts.Retains) (twoHosts.initial fun _ _ => 0)
        [.host (.pack false), .host (.broadcast false), .deliver true false frame] t := by
  have hSender : twoHosts.Attached false () ⟨ethBroadcastAddr, ethBroadcastAddr, 10, 3⟩ :=
    ⟨List.mem_cons_self, rfl⟩
  have hReceiver : twoHosts.Attached true () ⟨ethBroadcastAddr, ethBroadcastAddr, 20, 3⟩ :=
    ⟨List.mem_cons_self, rfl⟩
  obtain ⟨package, tmp, frame, neighborTable, t, -, -, hEntries, -, run, -⟩ :=
    exists_wire_exchange (fun _ _ => True) (MipArpCache.createCache 10000)
      (twoHosts.initial fun _ _ => 0) rfl hSender hReceiver (by decide) trivial
  have hFew : (parseBroadcastedTable frame).numEntries.toNat ≤ 20 := by
    rw [hEntries]
    decide
  refine ⟨frame, t, run.guard_labels ?_⟩
  simp [WireEvent.Whole, WireEvent.onHosts, Event.Retains, hFew]

/-- One host packs and broadcasts its table, the other merges it. With one entry each the tables
arrive whole. -/
theorem two_hosts_costs_at_least_distance : ∃ frame t,
    Trace (twoHosts.WireStep fun _ _ => True) (twoHosts.initial fun _ _ => 0)
      [.host (.pack false), .host (.broadcast false), .deliver true false frame] t ∧
    ∀ u, ∀ entry ∈ (t.tables u).entries,
      setDist twoHosts.graph (twoHosts.owners entry.destination) u ≤ entry.cost.toNat := by
  obtain ⟨frame, t, run⟩ := twoHosts_exists_exchange
  refine ⟨frame, t, run.unguard, fun u entry hMem => ?_⟩
  exact ((route_costs_at_least_distance twoHosts twoHosts_addressesUnique (fun _ _ => 0)
    (run.mono fun _ _ _ h => ⟨h.1, h.2.1⟩)).1 u entry hMem).1

/-- A host with the addresses 1 to 21 and one with the address 100 on one wire. -/
def crowdedHosts : Network Bool Unit where
  configured u := if u then [100] else (List.range 21).map fun i => UInt8.ofNat (i + 1)
  iTable u := ⟨[⟨ethBroadcastAddr, ethBroadcastAddr, if u then 100 else 1, 3⟩]⟩
  wire _ _ := ()

theorem crowdedHosts_addressesUnique : crowdedHosts.AddressesUnique := by
  have hAddress : ∀ u a, a ∈ crowdedHosts.addresses u → decide (a = 100) = u := by
    rintro u a (hConfigured | ⟨record, hRecord, rfl⟩)
    · cases u with
      | false =>
          obtain ⟨i, hi, rfl⟩ := List.mem_map.mp hConfigured
          revert i
          decide
      | true => simpa using List.mem_singleton.mp hConfigured
    · rw [List.mem_singleton.mp hRecord]
      cases u <;> rfl
  intro u v a hu hv
  exact (hAddress u a hu).symm.trans (hAddress v a hv)

/-- An entry that does not arrive is read from the heap. Eight zeros are a route of no cost to the
address 0. -/
theorem mem_listed_arrivingTable {tmp : MIPRouteTablePackage}
    (hMany : arrivingEntries < tmp.numEntries.toNat) :
    ⟨0, 0, 0⟩ ∈ (arrivingTable tmp fun _ => 0).listed := by
  have hSlot : arrivingEntries < mipTablePackageEntriesMaxSize := by decide
  have hEntry := arrivingTable_getElem tmp (fun _ => 0) hSlot
  rw [if_neg (Nat.lt_irrefl _)] at hEntry
  rw [MIPRouteTablePackage.listed, arrivingTable_numEntries, List.mem_take_iff_getElem]
  refine ⟨arrivingEntries, Nat.lt_min.mpr ⟨hMany, by simpa using hSlot⟩, ?_⟩
  rw [Vector.getElem_toList, hEntry]
  rfl

/-- The zeros behind the receive buffer are read as a 21st route, to 0 at no cost. -/
theorem crowdedHosts_exists_exchange : ∃ events t,
    Trace (Guarded (crowdedHosts.WireStep fun _ _ => True) fun _ event _ =>
      event.onHosts.Retains) (crowdedHosts.initial fun _ _ => 0) events t ∧
    t.tables false = ((crowdedHosts.initial fun _ _ => 0).tables false : MIPRouteTable) ∧
    ∃ entry ∈ (t.tables true).entries, entry.destination = 0 ∧ entry.cost.toNat = 1 ∧
      entry.nextHop = 1 := by
  have hSender : crowdedHosts.Attached false () ⟨ethBroadcastAddr, ethBroadcastAddr, 1, 3⟩ :=
    ⟨List.mem_cons_self, rfl⟩
  have hReceiver : crowdedHosts.Attached true () ⟨ethBroadcastAddr, ethBroadcastAddr, 100, 3⟩ :=
    ⟨List.mem_cons_self, rfl⟩
  obtain ⟨package, tmp, frame, neighborTable, t, hPack, hCopy, -, hTable, run, hTables⟩ :=
    exists_wire_exchange (fun _ _ => True) (MipArpCache.createCache 10000)
      (crowdedHosts.initial fun _ _ => 0) (by decide) hSender hReceiver (by decide) trivial
  refine ⟨_, t, run.guard_labels (by simp [WireEvent.onHosts, Event.Retains]), ?_, ?_⟩
  · rw [hTables]
    rfl
  · have hCount := (MIPRouteTable.createPackage_numEntries hPack).1
    have hMany : arrivingEntries < tmp.numEntries.toNat := by
      rw [splitHorizonCopy_numEntries hCopy, hCount]
      decide
    obtain ⟨hAddress, hEntries⟩ := MIPRouteTable.createTable_entries hTable
    have hListed := mem_listed_arrivingTable hMany
    rw [← hEntries, List.mem_map] at hListed
    obtain ⟨entry, hMem, hEntry⟩ := hListed
    obtain ⟨hDest, -, hCost⟩ := MIPRoutePackageEntry.mk.inj hEntry
    have hOffer : neighborTable.offer 0 = some 0 :=
      hDest ▸ MIPRouteTable.offer_of_mem_zero hMem hCost
    rw [splitHorizonCopy_eq] at hCopy
    have hNeighbor : neighborTable.tableAddress = 1 := by
      rw [hAddress, arrivingTable_tableAddress, (poisonReverse_eq_some hCopy).1]
    have hLocal := RouterServer.LocalRoutes.create (crowdedHosts.configured true) [] fun _ => 0
    rw [hTables, Function.update_self, ← hNeighbor]
    exact MIPRouteTable.exists_entry_of_offer hLocal.distinct (by decide) hOffer _

/-- A cost that is too good to be true: the first host announces its 21 addresses, the neighbour
reads the last entry from its own heap, and nobody has the address 0 that it finds there. -/
theorem heap_becomes_a_route : crowdedHosts.AddressesUnique ∧ ∃ events t,
    Trace (crowdedHosts.WireStep fun _ _ => True) (crowdedHosts.initial fun _ _ => 0) events t ∧
    ∃ entry ∈ (t.tables true).entries, ¬ setDist crowdedHosts.graph
      (crowdedHosts.owners entry.destination) true ≤ entry.cost.toNat := by
  obtain ⟨events, t, run, -, entry, hMem, hDest, hCost, -⟩ := crowdedHosts_exists_exchange
  refine ⟨crowdedHosts_addressesUnique, events, t, run.unguard, entry, hMem, fun hLe => ?_⟩
  obtain ⟨n, hDist⟩ := ENat.ne_top_iff_exists.mp (ne_top_of_le_ne_top (ENat.natCast_ne_top _) hLe)
  obtain ⟨o, hOwner, -⟩ := exists_setDist_eq hDist.symm
  have hNobody : ∀ u, (0 : MIPAddress) ∉ crowdedHosts.configured u := by decide
  rw [hDest] at hOwner
  exact hNobody o hOwner

/-- As long as nothing expires and no table that is delivered announces more than 20 entries,
the next hop's own route is strictly cheaper, so following next hops reaches the owner without
visiting a host twice. -/
theorem next_hops_are_loop_free (net : Network ρ σ) (hUnique : net.AddressesUnique)
    (clocks : ρ → Clock)
    (run : Trace (Guarded (net.WireStep fun _ _ => True) fun _ event _ =>
      event.Whole ∧ event.onHosts.Retains) (net.initial clocks) events t) :
    ∀ u, ∀ entry ∈ (t.tables u).entries,
      (∀ v, entry.cost ≠ 0 → entry.nextHop ∈ net.addresses v → ∃ entry' ∈ (t.tables v).entries,
        entry'.destination = entry.destination ∧ entry'.cost < entry.cost) ∧
      (entry.destination ≠ mipBroadcastAddress →
        (t.tables u).getNextHop entry.destination = entry.nextHop) ∧
      (∃ path, (u :: path).IsChain (net.HandsTo t entry.destination) ∧
        (u :: path).getLast (List.cons_ne_nil u path) ∈ net.owners entry.destination) ∧
      ∀ path, (u :: path).IsChain (net.HandsTo t entry.destination) →
        path.length ≤ entry.cost.toNat ∧ (u :: path).Nodup :=
  next_hops_lead_to_owner net hUnique clocks (run_of_whole (SentTables.initial clocks) run)

/-- After one exchange between two hosts every route leads to its owner. Both tables have few
enough entries to arrive whole. -/
theorem two_hosts_loop_free : ∃ frame t,
    Trace (twoHosts.WireStep fun _ _ => True) (twoHosts.initial fun _ _ => 0)
      [.host (.pack false), .host (.broadcast false), .deliver true false frame] t ∧
    ∀ u, ∀ entry ∈ (t.tables u).entries,
      ∃ path, (u :: path).IsChain (twoHosts.HandsTo t entry.destination) ∧
        (u :: path).getLast (List.cons_ne_nil u path) ∈ twoHosts.owners entry.destination := by
  obtain ⟨frame, t, run⟩ := twoHosts_exists_exchange
  refine ⟨frame, t, run.unguard, fun u entry hMem => ?_⟩
  exact (next_hops_are_loop_free twoHosts twoHosts_addressesUnique (fun _ _ => 0) run u entry
    hMem).2.2.1

/-- The next hop of a route out of the heap is the host that sent the table, and that host has no
route to the destination. -/
theorem heap_route_leads_nowhere : crowdedHosts.AddressesUnique ∧ ∃ events t,
    Trace (Guarded (crowdedHosts.WireStep fun _ _ => True) fun _ event _ =>
      event.onHosts.Retains) (crowdedHosts.initial fun _ _ => 0) events t ∧
    ∃ entry ∈ (t.tables true).entries, entry.cost ≠ 0 ∧
      entry.nextHop ∈ crowdedHosts.addresses false ∧
      ∀ entry' ∈ (t.tables false).entries, entry'.destination ≠ entry.destination := by
  obtain ⟨events, t, run, hKept, entry, hMem, hDest, hCost, hHop⟩ := crowdedHosts_exists_exchange
  refine ⟨crowdedHosts_addressesUnique, events, t, run, entry, hMem, ?_, ?_, ?_⟩
  · intro hZero
    rw [hZero] at hCost
    exact absurd hCost (by decide)
  · rw [hHop]
    exact Or.inr ⟨_, List.mem_cons_self, rfl⟩
  · rw [hDest, hKept]
    decide

end Network

end MipStack
