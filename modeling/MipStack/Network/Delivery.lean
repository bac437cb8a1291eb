import MipStack.Mipd.ApplicationMessages
import MipStack.Network.Relay

/-! A message on its whole way, from the bytes that one application writes to those that
another one reads. -/
namespace MipStack
open Execution MIPDServer

/-- A mipd that gets the package from memory at `pointer` of the host before. -/
structure Relay where
  stop : Stop
  pointer : PointerBytes

/-- The host of the destination. -/
structure Arrival where
  server : MIPDServer
  fd : ℤ
  pointer : PointerBytes
  env : Env

namespace Relay

def frame (relay : Relay) (package : MIPPackage) : List UInt8 :=
  sendtoRawMipPackage package relay.pointer

def sends (relay : Relay) (package : MIPPackage) : Option MIPPackage :=
  (relay.stop.sent (relay.frame package)).map Prod.snd

structure Ready (relay : Relay) (package : MIPPackage) : Prop where
  stop : relay.stop.Ready (relay.frame package)
  source : relay.stop.daemon.server.source relay.stop.fd = .rawSocket
  other : relay.stop.daemon.server.iTable.getInterfacePosForMipAddress
    package.mHeader.dstAddr = none

end Relay

def travel : List Relay → MIPPackage → Option MIPPackage
  | [], package => some package
  | relay :: rest, package => (relay.sends package).bind (travel rest)

/-- Every relay is ready for the package that gets there. -/
def Passable : List Relay → MIPPackage → Prop
  | [], _ => True
  | relay :: rest, package =>
    relay.Ready package ∧ ∀ package' ∈ relay.sends package, Passable rest package'

/-- The package that gets to the last host. -/
def journey (source : Stop) (message : MIPDMessage) (relays : List Relay) : Option MIPPackage :=
  (source.sent message.toBytes).bind fun frame => travel relays frame.2

namespace Arrival

def outputs (arrival : Arrival) (package : MIPPackage) : List Output :=
  (arrival.server.branch ⟨arrival.fd, sendtoRawMipPackage package arrival.pointer, -1⟩
    arrival.env).outputs

/-- The address is one of the host's own, and its application listens. -/
structure Accepts (arrival : Arrival) (address : MIPAddress) : Prop where
  source : arrival.server.source arrival.fd = .rawSocket
  own : (arrival.server.iTable.getInterfacePosForMipAddress address).isSome
  connected : arrival.server.appSocket.connectedSocketFd ≠ -1

end Arrival

/-- A way for what an application writes to its mipd, to the host with the address. -/
structure Way (bytes : List UInt8) (destination : MIPAddress) where
  source : Stop
  relays : List Relay
  arrival : Arrival
  isApp : source.daemon.server.source source.fd = .appConnection
  addresses : ∀ record ∈ source.daemon.server.iTable.interfaces, record.mipAddress ≠ 255
  ready : source.Ready bytes
  passable : ∀ frame ∈ source.sent bytes, Passable relays frame.2
  accepts : arrival.Accepts destination

/-- The package that gets to the last host of the way. -/
def Way.last {bytes : List UInt8} {destination : MIPAddress} (way : Way bytes destination) :
    Option MIPPackage :=
  (way.source.sent bytes).bind fun frame => travel way.relays frame.2

/-- The package as it is first put on a wire. -/
structure MadeOf (message : MIPDMessage) (src : MIPAddress) (package : MIPPackage) : Prop where
  header : package.mHeader = { createTransportMipHeader src message.mipAddress with
    payloadLen := BitVec.ofNat 9 (calculateMipPayloadWords message.data.length) }
  message : package.message = padMessage message.data

/-- The message as the other application reads it: filled up to whole words, and intact as far
as the receive buffers on the way have room for it. -/
structure Delivered (message received : MIPDMessage) : Prop where
  length : received.data.length = calculateMipPayloadWords message.data.length * mipPayloadWord
  start : received.data.take payloadRoom = (padMessage message.data).take payloadRoom

variable {message received : MIPDMessage} {package package' : MIPPackage} {src : MIPAddress}
  {stop : Stop} {relay : Relay} {relays : List Relay} {arrival : Arrival} {server : MIPDServer}
  {env : Env}

/-- A short message is intact but for the zeros at its end, which make up its last word. -/
theorem Delivered.data_eq (h : Delivered message received) (hShort : message.data.length ≤ 160) :
    received.data = padMessage message.data := by
  have hWords := length_le_payload_words message.data.length
  have hRoom : calculateMipPayloadWords message.data.length * mipPayloadWord ≤ payloadRoom := by
    rw [payloadRoom_eq]
    unfold mipPayloadWord at *
    omega
  have hStart := h.start
  rw [List.take_of_length_le (h.length ▸ hRoom),
    List.take_of_length_le (padMessage_length message.data ▸ hRoom)] at hStart
  exact hStart

/-- The package that is put on a wire is what `MIPPackage_create` makes of the message. -/
theorem MadeOf.create (h : MadeOf message src package) : MIPPackage.create package.eFrame
    (createTransportMipHeader src message.mipAddress) message.data = some package := by
  refine MIPPackage.create_eq_some_iff.mpr ⟨message.size_le, ?_⟩
  obtain ⟨eFrame, mHeader, bytes⟩ := package
  obtain rfl : mHeader = _ := h.header
  obtain rfl : bytes = _ := h.message
  rfl

theorem MadeOf.payload (h : MadeOf message src package) :
    package.payload = padMessage message.data ∧
      package.payload.length = package.mHeader.payloadLen.toNat * mipPayloadWord := by
  have hPayload := MIPPackage.payload_of_create h.create
  exact ⟨hPayload, by rw [hPayload, MIPPackage.payload_length_of_create h.create, h.message]⟩

/-- It can be forwarded: its payload has the length that its header announces, and its source is
no broadcast address. -/
theorem MadeOf.transportable (h : MadeOf message src package) (hSrc : src ≠ 255) :
    Transportable package :=
  transportable_of_create h.create rfl hSrc

/-- A message of more than 1488 bytes makes a frame that no link takes: 26 bytes of headers and
pointer come to its words. -/
theorem MadeOf.fitsLink_iff (h : MadeOf message src package) :
    FitsLink package ↔ message.data.length ≤ 1488 := by
  have hWords := length_le_payload_words message.data.length
  rw [FitsLink, h.payload.1, padMessage_length]
  unfold sizeofMIPPackage maxFrameSize mipPayloadWord at *
  omega

/-- A whole message that mipd can read in one go is handled as it was written. -/
theorem MIPDServer.branch_message (server : MIPDServer) (env : Env) {fd : ℤ}
    (hSource : server.source fd = .appConnection) (hLong : 13 ≤ message.data.length)
    (hFits : message.data.length ≤ 1493) :
    server.branch ⟨fd, message.toBytes, -1⟩ env = server.handleApplicationMessage message env := by
  have hSize : message.toBytes.length ≤ maxMipMessageDataSize :=
    (toBytes_fits_iff message).mpr hFits
  have hParsed : IsParsed message.toBytes := by
    rw [IsParsed, MIPDMessage.toBytes_length, sizeofMIPDMessage]
    omega
  have hSome : message.toBytes ≠ [] := List.cons_ne_nil _ _
  simp only [branch, hSource]
  rw [server.appBranch_eq_handleTaken fd (-1) env hSome hSize,
    (readMessage_eq_some_iff hParsed hSize).mpr (begins_toBytes message)]
  rfl

/-- A message to a cached neighbour is sent at once, without asking routerd. -/
theorem MIPDServer.exists_handleApplicationMessage (hInterfaces : server.iTable.interfaces ≠ [])
    (env : Env) (hCached : server.cache.queryMipAddressSrcSocket message.mipAddress ≠ -1) :
    ∃ package, ∃ record ∈ server.iTable.interfaces,
      server.handleApplicationMessage message env = server.finish 1
        [.sendto (server.cache.queryMipAddressSrcSocket message.mipAddress) package] ∧
      MadeOf message record.mipAddress package := by
  obtain ⟨record, hMem, hRecord⟩ := InterfaceTable.exists_recordForSocket hInterfaces
    (server.cache.queryMipAddressSrcSocket message.mipAddress)
  cases hFind : server.cache.entries.find? fun entry => entry.mipAddress = message.mipAddress with
  | none => simp [MipArpCache.queryMipAddressSrcSocket, hFind] at hCached
  | some entry =>
      let package : MIPPackage :=
        { eFrame := createEthernetFrame entry.dstInterface record.sllAddr
          mHeader := { createTransportMipHeader record.mipAddress message.mipAddress with
            payloadLen := BitVec.ofNat 9 (calculateMipPayloadWords message.data.length) }
          message := padMessage message.data }
      refine ⟨package, record, hMem, ?_, ⟨rfl, rfl⟩⟩
      simp only [handleApplicationMessage, handleDomainSocketRequest, if_neg hCached, hRecord,
        hFind, MIPPackage.create_eq_some_iff.mpr ⟨message.size_le, rfl⟩]
      rfl

/-- A message for any other host is asked about, and waits at the end of the queue. -/
theorem MIPDServer.handleApplicationMessage_requests (hCan : server.CanRequest env)
    (hUnknown : server.cache.queryMipAddressSrcSocket message.mipAddress = -1) :
    ∃ waiting, createQueueable message (env.pointers 0) = some waiting ∧
      (server.handleApplicationMessage message env).outputs =
        [.writeForward message.mipAddress waiting] := by
  have hDirect : server.handleDomainSocketRequest message = server.finish 0 [] := if_pos hUnknown
  refine ⟨_, createQueueable_eq message _, ?_⟩
  simp only [handleApplicationMessage, hDirect, createQueueable_eq]
  rw [finish]
  simp only [requestForwarding_eq hCan]
  rfl

/-- A message is sent under the address of an interface, at once or after an answer, and leaves
its host if the link takes it. -/
theorem Stop.Ready.sent_message (h : stop.Ready message.toBytes)
    (hSource : stop.daemon.server.source stop.fd = .appConnection)
    (hLong : 13 ≤ message.data.length) (hFits : message.data.length ≤ 1493) :
    ∃ socket package, ∃ record ∈ stop.daemon.server.iTable.interfaces,
      stop.sent message.toBytes = (if FitsLink package then some (socket, package) else none) ∧
      MadeOf message record.mipAddress package ∧
      socket = if stop.daemon.server.cache.queryMipAddressSrcSocket message.mipAddress = -1 then
          (stop.answering message.toBytes).server.cache.queryMipAddressSrcSocket stop.nextHop
        else stop.daemon.server.cache.queryMipAddressSrcSocket message.mipAddress := by
  have hHandled : stop.handled message.toBytes =
      stop.daemon.server.handleApplicationMessage message stop.env :=
    stop.daemon.server.branch_message stop.env hSource hLong hFits
  by_cases hUnknown :
      stop.daemon.server.cache.queryMipAddressSrcSocket message.mipAddress = -1
  · obtain ⟨waiting, hWaiting, hOutputs⟩ :=
      stop.daemon.server.handleApplicationMessage_requests h.canRequest hUnknown
    have hRequests : (stop.handled message.toBytes).requests = [⟨message.mipAddress, waiting⟩] := by
      rw [hHandled, Outcome.requests, hOutputs]
      rfl
    obtain ⟨package, hSent, hOn⟩ := h.exists_sent (by rw [hHandled, hOutputs]; rfl) hRequests
    rw [createQueueable_eq] at hWaiting
    obtain rfl := Option.some.inj hWaiting
    obtain ⟨eFrame, record, hMem, rfl⟩ := hOn
    exact ⟨_, _, record, hMem, hSent, ⟨rfl, rfl⟩, (if_pos hUnknown).symm⟩
  · obtain ⟨package, record, hMem, hDirect, hMade⟩ :=
      stop.daemon.server.exists_handleApplicationMessage h.interfaces stop.env hUnknown
    refine ⟨_, package, record, hMem, ?_, hMade, (if_neg hUnknown).symm⟩
    have hRequests : (stop.handled message.toBytes).requests = [] := by
      rw [hHandled, hDirect]
      rfl
    have hOutputs : (stop.handled message.toBytes).outputs.findSome? Output.frame =
        if FitsLink package then
          some (stop.daemon.server.cache.queryMipAddressSrcSocket message.mipAddress, package)
        else none := by
      rw [hHandled, hDirect, finish, List.findSome?_singleton, Output.frame]
    simp only [Stop.sent, hOutputs, hRequests]
    split_ifs <;> rfl

/-- Every relay costs one of the hops that the ttl allows, and nothing else: the cargo that leaves
the last one is that of the first. -/
theorem travel_of_passable (hPackage : Transportable package) (hFits : FitsLink package)
    (h : Passable relays package) :
    ((travel relays package).isSome ↔ relays.length ≤ package.mHeader.ttl.toNat) ∧
      ∀ package' ∈ travel relays package, SameCargo package package' := by
  induction relays generalizing package with
  | nil =>
      refine ⟨iff_of_true rfl (Nat.zero_le _), ?_⟩
      rintro package' hSame
      obtain rfl := Option.some.inj hSame
      exact SameCargo.refl package
  | cons relay rest ih =>
      obtain ⟨hReady, hRest⟩ := h
      obtain ⟨hZero, hPos⟩ :=
        hReady.stop.sent_package hPackage hFits hReady.source hReady.other
      by_cases hTtl : package.mHeader.ttl = 0
      · have hNone : relay.sends package = none := congrArg (Option.map Prod.snd) (hZero hTtl)
        rw [travel, hNone, hTtl]
        exact ⟨iff_of_false Bool.false_ne_true (Nat.not_succ_le_zero _), fun _ h => nomatch h⟩
      · obtain ⟨package', hSent, hSame, hLower⟩ := hPos hTtl
        have hSends : relay.sends package = some package' := congrArg (Option.map Prod.snd) hSent
        obtain ⟨hReach, hCargo⟩ := ih (hPackage.of_sameCargo hSame) (hFits.of_sameCargo hSame)
          (hRest package' hSends)
        rw [travel, hSends, Option.bind_some]
        refine ⟨hReach.trans ?_, fun last hLast => hSame.trans (hCargo last hLast)⟩
        rw [List.length_cons]
        omega

/-- The application is given the source and the payload that the header announces, in one
message. -/
theorem Arrival.Accepts.outputs (h : arrival.Accepts package.mHeader.dstAddr)
    (hPackage : Transportable package) : ∃ received : MIPDMessage,
      arrival.outputs package = [.sendApp received.toBytes] ∧
      received.mipAddress = package.mHeader.srcAddr ∧
      received.data.length = package.payload.length ∧
      received.data.take payloadRoom = package.payload.take payloadRoom := by
  obtain ⟨received, hReceive, hHeader, hSame⟩ :=
    hPackage.exists_receivePackage arrival.pointer arrival.env
  have hSize : received.mHeader.payloadLen.toNat * 4 ≤ maxMipMessageDataSize := by
    have hFits := hPackage.fits
    rw [hPackage.length] at hFits
    rw [hHeader]
    exact hFits
  refine ⟨⟨received.mHeader.srcAddr, received.payload, ?_⟩, ?_,
    congrArg MIPHeader.srcAddr hHeader, hSame.length,
    hSame.start⟩
  · exact (List.length_take_le _ _).trans hSize
  · simp only [Arrival.outputs, branch, h.source]
    rw [handleRawSocketFrame_transport hReceive (hHeader ▸ hPackage.tra)
      (interfaces_ne_nil_of_source h.source), if_pos (hHeader ▸ h.own),
      handleMIPPackageForApplication, if_neg h.connected]
    simp only [MIPDMessage.create, dif_pos hSize, MIPDMessage.serialize_eq]
    rfl

/-- A package that was made of the message gives it to the application, whatever else that mipd is
doing. -/
theorem Arrival.Accepts.delivered (h : arrival.Accepts message.mipAddress)
    (hMade : MadeOf message src package) (hPackage : Transportable package)
    (hSame : SameCargo package package') : ∃ received : MIPDMessage,
      arrival.outputs package' = [.sendApp received.toBytes] ∧ received.mipAddress = src ∧
      Delivered message received := by
  have hDst : package'.mHeader.dstAddr = message.mipAddress := by
    rw [hSame.header, hMade.header]
    rfl
  obtain ⟨received, hOutputs, hSrc, hLength, hStart⟩ :=
    Arrival.Accepts.outputs (hDst ▸ h) (hPackage.of_sameCargo hSame)
  rw [hSame.length, hMade.payload.1, padMessage_length] at hLength
  rw [hSame.start, hMade.payload.1] at hStart
  refine ⟨received, hOutputs, ?_, hLength, hStart⟩
  rw [hSrc, hSame.header, hMade.header]
  rfl

/-- A chunk that is too small to be parsed changes nothing and sends nothing. -/
theorem MIPDServer.branch_of_small {chunk : List UInt8} {fd accepted : ℤ}
    (hSource : server.source fd = .appConnection) (hSome : chunk ≠ [])
    (hSmall : chunk.length < sizeofMIPDMessage) :
    server.branch ⟨fd, chunk, accepted⟩ env = server.finish 0 [] := by
  have hSize : chunk.length ≤ maxMipMessageDataSize := by
    unfold sizeofMIPDMessage maxMipMessageDataSize at *
    omega
  simp only [branch, hSource]
  rw [server.appBranch_eq_handleTaken fd accepted env hSome hSize,
    readMessage_of_small (Nat.not_le.mpr hSmall)]
  rfl

/-- A short message does not leave its host: mipd takes it for no message at all. -/
theorem Stop.sent_of_small (hSource : stop.daemon.server.source stop.fd = .appConnection)
    (hSmall : message.data.length < 13) : stop.sent message.toBytes = none := by
  have hHandled : stop.handled message.toBytes = stop.daemon.server.finish 0 [] := by
    refine branch_of_small hSource (List.cons_ne_nil _ _) ?_
    rw [MIPDMessage.toBytes_length]
    unfold sizeofMIPDMessage
    omega
  simp only [sent, hHandled]
  rfl

/-- What becomes of a message that mipd can read in one go. The results about messages, pings and
files are cases of this. -/
theorem Way.delivers (way : Way message.toBytes message.mipAddress)
    (hFits : message.data.length ≤ 1493) :
    (way.last.isSome ↔
      13 ≤ message.data.length ∧ message.data.length ≤ 1488 ∧ way.relays.length ≤ 15) ∧
      ∀ package ∈ way.last, ∃ received : MIPDMessage,
        way.arrival.outputs package = [.sendApp received.toBytes] ∧
        (∃ record ∈ way.source.daemon.server.iTable.interfaces,
          received.mipAddress = record.mipAddress) ∧
        Delivered message received := by
  rcases Nat.lt_or_ge message.data.length 13 with hSmall | hLong
  · have hNone : way.last = none :=
      congrArg (Option.bind · _) (Stop.sent_of_small way.isApp hSmall)
    rw [hNone]
    refine ⟨iff_of_false Bool.false_ne_true fun h => ?_, fun _ h => nomatch h⟩
    omega
  · obtain ⟨socket, first, record, hMem, hSent, hMade, -⟩ :=
      way.ready.sent_message way.isApp hLong hFits
    by_cases hLink : FitsLink first
    · have hFirst := hMade.transportable (way.addresses record hMem)
      have hShort := hMade.fitsLink_iff.mp hLink
      rw [if_pos hLink] at hSent
      have hLast : way.last = travel way.relays first := by
        rw [Way.last, hSent]
        rfl
      have hTtl : first.mHeader.ttl.toNat = 15 := by
        rw [hMade.header]
        rfl
      obtain ⟨hReach, hCargo⟩ := travel_of_passable hFirst hLink (way.passable _ hSent)
      rw [hTtl] at hReach
      rw [hLast]
      refine ⟨hReach.trans (by simp only [hLong, hShort, true_and]), fun package hPackage => ?_⟩
      obtain ⟨received, hOutputs, hSrc, hDelivered⟩ :=
        way.accepts.delivered hMade hFirst (hCargo package hPackage)
      exact ⟨received, hOutputs, ⟨record, hMem, hSrc⟩, hDelivered⟩
    · rw [if_neg hLink] at hSent
      have hNone : way.last = none := congrArg (Option.bind · _) hSent
      rw [hNone]
      refine ⟨iff_of_false Bool.false_ne_true fun h => ?_, fun _ h => nomatch h⟩
      exact hLink (hMade.fitsLink_iff.mpr h.2.1)

/-- A message is delivered exactly if its frame is one that a link takes and if it needs no more
than 15 relays. Whatever mipd and routerd do at each of them in the meantime, the other
application reads an address of the sender, and data of whole words that agrees with what was
sent in its first 162 bytes. -/
theorem messages_are_delivered_iff (source : Stop) (message : MIPDMessage) (relays : List Relay)
    (arrival : Arrival) (hLong : 13 ≤ message.data.length) (hFits : message.data.length ≤ 1493)
    (hSource : source.daemon.server.source source.fd = .appConnection)
    (hAddresses : ∀ record ∈ source.daemon.server.iTable.interfaces, record.mipAddress ≠ 255)
    (hReady : source.Ready message.toBytes)
    (hPassable : ∀ frame ∈ source.sent message.toBytes, Passable relays frame.2)
    (hAccepts : arrival.Accepts message.mipAddress) :
    ((journey source message relays).isSome ↔
      message.data.length ≤ 1488 ∧ relays.length ≤ 15) ∧
      ∀ package ∈ journey source message relays, ∃ received : MIPDMessage,
        arrival.outputs package = [.sendApp received.toBytes] ∧
        (∃ record ∈ source.daemon.server.iTable.interfaces,
          received.mipAddress = record.mipAddress) ∧
        Delivered message received ∧
        (message.data.length ≤ 160 → received.data = padMessage message.data) := by
  let way : Way message.toBytes message.mipAddress :=
    ⟨source, relays, arrival, hSource, hAddresses, hReady, hPassable, hAccepts⟩
  obtain ⟨hReach, hLast⟩ := way.delivers hFits
  refine ⟨hReach.trans (and_iff_right hLong), fun package hPackage => ?_⟩
  obtain ⟨received, hOutputs, hSrc, hDelivered⟩ := hLast package hPackage
  exact ⟨received, hOutputs, hSrc, hDelivered, hDelivered.data_eq⟩

/-- A mipd whose application and routerd are connected, with nothing waiting. -/
def Daemon.idle (iTable : InterfaceTable) (cache : MipArpCache) : Daemon :=
  { server := ⟨⟨3, 8⟩, ⟨4, -1⟩, ⟨5, 9⟩, iTable, cache, []⟩
    connection := ForwardConnection.new
    running := true }

def quietEnv : Env := ⟨fun _ => 0, fun _ => Vector.replicate 8 0, fun _ => 0, true⟩

/-- 10 asks its routerd for 30 and is told 20; the host with 20 and 21 delivers to 30. -/
theorem message_is_delivered_over_one_relay :
    let mac := ethBroadcastAddr
    let cache := fun (neighbor : MIPAddress) (socket : ℤ) (h : neighbor ≠ 255) =>
      (⟨[⟨neighbor, socket, mac, 0⟩], 10000, 0, Nat.le_add_left 1 63, by simpa using h⟩ :
        MipArpCache)
    let source : Stop := ⟨.idle ⟨[⟨mac, mac, 10, 6⟩]⟩ (cache 20 6 (by decide)), 8, quietEnv,
      [.answer 20], 9, 20⟩
    let relay : Relay := ⟨⟨.idle ⟨[⟨mac, mac, 20, 6⟩, ⟨mac, mac, 21, 7⟩]⟩
      (cache 30 7 (by decide)), 6, quietEnv, [.answer 30], 9, 30⟩, Vector.replicate 8 0⟩
    let arrival : Arrival :=
      ⟨(Daemon.idle ⟨[⟨mac, mac, 30, 6⟩]⟩ (cache 21 6 (by decide))).server, 6,
        Vector.replicate 8 0, quietEnv⟩
    let message : MIPDMessage := ⟨30, List.replicate 13 7, by decide⟩
    ∃ package ∈ journey source message [relay], ∃ received : MIPDMessage,
      arrival.outputs package = [.sendApp received.toBytes] ∧
        received.data = padMessage message.data := by
  intro mac cache source relay arrival message
  let first : MIPPackage :=
    ⟨createEthernetFrame mac mac, ⟨3, 15, 4, 30, 10⟩, List.replicate 13 7 ++ [0, 0, 0]⟩
  have hSent : source.sent message.toBytes = some (6, first) := by
    decide +kernel
  have hReady : source.Ready message.toBytes :=
    ⟨⟨⟨rfl, by decide⟩, ⟨by decide, rfl⟩, by decide +kernel, by decide +kernel⟩, by decide,
      by decide +kernel⟩
  have hPassable : ∀ frame ∈ source.sent message.toBytes, Passable [relay] frame.2 := by
    intro frame hFrame
    obtain rfl := Option.some.inj (hSent.symm.trans hFrame)
    have hStop : relay.stop.Ready (relay.frame first) :=
      ⟨⟨⟨rfl, by decide⟩, ⟨by decide, rfl⟩, by decide +kernel, by decide +kernel⟩, by decide,
        by decide +kernel⟩
    exact ⟨⟨hStop, by decide, by decide⟩, fun _ _ => trivial⟩
  obtain ⟨hReach, hDelivered⟩ := messages_are_delivered_iff source message [relay] arrival
    (by decide) (by decide) (by decide) (by decide) hReady hPassable
    ⟨by decide, by decide, by decide⟩
  obtain ⟨package, hPackage⟩ := Option.isSome_iff_exists.mp (hReach.mpr ⟨by decide, by decide⟩)
  obtain ⟨received, hOutputs, -, -, hData⟩ := hDelivered package hPackage
  exact ⟨package, hPackage, received, hOutputs, hData (by decide)⟩

end MipStack
