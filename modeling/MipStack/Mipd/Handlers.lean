import MipStack.Mipd.MIPDServer

/-! What each branch of `MIPDServer_run` sends, which packages it queues for
routerd, and what it leaves as it is. -/
namespace MipStack

/-- One byte for routerd and the package it was written for. -/
structure ForwardRequest where
  destination : MIPAddress
  package : MIPPackage
  deriving DecidableEq, Repr

def Output.forwardRequest : Output → Option ForwardRequest
  | .writeForward destination package => some ⟨destination, package⟩
  | _ => none

namespace Outcome

/-- The requests written to routerd, in this order. -/
def requests (o : Outcome) : List ForwardRequest := o.outputs.filterMap Output.forwardRequest

end Outcome

namespace MIPDServer

/-- The packages that wait for an answer of routerd. -/
def queued (server : MIPDServer) : List MIPPackage :=
  server.forwardQueue.map ForwardQueueEntry.package

/-- The packages requested are put behind the queue, each under its own
destination. Those requested meet `asked`, those handed to a raw socket `sent`. -/
structure Emits (server : MIPDServer) (o : Outcome) (asked sent : MIPPackage → Prop) : Prop where
  iTable : o.server.iTable = server.iTable
  cache : server.iTable.interfaces = [] → o.server.cache = server.cache
  queued : o.server.queued = server.queued ++ o.requests.map ForwardRequest.package
  requests : ∀ request ∈ o.requests,
    request.destination = request.package.mHeader.dstAddr ∧ asked request.package
  sends : ∀ socket package, .sendto socket package ∈ o.outputs → sent package

/-- ARP packages and route tables are no transport packages. -/
def NoTransport (package : MIPPackage) : Prop := package.mHeader.tra ≠ 3

/-- A transport package as it is made for a message of the local application. -/
def MadeFor (src : MIPAddress) (package : MIPPackage) : Prop :=
  package.mHeader.tra = 3 ∧ package.mHeader.ttl = 15 ∧ package.mHeader.srcAddr = src

/-- The package with the ttl it is forwarded with. -/
def lowerTtl (received : MIPPackage) : MIPPackage :=
  { received with mHeader := { received.mHeader with ttl := received.mHeader.ttl - 1 } }

/-- What `handle_raw_socket_frame` asks routerd about. -/
def MustForward (server : MIPDServer) (received : MIPPackage) : Prop :=
  received.mHeader.tra = 3 ∧
    (server.iTable.getInterfacePosForMipAddress received.mHeader.dstAddr).isNone ∧
    received.mHeader.ttl ≠ 0

/-- A waiting package as it is sent on: in a new frame, and under the address of
an interface if it has none. -/
def SentOn (iTable : InterfaceTable) (waiting package : MIPPackage) : Prop :=
  ∃ eFrame, ∃ record ∈ iTable.interfaces, package = { waiting with
    eFrame
    mHeader := { waiting.mHeader with
      srcAddr := if waiting.mHeader.srcAddr = 255 then record.mipAddress
        else waiting.mHeader.srcAddr } }

/-- An answer takes the oldest package out of the queue, and no other is sent. -/
structure Answers (server : MIPDServer) (o : Outcome) : Prop where
  iTable : o.server.iTable = server.iTable
  cache : o.server.cache = server.cache
  queued : o.server.queued = server.queued.tail
  requests : o.requests = []
  sends : ∀ socket package, .sendto socket package ∈ o.outputs →
    ∃ waiting, server.queued.head? = some waiting ∧ SentOn server.iTable waiting package

/-- A request can be written to routerd. -/
def CanRequest (server : MIPDServer) (env : Env) : Prop :=
  server.forwardSocket.connectedSocketFd ≠ -1 ∧ env.forwardWritten

variable {server server' : MIPDServer} {o : Outcome} {asked asked' sent sent' : MIPPackage → Prop}
  {package received : MIPPackage} {event : Event} {env : Env}

/-- Handlers are composed under weaker conditions on what they request and send. -/
theorem Emits.mono (h : Emits server o asked sent) (hAsked : ∀ p, asked p → asked' p)
    (hSent : ∀ p, sent p → sent' p) : Emits server o asked' sent' :=
  ⟨h.iTable, h.cache, h.queued, fun request hMem => ⟨(h.requests request hMem).1,
    hAsked _ (h.requests request hMem).2⟩, fun socket p hMem => hSent p (h.sends socket p hMem)⟩

/-- A handler that leaves the queue alone and writes nothing to routerd. -/
theorem Emits.of_keeps (hTable : o.server.iTable = server.iTable)
    (hCache : server.iTable.interfaces = [] → o.server.cache = server.cache)
    (hQueue : o.server.forwardQueue = server.forwardQueue) (hRequests : o.requests = [])
    (hSends : ∀ socket p, .sendto socket p ∈ o.outputs → sent p) : Emits server o asked sent := by
  refine ⟨hTable, hCache, ?_, ?_, hSends⟩
  · simp [MIPDServer.queued, hQueue, hRequests]
  · simp [hRequests]

theorem emits_halt (e : Halt) : Emits server (server.halt e) asked sent :=
  Emits.of_keeps rfl (fun _ => rfl) rfl rfl (by simp [halt])

/-- A handler that leaves the server as it is. -/
theorem emits_finish {rc : ℤ} {outputs : List Output}
    (hRequests : outputs.filterMap Output.forwardRequest = [])
    (hSends : ∀ socket p, .sendto socket p ∈ outputs → sent p) :
    Emits server (server.finish rc outputs) asked sent :=
  Emits.of_keeps rfl (fun _ => rfl) rfl hRequests hSends

/-- A handler that only hands frames to raw sockets. -/
theorem emits_frames {rc : ℤ} {outputs : List Output}
    (hFrames : ∀ output ∈ outputs, ∃ socket p, output = .sendto socket p ∧ sent p) :
    Emits server (server.finish rc outputs) asked sent := by
  apply emits_finish
  · rw [List.filterMap_eq_nil_iff]
    intro output hMem
    obtain ⟨socket, p, rfl, -⟩ := hFrames output hMem
    rfl
  · intro socket p hMem
    obtain ⟨socket', p', hEq, hSent⟩ := hFrames _ hMem
    rw [(Output.sendto.inj hEq).2]
    exact hSent

/-- Only a package that routerd was asked about is put into the queue, under its own
destination. -/
theorem requestForwarding_emits (package : MIPPackage) :
    Emits server (server.requestForwarding package.mHeader.dstAddr package env)
      (fun p => server.CanRequest env ∧ p = package) sent := by
  unfold requestForwarding
  split_ifs with hWritten
  · have hCan : server.CanRequest env := hWritten
    refine ⟨rfl, fun _ => rfl, ?_, ?_, ?_⟩
    · simp [queued, forwardQueuePush, finish, Outcome.requests, Output.forwardRequest]
    · simpa [finish, Outcome.requests, Output.forwardRequest] using hCan
    · simp [finish]
  · exact emits_finish rfl (by simp)

/-- A received table goes to routerd and not back to a wire. -/
theorem recvRouteTableBroadcast_emits :
    Emits server (server.recvRouteTableBroadcast package) asked sent := by
  unfold recvRouteTableBroadcast
  split_ifs
  · exact emits_finish rfl (by simp)
  · exact emits_finish rfl (by simp)

/-- A delivered package goes to the application only. -/
theorem handleMIPPackageForApplication_emits :
    Emits server (server.handleMIPPackageForApplication received) asked sent := by
  unfold handleMIPPackageForApplication
  split_ifs
  · exact emits_finish rfl (by simp)
  · split
    · exact emits_halt _
    · split
      · exact emits_halt _
      · exact emits_finish rfl (by simp)

/-- The only package sent while an ARP request is handled is its response. -/
theorem handleMipArpRequest_outputs {cache cache' : MipArpCache} {record : InterfaceRecord}
    {pointers : ℕ → PointerBytes} {now : ℤ} {outputs : List Output}
    (h : cache.handleMipArpRequest received record pointers now = .ok (cache', outputs)) :
    ∃ response, outputs = [.sendto record.rawSocket response] ∧ response.mHeader.tra = 0 := by
  have hFits : ([] : List UInt8).length ≤ payloadMaxSizeBytes := Nat.zero_le _
  simp only [MipArpCache.handleMipArpRequest,
    MIPPackage.createRaw_eq (by decide : 0 < 5) hFits] at h
  split at h
  · rw [Except.ok.injEq, Prod.mk.injEq] at h
    exact ⟨_, h.2.symm, rfl⟩
  · rw [Except.ok.injEq, Prod.mk.injEq] at h
    exact ⟨_, h.2.symm, rfl⟩
  · cases h

/-- A received package is either kept on this host or queued with a ttl that is one lower: a host
never sends a transport package at once that it received. -/
theorem handleReceivedPackage_emits (hInterfaces : server.iTable.interfaces ≠ []) (fd : ℤ)
    (record : InterfaceRecord) :
    Emits server (server.handleReceivedPackage fd record received env)
      (fun p => server.CanRequest env ∧ server.MustForward received ∧ p = lowerTtl received)
      NoTransport := by
  unfold handleReceivedPackage
  split_ifs with hResponse hRequest hRoute hTransport hOwn hTtl
  · split
    · exact emits_halt _
    · exact Emits.of_keeps rfl (absurd · hInterfaces) rfl rfl (by simp [finish])
  · split
    · exact emits_halt _
    · rename_i cache outputs hHandled
      obtain ⟨response, rfl, hTra⟩ := handleMipArpRequest_outputs hHandled
      refine Emits.of_keeps rfl (absurd · hInterfaces) rfl rfl fun socket p hMem => ?_
      obtain ⟨rfl, rfl⟩ := Output.sendto.inj (List.mem_singleton.mp hMem)
      rw [NoTransport, hTra]
      decide
  · exact recvRouteTableBroadcast_emits
  · exact handleMIPPackageForApplication_emits
  · exact emits_finish rfl (by simp)
  · have hForward : server.MustForward received := ⟨hTransport, by simpa using hOwn, hTtl⟩
    exact (requestForwarding_emits (lowerTtl received)).mono
      (fun p hp => ⟨hp.1, hForward, hp.2⟩) fun p hp => hp
  · exact emits_finish rfl (by simp)

/-- The same for a frame, which is parsed first. -/
theorem handleRawSocketFrame_emits (fd : ℤ) (frame : List UInt8) (env : Env) :
    Emits server (server.handleRawSocketFrame fd frame env)
      (fun p => server.CanRequest env ∧ ∃ received, receivePackage frame env = some received ∧
        server.MustForward received ∧ p = lowerTtl received) NoTransport := by
  unfold handleRawSocketFrame
  split
  · rename_i received record hReceive hRecord
    have hInterfaces : server.iTable.interfaces ≠ [] :=
      List.ne_nil_of_mem (List.mem_of_getElem? hRecord)
    exact (handleReceivedPackage_emits hInterfaces fd record).mono
      (fun p hp => ⟨hp.1, received, hReceive, hp.2⟩) fun p hp => hp
  · exact emits_halt _

/-- Every message of an application can wait for the answer of routerd. -/
theorem createQueueable_eq (message : MIPDMessage) (mac : PointerBytes) :
    createQueueable message mac = some
      { eFrame := createTransportEthernetFrame ⟨mac, Vector.replicate 6 0⟩
          ⟨mac, Vector.replicate 6 0⟩
        mHeader := { createTransportMipHeader 255 message.mipAddress with
          payloadLen := BitVec.ofNat 9 (calculateMipPayloadWords message.data.length) }
        message := padMessage message.data } :=
  MIPPackage.createRaw_eq (by decide) message.size_le

/-- The package under which a message waits. -/
theorem createQueueable_eq_some {message : MIPDMessage} {mac : PointerBytes}
    (h : createQueueable message mac = some package) : MadeFor 255 package := by
  rw [createQueueable_eq] at h
  obtain rfl := Option.some.inj h
  exact ⟨rfl, rfl, rfl⟩

/-- With a routerd that can be asked, the package is put at the end of the queue and its
destination is written. -/
theorem requestForwarding_eq (hCan : server.CanRequest env) (destination : MIPAddress)
    (package : MIPPackage) :
    server.requestForwarding destination package env =
      { server with
        forwardQueue := forwardQueuePush server.forwardQueue package (env.clock 0) }.finish 1
        [.writeForward destination package] :=
  if_pos hCan

/-- A neighbour that is cached under a socket is reached. -/
theorem exists_handleDomainSocketRequest {message : MIPDMessage}
    (hInterfaces : server.iTable.interfaces ≠ [])
    (hSocket : server.cache.queryMipAddressSrcSocket message.mipAddress ≠ -1) :
    ∃ package, server.handleDomainSocketRequest message = server.finish 1
      [.sendto (server.cache.queryMipAddressSrcSocket message.mipAddress) package] := by
  obtain ⟨record, -, hRecord⟩ := InterfaceTable.exists_recordForSocket hInterfaces
    (server.cache.queryMipAddressSrcSocket message.mipAddress)
  unfold handleDomainSocketRequest
  simp only [if_neg hSocket, hRecord]
  cases hFind : server.cache.entries.find? fun entry => entry.mipAddress = message.mipAddress with
  | none => simp [MipArpCache.queryMipAddressSrcSocket, hFind] at hSocket
  | some entry =>
      simp only [MIPPackage.create_eq_some_iff.mpr ⟨message.size_le, rfl⟩]
      exact ⟨_, rfl⟩

/-- A package for a neighbour is sent under the address of an interface. -/
theorem handleDomainSocketRequest_emits (message : MIPDMessage) :
    Emits server (server.handleDomainSocketRequest message) asked
      fun p => ∃ record ∈ server.iTable.interfaces, MadeFor record.mipAddress p := by
  unfold handleDomainSocketRequest
  simp only
  split_ifs
  · exact emits_finish rfl (by simp)
  · split
    · rename_i record entry hRecord hEntry
      split
      · exact emits_halt _
      · rename_i package hCreate
        obtain ⟨-, rfl⟩ := MIPPackage.create_eq_some_iff.mp hCreate
        apply emits_finish rfl
        intro socket p hMem
        obtain ⟨rfl, rfl⟩ := Output.sendto.inj (List.mem_singleton.mp hMem)
        exact ⟨record, List.mem_of_getElem? hRecord, rfl, rfl, rfl⟩
    · exact emits_halt _

/-- A message of the application makes one package, queued under the address 255 or sent at once
under that of an interface. Its ttl is 15. -/
theorem handleApplicationMessage_emits (message : MIPDMessage) :
    Emits server (server.handleApplicationMessage message env)
      (fun p => server.CanRequest env ∧ MadeFor 255 p)
      fun p => ∃ record ∈ server.iTable.interfaces, MadeFor record.mipAddress p := by
  unfold handleApplicationMessage
  simp only
  split
  · split
    · exact emits_halt _
    · rename_i package hCreate
      have hMade := createQueueable_eq_some hCreate
      exact (requestForwarding_emits package).mono (fun p hp => ⟨hp.1, hp.2 ▸ hMade⟩) fun p hp => hp
  · exact handleDomainSocketRequest_emits message

/-- The same for what is read from the application, whatever the bytes are. -/
theorem appBranch_emits : Emits server (server.appBranch event env)
    (fun p => server.CanRequest env ∧ MadeFor 255 p)
    fun p => ∃ record ∈ server.iTable.interfaces, MadeFor record.mipAddress p := by
  unfold appBranch
  simp only
  split_ifs
  · exact Emits.of_keeps rfl (fun _ => rfl) rfl rfl (by simp [finish])
  · exact emits_finish rfl (by simp)
  · split
    · exact emits_halt _
    · exact handleApplicationMessage_emits _

/-- Tables that are broadcast are no transport packages. -/
theorem routeBranch_emits : Emits server (server.routeBranch event env) asked NoTransport := by
  unfold routeBranch
  split_ifs
  · exact Emits.of_keeps rfl (fun _ => rfl) rfl rfl (by simp [finish])
  · split
    · exact emits_halt _
    · rename_i outputs hBroadcast
      have hFrames : ∀ output ∈ outputs, ∃ socket package,
          output = .sendto socket package ∧ NoTransport package := by
        intro output hMem
        obtain ⟨record, -, hFrame⟩ := mem_broadcastRouteTable hBroadcast hMem
        obtain ⟨-, package, -, rfl, -, hHeader⟩ := broadcastOnInterface_eq_ok hFrame
        exact ⟨_, package, rfl, by simp [NoTransport, hHeader]⟩
      exact emits_frames hFrames

theorem acceptOn_emits (connect : ℤ → MIPDServer)
    (hTable : ∀ fd, (connect fd).iTable = server.iTable)
    (hCache : ∀ fd, (connect fd).cache = server.cache)
    (hQueue : ∀ fd, (connect fd).forwardQueue = server.forwardQueue) :
    Emits server (server.acceptOn event connect) asked sent := by
  unfold acceptOn
  split_ifs
  · exact emits_halt _
  · exact Emits.of_keeps (hTable _) (fun _ => hCache _) (hQueue _) rfl (by simp [finish])

/-- The branches that do not hold the connection for forwarding. -/
theorem branch_emits (env : Env) (hSource : server.source event.fd ≠ .forwardConnection) :
    Emits server (server.branch event env)
      (fun p => server.CanRequest env ∧ (server.source event.fd = .rawSocket ∧ (∃ received,
          receivePackage event.data env = some received ∧ server.MustForward received ∧
            p = lowerTtl received) ∨
        server.source event.fd = .appConnection ∧ MadeFor 255 p))
      (fun p => NoTransport p ∨ server.source event.fd = .appConnection ∧
        ∃ record ∈ server.iTable.interfaces, MadeFor record.mipAddress p) := by
  cases hCase : server.source event.fd with
  | appListening =>
      simp only [branch, hCase]
      exact acceptOn_emits _ (fun _ => rfl) (fun _ => rfl) fun _ => rfl
  | routeListening =>
      simp only [branch, hCase]
      exact acceptOn_emits _ (fun _ => rfl) (fun _ => rfl) fun _ => rfl
  | forwardListening =>
      simp only [branch, hCase]
      exact acceptOn_emits _ (fun _ => rfl) (fun _ => rfl) fun _ => rfl
  | routeConnection =>
      simp only [branch, hCase]
      exact routeBranch_emits.mono (fun p hp => hp) fun p hp => Or.inl hp
  | forwardConnection => exact absurd hCase hSource
  | rawSocket =>
      simp only [branch, hCase]
      exact (handleRawSocketFrame_emits _ _ _).mono (fun p hp => ⟨hp.1, Or.inl ⟨trivial, hp.2⟩⟩)
        fun p hp => Or.inl hp
  | appConnection =>
      simp only [branch, hCase]
      exact appBranch_emits.mono (fun p hp => ⟨hp.1, Or.inr ⟨trivial, hp.2⟩⟩)
        fun p hp => Or.inr ⟨trivial, hp⟩
  | stdin =>
      simp only [branch, hCase]
      exact Emits.of_keeps rfl (fun _ => rfl) rfl rfl (by simp [finish])
  | unknown =>
      simp only [branch, hCase]
      exact emits_finish rfl (by simp)

/-- The package that is sent after an answer is the one that waited, under an address of the
interface it leaves on. -/
theorem loadForwardPackage_eq_ok {waiting : Option MIPPackage} {nextHop : MIPAddress}
    (h : server.loadForwardPackage waiting nextHop = .ok package) :
    ∃ p, waiting = some p ∧ SentOn server.iTable p package := by
  unfold loadForwardPackage at h
  simp only at h
  split_ifs at h with hSocket
  split at h
  · rename_i record entry p hRecord hEntry
    exact ⟨p, rfl, _, record, List.mem_of_getElem? hRecord, (Except.ok.inj h).symm⟩
  · cases h

@[simp] theorem forwardQueuePop_queue (queue : List ForwardQueueEntry) :
    (forwardQueuePop queue).2 = queue.tail := by
  cases queue with
  | nil => rfl
  | cons entry rest => rfl

/-- The head of the queue is what is answered next. -/
theorem forwardQueuePop_package (server : MIPDServer) :
    (forwardQueuePop server.forwardQueue).1 = server.queued.head? := by
  unfold queued
  cases server.forwardQueue with
  | nil => rfl
  | cons entry rest => rfl

/-- An answer takes one package off the queue and sends at most this one. -/
theorem handleForwardResponse_answers (nextHop : MIPAddress) :
    Answers server (server.handleForwardResponse nextHop) := by
  have hPop := forwardQueuePop_package server
  unfold handleForwardResponse
  simp only
  split
  · refine ⟨rfl, rfl, ?_, rfl, by simp [halt]⟩
    simp [halt, queued, List.map_tail]
  · rename_i package hLoad
    obtain ⟨waiting, hHead, hSent⟩ := loadForwardPackage_eq_ok hLoad
    refine ⟨rfl, rfl, ?_, rfl, ?_⟩
    · simp [finish, queued, List.map_tail]
    · intro socket p hMem
      obtain ⟨rfl, rfl⟩ := Output.sendto.inj (List.mem_singleton.mp hMem)
      exact ⟨waiting, hPop ▸ hHead, hSent⟩

/-- One byte is one answer, so packages leave the queue in the order in which they were asked
about. -/
theorem forwardBranch_answers (hData : event.data ≠ []) :
    Answers server (server.forwardBranch event) := by
  unfold forwardBranch
  split
  · exact absurd ‹_› hData
  · split_ifs
    · exact handleForwardResponse_answers _
    · split
      · rename_i rest hPop
        have hEmpty : server.forwardQueue = [] := by
          cases hQueue : server.forwardQueue with
          | nil => rfl
          | cons entry rest => simp [hQueue, forwardQueuePop] at hPop
        exact ⟨rfl, rfl, by simp [halt, queued, hEmpty], rfl, by simp [halt]⟩
      · rename_i waiting rest hPop
        have hRest := forwardQueuePop_queue server.forwardQueue
        rw [hPop] at hRest
        refine ⟨rfl, rfl, ?_, rfl, by simp [finish]⟩
        simp [finish, queued, show rest = _ from hRest, List.map_tail]

/-- Only ARP requests are sent before the first round of events. -/
theorem completeMipArp_noTransport {table : InterfaceTable} (cache : MipArpCache)
    (now : ℤ) {socket : ℤ}
    (hMem : .sendto socket package ∈ (MipArpCache.completeMipArp table cache now).2) :
    NoTransport package := by
  obtain ⟨record, -, hOutput⟩ := List.mem_map.mp hMem
  obtain ⟨-, rfl⟩ := Output.sendto.inj hOutput
  simp [NoTransport, MIPPackage.createMipArpRequestPacket, MIPPackage.createHeaders,
    createArpRequestMipHeader]

theorem startRun_noTransport {now socket : ℤ}
    (hMem : .sendto socket package ∈ (server.startRun now).2) : NoTransport package :=
  completeMipArp_noTransport server.cache now hMem

theorem tick_noTransport {clock : Clock} {socket : ℤ}
    (hMem : .sendto socket package ∈ (server.tick clock).2) : NoTransport package := by
  unfold tick MipArpCache.updateArpCache at hMem
  simp only at hMem
  split_ifs at hMem
  · exact completeMipArp_noTransport _ _ hMem
  · cases hMem

/-- Between two rounds of events no neighbour is cached. -/
theorem tick_entries (server : MIPDServer) (clock : Clock) :
    (server.tick clock).1.cache.entries.Sublist server.cache.entries := by
  unfold tick MipArpCache.updateArpCache
  simp only
  split_ifs
  · exact MipArpCache.sweep_sublist _ _ _ _ _
  · exact MipArpCache.sweep_sublist _ _ _ _ _

end MIPDServer

end MipStack
