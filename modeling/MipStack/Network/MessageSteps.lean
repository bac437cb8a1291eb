import MipStack.Network.Delivery
import MipStack.Network.Parcels

/-! What mipd makes of one message at a time: at most one package, or one message for the
application. Anything else that it does is about no message. -/
namespace MipStack
open MIPDServer

/-- No output, or one for the message in hand. -/
inductive Yields (asked sent : MIPPackage → Prop) (given : List UInt8 → Prop) :
    List Output → Prop where
  | nothing : Yields asked sent given []
  | asks {destination : MIPAddress} {package : MIPPackage} (h : asked package) :
      Yields asked sent given [.writeForward destination package]
  | sends {socket : ℤ} {package : MIPPackage} (hTra : package.mHeader.tra = 3)
      (h : sent package) : Yields asked sent given [.sendto socket package]
  | gives {bytes : List UInt8} (h : given bytes) : Yields asked sent given [.sendApp bytes]

/-- None of the outputs is for a message. -/
structure Silent (outputs : List Output) : Prop where
  requests : outputs.filterMap Output.forwardRequest = []
  packages : outputs.filterMap Output.transport = []
  given : outputs.filterMap Output.appBytes = []

/-- The application with these addresses is given what is left of the message. -/
def Receives (iTable : InterfaceTable) (message : MIPDMessage) (src : MIPAddress)
    (bytes : List UInt8) : Prop :=
  (iTable.getInterfacePosForMipAddress message.mipAddress).isSome ∧
    ∃ received : MIPDMessage, bytes = received.toBytes ∧ received.mipAddress = src ∧
      Delivered message received

variable {server : MIPDServer} {event : Event} {env : Env} {message : MIPDMessage}
  {first package waiting : MIPPackage} {src : MIPAddress} {outputs : List Output} {o : Outcome}
  {asked asked' sent sent' : MIPPackage → Prop} {given given' : List UInt8 → Prop}

theorem Yields.mono (h : Yields asked sent given outputs) (hAsked : ∀ p, asked p → asked' p)
    (hSent : ∀ p, sent p → sent' p) (hGiven : ∀ bytes, given bytes → given' bytes) :
    Yields asked' sent' given' outputs := by
  cases h with
  | nothing => exact .nothing
  | asks h => exact .asks (hAsked _ h)
  | sends hTra h => exact .sends hTra (hSent _ h)
  | gives h => exact .gives (hGiven _ h)

/-- If none of the outputs for a message can be, there is no output about any. -/
theorem Yields.eq_nil (h : Yields asked sent given outputs) (hAsked : ∀ p, ¬ asked p)
    (hSent : ∀ p, ¬ sent p) (hGiven : ∀ bytes, ¬ given bytes) : outputs = [] := by
  cases h with
  | nothing => rfl
  | asks h => exact absurd h (hAsked _)
  | sends hTra h => exact absurd h (hSent _)
  | gives h => exact absurd h (hGiven _)

/-- What consists of ARP frames moves no message of an application. -/
theorem silent_of_frames
    (hFrames : ∀ output ∈ outputs, ∃ socket p, output = .sendto socket p ∧ NoTransport p) :
    Silent outputs := by
  refine ⟨?_, ?_, ?_⟩
  · rw [List.filterMap_eq_nil_iff]
    intro output hMem
    obtain ⟨socket, p, rfl, -⟩ := hFrames output hMem
    rfl
  · rw [List.filterMap_eq_nil_iff]
    intro output hMem
    obtain ⟨socket, p, rfl, hKind⟩ := hFrames output hMem
    exact if_neg hKind
  · rw [List.filterMap_eq_nil_iff]
    intro output hMem
    obtain ⟨socket, p, rfl, -⟩ := hFrames output hMem
    rfl

/-- A handler that queues nothing, sends no transport package and gives nothing away. -/
theorem Emits.silent (h : Emits server o (fun _ => False) NoTransport)
    (hGiven : ∀ bytes, .sendApp bytes ∉ o.outputs) : Silent o.outputs := by
  refine ⟨?_, ?_, ?_⟩
  · rw [List.eq_nil_iff_forall_not_mem]
    exact fun request hMem => (h.requests request hMem).2
  · rw [List.filterMap_eq_nil_iff]
    intro output hMem
    cases output with
    | sendto socket package => exact if_neg (h.sends socket package hMem)
    | _ => rfl
  · rw [List.filterMap_eq_nil_iff]
    intro output hMem
    cases output with
    | sendApp bytes => exact absurd hMem (hGiven bytes)
    | _ => rfl

namespace MIPDServer

theorem completeMipArp_silent (table : InterfaceTable) (cache : MipArpCache) (now : ℤ) :
    Silent (MipArpCache.completeMipArp table cache now).2 := by
  apply silent_of_frames
  intro output hMem
  obtain ⟨record, -, rfl⟩ := List.mem_map.mp hMem
  exact ⟨_, _, rfl, completeMipArp_noTransport cache now hMem⟩

theorem startRun_silent (now : ℤ) : Silent (server.startRun now).2 :=
  completeMipArp_silent server.iTable server.cache now

theorem tick_silent (clock : Clock) : Silent (server.tick clock).2 := by
  unfold tick MipArpCache.updateArpCache
  simp only
  split_ifs
  · exact completeMipArp_silent _ _ _
  · exact ⟨rfl, rfl, rfl⟩

/-- A request moves one package into the queue, or none if routerd cannot be asked. -/
theorem requestForwarding_yields (hAsked : asked package) (destination : MIPAddress) :
    Yields asked sent given (server.requestForwarding destination package env).outputs := by
  unfold requestForwarding
  split_ifs
  · exact .asks hAsked
  · exact .nothing

/-- A message is asked about under no source address, or sent under that of an interface. -/
theorem handleApplicationMessage_yields (server : MIPDServer) (message : MIPDMessage)
    (env : Env) : Yields (MadeOf message 255)
      (fun p => ∃ record ∈ server.iTable.interfaces, MadeOf message record.mipAddress p)
      (fun _ => False) (server.handleApplicationMessage message env).outputs := by
  by_cases hUnknown : server.cache.queryMipAddressSrcSocket message.mipAddress = -1
  · have hDirect : server.handleDomainSocketRequest message = server.finish 0 [] := if_pos hUnknown
    rw [handleApplicationMessage, hDirect, createQueueable_eq]
    exact requestForwarding_yields ⟨rfl, rfl⟩ _
  · by_cases hInterfaces : server.iTable.interfaces = []
    · have hRecord : server.iTable.recordForSocket
          (server.cache.queryMipAddressSrcSocket message.mipAddress) = none := by
        rw [InterfaceTable.recordForSocket, hInterfaces]
        rfl
      have hDirect : server.handleDomainSocketRequest message = server.halt .fault := by
        simp only [handleDomainSocketRequest, if_neg hUnknown, hRecord]
      rw [handleApplicationMessage, hDirect]
      exact .nothing
    · obtain ⟨package, record, hMem, hSent, hMade⟩ :=
        server.exists_handleApplicationMessage hInterfaces env hUnknown
      rw [hSent]
      exact .sends (by rw [hMade.header]; rfl) ⟨record, hMem, hMade⟩

/-- A package that arrives is given to the application, asked about or dropped, and exactly one of
these. -/
theorem receive_yields (hMade : MadeOf message src first) (hFirst : Transportable first)
    (hSame : SameCargo first package) {fd : ℤ} (hSource : server.source fd = .rawSocket)
    (pointer : PointerBytes) (env : Env) :
    Yields (SameCargo first) (fun _ => False) (Receives server.iTable message src)
      (server.branch ⟨fd, sendtoRawMipPackage package pointer, -1⟩ env).outputs := by
  have hPackage := hFirst.of_sameCargo hSame
  obtain ⟨received, hReceive, hHeader, hArrived⟩ := hPackage.exists_receivePackage pointer env
  have hDst : package.mHeader.dstAddr = message.mipAddress := by
    rw [hSame.header, hMade.header]
    rfl
  have hBranch : server.branch ⟨fd, sendtoRawMipPackage package pointer, -1⟩ env =
      if (server.iTable.getInterfacePosForMipAddress message.mipAddress).isSome then
        server.handleMIPPackageForApplication received
      else if received.mHeader.ttl = 0 then server.finish 0 []
      else server.requestForwarding message.mipAddress (lowerTtl received) env := by
    simp only [branch, hSource]
    rw [handleRawSocketFrame_transport hReceive (hHeader ▸ hPackage.tra)
      (interfaces_ne_nil_of_source hSource), hHeader, hDst]
  by_cases hOwn : (server.iTable.getInterfacePosForMipAddress message.mipAddress).isSome
  · by_cases hConnected : server.appSocket.connectedSocketFd = -1
    · rw [hBranch, if_pos hOwn, handleMIPPackageForApplication, if_pos hConnected]
      exact .nothing
    · let arrival : Arrival := ⟨server, fd, pointer, env⟩
      have hAccepts : arrival.Accepts message.mipAddress := ⟨hSource, hOwn, hConnected⟩
      obtain ⟨read, hOutputs, hSrc, hDelivered⟩ := hAccepts.delivered hMade hFirst hSame
      rw [show (server.branch _ env).outputs = arrival.outputs package from rfl, hOutputs]
      exact .gives ⟨hOwn, read, rfl, hSrc, hDelivered⟩
  · rw [hBranch, if_neg hOwn]
    split_ifs
    · exact .nothing
    · exact requestForwarding_yields
        (hSame.trans (hArrived.trans (lowerTtl_sameCargo received))) _

/-- An answer sends the oldest package, if it can be sent. One whose next hop is not known is
gone. -/
theorem answer_yields (hData : event.data ≠ [])
    (hTra : ∀ waiting ∈ server.queued.head?, waiting.mHeader.tra = 3) :
    Yields (fun _ => False) (fun p => ∃ waiting, server.queued.head? = some waiting ∧
      SentOn server.iTable waiting p) (fun _ => False) (server.forwardBranch event).outputs := by
  have hPop := forwardQueuePop_package server
  unfold forwardBranch
  split
  · exact absurd ‹_› hData
  · split_ifs
    · unfold handleForwardResponse
      simp only
      split
      · exact .nothing
      · rename_i package hLoad
        obtain ⟨waiting, hWaiting, hSent⟩ := loadForwardPackage_eq_ok hLoad
        have hHead : server.queued.head? = some waiting := hPop ▸ hWaiting
        refine .sends ?_ ⟨waiting, hHead, hSent⟩
        obtain ⟨eFrame, record, -, rfl⟩ := hSent
        exact hTra waiting hHead
    · split
      · exact .nothing
      · exact .nothing

/-- Other packages are not given to the application: only transport packages for an address of the
host are. -/
theorem handleReceivedPackage_gives_none {received : MIPPackage} {fd : ℤ}
    {record : InterfaceRecord} (hTra : received.mHeader.tra ≠ 3) {bytes : List UInt8} :
    .sendApp bytes ∉ (server.handleReceivedPackage fd record received env).outputs := by
  unfold handleReceivedPackage
  split_ifs with hResponse hRequest hRoute
  · split
    · exact List.not_mem_nil
    · exact List.not_mem_nil
  · split
    · exact List.not_mem_nil
    · rename_i cache outputs hHandled
      obtain ⟨response, rfl, -⟩ := handleMipArpRequest_outputs hHandled
      simp [finish]
  · unfold recvRouteTableBroadcast
    split_ifs
    · exact List.not_mem_nil
    · simp [finish]
  · exact List.not_mem_nil

theorem acceptOn_gives_none (connect : ℤ → MIPDServer) {bytes : List UInt8} :
    .sendApp bytes ∉ (server.acceptOn event connect).outputs := by
  unfold acceptOn
  split_ifs
  · exact List.not_mem_nil
  · simp [finish]

theorem routeBranch_gives_none {bytes : List UInt8} :
    .sendApp bytes ∉ (server.routeBranch event env).outputs := by
  unfold routeBranch
  split_ifs
  · simp [finish]
  · split
    · exact List.not_mem_nil
    · rename_i outputs hBroadcast
      intro hMem
      obtain ⟨record, -, hFrame⟩ := mem_broadcastRouteTable hBroadcast hMem
      obtain ⟨-, package, -, hSend, -⟩ := broadcastOnInterface_eq_ok hFrame
      cases hSend

/-- Events that are no message, no answer and no transport package. -/
theorem branch_silent (hApp : server.source event.fd ≠ .appConnection)
    (hForward : server.source event.fd ≠ .forwardConnection)
    (hRaw : server.source event.fd = .rawSocket → (receivedHeader event.data).tra ≠ 3) :
    Silent (server.branch event env).outputs := by
  refine Emits.silent ((branch_emits env hForward).mono ?_ ?_) ?_
  · rintro p ⟨-, ⟨hSource, received, hReceive, hMust, -⟩ | ⟨hSource, -⟩⟩
    · obtain ⟨empty, -, hRecv⟩ := Option.bind_eq_some_iff.mp hReceive
      exact hRaw hSource ((recvRawMipPackage_eq_some hRecv).1 ▸ hMust.1)
    · exact hApp hSource
  · rintro p (hOther | ⟨hSource, -⟩)
    · exact hOther
    · exact absurd hSource hApp
  · intro bytes
    cases hSource : server.source event.fd with
    | appListening =>
        simp only [branch, hSource]
        exact acceptOn_gives_none _
    | routeListening =>
        simp only [branch, hSource]
        exact acceptOn_gives_none _
    | forwardListening =>
        simp only [branch, hSource]
        exact acceptOn_gives_none _
    | routeConnection =>
        simp only [branch, hSource]
        exact routeBranch_gives_none
    | forwardConnection => exact absurd hSource hForward
    | rawSocket =>
        simp only [branch, hSource]
        unfold handleRawSocketFrame
        split
        · rename_i received record hReceive hRecord
          obtain ⟨empty, -, hRecv⟩ := Option.bind_eq_some_iff.mp hReceive
          rw [← (recvRawMipPackage_eq_some hRecv).1] at hRaw
          exact handleReceivedPackage_gives_none (hRaw hSource)
        · exact List.not_mem_nil
    | appConnection => exact absurd hSource hApp
    | stdin =>
        simp only [branch, hSource]
        exact List.not_mem_nil
    | unknown =>
        simp only [branch, hSource]
        exact List.not_mem_nil

/-- Nor is a chunk that no message is taken from. -/
theorem appBranch_silent
    (hNone : ∀ message, readMessage (event.data.take maxMipMessageDataSize) ≠ .ok (some message)) :
    Silent (server.appBranch event env).outputs := by
  have hRead : (server.appBranch event env).outputs = [] ∨
      (server.appBranch event env).outputs = [.close event.fd] := by
    unfold appBranch
    simp only
    split_ifs with hEnd hSmall
    · exact Or.inr rfl
    · exact Or.inl rfl
    · rw [readMessage, if_neg hSmall, readBuffer] at hNone
      split
      · exact Or.inl rfl
      · rename_i message hMessage
        simp only [hMessage] at hNone
        exact absurd rfl (hNone message)
  rcases hRead with hOutputs | hOutputs
  · rw [hOutputs]
    exact ⟨rfl, rfl, rfl⟩
  · rw [hOutputs]
    exact ⟨rfl, rfl, rfl⟩

/-- What is parsed of the bytes read is handled as a message. -/
theorem appBranch_of_readMessage
    (hRead : readMessage (event.data.take maxMipMessageDataSize) = .ok (some message)) :
    server.appBranch event env = server.handleApplicationMessage message env := by
  have hSome : event.data.take maxMipMessageDataSize ≠ [] := by
    rintro hNil
    rw [hNil] at hRead
    cases hRead
  have hSize : (event.data.take maxMipMessageDataSize).length ≤ maxMipMessageDataSize :=
    List.length_take_le _ _
  have hTaken := server.appBranch_eq_handleTaken event.fd event.accepted env hSome hSize
  rw [hRead] at hTaken
  rw [← show server.appBranch ⟨event.fd, event.data.take maxMipMessageDataSize, event.accepted⟩
    env = server.handleApplicationMessage message env from hTaken]
  simp only [appBranch, List.take_take, min_self]

end MIPDServer

end MipStack
