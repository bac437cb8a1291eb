import MipStack.Mipd.Availability
import MipStack.Mipd.DirectRouted
import MipStack.Mipd.ForwardAnswers
import MipStack.Mipd.WireContents
import MipStack.Network.PackageLifetime

/-! One hop of a transport package: a mipd that receives it, asks its routerd, and sends it
on once it reads the answer, with anything else it does in between. -/
namespace MipStack
open Execution MIPDServer

/-- What a hop leaves as it is: the header but for the ttl, the size of the payload, and as
much of it as the receive buffer has room for. -/
structure SameCargo (package package' : MIPPackage) : Prop where
  header : package'.mHeader = { package.mHeader with ttl := package'.mHeader.ttl }
  length : package'.payload.length = package.payload.length
  start : package'.payload.take payloadRoom = package.payload.take payloadRoom

/-- A transport package with a source and with the payload that its header announces. -/
structure Transportable (package : MIPPackage) : Prop where
  tra : package.mHeader.tra = 3
  src : package.mHeader.srcAddr ≠ 255
  length : package.payload.length = package.mHeader.payloadLen.toNat * mipPayloadWord
  fits : package.payload.length ≤ payloadMaxSizeBytes

/-- The longest frame that an Ethernet link takes, its header and 1500 bytes. -/
def maxFrameSize : ℕ := 1514

/-- A link takes the frame. -/
def FitsLink (package : MIPPackage) : Prop :=
  sizeofMIPPackage + package.payload.length ≤ maxFrameSize

instance (package : MIPPackage) : Decidable (FitsLink package) :=
  inferInstanceAs (Decidable (_ ≤ _))

/-- The frame that gets onto the wire. The call that sends a longer one fails. -/
def Output.frame : Output → Option (ℤ × MIPPackage)
  | .sendto socket package => if FitsLink package then some (socket, package) else none
  | _ => none

/-- A mipd that gets a message or a package on `fd`: its state before, what happens there until
it reads the answer of routerd on `answerFd`, and the answer. -/
structure Stop where
  daemon : Daemon
  fd : ℤ
  env : Env
  meanwhile : List Daemon.Action
  answerFd : ℤ
  nextHop : MIPAddress

namespace Stop

/-- What mipd does with the bytes at once. -/
def handled (stop : Stop) (bytes : List UInt8) : Outcome :=
  stop.daemon.server.branch ⟨stop.fd, bytes, -1⟩ stop.env

def actions (stop : Stop) (bytes : List UInt8) : List Daemon.Action :=
  .handle ⟨stop.fd, bytes, -1⟩ stop.env :: stop.meanwhile

/-- The state in which the answer is read. -/
def answering (stop : Stop) (bytes : List UInt8) : Daemon :=
  (stop.actions bytes).foldl Daemon.perform stop.daemon

/-- What mipd does with the answer. -/
def answered (stop : Stop) (bytes : List UInt8) : Outcome :=
  (stop.answering bytes).server.branch ⟨stop.answerFd, [stop.nextHop], -1⟩ stop.env

/-- The frame that gets onto a wire, at once or after the answer, and the socket it is sent
on. -/
def sent (stop : Stop) (bytes : List UInt8) : Option (ℤ × MIPPackage) :=
  match (stop.handled bytes).outputs.findSome? Output.frame with
  | some frame => some frame
  | none =>
    if (stop.handled bytes).requests = [] then none
    else (stop.answered bytes).outputs.findSome? Output.frame

/-- No connection with routerd ends while packages wait, and what routerd is asked about the
bytes is answered with the next hop. -/
structure Operates (stop : Stop) (bytes : List UInt8) : Prop where
  matched : stop.daemon.Matched
  canRequest : stop.daemon.server.CanRequest stop.env
  runs : Runs (fun s action => s.Enabled action ∧ s.EndsIdle action) Daemon.perform stop.daemon
    (stop.actions bytes)
  answers : ∀ request ∈ (stop.handled bytes).requests,
    (stop.answering bytes).connection.answers.head? = some (stop.nextHop, request) ∧
      (stop.answering bytes).server.source stop.answerFd = .forwardConnection

/-- If routerd is asked, it names a cached neighbour. -/
structure Ready (stop : Stop) (bytes : List UInt8) : Prop extends stop.Operates bytes where
  interfaces : stop.daemon.server.iTable.interfaces ≠ []
  cached : (stop.handled bytes).requests ≠ [] → stop.nextHop ≠ 255 ∧
    (stop.answering bytes).server.cache.queryMipAddressSrcSocket stop.nextHop ≠ -1

end Stop

variable {package package' package'' received waiting : MIPPackage} {pointer : PointerBytes}
  {env : Env} {server : MIPDServer} {s : Daemon} {stop : Stop} {nextHop : MIPAddress}
  {bytes : List UInt8} {request : ForwardRequest}

theorem SameCargo.refl (package : MIPPackage) : SameCargo package package := ⟨rfl, rfl, rfl⟩

theorem SameCargo.trans (h : SameCargo package package') (h' : SameCargo package' package'') :
    SameCargo package package'' := by
  refine ⟨?_, h'.length.trans h.length, h'.start.trans h.start⟩
  rw [h'.header, h.header]

theorem Transportable.of_sameCargo (h : Transportable package)
    (hSame : SameCargo package package') : Transportable package' := by
  have hHeader := hSame.header
  refine ⟨?_, ?_, ?_, ?_⟩
  · rw [hHeader]
    exact h.tra
  · rw [hHeader]
    exact h.src
  · rw [hSame.length, h.length, hHeader]
  · rw [hSame.length]
    exact h.fits

/-- The bytes of the frame are as many as the link takes. -/
theorem fitsLink_iff (package : MIPPackage) (pointer : PointerBytes) :
    FitsLink package ↔ (sendtoRawMipPackage package pointer).length ≤ maxFrameSize := by
  rw [sendto_length, FitsLink, sizeofMIPPackage]
  omega

/-- What fits on the first link fits on every one, as relays change neither length nor payload. -/
theorem FitsLink.of_sameCargo (h : FitsLink package) (hSame : SameCargo package package') :
    FitsLink package' := by
  rw [FitsLink, hSame.length]
  exact h

/-- A package as it is made, with a source. -/
theorem transportable_of_create {eFrame : EtherFrame} {mHeader : MIPHeader}
    {message : List UInt8} (h : MIPPackage.create eFrame mHeader message = some package)
    (hTra : mHeader.tra = 3) (hSrc : mHeader.srcAddr ≠ 255) : Transportable package := by
  have hPayload := MIPPackage.payload_of_create h
  have hLength := MIPPackage.payload_length_of_create h
  obtain ⟨hFits, rfl⟩ := MIPPackage.create_eq_some_iff.mp h
  refine ⟨hTra, hSrc, ?_, ?_⟩
  · rw [hPayload, hLength]
  · rw [hPayload, padMessage_length]
    have hWords := length_le_payload_words message.length
    unfold payloadMaxSizeBytes mipPayloadWord at *
    omega

theorem arrivingPayload_take (payload : List UInt8) (heap : ℕ → UInt8) :
    (arrivingPayload payload heap).take payloadRoom = payload.take payloadRoom := by
  rcases Nat.le_total payload.length payloadRoom with hShort | hLong
  · rw [arrivingPayload_of_le hShort]
  · exact List.take_left' (List.length_take_of_le hLong)

/-- What a host receives of a package on the wire: the same header, and the payload as far as it
arrives. -/
theorem Transportable.exists_receivePackage (h : Transportable package) (pointer : PointerBytes)
    (env : Env) : ∃ received, receivePackage (sendtoRawMipPackage package pointer) env =
        some received ∧ received.mHeader = package.mHeader ∧ SameCargo package received := by
  obtain ⟨empty, hEmpty, hRoom⟩ := MIPPackage.exists_createEmpty
  let received : MIPPackage := { package with
    message := arrivingPayload package.payload env.heap ++
      empty.message.drop package.payload.length }
  have hRecv : recvRawMipPackage (sendtoRawMipPackage package pointer) env.heap empty =
      some received := recv_sendto pointer env.heap h.length (hRoom ▸ h.fits)
  have hPayload : received.payload = arrivingPayload package.payload env.heap := by
    rw [MIPPackage.payload, ← h.length, List.take_left' (arrivingPayload_length _ _)]
  refine ⟨received, ?_, rfl, rfl, ?_, ?_⟩
  · unfold receivePackage
    rw [hEmpty, Option.bind_some, hRecv]
  · rw [hPayload, arrivingPayload_length]
  · rw [hPayload, arrivingPayload_take]

theorem SentOn.sameCargo {iTable : InterfaceTable} (h : SentOn iTable waiting package)
    (hSrc : waiting.mHeader.srcAddr ≠ 255) :
    package.mHeader = waiting.mHeader ∧ SameCargo waiting package := by
  obtain ⟨eFrame, record, -, rfl⟩ := h
  simp only [if_neg hSrc]
  exact ⟨trivial, rfl, rfl, rfl⟩

theorem lowerTtl_sameCargo (received : MIPPackage) : SameCargo received (lowerTtl received) :=
  ⟨rfl, rfl, rfl⟩

namespace MIPDServer

/-- A transport package is for the application here, or used up, or asked about. The order of
these tests is that of the source. -/
theorem handleRawSocketFrame_transport {fd : ℤ} {frame : List UInt8}
    (hReceive : receivePackage frame env = some received) (hTra : received.mHeader.tra = 3)
    (hInterfaces : server.iTable.interfaces ≠ []) :
    server.handleRawSocketFrame fd frame env =
      if (server.iTable.getInterfacePosForMipAddress received.mHeader.dstAddr).isSome then
        server.handleMIPPackageForApplication received
      else if received.mHeader.ttl = 0 then server.finish 0 []
      else server.requestForwarding received.mHeader.dstAddr (lowerTtl received) env := by
  obtain ⟨record, -, hRecord⟩ := InterfaceTable.exists_recordForSocket hInterfaces fd
  unfold handleRawSocketFrame
  rw [hReceive, hRecord]
  show server.handleReceivedPackage fd record received env = _
  rw [handleReceivedPackage, if_neg (by rw [hTra]; decide), if_neg (by rw [hTra]; decide),
    if_neg (by rw [hTra]; decide), if_pos hTra]
  rfl

/-- Reading the answer of routerd sends the oldest waiting package, under the address of the
interface it leaves on. -/
theorem forwardBranch_outputs (fd accepted : ℤ) (hFound : nextHop ≠ 255)
    (hHead : server.queued.head? = some waiting) :
    (server.forwardBranch ⟨fd, [nextHop], accepted⟩).outputs =
      match server.loadForwardPackage (some waiting) nextHop with
      | .error _ => []
      | .ok package => [.sendto (server.cache.queryMipAddressSrcSocket nextHop) package] := by
  have hBranch : server.forwardBranch ⟨fd, [nextHop], accepted⟩ =
      server.handleForwardResponse nextHop := if_pos (bne_iff_ne.mpr hFound)
  rw [hBranch]
  exact handleForwardResponse_outputs hHead

end MIPDServer

namespace Daemon

instance (s : Daemon) (action : Action) : Decidable (s.EndsConnection action) :=
  match action with
  | .handle _ _ => inferInstanceAs (Decidable (_ ∧ _ ∨ _ ∧ _))
  | .tick _ => isFalse id
  | .answer _ => isFalse id
  | .disconnect => isFalse id

instance (s : Daemon) (action : Action) : Decidable (s.EndsIdle action) :=
  inferInstanceAs (Decidable (_ → _))

/-- The package of the answer that is read next waits longest, so the answer meets its package. -/
theorem Matched.head_queued (h : Matched s) {answer : MIPAddress × ForwardRequest}
    (hAnswer : s.connection.answers.head? = some answer) :
    s.server.queued.head? = some answer.2.package := by
  refine (queueMatches_iff_pipeline.mp h.queue).oldest ?_
  show s.connection.unanswered.head? = some answer.2
  rw [ForwardConnection.unanswered, List.head?_append, List.head?_map, hAnswer]
  rfl

/-- The interfaces of a host stay as they were collected at the start. -/
theorem perform_iTable (s : Daemon) (action : Action) :
    (s.perform action).server.iTable = s.server.iTable := by
  cases action with
  | handle event env => exact (handle_interfaces s event env).1
  | tick clock => rfl
  | answer nextHop => rw [(perform_answer s nextHop).1]
  | disconnect => rfl

/-- Whatever happens without a connection ending too early, packages and requests match. A relay
may be busy with other messages. -/
theorem Matched.foldl {actions : List Action} (h : Matched s)
    (hRuns : Runs (fun s action => s.Enabled action ∧ s.EndsIdle action) Daemon.perform s actions) :
    Matched (actions.foldl Daemon.perform s) ∧
      (actions.foldl Daemon.perform s).server.iTable = s.server.iTable := by
  induction actions generalizing s with
  | nil => exact ⟨h, rfl⟩
  | cons action rest ih =>
      obtain ⟨⟨hEnabled, hIdle⟩, hRest⟩ := hRuns
      obtain ⟨hMatched, hTable⟩ := ih (h.perform hEnabled hIdle) hRest
      exact ⟨hMatched, hTable.trans (perform_iTable s action)⟩

end Daemon

namespace Stop

/-- What is asked about is sent where the answer says, whatever comes in between, if the link
takes it. -/
theorem Ready.exists_sent (h : stop.Ready bytes)
    (hSilent : (stop.handled bytes).outputs.findSome? Output.frame = none)
    (hRequests : (stop.handled bytes).requests = [request]) : ∃ package,
      stop.sent bytes = (if FitsLink package then some
        ((stop.answering bytes).server.cache.queryMipAddressSrcSocket stop.nextHop, package)
        else none) ∧
      SentOn stop.daemon.server.iTable request.package package := by
  obtain ⟨hAnswer, hSource⟩ := h.answers request (hRequests ▸ List.mem_singleton_self request)
  obtain ⟨hFound, hCached⟩ := h.cached (hRequests ▸ List.cons_ne_nil _ _)
  have hRun : (stop.answering bytes).Matched ∧
      (stop.answering bytes).server.iTable = stop.daemon.server.iTable := h.matched.foldl h.runs
  obtain ⟨hMatched, hTable⟩ := hRun
  obtain ⟨package, hLoad⟩ := exists_loadForwardPackage (hTable ▸ h.interfaces) hCached
    request.package
  obtain ⟨_, hWaiting, hSent⟩ := loadForwardPackage_eq_ok hLoad
  obtain rfl := Option.some.inj hWaiting
  refine ⟨package, ?_, hTable ▸ hSent⟩
  have hOutputs : (stop.answered bytes).outputs = [.sendto
      ((stop.answering bytes).server.cache.queryMipAddressSrcSocket stop.nextHop) package] := by
    simp only [Stop.answered, branch, hSource]
    rw [forwardBranch_outputs _ _ hFound (hMatched.head_queued hAnswer), hLoad]
  simp only [sent, hSilent, hRequests, hOutputs, if_neg (List.cons_ne_nil _ _),
    List.findSome?_singleton, Output.frame]

/-- A package for another host is sent to the next hop with its ttl lowered by one, or goes no
further if its ttl is used up. -/
theorem Ready.sent_package (hPackage : Transportable package) (hFits : FitsLink package)
    (h : stop.Ready (sendtoRawMipPackage package pointer))
    (hSource : stop.daemon.server.source stop.fd = .rawSocket)
    (hOther : stop.daemon.server.iTable.getInterfacePosForMipAddress
      package.mHeader.dstAddr = none) :
    (package.mHeader.ttl = 0 → stop.sent (sendtoRawMipPackage package pointer) = none) ∧
      (package.mHeader.ttl ≠ 0 → ∃ package',
        stop.sent (sendtoRawMipPackage package pointer) = some
          ((stop.answering (sendtoRawMipPackage package pointer)).server.cache
            |>.queryMipAddressSrcSocket stop.nextHop, package') ∧
        SameCargo package package' ∧
        package'.mHeader.ttl.toNat + 1 = package.mHeader.ttl.toNat) := by
  obtain ⟨received, hReceive, hHeader, hSame⟩ := hPackage.exists_receivePackage pointer stop.env
  have hHandled : stop.handled (sendtoRawMipPackage package pointer) =
      if received.mHeader.ttl = 0 then stop.daemon.server.finish 0 []
      else stop.daemon.server.requestForwarding received.mHeader.dstAddr (lowerTtl received)
        stop.env := by
    simp only [handled, branch, hSource]
    rw [handleRawSocketFrame_transport hReceive (hHeader ▸ hPackage.tra) h.interfaces,
      hHeader, hOther, if_neg (by simp)]
  rw [hHeader] at hHandled
  constructor
  · intro hTtl
    rw [if_pos hTtl] at hHandled
    simp only [sent, hHandled]
    rfl
  · intro hTtl
    rw [if_neg hTtl, requestForwarding_eq h.canRequest] at hHandled
    have hRequests : (stop.handled (sendtoRawMipPackage package pointer)).requests =
        [⟨package.mHeader.dstAddr, lowerTtl received⟩] := by
      rw [hHandled]
      rfl
    obtain ⟨package', hSent, hOn⟩ := h.exists_sent (by rw [hHandled]; rfl) hRequests
    have hLower := hSame.trans (lowerTtl_sameCargo received)
    obtain ⟨hHeader', hSame'⟩ := SentOn.sameCargo hOn (hPackage.of_sameCargo hLower).src
    rw [if_pos (hFits.of_sameCargo (hLower.trans hSame'))] at hSent
    refine ⟨package', hSent, hLower.trans hSame', ?_⟩
    rw [hHeader']
    show (received.mHeader.ttl - 1).toNat + 1 = package.mHeader.ttl.toNat
    rw [hHeader]
    exact toNat_sub_one hTtl

end Stop

end MipStack
