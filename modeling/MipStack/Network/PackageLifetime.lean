import MipStack.Network.TransportNetwork

/-! How long a transport package lives: every forward costs one of the 15 hops it
starts with, and nothing else of it changes. -/
namespace MipStack
open Execution MIPDServer

/-- The hops of one transport package, latest first. It is made with the full ttl
and under the address of an interface. At every further hop it was received from
the wire and sent on with a ttl lower by one and in another Ethernet frame. -/
inductive Lineage : List Hop → Prop where
  | made {sent : MIPPackage} (hTra : sent.mHeader.tra = 3) (hTtl : sent.mHeader.ttl = 15)
      (hSrc : sent.mHeader.srcAddr ≠ 255) : Lineage [⟨none, sent⟩]
  | forwarded {previous : Hop} {rest : List Hop} {received sent : MIPPackage}
      (prior : Lineage (previous :: rest))
      (hReceived : ∃ pointer env,
        receivePackage (sendtoRawMipPackage previous.sent pointer) env = some received)
      (hTtl : sent.mHeader.ttl.toNat + 1 = received.mHeader.ttl.toNat)
      (hSent : sent = { received with
        eFrame := sent.eFrame
        mHeader := { received.mHeader with ttl := sent.mHeader.ttl } }) :
      Lineage (⟨some received, sent⟩ :: previous :: rest)

variable {hop : Hop} {rest hops : List Hop} {package received sent waiting : MIPPackage}
  {frame : List UInt8} {env : Env} {pointer : PointerBytes} {iTable : InterfaceTable}

/-- The header of a received package is that of the frame. -/
theorem receivePackage_mHeader (h : receivePackage frame env = some received) :
    received.mHeader = receivedHeader frame := by
  obtain ⟨empty, -, hRecv⟩ := Option.bind_eq_some_iff.mp h
  exact (recvRawMipPackage_eq_some hRecv).1

theorem receivePackage_sendto
    (h : receivePackage (sendtoRawMipPackage package pointer) env = some received) :
    received.mHeader = package.mHeader :=
  (receivePackage_mHeader h).trans (receivedHeader_sendto package pointer)

/-- What stays the same along all hops: it is a transport package, and its source is not the
broadcast address. -/
theorem Lineage.sent_header (h : Lineage (hop :: rest)) :
    hop.sent.mHeader.tra = 3 ∧ hop.sent.mHeader.srcAddr ≠ 255 := by
  generalize hHops : hop :: rest = hops at h
  induction h generalizing hop rest with
  | made hTra hTtl hSrc =>
      obtain ⟨rfl, rfl⟩ := List.cons.inj hHops
      exact ⟨hTra, hSrc⟩
  | forwarded prior hReceived hTtl hSent ih =>
      obtain ⟨rfl, rfl⟩ := List.cons.inj hHops
      obtain ⟨pointer, env, hRecv⟩ := hReceived
      have hHeader := receivePackage_sendto hRecv
      obtain ⟨hTra, hSrc⟩ := ih rfl
      rw [hSent]
      rw [← hHeader] at hTra hSrc
      exact ⟨hTra, hSrc⟩

/-- The ttl counts the hops that are left, so a package is put on a wire sixteen times at most. -/
theorem Lineage.length_add_ttl (h : Lineage (hop :: rest)) :
    (hop :: rest).length + hop.sent.mHeader.ttl.toNat = 16 := by
  generalize hHops : hop :: rest = hops at h
  induction h generalizing hop rest with
  | made hTra hTtl hSrc =>
      obtain ⟨rfl, rfl⟩ := List.cons.inj hHops
      simp [hTtl]
  | @forwarded previous rest received sent prior hReceived hTtl hSent ih =>
      obtain ⟨rfl, rfl⟩ := List.cons.inj hHops
      obtain ⟨pointer, env, hRecv⟩ := hReceived
      have hLeft := ih rfl
      rw [← receivePackage_sendto hRecv, ← hTtl] at hLeft
      show (previous :: rest).length + 1 + sent.mHeader.ttl.toNat = 16
      omega

/-- A package on the wire is the last one of its hops. -/
def Frame.Traced (frame : Frame) : Prop :=
  Lineage frame.hops ∧ ∃ hop ∈ frame.hops.head?, hop.sent = frame.package

/-- A package waits for an answer as it was made, or with its ttl lowered. -/
inductive Waits : MIPPackage → Origin → Prop where
  | message {package : MIPPackage} (hMade : MadeFor 255 package) : Waits package .message
  | frame {received : MIPPackage} {previous : Hop} {rest : List Hop}
      (prior : Lineage (previous :: rest))
      (hReceived : ∃ pointer env,
        receivePackage (sendtoRawMipPackage previous.sent pointer) env = some received)
      (hTtl : received.mHeader.ttl ≠ 0) :
      Waits (lowerTtl received) (.frame received (previous :: rest))

theorem toNat_sub_one {ttl : BitVec 4} (h : ttl ≠ 0) : (ttl - 1).toNat + 1 = ttl.toNat := by
  bv_omega

/-- A package that is sent on adds a hop to those it was received with. -/
theorem Waits.traced {origin : Origin} (h : Waits waiting origin)
    (hAddresses : ∀ record ∈ iTable.interfaces, record.mipAddress ≠ 255)
    (hSent : SentOn iTable waiting package) :
    Frame.Traced ⟨package, origin.hops package⟩ := by
  obtain ⟨eFrame, record, hRecord, rfl⟩ := hSent
  cases h with
  | message hMade =>
      obtain ⟨hTra, hTtl, hSrc⟩ := hMade
      refine ⟨.made hTra hTtl ?_, _, rfl, rfl⟩
      simp only [hSrc, if_true]
      exact hAddresses record hRecord
  | @frame received previous rest prior hReceived hTtl =>
      have hSrc : (lowerTtl received).mHeader.srcAddr ≠ 255 := by
        obtain ⟨pointer, env, hRecv⟩ := hReceived
        change received.mHeader.srcAddr ≠ 255
        rw [receivePackage_sendto hRecv]
        exact prior.sent_header.2
      refine ⟨.forwarded prior hReceived (toNat_sub_one hTtl) ?_, _, rfl, rfl⟩
      simp only [if_neg hSrc]
      rfl

namespace TransportNetwork

/-- No host has the address 255, every transport package on the wire is traced,
and every queued one waits with its origin. -/
structure Traced {ρ : Type*} (net : TransportNetwork ρ) : Prop where
  addresses : ∀ x, ∀ record ∈ (net.hosts x).server.iTable.interfaces, record.mipAddress ≠ 255
  frames : ∀ frame ∈ net.frames, frame.package.mHeader.tra = 3 → frame.Traced
  origins : ∀ x, List.Forall₂ Waits (net.hosts x).server.queued (net.hosts x).origins

variable {ρ : Type*} {net net' : TransportNetwork ρ} {action : Action ρ}
  {actions : List (Action ρ)} {config : ρ → MipdConfig}

theorem Traced.start
    (hAddresses : ∀ x, ∀ record ∈ (config x).iTable.interfaces, record.mipAddress ≠ 255) :
    Traced (start config) :=
  ⟨hAddresses, by simp [TransportNetwork.start], fun _ => List.Forall₂.nil⟩

theorem mem_framesOf {outputs : List Output} {hops : MIPPackage → List Hop} {frame : Frame} :
    frame ∈ framesOf outputs hops ↔
      ∃ socket, .sendto socket frame.package ∈ outputs ∧ frame.hops = hops frame.package := by
  obtain ⟨package, history⟩ := frame
  simp only [framesOf, List.mem_filterMap]
  constructor
  · rintro ⟨output, hMem, hEq⟩
    cases output with
    | sendto socket p =>
        cases hEq
        exact ⟨socket, hMem, rfl⟩
    | _ => cases hEq
  · rintro ⟨socket, hMem, rfl⟩
    exact ⟨_, hMem, rfl⟩

variable [DecidableEq ρ]

/-- One host takes a step; its new frames and its queue are accounted for. Frames that are on a
wire stay possible deliveries. -/
theorem Traced.update (h : Traced net) (x : ρ) {host : Host} {frames : List Frame}
    (hTable : host.server.iTable = (net.hosts x).server.iTable)
    (hFrames : ∀ frame ∈ frames, frame.package.mHeader.tra = 3 → frame.Traced)
    (hOrigins : List.Forall₂ Waits host.server.queued host.origins) :
    Traced (net.update x host frames) := by
  refine ⟨?_, ?_, ?_⟩
  · intro y
    by_cases hy : y = x
    · subst hy
      simpa [TransportNetwork.update, hTable] using h.addresses y
    · simpa [TransportNetwork.update, Function.update_of_ne hy] using h.addresses y
  · intro frame hMem
    rcases List.mem_append.mp hMem with hOld | hNew
    · exact h.frames frame hOld
    · exact hFrames frame hNew
  · intro y
    by_cases hy : y = x
    · subst hy
      simpa [TransportNetwork.update] using hOrigins
    · simpa [TransportNetwork.update, Function.update_of_ne hy] using h.origins y

/-- What a handler asks routerd about is queued with its origins, in the order of the queue. -/
theorem Traced.emits (h : Traced net) (x : ρ) {o : Outcome} {asked sent : MIPPackage → Prop}
    (hEmits : Emits (net.hosts x).server o asked sent) {origins : List Origin}
    {frames : List Frame}
    (hFrames : ∀ frame ∈ frames, frame.package.mHeader.tra = 3 → frame.Traced)
    (hOrigins : List.Forall₂ Waits (o.requests.map ForwardRequest.package) origins) :
    Traced (net.update x ⟨o.server, (net.hosts x).origins ++ origins⟩ frames) := by
  apply h.update x hEmits.iTable hFrames
  show List.Forall₂ Waits o.server.queued _
  rw [hEmits.queued]
  exact List.rel_append (h.origins x) hOrigins

/-- Frames of other kinds, requests and tables, are sent by the host itself and need no trace. -/
theorem framesOf_noTransport {outputs : List Output} {hops : MIPPackage → List Hop}
    (hKind : ∀ socket p, .sendto socket p ∈ outputs → NoTransport p) :
    ∀ frame ∈ framesOf outputs hops, frame.package.mHeader.tra = 3 → frame.Traced := by
  intro frame hMem hTra
  obtain ⟨socket, hOutput, -⟩ := mem_framesOf.mp hMem
  exact absurd hTra (hKind socket _ hOutput)

/-- A package that is forwarded has one more host on its way and a ttl that is one lower. -/
theorem Traced.forward (h : Traced net) (x : ρ) {frame : Frame} (hFrame : frame ∈ net.frames)
    {o : Outcome} (hEmits : Emits (net.hosts x).server o (fun p => ∃ received,
      receivePackage (sendtoRawMipPackage frame.package pointer) env = some received ∧
        (net.hosts x).server.MustForward received ∧ p = lowerTtl received) NoTransport) :
    Traced (net.update x ⟨o.server, (net.hosts x).origins ++
        (receivePackage (sendtoRawMipPackage frame.package pointer) env).elim [] fun received =>
          o.requests.map fun _ => Origin.frame received frame.hops⟩
      (framesOf o.outputs fun _ => [])) := by
  apply h.emits x hEmits (framesOf_noTransport hEmits.sends)
  -- the packages that are queued were received with the hops of the frame
  cases hReceive : receivePackage (sendtoRawMipPackage frame.package pointer) env with
  | none =>
      have hNone : o.requests = [] := by
        rw [List.eq_nil_iff_forall_not_mem]
        intro request hMem
        obtain ⟨-, received, hSome, -⟩ := hEmits.requests request hMem
        cases hReceive.symm.trans hSome
      rw [hNone]
      exact List.Forall₂.nil
  | some received =>
      rw [Option.elim_some, List.forall₂_map_left_iff, List.forall₂_map_right_iff,
        List.forall₂_same]
      intro request hMem
      obtain ⟨-, received', hSome, hForward, hPackage⟩ := hEmits.requests request hMem
      obtain rfl := Option.some.inj (hReceive.symm.trans hSome)
      have hTra : frame.package.mHeader.tra = 3 :=
        receivePackage_sendto hReceive ▸ hForward.1
      obtain ⟨hLineage, previous, hHead, hSent⟩ := h.frames frame hFrame hTra
      obtain ⟨rest, hHops⟩ := List.head?_eq_some_iff.mp hHead
      rw [hPackage, hHops]
      rw [hHops] at hLineage
      exact .frame hLineage ⟨pointer, env, hSent ▸ hReceive⟩ hForward.2.2

/-- An answer sends the package that waited longest, with the way that is kept for it. -/
theorem Traced.answer (h : Traced net) (x : ρ) {o : Outcome}
    (hAnswers : Answers (net.hosts x).server o) :
    Traced (net.update x ⟨o.server, (net.hosts x).origins.tail⟩ (framesOf o.outputs fun sent =>
      (net.hosts x).origins.head?.elim [] (Origin.hops sent))) := by
  have hOrigins := h.origins x
  apply h.update x hAnswers.iTable
  · intro frame hMem hTra
    obtain ⟨socket, hOutput, hHops⟩ := mem_framesOf.mp hMem
    obtain ⟨waiting, hWaiting, hSent⟩ := hAnswers.sends socket _ hOutput
    cases hQueue : (net.hosts x).origins with
    | nil =>
        rw [hQueue, List.forall₂_nil_right_iff] at hOrigins
        rw [hOrigins] at hWaiting
        cases hWaiting
    | cons origin rest =>
        rw [hQueue, List.forall₂_cons_right_iff] at hOrigins
        obtain ⟨first, others, hWaits, -, hFirst⟩ := hOrigins
        rw [hFirst] at hWaiting
        obtain rfl := Option.some.inj hWaiting
        obtain ⟨package, hops⟩ := frame
        rw [hQueue] at hHops
        obtain rfl : hops = origin.hops package := hHops
        exact hWaits.traced (h.addresses x) hSent
  · have hRest := List.forall₂_drop 1 hOrigins
    rw [List.drop_one, List.drop_one, ← hAnswers.queued] at hRest
    exact hRest

/-- A package that is made for a message starts a way of its own, with ttl 15. -/
theorem Traced.message (h : Traced net) (x : ρ) {o : Outcome}
    (hEmits : Emits (net.hosts x).server o (MadeFor 255) fun p =>
      NoTransport p ∨ ∃ record ∈ (net.hosts x).server.iTable.interfaces,
        MadeFor record.mipAddress p) :
    Traced (net.update x ⟨o.server, (net.hosts x).origins ++ o.requests.map fun _ => Origin.message⟩
      (framesOf o.outputs fun sent => Origin.message.hops sent)) := by
  apply h.emits x hEmits
  · intro frame hMem hTra
    obtain ⟨socket, hOutput, hHops⟩ := mem_framesOf.mp hMem
    rcases hEmits.sends socket _ hOutput with hOther | ⟨record, hRecord, hMade⟩
    · exact absurd hTra hOther
    · obtain ⟨package, hops⟩ := frame
      obtain rfl : hops = Origin.message.hops package := hHops
      obtain ⟨-, hTtl, hSrc⟩ := hMade
      refine ⟨.made hTra hTtl ?_, _, rfl, rfl⟩
      rw [hSrc]
      exact h.addresses x record hRecord
  · rw [List.forall₂_map_left_iff, List.forall₂_map_right_iff, List.forall₂_same]
    intro request hMem
    exact .message (hEmits.requests request hMem).2

theorem Traced.other (h : Traced net) (x : ρ) {o : Outcome}
    (hEmits : Emits (net.hosts x).server o (fun _ => False) NoTransport) :
    Traced (net.update x ⟨o.server, (net.hosts x).origins⟩ (framesOf o.outputs fun _ => [])) := by
  apply h.update x hEmits.iTable (framesOf_noTransport hEmits.sends)
  have hNone : o.requests = [] := by
    rw [List.eq_nil_iff_forall_not_mem]
    intro request hMem
    exact (hEmits.requests request hMem).2
  show List.Forall₂ Waits o.server.queued _
  rw [hEmits.queued, hNone, List.map_nil, List.append_nil]
  exact h.origins x

/-- What happens at one host, branch by branch of the loop. -/
theorem Traced.handle (h : Traced net) (x : ρ) {event : MipStack.Event} {env : Env}
    (hSource : (net.hosts x).server.source event.fd ≠ .rawSocket) :
    Traced (net.handle x event env) := by
  by_cases hForward : (net.hosts x).server.source event.fd = .forwardConnection
  · have hBranch : (net.hosts x).server.branch event env =
        (net.hosts x).server.forwardBranch event := by
      simp only [branch, hForward]
    simp only [TransportNetwork.handle, hForward, hBranch]
    split_ifs with hData
    · have hEnd : (net.hosts x).server.forwardBranch event =
          ((net.hosts x).server.connectForward (-1)).finish 0 [.close event.fd] := by
        simp only [forwardBranch, hData]
      rw [hEnd]
      exact h.update x rfl (by simp) (h.origins x)
    · exact h.answer x (forwardBranch_answers hData)
  · have hEmits := branch_emits env hForward
    by_cases hApp : (net.hosts x).server.source event.fd = .appConnection
    · simp only [TransportNetwork.handle, hApp]
      refine h.message x (hEmits.mono ?_ ?_)
      · rintro p ⟨-, ⟨hRaw, -⟩ | ⟨-, hMade⟩⟩
        · exact absurd hRaw hSource
        · exact hMade
      · rintro p (hOther | ⟨-, hMade⟩)
        · exact Or.inl hOther
        · exact Or.inr hMade
    · simp only [TransportNetwork.handle]
      refine h.other x (hEmits.mono ?_ ?_)
      · rintro p ⟨-, ⟨hRaw, -⟩ | ⟨hMessage, -⟩⟩
        · exact hSource hRaw
        · exact hApp hMessage
      · rintro p (hOther | ⟨hMessage, -⟩)
        · exact hOther
        · exact absurd hMessage hApp

/-- A host sends ARP packages and changes its cache. -/
theorem Traced.arp (h : Traced net) (x : ρ) {server : MIPDServer} {outputs : List Output}
    (hTable : server.iTable = (net.hosts x).server.iTable)
    (hQueue : server.queued = (net.hosts x).server.queued)
    (hKind : ∀ socket p, .sendto socket p ∈ outputs → NoTransport p) :
    Traced (net.update x ⟨server, (net.hosts x).origins⟩ (framesOf outputs fun _ => [])) := by
  apply h.update x hTable (framesOf_noTransport hKind)
  show List.Forall₂ Waits server.queued _
  rw [hQueue]
  exact h.origins x

/-- The step lemma: every package on a wire can be followed back, host by host, to the message it
was made for, and its ttl is one lower at each of them. -/
theorem Traced.perform (h : Traced net) (hEnabled : net.Enabled action) :
    Traced (net.perform action) := by
  cases action with
  | startRun x now =>
      show Traced (net.update x ⟨((net.hosts x).server.startRun now).1, (net.hosts x).origins⟩
        (framesOf ((net.hosts x).server.startRun now).2 fun _ => []))
      exact h.arp x rfl rfl fun socket p hMem => startRun_noTransport hMem
  | tick x clock =>
      show Traced (net.update x ⟨((net.hosts x).server.tick clock).1, (net.hosts x).origins⟩
        (framesOf ((net.hosts x).server.tick clock).2 fun _ => []))
      exact h.arp x rfl rfl fun socket p hMem => tick_noTransport hMem
  | receive x frame pointer fd env =>
      have hEmits : Emits (net.hosts x).server ((net.hosts x).server.handleRawSocketFrame fd
          (sendtoRawMipPackage frame.package pointer) env) _ _ :=
        handleRawSocketFrame_emits fd _ env
      exact h.forward x hEnabled.1 (hEmits.mono (fun p hp => hp.2) fun p hp => hp)
  | handle x event env => exact h.handle x hEnabled

end TransportNetwork

/-- A transport package for another host that arrives with ttl 0 is dropped: nothing is sent,
asked or queued. -/
theorem MIPDServer.handleRawSocketFrame_expired {server : MIPDServer} (fd : ℤ)
    (hReceive : receivePackage frame env = some received) (hTra : received.mHeader.tra = 3)
    (hOther : server.iTable.getInterfacePosForMipAddress received.mHeader.dstAddr = none)
    (hTtl : received.mHeader.ttl = 0) :
    (server.handleRawSocketFrame fd frame env).server = server ∧
      (server.handleRawSocketFrame fd frame env).outputs = [] := by
  unfold handleRawSocketFrame
  rw [hReceive]
  cases server.iTable.recordForSocket fd with
  | none => exact ⟨rfl, rfl⟩
  | some record => simp [handleReceivedPackage, hTra, hOther, hTtl, finish]

namespace TransportNetwork

variable {ρ : Type*} [DecidableEq ρ] {net : TransportNetwork ρ} {actions : List (Action ρ)}
  {config : ρ → MipdConfig}

/-- In every run of a network of mipds without the address 255, a transport
package was put on the wire at most 16 times, at every hop with nothing but its
ttl and its Ethernet frame changed, and is not sent on once its ttl is 0. -/
theorem transport_packages_expire
    (hAddresses : ∀ x, ∀ record ∈ (config x).iTable.interfaces, record.mipAddress ≠ 255)
    (run : Trace Step (start config) actions net) :
    (∀ frame ∈ net.frames, frame.package.mHeader.tra = 3 →
      frame.Traced ∧ frame.hops.length ≤ 16) ∧
    (∀ x, ∀ frame ∈ net.frames, ∀ pointer fd env received,
      receivePackage (sendtoRawMipPackage frame.package pointer) env = some received →
      received.mHeader.tra = 3 →
      (net.hosts x).server.iTable.getInterfacePosForMipAddress received.mHeader.dstAddr = none →
      received.mHeader.ttl = 0 →
      (net.receive x frame pointer fd env).frames = net.frames ∧
        (net.receive x frame pointer fd env).hosts = net.hosts) := by
  have hTraced : Traced net := by
    apply run.invariant (Traced.start hAddresses)
    rintro s action t h ⟨hEnabled, rfl⟩
    exact h.perform hEnabled
  constructor
  · intro frame hMem hTra
    have hFrame := hTraced.frames frame hMem hTra
    refine ⟨hFrame, ?_⟩
    obtain ⟨hLineage, hop, hHead, -⟩ := hFrame
    obtain ⟨rest, hHops⟩ := List.head?_eq_some_iff.mp hHead
    rw [hHops] at hLineage ⊢
    have hLeft := hLineage.length_add_ttl
    omega
  · intro x frame hMem pointer fd env received hReceive hTra hOther hTtl
    obtain ⟨hServer, hOutputs⟩ := MIPDServer.handleRawSocketFrame_expired fd hReceive hTra hOther
      hTtl
    simp only [TransportNetwork.receive, hServer, hOutputs, hReceive, Outcome.requests,
      TransportNetwork.update, framesOf, List.filterMap_nil, List.map_nil, Option.elim_some,
      List.append_nil, Function.update_eq_self, and_self]

/-- A host whose routerd sends a package for 20 back to the host itself. The ttl ends the loop. -/
theorem looping_package_expires :
    let env : Env := ⟨fun _ => 0, fun _ => Vector.replicate 8 0, fun _ => 0, true⟩
    let pointer : PointerBytes := Vector.replicate 8 0
    let mac := ethBroadcastAddr
    let request : Frame := ⟨MIPPackage.createMipArpRequestPacket 10 mac, []⟩
    let package : MIPPackage :=
      ⟨createEthernetFrame mac mac, ⟨3, 15, 4, 20, 10⟩, List.replicate 16 0⟩
    let config : Unit → MipdConfig := fun _ =>
      ⟨⟨3, -1⟩, ⟨4, -1⟩, ⟨5, -1⟩, ⟨[⟨mac, mac, 10, 6⟩]⟩, 10000⟩
    let actions : List (Action Unit) := [
      .startRun () 0, .receive () request pointer 6 env, .handle () ⟨3, [], 8⟩ env,
      .handle () ⟨5, [], 9⟩ env, .handle () ⟨8, 20 :: 13 :: List.replicate 14 0, -1⟩ env,
      .handle () ⟨9, [10], -1⟩ env, .receive () ⟨package, [⟨none, package⟩]⟩ pointer 6 env,
      .handle () ⟨9, [10], -1⟩ env]
    ∃ net, Trace Step (start config) actions net ∧ ∃ frame ∈ net.frames,
      frame.package.mHeader.ttl = 14 ∧ frame.Traced ∧ frame.hops.length ≤ 16 := by
  intro env pointer mac request package config actions
  have hAddresses : ∀ x, ∀ record ∈ (config x).iTable.interfaces, record.mipAddress ≠ 255 := by
    decide
  have hRuns : Runs Enabled perform (start config) actions := by
    decide +kernel
  obtain ⟨frame, hMem, hTra, hTtl⟩ : ∃ frame ∈ (actions.foldl perform (start config)).frames,
      frame.package.mHeader.tra = 3 ∧ frame.package.mHeader.ttl = 14 := by
    decide +kernel
  have hExpire := transport_packages_expire hAddresses hRuns.trace
  exact ⟨_, hRuns.trace, frame, hMem, hTtl, hExpire.1 frame hMem hTra⟩

end TransportNetwork

end MipStack
