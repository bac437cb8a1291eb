import MipStack.Mipd.Handlers

/-! The two ways of a message to a cached neighbour. It is sent at once, or it waits under
placeholders for an address and a frame until routerd answers, and the answer fills them in. -/
namespace MipStack

namespace MIPDServer

/-- One answer of routerd after the other. -/
def answered (server : MIPDServer) (answers : List MIPAddress) : MIPDServer :=
  answers.foldl (fun server answer =>
    (server.forwardBranch ⟨server.forwardSocket.connectedSocketFd, [answer], -1⟩).server) server

variable {server : MIPDServer} {message : MIPDMessage} {env : Env} {waiting : MIPPackage}
  {answers : List MIPAddress}

/-- Each answer takes one package out of the queue and leaves what the next one looks up. -/
theorem answered_keeps (server : MIPDServer) (answers : List MIPAddress) :
    (server.answered answers).iTable = server.iTable ∧
      (server.answered answers).cache = server.cache ∧
      (server.answered answers).queued = server.queued.drop answers.length := by
  induction answers generalizing server with
  | nil => exact ⟨rfl, rfl, rfl⟩
  | cons answer rest ih =>
      let event : Event := ⟨server.forwardSocket.connectedSocketFd, [answer], -1⟩
      have hAnswer : Answers server (server.forwardBranch event) :=
        forwardBranch_answers (List.cons_ne_nil _ _)
      obtain ⟨hTable, hCache, hQueued⟩ := ih (server.forwardBranch event).server
      refine ⟨hTable.trans hAnswer.iTable, hCache.trans hAnswer.cache, hQueued.trans ?_⟩
      rw [hAnswer.queued, List.drop_tail, List.length_cons]

/-- Loading a package looks only at the two tables. -/
theorem loadForwardPackage_congr {server' : MIPDServer} (hTable : server'.iTable = server.iTable)
    (hCache : server'.cache = server.cache) (package : Option MIPPackage)
    (nextHop : MIPAddress) :
    server'.loadForwardPackage package nextHop = server.loadForwardPackage package nextHop := by
  unfold loadForwardPackage
  rw [hTable, hCache]

/-- An answer for the package at the head of the queue sends that package, or nothing where the
next hop is not cached. -/
theorem handleForwardResponse_outputs {nextHop : MIPAddress}
    (hHead : server.queued.head? = some waiting) :
    (server.handleForwardResponse nextHop).outputs =
      match server.loadForwardPackage (some waiting) nextHop with
      | .error _ => []
      | .ok package => [.sendto (server.cache.queryMipAddressSrcSocket nextHop) package] := by
  have hLoad : ({ server with forwardQueue := (forwardQueuePop server.forwardQueue).2 } :
      MIPDServer).loadForwardPackage (forwardQueuePop server.forwardQueue).1 nextHop =
        server.loadForwardPackage (some waiting) nextHop := by
    rw [forwardQueuePop_package, hHead]
    exact loadForwardPackage_congr rfl rfl _ _
  unfold handleForwardResponse
  simp only [hLoad]
  cases server.loadForwardPackage (some waiting) nextHop with
  | error halt => rfl
  | ok package => rfl

/-- Filling in the placeholders gives the package that is sent at once. -/
theorem handleDomainSocketRequest_outputs
    (hWaiting : createQueueable message (env.pointers 0) = some waiting) :
    (server.handleDomainSocketRequest message).outputs =
      match server.loadForwardPackage (some waiting) message.mipAddress with
      | .error _ => []
      | .ok package =>
        [.sendto (server.cache.queryMipAddressSrcSocket message.mipAddress) package] := by
  rw [createQueueable_eq] at hWaiting
  obtain rfl := Option.some.inj hWaiting
  unfold handleDomainSocketRequest loadForwardPackage
  simp only
  split_ifs with hUnknown
  · rfl
  · cases server.iTable.recordForSocket
        (server.cache.queryMipAddressSrcSocket message.mipAddress) with
    | none => rfl
    | some record =>
        cases server.cache.entries.find? fun entry => entry.mipAddress = message.mipAddress with
        | none => rfl
        | some entry =>
            simp only [MIPPackage.create_eq_some_iff.mpr ⟨message.size_le, rfl⟩]
            rfl

/-- A message is always turned into a package for its address: none is too large for the
payload. -/
theorem exists_createQueueable (message : MIPDMessage) (mac : PointerBytes) :
    ∃ waiting, createQueueable message mac = some waiting ∧
      waiting.mHeader.dstAddr = message.mipAddress :=
  ⟨_, createQueueable_eq message mac, rfl⟩

/-- A message that waits behind any packages until the answer for it names its destination
as next hop leaves as it would have left at once: in the same frame, on the same socket. -/
theorem direct_and_routed_agree (server : MIPDServer) (message : MIPDMessage) (env : Env)
    (answers : List MIPAddress) (hCan : server.CanRequest env)
    (hAhead : answers.length = server.forwardQueue.length) :
    ∃ waiting, createQueueable message (env.pointers 0) = some waiting ∧
      let asked := server.requestForwarding waiting.mHeader.dstAddr waiting env
      asked.outputs = [.writeForward message.mipAddress waiting] ∧
        ((asked.server.answered answers).handleForwardResponse message.mipAddress).outputs =
          (server.handleDomainSocketRequest message).outputs ∧
        (server.iTable.interfaces ≠ [] →
          server.cache.queryMipAddressSrcSocket message.mipAddress ≠ -1 →
          ∃ package, (server.handleDomainSocketRequest message).outputs =
            [.sendto (server.cache.queryMipAddressSrcSocket message.mipAddress) package]) := by
  obtain ⟨waiting, hWaiting, hDst⟩ := exists_createQueueable message (env.pointers 0)
  refine ⟨waiting, hWaiting, ?_⟩
  rw [requestForwarding_eq hCan, hDst]
  refine ⟨rfl, ?_, fun hInterfaces hSocket => ?_⟩
  · let asked : MIPDServer :=
      { server with forwardQueue := forwardQueuePush server.forwardQueue waiting (env.clock 0) }
    show ((asked.answered answers).handleForwardResponse message.mipAddress).outputs = _
    obtain ⟨hTable, hCache, hQueued⟩ := asked.answered_keeps answers
    have hHead : (asked.answered answers).queued.head? = some waiting := by
      have hLast : asked.queued = server.queued ++ [waiting] := by
        simp [asked, queued, forwardQueuePush]
      rw [hQueued, hLast, List.drop_left' (by rw [queued, List.length_map, hAhead])]
      rfl
    rw [handleForwardResponse_outputs hHead, handleDomainSocketRequest_outputs hWaiting,
      hCache, loadForwardPackage_congr hTable hCache]
    rfl
  · obtain ⟨package, hSent⟩ := exists_handleDomainSocketRequest hInterfaces hSocket
    exact ⟨package, congrArg Outcome.outputs hSent⟩

/-- A host that knows the neighbour 20 and queued one package before. Once that one is answered,
the message leaves as it would have left at once. -/
theorem direct_and_routed_agree_behind_one :
    let env : Env := ⟨fun _ => 0, fun _ => Vector.replicate 8 0, fun _ => 0, true⟩
    let message : MIPDMessage := ⟨20, [1, 2, 3, 4, 5], by decide⟩
    let cache : MipArpCache := ⟨[⟨20, 6, ethBroadcastAddr, 0⟩], 10000, 0, by decide, by decide⟩
    let earlier := MIPPackage.createMipArpRequestPacket 10 ethBroadcastAddr
    let server : MIPDServer := ⟨⟨3, 8⟩, ⟨4, -1⟩, ⟨5, 9⟩,
      ⟨[⟨ethBroadcastAddr, ethBroadcastAddr, 10, 6⟩]⟩, cache, [⟨30, earlier, 0⟩]⟩
    ∃ waiting, createQueueable message (env.pointers 0) = some waiting ∧
      let asked := server.requestForwarding waiting.mHeader.dstAddr waiting env
      asked.outputs = [.writeForward message.mipAddress waiting] ∧
        ((asked.server.answered [20]).handleForwardResponse message.mipAddress).outputs =
          (server.handleDomainSocketRequest message).outputs ∧
        (server.iTable.interfaces ≠ [] →
          server.cache.queryMipAddressSrcSocket message.mipAddress ≠ -1 →
          ∃ package, (server.handleDomainSocketRequest message).outputs =
            [.sendto (server.cache.queryMipAddressSrcSocket message.mipAddress) package]) := by
  intro env message cache earlier server
  exact direct_and_routed_agree server message env [20] ⟨by decide, rfl⟩ rfl

end MIPDServer

end MipStack
