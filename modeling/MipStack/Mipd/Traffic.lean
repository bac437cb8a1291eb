import MipStack.Mipd.Daemon
import MipStack.Mipd.SplitHorizon

/-! Which traffic stops mipd. Every error result leaves its loop, and so does an
access outside the memory of a package or of the ARP cache. -/
namespace MipStack
open Execution

namespace MIPDServer

variable {server server' : MIPDServer} {event : Event} {env : Env}

@[simp] theorem finish_continues (server : MIPDServer) (rc : ℤ) (outputs : List Output) :
    (server.finish rc outputs).continues = true := rfl

@[simp] theorem halt_continues (server : MIPDServer) (e : Halt) :
    (server.halt e).continues = false := rfl

@[simp] theorem requestForwarding_continues (destination : MIPAddress) (package : MIPPackage) :
    (server.requestForwarding destination package env).continues = true := by
  unfold requestForwarding
  split_ifs <;> rfl

/-- A handler that stops at an error of what it calls, and otherwise goes on. -/
theorem continues_iff_exists_ok {α : Type} {o : Outcome} {result : Except Halt α}
    (hError : ∀ e, result = .error e → o.continues = false)
    (hOk : ∀ a, result = .ok a → o.continues = true) :
    o.continues = true ↔ ∃ a, result = .ok a := by
  cases result with
  | error e => simp [hError e rfl]
  | ok a => simp [hOk a rfl]

end MIPDServer

/-- A frame that mipd can handle: its payload fits into a package, and the sender
of an ARP package can be cached. A request from the broadcast address is not. -/
structure SafeFrame (cache : MipArpCache) (header : MIPHeader) : Prop where
  payload : header.payloadLen.toNat ≤ payloadMaxWordNum
  response : header.tra = 0 → header.srcAddr ≠ 255 ∧ cache.HasSlotFor header.srcAddr
  request : header.tra = 1 → header.srcAddr = 255 ∨ cache.HasSlotFor header.srcAddr

namespace MIPDServer

variable {server server' : MIPDServer} {event : Event} {env : Env} {received : MIPPackage}

/-- Every payload that fits into a package fits into a message. -/
theorem handleMIPPackageForApplication_continues
    (hPayload : received.mHeader.payloadLen.toNat ≤ payloadMaxWordNum) :
    (server.handleMIPPackageForApplication received).continues := by
  unfold payloadMaxWordNum at hPayload
  have hSize : received.mHeader.payloadLen.toNat * 4 ≤ maxMipMessageDataSize := by
    unfold maxMipMessageDataSize
    omega
  have hSerialize : 3 + (received.message.take (received.mHeader.payloadLen.toNat * 4)).length ≤
      maxMipMessageSize := by
    rw [List.length_take]
    unfold maxMipMessageDataSize at hSize
    unfold maxMipMessageSize
    omega
  unfold handleMIPPackageForApplication
  split_ifs
  · rfl
  · simp only [MIPDMessage.create, dif_pos hSize, MIPDMessage.serialize, if_pos hSerialize]
    rfl

/-- A frame makes mipd leave its loop only over the cache: an ARP response from 255, or a new
neighbour when all slots are taken. -/
theorem handleReceivedPackage_continues_iff (fd : ℤ) (record : InterfaceRecord)
    (hPayload : received.mHeader.payloadLen.toNat ≤ payloadMaxWordNum) :
    (server.handleReceivedPackage fd record received env).continues ↔
      SafeFrame server.cache received.mHeader := by
  unfold handleReceivedPackage
  split_ifs with hResponse hRequest hRoute hTransport hOwn hTtl
  · have hSafe : SafeFrame server.cache received.mHeader ↔ received.mHeader.srcAddr ≠ 255 ∧
        server.cache.HasSlotFor received.mHeader.srcAddr :=
      ⟨fun h => h.response hResponse, fun h => ⟨hPayload, fun _ => h, by simp [hResponse]⟩⟩
    rw [hSafe, ← MipArpCache.exists_appendToCache_iff server.cache fd _ record.sllAddr
      (env.clock 0)]
    apply continues_iff_exists_ok
    · intro e hError
      simp [hError]
    · intro cache hOk
      simp [hOk]
  · have hSafe : SafeFrame server.cache received.mHeader ↔ received.mHeader.srcAddr = 255 ∨
        server.cache.HasSlotFor received.mHeader.srcAddr :=
      ⟨fun h => h.request hRequest, fun h => ⟨hPayload, by simp [hRequest], fun _ => h⟩⟩
    rw [hSafe, ← MipArpCache.exists_handleMipArpRequest_iff server.cache received record
      env.pointers (env.clock 0)]
    apply continues_iff_exists_ok
    · intro e hError
      simp [hError]
    · intro sent hOk
      simp [hOk]
  all_goals
    apply iff_of_true _ ⟨hPayload, fun h => absurd h hResponse, fun h => absurd h hRequest⟩
  · unfold recvRouteTableBroadcast
    split_ifs <;> rfl
  · exact handleMIPPackageForApplication_continues hPayload
  · rfl
  · exact requestForwarding_continues _ _
  · rfl

theorem interfaces_ne_nil_of_source {fd : ℤ} (h : server.source fd = .rawSocket) :
    server.iTable.interfaces ≠ [] := by
  unfold source at h
  split_ifs at h with _ _ _ _ _ hRaw
  exact InterfaceTable.interfaces_ne_nil_of_isSocketInTable hRaw

/-- A frame is handled exactly if it is safe: some interface belongs to the socket. -/
theorem handleRawSocketFrame_continues_iff (hInterfaces : server.iTable.interfaces ≠ [])
    (fd : ℤ) (frame : List UInt8) :
    (server.handleRawSocketFrame fd frame env).continues ↔
      SafeFrame server.cache (receivedHeader frame) := by
  obtain ⟨record, -, hRecord⟩ := InterfaceTable.exists_recordForSocket hInterfaces fd
  obtain ⟨empty, hEmpty, hRoom⟩ := MIPPackage.exists_createEmpty
  have hWords : payloadMaxSizeBytes = payloadMaxWordNum * mipPayloadWord := rfl
  unfold handleRawSocketFrame receivePackage
  rw [hEmpty, Option.bind_some, hRecord]
  cases hReceive : recvRawMipPackage frame env.heap empty with
  | none =>
      apply iff_of_false Bool.false_ne_true
      intro hSafe
      have hSome : (recvRawMipPackage frame env.heap empty).isSome := by
        apply recvRawMipPackage_isSome
        rw [hRoom, hWords]
        exact Nat.mul_le_mul_right _ hSafe.payload
      rw [hReceive] at hSome
      cases hSome
  | some received =>
      obtain ⟨hHeader, hFits⟩ := recvRawMipPackage_eq_some hReceive
      rw [hRoom, hWords] at hFits
      rw [← hHeader]
      exact handleReceivedPackage_continues_iff fd record
        (Nat.le_of_mul_le_mul_right hFits (by decide))

/-- What is cached is found with an interface, once there is one. -/
theorem exists_loadForwardPackage (hInterfaces : server.iTable.interfaces ≠ [])
    {nextHop : MIPAddress} (hCached : server.cache.queryMipAddressSrcSocket nextHop ≠ -1)
    (waiting : MIPPackage) :
    ∃ package, server.loadForwardPackage (some waiting) nextHop = .ok package := by
  obtain ⟨record, -, hRecord⟩ := InterfaceTable.exists_recordForSocket hInterfaces
    (server.cache.queryMipAddressSrcSocket nextHop)
  cases hFind : server.cache.entries.find? fun entry => entry.mipAddress = nextHop with
  | none => simp [MipArpCache.queryMipAddressSrcSocket, hFind] at hCached
  | some entry =>
      simp only [loadForwardPackage, if_neg hCached, hRecord, hFind]
      exact ⟨_, rfl⟩

/-- The answer 255 drops the oldest package; any other one must be in the cache. -/
theorem forwardBranch_continues_iff (hQueue : server.forwardQueue ≠ [])
    (hInterfaces : server.cache.entries ≠ [] → server.iTable.interfaces ≠ [])
    {nextHop : MIPAddress} (hData : event.data = [nextHop]) :
    (server.forwardBranch event).continues ↔
      (nextHop ≠ 255 → server.cache.queryMipAddressSrcSocket nextHop ≠ -1) := by
  obtain ⟨entry, rest, hEntry⟩ := List.exists_cons_of_ne_nil hQueue
  unfold forwardBranch
  rw [hData]
  simp only [forwardFound, bne_iff_ne]
  split_ifs with hFound
  · simp only [handleForwardResponse, hEntry, forwardQueuePop]
    by_cases hCached : server.cache.queryMipAddressSrcSocket nextHop = -1
    · have hError : loadForwardPackage { server with forwardQueue := rest } (some entry.package)
          nextHop = .error .error := by
        simp [loadForwardPackage, hCached]
      simp [hError, hFound, hCached]
    · have hSome : server.cache.entries ≠ [] := by
        intro hNone
        simp [MipArpCache.queryMipAddressSrcSocket, hNone] at hCached
      obtain ⟨package, hOk⟩ : ∃ package, loadForwardPackage { server with forwardQueue := rest }
          (some entry.package) nextHop = .ok package :=
        exists_loadForwardPackage (hInterfaces hSome) hCached entry.package
      simp [hOk, hCached]
  · simp [hEntry, forwardQueuePop, hFound]

/-- What routerd writes: the package made of a table. -/
def WrittenByRouterd (data : List UInt8) : Prop :=
  ∃ (table : MIPRouteTable) (package : MIPRouteTablePackage),
    table.createPackage = some package ∧ data = package.toBytes

/-- What routerd writes as a table is broadcast without an error. -/
theorem routeBranch_continues (hData : event.data = [] ∨ WrittenByRouterd event.data) :
    (server.routeBranch event env).continues := by
  unfold routeBranch
  rcases hData with hEnd | ⟨table, package, hPackage, hBytes⟩
  · rw [if_pos hEnd]
    rfl
  · have hNonempty : event.data ≠ [] := by
      intro hEnd
      have hLength := package.toBytes_length
      rw [← hBytes, hEnd] at hLength
      cases hLength
    have hRead : MIPRouteTablePackage.ofBytes (event.data.take
        MIPRouteTablePackage.sizeofMIPRouteTablePackage) = package := by
      have hRest := MIPRouteTablePackage.ofBytes_toBytes package []
      rw [List.append_nil] at hRest
      rw [hBytes, List.take_of_length_le package.toBytes_length.le, hRest]
    have hFits : package.numEntries.toNat ≤ mipTablePackageEntriesMaxSize := by
      obtain ⟨hCount, hSize⟩ := MIPRouteTable.createPackage_numEntries hPackage
      rw [hCount]
      exact hSize.le
    obtain ⟨outputs, hBroadcast, -⟩ := exists_broadcast server.iTable env.pointers
      (fun _ _ => True) fun record _ => by
        have hCopy := splitHorizonCopy_eq server.cache record package
        rw [poisonReverse, if_pos hFits] at hCopy
        obtain ⟨frame, hFrame, -, -⟩ := exists_broadcastOnInterface hCopy env.pointers
        exact ⟨_, hFrame, trivial⟩
    rw [if_neg hNonempty, hRead, hBroadcast]
    rfl

/-- Bytes that begin with a message of an application, or too few for one. -/
def ReadOfMessages (data : List UInt8) : Prop :=
  data.length < sizeofMIPDMessage ∨ ∃ (message : MIPDMessage) (bytes rest : List UInt8),
    message.serialize = some bytes ∧ data = bytes ++ rest

/-- A message is sent under the address of the first interface, so there must be one where
anything is cached. -/
theorem handleDomainSocketRequest_continues
    (hInterfaces : server.cache.entries ≠ [] → server.iTable.interfaces ≠ [])
    (message : MIPDMessage) : (server.handleDomainSocketRequest message).continues := by
  by_cases hUnknown : server.cache.queryMipAddressSrcSocket message.mipAddress = -1
  · have hNone : server.handleDomainSocketRequest message = server.finish 0 [] := if_pos hUnknown
    rw [hNone]
    rfl
  · have hEntries : server.cache.entries ≠ [] := by
      intro hEmpty
      exact hUnknown (by rw [MipArpCache.queryMipAddressSrcSocket, hEmpty]; rfl)
    obtain ⟨package, hSent⟩ := exists_handleDomainSocketRequest (hInterfaces hEntries) hUnknown
    rw [hSent]
    rfl

/-- Sent or queued, a message of the application never ends the loop. -/
theorem handleApplicationMessage_continues
    (hInterfaces : server.cache.entries ≠ [] → server.iTable.interfaces ≠ [])
    (message : MIPDMessage) : (server.handleApplicationMessage message env).continues := by
  unfold handleApplicationMessage
  simp only [createQueueable_eq]
  split
  · exact requestForwarding_continues _ _
  · exact handleDomainSocketRequest_continues hInterfaces message

/-- Nor does anything that is read of whole messages. -/
theorem appBranch_continues
    (hInterfaces : server.cache.entries ≠ [] → server.iTable.interfaces ≠ [])
    (hData : ReadOfMessages event.data) : (server.appBranch event env).continues := by
  unfold appBranch
  simp only
  split_ifs with hEnd hShort
  · rfl
  · rfl
  · rcases hData with hFew | ⟨message, bytes, rest, hMessage, hBytes⟩
    · exact absurd ((List.length_take_le' _ _).trans_lt hFew) hShort
    · rw [hBytes]
      split
      · rename_i hNone
        obtain ⟨received, hReceived⟩ := MIPDMessage.exists_deserialize hMessage
        cases hNone.symm.trans hReceived
      · exact handleApplicationMessage_continues hInterfaces _

end MIPDServer

end MipStack
