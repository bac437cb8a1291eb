import MipStack.Mipd.MIPDServer

/-! What mipd makes of an ARP package: the frame of its answer, and the address that
it caches for the neighbour. -/
namespace MipStack

namespace MipArpCache

variable {cache cache' : MipArpCache} {srcSocket now : ℤ} {address : MIPAddress}
  {interface : MacAddress} {entry : MipArpCacheEntry}

/-- Only the entry for the address is new. -/
theorem mem_appendToCache
    (h : cache.appendToCache srcSocket address interface now = .ok cache') :
    (⟨address, srcSocket, interface, now⟩ : MipArpCacheEntry) ∈ cache'.entries ∧
      ∀ entry ∈ cache'.entries, entry ∈ cache.entries ∨
        entry = ⟨address, srcSocket, interface, now⟩ := by
  obtain ⟨-, -, hWritten⟩ := appendToCache_eq_ok h
  rcases hWritten with ⟨pos, hPos, hEntries⟩ | ⟨-, hEntries⟩
  · obtain ⟨hLt, -⟩ := List.findIdx?_eq_some_iff_getElem.mp hPos
    rw [hEntries]
    exact ⟨List.mem_set hLt _, fun entry hMem => List.mem_or_eq_of_mem_set hMem⟩
  · rw [hEntries]
    refine ⟨List.mem_append_right _ (List.mem_singleton.mpr rfl), fun entry hMem => ?_⟩
    exact (List.mem_append.mp hMem).imp_right List.mem_singleton.mp

/-- The request for an interface. -/
def requestOf (record : InterfaceRecord) : MIPPackage :=
  MIPPackage.createMipArpRequestPacket record.mipAddress record.interface

/-- A new round of requests leaves no new entries, and everything it sends are
requests. -/
theorem updateArpCache_spec (table : InterfaceTable) (cache : MipArpCache) (clock : Clock) :
    (updateArpCache table cache clock).1.entries ⊆ cache.entries ∧
      ∀ output ∈ (updateArpCache table cache clock).2, ∃ record ∈ table.interfaces,
        output = .sendto record.rawSocket (requestOf record) := by
  have hSub := sweep_sublist (cache.updateFreq * 2) cache.entries.length 0 clock cache.entries
  rw [updateArpCache]
  split_ifs
  · refine ⟨hSub.subset, fun output hMem => ?_⟩
    obtain ⟨record, hRecord, rfl⟩ := List.mem_map.mp hMem
    exact ⟨record, hRecord, rfl⟩
  · exact ⟨hSub.subset, fun output hMem => absurd hMem List.not_mem_nil⟩

/-- The answer to a request, with the bytes of the two pointers for its addresses. -/
def responseOf (record : InterfaceRecord) (address : MIPAddress) (pointers : ℕ → PointerBytes) :
    MIPPackage :=
  { eFrame := {
      dstAddr := ByteLayout.field 6 0 (pointers 1).toList
      srcAddr := ByteLayout.field 6 0 (pointers 0).toList
      ethProto := ethProtoMip }
    mHeader := { tra := 0, ttl := 15, payloadLen := 0, dstAddr := address,
                 srcAddr := record.mipAddress }
    message := [] }

/-- A request is answered and its sender cached. That the broadcast address cannot be cached does
not keep it from an answer. -/
theorem handleMipArpRequest_eq (cache : MipArpCache) (received : MIPPackage)
    (record : InterfaceRecord) (pointers : ℕ → PointerBytes) (now : ℤ) :
    cache.handleMipArpRequest received record pointers now =
      match cache.appendToCache record.rawSocket received.mHeader.srcAddr record.sllAddr now with
      | .ok cache => .ok (cache,
          [.sendto record.rawSocket (responseOf record received.mHeader.srcAddr pointers)])
      | .error .error => .ok (cache,
          [.sendto record.rawSocket (responseOf record received.mHeader.srcAddr pointers)])
      | .error .fault => .error .fault := by
  rw [handleMipArpRequest, MIPPackage.createRaw_eq (by decide : 0 < 5) (Nat.zero_le _)]
  rfl

end MipArpCache

namespace MIPDServer

/-- An ARP package is made without a message. -/
structure IsArp (package : MIPPackage) : Prop where
  tra : package.mHeader.tra = 0 ∨ package.mHeader.tra = 1
  payloadLen : package.mHeader.payloadLen = 0
  message : package.message = []

variable {server : MIPDServer} {package : MIPPackage} {record : InterfaceRecord} {fd : ℤ}
  {pointer : PointerBytes} {env : Env}

/-- An ARP package that was sent is received with its header. -/
theorem exists_receivePackage (h : IsArp package) (pointer : PointerBytes) (env : Env) :
    ∃ received, receivePackage (sendtoRawMipPackage package pointer) env = some received ∧
      received.mHeader = package.mHeader := by
  have hCreate : MIPPackage.create package.eFrame package.mHeader [] = some package := by
    refine MIPPackage.create_eq_some_iff.mpr ⟨Nat.zero_le _, ?_⟩
    obtain ⟨eFrame, ⟨tra, ttl, payloadLen, dstAddr, srcAddr⟩, message⟩ := package
    obtain rfl : payloadLen = 0 := h.payloadLen
    obtain rfl : message = [] := h.message
    rfl
  obtain ⟨empty, received, hEmpty, hRecv, -, hHeader, -⟩ :=
    MIPPackage.exists_recv_of_create hCreate pointer env.heap
  refine ⟨received, ?_, ?_⟩
  · rw [receivePackage, hEmpty]
    exact hRecv
  · rw [hHeader]
    obtain ⟨eFrame, ⟨tra, ttl, payloadLen, dstAddr, srcAddr⟩, message⟩ := package
    obtain rfl : payloadLen = 0 := h.payloadLen
    rfl

/-- A request is answered and a response is not; both cache their sender, unless it
has no slot in the cache. -/
theorem handleRawSocketFrame_of_arp (hRecord : server.iTable.recordForSocket fd = some record)
    (h : IsArp package) (hAddress : package.mHeader.srcAddr ≠ 255) (pointer : PointerBytes)
    (env : Env) :
    server.handleRawSocketFrame fd (sendtoRawMipPackage package pointer) env =
      match server.cache.appendToCache (if package.mHeader.tra = 0 then fd else record.rawSocket)
        package.mHeader.srcAddr record.sllAddr (env.clock 0) with
      | .error e => server.halt e
      | .ok cache => { server with cache }.finish 0 (if package.mHeader.tra = 0 then [] else
          [.sendto record.rawSocket
            (MipArpCache.responseOf record package.mHeader.srcAddr env.pointers)]) := by
  obtain ⟨received, hReceive, hHeader⟩ := exists_receivePackage h pointer env
  have hReceived : server.handleRawSocketFrame fd (sendtoRawMipPackage package pointer) env =
      server.handleReceivedPackage fd record received env := by
    unfold handleRawSocketFrame
    rw [hReceive, hRecord]
  rw [hReceived, handleReceivedPackage, hHeader]
  rcases h.tra with hResponse | hRequest
  · cases hCache : server.cache.appendToCache fd package.mHeader.srcAddr record.sllAddr
      (env.clock 0) with
    | error e => simp only [if_pos hResponse, hCache]
    | ok cache => simp only [if_pos hResponse, hCache]
  · have hNotResponse : package.mHeader.tra ≠ 0 := by
      rw [hRequest]
      decide
    rw [if_neg hNotResponse, if_pos hRequest, if_neg hNotResponse, if_neg hNotResponse,
      MipArpCache.handleMipArpRequest_eq, hHeader]
    by_cases hSlot : server.cache.HasSlotFor package.mHeader.srcAddr
    · obtain ⟨cache, hCache⟩ : ∃ cache, server.cache.appendToCache record.rawSocket
          package.mHeader.srcAddr record.sllAddr (env.clock 0) = .ok cache :=
        MipArpCache.exists_appendToCache hAddress hSlot
      simp only [hCache]
    · simp only [MipArpCache.appendToCache_full hAddress hSlot]

/-- What is handled of an ARP package goes to the interface that it came from. -/
theorem handleRawSocketFrame_arp_cases
    (hRecord : server.iTable.recordForSocket fd = some record) (h : IsArp package)
    (hAddress : package.mHeader.srcAddr ≠ 255) (pointer : PointerBytes) (env : Env) :
    let o := server.handleRawSocketFrame fd (sendtoRawMipPackage package pointer) env
    ¬ server.cache.HasSlotFor package.mHeader.srcAddr ∧ o.server = server ∧ o.outputs = [] ∨
      ∃ cache socket, server.cache.appendToCache socket package.mHeader.srcAddr record.sllAddr
          (env.clock 0) = .ok cache ∧ o.server = { server with cache } ∧
        ∀ output ∈ o.outputs, output = .sendto record.rawSocket
          (MipArpCache.responseOf record package.mHeader.srcAddr env.pointers) := by
  rw [handleRawSocketFrame_of_arp hRecord h hAddress]
  by_cases hSlot : server.cache.HasSlotFor package.mHeader.srcAddr
  · obtain ⟨cache, hCache⟩ : ∃ cache, server.cache.appendToCache
        (if package.mHeader.tra = 0 then fd else record.rawSocket) package.mHeader.srcAddr
        record.sllAddr (env.clock 0) = .ok cache := MipArpCache.exists_appendToCache hAddress hSlot
    refine Or.inr ⟨cache, _, hCache, ?_⟩
    simp only [hCache, finish, true_and]
    intro output hMem
    split_ifs at hMem
    · exact absurd hMem List.not_mem_nil
    · exact List.mem_singleton.mp hMem
  · simp only [MipArpCache.appendToCache_full hAddress hSlot, halt]
    exact Or.inl ⟨hSlot, trivial, trivial⟩

/-- The answer of an interface to a request of another one. -/
structure AnswersRequest (o : Outcome) (asking answering : InterfaceRecord) : Prop where
  result : o.result = .ok 0
  response : ∃ response, o.outputs = [.sendto answering.rawSocket response] ∧
    response.mHeader.tra = 0 ∧
    response.mHeader.srcAddr = answering.mipAddress ∧
    response.mHeader.dstAddr = asking.mipAddress ∧
    response.eFrame.srcAddr = answering.interface ∧
    response.eFrame.dstAddr = asking.interface

/-- A request that mipd broadcasts is an ARP package, so the other hosts do handle it. -/
theorem isArp_requestOf (asking : InterfaceRecord) : IsArp (MipArpCache.requestOf asking) :=
  ⟨Or.inr rfl, rfl, rfl⟩

/-- The answer names the two interfaces only if the bytes of the pointers happen to be
their addresses. -/
theorem answersRequest_iff {asking : InterfaceRecord}
    (hRecord : server.iTable.recordForSocket fd = some record) (hAddress : asking.mipAddress ≠ 255)
    (pointer : PointerBytes) (env : Env) :
    AnswersRequest (server.handleRawSocketFrame fd
        (sendtoRawMipPackage (MipArpCache.requestOf asking) pointer) env) asking record ↔
      server.cache.HasSlotFor asking.mipAddress ∧
        ByteLayout.field 6 0 (env.pointers 0).toList = record.interface ∧
        ByteLayout.field 6 0 (env.pointers 1).toList = asking.interface := by
  have hTra : (MipArpCache.requestOf asking).mHeader.tra ≠ 0 := by
    show (1 : BitVec 3) ≠ 0
    decide
  have hHandled := handleRawSocketFrame_of_arp hRecord (isArp_requestOf asking) hAddress pointer env
  rw [if_neg hTra, if_neg hTra] at hHandled
  by_cases hSlot : server.cache.HasSlotFor asking.mipAddress
  · obtain ⟨cache, hCache⟩ : ∃ cache, server.cache.appendToCache record.rawSocket
        (MipArpCache.requestOf asking).mHeader.srcAddr record.sllAddr (env.clock 0) = .ok cache :=
      MipArpCache.exists_appendToCache hAddress hSlot
    simp only [hCache] at hHandled
    rw [hHandled]
    constructor
    · rintro ⟨-, response, hOutputs, -, -, -, hSrc, hDst⟩
      obtain ⟨-, rfl⟩ := Output.sendto.inj (List.cons.inj hOutputs).1
      exact ⟨hSlot, hSrc, hDst⟩
    · rintro ⟨-, hSrc, hDst⟩
      exact ⟨rfl, _, rfl, rfl, rfl, rfl, hSrc, hDst⟩
  · have hFull : server.cache.appendToCache record.rawSocket
        (MipArpCache.requestOf asking).mHeader.srcAddr record.sllAddr (env.clock 0) =
          .error .fault := MipArpCache.appendToCache_full hAddress hSlot
    simp only [hFull] at hHandled
    rw [hHandled]
    exact iff_of_false (fun h => nomatch h.result) fun h => hSlot h.1

end MIPDServer

end MipStack
