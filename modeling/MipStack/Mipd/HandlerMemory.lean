import MipStack.Mipd.PackageMemory

/-! What the handlers of mipd do in memory is what the plain ones do, and what of the memory they
leave behind. -/
namespace MipStack
open MIPDServer

variable {memory memory' : MipdMemory} {server : ServerObject} {plain : MIPDServer}
  {slots : List (Slot ForwardEntryObject)} {strays : Strays} {allocators : MipdAllocators}
  {package received : MIPPackage} {pointer : ℕ} {rest : List ℕ} {env : Env} {nextHop : MIPAddress}

instance (server : MIPDServer) (env : Env) : Decidable (server.CanRequest env) :=
  inferInstanceAs (Decidable (_ ∧ _))

/-- The server leaves its loop with a package that it has taken from the queue. -/
def MIPDServer.dropsAnswered (server : MIPDServer) (nextHop : MIPAddress) : Bool :=
  server.forwardQueue ≠ [] && server.cache.queryMipAddressSrcSocket nextHop = -1

/-- A routerd that is not connected, or not written to, is no error for the caller: 0 is returned
and nothing is queued. -/
theorem MIPDServer.requestForwarding_of_not {server : MIPDServer} (hCan : ¬ server.CanRequest env)
    (destination : MIPAddress) (package : MIPPackage) :
    server.requestForwarding destination package env = server.finish 0 [] :=
  if_neg hCan

/-- Only a next hop that is not cached is an error. -/
theorem MIPDServer.loadForwardPackage_eq_error {server : MIPDServer}
    {waiting : Option MIPPackage} :
    server.loadForwardPackage waiting nextHop = .error .error ↔
      server.cache.queryMipAddressSrcSocket nextHop = -1 := by
  unfold MIPDServer.loadForwardPackage
  by_cases hSocket : server.cache.queryMipAddressSrcSocket nextHop = -1
  · simp only [if_pos hSocket]
    exact iff_of_true trivial hSocket
  · simp only [if_neg hSocket]
    refine iff_of_false ?_ hSocket
    split <;> simp

namespace Keeps

/-- Another cache, and nothing else. -/
theorem withCache (h : Keeps memory server plain slots strays) (cache : MipArpCache) :
    Keeps memory { server with cache } { plain with cache } slots strays := by
  refine { h with view := ?_ }
  rw [← h.view]
  rfl

theorem cache_eq (h : Keeps memory server plain slots strays) : server.cache = plain.cache := by
  rw [← h.view]
  rfl

theorem iTable_eq (h : Keeps memory server plain slots strays) : server.iTable = plain.iTable := by
  rw [← h.view]
  rfl

/-- Each request is built, sent and freed, so a broadcast on all interfaces leaves no package
behind. -/
theorem completeMipArp (h : Keeps memory server plain slots strays) (allocators : MipdAllocators)
    (table : InterfaceTable) (cache : MipArpCache) (now : ℤ) :
    memory.completeMipArp allocators table cache now =
      .ok (memory, MipArpCache.completeMipArp table cache now) := by
  have hLoop : ∀ (records : List InterfaceRecord) (outputs : List Output),
      records.foldlM (MipdMemory.arpRequestTurn allocators) (memory, outputs) =
        .ok (memory, outputs ++ records.map fun record => .sendto record.rawSocket
          (MIPPackage.createMipArpRequestPacket record.mipAddress record.interface)) := by
    intro records
    induction records with
    | nil =>
        intro outputs
        rw [List.map_nil, List.append_nil]
        rfl
    | cons record rest ih =>
        intro outputs
        rw [List.foldlM_cons, MipdMemory.arpRequestTurn, h.sendNew]
        refine (ih _).trans ?_
        rw [List.map_cons, List.append_assoc]
        rfl
  simp only [MipdMemory.completeMipArp, hLoop, bind, Except.bind]
  rfl

theorem updateArpCache (h : Keeps memory server plain slots strays) (allocators : MipdAllocators)
    (table : InterfaceTable) (cache : MipArpCache) (clock : Clock) :
    memory.updateArpCache allocators table cache clock =
      .ok (memory, MipArpCache.updateArpCache table cache clock) := by
  unfold MipdMemory.updateArpCache MipArpCache.updateArpCache MipArpCache.withoutExpired
  simp only
  split_ifs
  · exact h.completeMipArp allocators table _ _
  · rfl

/-- The response is sent before the cache is changed. -/
theorem handleMipArpRequest (h : Keeps memory server plain slots strays)
    (allocators : MipdAllocators) (cache : MipArpCache) (record : InterfaceRecord)
    (pointers : ℕ → PointerBytes) (now : ℤ) :
    memory.handleMipArpRequest allocators cache received record pointers now =
      match cache.handleMipArpRequest received record pointers now with
      | .error .fault => .error .fault
      | handled => .ok (memory, handled) := by
  have hFits : ([] : List UInt8).length ≤ payloadMaxSizeBytes := Nat.zero_le _
  simp only [MipdMemory.handleMipArpRequest, MipArpCache.handleMipArpRequest,
    MIPPackage.createRaw_eq (by decide : 0 < 5) hFits, h.sendNew, bind, Except.bind]
  cases cache.appendToCache record.rawSocket received.mHeader.srcAddr record.sllAddr now with
  | ok cache => rfl
  | error halt =>
      cases halt with
      | error => rfl
      | fault => rfl

/-- A package that is asked about is in the queue; any other one stays where it was. -/
theorem requestForwarding (h : Keeps memory server plain slots strays)
    (hStrays : strays.packages = pointer :: rest)
    (hPackage : memory.packages pointer = some package)
    (allocators : MipdAllocators) (destination : MIPAddress) (env : Env) :
    Matches (server.requestForwarding memory allocators destination pointer env)
      (plain.requestForwarding destination package env)
      (if plain.CanRequest env then { strays with packages := rest } else strays) := by
  have hSocket : server.forwardSocket = plain.forwardSocket := by
    rw [← h.view]
    rfl
  by_cases hCan : plain.CanRequest env
  · have hWritten : server.forwardSocket.connectedSocketFd ≠ -1 ∧ env.forwardWritten := by
      rw [hSocket]
      exact hCan
    obtain ⟨memory', queue', slots', hPush, hAfter⟩ :=
      h.push allocators hStrays hPackage (env.clock 0)
    rw [if_pos hCan, requestForwarding_eq hCan, ServerObject.requestForwarding, if_pos hWritten]
    simp only [Heap.read_of_live hPackage, hPush, bind, Except.bind]
    exact hAfter.finish 1 _
  · have hWritten : ¬ (server.forwardSocket.connectedSocketFd ≠ -1 ∧ env.forwardWritten) := by
      rw [hSocket]
      exact hCan
    rw [if_neg hCan, requestForwarding_of_not hCan, ServerObject.requestForwarding, if_neg hWritten]
    exact h.finish 0 []

/-- A waiting package is loaded in its place: addresses are written into it, and it is sent from
where it lies. -/
theorem loadForwardPackage (h : Keeps memory server plain slots strays)
    (hPackage : memory.packages pointer = some package) (nextHop : MIPAddress) :
    server.loadForwardPackage memory (some pointer) nextHop =
      match plain.loadForwardPackage (some package) nextHop with
      | .error .error => .ok none
      | .error .fault => .error .fault
      | .ok loaded => .ok (some { memory with
          packages := Function.update memory.packages pointer (some loaded) }) := by
  unfold ServerObject.loadForwardPackage MIPDServer.loadForwardPackage
  rw [h.cache_eq, h.iTable_eq]
  by_cases hSocket : plain.cache.queryMipAddressSrcSocket nextHop = -1
  · simp only [if_pos hSocket]
  · simp only [if_neg hSocket]
    generalize plain.iTable.recordForSocket (plain.cache.queryMipAddressSrcSocket nextHop) = record
    generalize (plain.cache.entries.find? fun entry => entry.mipAddress = nextHop) = found
    cases record with
    | none => rfl
    | some record =>
        cases found with
        | none => rfl
        | some entry => simp only [Heap.modify_of_live _ hPackage, bind, Except.bind]

/-- With an empty queue the package is NULL. The cache is asked first, so an unknown next hop is
an error and a known one makes the handler read through NULL. -/
theorem loadForwardPackage_null (h : Keeps memory server plain slots strays)
    (nextHop : MIPAddress) :
    server.loadForwardPackage memory none nextHop =
      if plain.cache.queryMipAddressSrcSocket nextHop = -1 then .ok none else .error .fault := by
  rw [ServerObject.loadForwardPackage, h.cache_eq, h.iTable_eq]
  by_cases hSocket : plain.cache.queryMipAddressSrcSocket nextHop = -1
  · simp only [if_pos hSocket]
  · simp only [if_neg hSocket]
    cases plain.iTable.recordForSocket (plain.cache.queryMipAddressSrcSocket nextHop) with
    | none => rfl
    | some record =>
        cases plain.cache.entries.find? fun entry => entry.mipAddress = nextHop with
        | none => rfl
        | some entry => rfl

/-- A package that is sent is freed: it is no stray any more. -/
theorem sendtoRawMipPackage (h : Keeps memory server plain slots strays)
    (hStrays : strays.packages = pointer :: rest)
    (hPackage : memory.packages pointer = some package)
    (socket : ℤ) : ∃ memory',
      memory.sendtoRawMipPackage socket pointer = .ok (memory', .sendto socket package) ∧
      Keeps memory' server plain slots { strays with packages := rest } := by
  obtain ⟨memory', hDestroy, hAfter⟩ := h.destroyPackage hStrays
  refine ⟨memory', ?_, hAfter⟩
  simp only [MipdMemory.sendtoRawMipPackage, Heap.read_of_live hPackage, hDestroy, bind,
    Except.bind]

/-- The package for the answer is sent and freed, dropped and freed for the answer 255, and left
behind where the next hop is not cached. -/
theorem handleForwardResponse (h : Keeps memory server plain slots strays) (nextHop : MIPAddress) :
    ∃ more : List ℕ, more.length = (if plain.dropsAnswered nextHop then 1 else 0) ∧
      Matches (server.handleForwardResponse memory nextHop) (plain.handleForwardResponse nextHop)
        { strays with packages := more ++ strays.packages } := by
  cases hQueue : plain.forwardQueue with
  | nil =>
      have hPlain : ({ plain with forwardQueue := [] } : MIPDServer) = plain := by
        rw [← hQueue]
      refine ⟨[], by simp [MIPDServer.dropsAnswered, hQueue], ?_⟩
      simp only [ServerObject.handleForwardResponse, h.pop_nil hQueue,
        MIPDServer.handleForwardResponse, hQueue, forwardQueuePop, hPlain, bind, Except.bind,
        List.nil_append, h.loadForwardPackage_null, MIPDServer.loadForwardPackage]
      split_ifs with hSocket
      · exact h.halt
      · cases plain.iTable.recordForSocket (plain.cache.queryMipAddressSrcSocket nextHop) with
        | none => exact .fault rfl
        | some record =>
            cases plain.cache.entries.find? fun entry => entry.mipAddress = nextHop with
            | none => exact .fault rfl
            | some found => exact .fault rfl
  | cons entry entries =>
      obtain ⟨memory₁, queue', pointer, front, hPop, hPackage, hKeeps⟩ := h.pop hQueue
      have hLoad := hKeeps.loadForwardPackage hPackage nextHop
      have hDrops : plain.dropsAnswered nextHop =
          decide (plain.cache.queryMipAddressSrcSocket nextHop = -1) := by
        simp [MIPDServer.dropsAnswered, hQueue]
      have hError : MIPDServer.loadForwardPackage { plain with forwardQueue := entries }
          (some entry.package) nextHop = .error .error ↔
            plain.cache.queryMipAddressSrcSocket nextHop = -1 :=
        MIPDServer.loadForwardPackage_eq_error
      simp only [ServerObject.handleForwardResponse, hPop, MIPDServer.handleForwardResponse, hQueue,
        forwardQueuePop, bind, Except.bind, hLoad, hDrops, decide_eq_true_eq]
      cases hPlain : MIPDServer.loadForwardPackage { plain with forwardQueue := entries }
          (some entry.package) nextHop with
      | error halt =>
          cases halt with
          | error => exact ⟨[pointer], by rw [if_pos (hError.mp hPlain)]; rfl, hKeeps.halt⟩
          | fault =>
              rw [if_neg fun hSocket => by simp [hError.mpr hSocket] at hPlain]
              exact ⟨[], rfl, .fault rfl⟩
      | ok loaded =>
          rw [if_neg fun hSocket => by simp [hError.mpr hSocket] at hPlain]
          have hLoaded := hKeeps.overwrite List.mem_cons_self loaded
          obtain ⟨memory₂, hSend, hSent⟩ := hLoaded.sendtoRawMipPackage rfl
            (Function.update_self ..) (server.cache.queryMipAddressSrcSocket nextHop)
          simp only [hSend]
          refine ⟨[], rfl, ?_⟩
          simpa only [h.cache_eq, List.nil_append] using hSent.finish 1
            [.sendto (server.cache.queryMipAddressSrcSocket nextHop) loaded]

/-- Messages, buffers and tables are kept apart from the queue, so an allocation of one of them
disturbs nothing else. -/
theorem withMessages (h : Keeps memory server plain slots strays) {heap : Heap MIPDMessage}
    {messages : List ℕ} (hAllocated : heap.Allocated messages) :
    Keeps { memory with messages := heap } server plain slots { strays with messages } :=
  { h with messages := hAllocated }

theorem withBuffers (h : Keeps memory server plain slots strays) {heap : Heap (List UInt8)}
    {buffers : List ℕ} (hAllocated : heap.Allocated buffers) :
    Keeps { memory with buffers := heap } server plain slots { strays with buffers } :=
  { h with buffers := hAllocated }

theorem withTables (h : Keeps memory server plain slots strays) {heap : Heap (List UInt8)}
    {tables : List ℕ} (hAllocated : heap.Allocated tables) :
    Keeps { memory with tables := heap } server plain slots { strays with tables } :=
  { h with tables := hAllocated }

/-- A buffer that is allocated is a stray until someone frees it. -/
theorem allocBuffer (h : Keeps memory server plain slots strays) (allocators : MipdAllocators)
    (bytes : List UInt8) :
    Keeps { memory with
      buffers := memory.buffers.alloc (allocators.buffer.malloc memory.buffers) bytes } server plain
      slots { strays with
        buffers := allocators.buffer.malloc memory.buffers :: strays.buffers } :=
  h.withBuffers (h.buffers.alloc (allocators.buffer.fresh_of_allocated h.buffers) bytes)

theorem allocMessage (h : Keeps memory server plain slots strays) (allocators : MipdAllocators)
    (message : MIPDMessage) :
    Keeps { memory with
      messages := memory.messages.alloc (allocators.message.malloc memory.messages) message } server
      plain slots { strays with
        messages := allocators.message.malloc memory.messages :: strays.messages } :=
  h.withMessages (h.messages.alloc (allocators.message.fresh_of_allocated h.messages) message)

theorem allocTable (h : Keeps memory server plain slots strays) (allocators : MipdAllocators)
    (bytes : List UInt8) :
    Keeps { memory with
      tables := memory.tables.alloc (allocators.table.malloc memory.tables) bytes } server plain
      slots { strays with tables := allocators.table.malloc memory.tables :: strays.tables } :=
  h.withTables (h.tables.alloc (allocators.table.fresh_of_allocated h.tables) bytes)

/-- The same for a buffer that a helper returns to its caller. -/
theorem createBuffer (h : Keeps memory server plain slots strays) (allocators : MipdAllocators)
    (bytes : List UInt8) :
    Keeps (memory.createBuffer allocators bytes).2 server plain slots
      { strays with
        buffers := (memory.createBuffer allocators bytes).1 :: strays.buffers } :=
  h.allocBuffer allocators bytes

/-- Of the text for the log the two parts stay. -/
theorem logReceived (h : Keeps memory server plain slots strays) (allocators : MipdAllocators)
    (package : MIPPackage) :
    ∃ memory' eFrameStr mHeaderStr, memory.logReceived allocators package = .ok memory' ∧
      memory'.packages = memory.packages ∧
      Keeps memory' server plain slots
        { strays with buffers := mHeaderStr :: eFrameStr :: strays.buffers } := by
  have hFrame := h.createBuffer allocators (stringBuffer (etherFrameToString package.eFrame) 256)
  have hHeader := hFrame.createBuffer allocators
    (stringBuffer (mipHeaderToString package.mHeader) 256)
  let mPString := "-------- MIP package --------\n" ++ etherFrameToString package.eFrame ++
    mipHeaderToString package.mHeader ++ "-------- MIP Package END --------\n"
  have hString := hHeader.createBuffer allocators
    (stringBuffer mPString (mPString.utf8ByteSize + 4))
  obtain ⟨hFree, hRest⟩ := hString.buffers.free
  refine ⟨_, _, _, ?_, ?_, hString.withBuffers hRest⟩
  · simp only [MipdMemory.logReceived, MipdMemory.packageToString, mPString] at hFree ⊢
    rw [hFree]
    rfl
  · rfl

/-- The zeros of the empty package stay: they are copied into it and never freed. -/
theorem createEmpty (h : Keeps memory server plain slots strays) (allocators : MipdAllocators) :
    ∃ pointer buffer memory' empty, memory.createEmpty allocators = some (pointer, memory') ∧
      MIPPackage.createEmpty = some empty ∧ memory'.packages pointer = some empty ∧
      Keeps memory' server plain slots
        { strays with
          packages := pointer :: strays.packages
          buffers := buffer :: strays.buffers } := by
  obtain ⟨empty, hEmpty, -⟩ := MIPPackage.exists_createEmpty
  have hBuffer := h.allocBuffer allocators (List.replicate (payloadMaxWordNum * mipPayloadWord) 0)
  refine ⟨_, _, _, empty, ?_, hEmpty, Heap.alloc_same, hBuffer.createPackage allocators empty⟩
  rw [MipdMemory.createEmpty, hEmpty]
  rfl

/-- A copy stays for every table that is handed to routerd. -/
theorem recvRouteTableBroadcast (h : Keeps memory server plain slots strays)
    (hPackage : memory.packages pointer = some package) (allocators : MipdAllocators) :
    ∃ tables : List ℕ,
      tables.length = (if plain.routeSocket.connectedSocketFd ≠ -1 then 1 else 0) ∧
      Matches (server.recvRouteTableBroadcast memory allocators pointer)
        (plain.recvRouteTableBroadcast package)
        { strays with tables := tables ++ strays.tables } := by
  have hSocket : server.routeSocket = plain.routeSocket := by
    rw [← h.view]
    rfl
  unfold ServerObject.recvRouteTableBroadcast MIPDServer.recvRouteTableBroadcast
  rw [hSocket]
  by_cases hConnected : plain.routeSocket.connectedSocketFd = -1
  · simp only [if_pos hConnected, if_neg (not_not.mpr hConnected)]
    exact ⟨[], rfl, h.finish 0 []⟩
  · simp only [if_neg hConnected, if_pos hConnected, Heap.read_of_live hPackage, bind, Except.bind]
    exact ⟨[_], rfl, (h.allocTable allocators _).finish 1 _⟩

variable {tmp table : ℕ} {bytes : List UInt8}

/-- One turn of the loop over the interfaces leaves nothing but its copy at `tmp`. -/
theorem broadcastTurn (h : Keeps memory server plain slots strays)
    (hTable : memory.tables table = some bytes) (hTmp : tmp ∈ strays.tables)
    (allocators : MipdAllocators) (record : InterfaceRecord) (pointers : ℕ → PointerBytes)
    (outputs : List Output) :
    (broadcastOnInterface plain.cache (.ofBytes bytes) pointers record = .error .fault ∧
      server.broadcastTurn allocators table tmp pointers (memory, outputs) record =
        .error .fault) ∨
    ∃ copy output,
      broadcastOnInterface plain.cache (.ofBytes bytes) pointers record = .ok output ∧
      server.broadcastTurn allocators table tmp pointers (memory, outputs) record =
        .ok ({ memory with tables := Function.update memory.tables tmp (some copy) },
          outputs ++ [output]) := by
  obtain ⟨cell, hCell⟩ := h.tables.exists_live hTmp
  unfold ServerObject.broadcastTurn broadcastOnInterface
  simp only [Heap.read_of_live hTable, h.cache_eq, bind, Except.bind]
  cases splitHorizonCopy plain.cache record (.ofBytes bytes) with
  | none => exact Or.inl ⟨rfl, rfl⟩
  | some copy =>
      have hNext := h.withTables (h.tables.overwrite hTmp copy.toBytes)
      simp only [Heap.modify_of_live _ hCell]
      cases MIPPackage.createRaw record.mipAddress ⟨pointers 0, record.interface⟩ 255
          ⟨pointers 1, ethBroadcastAddr⟩ copy.toBytes 2 with
      | none => exact Or.inl ⟨rfl, rfl⟩
      | some package =>
          simp only [hNext.sendNew]
          exact Or.inr ⟨copy.toBytes, _, rfl, rfl⟩

/-- The loop over the interfaces works on one copy of the table, which it fills anew in each turn;
the table itself is only read. -/
theorem broadcastTurns (records : List InterfaceRecord) (pointers : ℕ → PointerBytes)
    (outputs : List Output) (h : Keeps memory server plain slots strays)
    (hTable : memory.tables table = some bytes) (hTmp : tmp ∈ strays.tables) (hNe : table ≠ tmp) :
    (records.mapM (broadcastOnInterface plain.cache (.ofBytes bytes) pointers) = .error .fault ∧
      records.foldlM (server.broadcastTurn allocators table tmp pointers) (memory, outputs) =
        .error .fault) ∨
    ∃ memory' frames,
      records.mapM (broadcastOnInterface plain.cache (.ofBytes bytes) pointers) = .ok frames ∧
      records.foldlM (server.broadcastTurn allocators table tmp pointers) (memory, outputs) =
        .ok (memory', outputs ++ frames) ∧ Keeps memory' server plain slots strays := by
  induction records generalizing memory outputs with
  | nil => exact Or.inr ⟨memory, [], rfl, by rw [List.append_nil]; rfl, h⟩
  | cons record rest ih =>
      rw [List.mapM_cons, List.foldlM_cons]
      rcases h.broadcastTurn hTable hTmp allocators record pointers outputs with
        ⟨hFault, hTurn⟩ | ⟨copy, output, hOutput, hTurn⟩
      · rw [hFault, hTurn]
        exact Or.inl ⟨rfl, rfl⟩
      · rw [hOutput, hTurn]
        have hNext := h.withTables (h.tables.overwrite hTmp copy)
        have hStays : Function.update memory.tables tmp (some copy) table = some bytes :=
          (Function.update_of_ne hNe ..).trans hTable
        rcases ih (outputs ++ [output]) hNext hStays with
          ⟨hFaults, hTurns⟩ | ⟨memory', frames, hFrames, hTurns, hKeeps⟩
        · rw [hFaults]
          exact Or.inl ⟨rfl, hTurns⟩
        · rw [hFrames]
          refine Or.inr ⟨memory', output :: frames, rfl, hTurns.trans ?_, hKeeps⟩
          rw [List.append_assoc]
          rfl

/-- Both copies of the table are given back, the one that is read and the one that is poisoned for
each interface. -/
theorem broadcastRouteTable (h : Keeps memory server plain slots strays)
    {rest : List ℕ} (hStrays : strays.tables = table :: rest)
    (hTable : memory.tables table = some bytes) (allocators : MipdAllocators)
    (pointers : ℕ → PointerBytes) :
    Matches (server.broadcastRouteTable memory allocators table pointers)
      (match MipStack.broadcastRouteTable plain.iTable plain.cache (.ofBytes bytes) pointers with
        | .error e => plain.halt e
        | .ok outputs => plain.finish 1 outputs) { strays with tables := rest } := by
  have hFresh := allocators.table.fresh_of_allocated h.tables
  have hNe : table ≠ allocators.table.malloc memory.tables := by
    rintro hEq
    rw [hEq, hFresh] at hTable
    cases hTable
  have hTmp := h.allocTable allocators []
  have hStays : memory.tables.alloc (allocators.table.malloc memory.tables) [] table = some bytes :=
    (Heap.alloc_of_ne hNe).trans hTable
  unfold ServerObject.broadcastRouteTable MipStack.broadcastRouteTable
  simp only [h.iTable_eq]
  rcases hTmp.broadcastTurns plain.iTable.interfaces pointers [] hStays List.mem_cons_self hNe with
    ⟨hFault, hFault'⟩ | ⟨memory', frames, hFrames, hTurns, hKeeps⟩
  · rw [hFault']
    simp only [hFault, bind, Except.bind]
    exact .fault rfl
  · have hBoth : memory'.tables.Allocated
        (table :: allocators.table.malloc memory.tables :: rest) :=
      hKeeps.tables.perm (by rw [hStrays]; exact List.Perm.swap ..)
    obtain ⟨hFree, hLeft⟩ := hBoth.free
    obtain ⟨hFree', hRest⟩ := hLeft.free
    simp only [hFrames, hTurns, hFree, hFree', bind, Except.bind]
    exact (hKeeps.withTables hRest).finish 1 frames

/-- The message for the application is built, written and freed with its data. -/
theorem handleMIPPackageForApplication (h : Keeps memory server plain slots strays)
    (hPackage : memory.packages pointer = some received) (allocators : MipdAllocators) :
    Matches (server.handleMIPPackageForApplication memory allocators pointer)
      (plain.handleMIPPackageForApplication received) strays := by
  have hSocket : server.appSocket = plain.appSocket := by
    rw [← h.view]
    rfl
  unfold ServerObject.handleMIPPackageForApplication MIPDServer.handleMIPPackageForApplication
  rw [hSocket]
  by_cases hConnected : plain.appSocket.connectedSocketFd = -1
  · simp only [if_pos hConnected]
    exact h.finish 0 []
  · simp only [if_neg hConnected, Heap.read_of_live hPackage, bind, Except.bind]
    cases MIPDMessage.create received.mHeader.srcAddr (received.mHeader.payloadLen.toNat * 4)
        received.message with
    | none => exact h.halt
    | some message =>
        obtain ⟨hFree, hRest⟩ := (h.messages.alloc
          (allocators.message.fresh_of_allocated h.messages) message).free
        simp only [MIPDMessage.serialize_eq, hFree]
        exact (h.withMessages hRest).finish 1 _

end Keeps

end MipStack
