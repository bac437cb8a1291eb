import MipStack.Mipd.HandlerMemory

/-! Every branch of the loop in `MIPDServer_run` in memory, and exactly what it leaves behind. -/
namespace MipStack
open MIPDServer

variable {memory : MipdMemory} {server : ServerObject} {plain : MIPDServer}
  {slots : List (Slot ForwardEntryObject)} {strays : Strays} {received : MIPPackage}
  {message : MIPDMessage} {pointer : ℕ} {rest : List ℕ} {env : Env}

/-- What is never given back. -/
structure Leaks where
  packages : ℕ
  buffers : ℕ
  tables : ℕ
  deriving DecidableEq, Repr

namespace Leaks

def none : Leaks := { packages := 0, buffers := 0, tables := 0 }

def add (leaks more : Leaks) : Leaks :=
  { packages := more.packages + leaks.packages
    buffers := more.buffers + leaks.buffers
    tables := more.tables + leaks.tables }

end Leaks

def Strays.leaks (strays : Strays) : Leaks :=
  { packages := strays.packages.length
    buffers := strays.buffers.length
    tables := strays.tables.length }

instance (server : MIPDServer) (received : MIPPackage) : Decidable (server.MustForward received) :=
  inferInstanceAs (Decidable (_ ∧ _ ∧ _))

namespace MIPDServer

/-- The package itself where routerd could not be asked, and a copy of the table that a routerd
was given. -/
def receivedLeaks (server : MIPDServer) (received : MIPPackage) (env : Env) : Leaks :=
  { packages := if server.MustForward received ∧ ¬ server.CanRequest env then 1 else 0
    buffers := 0
    tables :=
      if received.mHeader.tra = 2 ∧ server.routeSocket.connectedSocketFd ≠ -1 then 1 else 0 }

/-- ARP frames and packages for this host leave nothing of the package behind. -/
theorem receivedLeaks_eq_none (server : MIPDServer) (hForward : ¬ server.MustForward received)
    (hRoute : received.mHeader.tra ≠ 2) (env : Env) :
    server.receivedLeaks received env = .none := by
  rw [receivedLeaks, if_neg (mt And.left hForward), if_neg (mt And.left hRoute)]
  rfl

/-- No message of an application makes mipd leave its loop: what cannot be sent or asked about is
dropped. -/
theorem handleApplicationMessage_result (server : MIPDServer) (message : MIPDMessage) (env : Env) :
    (server.handleApplicationMessage message env).result ≠ .error .error := by
  unfold handleApplicationMessage
  simp only [createQueueable_eq]
  split
  · unfold requestForwarding
    split_ifs <;> simp [finish]
  · unfold handleDomainSocketRequest
    simp only
    split_ifs
    · simp [finish]
    · split
      · split <;> simp [finish, halt]
      · simp [halt]

/-- The buffer of the empty package, the two parts of the text for the log, and what the received
package leaves behind. -/
def frameLeaks (server : MIPDServer) (frame : List UInt8) (env : Env) : Leaks :=
  match receivePackage frame env with
  | none => .none
  | some received => { server.receivedLeaks received env with buffers := 3 }

/-- The answer makes the server leave its loop: the next hop is not cached, or no package waits
for the answer that there is none. -/
def endsAt (server : MIPDServer) (nextHop : MIPAddress) : Bool :=
  if forwardFound nextHop then server.cache.queryMipAddressSrcSocket nextHop = -1
  else server.forwardQueue.isEmpty

/-- The package, where the server cannot send it to the next hop, and the answer itself where
the loop is left. -/
def answerLeaks (server : MIPDServer) (data : List UInt8) : Leaks :=
  match data with
  | [] => .none
  | nextHop :: _ =>
    { packages := if forwardFound nextHop ∧ server.dropsAnswered nextHop then 1 else 0
      buffers := if server.endsAt nextHop then 1 else 0
      tables := 0 }

/-- An answer leaves at most its own byte and no table. -/
theorem answerLeaks_bounds (server : MIPDServer) (data : List UInt8) :
    ((server.answerLeaks data).buffers = 0 ∨ (server.answerLeaks data).buffers = 1) ∧
      (server.answerLeaks data).tables = 0 := by
  cases data with
  | nil => exact ⟨Or.inl rfl, rfl⟩
  | cons nextHop _ =>
      refine ⟨?_, rfl⟩
      unfold answerLeaks
      cases server.endsAt nextHop <;> simp

/-- The byte of the answer stays exactly where the loop is left: the error of the handler jumps
over its free. -/
theorem forwardBranch_result (server : MIPDServer) (event : Event) :
    (server.forwardBranch event).result = .error .error ↔
      (server.answerLeaks event.data).buffers = 1 := by
  unfold forwardBranch answerLeaks endsAt
  cases event.data with
  | nil => simp [finish, Leaks.none]
  | cons nextHop _ =>
      by_cases hFound : forwardFound nextHop
      · simp only [hFound, if_true, handleForwardResponse, decide_eq_true_eq]
        let popped := forwardQueuePop server.forwardQueue
        have hError : MIPDServer.loadForwardPackage { server with forwardQueue := popped.2 }
            popped.1 nextHop = .error .error ↔
              server.cache.queryMipAddressSrcSocket nextHop = -1 := loadForwardPackage_eq_error
        cases hLoad : MIPDServer.loadForwardPackage { server with forwardQueue := popped.2 }
            popped.1 nextHop with
        | error halt =>
            rw [hLoad, Except.error.injEq] at hError
            simp [MIPDServer.halt, ← hError]
        | ok package =>
            rw [hLoad] at hError
            simp [finish, ← hError]
      · cases hQueue : server.forwardQueue with
        | nil => simp [hFound, forwardQueuePop, halt]
        | cons entry entries => simp [hFound, forwardQueuePop, finish]

/-- The buffer of a message that is parsed. -/
def messageLeaks (data : List UInt8) : Leaks :=
  { packages := 0
    buffers := if sizeofMIPDMessage ≤ (data.take maxMipMessageDataSize).length then 1 else 0
    tables := 0 }

/-- The structure for the table, when routerd closes the connection. -/
def tableLeaks (data : List UInt8) : Leaks :=
  { packages := 0, buffers := 0, tables := if data = [] then 1 else 0 }

/-- What one event leaves behind. -/
def leaks (server : MIPDServer) (event : Event) (env : Env) : Leaks :=
  match server.source event.fd with
  | .routeConnection => tableLeaks event.data
  | .forwardConnection => server.answerLeaks event.data
  | .rawSocket => server.frameLeaks event.data env
  | .appConnection => messageLeaks event.data
  | _ => .none

end MIPDServer

/-- What was done in memory is what the plain handler does; next to the strays nothing is left
but the leaks. -/
def Settles (r : Except Heap.Failure ServerOutcome) (done : Outcome) (strays : Strays)
    (leaks : Leaks) : Prop :=
  ∃ strays' : Strays, Matches r done strays' ∧ strays'.messages = strays.messages ∧
    strays'.leaks = strays.leaks.add leaks

variable {r : Except Heap.Failure ServerOutcome} {done : Outcome} {leaks : Leaks}

theorem Matches.settles (h : Matches r done strays) : Settles r done strays .none :=
  ⟨strays, h, rfl, by simp [Leaks.add, Leaks.none]⟩

/-- Seen from other strays, those that a helper has left in the meantime. -/
theorem Settles.rebase {strays' : Strays} {leaks' : Leaks} (h : Settles r done strays' leaks')
    (hMessages : strays'.messages = strays.messages)
    (hLeaks : strays'.leaks.add leaks' = strays.leaks.add leaks) : Settles r done strays leaks := by
  obtain ⟨after, hMatches, hAfter, hLeft⟩ := h
  exact ⟨after, hMatches, hAfter.trans hMessages, hLeft.trans hLeaks⟩

theorem settles_fault (hFault : done.result = .error .fault) :
    Settles (.error .fault) done strays leaks := by
  refine ⟨⟨List.replicate leaks.packages 0 ++ strays.packages, strays.messages,
    List.replicate leaks.buffers 0 ++ strays.buffers,
    List.replicate leaks.tables 0 ++ strays.tables⟩, .fault hFault, rfl, ?_⟩
  simp [Strays.leaks, Leaks.add]

/-- The message that was parsed is freed after it was handled. -/
theorem Matches.freeMessage {o : ServerOutcome} (h : Matches (.ok o) done strays)
    (hStrays : strays.messages = pointer :: rest) :
    ∃ messages, o.memory.messages.free (some pointer) = .ok messages ∧
      Matches (.ok { o with memory := { o.memory with messages } }) done
        { strays with messages := rest } := by
  cases h with
  | agrees hFine hAgrees =>
      obtain ⟨slots', hKeeps⟩ := hAgrees.keeps
      have hMessages := hKeeps.messages
      rw [hStrays] at hMessages
      obtain ⟨hFree, hRest⟩ := hMessages.free
      exact ⟨_, hFree, .agrees hFine ⟨hAgrees.result, hAgrees.outputs, hAgrees.running, slots',
        { hKeeps with messages := hRest }⟩⟩

/-- The byte of the answer is freed only where the handler succeeds. -/
theorem Matches.freeBuffer {o : ServerOutcome} (h : Matches (.ok o) done strays)
    (hStrays : strays.buffers = pointer :: rest) :
    ∃ buffers, o.memory.buffers.free (some pointer) = .ok buffers ∧
      Matches (.ok { o with memory := { o.memory with buffers } }) done
        { strays with buffers := rest } := by
  cases h with
  | agrees hFine hAgrees =>
      obtain ⟨slots', hKeeps⟩ := hAgrees.keeps
      have hBuffers := hKeeps.buffers
      rw [hStrays] at hBuffers
      obtain ⟨hFree, hRest⟩ := hBuffers.free
      exact ⟨_, hFree, .agrees hFine ⟨hAgrees.result, hAgrees.outputs, hAgrees.running, slots',
        { hKeeps with buffers := hRest }⟩⟩

namespace Keeps

section Received

variable {allocators : MipdAllocators} {fd : ℤ} {record : InterfaceRecord}

/-- The sender of a response is put into the cache. -/
theorem receiveArpResponse (h : Keeps memory server plain slots strays)
    (hStrays : strays.packages = pointer :: rest)
    (hPackage : memory.packages pointer = some received) (hTra : received.mHeader.tra = 0) :
    Settles (server.handleReceivedPackage memory allocators fd record pointer env)
      (plain.handleReceivedPackage fd record received env) { strays with packages := rest }
      (plain.receivedLeaks received env) := by
  have hLeaks : plain.receivedLeaks received env = .none :=
    plain.receivedLeaks_eq_none (by simp [MustForward, hTra]) (by simp [hTra]) env
  unfold ServerObject.handleReceivedPackage MIPDServer.handleReceivedPackage
  simp only [Heap.read_of_live hPackage, h.cache_eq, h.iTable_eq, bind, Except.bind, if_pos hTra,
    hLeaks]
  cases plain.cache.appendToCache fd received.mHeader.srcAddr record.sllAddr (env.clock 0) with
  | error halt =>
      cases halt with
      | error => exact (h.halt.thenDestroy hStrays).settles
      | fault => exact settles_fault rfl
  | ok cache =>
      have hDone := ((h.withCache cache).finish 0 []).thenDestroy hStrays
      simpa only [h.iTable_eq] using hDone.settles

/-- A request is answered. The response is built, sent and freed. -/
theorem receiveArpRequest (h : Keeps memory server plain slots strays)
    (hStrays : strays.packages = pointer :: rest)
    (hPackage : memory.packages pointer = some received) (hTra : received.mHeader.tra = 1) :
    Settles (server.handleReceivedPackage memory allocators fd record pointer env)
      (plain.handleReceivedPackage fd record received env) { strays with packages := rest }
      (plain.receivedLeaks received env) := by
  have hOther : received.mHeader.tra ≠ 0 := by simp [hTra]
  have hLeaks : plain.receivedLeaks received env = .none :=
    plain.receivedLeaks_eq_none (by simp [MustForward, hTra]) (by simp [hTra]) env
  unfold ServerObject.handleReceivedPackage MIPDServer.handleReceivedPackage
  simp only [Heap.read_of_live hPackage, h.cache_eq, h.iTable_eq, bind, Except.bind,
    if_neg hOther, if_pos hTra, hLeaks, h.handleMipArpRequest]
  cases plain.cache.handleMipArpRequest received record env.pointers (env.clock 0) with
  | error halt =>
      cases halt with
      | error => exact (h.halt.thenDestroy hStrays).settles
      | fault => exact settles_fault rfl
  | ok handled =>
      have hDone := ((h.withCache handled.1).finish 0 handled.2).thenDestroy hStrays
      simpa only [h.iTable_eq] using hDone.settles

/-- A package that routerd could not be asked about is left behind, every other one is queued or
destroyed. -/
theorem receiveTransport (h : Keeps memory server plain slots strays)
    (hStrays : strays.packages = pointer :: rest)
    (hPackage : memory.packages pointer = some received) (hTra : received.mHeader.tra = 3) :
    Settles (server.handleReceivedPackage memory allocators fd record pointer env)
      (plain.handleReceivedPackage fd record received env) { strays with packages := rest }
      (plain.receivedLeaks received env) := by
  have hResponse : received.mHeader.tra ≠ 0 := by simp [hTra]
  have hRequest : received.mHeader.tra ≠ 1 := by simp [hTra]
  have hRoute : received.mHeader.tra ≠ 2 := by simp [hTra]
  unfold ServerObject.handleReceivedPackage MIPDServer.handleReceivedPackage
  simp only [Heap.read_of_live hPackage, h.cache_eq, h.iTable_eq, bind, Except.bind,
    if_neg hResponse, if_neg hRequest, if_neg hRoute, if_pos hTra]
  by_cases hOwn : (plain.iTable.getInterfacePosForMipAddress received.mHeader.dstAddr).isSome
  · have hLeaks : plain.receivedLeaks received env = .none :=
      plain.receivedLeaks_eq_none (by simp [MustForward, Option.isSome_iff_ne_none.mp hOwn])
        hRoute env
    simp only [if_pos hOwn, hLeaks]
    exact ((h.handleMIPPackageForApplication hPackage allocators).bindDestroy hStrays).settles
  simp only [if_neg hOwn]
  by_cases hTtl : received.mHeader.ttl = 0
  · have hLeaks : plain.receivedLeaks received env = .none :=
      plain.receivedLeaks_eq_none (by simp [MustForward, hTtl]) hRoute env
    simp only [if_pos hTtl, hLeaks]
    exact ((h.finish 0 []).thenDestroy hStrays).settles
  · have hForward : plain.MustForward received := ⟨hTra, by simpa using hOwn, hTtl⟩
    have hStray : pointer ∈ strays.packages := hStrays ▸ List.mem_cons_self
    have hLowered := h.overwrite hStray (lowerTtl received)
    simp only [if_neg hTtl, Heap.modify_of_live _ hPackage]
    have hAsked := hLowered.requestForwarding hStrays (Function.update_self ..) allocators
      received.mHeader.dstAddr env
    refine ⟨_, hAsked, by split_ifs <;> rfl, ?_⟩
    by_cases hCan : plain.CanRequest env
    · simp [hCan, receivedLeaks, hTra, Strays.leaks, Leaks.add]
    · simp [hCan, hForward, receivedLeaks, hTra, Strays.leaks, Leaks.add, hStrays, Nat.add_comm]

/-- Whatever is received, exactly its leaks stay; a copy of every table that goes to routerd is
one of them. -/
theorem handleReceivedPackage (h : Keeps memory server plain slots strays)
    (hStrays : strays.packages = pointer :: rest)
    (hPackage : memory.packages pointer = some received) :
    Settles (server.handleReceivedPackage memory allocators fd record pointer env)
      (plain.handleReceivedPackage fd record received env) { strays with packages := rest }
      (plain.receivedLeaks received env) := by
  by_cases hResponse : received.mHeader.tra = 0
  · exact h.receiveArpResponse hStrays hPackage hResponse
  by_cases hRequest : received.mHeader.tra = 1
  · exact h.receiveArpRequest hStrays hPackage hRequest
  by_cases hTransport : received.mHeader.tra = 3
  · exact h.receiveTransport hStrays hPackage hTransport
  unfold ServerObject.handleReceivedPackage MIPDServer.handleReceivedPackage
  simp only [Heap.read_of_live hPackage, bind, Except.bind, if_neg hResponse, if_neg hRequest,
    if_neg hTransport]
  by_cases hRoute : received.mHeader.tra = 2
  · obtain ⟨tables, hTables, hBroadcast⟩ := h.recvRouteTableBroadcast hPackage allocators
    have hLeaks : plain.receivedLeaks received env = ⟨0, 0, tables.length⟩ := by
      simp [receivedLeaks, MustForward, hRoute, hTables]
    simp only [if_pos hRoute, hLeaks]
    exact ⟨_, hBroadcast.bindDestroy hStrays, rfl, by simp [Strays.leaks, Leaks.add]⟩
  · have hLeaks := plain.receivedLeaks_eq_none (mt And.left hTransport) hRoute env
    simp only [if_neg hRoute, hLeaks]
    exact ((h.finish 0 []).thenDestroy hStrays).settles

end Received

/-- The buffer of the empty package stays of every frame, and the two parts of its text. -/
theorem handleRawSocketFrame (h : Keeps memory server plain slots strays)
    (allocators : MipdAllocators) (fd : ℤ) (frame : List UInt8) (env : Env) :
    Settles (server.handleRawSocketFrame memory allocators fd frame env)
      (plain.handleRawSocketFrame fd frame env) strays (plain.frameLeaks frame env) := by
  obtain ⟨pointer, buffer, memory₁, empty, hCreate, hEmpty, hPackage, hKeeps⟩ :=
    h.createEmpty allocators
  have hReceive : receivePackage frame env = recvRawMipPackage frame env.heap empty := by
    rw [receivePackage, hEmpty, Option.bind_some]
  unfold ServerObject.handleRawSocketFrame MIPDServer.handleRawSocketFrame MIPDServer.frameLeaks
  simp only [hCreate, Heap.read_of_live hPackage, hReceive, h.iTable_eq, bind, Except.bind]
  cases recvRawMipPackage frame env.heap empty with
  | none => exact settles_fault rfl
  | some received =>
      cases plain.iTable.recordForSocket fd with
      | none => exact settles_fault rfl
      | some record =>
          have hFilled := hKeeps.overwrite List.mem_cons_self received
          obtain ⟨memory₂, eFrameStr, mHeaderStr, hLog, hSame, hLogged⟩ :=
            hFilled.logReceived allocators received
          have hStays : memory₂.packages pointer = some received := by
            rw [hSame]
            exact Function.update_self ..
          simp only [Heap.modify_of_live _ hPackage, hLog]
          refine (hLogged.handleReceivedPackage rfl hStays).rebase rfl ?_
          simp only [Strays.leaks, Leaks.add, receivedLeaks, List.length_cons, Leaks.mk.injEq,
            true_and, and_true]
          omega

/-- The package for a neighbour is gone when it has been sent, freed by the function that sends
it. -/
theorem handleDomainSocketRequest (h : Keeps memory server plain slots strays)
    (hMessage : memory.messages pointer = some message) (allocators : MipdAllocators) :
    (plain.handleDomainSocketRequest message = plain.halt .fault ∧
      server.handleDomainSocketRequest memory allocators pointer = .error .fault) ∨
    ∃ rc outputs, plain.handleDomainSocketRequest message = plain.finish rc outputs ∧
      server.handleDomainSocketRequest memory allocators pointer =
        .ok (server.finish memory rc outputs) := by
  unfold ServerObject.handleDomainSocketRequest MIPDServer.handleDomainSocketRequest
  simp only [Heap.read_of_live hMessage, h.cache_eq, h.iTable_eq, bind, Except.bind]
  split_ifs with hSocket
  · exact Or.inr ⟨0, [], rfl, rfl⟩
  · cases plain.iTable.recordForSocket
        (plain.cache.queryMipAddressSrcSocket message.mipAddress) with
    | none => exact Or.inl ⟨rfl, rfl⟩
    | some record =>
        cases plain.cache.entries.find? fun entry => entry.mipAddress = message.mipAddress with
        | none => exact Or.inl ⟨rfl, rfl⟩
        | some entry =>
            simp only
            cases MIPPackage.create (createEthernetFrame entry.dstInterface record.sllAddr)
                (createTransportMipHeader record.mipAddress message.mipAddress) message.data with
            | none => exact Or.inl ⟨rfl, rfl⟩
            | some package =>
                simp only [h.sendNew]
                exact Or.inr ⟨1, _, rfl, rfl⟩

/-- The package for a destination that is no neighbour is queued or destroyed, as routerd can be
asked or not. -/
theorem handleApplicationMessage (h : Keeps memory server plain slots strays)
    (hMessage : memory.messages pointer = some message) (allocators : MipdAllocators) (env : Env) :
    Matches (server.handleApplicationMessage memory allocators pointer env)
      (plain.handleApplicationMessage message env) strays := by
  unfold ServerObject.handleApplicationMessage MIPDServer.handleApplicationMessage
  rcases h.handleDomainSocketRequest hMessage allocators with
    ⟨hPlain, hDone⟩ | ⟨rc, outputs, hPlain, hDone⟩
  · simp only [hPlain, hDone, bind, Except.bind, MIPDServer.halt]
    exact .fault rfl
  · simp only [hPlain, hDone, bind, Except.bind]
    by_cases hNeighbor : rc = 0
    · obtain ⟨package, hQueueable⟩ : ∃ package,
          createQueueable message (env.pointers 0) = some package := ⟨_, createQueueable_eq ..⟩
      have hAsked := (h.createPackage allocators package).requestForwarding rfl Heap.alloc_same
        allocators package.mHeader.dstAddr env
      simp only [hNeighbor, ServerObject.finish, MIPDServer.finish, Heap.read_of_live hMessage,
        hQueueable]
      generalize server.requestForwarding _ allocators package.mHeader.dstAddr _ env = asked
        at hAsked ⊢
      cases hAsked with
      | fault hFault => exact .fault hFault
      | agrees hFine hAgrees =>
          have hResult := hAgrees.result
          by_cases hCan : plain.CanRequest env
          · rw [requestForwarding_eq hCan] at hResult
            rw [if_pos hCan] at hAgrees
            simp only [hResult, MIPDServer.finish]
            exact .agrees hFine hAgrees
          · rw [requestForwarding_of_not hCan] at hResult
            rw [if_neg hCan] at hAgrees
            simp only [hResult, MIPDServer.finish]
            exact (Matches.agrees hFine hAgrees).thenDestroy rfl
    · have hOther : (.ok rc : Except Halt ℤ) ≠ .ok 0 := fun hZero => hNeighbor (Except.ok.inj hZero)
      simp only [ServerObject.finish, MIPDServer.finish]
      exact h.finish rc outputs

/-- Other sockets, and nothing else: accepting and disconnecting touch no memory that is accounted
for. -/
theorem withSockets (h : Keeps memory server plain slots strays)
    (appSocket routeSocket forwardSocket : LocalSocket) :
    Keeps memory { server with appSocket, routeSocket, forwardSocket }
      { plain with appSocket, routeSocket, forwardSocket } slots strays := by
  refine { h with view := ?_ }
  rw [← h.view]
  rfl

/-- A buffer stays of every message that is parsed: parsing copies the data, and the copy is
copied again. -/
theorem appBranch (h : Keeps memory server plain slots strays) (allocators : MipdAllocators)
    (event : Event) (env : Env) :
    Settles (server.appBranch memory allocators event env) (plain.appBranch event env) strays
      (messageLeaks event.data) := by
  obtain ⟨queue, rfl⟩ : ∃ queue, plain = server.view queue := ⟨_, h.view.symm⟩
  unfold ServerObject.appBranch MIPDServer.appBranch messageLeaks
  simp only
  by_cases hEnd : event.data.take maxMipMessageDataSize = []
  · simp only [hEnd, List.length_nil]
    exact ((h.withSockets { server.appSocket with connectedSocketFd := -1 } server.routeSocket
      server.forwardSocket).finish 0 [.close event.fd]).settles
  simp only [if_neg hEnd]
  by_cases hSmall : (event.data.take maxMipMessageDataSize).length < sizeofMIPDMessage
  · simp only [if_pos hSmall, if_neg (Nat.not_le.mpr hSmall)]
    exact (h.finish 0 []).settles
  simp only [if_neg hSmall, if_pos (Nat.not_lt.mp hSmall)]
  generalize event.data.take maxMipMessageDataSize ++ List.replicate _ 0 = readBuffer
  cases MIPDMessage.deserialize readBuffer with
  | none => exact settles_fault rfl
  | some message =>
      have hBuffer := h.allocBuffer allocators
        ((readBuffer.drop 3).take (MIPDMessage.serializedGetDataSize readBuffer))
      have hMessage := hBuffer.allocMessage allocators message
      have hHandled := hMessage.handleApplicationMessage Heap.alloc_same allocators env
      have hResult := handleApplicationMessage_result (server.view queue) message env
      simp only [bind, Except.bind]
      generalize server.handleApplicationMessage _ allocators _ env = handled at hHandled ⊢
      cases hHandled with
      | fault hFault => exact settles_fault hFault
      | @agrees o _ _ hFine hAgrees =>
          cases hCase : o.result with
          | error halt =>
              rw [← hAgrees.result, hCase] at hFine hResult
              cases halt with
              | error => exact absurd rfl hResult
              | fault => exact absurd rfl hFine
          | ok rc =>
              obtain ⟨messages, hFree, hDone⟩ := (Matches.agrees hFine hAgrees).freeMessage rfl
              simp only [hCase] at hDone
              simp only [hFree, hCase]
              exact ⟨_, hDone, rfl, by simp [Strays.leaks, Leaks.add, Nat.add_comm]⟩

/-- The structure for the table stays when routerd closes the connection, as only broadcasting
frees it. -/
theorem routeBranch (h : Keeps memory server plain slots strays) (allocators : MipdAllocators)
    (event : Event) (env : Env) :
    Settles (server.routeBranch memory allocators event env) (plain.routeBranch event env) strays
      (tableLeaks event.data) := by
  obtain ⟨queue, rfl⟩ : ∃ queue, plain = server.view queue := ⟨_, h.view.symm⟩
  have hTable := h.allocTable allocators
    (event.data.take MIPRouteTablePackage.sizeofMIPRouteTablePackage)
  unfold ServerObject.routeBranch MIPDServer.routeBranch tableLeaks
  simp only
  split_ifs with hEnd
  · refine ⟨_, (hTable.withSockets server.appSocket
      { server.routeSocket with connectedSocketFd := -1 } server.forwardSocket).finish 0
        [.close event.fd], rfl, ?_⟩
    simp [Strays.leaks, Leaks.add, Nat.add_comm]
  · exact (hTable.broadcastRouteTable rfl Heap.alloc_same allocators env.pointers).settles

/-- An answer takes the oldest package from the queue; it stays where it cannot be loaded. -/
theorem handleAnswer (h : Keeps memory server plain slots strays) (event : Event) :
    ∃ more : List ℕ, more.length = (plain.answerLeaks event.data).packages ∧
      Matches (server.handleAnswer memory event) (plain.forwardBranch event)
        { strays with packages := more ++ strays.packages } := by
  unfold ServerObject.handleAnswer MIPDServer.forwardBranch MIPDServer.answerLeaks
  cases event.data with
  | nil =>
      obtain ⟨queue, rfl⟩ : ∃ queue, plain = server.view queue := ⟨_, h.view.symm⟩
      exact ⟨[], rfl, (h.withSockets server.appSocket server.routeSocket
        { server.forwardSocket with connectedSocketFd := -1 }).finish 0 [.close event.fd]⟩
  | cons nextHop _ =>
      by_cases hFound : forwardFound nextHop
      · obtain ⟨more, hMore, hResponse⟩ := h.handleForwardResponse nextHop
        simp only [if_pos hFound]
        exact ⟨more, by simp [hMore, hFound], hResponse⟩
      · simp only [hFound]
        refine ⟨[], by simp, ?_⟩
        cases hQueue : plain.forwardQueue with
        | nil =>
            simp only [h.pop_nil hQueue, forwardQueuePop, bind, Except.bind]
            exact h.halt
        | cons entry entries =>
            obtain ⟨memory₁, queue', pointer, front, hPop, -, hKeeps⟩ := h.pop hQueue
            simp only [hPop, forwardQueuePop, bind, Except.bind]
            exact (hKeeps.finish 0 []).thenDestroy rfl

/-- The byte of an answer stays together with what it could not send. -/
theorem forwardBranch (h : Keeps memory server plain slots strays) (allocators : MipdAllocators)
    (event : Event) :
    Settles (server.forwardBranch memory allocators event) (plain.forwardBranch event) strays
      (plain.answerLeaks event.data) := by
  obtain ⟨more, hMore, hAnswer⟩ :=
    (h.createBuffer allocators [event.data.headD 0]).handleAnswer event
  have hResult := plain.forwardBranch_result event
  obtain ⟨hBuffers, hTables⟩ := plain.answerLeaks_bounds event.data
  unfold ServerObject.forwardBranch
  simp only [bind, Except.bind]
  generalize server.handleAnswer _ event = answered at hAnswer ⊢
  cases hAnswer with
  | fault hFault => exact settles_fault hFault
  | @agrees o _ _ hFine hAgrees =>
      have hMatches := Matches.agrees hFine hAgrees
      rw [← hAgrees.result] at hResult hFine
      cases hCase : o.result with
      | error halt =>
          rw [hCase] at hResult hFine
          cases halt with
          | fault => exact absurd rfl hFine
          | error =>
              simp only [hCase]
              refine ⟨_, hMatches, rfl, ?_⟩
              simp only [Strays.leaks, Leaks.add, List.length_append, List.length_cons, hMore,
                hResult.mp rfl, hTables, Nat.zero_add, Leaks.mk.injEq, true_and, and_true]
              exact Nat.add_comm ..
      | ok rc =>
          rw [hCase] at hResult
          have hGiven : (plain.answerLeaks event.data).buffers = 0 :=
            hBuffers.resolve_right fun hOne => by cases hResult.mpr hOne
          obtain ⟨buffers, hFree, hDone⟩ := hMatches.freeBuffer rfl
          simp only [hCase] at hDone
          simp only [hFree, hCase]
          refine ⟨_, hDone, rfl, ?_⟩
          simp only [Strays.leaks, Leaks.add, List.length_append, hMore, hGiven, hTables,
            Nat.zero_add]

/-- Accepting a client allocates nothing. -/
theorem acceptOn (h : Keeps memory server plain slots strays) {connected : ServerObject}
    {connect : ℤ → MIPDServer} (event : Event)
    (hConnected : Keeps memory connected (connect event.accepted) slots strays) :
    Settles (.ok (server.acceptOn memory event connected)) (plain.acceptOn event connect) strays
      .none := by
  unfold ServerObject.acceptOn MIPDServer.acceptOn
  split_ifs
  · exact h.halt.settles
  · exact (hConnected.finish 0 _).settles

/-- The step lemma of the loop: every event does what the plain branch does and leaves behind
exactly its leaks. -/
theorem branch (h : Keeps memory server plain slots strays) (allocators : MipdAllocators)
    (event : Event) (env : Env) :
    Settles (server.branch memory allocators event env) (plain.branch event env) strays
      (plain.leaks event env) := by
  have hSource : (server.view []).source event.fd = plain.source event.fd := by
    rw [← h.view]
    rfl
  unfold ServerObject.branch MIPDServer.branch MIPDServer.leaks
  rw [hSource]
  obtain ⟨queue, rfl⟩ : ∃ queue, plain = server.view queue := ⟨_, h.view.symm⟩
  cases (server.view queue).source event.fd with
  | appListening =>
      exact h.acceptOn event (h.withSockets
        { server.appSocket with connectedSocketFd := event.accepted } server.routeSocket
        server.forwardSocket)
  | routeListening =>
      exact h.acceptOn event (h.withSockets server.appSocket
        { server.routeSocket with connectedSocketFd := event.accepted } server.forwardSocket)
  | forwardListening =>
      exact h.acceptOn event (h.withSockets server.appSocket server.routeSocket
        { server.forwardSocket with connectedSocketFd := event.accepted })
  | routeConnection => exact h.routeBranch allocators event env
  | forwardConnection => exact h.forwardBranch allocators event
  | rawSocket => exact h.handleRawSocketFrame allocators event.fd event.data env
  | appConnection => exact h.appBranch allocators event env
  | stdin =>
      refine Matches.settles (.agrees (by simp [MIPDServer.finish]) ?_)
      exact ⟨rfl, rfl, rfl, slots, h⟩
  | unknown => exact (h.finish 0 []).settles

end Keeps

end MipStack
