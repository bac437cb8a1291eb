import MipStack.Commons.OwnedList
import MipStack.Miptpd.MIPTPAppController

/-! The connections of miptpd in memory (`miptpd/src/lib/miptp_app_controller.c`): a
linked list of pointers to records. A record is taken together with its job. Memory never
runs out, so of the checks for NULL those for the pointer to a new record occur only: it is
returned as an `int`. -/
namespace MipStack
open ObjectMemory LinkedChain

abbrev ConnectionMemory := ObjectMemory AppConnection

abbrev ConnectionAllocators := ObjectAllocators AppConnection

/-- The struct `MIPTPAppController`, with the list behind its pointer. -/
structure ControllerObject where
  connections : LinkedList
  maxConnections : ℕ
  timeout : ℤ
  mipdSocket : ℤ
  deriving DecidableEq, Repr

structure MemoryOutcome where
  result : Except Halt ℤ
  memory : ConnectionMemory
  controller : ControllerObject
  outputs : List AppOutput

/-- `AppConnection_create` and `AppConnection_create_not_ready` are declared without a type.
The pointer they return becomes an `int` and then a pointer again, so its lower 32 bits are
left, extended by the sign of the last one. None of them set is NULL. -/
def intResult (pointer : ℕ) : Option ℕ :=
  let low := pointer % 2 ^ 32
  if low = 0 then none
  else if low < 2 ^ 31 then some low
  else some (2 ^ 64 - 2 ^ 32 + low)

/-- What is left of a receiver whose creation fails. -/
def AppConnection.refused (socket : ℤ) (port : UInt16) (destination : MIPAddress) (timeout : ℤ) :
    AppConnection :=
  let port := BitVec.ofNat 14 port.toNat
  { port, socket, connectedMip := destination, status := .receiver, sJob := none
    rJob := some (MIPTPReceiveJob.create port timeout) }

/-- A receiver asks for a job on a socket with a record. -/
def MIPTPAppController.refuses (controller : MIPTPAppController) (socket : ℤ)
    (buffer : List UInt8) : Bool :=
  match ClientPackage.deserialize buffer with
  | .error _ => false
  | .ok package =>
    package.port != 0 && package.destination != 0 && package.type = .receiver &&
      controller.connections.any fun connection => connection.socket = socket

namespace ControllerObject

def create (mipdSocket : ℤ) (maxConnections : ℕ) : ControllerObject :=
  { connections := .create, maxConnections, timeout := 0, mipdSocket }

/-- `AppConnection_create` gives what an `int` holds of the pointer, or NULL without freeing
what it allocated. -/
def createConnection (allocators : ConnectionAllocators) (memory : ConnectionMemory)
    (socket timeout now : ℤ) (package : ClientPackage) : Option ℕ × ConnectionMemory :=
  let pointer := allocators.object.malloc memory.objects
  match AppConnection.create (connectionType package.type) socket package.port package.destination
      package.data package.size_le timeout now with
  | some connection =>
    (intResult pointer, { memory with objects := memory.objects.alloc pointer connection })
  | none =>
    let connection := AppConnection.refused socket package.port package.destination timeout
    (none, { memory with objects := memory.objects.alloc pointer connection })

/-- What the loop of `MIPTPAppController_handle_app_package` carries. -/
abbrev Registering := ConnectionMemory × LinkedList × Except Halt ℤ

def appPackageTurn (allocators : ConnectionAllocators) (socket timeout now : ℤ)
    (package : ClientPackage) (state : Registering) (current : ℕ) :
    Except Heap.Failure (Flow Registering) := do
  let (memory, connections, _) := state
  let node ← memory.nodes.read (some current)
  let notReady ← memory.objects.read (some node.value)
  if notReady.socket = socket then
    match createConnection allocators memory socket timeout now package with
    | (none, memory) => .ok (.leave (memory, connections, .error .error))
    | (some complete, memory) => do
      let (nodes, connections, _) ← connections.remove memory.nodes (some current)
      let objects ← memory.objects.free (some node.value)
      let (nodes, connections) ← connections.push nodes complete
        (some (allocators.node.malloc nodes))
      .ok (.leave (⟨nodes, objects⟩, connections, .ok 1))
  else .ok (.next state)

def handleAppPackage (allocators : ConnectionAllocators) (memory : ConnectionMemory)
    (controller : ControllerObject) (socket : ℤ) (buffer : List UInt8) (now : ℤ) :
    Except Heap.Failure MemoryOutcome :=
  match ClientPackage.deserialize buffer with
  | .error halt => .ok ⟨.error halt, memory, controller, []⟩
  | .ok package =>
    if package.port = 0 then .ok ⟨.error .error, memory, controller, []⟩
    else if package.destination = 0 then .ok ⟨.error .error, memory, controller, []⟩
    else do
      let (memory, connections, result) ← LinkedList.forEach
        (fun state : Registering => state.1.nodes) LinkedCell.next
        (appPackageTurn allocators socket controller.timeout now package)
        controller.connections.fuel controller.connections.first
        (memory, controller.connections, .ok 1)
      .ok ⟨result, memory, { controller with connections }, []⟩

/-- What the loop of `MIPTPAppController_handle_mipd_package` carries. -/
abbrev Receiving := Heap AppConnection × Except Halt ℤ

/-- The record is changed in its place. -/
def mipdPackageTurn (nodes : Heap (ListNode ℕ)) (sender : MIPAddress) (package : MIPTPPackage)
    (state : Receiving) (current : ℕ) : Except Heap.Failure (Flow Receiving) := do
  let (objects, result) := state
  let node ← nodes.read (some current)
  let connection ← objects.read (some node.value)
  if connection.port = package.miptpHeader.port then
    match connection.receivePackage sender package with
    | .error halt => .ok (.leave (objects, .error halt))
    | .ok (rc, received) => do
      let objects ← objects.modify (some node.value) fun _ => received
      if rc = -1 then .ok (.leave (objects, .error .error)) else .ok (.next (objects, result))
  else .ok (.next (objects, result))

def handleMipdPackage (memory : ConnectionMemory) (controller : ControllerObject)
    (mipAddress : MIPAddress) (data : List UInt8) : Except Heap.Failure MemoryOutcome :=
  match MIPTPPackage.deserialize data with
  | .error halt => .ok ⟨.error halt, memory, controller, []⟩
  | .ok package => do
    let (objects, result) ← LinkedList.forEach (fun _ => memory.nodes) LinkedCell.next
      (mipdPackageTurn memory.nodes mipAddress package) controller.connections.fuel
      controller.connections.first (memory.objects, .ok 1)
    .ok ⟨result, { memory with objects }, controller, []⟩

def handleConnection (allocators : ConnectionAllocators) (memory : ConnectionMemory)
    (controller : ControllerObject) (accepted : ℤ) (epollAdded : Bool) :
    Except Heap.Failure MemoryOutcome :=
  if accepted = -1 then .ok ⟨.error .error, memory, controller, []⟩
  else if !epollAdded then .ok ⟨.error .error, memory, controller, []⟩
  else do
    let pointer := allocators.object.malloc memory.objects
    let objects := memory.objects.alloc pointer (AppConnection.unregistered accepted)
    match (intResult pointer).bind intResult with
    | none => .ok ⟨.error .error, { memory with objects }, controller, [.epollAdd accepted]⟩
    | some connection => do
      let (nodes, connections) ← controller.connections.push memory.nodes connection
        (some (allocators.node.malloc memory.nodes))
      .ok ⟨.ok accepted, ⟨nodes, objects⟩, { controller with connections }, [.epollAdd accepted]⟩

/-- Whether the pointer is to the record of the socket. -/
def isOn (memory : ConnectionMemory) (socket : ℤ) (pointer : ℕ) : Except Heap.Failure Bool := do
  let connection ← memory.objects.read (some pointer)
  .ok (decide (connection.socket = socket))

def isAConnectionTurn (memory : ConnectionMemory) (socket : ℤ) (_ : Option ℕ) (current : ℕ) :
    Except Heap.Failure (Flow (Option ℕ)) := do
  let node ← memory.nodes.read (some current)
  .ok (if ← isOn memory socket node.value then .leave (some node.value) else .next none)

def isAConnection (memory : ConnectionMemory) (controller : ControllerObject) (socket : ℤ) :
    Except Heap.Failure ℤ :=
  if socket < 0 then .ok (-1)
  else do
    let found ← LinkedList.forEach (fun _ => memory.nodes) LinkedCell.next
      (isAConnectionTurn memory socket) controller.connections.fuel controller.connections.first
      none
    .ok (if found.isSome then 1 else 0)

/-- The record is freed before the loop is left. -/
def disconnect (memory : ConnectionMemory) (controller : ControllerObject) (socket : ℤ) :
    Except Heap.Failure MemoryOutcome := do
  let (nodes, connections, removed) ← LinkedList.removeLoop .leave (isOn memory socket)
    controller.connections.fuel memory.nodes controller.connections
  let objects ← memory.objects.free removed
  .ok ⟨.ok (if removed.isSome then 1 else 0), ⟨nodes, objects⟩, { controller with connections }, []⟩

/-- What the loop of `MIPTPAppController_handle_outgoing` carries: how many messages were
sent, what was done, and the result. -/
abbrev Sending := ℕ × List AppOutput × Except Halt ℤ

def outgoingTurn (memory : ConnectionMemory) (mipdSocket : ℤ) (written : ℕ → Bool)
    (state : Sending) (current : ℕ) : Except Heap.Failure (Flow Sending) := do
  let (sent, outputs, _) := state
  let node ← memory.nodes.read (some current)
  let connection ← memory.objects.read (some node.value)
  match connection.nextPackages with
  | .error halt => .ok (.leave (sent, outputs, .error halt))
  | .ok packages =>
    match MIPTPAppController.sendPackages mipdSocket written connection sent packages with
    | (.error halt, more) => .ok (.leave (sent, outputs ++ more, .error halt))
    | (.ok _, more) => .ok (.next (sent + packages.length, outputs ++ more, .ok 1))

def handleOutgoing (memory : ConnectionMemory) (controller : ControllerObject)
    (written : ℕ → Bool) : Except Heap.Failure MemoryOutcome := do
  let (_, outputs, result) ← LinkedList.forEach (fun _ => memory.nodes) LinkedCell.next
    (outgoingTurn memory controller.mipdSocket written) controller.connections.fuel
    controller.connections.first (0, [], .ok 1)
  .ok ⟨result, memory, controller, outputs⟩

/-- What the loop of `MIPTPAppController_handle_completes` carries. -/
abbrev Completing := ConnectionMemory × LinkedList × List AppOutput

/-- The record is destroyed before its node is removed; the loop goes on. -/
def completesTurn (state : Completing) (current : ℕ) :
    Except Heap.Failure (Flow Completing) := do
  let (memory, connections, outputs) := state
  let node ← memory.nodes.read (some current)
  let connection ← memory.objects.read (some node.value)
  if connection.status = .complete then do
    let objects ← memory.objects.free (some node.value)
    let (nodes, connections, _) ← connections.remove memory.nodes (some current)
    .ok (.next (⟨nodes, objects⟩, connections, outputs ++
      MIPTPAppController.sendClientPackage connection.socket connection.result ++
      if connection.socket ≠ 0 then [.close connection.socket] else []))
  else .ok (.next state)

def handleCompletes (memory : ConnectionMemory) (controller : ControllerObject) :
    Except Heap.Failure MemoryOutcome := do
  let (memory, connections, outputs) ← LinkedList.forEach
    (fun state : Completing => state.1.nodes) LinkedCell.next completesTurn
    controller.connections.fuel controller.connections.first (memory, controller.connections, [])
  .ok ⟨.ok 1, memory, { controller with connections }, outputs⟩

/-- `List_destroy` frees the nodes only. -/
def destroy (memory : ConnectionMemory) (controller : ControllerObject) :
    Except Heap.Failure ConnectionMemory := do
  let nodes ← controller.connections.destroy controller.connections.fuel memory.nodes
  .ok { memory with nodes }

/-- The controller with the records of the slots. -/
def view (controller : ControllerObject) (slots : List (Slot AppConnection)) :
    MIPTPAppController :=
  { connections := slots.map Slot.object
    maxConnections := controller.maxConnections
    timeout := controller.timeout
    mipdSocket := controller.mipdSocket }

/-- The controller in memory is this one. Next to its records only the lost ones are in
use. -/
structure Holds (memory : ConnectionMemory) (controller : ControllerObject)
    (plain : MIPTPAppController) (slots : List (Slot AppConnection)) (lost : List ℕ) : Prop where
  owns : memory.Owns controller.connections slots
  view : controller.view slots = plain
  nodes : memory.nodes.Allocated (slots.map Slot.node)
  objects : memory.objects.Allocated (lost ++ slots.map Slot.pointer)

/-- The address that the next record gets survives being returned. -/
def KeepsPointer (allocators : ConnectionAllocators) (memory : ConnectionMemory) : Prop :=
  intResult (allocators.object.malloc memory.objects) =
    some (allocators.object.malloc memory.objects)

/-- What was done in memory is what the plain operation does. -/
structure Agrees (outcome : MemoryOutcome) (plain : AppOutcome)
    (slots : List (Slot AppConnection)) (lost : List ℕ) : Prop where
  result : outcome.result = plain.result
  outputs : outcome.outputs = plain.outputs
  holds : Holds outcome.memory outcome.controller plain.controller slots lost

variable {memory memory' : ConnectionMemory} {controller : ControllerObject}
  {plain : MIPTPAppController} {slots slots' rest : List (Slot AppConnection)} {lost : List ℕ}
  {connections' : LinkedList} {slot : Slot AppConnection} {fuel : ℕ} {pointer : Option ℕ}
  {socket timeout now : ℤ} {allocators : ConnectionAllocators} {package : ClientPackage}

/-- The addresses that an `int` holds are those below 2 GiB, and of the 64-bit ones those that
far from the top. -/
theorem intResult_eq_self_iff {address : ℕ} (hWord : address < 2 ^ 64) :
    intResult address = some address ↔
      address ≠ 0 ∧ (address < 2 ^ 31 ∨ 2 ^ 64 - 2 ^ 31 ≤ address) := by
  rw [intResult]
  split_ifs with hNull hPositive
  · refine iff_of_false id ?_
    omega
  · rw [Option.some.injEq]
    omega
  · rw [Option.some.injEq]
    omega

theorem holds_create (mipdSocket : ℤ) (maxConnections : ℕ) :
    Holds ⟨fun _ => none, fun _ => none⟩ (create mipdSocket maxConnections)
      (MIPTPAppController.create mipdSocket maxConnections) [] [] :=
  ⟨⟨LinkedList.represents_create, List.nodup_nil, by simp⟩, rfl,
    ⟨List.nodup_nil, fun _ => by simp⟩, ⟨List.nodup_nil, fun _ => by simp⟩⟩

theorem Holds.connections (h : Holds memory controller plain slots lost) :
    plain.connections = slots.map Slot.object := h.view ▸ rfl

/-- Records that are put at the first free address from 1 on are found again as long as there
are few. -/
theorem Holds.keepsPointer_firstFit (h : Holds memory controller plain slots lost)
    (hFit : allocators.object = Heap.Allocator.firstFit AppConnection 1)
    (hFew : lost.length + plain.connections.length < 2 ^ 31 - 1) :
    KeepsPointer allocators memory := by
  obtain ⟨hStart, hEnd⟩ := Heap.Allocator.firstFit_bounds h.objects 1
  have hConnections : plain.connections.length = slots.length := by
    rw [h.connections, List.length_map]
  rw [List.length_append, List.length_map, ← hConnections] at hEnd
  rw [KeepsPointer, hFit, intResult_eq_self_iff (by omega)]
  omega

theorem Holds.nothing (h : Holds memory controller plain slots lost) :
    Holds memory controller plain slots (lost ++ []) := by rwa [List.append_nil]

theorem Agrees.nothing {outcome : MemoryOutcome} {done : AppOutcome}
    (h : Agrees outcome done slots lost) : Agrees outcome done slots (lost ++ []) := by
  rwa [List.append_nil]

/-- The pattern of all operations: the list changes, what was lost before stays lost. -/
theorem Holds.step (h : Holds memory controller plain slots lost)
    (hOwns : memory'.Owns connections' slots') (hExchange : memory.Exchange memory' slots slots') :
    Holds memory' { controller with connections := connections' }
      (plain.withConnections (slots'.map Slot.object)) slots' lost := by
  have hNodes : memory.nodes.Allocated ([] ++ slots.map Slot.node) := h.nodes
  refine ⟨hOwns, ?_, ?_, ?_⟩
  · rw [← h.view]
    rfl
  · refine hNodes.turnover hExchange.nodes hOwns.nodup fun a ha => ?_
    obtain ⟨slot, hMem, rfl⟩ := List.mem_map.mp ha
    exact (hOwns.live hMem).1
  · refine h.objects.turnover hExchange.objects hOwns.distinct fun a ha => ?_
    obtain ⟨slot, hMem, rfl⟩ := List.mem_map.mp ha
    exact (hOwns.live hMem).2

/-- A record that no list gets: it was allocated and its connection was refused afterwards. -/
theorem Holds.lose (h : Holds memory controller plain slots lost) {pointer : ℕ}
    (hFresh : memory.objects pointer = none) (connection : AppConnection) :
    Holds { memory with objects := memory.objects.alloc pointer connection } controller plain slots
      (lost ++ [pointer]) := by
  have hOld : memory.objects.Allocated ((lost ++ slots.map Slot.pointer) ++ []) := by
    rw [List.append_nil]
    exact h.objects
  have hNew : (memory.objects.alloc pointer connection).Allocated
      ((lost ++ slots.map Slot.pointer) ++ [pointer]) :=
    hOld.turnover (Heap.turnover_alloc hFresh connection []) (List.nodup_singleton pointer)
      fun a ha => by
        rw [List.mem_singleton.mp ha, Heap.alloc_same]
        exact Option.some_ne_none connection
  refine ⟨h.owns.alloc hFresh connection, h.view, h.nodes, hNew.perm ?_⟩
  rw [List.append_assoc, List.append_assoc]
  exact List.perm_append_comm.append_left lost

theorem Holds.read (h : Holds memory controller plain slots lost) (hMem : slot ∈ slots) :
    ∃ node, memory.nodes.read (some slot.node) = .ok node ∧ node.value = slot.pointer ∧
      memory.objects.read (some node.value) = .ok slot.object := by
  obtain ⟨node, hNode, hValue⟩ := h.owns.represents.linked.live (List.mem_map_of_mem hMem)
  have hPointer : node.value = slot.pointer := hValue
  refine ⟨node, Heap.read_of_live hNode, hPointer, ?_⟩
  rw [hPointer]
  exact Heap.read_of_live (h.owns.objects slot hMem)

/-- A new connection is the last one of the list, with a node and a record of its own. -/
theorem Holds.handleConnection (h : Holds memory controller plain slots lost)
    (hKept : KeepsPointer allocators memory) (accepted : ℤ) (epollAdded : Bool) (now : ℤ) :
    ∃ outcome slots', controller.handleConnection allocators memory accepted epollAdded =
        .ok outcome ∧
      Agrees outcome (plain.handleConnection accepted epollAdded now) slots' lost := by
  rw [ControllerObject.handleConnection, MIPTPAppController.handleConnection]
  split_ifs with hAccepted hAdded
  · exact ⟨_, slots, rfl, rfl, rfl, h⟩
  · exact ⟨_, slots, rfl, rfl, rfl, h⟩
  · have hFresh := allocators.object.fresh_of_allocated h.objects
    obtain ⟨nodes', connections', hPush, hOwns, hExchange⟩ := h.owns.pushAllocated hFresh
      (Exchange.refl _ slots) (List.Subset.refl slots)
      (h.owns.alloc hFresh (AppConnection.unregistered accepted))
      (allocators.node.fresh_of_allocated h.nodes)
    have hReturned : (intResult (allocators.object.malloc memory.objects)).bind intResult =
        some (allocators.object.malloc memory.objects) := by
      rw [hKept, Option.bind_some, hKept]
    simp only [hReturned, hPush, bind, Except.bind, AppConnection.createNotReady_eq]
    have hStep := h.step hOwns hExchange
    rw [List.map_append, ← h.connections] at hStep
    exact ⟨_, _, rfl, rfl, rfl, hStep⟩

theorem isOn_eq (memory : ConnectionMemory) (socket : ℤ) (pointer : ℕ)
    (connection : AppConnection) (hLive : memory.objects pointer = some connection) :
    isOn memory socket pointer = .ok (decide (connection.socket = socket)) := by
  simp only [isOn, Heap.read_of_live hLive, bind, Except.bind]

theorem isSome_find_socket (slots : List (Slot AppConnection)) (socket : ℤ) :
    (slots.find? fun slot => slot.object.socket = socket).isSome =
      (slots.map Slot.object).any fun connection => connection.socket = socket := by
  rw [Bool.eq_iff_iff]
  simp [List.find?_isSome]

/-- The search by socket in memory, over nodes and records, finds what the plain one does. -/
theorem Holds.isAConnection (h : Holds memory controller plain slots lost) (socket : ℤ) :
    controller.isAConnection memory socket = .ok (plain.isAConnection socket) := by
  have hTurn : ∀ slot ∈ slots, ∀ node, memory.nodes slot.node = some node →
      node.value = slot.pointer → isAConnectionTurn memory socket none slot.node =
        .ok (if decide (slot.object.socket = socket) then .leave (some slot.pointer)
          else .next none) := by
    intro slot hMem node hNode hValue
    simp only [isAConnectionTurn, Heap.read_of_live hNode, bind, Except.bind, hValue,
      isOn_eq memory socket _ _ (h.owns.objects slot hMem)]
  have hFind := forEach_find (q := fun connection : AppConnection => connection.socket = socket)
    h.owns.represents.linked.visits_next (Nat.le_of_eq h.owns.fuel.symm) hTurn
  rw [ControllerObject.isAConnection, MIPTPAppController.isAConnection, h.connections,
    h.owns.represents.first, hFind]
  split_ifs with hNegative hKnown
  · rfl
  · simp only [bind, Except.bind, Option.isSome_map, isSome_find_socket, hKnown, if_true]
  · simp only [bind, Except.bind, Option.isSome_map, isSome_find_socket, hKnown]
    rfl

/-- The record of the socket is taken off and freed. Its job goes with it. -/
theorem Holds.disconnect (h : Holds memory controller plain slots lost) (socket : ℤ) :
    ∃ outcome slots', controller.disconnect memory socket = .ok outcome ∧
      Agrees outcome (plain.disconnect socket) slots' lost := by
  obtain ⟨nodes', connections', objects', hLoop, hFree, hOwns, hExchange⟩ :=
    h.owns.removeFirst (Nat.le_of_eq h.owns.fuel.symm) (isOn_eq memory socket)
  have hStep := h.step hOwns hExchange
  simp only [ControllerObject.disconnect, hLoop, hFree, bind, Except.bind, Option.isSome_map,
    isSome_find_socket]
  rw [MIPTPAppController.disconnect, h.connections]
  cases hKnown : (slots.map Slot.object).any fun connection => connection.socket = socket with
  | true =>
      simp only [if_true, List.eraseP_map]
      exact ⟨_, _, rfl, rfl, rfl, hStep⟩
  | false =>
      have hNone : ∀ slot ∈ slots, ¬ decide (slot.object.socket = socket) = true := by
        intro slot hSlot hSocket
        exact Bool.eq_false_iff.mp hKnown
          (List.any_eq_true.mpr ⟨slot.object, List.mem_map_of_mem hSlot, hSocket⟩)
      rw [List.eraseP_of_forall_not hNone, ← h.connections] at hStep
      exact ⟨_, _, rfl, rfl, rfl, hStep⟩

/-- Creating a connection whose record is found again fails for receivers only. The address that
comes back as an `int` is the one that was allocated. -/
theorem createConnection_cases (hKept : KeepsPointer allocators memory)
    (socket timeout now : ℤ) (package : ClientPackage) :
    let pointer := allocators.object.malloc memory.objects
    let create := AppConnection.create (connectionType package.type) socket package.port
      package.destination package.data package.size_le timeout now
    (package.type = .receiver ∧ create = none ∧
        createConnection allocators memory socket timeout now package =
          (none, ⟨memory.nodes, memory.objects.alloc pointer
            (AppConnection.refused socket package.port package.destination timeout)⟩)) ∨
      ∃ complete, package.type ≠ .receiver ∧ create = some complete ∧ complete.socket = socket ∧
        createConnection allocators memory socket timeout now package =
          (some pointer, ⟨memory.nodes, memory.objects.alloc pointer complete⟩) := by
  intro pointer create
  by_cases hType : package.type = .receiver
  · refine Or.inl ⟨hType, ?_, ?_⟩
    · simp only [create, hType, connectionType, AppConnection.create_receiver]
    · simp only [createConnection, hType, connectionType, AppConnection.create_receiver]
      rfl
  · obtain ⟨complete, hCreate⟩ := AppConnection.exists_create hType socket package.port
      package.destination package.size_le timeout now
    refine Or.inr ⟨complete, hType, hCreate, (AppConnection.create_fields hCreate).1, ?_⟩
    rw [createConnection, hKept]
    simp only [hCreate]
    rfl

theorem appPackageTurn_of_ne (h : Holds memory controller plain slots lost) (hMem : slot ∈ slots)
    (hOther : slot.object.socket ≠ socket) (connections : LinkedList) (result : Except Halt ℤ) :
    appPackageTurn allocators socket timeout now package (memory, connections, result) slot.node =
      .ok (.next (memory, connections, result)) := by
  obtain ⟨node, hRead, -, hObject⟩ := h.read hMem
  simp only [appPackageTurn, hRead, hObject, bind, Except.bind, if_neg hOther]

/-- A receiver is refused at the record of its socket, and the record stays. That of the receiver
stays too, in use and in no list. -/
theorem appPackageTurn_of_receiver (h : Holds memory controller plain slots lost)
    (hMem : slot ∈ slots) (hSocket : slot.object.socket = socket)
    (hType : package.type = .receiver) (hKept : KeepsPointer allocators memory)
    (timeout now : ℤ) (connections : LinkedList) (result : Except Halt ℤ) :
    ∃ memory' pointer,
      appPackageTurn allocators socket timeout now package (memory, connections, result)
        slot.node = .ok (.leave (memory', connections, .error .error)) ∧
      Holds memory' controller plain slots (lost ++ [pointer]) := by
  obtain ⟨node, hRead, -, hObject⟩ := h.read hMem
  rcases createConnection_cases hKept socket timeout now package with
    ⟨-, -, hCreate⟩ | ⟨_, hOther, -⟩
  · refine ⟨_, _, ?_, h.lose (allocators.object.fresh_of_allocated h.objects)
      (AppConnection.refused socket package.port package.destination timeout)⟩
    simp only [appPackageTurn, hRead, hObject, bind, Except.bind, if_pos hSocket, hCreate]
  · exact absurd hType hOther

/-- Another application gets a new record in place of the old one, which is freed; the loop is
left at once. -/
theorem appPackageTurn_of_complete {front : List (Slot AppConnection)} {complete : AppConnection}
    (h : Holds memory controller plain (front ++ slot :: rest) lost)
    (hSocket : slot.object.socket = socket)
    (hComplete : AppConnection.create (connectionType package.type) socket package.port
      package.destination package.data package.size_le timeout now = some complete)
    (hKept : KeepsPointer allocators memory) (result : Except Halt ℤ) :
    ∃ memory' connections' slots',
      appPackageTurn allocators socket timeout now package
        (memory, controller.connections, result) slot.node =
          .ok (.leave (memory', connections', .ok 1)) ∧
      Holds memory' { controller with connections := connections' }
        (plain.withConnections ((front ++ rest).map Slot.object ++ [complete])) slots' lost := by
  obtain ⟨node, hRead, hValue, hObject⟩ := h.read (List.mem_append_right front List.mem_cons_self)
  have hFresh := allocators.object.fresh_of_allocated h.objects
  obtain ⟨nodes', connections', objects', hRemove, hFree, hOwns, hExchange⟩ :=
    (h.owns.alloc hFresh complete).removeNode
  have hNodes : nodes'.Allocated ((front ++ rest).map Slot.node) := by
    have hBefore : memory.nodes.Allocated ([] ++ (front ++ slot :: rest).map Slot.node) := h.nodes
    refine hBefore.turnover hExchange.nodes hOwns.nodup fun a ha => ?_
    obtain ⟨other, hMem, rfl⟩ := List.mem_map.mp ha
    exact (hOwns.live hMem).1
  obtain ⟨nodes'', connections'', hPush, hAfter, hTotal⟩ := h.owns.pushAllocated hFresh hExchange
    (((List.sublist_cons_self slot rest).append_left front).subset) hOwns
    (allocators.node.fresh_of_allocated hNodes)
  have hStep := h.step hAfter hTotal
  rw [List.map_append] at hStep
  refine ⟨_, connections'', _, ?_, hStep⟩
  rcases createConnection_cases hKept socket timeout now package with
    ⟨-, hNone, -⟩ | ⟨created, -, hCreated, -, hCreate⟩
  · rw [hComplete] at hNone
    cases hNone
  · obtain rfl : created = complete := Option.some.inj (hCreated.symm.trans hComplete)
    rw [← hValue] at hFree
    simp only [appPackageTurn, hRead, hObject, bind, Except.bind, if_pos hSocket, hCreate, hRemove,
      hFree, hPush]

/-- Replacing the record of a socket in the list of slots replaces it in the list of connections,
as no other one has the socket. -/
theorem replace_first {front : List (Slot AppConnection)} {complete : AppConnection}
    (hFront : ∀ other ∈ front, decide (other.object.socket = complete.socket) = false)
    (hSocket : slot.object.socket = complete.socket) :
    KeyedList.replace AppConnection.socket complete ((front ++ slot :: rest).map Slot.object) =
      (front ++ rest).map Slot.object ++ [complete] := by
  have hOthers : ∀ other ∈ front.map Slot.object,
      ¬ decide (other.socket = complete.socket) = true := by
    intro other hMem
    obtain ⟨first, hFirst, rfl⟩ := List.mem_map.mp hMem
    exact Bool.eq_false_iff.mp (hFront first hFirst)
  rw [KeyedList.replace, List.map_append, List.map_cons, List.eraseP_append_right _ hOthers,
    List.eraseP_cons_of_pos (p := fun other : AppConnection => other.socket = complete.socket)
      (decide_eq_true hSocket), List.map_append]

theorem find_of_none (hNone : ∀ slot ∈ slots, decide (slot.object.socket = socket) = false) :
    (slots.map Slot.object).find? (fun connection => connection.socket = socket) = none ∧
      (slots.map Slot.object).any (fun connection => connection.socket = socket) = false := by
  have hFind : (slots.map Slot.object).find? (fun connection => connection.socket = socket) =
      none := by
    rw [List.find?_eq_none]
    rintro connection hMem hSocket
    obtain ⟨slot, hSlot, rfl⟩ := List.mem_map.mp hMem
    rw [hNone slot hSlot] at hSocket
    cases hSocket
  exact ⟨hFind, List.any_eq_false.mpr (List.find?_eq_none.mp hFind)⟩

theorem find_of_mem (hMem : slot ∈ slots) (hSocket : slot.object.socket = socket) :
    (∃ old, (slots.map Slot.object).find? (fun connection => connection.socket = socket) =
        some old) ∧
      (slots.map Slot.object).any (fun connection => connection.socket = socket) = true := by
  have hMatch : decide (slot.object.socket = socket) = true := decide_eq_true hSocket
  refine ⟨Option.isSome_iff_exists.mp ?_, ?_⟩
  · exact List.find?_isSome.mpr ⟨slot.object, List.mem_map_of_mem hMem, hMatch⟩
  · exact List.any_eq_true.mpr ⟨slot.object, List.mem_map_of_mem hMem, hMatch⟩

/-- The first record of the socket makes room, unless a receiver asks for it. This is the only
operation that loses a record. -/
theorem Holds.handleAppPackage (h : Holds memory controller plain slots lost)
    (hKept : KeepsPointer allocators memory) (socket : ℤ) (buffer : List UInt8) (now : ℤ) :
    ∃ outcome slots' more,
      controller.handleAppPackage allocators memory socket buffer now = .ok outcome ∧
      Agrees outcome (plain.handleAppPackage socket buffer now) slots' (lost ++ more) ∧
      more.length = if plain.refuses socket buffer then 1 else 0 := by
  rw [ControllerObject.handleAppPackage, MIPTPAppController.handleAppPackage,
    MIPTPAppController.refuses]
  cases ClientPackage.deserialize buffer with
  | error halt => exact ⟨_, slots, [], rfl, ⟨rfl, rfl, h.nothing⟩, rfl⟩
  | ok package =>
      by_cases hPort : package.port = 0
      · simp only [if_pos hPort]
        refine ⟨_, slots, [], rfl, ⟨rfl, rfl, h.nothing⟩, by simp [hPort]⟩
      by_cases hDestination : package.destination = 0
      · simp only [if_neg hPort, if_pos hDestination]
        refine ⟨_, slots, [], rfl, ⟨rfl, rfl, h.nothing⟩, by simp [hDestination]⟩
      simp only [if_neg hPort, if_neg hDestination, h.connections]
      have hTimeout : plain.timeout = controller.timeout := h.view ▸ rfl
      have hSkip : ∀ slot ∈ slots, decide (slot.object.socket = socket) = false →
          appPackageTurn allocators socket controller.timeout now package
              (memory, controller.connections, .ok 1) slot.node =
            .ok (.next (memory, controller.connections, .ok 1)) := fun slot hMem hOther =>
        appPackageTurn_of_ne h hMem (of_decide_eq_false hOther) controller.connections (.ok 1)
      rcases h.owns.forEach_first (fun connection => connection.socket = socket)
        (fun state : Registering => state.1.nodes) (memory, controller.connections, .ok 1) rfl
        hSkip with ⟨hNone, hLoop⟩ | ⟨front, slot, rest, rfl, hFront, hMatch, hLoop⟩
      · obtain ⟨hFind, hAny⟩ := find_of_none hNone
        simp only [hLoop, bind, Except.bind, hFind, hAny]
        refine ⟨_, slots, [], rfl, ⟨rfl, rfl, h.nothing⟩, by simp⟩
      · have hSocket : slot.object.socket = socket := of_decide_eq_true hMatch
        have hMem : slot ∈ front ++ slot :: rest := List.mem_append_right front List.mem_cons_self
        obtain ⟨⟨old, hFind⟩, hAny⟩ := find_of_mem hMem hSocket
        simp only [hLoop, hFind, hAny, hTimeout]
        rcases createConnection_cases hKept socket controller.timeout now package with
          ⟨hType, hNone, -⟩ | ⟨complete, hType, hComplete, hCreated, -⟩
        · obtain ⟨memory', pointer, hTurn, hHolds⟩ := appPackageTurn_of_receiver
            h hMem hSocket hType hKept controller.timeout now controller.connections (.ok 1)
          simp only [LinkedList.forEach_leave hTurn, bind, Except.bind, hNone]
          refine ⟨_, _, [pointer], rfl, ⟨rfl, rfl, hHolds⟩, ?_⟩
          simp [hPort, hDestination, hType]
        · obtain ⟨memory', connections', slots', hTurn, hHolds⟩ := appPackageTurn_of_complete
            h hSocket hComplete hKept (.ok 1)
          simp only [LinkedList.forEach_leave hTurn, bind, Except.bind, hComplete]
          rw [replace_first (hCreated ▸ hFront) (hSocket.trans hCreated.symm)]
          refine ⟨_, slots', [], rfl, ⟨rfl, rfl, hHolds.nothing⟩, ?_⟩
          simp [hType]

variable {objects : Heap AppConnection}

section Turn

variable {nodes : Heap (ListNode ℕ)} {node : ListNode ℕ} {address : ℕ}
  {connection received : AppConnection} {sender : MIPAddress} {package : MIPTPPackage}

theorem mipdPackageTurn_of_ne (hRead : nodes.read (some address) = .ok node)
    (hLive : objects node.value = some connection)
    (hPort : connection.port ≠ package.miptpHeader.port) :
    mipdPackageTurn nodes sender package (objects, .ok 1) address =
      .ok (.next (objects, .ok 1)) := by
  simp only [mipdPackageTurn, hRead, bind, Except.bind, Heap.read_of_live hLive, if_neg hPort]

theorem mipdPackageTurn_of_error {halt : Halt} (hRead : nodes.read (some address) = .ok node)
    (hLive : objects node.value = some connection)
    (hPort : connection.port = package.miptpHeader.port)
    (hReceive : connection.receivePackage sender package = .error halt) :
    mipdPackageTurn nodes sender package (objects, .ok 1) address =
      .ok (.leave (objects, .error halt)) := by
  simp only [mipdPackageTurn, hRead, bind, Except.bind, Heap.read_of_live hLive, if_pos hPort,
    hReceive]

/-- A record that takes the package is written back, and ends the loop if it failed. -/
theorem mipdPackageTurn_of_ok {rc : ℤ} (hRead : nodes.read (some address) = .ok node)
    (hLive : objects node.value = some connection)
    (hPort : connection.port = package.miptpHeader.port)
    (hReceive : connection.receivePackage sender package = .ok (rc, received)) :
    mipdPackageTurn nodes sender package (objects, .ok 1) address =
      .ok (if rc = -1 then
          .leave (Function.update objects node.value (some received), .error .error)
        else .next (Function.update objects node.value (some received), .ok 1)) := by
  simp only [mipdPackageTurn, hRead, bind, Except.bind, Heap.read_of_live hLive, if_pos hPort,
    hReceive, Heap.modify_of_live _ hLive]
  split_ifs <;> rfl

end Turn

/-- The loop over the records from this node on has the plain result and leaves the plain
connections, each in its place. -/
def Gives (nodes : Heap (ListNode ℕ)) (sender : MIPAddress) (package : MIPTPPackage) (fuel : ℕ)
    (pointer : Option ℕ) (objects : Heap AppConnection) (slots : List (Slot AppConnection))
    (plain : Except Halt ℤ × List AppConnection) : Prop :=
  ∃ objects' slots',
    LinkedList.forEach (fun _ => nodes) LinkedCell.next (mipdPackageTurn nodes sender package) fuel
      pointer (objects, .ok 1) = .ok (objects', plain.1) ∧
    slots'.map Slot.object = plain.2 ∧ InPlace objects objects' slots slots'

/-- The turns after this one find the other records as they were, since each writes to its own
record only. -/
theorem Gives.cons {nodes : Heap (ListNode ℕ)} {node : ListNode ℕ} {sender : MIPAddress}
    {package : MIPTPPackage} {connection : AppConnection}
    {received : Except Halt ℤ × List AppConnection}
    (h : Gives nodes sender package fuel node.next
      (Function.update objects slot.pointer (some connection)) rest received)
    (hTurn : mipdPackageTurn nodes sender package (objects, .ok 1) slot.cell.1 =
      .ok (.next (Function.update objects slot.pointer (some connection), .ok 1)))
    (hNode : nodes slot.cell.1 = some node) (hApart : slot.pointer ∉ rest.map Slot.pointer) :
    Gives nodes sender package (fuel + 1) (some slot.cell.1) objects (slot :: rest)
      (received.1, connection :: received.2) := by
  obtain ⟨objects', slots', hLoop, hReceived, hPlace⟩ := h
  refine ⟨objects', _, (LinkedList.forEach_next hTurn hNode fuel).trans hLoop, ?_,
    hPlace.cons hApart⟩
  rw [List.map_cons, hReceived]

/-- The loop gives the package to the records one after the other, in their places. -/
theorem forEach_mipdPackageTurn {nodes : Heap (ListNode ℕ)} (sender : MIPAddress)
    (package : MIPTPPackage) (h : Visits nodes LinkedCell.next pointer (slots.map Slot.cell))
    (hObjects : ∀ slot ∈ slots, objects slot.pointer = some slot.object)
    (hDistinct : (slots.map Slot.pointer).Nodup) (hFuel : slots.length ≤ fuel) :
    Gives nodes sender package fuel pointer objects slots
      (MIPTPAppController.receiveAll sender package (slots.map Slot.object)) := by
  induction slots generalizing pointer fuel objects with
  | nil =>
      obtain rfl : pointer = none := h
      exact ⟨objects, [], LinkedList.forEach.eq_1 .., rfl, InPlace.refl hObjects⟩
  | cons slot rest ih =>
      obtain ⟨rfl, node, hNode, hValue, hRest⟩ := h
      obtain ⟨fuel, rfl⟩ := Nat.exists_eq_succ_of_ne_zero (Nat.ne_of_gt (Nat.zero_lt_of_lt hFuel))
      obtain ⟨hApart, hOthers⟩ := List.nodup_cons.mp hDistinct
      have hPointer : node.value = slot.pointer := hValue
      have hObject := hObjects slot List.mem_cons_self
      have hLive : objects node.value = some slot.object := hPointer ▸ hObject
      have hRead : nodes.read (some slot.cell.1) = .ok node := Heap.read_of_live hNode
      have hObjects' := fun connection : AppConnection => update_live hApart
        (fun other hMem => hObjects other (List.mem_cons_of_mem slot hMem)) (some connection)
      have hTail := fun connection =>
        ih hRest (hObjects' connection) hOthers (Nat.le_of_succ_le_succ hFuel)
      rw [List.map_cons, MIPTPAppController.receiveAll]
      by_cases hPort : slot.object.port = package.miptpHeader.port
      · simp only [hPort, if_true]
        cases hReceive : slot.object.receivePackage sender package with
        | error halt =>
            have hTurn := mipdPackageTurn_of_error hRead hLive hPort hReceive
            exact ⟨objects, slot :: rest, LinkedList.forEach_leave hTurn fuel, rfl,
              InPlace.refl hObjects⟩
        | ok received =>
            obtain ⟨rc, connection⟩ := received
            have hTurn := mipdPackageTurn_of_ok hRead hLive hPort hReceive
            rw [hPointer] at hTurn
            by_cases hFailed : rc = -1
            · simp only [if_pos hFailed] at hTurn ⊢
              exact ⟨_, _, LinkedList.forEach_leave hTurn fuel, rfl,
                (InPlace.refl (hObjects' connection)).cons hApart⟩
            · simp only [if_neg hFailed] at hTurn ⊢
              exact (hTail connection).cons hTurn hNode hApart
      · have hTurn : mipdPackageTurn nodes sender package (objects, .ok 1) slot.cell.1 =
            .ok (.next (Function.update objects slot.pointer (some slot.object), .ok 1)) := by
          rw [Function.update_eq_self_iff.mpr hObject.symm]
          exact mipdPackageTurn_of_ne hRead hLive hPort
        simp only [hPort, if_false]
        exact (hTail slot.object).cons hTurn hNode hApart

/-- Each record on the port is written to where it lies. No node or record is allocated or
freed. -/
theorem Holds.handleMipdPackage (h : Holds memory controller plain slots lost)
    (mipAddress : MIPAddress) (data : List UInt8) :
    ∃ outcome slots', controller.handleMipdPackage memory mipAddress data = .ok outcome ∧
      Agrees outcome (plain.handleMipdPackage mipAddress data) slots' lost := by
  rw [ControllerObject.handleMipdPackage, MIPTPAppController.handleMipdPackage]
  cases MIPTPPackage.deserialize data with
  | error halt => exact ⟨_, slots, rfl, rfl, rfl, h⟩
  | ok package =>
      obtain ⟨objects', slots', hLoop, hReceived, hPlace⟩ := forEach_mipdPackageTurn mipAddress
        package h.owns.represents.linked.visits_next h.owns.objects h.owns.distinct
        (Nat.le_of_eq h.owns.fuel.symm)
      obtain ⟨hOwns, hExchange⟩ := h.owns.inPlace hPlace
      have hStep := h.step hOwns hExchange
      rw [hReceived] at hStep
      simp only [h.owns.represents.first, hLoop, bind, Except.bind, h.connections]
      exact ⟨_, slots', rfl, rfl, rfl, hStep⟩

/-- The loop sends the windows of the records one after the other. -/
theorem forEach_outgoingTurn {nodes : Heap (ListNode ℕ)} (mipdSocket : ℤ) (written : ℕ → Bool)
    (sent : ℕ) (outputs : List AppOutput)
    (h : Visits nodes LinkedCell.next pointer (slots.map Slot.cell))
    (hObjects : ∀ slot ∈ slots, objects slot.pointer = some slot.object)
    (hFuel : slots.length ≤ fuel) :
    ∃ sent',
      LinkedList.forEach (fun _ => nodes) LinkedCell.next
        (outgoingTurn ⟨nodes, objects⟩ mipdSocket written) fuel pointer (sent, outputs, .ok 1) =
      .ok (sent',
        outputs ++
          (MIPTPAppController.sendWindows mipdSocket written sent (slots.map Slot.object)).2,
        (MIPTPAppController.sendWindows mipdSocket written sent (slots.map Slot.object)).1) := by
  induction slots generalizing pointer fuel sent outputs with
  | nil =>
      obtain rfl : pointer = none := h
      refine ⟨sent, (LinkedList.forEach.eq_1 ..).trans ?_⟩
      rw [List.map_nil, MIPTPAppController.sendWindows, List.append_nil]
  | cons slot rest ih =>
      obtain ⟨rfl, node, hNode, hValue, hRest⟩ := h
      obtain ⟨fuel, rfl⟩ := Nat.exists_eq_succ_of_ne_zero (Nat.ne_of_gt (Nat.zero_lt_of_lt hFuel))
      have hPointer : node.value = slot.pointer := hValue
      have hRead : nodes.read (some slot.cell.1) = .ok node := Heap.read_of_live hNode
      have hObject := Heap.read_of_live (hObjects slot List.mem_cons_self)
      rw [List.map_cons, MIPTPAppController.sendWindows]
      cases hPackages : slot.object.nextPackages with
      | error halt =>
          have hTurn : outgoingTurn ⟨nodes, objects⟩ mipdSocket written (sent, outputs, .ok 1)
              slot.cell.1 = .ok (.leave (sent, outputs, .error halt)) := by
            simp only [outgoingTurn, hRead, bind, Except.bind, hPointer, hObject, hPackages]
          refine ⟨sent, (LinkedList.forEach_leave hTurn fuel).trans ?_⟩
          rw [List.append_nil]
      | ok packages =>
          simp only
          cases hSend : MIPTPAppController.sendPackages mipdSocket written slot.object sent
              packages with
          | mk result more =>
              cases result with
              | error halt =>
                  have hTurn : outgoingTurn ⟨nodes, objects⟩ mipdSocket written
                      (sent, outputs, .ok 1) slot.cell.1 =
                        .ok (.leave (sent, outputs ++ more, .error halt)) := by
                    simp only [outgoingTurn, hRead, bind, Except.bind, hPointer, hObject, hPackages,
                      hSend]
                  exact ⟨sent, LinkedList.forEach_leave hTurn fuel⟩
              | ok rc =>
                  have hTurn : outgoingTurn ⟨nodes, objects⟩ mipdSocket written
                      (sent, outputs, .ok 1) slot.cell.1 =
                        .ok (.next (sent + packages.length, outputs ++ more, .ok 1)) := by
                    simp only [outgoingTurn, hRead, bind, Except.bind, hPointer, hObject, hPackages,
                      hSend]
                  obtain ⟨sent', hLoop⟩ := ih (sent + packages.length) (outputs ++ more) hRest
                    (fun other hMem => hObjects other (List.mem_cons_of_mem slot hMem))
                    (Nat.le_of_succ_le_succ hFuel)
                  refine ⟨sent', (LinkedList.forEach_next hTurn hNode fuel).trans (hLoop.trans ?_)⟩
                  rw [List.append_assoc]

theorem Holds.handleOutgoing (h : Holds memory controller plain slots lost)
    (written : ℕ → Bool) :
    ∃ outcome, controller.handleOutgoing memory written = .ok outcome ∧
      Agrees outcome (plain.handleOutgoing written) slots lost := by
  obtain ⟨sent', hLoop⟩ := forEach_outgoingTurn controller.mipdSocket written 0 []
    h.owns.represents.linked.visits_next h.owns.objects (Nat.le_of_eq h.owns.fuel.symm)
  have hSocket : plain.mipdSocket = controller.mipdSocket := h.view ▸ rfl
  rw [ControllerObject.handleOutgoing, MIPTPAppController.handleOutgoing, h.connections, hSocket,
    h.owns.represents.first, hLoop]
  exact ⟨_, rfl, rfl, rfl, h⟩

/-- The loop survives only where no connection is complete, and then it has changed nothing. -/
theorem Holds.handleCompletes (h : Holds memory controller plain slots lost) :
    ((∃ connection ∈ plain.connections, connection.status = .complete) ∧
        controller.handleCompletes memory = .error .fault) ∨
      (∀ connection ∈ plain.connections, connection.status ≠ .complete) ∧
        ∃ outcome, controller.handleCompletes memory = .ok outcome ∧
          Agrees outcome plain.handleCompletes slots lost := by
  have hSkip : ∀ slot ∈ slots, decide (slot.object.status = .complete) = false →
      completesTurn (memory, controller.connections, []) slot.node =
        .ok (.next (memory, controller.connections, [])) := by
    intro slot hMem hOther
    obtain ⟨node, hRead, -, hObject⟩ := h.read hMem
    simp only [completesTurn, hRead, hObject, bind, Except.bind,
      if_neg (of_decide_eq_false hOther)]
  rw [ControllerObject.handleCompletes]
  rcases h.owns.forEach_first (fun connection => connection.status = .complete)
    (fun state : Completing => state.1.nodes) (memory, controller.connections, []) rfl hSkip with
    ⟨hNone, hLoop⟩ | ⟨front, slot, rest, rfl, -, hMatch, hLoop⟩
  · have hOpen : ∀ connection ∈ plain.connections, connection.status ≠ .complete := by
      rw [h.connections]
      intro connection hMem
      obtain ⟨slot, hSlot, rfl⟩ := List.mem_map.mp hMem
      exact of_decide_eq_false (hNone slot hSlot)
    rw [hLoop, MIPTPAppController.handleCompletes_of_none hOpen]
    exact Or.inr ⟨hOpen, _, rfl, rfl, rfl, h⟩
  · have hMem : slot ∈ front ++ slot :: rest := List.mem_append_right front List.mem_cons_self
    obtain ⟨node, hRead, hValue, hObject⟩ := h.read hMem
    obtain ⟨nodes', connections', objects', hRemove, hFree, hOwns, hExchange⟩ := h.owns.removeNode
    rw [← hValue] at hFree
    have hTurn : completesTurn (memory, controller.connections, []) slot.node =
        .ok (.next (⟨nodes', objects'⟩, connections', [] ++
          MIPTPAppController.sendClientPackage slot.object.socket slot.object.result ++
          if slot.object.socket ≠ 0 then [.close slot.object.socket] else [])) := by
      simp only [completesTurn, hRead, hObject, bind, Except.bind,
        if_pos (of_decide_eq_true hMatch), hFree, hRemove]
    have hNodup := h.owns.nodup
    rw [List.map_append, List.map_cons, List.nodup_middle, ← List.map_append] at hNodup
    have hGone : nodes' slot.node = none := hExchange.nodes.gone slot.node
      (List.mem_map_of_mem hMem) (List.nodup_cons.mp hNodup).1
    refine Or.inl ⟨⟨slot.object, ?_, of_decide_eq_true hMatch⟩, ?_⟩
    · rw [h.connections]
      exact List.mem_map_of_mem hMem
    · rw [hLoop, LinkedList.forEach_freed hTurn hGone]
      rfl

/-- Destroying the controller frees the nodes of its list and leaves every record in use. -/
theorem Holds.destroy (h : Holds memory controller plain slots lost) :
    ∃ memory', controller.destroy memory = .ok memory' ∧ memory'.nodes.Allocated [] ∧
      memory'.objects.Allocated (lost ++ slots.map Slot.pointer) := by
  have hDestroy := h.owns.represents.destroy (Nat.le_of_eq (by
    rw [List.length_map, h.owns.fuel] :
      (slots.map Slot.cell).length = controller.connections.fuel))
  rw [addresses_cells] at hDestroy
  refine ⟨{ memory with nodes := memory.nodes.without (slots.map Slot.node) }, ?_, ?_, h.objects⟩
  · simp only [ControllerObject.destroy, hDestroy, bind, Except.bind]
  · have hBefore : memory.nodes.Allocated ([] ++ slots.map Slot.node) := h.nodes
    have hTurnover := Heap.turnover_without memory.nodes (slots.map Slot.node) []
    rw [List.append_nil] at hTurnover
    exact hBefore.turnover hTurnover List.nodup_nil (by simp)

end ControllerObject

end MipStack
