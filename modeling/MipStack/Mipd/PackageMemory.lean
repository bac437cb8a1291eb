import MipStack.Commons.OwnedList
import MipStack.Mipd.Handlers

/-! The memory of mipd (`mipd/src/lib/server.c` and what it calls). A package is taken together
with its payload, a message with its data. Headers, raw frames and strings that the function that
makes them frees are left out. Memory never runs out. -/
namespace MipStack
open ObjectMemory LinkedChain

/-- The struct `ForwardQueueEntry`, with a pointer to its package. -/
structure ForwardEntryObject where
  destination : MIPAddress
  package : ℕ
  ageMilli : ℤ
  deriving DecidableEq, Repr

/-- `buffers` hold what a message or an empty package is filled from, the strings for the log and
the answers of routerd, `tables` are the structures for routing tables, as their bytes. -/
structure MipdMemory where
  queue : ObjectMemory ForwardEntryObject
  packages : Heap MIPPackage
  messages : Heap MIPDMessage
  buffers : Heap (List UInt8)
  tables : Heap (List UInt8)

structure MipdAllocators where
  queue : ObjectAllocators ForwardEntryObject
  package : Heap.Allocator MIPPackage
  message : Heap.Allocator MIPDMessage
  buffer : Heap.Allocator (List UInt8)
  table : Heap.Allocator (List UInt8)

/-- The struct `MIPDServer`, with the list behind the pointer to its queue. -/
structure ServerObject where
  appSocket : LocalSocket
  routeSocket : LocalSocket
  forwardSocket : LocalSocket
  iTable : InterfaceTable
  cache : MipArpCache
  forwardQueue : LinkedList

structure ServerOutcome where
  result : Except Halt ℤ
  memory : MipdMemory
  server : ServerObject
  outputs : List Output
  running : Bool

/-! The strings of `mipd/src/lib/packaging/` -/

/-- The format `%02hhx`. -/
def hexByte (byte : UInt8) : String :=
  String.ofList [Nat.digitChar (byte.toNat / 16), Nat.digitChar (byte.toNat % 16)]

def etherAddrStr (macAddress : MacAddress) : String :=
  ":".intercalate (macAddress.toList.map hexByte)

def protocolStr (eProtocol : Vector UInt8 2) : String := String.join (eProtocol.toList.map hexByte)

def etherFrameToString (eFrame : EtherFrame) : String :=
  "---- Ethernet frame -----\nproto:\t" ++ protocolStr eFrame.ethProto ++
    "\nsrc:\t" ++ etherAddrStr eFrame.srcAddr ++ "\ndest:\t" ++ etherAddrStr eFrame.dstAddr ++
    "\n-------------------------\n"

def mipHeaderToString (mHeader : MIPHeader) : String :=
  "---- MIP header ----\ntra:\t" ++ mHeader.tra.toNat.repr ++
    "\nttl:\t" ++ mHeader.ttl.toNat.repr ++ "\npayload len:\t" ++ mHeader.payloadLen.toNat.repr ++
    "\ndst addres:\t" ++ mHeader.dstAddr.toNat.repr ++
    "\nsrc address:\t" ++ mHeader.srcAddr.toNat.repr ++ "\n--------------------\n"

/-- A string in a zeroed buffer. -/
def stringBuffer (string : String) (size : ℕ) : List UInt8 :=
  string.toUTF8.toList ++ List.replicate (size - string.utf8ByteSize) 0

namespace MipArpCache

theorem sweep_size_le (cache : MipArpCache) (clock : Clock) :
    (sweep (cache.updateFreq * 2) cache.entries.length 0 clock cache.entries).length ≤
      mipArpCacheCapacity :=
  (sweep_sublist _ _ _ _ _).length_le.trans cache.size_le

theorem sweep_address_ne (cache : MipArpCache) (clock : Clock) :
    ∀ entry ∈ sweep (cache.updateFreq * 2) cache.entries.length 0 clock cache.entries,
      entry.mipAddress ≠ 255 :=
  fun entry hMem => cache.address_ne entry ((sweep_sublist _ _ _ _ _).subset hMem)

/-- The cache after the first loop of `update_arp_cache`. -/
def withoutExpired (cache : MipArpCache) (clock : Clock) : MipArpCache :=
  { cache with
    entries := sweep (cache.updateFreq * 2) cache.entries.length 0 clock cache.entries
    size_le := cache.sweep_size_le clock
    address_ne := cache.sweep_address_ne clock }

end MipArpCache

namespace MipdMemory

def empty : MipdMemory :=
  { queue := ⟨fun _ => none, fun _ => none⟩
    packages := fun _ => none
    messages := fun _ => none
    buffers := fun _ => none
    tables := fun _ => none }

def createPackage (memory : MipdMemory) (allocators : MipdAllocators) (package : MIPPackage) :
    ℕ × MipdMemory :=
  let pointer := allocators.package.malloc memory.packages
  (pointer, { memory with packages := memory.packages.alloc pointer package })

def createBuffer (memory : MipdMemory) (allocators : MipdAllocators) (bytes : List UInt8) :
    ℕ × MipdMemory :=
  let pointer := allocators.buffer.malloc memory.buffers
  (pointer, { memory with buffers := memory.buffers.alloc pointer bytes })

/-- `MIPPackage_to_string` does not give back the strings of the two headers. -/
def packageToString (memory : MipdMemory) (allocators : MipdAllocators) (package : MIPPackage) :
    ℕ × MipdMemory :=
  let eFrameStr := etherFrameToString package.eFrame
  let mHeaderStr := mipHeaderToString package.mHeader
  let mPString := "-------- MIP package --------\n" ++ eFrameStr ++ mHeaderStr ++
    "-------- MIP Package END --------\n"
  let (_, memory) := memory.createBuffer allocators (stringBuffer eFrameStr 256)
  let (_, memory) := memory.createBuffer allocators (stringBuffer mHeaderStr 256)
  memory.createBuffer allocators (stringBuffer mPString (mPString.utf8ByteSize + 4))

/-- The received package as text, for the log. -/
def logReceived (memory : MipdMemory) (allocators : MipdAllocators) (package : MIPPackage) :
    Except Heap.Failure MipdMemory := do
  let (receivedPackageStr, memory) := memory.packageToString allocators package
  let buffers ← memory.buffers.free (some receivedPackageStr)
  .ok { memory with buffers }

/-- The zeros that the payload is filled from are not given back. -/
def createEmpty (memory : MipdMemory) (allocators : MipdAllocators) : Option (ℕ × MipdMemory) :=
  let buffers := memory.buffers.alloc (allocators.buffer.malloc memory.buffers)
    (List.replicate (payloadMaxWordNum * mipPayloadWord) 0)
  MIPPackage.createEmpty.map ({ memory with buffers }.createPackage allocators)

def destroyPackage (memory : MipdMemory) (pointer : ℕ) : Except Heap.Failure MipdMemory := do
  let packages ← memory.packages.free (some pointer)
  .ok { memory with packages }

/-- The package is destroyed when it has been sent. -/
def sendtoRawMipPackage (memory : MipdMemory) (socket : ℤ) (pointer : ℕ) :
    Except Heap.Failure (MipdMemory × Output) := do
  let package ← memory.packages.read (some pointer)
  let memory ← memory.destroyPackage pointer
  .ok (memory, .sendto socket package)

/-- A package is created and sent. -/
def sendNew (memory : MipdMemory) (allocators : MipdAllocators) (socket : ℤ)
    (package : MIPPackage) : Except Heap.Failure (MipdMemory × Output) :=
  let (pointer, memory) := memory.createPackage allocators package
  memory.sendtoRawMipPackage socket pointer

/-! `mipd/src/lib/mip_arp.c` -/

/-- What the loops over the interfaces carry. -/
abbrev Sent := MipdMemory × List Output

def arpRequestTurn (allocators : MipdAllocators) (state : Sent) (record : InterfaceRecord) :
    Except Heap.Failure Sent := do
  let (memory, outputs) := state
  let (memory, output) ← memory.sendNew allocators record.rawSocket
    (MIPPackage.createMipArpRequestPacket record.mipAddress record.interface)
  .ok (memory, outputs ++ [output])

def completeMipArp (memory : MipdMemory) (allocators : MipdAllocators) (table : InterfaceTable)
    (cache : MipArpCache) (now : ℤ) :
    Except Heap.Failure (MipdMemory × MipArpCache × List Output) := do
  let (memory, outputs) ← table.interfaces.foldlM (arpRequestTurn allocators) (memory, [])
  .ok (memory, { cache with lastArp := now }, outputs)

def updateArpCache (memory : MipdMemory) (allocators : MipdAllocators) (table : InterfaceTable)
    (cache : MipArpCache) (clock : Clock) :
    Except Heap.Failure (MipdMemory × MipArpCache × List Output) :=
  let swept := cache.withoutExpired clock
  if swept.shouldCompleteNewArp (clock cache.entries.length) then
    memory.completeMipArp allocators table swept (clock (cache.entries.length + 1))
  else .ok (memory, swept, [])

/-- Result and cache as in `MipArpCache.handleMipArpRequest`. -/
def handleMipArpRequest (memory : MipdMemory) (allocators : MipdAllocators) (cache : MipArpCache)
    (received : MIPPackage) (receivedOn : InterfaceRecord) (pointers : ℕ → PointerBytes)
    (now : ℤ) : Except Heap.Failure (MipdMemory × Except Halt (MipArpCache × List Output)) :=
  match MIPPackage.createRaw receivedOn.mipAddress ⟨pointers 0, receivedOn.interface⟩
      received.mHeader.srcAddr ⟨pointers 1, received.eFrame.srcAddr⟩ [] 0 with
  | none => .ok (memory, .error .error)
  | some response => do
    let (memory, output) ← memory.sendNew allocators receivedOn.rawSocket response
    match cache.appendToCache receivedOn.rawSocket received.mHeader.srcAddr receivedOn.sllAddr
        now with
    | .ok cache => .ok (memory, .ok (cache, [output]))
    | .error .error => .ok (memory, .ok (cache, [output]))
    | .error .fault => .error .fault

/-! `mipd/src/lib/router/forwarding.c` -/

def forwardQueuePush (memory : MipdMemory) (allocators : MipdAllocators) (queue : LinkedList)
    (package : ℕ) (now : ℤ) : Except Heap.Failure (MipdMemory × LinkedList) := do
  let entry := allocators.queue.object.malloc memory.queue.objects
  let value ← memory.packages.read (some package)
  let objects := memory.queue.objects.alloc entry ⟨value.mHeader.dstAddr, package, now⟩
  let (nodes, queue) ← queue.unshift memory.queue.nodes entry
    (some (allocators.queue.node.malloc memory.queue.nodes))
  .ok ({ memory with queue := ⟨nodes, objects⟩ }, queue)

/-- The pointer to the oldest package, or NULL. -/
def forwardQueuePop (memory : MipdMemory) (queue : LinkedList) :
    Except Heap.Failure (MipdMemory × LinkedList × Option ℕ) := do
  let (nodes, queue, popped) ← queue.pop memory.queue.nodes
  match popped with
  | none => .ok ({ memory with queue := { memory.queue with nodes } }, queue, none)
  | some pointer => do
    let entry ← memory.queue.objects.read (some pointer)
    let objects ← memory.queue.objects.free (some pointer)
    .ok ({ memory with queue := ⟨nodes, objects⟩ }, queue, some entry.package)

end MipdMemory

namespace ServerObject

def create (appSocket routeSocket forwardSocket : LocalSocket) (iTable : InterfaceTable)
    (cacheUpdateFreqMilli : ℤ) : ServerObject :=
  { appSocket, routeSocket, forwardSocket, iTable
    cache := MipArpCache.createCache cacheUpdateFreqMilli
    forwardQueue := .create }

def finish (server : ServerObject) (memory : MipdMemory) (rc : ℤ) (outputs : List Output) :
    ServerOutcome :=
  { result := .ok rc, memory, server, outputs, running := true }

/-- The loop is left; a fault is no outcome. -/
def halt (server : ServerObject) (memory : MipdMemory) : ServerOutcome :=
  { result := .error .error, memory, server, outputs := [], running := true }

/-- The package in memory as it is to be sent on. -/
def loadForwardPackage (server : ServerObject) (memory : MipdMemory) (pointer : Option ℕ)
    (nextHop : MIPAddress) : Except Heap.Failure (Option MipdMemory) :=
  let sock := server.cache.queryMipAddressSrcSocket nextHop
  if sock = -1 then .ok none
  else
    match server.iTable.recordForSocket sock,
      server.cache.entries.find? fun entry => entry.mipAddress = nextHop with
    | some record, some entry => do
      let packages ← memory.packages.modify pointer fun package => { package with
        eFrame := createEthernetFrame entry.dstInterface record.sllAddr
        mHeader := { package.mHeader with
          srcAddr := if package.mHeader.srcAddr = 255 then record.mipAddress
            else package.mHeader.srcAddr } }
      .ok (some { memory with packages })
    | _, _ => .error .fault

/-- A package that cannot be loaded is not destroyed. -/
def handleForwardResponse (server : ServerObject) (memory : MipdMemory) (nextHop : MIPAddress) :
    Except Heap.Failure ServerOutcome := do
  let (memory, forwardQueue, pointer) ← memory.forwardQueuePop server.forwardQueue
  let server := { server with forwardQueue }
  match ← server.loadForwardPackage memory pointer nextHop, pointer with
  | none, _ => .ok (server.halt memory)
  | some _, none => .error .fault
  | some memory, some pointer => do
    let (memory, output) ← memory.sendtoRawMipPackage
      (server.cache.queryMipAddressSrcSocket nextHop) pointer
    .ok (server.finish memory 1 [output])

/-- A package whose request cannot be written stays with the caller. -/
def requestForwarding (server : ServerObject) (memory : MipdMemory) (allocators : MipdAllocators)
    (destination : MIPAddress) (pointer : ℕ) (env : Env) : Except Heap.Failure ServerOutcome :=
  if server.forwardSocket.connectedSocketFd ≠ -1 ∧ env.forwardWritten then do
    let package ← memory.packages.read (some pointer)
    let (memory, forwardQueue) ← memory.forwardQueuePush allocators server.forwardQueue pointer
      (env.clock 0)
    .ok ({ server with forwardQueue }.finish memory 1 [.writeForward destination package])
  else .ok (server.finish memory 0 [])

/-! `mipd/src/lib/router/routing.c` -/

/-- The copy of the table is not destroyed. -/
def recvRouteTableBroadcast (server : ServerObject) (memory : MipdMemory)
    (allocators : MipdAllocators) (pointer : ℕ) : Except Heap.Failure ServerOutcome :=
  if server.routeSocket.connectedSocketFd = -1 then .ok (server.finish memory 0 [])
  else do
    let package ← memory.packages.read (some pointer)
    let bytes := package.message.take MIPRouteTablePackage.sizeofMIPRouteTablePackage
    let tables := memory.tables.alloc (allocators.table.malloc memory.tables) bytes
    .ok (server.finish { memory with tables } 1 [.writeRoute bytes])

/-- The scratch copy at `tmp` is overwritten for every interface. -/
def broadcastTurn (server : ServerObject) (allocators : MipdAllocators) (table tmp : ℕ)
    (pointers : ℕ → PointerBytes) (state : MipdMemory.Sent) (record : InterfaceRecord) :
    Except Heap.Failure MipdMemory.Sent := do
  let (memory, outputs) := state
  let bytes ← memory.tables.read (some table)
  match splitHorizonCopy server.cache record (MIPRouteTablePackage.ofBytes bytes) with
  | none => .error .fault
  | some copy => do
    let tables ← memory.tables.modify (some tmp) fun _ => copy.toBytes
    match MIPPackage.createRaw record.mipAddress ⟨pointers 0, record.interface⟩ 255
        ⟨pointers 1, ethBroadcastAddr⟩ copy.toBytes 2 with
    | none => .error .fault
    | some package => do
      let (memory, output) ← { memory with tables }.sendNew allocators record.rawSocket package
      .ok (memory, outputs ++ [output])

def broadcastRouteTable (server : ServerObject) (memory : MipdMemory)
    (allocators : MipdAllocators) (table : ℕ) (pointers : ℕ → PointerBytes) :
    Except Heap.Failure ServerOutcome := do
  let tmp := allocators.table.malloc memory.tables
  let memory := { memory with tables := memory.tables.alloc tmp [] }
  let (memory, outputs) ← server.iTable.interfaces.foldlM
    (server.broadcastTurn allocators table tmp pointers) (memory, [])
  let tables ← memory.tables.free (some table)
  let tables ← Heap.free tables (some tmp)
  .ok (server.finish { memory with tables } 1 outputs)

/-! `mipd/src/lib/app_connection.c` -/

def handleMIPPackageForApplication (server : ServerObject) (memory : MipdMemory)
    (allocators : MipdAllocators) (pointer : ℕ) : Except Heap.Failure ServerOutcome :=
  if server.appSocket.connectedSocketFd = -1 then .ok (server.finish memory 0 [])
  else do
    let received ← memory.packages.read (some pointer)
    match MIPDMessage.create received.mHeader.srcAddr (received.mHeader.payloadLen.toNat * 4)
        received.message with
    | none => .ok (server.halt memory)
    | some message =>
      let created := allocators.message.malloc memory.messages
      let memory := { memory with messages := memory.messages.alloc created message }
      match message.serialize with
      | none => .ok (server.halt memory)
      | some bytes => do
        let messages ← memory.messages.free (some created)
        .ok (server.finish { memory with messages } 1 [.sendApp bytes])

/-! `mipd/src/lib/server.c` -/

/-- The received package is destroyed at the end of the handler. -/
def thenDestroy (pointer : ℕ) (outcome : ServerOutcome) : Except Heap.Failure ServerOutcome := do
  let memory ← outcome.memory.destroyPackage pointer
  .ok { outcome with memory }

/-- Only where routerd is asked the package is not destroyed, whether or not it could be. -/
def handleReceivedPackage (server : ServerObject) (memory : MipdMemory)
    (allocators : MipdAllocators) (fd : ℤ) (record : InterfaceRecord) (pointer : ℕ) (env : Env) :
    Except Heap.Failure ServerOutcome := do
  let received ← memory.packages.read (some pointer)
  if received.mHeader.tra = 0 then
    match server.cache.appendToCache fd received.mHeader.srcAddr record.sllAddr (env.clock 0) with
    | .error .fault => .error .fault
    | .error .error => thenDestroy pointer (server.halt memory)
    | .ok cache => thenDestroy pointer ({ server with cache }.finish memory 0 [])
  else if received.mHeader.tra = 1 then do
    let (memory, handled) ← memory.handleMipArpRequest allocators server.cache received record
      env.pointers (env.clock 0)
    match handled with
    | .error .fault => .error .fault
    | .error .error => thenDestroy pointer (server.halt memory)
    | .ok (cache, outputs) => thenDestroy pointer ({ server with cache }.finish memory 0 outputs)
  else if received.mHeader.tra = 2 then do
    thenDestroy pointer (← server.recvRouteTableBroadcast memory allocators pointer)
  else if received.mHeader.tra = 3 then
    if (server.iTable.getInterfacePosForMipAddress received.mHeader.dstAddr).isSome then do
      thenDestroy pointer (← server.handleMIPPackageForApplication memory allocators pointer)
    else if received.mHeader.ttl = 0 then thenDestroy pointer (server.finish memory 0 [])
    else do
      let packages ← memory.packages.modify (some pointer) fun package => { package with
        mHeader := { package.mHeader with ttl := package.mHeader.ttl - 1 } }
      server.requestForwarding { memory with packages } allocators received.mHeader.dstAddr
        pointer env
  else thenDestroy pointer (server.finish memory 0 [])

def handleRawSocketFrame (server : ServerObject) (memory : MipdMemory)
    (allocators : MipdAllocators) (fd : ℤ) (frame : List UInt8) (env : Env) :
    Except Heap.Failure ServerOutcome :=
  match memory.createEmpty allocators with
  | none => .error .fault
  | some (pointer, memory) => do
    let empty ← memory.packages.read (some pointer)
    match recvRawMipPackage frame env.heap empty, server.iTable.recordForSocket fd with
    | some received, some record => do
      let packages ← memory.packages.modify (some pointer) fun _ => received
      let memory ← { memory with packages }.logReceived allocators received
      server.handleReceivedPackage memory allocators fd record pointer env
    | _, _ => .error .fault

def handleDomainSocketRequest (server : ServerObject) (memory : MipdMemory)
    (allocators : MipdAllocators) (message : ℕ) : Except Heap.Failure ServerOutcome := do
  let message ← memory.messages.read (some message)
  let sock := server.cache.queryMipAddressSrcSocket message.mipAddress
  if sock = -1 then .ok (server.finish memory 0 [])
  else
    match server.iTable.recordForSocket sock,
      server.cache.entries.find? fun entry => entry.mipAddress = message.mipAddress with
    | some record, some entry =>
      match MIPPackage.create (createEthernetFrame entry.dstInterface record.sllAddr)
          (createTransportMipHeader record.mipAddress message.mipAddress) message.data with
      | none => .error .fault
      | some package => do
        let (memory, output) ← memory.sendNew allocators sock package
        .ok (server.finish memory 1 [output])
    | _, _ => .error .fault

/-- Here a package whose request could not be written is destroyed. -/
def handleApplicationMessage (server : ServerObject) (memory : MipdMemory)
    (allocators : MipdAllocators) (message : ℕ) (env : Env) :
    Except Heap.Failure ServerOutcome := do
  let outcome ← server.handleDomainSocketRequest memory allocators message
  match outcome.result with
  | .ok 0 => do
    let value ← outcome.memory.messages.read (some message)
    match MIPDServer.createQueueable value (env.pointers 0) with
    | none => .ok (server.halt outcome.memory)
    | some package => do
      let (pointer, memory) := outcome.memory.createPackage allocators package
      let outcome ← server.requestForwarding memory allocators package.mHeader.dstAddr pointer env
      match outcome.result with
      | .ok 0 => thenDestroy pointer outcome
      | _ => .ok outcome
  | _ => .ok outcome

/-- The buffer that `MIPDMessage_deserialize` copies the data from is not given back. -/
def appBranch (server : ServerObject) (memory : MipdMemory) (allocators : MipdAllocators)
    (event : Event) (env : Env) : Except Heap.Failure ServerOutcome :=
  let data := event.data.take maxMipMessageDataSize
  if data = [] then
    .ok ({ server with appSocket := { server.appSocket with connectedSocketFd := -1 } }.finish
      memory 0 [.close event.fd])
  else if data.length < sizeofMIPDMessage then .ok (server.finish memory 0 [])
  else
    let readBuffer := data ++ List.replicate (maxMipMessageSize - data.length) 0
    let buffers := memory.buffers.alloc (allocators.buffer.malloc memory.buffers)
      ((readBuffer.drop 3).take (MIPDMessage.serializedGetDataSize readBuffer))
    match MIPDMessage.deserialize readBuffer with
    | none => .error .fault
    | some message => do
      let pointer := allocators.message.malloc memory.messages
      let messages := memory.messages.alloc pointer message
      let outcome ← server.handleApplicationMessage { memory with messages, buffers } allocators
        pointer env
      match outcome.result with
      | .error _ => .ok outcome
      | .ok _ => do
        let messages ← outcome.memory.messages.free (some pointer)
        .ok { outcome with memory := { outcome.memory with messages } }

/-- At the end of the connection the structure for the table stays. -/
def routeBranch (server : ServerObject) (memory : MipdMemory) (allocators : MipdAllocators)
    (event : Event) (env : Env) : Except Heap.Failure ServerOutcome :=
  let table := allocators.table.malloc memory.tables
  let bytes := event.data.take MIPRouteTablePackage.sizeofMIPRouteTablePackage
  let memory := { memory with tables := memory.tables.alloc table bytes }
  if event.data = [] then
    .ok ({ server with routeSocket := { server.routeSocket with connectedSocketFd := -1 } }.finish
      memory 0 [.close event.fd])
  else server.broadcastRouteTable memory allocators table env.pointers

/-- What is done about an answer of routerd, or about the end of its connection. -/
def handleAnswer (server : ServerObject) (memory : MipdMemory) (event : Event) :
    Except Heap.Failure ServerOutcome :=
  match event.data with
  | [] =>
    .ok ({ server with
      forwardSocket := { server.forwardSocket with connectedSocketFd := -1 } }.finish memory 0
        [.close event.fd])
  | forwardResponse :: _ =>
    if MIPDServer.forwardFound forwardResponse then
      server.handleForwardResponse memory forwardResponse
    else do
      let (memory, forwardQueue, package) ← memory.forwardQueuePop server.forwardQueue
      match package with
      | none => .ok ({ server with forwardQueue }.halt memory)
      | some pointer => thenDestroy pointer ({ server with forwardQueue }.finish memory 0 [])

/-- Where the loop is left the byte of the answer is not given back. -/
def forwardBranch (server : ServerObject) (memory : MipdMemory) (allocators : MipdAllocators)
    (event : Event) : Except Heap.Failure ServerOutcome := do
  let (forwardResponse, memory) := memory.createBuffer allocators [event.data.headD 0]
  let outcome ← server.handleAnswer memory event
  match outcome.result with
  | .error _ => .ok outcome
  | .ok _ => do
    let buffers ← outcome.memory.buffers.free (some forwardResponse)
    .ok { outcome with memory := { outcome.memory with buffers } }

/-- The server with these entries in its queue. -/
def view (server : ServerObject) (forwardQueue : List ForwardQueueEntry) : MIPDServer :=
  { appSocket := server.appSocket
    routeSocket := server.routeSocket
    forwardSocket := server.forwardSocket
    iTable := server.iTable
    cache := server.cache
    forwardQueue }

def acceptOn (server : ServerObject) (memory : MipdMemory) (event : Event)
    (connected : ServerObject) : ServerOutcome :=
  if event.accepted = -1 then server.halt memory
  else connected.finish memory 0 [.epollAdd event.accepted]

/-- Which branch is taken does not depend on the queue. -/
def branch (server : ServerObject) (memory : MipdMemory) (allocators : MipdAllocators)
    (event : Event) (env : Env) : Except Heap.Failure ServerOutcome :=
  match (server.view []).source event.fd with
  | .appListening => .ok (server.acceptOn memory event
      { server with appSocket := { server.appSocket with connectedSocketFd := event.accepted } })
  | .routeListening => .ok (server.acceptOn memory event
      { server with
        routeSocket := { server.routeSocket with connectedSocketFd := event.accepted } })
  | .forwardListening => .ok (server.acceptOn memory event
      { server with
        forwardSocket := { server.forwardSocket with connectedSocketFd := event.accepted } })
  | .routeConnection => server.routeBranch memory allocators event env
  | .forwardConnection => server.forwardBranch memory allocators event
  | .rawSocket => server.handleRawSocketFrame memory allocators event.fd event.data env
  | .appConnection => server.appBranch memory allocators event env
  | .stdin => .ok { server.finish memory 0 [] with
      running := event.data.take 5 != MIPDServer.stopCommand }
  | .unknown => .ok (server.finish memory 0 [])

/-- `ForwardQueue_destroy` frees the entries and the nodes. -/
def destroy (server : ServerObject) (memory : MipdMemory) : Except Heap.Failure MipdMemory := do
  let queue := server.forwardQueue
  let objects ← queue.clear queue.fuel memory.queue.nodes memory.queue.objects
  let nodes ← queue.destroy queue.fuel memory.queue.nodes
  .ok { memory with queue := ⟨nodes, objects⟩ }

end ServerObject

/-- What is in use next to the queue and the packages in it. -/
structure Strays where
  packages : List ℕ
  messages : List ℕ
  buffers : List ℕ
  tables : List ℕ

/-- The entry in memory is this one. -/
structure Stored (packages : Heap MIPPackage) (slot : Slot ForwardEntryObject)
    (entry : ForwardQueueEntry) : Prop where
  destination : slot.object.destination = entry.destination
  package : packages slot.object.package = some entry.package
  age : slot.object.ageMilli = entry.ageMilli

/-- The server in memory is this one; the list has the newest entry first. Next to its queue
only the strays are in use. -/
structure Keeps (memory : MipdMemory) (server : ServerObject) (plain : MIPDServer)
    (slots : List (Slot ForwardEntryObject)) (strays : Strays) : Prop where
  view : server.view plain.forwardQueue = plain
  owns : memory.queue.Owns server.forwardQueue slots
  queued : List.Forall₂ (Stored memory.packages) slots.reverse plain.forwardQueue
  nodes : memory.queue.nodes.Allocated (slots.map Slot.node)
  entries : memory.queue.objects.Allocated (slots.map Slot.pointer)
  packages : memory.packages.Allocated
    (strays.packages ++ slots.map fun slot => slot.object.package)
  messages : memory.messages.Allocated strays.messages
  buffers : memory.buffers.Allocated strays.buffers
  tables : memory.tables.Allocated strays.tables

/-- What was done in memory is what the plain handler does. -/
structure ServerOutcome.Agrees (o : ServerOutcome) (plain : Outcome) (strays : Strays) : Prop where
  result : o.result = plain.result
  outputs : o.outputs = plain.outputs
  running : o.running = plain.running
  keeps : ∃ slots, Keeps o.memory o.server plain.server slots strays

/-- Both fault, or both do the same. -/
inductive Matches : Except Heap.Failure ServerOutcome → Outcome → Strays → Prop where
  | fault {plain : Outcome} {strays : Strays} (h : plain.result = .error .fault) :
      Matches (.error .fault) plain strays
  | agrees {o : ServerOutcome} {plain : Outcome} {strays : Strays}
      (hFine : plain.result ≠ .error .fault) (h : o.Agrees plain strays) :
      Matches (.ok o) plain strays

variable {memory memory' : MipdMemory} {server : ServerObject} {plain : MIPDServer}
  {slots front : List (Slot ForwardEntryObject)} {slot : Slot ForwardEntryObject} {strays : Strays}
  {allocators : MipdAllocators} {package : MIPPackage} {pointer : ℕ} {rest : List ℕ}
  {o : ServerOutcome} {done : Outcome} {packages' : Heap MIPPackage}

/-- A new server has an empty queue, and nothing else of it is accounted for here. -/
theorem keeps_create (appSocket routeSocket forwardSocket : LocalSocket) (iTable : InterfaceTable)
    (cacheUpdateFreqMilli : ℤ) :
    Keeps .empty (.create appSocket routeSocket forwardSocket iTable cacheUpdateFreqMilli)
      (.create appSocket routeSocket forwardSocket iTable cacheUpdateFreqMilli) []
      ⟨[], [], [], []⟩ := by
  refine ⟨rfl, ⟨LinkedList.represents_create, List.nodup_nil, by simp⟩, List.Forall₂.nil, ?_, ?_,
    ?_, ?_, ?_, ?_⟩
  all_goals exact ⟨List.nodup_nil, fun _ => by simp [MipdMemory.empty]⟩

namespace Keeps

theorem mem_packages (strays : Strays) (hMem : slot ∈ slots) :
    slot.object.package ∈ strays.packages ++ slots.map fun slot => slot.object.package :=
  List.mem_append_right _ (List.mem_map_of_mem (f := fun slot => slot.object.package) hMem)

/-- Changes to other packages leave the queue as it is. -/
theorem withPackages (h : Keeps memory server plain slots strays) {packages : List ℕ}
    (hSame : ∀ slot ∈ slots, packages' slot.object.package = memory.packages slot.object.package)
    (hAllocated : packages'.Allocated (packages ++ slots.map fun slot => slot.object.package)) :
    Keeps { memory with packages := packages' } server plain slots { strays with packages } := by
  obtain ⟨hLength, hEntries⟩ := List.forall₂_iff_zip.mp h.queued
  refine { h with queued := ?_, packages := hAllocated }
  refine List.forall₂_iff_zip.mpr ⟨hLength, fun {slot entry} hMem => ?_⟩
  obtain ⟨hDestination, hPackage, hAge⟩ := hEntries hMem
  have hSlot : slot ∈ slots := List.mem_reverse.mp (List.of_mem_zip hMem).1
  exact ⟨hDestination, (hSame slot hSlot).trans hPackage, hAge⟩

/-- A package that is allocated is none of those in use. -/
theorem fresh (h : Keeps memory server plain slots strays) (allocators : MipdAllocators) :
    memory.packages (allocators.package.malloc memory.packages) = none :=
  allocators.package.fresh_of_allocated h.packages

/-- A new package is a stray until it is queued or freed. -/
theorem createPackage (h : Keeps memory server plain slots strays) (allocators : MipdAllocators)
    (package : MIPPackage) :
    Keeps (memory.createPackage allocators package).2 server plain slots
      { strays with
        packages := (memory.createPackage allocators package).1 :: strays.packages } := by
  have hFresh := h.fresh allocators
  refine h.withPackages (fun slot hMem => Heap.alloc_of_ne ?_) (h.packages.alloc hFresh package)
  obtain ⟨cell, hCell⟩ := h.packages.exists_live (mem_packages strays hMem)
  rintro hEq
  rw [hEq, hFresh] at hCell
  cases hCell

/-- A stray package and those of the queue are different objects, so writing to one leaves the
others. -/
theorem packages_ne (h : Keeps memory server plain slots strays)
    (hStray : pointer ∈ strays.packages) (hMem : slot ∈ slots) :
    slot.object.package ≠ pointer := by
  have hApart := (List.nodup_append.mp h.packages.nodup).2.2 pointer hStray slot.object.package
    (List.mem_map_of_mem hMem)
  exact hApart.symm

/-- A stray that is freed is none any more. -/
theorem destroyPackage (h : Keeps memory server plain slots strays)
    (hStrays : strays.packages = pointer :: rest) :
    ∃ memory', memory.destroyPackage pointer = .ok memory' ∧
      Keeps memory' server plain slots { strays with packages := rest } := by
  have hPackages := h.packages
  rw [hStrays] at hPackages
  obtain ⟨hFree, hAllocated⟩ := hPackages.free
  refine ⟨{ memory with packages := Function.update memory.packages pointer none }, ?_,
    h.withPackages (fun slot hMem => Function.update_of_ne ?_ ..) hAllocated⟩
  · simp only [MipdMemory.destroyPackage, hFree, bind, Except.bind]
  · exact h.packages_ne (hStrays ▸ List.mem_cons_self) hMem

/-- A stray package is changed in its place, as when its ttl is lowered. -/
theorem overwrite (h : Keeps memory server plain slots strays)
    (hStray : pointer ∈ strays.packages) (package : MIPPackage) :
    Keeps { memory with packages := Function.update memory.packages pointer (some package) } server
      plain slots strays :=
  h.withPackages (fun _ hMem => Function.update_of_ne (h.packages_ne hStray hMem) ..)
    (h.packages.overwrite (List.mem_append_left _ hStray) package)

/-- Nothing is left of a package that is created and sent. -/
theorem sendNew (h : Keeps memory server plain slots strays) (allocators : MipdAllocators)
    (socket : ℤ) (package : MIPPackage) :
    memory.sendNew allocators socket package = .ok (memory, .sendto socket package) := by
  have hFresh := h.fresh allocators
  have hGone : Function.update (memory.packages.alloc (allocators.package.malloc memory.packages)
      package) (allocators.package.malloc memory.packages) none = memory.packages := by
    rw [Heap.alloc, Function.update_idem, ← hFresh, Function.update_eq_self]
  simp only [MipdMemory.sendNew, MipdMemory.createPackage, MipdMemory.sendtoRawMipPackage,
    MipdMemory.destroyPackage, Heap.read_of_live Heap.alloc_same, Heap.free_of_live Heap.alloc_same,
    bind, Except.bind, hGone]

/-- The package is waiting behind the others, with a node and an entry of its own. -/
theorem push (h : Keeps memory server plain slots strays) (allocators : MipdAllocators)
    (hStrays : strays.packages = pointer :: rest)
    (hPackage : memory.packages pointer = some package) (now : ℤ) :
    ∃ memory' forwardQueue slots',
      memory.forwardQueuePush allocators server.forwardQueue pointer now =
        .ok (memory', forwardQueue) ∧
      Keeps memory' { server with forwardQueue }
        { plain with forwardQueue := MIPDServer.forwardQueuePush plain.forwardQueue package now }
        slots' { strays with packages := rest } := by
  have hEntry : memory.queue.objects (allocators.queue.object.malloc memory.queue.objects) = none :=
    allocators.queue.object.fresh_of_allocated h.entries
  have hNode : memory.queue.nodes (allocators.queue.node.malloc memory.queue.nodes) = none :=
    allocators.queue.node.fresh_of_allocated h.nodes
  let object : ForwardEntryObject := ⟨package.mHeader.dstAddr, pointer, now⟩
  obtain ⟨nodes', queue', hUnshift, hOwns, hTurnover⟩ :=
    (h.owns.alloc hEntry object).unshift Heap.alloc_same (h.owns.not_mem_of_fresh hEntry) hNode
  let objects := memory.queue.objects.alloc
    (allocators.queue.object.malloc memory.queue.objects) object
  refine ⟨{ memory with queue := ⟨nodes', objects⟩ }, queue', _, ?_, ?_, hOwns, ?_, ?_, ?_, ?_,
    h.messages, h.buffers, h.tables⟩
  · simp only [MipdMemory.forwardQueuePush, Heap.read_of_live hPackage, bind, Except.bind]
    rw [hUnshift]
  · rw [← h.view]
    rfl
  · rw [List.reverse_cons]
    exact List.rel_append h.queued (List.Forall₂.cons ⟨rfl, hPackage, rfl⟩ List.Forall₂.nil)
  · have hNodes : memory.queue.nodes.Allocated ([] ++ slots.map Slot.node) := h.nodes
    refine hNodes.turnover hTurnover hOwns.nodup fun a ha => ?_
    rw [← List.map_cons] at ha
    obtain ⟨slot, hMem, rfl⟩ := List.mem_map.mp ha
    exact (hOwns.live hMem).1
  · exact h.entries.alloc hEntry object
  · have hPackages := h.packages
    rw [hStrays] at hPackages
    exact hPackages.perm List.perm_middle.symm

/-- The oldest package is a stray once it is taken from the queue. -/
theorem pop (h : Keeps memory server plain slots strays) {entry : ForwardQueueEntry}
    {entries : List ForwardQueueEntry} (hQueue : plain.forwardQueue = entry :: entries) :
    ∃ memory' forwardQueue pointer front,
      memory.forwardQueuePop server.forwardQueue = .ok (memory', forwardQueue, some pointer) ∧
      memory'.packages pointer = some entry.package ∧
      Keeps memory' { server with forwardQueue } { plain with forwardQueue := entries } front
        { strays with packages := pointer :: strays.packages } := by
  have hQueued := h.queued
  rw [hQueue, List.forall₂_cons_right_iff] at hQueued
  obtain ⟨slot, others, hStored, hOthers, hSlots⟩ := hQueued
  obtain rfl : slots = others.reverse ++ [slot] := by
    rw [← List.reverse_cons, ← hSlots, List.reverse_reverse]
  have hEntry : memory.queue.objects slot.pointer = some slot.object :=
    h.owns.objects slot (by simp)
  obtain ⟨nodes', queue', objects', hPop, hFree, hOwns, hExchange⟩ := h.owns.pop
  refine ⟨{ memory with queue := ⟨nodes', objects'⟩ }, queue', slot.object.package,
    others.reverse, ?_, hStored.package, ?_, hOwns, ?_, ?_, ?_, ?_, h.messages, h.buffers, h.tables⟩
  · simp only [MipdMemory.forwardQueuePop, hPop, Heap.read_of_live hEntry, hFree, bind, Except.bind]
  · rw [← h.view]
    rfl
  · rw [List.reverse_reverse]
    exact hOthers
  · have hNodes : memory.queue.nodes.Allocated
        ([] ++ (others.reverse ++ [slot]).map Slot.node) := h.nodes
    refine hNodes.turnover hExchange.nodes hOwns.nodup fun a ha => ?_
    obtain ⟨slot, hMem, rfl⟩ := List.mem_map.mp ha
    exact (hOwns.live hMem).1
  · have hEntries : memory.queue.objects.Allocated
        ([] ++ (others.reverse ++ [slot]).map Slot.pointer) := h.entries
    refine hEntries.turnover hExchange.objects hOwns.distinct fun a ha => ?_
    obtain ⟨slot, hMem, rfl⟩ := List.mem_map.mp ha
    exact (hOwns.live hMem).2
  · refine h.packages.perm ?_
    rw [List.map_append, ← List.append_assoc]
    exact List.perm_append_comm

theorem pop_nil (h : Keeps memory server plain slots strays) (hQueue : plain.forwardQueue = []) :
    memory.forwardQueuePop server.forwardQueue = .ok (memory, server.forwardQueue, none) := by
  have hQueued := h.queued
  rw [hQueue, List.forall₂_nil_right_iff, List.reverse_eq_nil_iff] at hQueued
  subst hQueued
  simp only [MipdMemory.forwardQueuePop, h.owns.represents.pop_nil, bind, Except.bind]

/-- A handler that returns has done what the plain one does. -/
theorem finish (h : Keeps memory server plain slots strays) (rc : ℤ) (outputs : List Output) :
    Matches (.ok (server.finish memory rc outputs)) (plain.finish rc outputs) strays :=
  .agrees (by simp [MIPDServer.finish]) ⟨rfl, rfl, rfl, slots, h⟩

theorem halt (h : Keeps memory server plain slots strays) :
    Matches (.ok (server.halt memory)) (plain.halt .error) strays :=
  .agrees (by simp [MIPDServer.halt]) ⟨rfl, rfl, rfl, slots, h⟩

end Keeps

/-- The received package is freed after it was handled, whatever was done with it. -/
theorem Matches.thenDestroy (h : Matches (.ok o) done strays)
    (hStrays : strays.packages = pointer :: rest) :
    Matches (ServerObject.thenDestroy pointer o) done { strays with packages := rest } := by
  cases h with
  | agrees hFine hAgrees =>
      obtain ⟨slots, hKeeps⟩ := hAgrees.keeps
      obtain ⟨memory', hDestroy, hAfter⟩ := hKeeps.destroyPackage hStrays
      simp only [ServerObject.thenDestroy, hDestroy, bind, Except.bind]
      exact .agrees hFine ⟨hAgrees.result, hAgrees.outputs, hAgrees.running, slots, hAfter⟩

/-- The same where the handler itself may have failed. -/
theorem Matches.bindDestroy {r : Except Heap.Failure ServerOutcome} (h : Matches r done strays)
    (hStrays : strays.packages = pointer :: rest) :
    Matches (r >>= ServerObject.thenDestroy pointer) done { strays with packages := rest } := by
  cases h with
  | fault hFault => exact .fault hFault
  | agrees hFine hAgrees => exact (Matches.agrees hFine hAgrees).thenDestroy hStrays

end MipStack
