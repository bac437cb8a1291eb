import MipStack.Commons.MIPDMessage
import MipStack.Mipd.Link
import MipStack.Mipd.Routing

/-! The state of mipd (`mipd/src/lib/server.h`) and what the world around it
decides during one event. -/
namespace MipStack

structure LocalSocket where
  listeningSocketFd : ℤ
  connectedSocketFd : ℤ
  deriving DecidableEq, Repr

/-- The destination and the age are stored and never read again. -/
structure ForwardQueueEntry where
  destination : MIPAddress
  package : MIPPackage
  ageMilli : ℤ
  deriving DecidableEq, Repr

/-- The forward queue stands in the order of the requests, oldest first. -/
structure MIPDServer where
  appSocket : LocalSocket
  routeSocket : LocalSocket
  forwardSocket : LocalSocket
  iTable : InterfaceTable
  cache : MipArpCache
  forwardQueue : List ForwardQueueEntry

/-- `heap` is what lies behind the receive buffer, `pointers` are the addresses of
the MAC addresses passed on, `forwardWritten` tells if a write to a connected
routerd succeeds. -/
structure Env where
  heap : ℕ → UInt8
  pointers : ℕ → PointerBytes
  clock : Clock
  forwardWritten : Bool

/-- How an event was handled. `running` is false after the stop command. -/
structure Outcome where
  result : Except Halt ℤ
  server : MIPDServer
  outputs : List Output
  running : Bool

/-- The loop goes on: an error result leaves it. -/
def Outcome.continues (o : Outcome) : Bool := o.running && o.result.isOk

namespace MIPDServer

def create (appSocket routeSocket forwardSocket : LocalSocket) (iTable : InterfaceTable)
    (cacheUpdateFreqMilli : ℤ) : MIPDServer :=
  { appSocket, routeSocket, forwardSocket, iTable
    cache := MipArpCache.createCache cacheUpdateFreqMilli
    forwardQueue := [] }

/-- The handler ends without an error result. -/
def finish (server : MIPDServer) (rc : ℤ) (outputs : List Output) : Outcome :=
  { result := .ok rc, server, outputs, running := true }

def halt (server : MIPDServer) (halt : Halt) : Outcome :=
  { result := .error halt, server, outputs := [], running := true }

/-! `mipd/src/lib/router/forwarding.c` -/

/-- Nothing reports a failure of the queue, so pushing always succeeds. -/
def forwardQueuePush (queue : List ForwardQueueEntry) (package : MIPPackage) (now : ℤ) :
    List ForwardQueueEntry :=
  queue ++ [{ destination := package.mHeader.dstAddr, package, ageMilli := now }]

def forwardQueuePop (queue : List ForwardQueueEntry) :
    Option MIPPackage × List ForwardQueueEntry :=
  match queue with
  | entry :: rest => (some entry.package, rest)
  | [] => (none, [])

def forwardFound (forwardResponse : MIPAddress) : Bool := forwardResponse != 255

/-- The new Ethernet frame of a forwarded package; its source address is set
only if the package was made here. -/
def loadForwardPackage (server : MIPDServer) (forwardPackage : Option MIPPackage)
    (nextHop : MIPAddress) : Except Halt MIPPackage :=
  let sock := server.cache.queryMipAddressSrcSocket nextHop
  if sock = -1 then .error .error
  else
    match server.iTable.recordForSocket sock,
      server.cache.entries.find? fun entry => entry.mipAddress = nextHop, forwardPackage with
    | some record, some entry, some package =>
      .ok { package with
        eFrame := createEthernetFrame entry.dstInterface record.sllAddr
        mHeader := { package.mHeader with
          srcAddr := if package.mHeader.srcAddr = 255 then record.mipAddress
            else package.mHeader.srcAddr } }
    | _, _, _ => .error .fault

/-- After loading the package the same lookups are made again. -/
def handleForwardResponse (server : MIPDServer) (nextHop : MIPAddress) : Outcome :=
  let (forwardPackage, forwardQueue) := forwardQueuePop server.forwardQueue
  let server := { server with forwardQueue }
  match server.loadForwardPackage forwardPackage nextHop with
  | .error e => server.halt e
  | .ok package =>
    server.finish 1 [.sendto (server.cache.queryMipAddressSrcSocket nextHop) package]

/-- Result 0 if the request could not be written; the package is then dropped. -/
def requestForwarding (server : MIPDServer) (destination : MIPAddress) (package : MIPPackage)
    (env : Env) : Outcome :=
  if server.forwardSocket.connectedSocketFd ≠ -1 ∧ env.forwardWritten then
    let forwardQueue := forwardQueuePush server.forwardQueue package (env.clock 0)
    { server with forwardQueue }.finish 1 [.writeForward destination package]
  else server.finish 0 []

/-! `mipd/src/lib/router/routing.c` -/

/-- The first bytes of the message are handed to routerd as they are. -/
def recvRouteTableBroadcast (server : MIPDServer) (package : MIPPackage) : Outcome :=
  if server.routeSocket.connectedSocketFd = -1 then server.finish 0 []
  else server.finish 1 [.writeRoute (package.message.take
    MIPRouteTablePackage.sizeofMIPRouteTablePackage)]

/-! `mipd/src/lib/app_connection.c` -/

def createQueueable (message : MIPDMessage) (defaultMac : PointerBytes) : Option MIPPackage :=
  let mac : MacPointer := { pointer := defaultMac, target := Vector.replicate 6 0 }
  MIPPackage.createRaw 255 mac message.mipAddress mac message.data 3

def handleMIPPackageForApplication (server : MIPDServer) (received : MIPPackage) : Outcome :=
  if server.appSocket.connectedSocketFd = -1 then server.finish 0 []
  else
    match MIPDMessage.create received.mHeader.srcAddr (received.mHeader.payloadLen.toNat * 4)
        received.message with
    | none => server.halt .error
    | some message =>
      match message.serialize with
      | none => server.halt .error
      | some bytes => server.finish 1 [.sendApp bytes]

/-! `mipd/src/lib/server.c` -/

/-- The package that is received on a raw socket. -/
def receivePackage (frame : List UInt8) (env : Env) : Option MIPPackage :=
  MIPPackage.createEmpty.bind (recvRawMipPackage frame env.heap)

def handleReceivedPackage (server : MIPDServer) (fd : ℤ) (record : InterfaceRecord)
    (received : MIPPackage) (env : Env) : Outcome :=
  if received.mHeader.tra = 0 then
    match server.cache.appendToCache fd received.mHeader.srcAddr record.sllAddr (env.clock 0) with
    | .error e => server.halt e
    | .ok cache => { server with cache }.finish 0 []
  else if received.mHeader.tra = 1 then
    match server.cache.handleMipArpRequest received record env.pointers (env.clock 0) with
    | .error e => server.halt e
    | .ok (cache, outputs) => { server with cache }.finish 0 outputs
  else if received.mHeader.tra = 2 then server.recvRouteTableBroadcast received
  else if received.mHeader.tra = 3 then
    if (server.iTable.getInterfacePosForMipAddress received.mHeader.dstAddr).isSome then
      server.handleMIPPackageForApplication received
    else if received.mHeader.ttl = 0 then server.finish 0 []
    else
      server.requestForwarding received.mHeader.dstAddr
        { received with mHeader := { received.mHeader with ttl := received.mHeader.ttl - 1 } } env
  else server.finish 0 []

def handleRawSocketFrame (server : MIPDServer) (fd : ℤ) (frame : List UInt8) (env : Env) :
    Outcome :=
  match receivePackage frame env, server.iTable.recordForSocket fd with
  | some received, some record => server.handleReceivedPackage fd record received env
  | _, _ => server.halt .fault

/-- Result 0 if the destination is not a cached neighbour. -/
def handleDomainSocketRequest (server : MIPDServer) (message : MIPDMessage) : Outcome :=
  let sock := server.cache.queryMipAddressSrcSocket message.mipAddress
  if sock = -1 then server.finish 0 []
  else
    match server.iTable.recordForSocket sock,
      server.cache.entries.find? fun entry => entry.mipAddress = message.mipAddress with
    | some record, some entry =>
      match MIPPackage.create (createEthernetFrame entry.dstInterface record.sllAddr)
          (createTransportMipHeader record.mipAddress message.mipAddress) message.data with
      | none => server.halt .fault
      | some package => server.finish 1 [.sendto sock package]
    | _, _ => server.halt .fault

/-- A message to a neighbour is sent, any other one is queued for routerd's answer. -/
def handleApplicationMessage (server : MIPDServer) (message : MIPDMessage) (env : Env) :
    Outcome :=
  let outcome := server.handleDomainSocketRequest message
  match outcome.result with
  | .ok 0 =>
    match createQueueable message (env.pointers 0) with
    | none => server.halt .error
    | some package => server.requestForwarding package.mHeader.dstAddr package env
  | _ => outcome

end MIPDServer

/-- What epoll reports, what reading the descriptor returns, and the descriptor
that accepting a connection on it returns. -/
structure Event where
  fd : ℤ
  data : List UInt8
  accepted : ℤ

namespace MIPDServer

def stopCommand : List UInt8 := [115, 116, 111, 112, 10]

def acceptOn (server : MIPDServer) (event : Event) (connect : ℤ → MIPDServer) : Outcome :=
  if event.accepted = -1 then server.halt .error
  else (connect event.accepted).finish 0 [.epollAdd event.accepted]

def connectApp (server : MIPDServer) (fd : ℤ) : MIPDServer :=
  { server with appSocket := { server.appSocket with connectedSocketFd := fd } }

def connectRoute (server : MIPDServer) (fd : ℤ) : MIPDServer :=
  { server with routeSocket := { server.routeSocket with connectedSocketFd := fd } }

def connectForward (server : MIPDServer) (fd : ℤ) : MIPDServer :=
  { server with forwardSocket := { server.forwardSocket with connectedSocketFd := fd } }

/-- New table from routerd, or the end of its connection. -/
def routeBranch (server : MIPDServer) (event : Event) (env : Env) : Outcome :=
  if event.data = [] then (server.connectRoute (-1)).finish 0 [.close event.fd]
  else
    match broadcastRouteTable server.iTable server.cache (MIPRouteTablePackage.ofBytes
        (event.data.take MIPRouteTablePackage.sizeofMIPRouteTablePackage)) env.pointers with
    | .error e => server.halt e
    | .ok outputs => server.finish 1 outputs

/-- One answer byte from routerd, or the end of its connection. The forward queue
is left as it is when the connection ends. -/
def forwardBranch (server : MIPDServer) (event : Event) : Outcome :=
  match event.data with
  | [] => (server.connectForward (-1)).finish 0 [.close event.fd]
  | forwardResponse :: _ =>
    if forwardFound forwardResponse then server.handleForwardResponse forwardResponse
    else
      match forwardQueuePop server.forwardQueue with
      | (none, _) => server.halt .error
      | (some _, forwardQueue) => { server with forwardQueue }.finish 0 []

/-- A message is parsed from a zeroed buffer; one that mipd cannot hold is NULL
and read all the same. -/
def appBranch (server : MIPDServer) (event : Event) (env : Env) : Outcome :=
  let data := event.data.take maxMipMessageDataSize
  if data = [] then (server.connectApp (-1)).finish 0 [.close event.fd]
  else if data.length < sizeofMIPDMessage then server.finish 0 []
  else
    let readBuffer := data ++ List.replicate (maxMipMessageSize - data.length) 0
    match MIPDMessage.deserialize readBuffer with
    | none => server.halt .fault
    | some message => server.handleApplicationMessage message env

/-- The branches of the loop in `MIPDServer_run`. -/
inductive Source where
  | appListening
  | routeListening
  | forwardListening
  | routeConnection
  | forwardConnection
  | rawSocket
  | appConnection
  | stdin
  | unknown
  deriving DecidableEq, Repr

/-- The first branch whose descriptor is the event's. -/
def source (server : MIPDServer) (fd : ℤ) : Source :=
  if fd = server.appSocket.listeningSocketFd then .appListening
  else if fd = server.routeSocket.listeningSocketFd then .routeListening
  else if fd = server.forwardSocket.listeningSocketFd then .forwardListening
  else if fd = server.routeSocket.connectedSocketFd then .routeConnection
  else if fd = server.forwardSocket.connectedSocketFd then .forwardConnection
  else if server.iTable.isSocketInTable fd then .rawSocket
  else if fd = server.appSocket.connectedSocketFd then .appConnection
  else if fd = 0 then .stdin
  else .unknown

def branch (server : MIPDServer) (event : Event) (env : Env) : Outcome :=
  match server.source event.fd with
  | .appListening => server.acceptOn event server.connectApp
  | .routeListening => server.acceptOn event server.connectRoute
  | .forwardListening => server.acceptOn event server.connectForward
  | .routeConnection => server.routeBranch event env
  | .forwardConnection => server.forwardBranch event
  | .rawSocket => server.handleRawSocketFrame event.fd event.data env
  | .appConnection => server.appBranch event env
  | .stdin => { server.finish 0 [] with running := event.data.take 5 != stopCommand }
  | .unknown => server.finish 0 []

/-- The ARP requests before the first round of events. -/
def startRun (server : MIPDServer) (now : ℤ) : MIPDServer × List Output :=
  let (cache, outputs) := MipArpCache.completeMipArp server.iTable server.cache now
  ({ server with cache }, outputs)

/-- What happens between two rounds of events. -/
def tick (server : MIPDServer) (clock : Clock) : MIPDServer × List Output :=
  let (cache, outputs) := MipArpCache.updateArpCache server.iTable server.cache clock
  ({ server with cache }, outputs)

end MIPDServer

end MipStack
