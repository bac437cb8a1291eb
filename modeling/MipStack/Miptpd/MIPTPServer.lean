import MipStack.Miptpd.MIPTPAppController

/-! The loop of miptpd (`miptpd/src/lib/miptp_server.c`). -/
namespace MipStack

def packetBufferSize : ℕ := 65535

def maxAppConnections : ℕ := 10

structure MIPTPServer where
  mipdFd : ℤ
  listeningFd : ℤ
  appController : MIPTPAppController
  deriving DecidableEq, Repr

/-- What reading the descriptor of an event returns (`none` is an error), what
accepting a connection on it returns, if that could be added to the epoll set, the
clock, and the bytes that stand at an address of the process. -/
structure MIPTPEvent where
  fd : ℤ
  read : Option (List UInt8)
  accepted : ℤ
  epollAdded : Bool
  now : ℤ
  memory : ℕ → ℕ → Option (List UInt8)

/-- `running` is false after the stop command and without mipd. -/
structure MIPTPOutcome where
  result : Except Halt ℤ
  server : MIPTPServer
  outputs : List AppOutput
  running : Bool

/-- The loop goes on: an error result leaves it. -/
def MIPTPOutcome.continues (o : MIPTPOutcome) : Bool := o.running && o.result.isOk

namespace MIPTPServer

/-- As the loop begins. -/
def create (mipdFd listeningFd : ℤ) : MIPTPServer :=
  { mipdFd, listeningFd, appController := MIPTPAppController.create mipdFd maxAppConnections }

/-- The zeroed buffer after the bytes were read into it. -/
def readBuffer (bytes : List UInt8) : List UInt8 :=
  bytes.take packetBufferSize ++ List.replicate (packetBufferSize - bytes.length) 0

def ofController (server : MIPTPServer) (outcome : AppOutcome) : MIPTPOutcome :=
  { result := outcome.result
    server := { server with appController := outcome.controller }
    outputs := outcome.outputs
    running := true }

/-- The buffer itself is taken for a `MIPDMessage`, whose pointer to the data is
among the bytes that were read. -/
def mipdBranch (server : MIPTPServer) (event : MIPTPEvent) (bytes : List UInt8) : MIPTPOutcome :=
  let buffer := readBuffer bytes
  let dataSize := ByteLayout.value ((buffer.drop 2).take 2)
  let pointer := ByteLayout.value ((buffer.drop 8).take 8)
  match event.memory pointer dataSize with
  | none => server.ofController (server.appController.halt .fault)
  | some data =>
    server.ofController (server.appController.handleMipdPackage (buffer.getD 0 0) data)

/-- After an error nothing was read, and the buffer is taken for a package. -/
def appBranch (server : MIPTPServer) (event : MIPTPEvent) : MIPTPOutcome :=
  match event.read with
  | some [] => server.ofController (server.appController.disconnect event.fd)
  | some bytes => server.ofController
      (server.appController.handleAppPackage event.fd (readBuffer bytes) event.now)
  | none => server.ofController
      (server.appController.handleAppPackage event.fd (readBuffer []) event.now)

def stop (server : MIPTPServer) (outputs : List AppOutput) : MIPTPOutcome :=
  { result := .ok 1, server, outputs, running := false }

def stopCommand : List UInt8 := [115, 116, 111, 112, 10]

def branch (server : MIPTPServer) (event : MIPTPEvent) : MIPTPOutcome :=
  if event.fd = server.mipdFd then
    match event.read with
    | none => server.stop [.close server.mipdFd]
    | some [] => server.stop [.close server.mipdFd]
    | some bytes => server.mipdBranch event bytes
  else if event.fd = server.listeningFd then
    server.ofController
      (server.appController.handleConnection event.accepted event.epollAdded event.now)
  else if server.appController.isAConnection event.fd ≠ 0 then server.appBranch event
  else if event.fd = 0 ∧ (event.read.getD []).take 5 = stopCommand then server.stop []
  else server.ofController (server.appController.finish 0 [])

/-- What happens before each round of events. -/
def cycle (server : MIPTPServer) (written : ℕ → Bool) : MIPTPOutcome :=
  server.ofController (server.appController.handleOutgoing written)

/-- An error of the controller leaves the loop, for all applications. -/
theorem continues_ofController (server : MIPTPServer) (outcome : AppOutcome) :
    (server.ofController outcome).continues = outcome.result.isOk := Bool.true_and _

variable {bytes : List UInt8}

theorem readBuffer_eq (hSize : bytes.length ≤ packetBufferSize) :
    readBuffer bytes = bytes ++ List.replicate (packetBufferSize - bytes.length) 0 := by
  rw [readBuffer, List.take_of_length_le hSize]

theorem length_readBuffer (hSize : bytes.length ≤ packetBufferSize) :
    (readBuffer bytes).length = packetBufferSize := by
  rw [readBuffer_eq hSize, List.length_append, List.length_replicate]
  omega

end MIPTPServer

end MipStack
