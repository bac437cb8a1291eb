import MipStack.Miptpd.MIPTPReceiveJob
import MipStack.Miptpd.MIPTPSendJob

/-! The connection of miptpd to one application (`miptpd/src/lib/app_connection.c`). -/
namespace MipStack

inductive AppConnectionStatus where
  | sender
  | receiver
  | notReady
  | complete
  | finished
  deriving DecidableEq, Repr

structure AppConnection where
  port : BitVec 14
  socket : ℤ
  connectedMip : MIPAddress
  status : AppConnectionStatus
  sJob : Option MIPTPSendJob
  rJob : Option MIPTPReceiveJob
  deriving DecidableEq, Repr

/-- A type that is neither of the two is logged and taken for not ready. -/
def connectionType : MIPTPClientType → AppConnectionStatus
  | .sender => .sender
  | .receiver => .receiver
  | .invalid _ => .notReady

namespace AppConnection

/-- The port is cut to 14 bits. For a receiver the send job is looked at, which
there is none of, so the creation fails. The result, an `int` for want of a type, is
taken to hold the pointer. -/
def create (status : AppConnectionStatus) (socket : ℤ) (port : UInt16)
    (destination : MIPAddress) (data : List UInt8) (size_le : data.length ≤ maxDataSizeBytes)
    (timeout now : ℤ) : Option AppConnection :=
  let connection : AppConnection :=
    { port := BitVec.ofNat 14 port.toNat, socket, connectedMip := destination, status
      sJob := none, rJob := none }
  match status with
  | .sender =>
    some { connection with
      sJob := some (MIPTPSendJob.create connection.port destination data size_le timeout now) }
  | .receiver =>
    let connection := { connection with
      rJob := some (MIPTPReceiveJob.create connection.port timeout) }
    if connection.sJob.isSome then some connection else none
  | _ => some connection

/-- The port -1 stands for no port. -/
def createNotReady (socket now : ℤ) : Option AppConnection :=
  create .notReady socket (-1) 0 [] (Nat.zero_le _) 0 now

/-- The record of a connection whose application did not register yet. -/
def unregistered (socket : ℤ) : AppConnection :=
  { port := 16383, socket, connectedMip := 0, status := .notReady, sJob := none, rJob := none }

/-- The record of a connection whose application sends a file. -/
def forSender (socket : ℤ) (package : ClientPackage) (timeout now : ℤ) : AppConnection :=
  let port := BitVec.ofNat 14 package.port.toNat
  { port, socket, connectedMip := package.destination, status := .sender, rJob := none
    sJob := some (MIPTPSendJob.create port package.destination package.data package.size_le timeout
      now) }

/-- A missing job is a NULL pointer that is followed. -/
def nextPackages (connection : AppConnection) : Except Halt (List MIPTPPackage) :=
  match connection.status with
  | .sender =>
    match connection.sJob with
    | some job => .ok job.nextPackages
    | none => .error .fault
  | .receiver =>
    match connection.rJob with
    | some job => job.nextPackages
    | none => .error .fault
  | _ => .ok []

/-- Returns 1 on success and -1 on failure. Only a sender or a receiver takes
the package. -/
def receivePackage (connection : AppConnection) (sender : MIPAddress)
    (package : MIPTPPackage) : Except Halt (ℤ × AppConnection) :=
  match connection.status with
  | .sender =>
    match connection.sJob with
    | none => .error .fault
    | some job =>
      let job := job.receivePackage package
      .ok (1, { connection with
        sJob := some job
        status := if job.isComplete then .complete else .sender })
  | .receiver =>
    match connection.rJob with
    | none => .error .fault
    | some job =>
      match job.receivePackage sender package with
      | .error halt => .error halt
      | .ok (rc, job) =>
        if rc = -1 then .ok (-1, { connection with rJob := some job })
        else .ok (1, { connection with
          rJob := some job
          status := if job.isComplete then .complete else .receiver })
  | _ => .ok (1, connection)

/-- The result of a job, asked for while the connection still sends or receives. -/
def result (connection : AppConnection) : Option ClientPackage :=
  match connection.status with
  | .sender => connection.sJob.bind MIPTPSendJob.result
  | .receiver => connection.rJob.bind MIPTPReceiveJob.result
  | _ => none

variable {connection : AppConnection} {status : AppConnectionStatus} {socket : ℤ} {port : UInt16}
  {destination : MIPAddress} {data : List UInt8} {timeout now : ℤ}

theorem create_sender (package : ClientPackage) :
    create .sender socket package.port package.destination package.data package.size_le timeout
      now = some (forSender socket package timeout now) := rfl

/-- No receiver is ever created: the branch for it sets the job and then runs into the error
exit. -/
theorem create_receiver (size_le : data.length ≤ maxDataSizeBytes) :
    create .receiver socket port destination data size_le timeout now = none := rfl

/-- Every other connection is, also for a type of client that does not exist. -/
theorem exists_create {type : MIPTPClientType} (hType : type ≠ .receiver) (socket : ℤ)
    (port : UInt16) (destination : MIPAddress) (size_le : data.length ≤ maxDataSizeBytes)
    (timeout now : ℤ) : ∃ connection,
      create (connectionType type) socket port destination data size_le timeout now =
        some connection := by
  cases type with
  | sender => exact ⟨_, rfl⟩
  | receiver => exact absurd rfl hType
  | invalid code => exact ⟨_, rfl⟩

theorem createNotReady_eq : createNotReady socket now = some (unregistered socket) := rfl

/-- The connection after a package that it did not fail to receive. -/
def afterPackage (connection : AppConnection) (sender : MIPAddress) (package : MIPTPPackage) :
    AppConnection :=
  match connection.receivePackage sender package with
  | .ok (_, received) => received
  | .error _ => connection

/-- A sender has the job it needs. There is no receiver. -/
structure Valid (connection : AppConnection) : Prop where
  sender : connection.status = .sender → connection.sJob.isSome
  receiver : connection.status ≠ .receiver
  rJob : connection.rJob = none

/-- A package changes only the window of the job and the status, and the status only once
the job is complete. -/
structure Received (connection received : AppConnection) : Prop where
  socket : received.socket = connection.socket
  port : received.port = connection.port
  connectedMip : received.connectedMip = connection.connectedMip
  status : received.status = connection.status ∨
    connection.status = .sender ∧ received.status = .complete
  data : received.sJob.map MIPTPSendJob.data = connection.sJob.map MIPTPSendJob.data

theorem Received.refl (connection : AppConnection) : Received connection connection :=
  ⟨rfl, rfl, rfl, Or.inl rfl, rfl⟩

theorem valid_unregistered (socket : ℤ) : Valid (unregistered socket) :=
  ⟨(nomatch ·), (nomatch ·), rfl⟩

/-- A valid connection handles every package without a fault: it has the job that its status
speaks of. This is the reason for the invariant. -/
theorem receivePackage_of_valid (h : Valid connection) (sender : MIPAddress)
    (package : MIPTPPackage) :
    connection.receivePackage sender package = .ok (1, connection.afterPackage sender package) ∧
      Valid (connection.afterPackage sender package) ∧
      Received connection (connection.afterPackage sender package) := by
  rw [afterPackage, receivePackage]
  cases hStatus : connection.status with
  | sender =>
      obtain ⟨job, hJob⟩ := Option.isSome_iff_exists.mp (h.sender hStatus)
      rw [hJob]
      refine ⟨rfl, ⟨fun _ => rfl, ?_, h.rJob⟩, rfl, rfl, rfl, ?_, ?_⟩
      · simp only
        split_ifs <;> exact (nomatch ·)
      · simp only
        split_ifs
        · exact Or.inr ⟨hStatus, rfl⟩
        · exact Or.inl hStatus.symm
      · rw [hJob]
        rfl
  | receiver => exact absurd hStatus h.receiver
  | notReady => exact ⟨rfl, h, Received.refl connection⟩
  | complete => exact ⟨rfl, h, Received.refl connection⟩
  | finished => exact ⟨rfl, h, Received.refl connection⟩

/-- A created connection has the socket, the address and the low bits of the port
it was asked for. -/
theorem create_fields {size_le : data.length ≤ maxDataSizeBytes}
    (h : create status socket port destination data size_le timeout now = some connection) :
    connection.socket = socket ∧ connection.port = BitVec.ofNat 14 port.toNat ∧
      connection.connectedMip = destination ∧ connection.status = status := by
  cases status with
  | sender =>
      obtain rfl := Option.some.inj h
      exact ⟨rfl, rfl, rfl, rfl⟩
  | receiver => cases h
  | notReady =>
      obtain rfl := Option.some.inj h
      exact ⟨rfl, rfl, rfl, rfl⟩
  | complete =>
      obtain rfl := Option.some.inj h
      exact ⟨rfl, rfl, rfl, rfl⟩
  | finished =>
      obtain rfl := Option.some.inj h
      exact ⟨rfl, rfl, rfl, rfl⟩

/-- A connection that was made from a registration has exactly the job that its status speaks
of. -/
theorem valid_create {size_le : data.length ≤ maxDataSizeBytes}
    (h : create status socket port destination data size_le timeout now = some connection) :
    Valid connection := by
  cases status with
  | sender =>
      obtain rfl := Option.some.inj h
      exact ⟨fun _ => rfl, (nomatch ·), rfl⟩
  | receiver => cases h
  | notReady =>
      obtain rfl := Option.some.inj h
      exact ⟨(nomatch ·), (nomatch ·), rfl⟩
  | complete =>
      obtain rfl := Option.some.inj h
      exact ⟨(nomatch ·), (nomatch ·), rfl⟩
  | finished =>
      obtain rfl := Option.some.inj h
      exact ⟨(nomatch ·), (nomatch ·), rfl⟩

end AppConnection

end MipStack
