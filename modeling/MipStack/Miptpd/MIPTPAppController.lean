import MipStack.Commons.MIPDMessage
import MipStack.Library.KeyedList
import MipStack.Miptpd.AppConnection

/-! The connections of miptpd (`miptpd/src/lib/miptp_app_controller.c`). -/
namespace MipStack

/-- What miptpd does to its surroundings. -/
inductive AppOutput where
  | epollAdd (fd : ℤ)
  | close (fd : ℤ)
  | sendMipd (socket : ℤ) (bytes : List UInt8)
  | sendApp (socket : ℤ) (bytes : List UInt8)
  deriving DecidableEq, Repr

structure MIPTPAppController where
  connections : List AppConnection
  maxConnections : ℕ
  timeout : ℤ
  mipdSocket : ℤ
  deriving DecidableEq, Repr

structure AppOutcome where
  result : Except Halt ℤ
  controller : MIPTPAppController
  outputs : List AppOutput

namespace MIPTPAppController

/-- The timeout is not set. -/
def create (mipdSocket : ℤ) (maxConnections : ℕ) : MIPTPAppController :=
  { connections := [], maxConnections, timeout := 0, mipdSocket }

def finish (controller : MIPTPAppController) (rc : ℤ) (outputs : List AppOutput) : AppOutcome :=
  { result := .ok rc, controller, outputs }

def halt (controller : MIPTPAppController) (halt : Halt) : AppOutcome :=
  { result := .error halt, controller, outputs := [] }

def withConnections (controller : MIPTPAppController) (connections : List AppConnection) :
    MIPTPAppController :=
  { controller with connections }

/-- The record of the socket, whatever its status, makes room for the new one. A
socket without a record is passed over. -/
def handleAppPackage (controller : MIPTPAppController) (socket : ℤ) (buffer : List UInt8)
    (now : ℤ) : AppOutcome :=
  match ClientPackage.deserialize buffer with
  | .error halt => controller.halt halt
  | .ok package =>
    if package.port = 0 then controller.halt .error
    else if package.destination = 0 then controller.halt .error
    else
      match controller.connections.find? fun connection => connection.socket = socket with
      | none => controller.finish 1 []
      | some _ =>
        match AppConnection.create (connectionType package.type) socket package.port
            package.destination package.data package.size_le controller.timeout now with
        | none => controller.halt .error
        | some complete => (controller.withConnections
            (KeyedList.replace AppConnection.socket complete controller.connections)).finish 1 []

/-- The loop over the connections; the first that fails to receive the package
ends it. -/
def receiveAll (sender : MIPAddress) (package : MIPTPPackage) :
    List AppConnection → Except Halt ℤ × List AppConnection
  | [] => (.ok 1, [])
  | connection :: rest =>
    if connection.port = package.miptpHeader.port then
      match connection.receivePackage sender package with
      | .error halt => (.error halt, connection :: rest)
      | .ok (rc, received) =>
        if rc = -1 then (.error .error, received :: rest)
        else
          let (result, rest) := receiveAll sender package rest
          (result, received :: rest)
    else
      let (result, rest) := receiveAll sender package rest
      (result, connection :: rest)

/-- `data` are the bytes that the message points to. -/
def handleMipdPackage (controller : MIPTPAppController) (mipAddress : MIPAddress)
    (data : List UInt8) : AppOutcome :=
  match MIPTPPackage.deserialize data with
  | .error halt => controller.halt halt
  | .ok package =>
    let (result, connections) := receiveAll mipAddress package controller.connections
    { result, controller := controller.withConnections connections, outputs := [] }

/-- Nothing is compared with the number of connections allowed. A descriptor that
cannot be added to the epoll set stays open. -/
def handleConnection (controller : MIPTPAppController) (accepted : ℤ) (epollAdded : Bool)
    (now : ℤ) : AppOutcome :=
  if accepted = -1 then controller.halt .error
  else if !epollAdded then controller.halt .error
  else
    match AppConnection.createNotReady accepted now with
    | none => { controller.halt .error with outputs := [.epollAdd accepted] }
    | some connection => (controller.withConnections
        (controller.connections ++ [connection])).finish accepted [.epollAdd accepted]

def isAConnection (controller : MIPTPAppController) (socket : ℤ) : ℤ :=
  if socket < 0 then -1
  else if controller.connections.any fun connection => connection.socket = socket then 1
  else 0

/-- The socket is not closed. -/
def disconnect (controller : MIPTPAppController) (socket : ℤ) : AppOutcome :=
  if controller.connections.any fun connection => connection.socket = socket then
    (controller.withConnections (controller.connections.eraseP
      fun connection => connection.socket = socket)).finish 1 []
  else controller.finish 0 []

/-- The message for one package. Header, data size and data are written to a buffer
of the size of a package without the data size. A size of -1 has 16 bits, and a message
of 65535 bytes is refused. -/
def packageMessage (connection : AppConnection) (package : MIPTPPackage) :
    Except Halt MIPDMessage :=
  match package.serialize with
  | none => .error .error
  | some (bytes, size) =>
    if maxMiptpPackageSize < bytes.length then .error .fault
    else
      match MIPDMessage.create connection.connectedMip size bytes with
      | none => .error .error
      | some message => .ok message

/-- `written` tells of every message if writing it succeeds, counted from `sent`. -/
def sendPackages (socket : ℤ) (written : ℕ → Bool) (connection : AppConnection) :
    ℕ → List MIPTPPackage → Except Halt ℤ × List AppOutput
  | _, [] => (.ok 1, [])
  | sent, package :: rest =>
    match packageMessage connection package with
    | .error halt => (.error halt, [])
    | .ok message =>
      if written sent then
        let (result, outputs) := sendPackages socket written connection (sent + 1) rest
        (result, .sendMipd socket message.toBytes :: outputs)
      else (.error .error, [])

def sendWindows (socket : ℤ) (written : ℕ → Bool) :
    ℕ → List AppConnection → Except Halt ℤ × List AppOutput
  | _, [] => (.ok 1, [])
  | sent, connection :: rest =>
    match connection.nextPackages with
    | .error halt => (.error halt, [])
    | .ok packages =>
      match sendPackages socket written connection sent packages with
      | (.error halt, outputs) => (.error halt, outputs)
      | (.ok _, outputs) =>
        let (result, later) := sendWindows socket written (sent + packages.length) rest
        (result, outputs ++ later)

/-- The connections are left as they are. -/
def handleOutgoing (controller : MIPTPAppController) (written : ℕ → Bool) : AppOutcome :=
  let (result, outputs) := sendWindows controller.mipdSocket written 0 controller.connections
  { result, controller, outputs }

/-- `none` is a NULL package, which is refused; no one looks at the result. The
zeroed buffer has room for the struct and the data. -/
def sendClientPackage (socket : ℤ) (package : Option ClientPackage) : List AppOutput :=
  match package with
  | none => []
  | some package =>
    let room := ClientPackage.sizeofClientPackage - ClientPackage.headerSize
    let buffer := package.toBytes ++ List.replicate room 0
    [.sendApp socket (buffer.take package.calcSerializedPackageSize)]

/-- The first complete connection is taken off the list, and the loop goes on from
the node that was freed. -/
def handleCompletes (controller : MIPTPAppController) : AppOutcome :=
  match controller.connections.find? fun connection => connection.status = .complete with
  | none => controller.finish 1 []
  | some connection =>
    { result := .error .fault
      controller := controller.withConnections
        (controller.connections.eraseP fun connection => connection.status = .complete)
      outputs := sendClientPackage connection.socket connection.result ++
        if connection.socket ≠ 0 then [.close connection.socket] else [] }

/-- The record that a package asks for. -/
def registration (controller : MIPTPAppController) (socket : ℤ) (buffer : List UInt8) (now : ℤ) :
    Except Halt AppConnection :=
  match ClientPackage.deserialize buffer with
  | .error halt => .error halt
  | .ok package =>
    if package.port = 0 ∨ package.destination = 0 then .error .error
    else
      match AppConnection.create (connectionType package.type) socket package.port
          package.destination package.data package.size_le controller.timeout now with
      | none => .error .error
      | some complete => .ok complete

variable {controller : MIPTPAppController} {socket now : ℤ} {buffer : List UInt8}
  {complete : AppConnection}

/-- A record is made exactly from a package that can be deserialised, with a port and a
destination other than 0, of a type that a connection can be created for. -/
theorem registration_eq_ok_iff :
    controller.registration socket buffer now = .ok complete ↔
      ∃ package, ClientPackage.deserialize buffer = .ok package ∧ package.port ≠ 0 ∧
        package.destination ≠ 0 ∧
        AppConnection.create (connectionType package.type) socket package.port
          package.destination package.data package.size_le controller.timeout now =
            some complete := by
  rw [registration]
  cases ClientPackage.deserialize buffer with
  | error halt => simp
  | ok package =>
      simp only [Except.ok.injEq, exists_eq_left']
      split_ifs with hRefused
      · simp only [false_iff]
        rintro ⟨hPort, hDestination, -⟩
        exact hRefused.elim hPort hDestination
      · obtain ⟨hPort, hDestination⟩ := not_or.mp hRefused
        cases AppConnection.create (connectionType package.type) socket package.port
            package.destination package.data package.size_le controller.timeout now with
        | none => simp
        | some created => simp [hPort, hDestination]

theorem exists_registration (controller : MIPTPAppController) {package : ClientPackage}
    (hPackage : ClientPackage.deserialize buffer = .ok package) (hPort : package.port ≠ 0)
    (hDestination : package.destination ≠ 0) (hType : package.type ≠ .receiver)
    (socket now : ℤ) : ∃ complete, controller.registration socket buffer now = .ok complete := by
  obtain ⟨complete, hCreate⟩ := AppConnection.exists_create hType socket package.port
    package.destination package.size_le controller.timeout now
  exact ⟨complete, registration_eq_ok_iff.mpr ⟨package, hPackage, hPort, hDestination, hCreate⟩⟩

/-- The record of the socket is replaced by the one the package asks for, at the end of the list
and whatever it was. -/
theorem handleAppPackage_of_known (hKnown : socket ∈ controller.connections.map (·.socket)) :
    controller.handleAppPackage socket buffer now =
      match controller.registration socket buffer now with
      | .error halt => controller.halt halt
      | .ok complete => (controller.withConnections
          (KeyedList.replace AppConnection.socket complete controller.connections)).finish 1 [] := by
  obtain ⟨old, hOld⟩ : ∃ old, controller.connections.find?
      (fun connection => connection.socket = socket) = some old := by
    obtain ⟨connection, hMem, hSocket⟩ := List.mem_map.mp hKnown
    exact Option.isSome_iff_exists.mp
      (List.find?_isSome.mpr ⟨connection, hMem, decide_eq_true hSocket⟩)
  rw [handleAppPackage, registration]
  cases ClientPackage.deserialize buffer with
  | error halt => rfl
  | ok package =>
      simp only [hOld]
      by_cases hPort : package.port = 0
      · simp [hPort]
      · by_cases hDestination : package.destination = 0
        · simp [hDestination]
        · simp only [hPort, hDestination, if_false, or_self]
          cases AppConnection.create (connectionType package.type) socket package.port
              package.destination package.data package.size_le controller.timeout now with
          | none => rfl
          | some complete => rfl

/-- Only what a package asks for changes the connections: its record takes the place
of the first one of the socket. -/
theorem handleAppPackage_cases (controller : MIPTPAppController) (socket : ℤ)
    (buffer : List UInt8) (now : ℤ) :
    (controller.handleAppPackage socket buffer now).outputs = [] ∧
      ((controller.handleAppPackage socket buffer now).controller = controller ∧
          ((∃ halt, controller.registration socket buffer now = .error halt) ∨
            socket ∉ controller.connections.map (·.socket)) ∨
        ∃ complete before old after,
          controller.registration socket buffer now = .ok complete ∧
          controller.connections = before ++ old :: after ∧ old.socket = socket ∧
          (controller.handleAppPackage socket buffer now).controller =
            controller.withConnections (before ++ after ++ [complete])) := by
  by_cases hKnown : socket ∈ controller.connections.map (·.socket)
  · rw [handleAppPackage_of_known hKnown]
    cases hRegistration : controller.registration socket buffer now with
    | error halt => exact ⟨rfl, Or.inl ⟨rfl, Or.inl ⟨halt, rfl⟩⟩⟩
    | ok complete =>
        obtain ⟨package, -, -, -, hCreate⟩ := registration_eq_ok_iff.mp hRegistration
        obtain ⟨hSocket, -⟩ := AppConnection.create_fields hCreate
        obtain ⟨connection, hMem, hConnection⟩ := List.mem_map.mp hKnown
        obtain ⟨old, before, after, -, hOld, hSplit, hErase⟩ := List.exists_of_eraseP
          (p := fun c => c.socket = complete.socket) hMem
          (decide_eq_true (hConnection.trans hSocket.symm))
        refine ⟨rfl, Or.inr ⟨complete, before, old, after, rfl, hSplit, ?_, ?_⟩⟩
        · exact (of_decide_eq_true hOld).trans hSocket
        · simp only [finish, KeyedList.replace, hErase]
  · have hNone : controller.connections.find? (fun connection => connection.socket = socket) =
        none := by
      rw [List.find?_eq_none]
      intro connection hMem hSocket
      exact hKnown (List.mem_map.mpr ⟨connection, hMem, of_decide_eq_true hSocket⟩)
    rw [handleAppPackage]
    cases ClientPackage.deserialize buffer with
    | error halt => exact ⟨rfl, Or.inl ⟨rfl, Or.inr hKnown⟩⟩
    | ok package =>
        simp only [hNone]
        split_ifs <;> exact ⟨rfl, Or.inl ⟨rfl, Or.inr hKnown⟩⟩

/-- Every connection with the port of the package receives it, and no other one. Sender and
destination are not compared. -/
theorem receiveAll_of_valid {connections : List AppConnection}
    (h : ∀ connection ∈ connections, connection.Valid) (sender : MIPAddress)
    (package : MIPTPPackage) :
    receiveAll sender package connections = (.ok 1, connections.map fun connection =>
      if connection.port = package.miptpHeader.port then connection.afterPackage sender package
      else connection) := by
  induction connections with
  | nil => rfl
  | cons connection rest ih =>
      have hRest := ih fun c hMem => h c (List.mem_cons_of_mem connection hMem)
      obtain ⟨hReceived, -⟩ :=
        AppConnection.receivePackage_of_valid (h connection List.mem_cons_self) sender package
      rw [receiveAll, hRest, List.map_cons, hReceived]
      split_ifs with hPort
      · rfl
      · rfl

/-- With valid connections no package makes the handler fail. -/
theorem handleMipdPackage_of_valid {data : List UInt8} {package : MIPTPPackage}
    (h : ∀ connection ∈ controller.connections, connection.Valid) (sender : MIPAddress)
    (hPackage : MIPTPPackage.deserialize data = .ok package) :
    controller.handleMipdPackage sender data = (controller.withConnections
      (controller.connections.map fun connection =>
        if connection.port = package.miptpHeader.port then connection.afterPackage sender package
        else connection)).finish 1 [] := by
  simp only [handleMipdPackage, hPackage, receiveAll_of_valid h]
  rfl

theorem isAConnection_of_mem (hNonneg : 0 ≤ socket)
    (hKnown : socket ∈ controller.connections.map (·.socket)) :
    controller.isAConnection socket = 1 := by
  obtain ⟨connection, hMem, hSocket⟩ := List.mem_map.mp hKnown
  have hAny : (controller.connections.any fun c => c.socket = socket) = true :=
    List.any_eq_true.mpr ⟨connection, hMem, decide_eq_true hSocket⟩
  rw [isAConnection, if_neg (by omega), if_pos hAny]

theorem handleConnection_cases (controller : MIPTPAppController) (accepted : ℤ)
    (epollAdded : Bool) (now : ℤ) :
    controller.handleConnection accepted epollAdded now = controller.halt .error ∧
        (accepted = -1 ∨ epollAdded = false) ∨
      accepted ≠ -1 ∧ epollAdded = true ∧
        controller.handleConnection accepted epollAdded now =
          (controller.withConnections (controller.connections ++
            [AppConnection.unregistered accepted])).finish accepted [.epollAdd accepted] := by
  rw [handleConnection, AppConnection.createNotReady_eq]
  split_ifs with hRefused hFailed
  · exact Or.inl ⟨rfl, Or.inl hRefused⟩
  · exact Or.inl ⟨rfl, Or.inr (by simpa using hFailed)⟩
  · exact Or.inr ⟨hRefused, by simpa using hFailed, rfl⟩

/-- Only messages for mipd are sent, one for each package until writing fails. -/
theorem sendPackages_outputs {written : ℕ → Bool} {connection : AppConnection}
    {packages : List MIPTPPackage} {output : AppOutput} {sent : ℕ}
    (h : output ∈ (sendPackages socket written connection sent packages).2) :
    ∃ bytes, output = .sendMipd socket bytes := by
  induction packages generalizing sent with
  | nil => exact absurd h List.not_mem_nil
  | cons package rest ih =>
      rw [sendPackages] at h
      cases hMessage : packageMessage connection package with
      | error halt =>
          rw [hMessage] at h
          exact absurd h List.not_mem_nil
      | ok message =>
          simp only [hMessage] at h
          split_ifs at h
          · rcases List.mem_cons.mp h with rfl | hRest
            · exact ⟨_, rfl⟩
            · exact ih hRest
          · exact absurd h List.not_mem_nil

/-- All that is written in an outgoing cycle goes to mipd. -/
theorem sendWindows_outputs {written : ℕ → Bool} {connections : List AppConnection}
    {output : AppOutput} {sent : ℕ}
    (h : output ∈ (sendWindows socket written sent connections).2) :
    ∃ bytes, output = .sendMipd socket bytes := by
  induction connections generalizing sent with
  | nil => exact absurd h List.not_mem_nil
  | cons connection rest ih =>
      rw [sendWindows] at h
      cases hPackages : connection.nextPackages with
      | error halt =>
          rw [hPackages] at h
          exact absurd h List.not_mem_nil
      | ok packages =>
          simp only [hPackages] at h
          have hFirst : output ∈ (sendPackages socket written connection sent packages).2 → _ :=
            sendPackages_outputs
          cases hSend : sendPackages socket written connection sent packages with
          | mk result outputs =>
              rw [hSend] at hFirst
              cases result with
              | error halt =>
                  simp only [hSend] at h
                  exact hFirst h
              | ok rc =>
                  simp only [hSend] at h
                  exact (List.mem_append.mp h).elim hFirst ih

/-- The connection with the socket is removed and the others stay, or there was none. -/
theorem disconnect_cases (controller : MIPTPAppController) (socket : ℤ) :
    (controller.disconnect socket).outputs = [] ∧
      ((controller.disconnect socket).controller = controller ∧
          socket ∉ controller.connections.map (·.socket) ∨
        ∃ before old after, controller.connections = before ++ old :: after ∧
          old.socket = socket ∧
          (controller.disconnect socket).controller =
            controller.withConnections (before ++ after)) := by
  rw [disconnect]
  split_ifs with hKnown
  · obtain ⟨connection, hMem, hSocket⟩ := List.any_eq_true.mp hKnown
    obtain ⟨old, before, after, -, hOld, hSplit, hErase⟩ := List.exists_of_eraseP
      (p := fun c => c.socket = socket) hMem hSocket
    refine ⟨rfl, Or.inr ⟨before, old, after, hSplit, of_decide_eq_true hOld, ?_⟩⟩
    simp only [finish, hErase]
  · exact ⟨rfl, Or.inl ⟨rfl, by simpa using hKnown⟩⟩

/-- The first connection that is complete is closed without a result, and the sweep gets no
further. -/
theorem handleCompletes_cases (controller : MIPTPAppController) :
    controller.handleCompletes = controller.finish 1 [] ∨
      ∃ before connection after, controller.connections = before ++ connection :: after ∧
        connection.status = .complete ∧ controller.handleCompletes =
          { result := .error .fault
            controller := controller.withConnections (before ++ after)
            outputs := if connection.socket ≠ 0 then [.close connection.socket] else [] } := by
  rw [handleCompletes]
  cases hFind : controller.connections.find? fun c => c.status = .complete with
  | none => exact Or.inl rfl
  | some connection =>
      obtain ⟨hComplete, before, after, hSplit, hBefore⟩ := List.find?_eq_some_iff_append.mp hFind
      have hStatus : connection.status = .complete := of_decide_eq_true hComplete
      refine Or.inr ⟨before, connection, after, hSplit, hStatus, ?_⟩
      have hErase : controller.connections.eraseP (fun c => c.status = .complete) =
          before ++ after := by
        rw [hSplit, List.eraseP_append_right _ (by simpa using hBefore)]
        simp [hStatus]
      simp [hErase, AppConnection.result, hStatus, sendClientPackage]

/-- A sweep over a list without a complete connection does nothing. -/
theorem handleCompletes_of_none (h : ∀ connection ∈ controller.connections,
    connection.status ≠ .complete) : controller.handleCompletes = controller.finish 1 [] := by
  rcases controller.handleCompletes_cases with
    hDone | ⟨before, connection, after, hSplit, hStatus, -⟩
  · exact hDone
  · exact absurd hStatus (h connection (hSplit ▸ List.mem_append_right _ List.mem_cons_self))

/-- At a complete connection the loop frees the node that it stands on and then reads its `next`
pointer. -/
theorem handleCompletes_of_mem {connection : AppConnection}
    (hMem : connection ∈ controller.connections) (hComplete : connection.status = .complete) :
    controller.handleCompletes.result = .error .fault := by
  have hFound : (controller.connections.find? fun c => c.status = .complete).isSome :=
    List.find?_isSome.mpr ⟨connection, hMem, decide_eq_true hComplete⟩
  obtain ⟨first, hFirst⟩ := Option.isSome_iff_exists.mp hFound
  rw [handleCompletes, hFirst]

/-- A complete connection is all that a sweep stumbles over. Any other list is left as it is. -/
theorem handleCompletes_fault_iff : controller.handleCompletes.result = .error .fault ↔
    ∃ connection ∈ controller.connections, connection.status = .complete := by
  refine ⟨fun hFault => ?_, fun ⟨_, hMem, hComplete⟩ => handleCompletes_of_mem hMem hComplete⟩
  by_contra hNone
  push Not at hNone
  rw [handleCompletes_of_none hNone] at hFault
  cases hFault

end MIPTPAppController

end MipStack
