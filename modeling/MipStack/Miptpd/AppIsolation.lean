import MipStack.Miptpd.Turns

/-! What one application can do to miptpd with the bytes it writes. -/
namespace MipStack
open Execution

namespace ClientPackage

/-- The bytes hold a package with all of its data, of one of the two types, for a port
that a connection can have and an address. -/
structure IsRegistration (bytes : List UInt8) : Prop where
  header : headerSize ≤ bytes.length
  data : headerSize + serializedGetDataSize bytes ≤ bytes.length
  type : serializedGetType bytes = .sender ∨ serializedGetType bytes = .receiver
  port_pos : 0 < (serializedGetPort bytes).toNat
  port_lt : (serializedGetPort bytes).toNat < 2 ^ 14
  destination : serializedGetDestination bytes ≠ 0

variable {bytes rest : List UInt8}

/-- What stands behind a package is not read, so the zeros behind the bytes of one read do no
harm. -/
theorem fields_append (hHeader : headerSize ≤ bytes.length) (rest : List UInt8) :
    serializedGetPort (bytes ++ rest) = serializedGetPort bytes ∧
      serializedGetDestination (bytes ++ rest) = serializedGetDestination bytes ∧
      serializedGetType (bytes ++ rest) = serializedGetType bytes ∧
      serializedGetDataSize (bytes ++ rest) = serializedGetDataSize bytes := by
  match bytes, hHeader with
  | b₀ :: b₁ :: b₂ :: b₃ :: b₄ :: b₅ :: b₆ :: b₇ :: b₈ :: tail, _ => exact ⟨rfl, rfl, rfl, rfl⟩

theorem data_append (hData : headerSize + serializedGetDataSize bytes ≤ bytes.length)
    (rest : List UInt8) :
    ((bytes ++ rest).drop headerSize).take (serializedGetDataSize bytes) =
      (bytes.drop headerSize).take (serializedGetDataSize bytes) := by
  rw [List.drop_append_of_le_length (by omega),
    List.take_append_of_le_length (by rw [List.length_drop]; omega)]

end ClientPackage

namespace AppSession

/-- The connection of the registration in the bytes. -/
structure Registers (bytes : List UInt8) (connection : AppConnection) : Prop where
  port : connection.port.toNat = (ClientPackage.serializedGetPort bytes).toNat
  destination : connection.connectedMip = ClientPackage.serializedGetDestination bytes
  sender : ClientPackage.serializedGetType bytes = .sender →
    connection.status = .sender ∧ connection.rJob = none ∧ ∃ job, connection.sJob = some job ∧
      job.data = (bytes.drop ClientPackage.headerSize).take
        (ClientPackage.serializedGetDataSize bytes)
  receiver : ClientPackage.serializedGetType bytes = .receiver →
    connection.status = .receiver ∧ connection.sJob = none ∧ connection.rJob.isSome

/-- The bytes that an application writes leave all other connections as they were and
the loop running: it goes on after this event, and no turn after it ends at the connection of
the application, whatever else happens until that writes again. They are accepted, and change
its own connection, only if they are a registration, and then it is the registered one. -/
structure Serves (s : AppSession) (socket : ℤ) (bytes : List UInt8) (now : ℤ) : Prop where
  others : (s.perform (.appPackage socket bytes now)).connections.filter (·.socket ≠ socket) =
    s.connections.filter (·.socket ≠ socket)
  rejected : ¬ ClientPackage.IsRegistration bytes →
    (s.outcome (.appPackage socket bytes now)).result ≠ .ok 1 ∧
      ∀ connection ∈ s.connections, connection.socket = socket →
        connection ∈ (s.perform (.appPackage socket bytes now)).connections
  registered : ClientPackage.IsRegistration bytes → ∃ connection,
    (s.perform (.appPackage socket bytes now)).connections.filter (·.socket = socket) =
      [connection] ∧ Registers bytes connection
  serving : ∀ event : MIPTPEvent, event.fd = socket → event.read = some bytes →
    event.now = now → (s.server.branch event).continues = true ∧
      (s.server.branch event).server.appController =
        (s.outcome (.appPackage socket bytes now)).controller
  turns : ∀ later t, Trace (Guarded Step fun _ action _ => ¬ action.IsPackageOf socket)
    (s.perform (.appPackage socket bytes now)) later t →
      ∀ connection ∈ t.connections, connection.socket = socket → t.server.GetsPast connection

variable {s : AppSession} {socket now : ℤ} {bytes : List UInt8}

/-- An event of an application is handled as a package of it. -/
theorem branch_eq_of_known (h : WellFormed s) (hKnown : socket ∈ s.connections.map (·.socket))
    (hSome : bytes ≠ []) {event : MIPTPEvent} (hFd : event.fd = socket)
    (hRead : event.read = some bytes) :
    s.server.branch event = s.server.ofController
      (s.outcome (.appPackage socket bytes event.now)) := by
  have hOther := (List.nodup_append.mp h.sockets).2.2
  have hMipd : event.fd ≠ s.server.mipdFd := fun hEq =>
    hOther s.server.mipdFd (by simp [permanentFds]) socket hKnown (hEq.symm.trans hFd)
  have hListening : event.fd ≠ s.server.listeningFd := fun hEq =>
    hOther s.server.listeningFd (by simp [permanentFds]) socket hKnown (hEq.symm.trans hFd)
  have hFound : s.server.appController.isAConnection event.fd ≠ 0 := by
    rw [hFd, MIPTPAppController.isAConnection_of_mem
      (h.nonneg socket (h.polled (List.mem_append_right _ hKnown))) hKnown]
    decide
  rw [MIPTPServer.branch, if_neg hMipd, if_neg hListening, if_pos hFound, MIPTPServer.appBranch,
    hRead]
  cases bytes with
  | nil => exact absurd rfl hSome
  | cons byte rest => simp only [outcome, hFd]

/-- The record that a registration asks for is the registered connection. -/
theorem registers_of_registration {complete : AppConnection}
    (hComplete : s.server.appController.registration socket (MIPTPServer.readBuffer bytes) now =
      .ok complete) (hSize : bytes.length ≤ packetBufferSize)
    (hRegistration : ClientPackage.IsRegistration bytes) : Registers bytes complete := by
  obtain ⟨package, hPackage, -, -, hCreate⟩ :=
    MIPTPAppController.registration_eq_ok_iff.mp hComplete
  rw [MIPTPServer.readBuffer_eq hSize] at hPackage
  obtain ⟨-, hPort, hDestination, hType, hData⟩ := ClientPackage.fields_of_deserialize hPackage
  obtain ⟨hPortField, hDestinationField, hTypeField, hSizeField⟩ :=
    ClientPackage.fields_append hRegistration.header
      (List.replicate (packetBufferSize - bytes.length) 0)
  rw [hPortField] at hPort
  rw [hDestinationField] at hDestination
  rw [hTypeField] at hType
  rw [hSizeField, ClientPackage.data_append hRegistration.data] at hData
  obtain ⟨-, hCreatedPort, hConnected, -⟩ := AppConnection.create_fields hCreate
  refine ⟨?_, hConnected.trans hDestination, fun hSender => ?_, fun hReceiver => ?_⟩
  · rw [hCreatedPort, hPort, BitVec.toNat_ofNat]
    exact Nat.mod_eq_of_lt hRegistration.port_lt
  · rw [hType, hSender, connectionType, AppConnection.create_sender] at hCreate
    obtain rfl := Option.some.inj hCreate
    exact ⟨rfl, rfl, _, rfl, hData⟩
  · rw [hType, hReceiver, connectionType, AppConnection.create_receiver] at hCreate
    cases hCreate

/-- The job of a registered sender has the data of the package. -/
theorem registration_of_sender {complete : AppConnection}
    (hComplete : s.server.appController.registration socket (MIPTPServer.readBuffer bytes) now =
      .ok complete) (hSize : bytes.length ≤ packetBufferSize)
    (hRegistration : ClientPackage.IsRegistration bytes)
    (hSender : ClientPackage.serializedGetType bytes = .sender) : ∃ package : ClientPackage,
      complete = AppConnection.forSender socket package s.server.appController.timeout now ∧
      package.data.length = ClientPackage.serializedGetDataSize bytes := by
  obtain ⟨package, hPackage, -, -, hCreate⟩ :=
    MIPTPAppController.registration_eq_ok_iff.mp hComplete
  rw [MIPTPServer.readBuffer_eq hSize] at hPackage
  obtain ⟨-, -, -, hType, hData⟩ := ClientPackage.fields_of_deserialize hPackage
  obtain ⟨-, -, hTypeField, hSizeField⟩ := ClientPackage.fields_append hRegistration.header
    (List.replicate (packetBufferSize - bytes.length) 0)
  rw [hSizeField, ClientPackage.data_append hRegistration.data] at hData
  rw [hType, hTypeField, hSender, connectionType, AppConnection.create_sender] at hCreate
  refine ⟨package, (Option.some.inj hCreate).symm, ?_⟩
  have hWhole := hRegistration.data
  rw [hData, List.length_take_of_le]
  rw [List.length_drop]
  omega

/-- A sender with a port and a destination can always register: its data fits into the job. -/
theorem exists_registration_of_sender (hSize : bytes.length ≤ packetBufferSize)
    (hRegistration : ClientPackage.IsRegistration bytes)
    (hSender : ClientPackage.serializedGetType bytes = .sender) (controller : MIPTPAppController)
    (socket now : ℤ) : ∃ complete,
      controller.registration socket (MIPTPServer.readBuffer bytes) now = .ok complete := by
  obtain ⟨hPortField, hDestinationField, hTypeField, hSizeField⟩ :=
    ClientPackage.fields_append hRegistration.header
      (List.replicate (packetBufferSize - bytes.length) 0)
  have hFits : ClientPackage.headerSize +
      ClientPackage.serializedGetDataSize (MIPTPServer.readBuffer bytes) ≤
        (MIPTPServer.readBuffer bytes).length := by
    rw [MIPTPServer.length_readBuffer hSize, MIPTPServer.readBuffer_eq hSize, hSizeField]
    exact hRegistration.data.trans hSize
  obtain ⟨package, hPackage, hPort, hDestination, hType, -⟩ :=
    ClientPackage.deserialize_eq_ok_of_le hFits
  rw [MIPTPServer.readBuffer_eq hSize] at hPort hDestination hType
  refine controller.exists_registration hPackage ?_ ?_ ?_ socket now
  · rw [hPort, hPortField]
    intro hZero
    have hPos := hRegistration.port_pos
    rw [hZero] at hPos
    exact absurd hPos (by decide)
  · rw [hDestination, hDestinationField]
    exact hRegistration.destination
  · rw [hType, hTypeField, hSender]
    exact nofun

/-- The record of a receiver cannot be created, whatever its port and destination are. -/
theorem registration_of_receiver (hSize : bytes.length ≤ packetBufferSize)
    (hRegistration : ClientPackage.IsRegistration bytes)
    (hReceiver : ClientPackage.serializedGetType bytes = .receiver)
    (controller : MIPTPAppController) (socket now : ℤ) (complete : AppConnection) :
    controller.registration socket (MIPTPServer.readBuffer bytes) now ≠ .ok complete := by
  intro hComplete
  obtain ⟨package, hPackage, -, -, hCreate⟩ :=
    MIPTPAppController.registration_eq_ok_iff.mp hComplete
  rw [MIPTPServer.readBuffer_eq hSize] at hPackage
  obtain ⟨-, -, -, hType, -⟩ := ClientPackage.fields_of_deserialize hPackage
  obtain ⟨-, -, hTypeField, -⟩ := ClientPackage.fields_append hRegistration.header
    (List.replicate (packetBufferSize - bytes.length) 0)
  rw [hType, hTypeField, hReceiver, connectionType, AppConnection.create_receiver] at hCreate
  cases hCreate

/-- The registered connection is the only one of its socket, and the others are in
their places. -/
theorem connections_of_registration (h : WellFormed s)
    (hKnown : socket ∈ s.connections.map (·.socket)) {complete : AppConnection}
    (hComplete : s.server.appController.registration socket (MIPTPServer.readBuffer bytes) now =
      .ok complete) :
    let t := s.perform (.appPackage socket bytes now)
    t.connections.filter (·.socket ≠ socket) = s.connections.filter (·.socket ≠ socket) ∧
      t.connections.filter (·.socket = socket) = [complete] := by
  obtain ⟨-, ⟨-, hRefused⟩ | ⟨created, before, old, after, hCreated, hSplit, hOld, hAfter⟩⟩ :=
    perform_appPackage s socket bytes now
  · rcases hRefused with ⟨halt, hHalt⟩ | hUnknown
    · rw [hComplete] at hHalt
      cases hHalt
    · exact absurd hKnown hUnknown
  · obtain rfl : complete = created := Except.ok.inj (hComplete.symm.trans hCreated)
    obtain ⟨hSocket, -⟩ := registration_fields hComplete
    have hOthers := h.socket_ne_of_split hSplit
    rw [hOld] at hOthers
    have hNone : (before ++ after).filter (·.socket = socket) = [] :=
      List.filter_eq_nil_iff.mpr fun connection hMem => by simpa using hOthers connection hMem
    constructor
    · have hLast : [complete].filter (·.socket ≠ socket) = [] := by simp [hSocket]
      have hFirst : (old :: after).filter (·.socket ≠ socket) =
          after.filter (·.socket ≠ socket) := List.filter_cons_of_neg (by simp [hOld])
      rw [hAfter, hSplit, List.filter_append, hLast, List.append_nil, List.filter_append,
        List.filter_append, hFirst]
    · rw [hAfter, List.filter_append, hNone, List.nil_append,
        List.filter_cons_of_pos (by simpa using hSocket), List.filter_nil]

/-- What is not a registration leaves the loop in this turn, a receiver too, and a sender of a
longer file stops in the next turn. -/
theorem Serves.registration (hWellFormed : WellFormed s)
    (hKnown : socket ∈ s.connections.map (·.socket)) (hSome : bytes ≠ [])
    (hSize : bytes.length ≤ packetBufferSize) (h : s.Serves socket bytes now) :
    ClientPackage.IsRegistration bytes ∧ ClientPackage.serializedGetType bytes = .sender ∧
      ClientPackage.serializedGetDataSize bytes ≤ 1490 := by
  have hOutcome : s.outcome (.appPackage socket bytes now) = _ :=
    MIPTPAppController.handleAppPackage_of_known hKnown
  cases hRegistration : s.server.appController.registration socket
      (MIPTPServer.readBuffer bytes) now with
  | error halt =>
      -- the error leaves the loop
      let event : MIPTPEvent := ⟨socket, some bytes, -1, false, now, fun _ _ => none⟩
      obtain ⟨hContinues, -⟩ := h.serving event rfl rfl rfl
      rw [branch_eq_of_known hWellFormed hKnown hSome rfl rfl,
        MIPTPServer.continues_ofController,
        show s.outcome (.appPackage socket bytes event.now) = _ from hOutcome,
        hRegistration] at hContinues
      cases hContinues
  | ok complete =>
      rw [hRegistration] at hOutcome
      by_cases hBytes : ClientPackage.IsRegistration bytes
      · have hSender := hBytes.type.resolve_right fun hReceiver =>
          registration_of_receiver hSize hBytes hReceiver _ _ _ _ hRegistration
        refine ⟨hBytes, hSender, ?_⟩
        -- the next turn writes the first package of the file
        obtain ⟨package, rfl, hData⟩ :=
          registration_of_sender hRegistration hSize hBytes hSender
        obtain ⟨-, hOwn⟩ := connections_of_registration hWellFormed hKnown hRegistration
        have hMem := List.mem_of_mem_filter (hOwn ▸ List.mem_singleton_self _)
        have hPast := h.turns [] _ (Trace.nil _) _ hMem rfl
        rw [MIPTPServer.getsPast_iff, AppConnection.sendsWindow_forSender_iff, hData] at hPast
        exact hPast
      · exact absurd (by rw [hOutcome]; rfl) (h.rejected hBytes).1

/-- The packages of a file of at most 1490 bytes can be sent in every turn to come. -/
theorem serves_of_small (hWellFormed : WellFormed s)
    (hKnown : socket ∈ s.connections.map (·.socket)) (hSome : bytes ≠ [])
    (hSize : bytes.length ≤ packetBufferSize) (hBytes : ClientPackage.IsRegistration bytes)
    (hSender : ClientPackage.serializedGetType bytes = .sender)
    (hSmall : ClientPackage.serializedGetDataSize bytes ≤ 1490) : s.Serves socket bytes now := by
  have hOutcome : s.outcome (.appPackage socket bytes now) = _ :=
    MIPTPAppController.handleAppPackage_of_known hKnown
  obtain ⟨complete, hComplete⟩ := exists_registration_of_sender hSize hBytes hSender
    s.server.appController socket now
  obtain ⟨hOthers, hOwn⟩ := connections_of_registration hWellFormed hKnown hComplete
  refine ⟨hOthers, fun hNot => absurd hBytes hNot, fun _ => ⟨complete, hOwn, ?_⟩, ?_, ?_⟩
  · exact registers_of_registration hComplete hSize hBytes
  · rintro event hFd hRead rfl
    rw [branch_eq_of_known hWellFormed hKnown hSome hFd hRead,
      MIPTPServer.continues_ofController, hOutcome, hComplete]
    exact ⟨rfl, rfl⟩
  · intro later t hRun
    obtain ⟨package, rfl, hData⟩ := registration_of_sender hComplete hSize hBytes hSender
    have hJob : SmallJob socket (s.perform (.appPackage socket bytes now)) := by
      intro connection hMem hSocket job hJob
      have hFiltered : connection ∈ (s.perform (.appPackage socket bytes now)).connections.filter
          (·.socket = socket) := List.mem_filter.mpr ⟨hMem, decide_eq_true hSocket⟩
      rw [hOwn] at hFiltered
      rw [List.mem_singleton.mp hFiltered] at hJob
      obtain rfl := Option.some.inj hJob
      exact hData.trans_le hSmall
    exact hJob.getsPast (hWellFormed.perform_appPackage socket bytes now) hRun

/-- What an application writes is served as it should be exactly if it is the
registration of a sender of at most 1490 bytes. -/
theorem serves_iff (setup : AppSetup) (actions : List Action) (s : AppSession)
    (run : Trace Step (start setup) actions s) (socket : ℤ)
    (hKnown : socket ∈ s.connections.map (·.socket)) (bytes : List UInt8) (hSome : bytes ≠ [])
    (hSize : bytes.length ≤ packetBufferSize) (now : ℤ) :
    s.Serves socket bytes now ↔ ClientPackage.IsRegistration bytes ∧
      ClientPackage.serializedGetType bytes = .sender ∧
      ClientPackage.serializedGetDataSize bytes ≤ 1490 := by
  have hWellFormed := wellFormed_of_trace run
  refine ⟨Serves.registration hWellFormed hKnown hSome hSize, ?_⟩
  rintro ⟨hBytes, hSender, hSmall⟩
  exact serves_of_small hWellFormed hKnown hSome hSize hBytes hSender hSmall

/-- An application that was accepted registers as a sender of one byte, and the loop goes on. -/
theorem serves_sender :
    ((start ⟨3, 4, by decide, by decide⟩).perform (.accept 5 true 0)).Serves 5
      [80, 0, 10, 1, 0, 0, 0, 1, 0, 7] 0 :=
  (serves_iff ⟨3, 4, by decide, by decide⟩ [.accept 5 true 0] _
    (Trace.snoc (Trace.nil _) ⟨by decide, rfl⟩) 5 (List.mem_singleton.mpr rfl)
    [80, 0, 10, 1, 0, 0, 0, 1, 0, 7] (by decide) (by decide) 0).mpr
    ⟨⟨by decide, by decide, by decide, by decide, by decide, by decide⟩, by decide, by decide⟩

/-- A receiver of messages from address 10 on port 80 stops miptpd: creating its connection ends
in the error branch although the job was made. -/
theorem receiver_stops_miptpd :
    let s := (start ⟨3, 4, by decide, by decide⟩).perform (.accept 5 true 0)
    let bytes : List UInt8 := [80, 0, 10, 2, 0, 0, 0, 0, 0]
    (∃ actions, Trace Step (start ⟨3, 4, by decide, by decide⟩) actions s) ∧
      ClientPackage.IsRegistration bytes ∧
      (s.outcome (.appPackage 5 bytes 0)).result.isOk = false ∧ ¬ s.Serves 5 bytes 0 := by
  intro s bytes
  have hRun : Trace Step (start ⟨3, 4, by decide, by decide⟩) [.accept 5 true 0] s :=
    Trace.snoc (Trace.nil _) ⟨by decide, rfl⟩
  have hKnown : (5 : ℤ) ∈ s.connections.map (·.socket) := List.mem_singleton.mpr rfl
  have hBytes : ClientPackage.IsRegistration bytes :=
    ⟨by decide, by decide, by decide, by decide, by decide, by decide⟩
  have hResult : (s.outcome (.appPackage 5 bytes 0)).result.isOk = false := by
    rw [outcome, MIPTPAppController.handleAppPackage_of_known hKnown]
    cases hRegistration : s.server.appController.registration 5 (MIPTPServer.readBuffer bytes) 0
    with
    | error halt => rfl
    | ok complete =>
        exact absurd hRegistration (registration_of_receiver (by decide) hBytes (by decide) _ _ _ _)
  refine ⟨⟨_, hRun⟩, hBytes, hResult, fun h => ?_⟩
  let event : MIPTPEvent := ⟨5, some bytes, -1, false, 0, fun _ _ => none⟩
  obtain ⟨hContinues, -⟩ := h.serving event rfl rfl rfl
  rw [branch_eq_of_known (wellFormed_of_trace hRun) hKnown (List.cons_ne_nil _ _) rfl rfl,
    MIPTPServer.continues_ofController, hResult] at hContinues
  cases hContinues

end AppSession

end MipStack
