import MipStack.Miptpd.AppSession

/-! What becomes of a connection that is past its registration. -/
namespace MipStack
open Execution

/-- The steps of a status. -/
inductive AppConnectionStatus.Advances : AppConnectionStatus → AppConnectionStatus → Prop where
  | refl (status : AppConnectionStatus) : Advances status status
  | sender : Advances .notReady .sender
  | receiver : Advances .notReady .receiver
  | sent : Advances .sender .complete
  | received : Advances .receiver .complete

namespace AppConnection

/-- The job is for the same port and address, and the data, the window and the bytes received
are the same. -/
structure SameJob (before after : AppConnection) : Prop where
  port : after.port = before.port
  connectedMip : after.connectedMip = before.connectedMip
  sJob : after.sJob.map (fun job => (job.port, job.destination, job.data, job.slidingWindow)) =
    before.sJob.map fun job => (job.port, job.destination, job.data, job.slidingWindow)
  rJob : after.rJob.map (fun job => (job.port, job.data, job.dataReceived)) =
    before.rJob.map fun job => (job.port, job.data, job.dataReceived)

/-- The connection sends the data of the package to where the package wants it, and nothing
was acknowledged yet. -/
structure Sends (connection : AppConnection) (package : ClientPackage) : Prop where
  status : connection.status = .sender
  port : connection.port = BitVec.ofNat 14 package.port.toNat
  connectedMip : connection.connectedMip = package.destination
  job : ∃ job, connection.sJob = some job ∧ job.port = connection.port ∧
    job.destination = package.destination ∧ job.data = package.data ∧
    job.slidingWindow = SlidingWindow.create 0 windowSize

end AppConnection

namespace AppSession

/-- Statuses only advance. A connection begins without a registration, and it is
removed when it is complete or its application leaves. A package of the application
leaves the job alone once there was a registration. -/
structure KeepsTransfers (s : AppSession) (action : Action) (t : AppSession) : Prop where
  begins : ∀ after ∈ t.connections, after.socket ∉ s.connections.map (·.socket) →
    after.status = .notReady
  advances : ∀ before ∈ s.connections, ∀ after ∈ t.connections, after.socket = before.socket →
    before.status.Advances after.status
  removed : ∀ before ∈ s.connections, before.socket ∉ t.connections.map (·.socket) →
    before.status = .complete ∨ action = .disconnect before.socket
  untouched : ∀ before ∈ s.connections, before.status ≠ .notReady →
    action.IsPackageOf before.socket →
      ∀ after ∈ t.connections, after.socket = before.socket → before.SameJob after

/-- A package that is accepted arrives on a connection past its registration, and it does not
ask for the very job that the connection has and of which nothing was acknowledged yet. -/
def Restarts (s : AppSession) : Action → Prop
  | .appPackage socket bytes _ => ∃ connection ∈ s.connections, connection.socket = socket ∧
      connection.status ≠ .notReady ∧ ∃ package,
        ClientPackage.deserialize (MIPTPServer.readBuffer bytes) = .ok package ∧
        package.port ≠ 0 ∧ package.destination ≠ 0 ∧ package.type ≠ .receiver ∧
        ¬ (package.type = .sender ∧ connection.Sends package)
  | _ => False

variable {s t : AppSession} {action : Action}

theorem WellFormed.eq_of_socket (h : WellFormed s) {c c' : AppConnection}
    (hMem : c ∈ s.connections) (hMem' : c' ∈ s.connections) (hSocket : c'.socket = c.socket) :
    c' = c :=
  List.inj_on_of_nodup_map (List.nodup_append.mp h.sockets).2.1 hMem' hMem hSocket

/-- Connections that are only removed, and for a reason: complete, or left by their application.
Whatever stays is as it was. -/
theorem keepsTransfers_of_subset (h : WellFormed s) (hSubset : t.connections ⊆ s.connections)
    (hRemoved : ∀ before ∈ s.connections, before.socket ∉ t.connections.map (·.socket) →
      before.status = .complete ∨ action = .disconnect before.socket) :
    KeepsTransfers s action t := by
  refine ⟨?_, ?_, hRemoved, ?_⟩
  · intro after hAfter hNew
    exact absurd (List.mem_map.mpr ⟨after, hSubset hAfter, rfl⟩) hNew
  · intro before hBefore after hAfter hSocket
    rw [h.eq_of_socket hBefore (hSubset hAfter) hSocket]
    exact .refl _
  · intro before hBefore _ _ after hAfter hSocket
    rw [h.eq_of_socket hBefore (hSubset hAfter) hSocket]
    exact ⟨rfl, rfl, rfl, rfl⟩

/-- Nothing happened to the connections, so no transfer was lost. This is so for refused packages,
for outgoing cycles and for all failures. -/
theorem keepsTransfers_of_eq (h : WellFormed s) (hSame : t.connections = s.connections) :
    KeepsTransfers s action t := by
  apply keepsTransfers_of_subset h (by rw [hSame]; exact List.Subset.refl _)
  intro before hBefore hGone
  rw [hSame] at hGone
  exact absurd (List.mem_map.mpr ⟨before, hBefore, rfl⟩) hGone

/-- One connection is removed, the others stay as they are. It has to be complete or its
application has to have left. -/
theorem keepsTransfers_of_split (h : WellFormed s) {before after : List AppConnection}
    {old : AppConnection} (hSplit : s.connections = before ++ old :: after)
    (hConnections : t.connections = before ++ after)
    (hReason : old.status = .complete ∨ action = .disconnect old.socket) :
    KeepsTransfers s action t := by
  apply keepsTransfers_of_subset h
  · rw [hConnections]
    exact subset_of_split hSplit
  · intro connection hMem hGone
    rw [hSplit] at hMem
    rw [hConnections] at hGone
    rcases List.mem_append.mp hMem with hBefore | hRest
    · exact absurd (List.mem_map.mpr ⟨connection, List.mem_append_left _ hBefore, rfl⟩) hGone
    · rcases List.mem_cons.mp hRest with rfl | hAfter
      · exact hReason
      · exact absurd (List.mem_map.mpr ⟨connection, List.mem_append_right _ hAfter, rfl⟩) hGone

/-- A new connection begins without a registration, on a socket that no other one has. -/
theorem keepsTransfers_accept {accepted now : ℤ} {epollAdded : Bool} (h : WellFormed s)
    (hEnabled : s.Enabled (.accept accepted epollAdded now)) :
    KeepsTransfers s (.accept accepted epollAdded now)
      (s.perform (.accept accepted epollAdded now)) := by
  rcases perform_accept s accepted epollAdded now with ⟨hSame, -⟩ | ⟨hAccepted, -, hMore, -⟩
  · exact keepsTransfers_of_eq h hSame
  have hFresh : accepted ∉ s.connections.map (·.socket) := fun hMem =>
    (hEnabled.2.resolve_left hAccepted).2 (h.polled (List.mem_append_right _ hMem))
  have hEach : ∀ after ∈ s.connections ++ [AppConnection.unregistered accepted],
      after ∈ s.connections ∨ after = AppConnection.unregistered accepted := by
    intro after hMem
    rwa [List.mem_append, List.mem_singleton] at hMem
  refine ⟨?_, ?_, ?_, fun _ _ _ hPackage => hPackage.elim⟩
  · intro after hMem hNew
    rw [hMore] at hMem
    rcases hEach after hMem with hOld | rfl
    · exact absurd (List.mem_map.mpr ⟨after, hOld, rfl⟩) hNew
    · rfl
  · intro before hBefore after hMem hSocket
    rw [hMore] at hMem
    rcases hEach after hMem with hOld | rfl
    · rw [h.eq_of_socket hBefore hOld hSocket]
      exact .refl _
    · exact absurd (List.mem_map.mpr ⟨before, hBefore, hSocket.symm⟩) hFresh
  · intro before hBefore hGone
    rw [hMore, List.map_append] at hGone
    exact absurd (List.mem_append_left _ (List.mem_map.mpr ⟨before, hBefore, rfl⟩)) hGone

/-- A package from mipd moves windows and completes jobs, but takes no connection away and gives
none another job. -/
theorem keepsTransfers_mipdPackage (h : WellFormed s) (mipAddress : MIPAddress)
    (data : List UInt8) :
    KeepsTransfers s (.mipdPackage mipAddress data)
      (s.perform (.mipdPackage mipAddress data)) := by
  have hSockets := sockets_mipdPackage h mipAddress data
  obtain ⟨-, deliver, hConnections, hDeliver⟩ := perform_mipdPackage h mipAddress data
  refine ⟨?_, ?_, ?_, fun _ _ _ hPackage => hPackage.elim⟩
  · intro after hMem hNew
    rw [← hSockets] at hNew
    exact absurd (List.mem_map.mpr ⟨after, hMem, rfl⟩) hNew
  · intro before hBefore after hMem hSocket
    rw [hConnections] at hMem
    obtain ⟨connection, hConnection, rfl⟩ := List.mem_map.mp hMem
    obtain ⟨-, hReceived⟩ := hDeliver connection hConnection
    obtain rfl := h.eq_of_socket hBefore hConnection (hReceived.socket.symm.trans hSocket)
    rcases hReceived.status with hSame | ⟨hSender, hComplete⟩
    · rw [hSame]
      exact .refl _
    · rw [hSender, hComplete]
      exact .sent
  · intro before hBefore hGone
    rw [hSockets] at hGone
    exact absurd (List.mem_map.mpr ⟨before, hBefore, rfl⟩) hGone

/-- The record that a package asks for may take the place of the one before. -/
theorem keepsTransfers_replace_iff (h : WellFormed s) {socket now : ℤ} {bytes : List UInt8}
    {before after : List AppConnection} {old complete : AppConnection}
    (hSplit : s.connections = before ++ old :: after) (hOld : old.socket = socket)
    (hSocket : complete.socket = socket)
    (hAfter : t.connections = before ++ after ++ [complete])
    (hSockets : (t.connections.map (·.socket)).Perm (s.connections.map (·.socket))) :
    KeepsTransfers s (.appPackage socket bytes now) t ↔
      old.status.Advances complete.status ∧ (old.status ≠ .notReady → old.SameJob complete) := by
  have hOldMem : old ∈ s.connections := hSplit ▸ List.mem_append_right _ List.mem_cons_self
  have hNewMem : complete ∈ t.connections := hAfter ▸ List.mem_append_right _
    (List.mem_singleton.mpr rfl)
  have hEach : ∀ connection ∈ t.connections, connection ∈ s.connections ∧
      connection.socket ≠ socket ∨ connection = complete := by
    intro connection hMem
    rw [hAfter, List.mem_append, List.mem_singleton] at hMem
    rcases hMem with hMem | rfl
    · exact Or.inl ⟨subset_of_split hSplit hMem,
        hOld ▸ h.socket_ne_of_split hSplit connection hMem⟩
    · exact Or.inr rfl
  constructor
  · intro hKeeps
    exact ⟨hKeeps.advances old hOldMem complete hNewMem (hSocket.trans hOld.symm),
      fun hReady => hKeeps.untouched old hOldMem hReady hOld.symm complete hNewMem
        (hSocket.trans hOld.symm)⟩
  · rintro ⟨hAdvances, hSame⟩
    refine ⟨?_, ?_, ?_, ?_⟩
    · intro connection hMem hNew
      rcases hEach connection hMem with ⟨hConnection, -⟩ | rfl
      · exact absurd (List.mem_map.mpr ⟨connection, hConnection, rfl⟩) hNew
      · exact absurd (List.mem_map.mpr ⟨old, hOldMem, hOld.trans hSocket.symm⟩) hNew
    · intro connection hConnection connection' hMem hEq
      rcases hEach connection' hMem with ⟨hConnection', -⟩ | rfl
      · rw [h.eq_of_socket hConnection hConnection' hEq]
        exact .refl _
      · rw [h.eq_of_socket hOldMem hConnection (hEq.symm.trans (hSocket.trans hOld.symm))]
        exact hAdvances
    · intro connection hConnection hGone
      refine absurd (hSockets.symm.subset (List.mem_map.mpr ⟨connection, hConnection, rfl⟩)) hGone
    · intro connection hConnection hReady hPackage connection' hMem hEq
      have hSender : connection.socket = socket := hPackage.symm
      rcases hEach connection' hMem with ⟨-, hOther⟩ | rfl
      · exact absurd (hEq.trans hSender) hOther
      · rw [h.eq_of_socket hOldMem hConnection (hSender.trans hOld.symm)] at hReady ⊢
        exact hSame hReady

/-- The record for a package continues a connection only if that has no registration
yet or if it has the very job that the package asks for. -/
theorem continues_iff {old complete : AppConnection} (hValid : old.Valid)
    {package : ClientPackage} {socket timeout now : ℤ}
    (hCreate : AppConnection.create (connectionType package.type) socket package.port
      package.destination package.data package.size_le timeout now = some complete) :
    old.status.Advances complete.status ∧ (old.status ≠ .notReady → old.SameJob complete) ↔
      (old.status ≠ .notReady → package.type = .sender ∧ old.Sends package) := by
  cases hType : package.type with
  | sender =>
      rw [hType, connectionType, AppConnection.create_sender] at hCreate
      obtain rfl := Option.some.inj hCreate
      constructor
      · rintro ⟨hAdvances, hSame⟩ hReady
        obtain ⟨hPort, hConnected, hJob, -⟩ := hSame hReady
        obtain ⟨job, hSome, hFields⟩ := Option.map_eq_some_iff.mp hJob.symm
        simp only [Prod.mk.injEq] at hFields
        obtain ⟨hJobPort, hDestination, hData, hWindow⟩ := hFields
        refine ⟨rfl, ?_, hPort.symm, hConnected.symm, job, hSome, hJobPort.trans hPort,
          hDestination, hData, hWindow⟩
        generalize old.status = status at hAdvances hReady
        cases hAdvances with
        | refl => rfl
        | sender => exact absurd rfl hReady
      · intro hSends
        by_cases hReady : old.status = .notReady
        · rw [hReady]
          exact ⟨.sender, absurd rfl⟩
        · obtain ⟨-, hSender, hPort, hConnected, job, hSome, hJobPort, hDestination, hData,
            hWindow⟩ := hSends hReady
          rw [hSender]
          refine ⟨.refl _, fun _ => ⟨hPort.symm, hConnected.symm, ?_, ?_⟩⟩
          · rw [hSome, Option.map_some, hJobPort, hPort, hDestination, hData, hWindow]
            rfl
          · rw [hValid.rJob]
            rfl
  | receiver =>
      rw [hType, connectionType, AppConnection.create_receiver] at hCreate
      cases hCreate
  | invalid code =>
      rw [hType, connectionType] at hCreate
      obtain rfl := Option.some.inj hCreate
      constructor
      · rintro ⟨hAdvances, -⟩ hReady
        generalize old.status = status at hAdvances hReady
        cases hAdvances with
        | refl => exact absurd rfl hReady
      · intro hSends
        by_cases hReady : old.status = .notReady
        · rw [hReady]
          exact ⟨.refl _, absurd rfl⟩
        · exact nomatch (hSends hReady).1

/-- What an application writes is the only thing that can throw a transfer away: it does when it
is accepted and asks for another job than the one there is. -/
theorem keepsTransfers_appPackage_iff (h : WellFormed s) (socket : ℤ) (bytes : List UInt8)
    (now : ℤ) :
    KeepsTransfers s (.appPackage socket bytes now) (s.perform (.appPackage socket bytes now)) ↔
      ¬ s.Restarts (.appPackage socket bytes now) := by
  have hSockets := sockets_appPackage s socket bytes now
  obtain ⟨-, ⟨hSame, hRefused⟩ | ⟨complete, before, old, after, hComplete, hSplit, hOld, hAfter⟩⟩ :=
    perform_appPackage s socket bytes now
  · refine iff_of_true (keepsTransfers_of_eq h hSame) ?_
    rintro ⟨connection, hMem, hSocket, -, package, hPackage, hPort, hDestination, hType, -⟩
    rcases hRefused with ⟨halt, hHalt⟩ | hUnknown
    · obtain ⟨complete, hComplete⟩ := s.server.appController.exists_registration hPackage hPort
        hDestination hType socket now
      cases hHalt.symm.trans hComplete
    · exact hUnknown (List.mem_map.mpr ⟨connection, hMem, hSocket⟩)
  · obtain ⟨package, hPackage, hPort, hDestination, hCreate⟩ :=
      MIPTPAppController.registration_eq_ok_iff.mp hComplete
    obtain ⟨hSocket, -⟩ := AppConnection.create_fields hCreate
    have hMem : old ∈ s.connections := hSplit ▸ List.mem_append_right _ List.mem_cons_self
    rw [keepsTransfers_replace_iff h hSplit hOld hSocket hAfter hSockets,
      continues_iff (h.valid old hMem) hCreate]
    constructor
    · rintro hSends ⟨connection, hConnection, hEq, hReady, package', hPackage', -, -, -, hOther⟩
      obtain rfl := h.eq_of_socket hMem hConnection (hEq.trans hOld.symm)
      obtain rfl := Except.ok.inj (hPackage'.symm.trans hPackage)
      exact hOther (hSends hReady)
    · intro hNone hReady
      by_contra hOther
      refine hNone ⟨old, hMem, hOld, hReady, package, hPackage, hPort, hDestination, ?_, hOther⟩
      rintro hType
      rw [hType, connectionType, AppConnection.create_receiver] at hCreate
      cases hCreate

/-- Accepting, sending, receiving, completing and leaving keep all transfers in every state, so
that one condition on what applications write is left. -/
theorem keepsTransfers_perform_iff (h : WellFormed s) (hEnabled : s.Enabled action) :
    KeepsTransfers s action (s.perform action) ↔ ¬ s.Restarts action := by
  cases action with
  | accept accepted epollAdded now => exact iff_of_true (keepsTransfers_accept h hEnabled) id
  | appPackage socket bytes now => exact keepsTransfers_appPackage_iff h socket bytes now
  | mipdPackage mipAddress data =>
      exact iff_of_true (keepsTransfers_mipdPackage h mipAddress data) id
  | outgoing written =>
      exact iff_of_true (keepsTransfers_of_eq h (perform_outgoing s written).1) id
  | completes =>
      refine iff_of_true ?_ id
      rcases perform_completes s with
        ⟨hSame, -⟩ | ⟨before, old, after, hSplit, hComplete, hConnections, -⟩
      · exact keepsTransfers_of_eq h hSame
      · exact keepsTransfers_of_split h hSplit hConnections (Or.inl hComplete)
  | disconnect socket =>
      refine iff_of_true ?_ id
      obtain ⟨-, ⟨hSame, -⟩ | ⟨before, old, after, hSplit, hSocket, hConnections⟩⟩ :=
        perform_disconnect s socket
      · exact keepsTransfers_of_eq h hSame
      · exact keepsTransfers_of_split h hSplit hConnections (Or.inr (by rw [hSocket]))

/-- In the runs in which no transfer is thrown away no package restarts one, and these are all
such runs. What others do, and what arrives from the network, never touches the job of a
connection but to move it on. -/
theorem keeps_transfers_iff (setup : AppSetup) (actions : List Action) (t : AppSession) :
    Trace (Guarded Step KeepsTransfers) (start setup) actions t ↔
      Trace (Guarded Step fun s action _ => ¬ s.Restarts action) (start setup) actions t := by
  apply Trace.guarded_iff (WellFormed.start setup)
  · rintro s action _ h ⟨hEnabled, rfl⟩ _
    exact h.perform hEnabled
  · rintro s action _ h ⟨hEnabled, rfl⟩
    exact keepsTransfers_perform_iff h hEnabled

/-- A second package on the socket makes a new job of the one that was sent: the status of the old
connection is not looked at. -/
theorem second_package_restarts :
    let s := afterRegistration ⟨80, 10, .sender, [7], by decide⟩
    let second : ClientPackage := ⟨80, 10, .sender, [8], by decide⟩
    let action := Action.appPackage 5 second.toBytes 0
    (∃ actions, Trace Step (start ⟨3, 4, by decide, by decide⟩) actions s) ∧
      s.Enabled action ∧ ¬ KeepsTransfers s action (s.perform action) := by
  intro s second action
  let first : ClientPackage := ⟨80, 10, .sender, [7], by decide⟩
  have hRun := trace_afterRegistration first (by decide)
  obtain ⟨hConnections, -, hAlive⟩ := afterRegistration_eq first rfl (by decide)
    (by decide) (by decide)
  have hSize : second.toBytes.length ≤ packetBufferSize := by decide
  have hEnabled : s.Enabled action := ⟨hAlive, hSize⟩
  refine ⟨⟨_, hRun⟩, hEnabled, ?_⟩
  rw [keepsTransfers_perform_iff (wellFormed_of_trace hRun) hEnabled, not_not]
  refine ⟨AppConnection.forSender 5 first 0 0, hConnections ▸ List.mem_singleton.mpr rfl, rfl,
    nofun, second, ?_, by decide, by decide, nofun, ?_⟩
  · rw [MIPTPServer.readBuffer_eq hSize]
    exact ClientPackage.deserialize_toBytes (Or.inl rfl) _
  · rintro ⟨-, hSends⟩
    obtain ⟨job, hJob, -, -, hData, -⟩ := hSends.job
    obtain rfl := Option.some.inj hJob
    exact absurd hData (by decide)

end AppSession

end MipStack
