import MipStack.Library.Execution
import MipStack.Miptpd.MIPTPServer

/-! miptpd among its applications: the operations on its connections, in any order. -/
namespace MipStack
open Execution

/-- The epoll set after an output; closing a descriptor takes it out. -/
def AppOutput.pollAfter (polled : List ℤ) : AppOutput → List ℤ
  | .epollAdd fd => polled ++ [fd]
  | .close fd => polled.erase fd
  | _ => polled

/-- The descriptors of miptpd when its loop begins. -/
structure AppSetup where
  mipdFd : ℤ
  listeningFd : ℤ
  nodup : [0, mipdFd, listeningFd].Nodup
  nonneg : 0 ≤ mipdFd ∧ 0 ≤ listeningFd

/-- `polled` are the descriptors in the epoll set, `registered` tells which port the
application on a socket registered last, and `alive` is false after a fault. -/
structure AppSession where
  server : MIPTPServer
  polled : List ℤ
  registered : ℤ → Option UInt16
  alive : Bool

namespace AppSession

def start (setup : AppSetup) : AppSession :=
  { server := MIPTPServer.create setup.mipdFd setup.listeningFd
    polled := [0, setup.mipdFd, setup.listeningFd]
    registered := fun _ => none
    alive := true }

def connections (s : AppSession) : List AppConnection := s.server.appController.connections

/-- `bytes` are what one reading of the socket returns. -/
inductive Action where
  | accept (accepted : ℤ) (epollAdded : Bool) (now : ℤ)
  | appPackage (socket : ℤ) (bytes : List UInt8) (now : ℤ)
  | mipdPackage (mipAddress : MIPAddress) (data : List UInt8)
  | outgoing (written : ℕ → Bool)
  | completes
  | disconnect (socket : ℤ)

/-- The action is a package of the application on the socket. -/
def Action.IsPackageOf (socket : ℤ) : Action → Prop
  | .appPackage sender _ _ => sender = socket
  | _ => False

/-- What the operation does. -/
def outcome (s : AppSession) : Action → AppOutcome
  | .accept accepted epollAdded now =>
    s.server.appController.handleConnection accepted epollAdded now
  | .appPackage socket bytes now =>
    s.server.appController.handleAppPackage socket (MIPTPServer.readBuffer bytes) now
  | .mipdPackage mipAddress data => s.server.appController.handleMipdPackage mipAddress data
  | .outgoing written => s.server.appController.handleOutgoing written
  | .completes => s.server.appController.handleCompletes
  | .disconnect socket => s.server.appController.disconnect socket

/-- A new connection has no port; an accepted package registers its own. -/
def registeredAfter (s : AppSession) : Action → ℤ → Option UInt16
  | .accept accepted _ _ => Function.update s.registered accepted none
  | .appPackage socket bytes now =>
    let buffer := MIPTPServer.readBuffer bytes
    match s.server.appController.registration socket buffer now with
    | .ok _ =>
      Function.update s.registered socket (some (ClientPackage.serializedGetPort buffer))
    | .error _ => s.registered
  | _ => s.registered

def perform (s : AppSession) (action : Action) : AppSession :=
  let outcome := s.outcome action
  { server := { s.server with appController := outcome.controller }
    polled := outcome.outputs.foldl AppOutput.pollAfter s.polled
    registered := s.registeredAfter action
    alive := match outcome.result with
      | .error .fault => false
      | _ => true }

/-- A descriptor that is accepted was not open before. -/
def Enabled (s : AppSession) : Action → Prop
  | .accept accepted _ _ => s.alive ∧
      (accepted = -1 ∨ 0 ≤ accepted ∧ accepted ∉ s.polled)
  | .appPackage _ bytes _ => s.alive ∧ bytes.length ≤ packetBufferSize
  | _ => s.alive

instance (s : AppSession) (action : Action) : Decidable (s.Enabled action) :=
  match action with
  | .accept _ _ _ => inferInstanceAs (Decidable (_ ∧ _))
  | .appPackage _ _ _ => inferInstanceAs (Decidable (_ ∧ _))
  | .mipdPackage _ _ => inferInstanceAs (Decidable (_ = true))
  | .outgoing _ => inferInstanceAs (Decidable (_ = true))
  | .completes => inferInstanceAs (Decidable (_ = true))
  | .disconnect _ => inferInstanceAs (Decidable (_ = true))

def Step (s : AppSession) (action : Action) (t : AppSession) : Prop :=
  s.Enabled action ∧ t = s.perform action

/-- The port a connection has for the port its application registered. -/
def portOf : Option UInt16 → BitVec 14
  | none => 16383
  | some port => BitVec.ofNat 14 port.toNat

/-- The descriptors polled from the start on. -/
def permanentFds (s : AppSession) : List ℤ := [0, s.server.mipdFd, s.server.listeningFd]

/-- The invariant of all runs. -/
structure WellFormed (s : AppSession) : Prop where
  valid : ∀ connection ∈ s.connections, connection.Valid
  port : ∀ connection ∈ s.connections, connection.port = portOf (s.registered connection.socket)
  sockets : (s.permanentFds ++ s.connections.map (·.socket)).Nodup
  polled : s.permanentFds ++ s.connections.map (·.socket) ⊆ s.polled
  nonneg : ∀ fd ∈ s.polled, 0 ≤ fd

variable {s t : AppSession} {action : Action} {socket accepted now : ℤ} {bytes data : List UInt8}
  {epollAdded : Bool} {mipAddress : MIPAddress} {written : ℕ → Bool}

/-! What each action does to the connections and to the descriptors. -/

/-- A connection that is not registered is pushed to the end of the list, or nothing happens. -/
theorem perform_accept (s : AppSession) (accepted : ℤ) (epollAdded : Bool) (now : ℤ) :
    let t := s.perform (.accept accepted epollAdded now)
    t.connections = s.connections ∧ t.polled = s.polled ∧
        (accepted = -1 ∨ epollAdded = false) ∨
      accepted ≠ -1 ∧ epollAdded = true ∧
        t.connections = s.connections ++ [AppConnection.unregistered accepted] ∧
        t.polled = s.polled ++ [accepted] := by
  rcases s.server.appController.handleConnection_cases accepted epollAdded now with
    ⟨hHalt, hRefused⟩ | ⟨hAccepted, hAdded, hFinish⟩
  · refine Or.inl ⟨?_, ?_, hRefused⟩
    · simp only [connections, perform, outcome, hHalt, MIPTPAppController.halt]
    · simp only [perform, outcome, hHalt, MIPTPAppController.halt, List.foldl_nil]
  · refine Or.inr ⟨hAccepted, hAdded, ?_, ?_⟩
    · simp only [connections, perform, outcome, hFinish, MIPTPAppController.finish,
        MIPTPAppController.withConnections]
    · simp only [perform, outcome, hFinish, MIPTPAppController.finish, List.foldl_cons,
        List.foldl_nil, AppOutput.pollAfter]

/-- A registration replaces the record of its socket, whatever its status was; all others stay. Or
the list is as it was. -/
theorem perform_appPackage (s : AppSession) (socket : ℤ) (bytes : List UInt8) (now : ℤ) :
    let t := s.perform (.appPackage socket bytes now)
    t.polled = s.polled ∧ (t.connections = s.connections ∧
        ((∃ halt, s.server.appController.registration socket (MIPTPServer.readBuffer bytes) now =
          .error halt) ∨ socket ∉ s.connections.map (·.socket)) ∨
      ∃ complete before old after,
        s.server.appController.registration socket (MIPTPServer.readBuffer bytes) now =
          .ok complete ∧
        s.connections = before ++ old :: after ∧ old.socket = socket ∧
        t.connections = before ++ after ++ [complete]) := by
  obtain ⟨hOutputs, hCases⟩ := s.server.appController.handleAppPackage_cases socket
    (MIPTPServer.readBuffer bytes) now
  refine ⟨by simp only [perform, outcome, hOutputs, List.foldl_nil], ?_⟩
  rcases hCases with ⟨hSame, hRefused⟩ |
    ⟨complete, before, old, after, hComplete, hSplit, hSocket, hAfter⟩
  · exact Or.inl ⟨by simp only [connections, perform, outcome, hSame], hRefused⟩
  · refine Or.inr ⟨complete, before, old, after, hComplete, hSplit, hSocket, ?_⟩
    simp only [connections, perform, outcome, hAfter, MIPTPAppController.withConnections]

/-- Every connection on the port of the package takes it, and the list keeps its length and
order. -/
theorem perform_mipdPackage (h : WellFormed s) (mipAddress : MIPAddress) (data : List UInt8) :
    let t := s.perform (.mipdPackage mipAddress data)
    t.polled = s.polled ∧ ∃ deliver : AppConnection → AppConnection,
      t.connections = s.connections.map deliver ∧ ∀ connection ∈ s.connections,
        (deliver connection).Valid ∧ connection.Received (deliver connection) := by
  cases hPackage : MIPTPPackage.deserialize data with
  | error halt =>
      have hHalt : s.server.appController.handleMipdPackage mipAddress data =
          s.server.appController.halt halt := by
        rw [MIPTPAppController.handleMipdPackage, hPackage]
      simp only [perform, outcome, connections, hHalt]
      exact ⟨rfl, id, (List.map_id _).symm, fun connection hMem =>
        ⟨h.valid connection hMem, AppConnection.Received.refl connection⟩⟩
  | ok package =>
      have hHandled := MIPTPAppController.handleMipdPackage_of_valid h.valid mipAddress hPackage
      simp only [perform, outcome, connections, hHandled]
      refine ⟨rfl, _, rfl, fun connection hMem => ?_⟩
      have hValid := h.valid connection hMem
      split_ifs
      · exact (AppConnection.receivePackage_of_valid hValid mipAddress package).2
      · exact ⟨hValid, AppConnection.Received.refl connection⟩

/-- Sending changes no connection: it moves no window and counts nothing. -/
theorem perform_outgoing (s : AppSession) (written : ℕ → Bool) :
    let t := s.perform (.outgoing written)
    t.connections = s.connections ∧ t.polled = s.polled := by
  refine ⟨rfl, ?_⟩
  have hSilent : ∀ (outputs : List AppOutput) (polled : List ℤ),
      (∀ output ∈ outputs, ∃ bytes,
        output = .sendMipd s.server.appController.mipdSocket bytes) →
      outputs.foldl AppOutput.pollAfter polled = polled := by
    intro outputs polled hMessages
    induction outputs with
    | nil => rfl
    | cons output rest ih =>
        obtain ⟨bytes, rfl⟩ := hMessages output List.mem_cons_self
        exact ih fun output hMem => hMessages output (List.mem_cons_of_mem _ hMem)
  exact hSilent _ _ fun output hMem => MIPTPAppController.sendWindows_outputs hMem

/-- A sweep takes out the first complete connection and closes its socket, or there is none. What
it does afterwards is the fault of the outcome. -/
theorem perform_completes (s : AppSession) :
    let t := s.perform .completes
    t.connections = s.connections ∧ t.polled = s.polled ∨
      ∃ before connection after, s.connections = before ++ connection :: after ∧
        connection.status = .complete ∧ t.connections = before ++ after ∧
        t.polled = if connection.socket ≠ 0 then s.polled.erase connection.socket
          else s.polled := by
  rcases s.server.appController.handleCompletes_cases with
    hNone | ⟨before, connection, after, hSplit, hComplete, hHandled⟩
  · refine Or.inl ⟨?_, ?_⟩
    · simp only [connections, perform, outcome, hNone, MIPTPAppController.finish]
    · simp only [perform, outcome, hNone, MIPTPAppController.finish, List.foldl_nil]
  · refine Or.inr ⟨before, connection, after, hSplit, hComplete, ?_, ?_⟩
    · simp only [connections, perform, outcome, hHandled, MIPTPAppController.withConnections]
    · simp only [perform, outcome, hHandled]
      split_ifs <;> rfl

/-- The record of the socket is taken out, and the socket stays polled. -/
theorem perform_disconnect (s : AppSession) (socket : ℤ) :
    let t := s.perform (.disconnect socket)
    t.polled = s.polled ∧
      (t.connections = s.connections ∧ socket ∉ s.connections.map (·.socket) ∨
        ∃ before old after, s.connections = before ++ old :: after ∧ old.socket = socket ∧
          t.connections = before ++ after) := by
  obtain ⟨hOutputs, hCases⟩ := s.server.appController.disconnect_cases socket
  refine ⟨by simp only [perform, outcome, hOutputs, List.foldl_nil], ?_⟩
  rcases hCases with ⟨hSame, hUnknown⟩ | ⟨before, old, after, hSplit, hSocket, hAfter⟩
  · exact Or.inl ⟨by simp only [connections, perform, outcome, hSame], hUnknown⟩
  · refine Or.inr ⟨before, old, after, hSplit, hSocket, ?_⟩
    simp only [connections, perform, outcome, hAfter, MIPTPAppController.withConnections]

theorem WellFormed.start (setup : AppSetup) : WellFormed (start setup) := by
  refine ⟨fun _ hMem => absurd hMem List.not_mem_nil, fun _ hMem => absurd hMem List.not_mem_nil,
    setup.nodup, fun fd hMem => hMem, ?_⟩
  intro fd hMem
  simp only [AppSession.start, List.mem_cons, List.not_mem_nil, or_false] at hMem
  obtain ⟨hMipd, hListening⟩ := setup.nonneg
  omega

/-- No two connections have one socket, and none has a permanent one. -/
theorem WellFormed.split_sockets (h : WellFormed s) {before after : List AppConnection}
    {old : AppConnection} (hSplit : s.connections = before ++ old :: after) :
    (s.permanentFds ++ (before ++ after).map (·.socket)).Nodup ∧
      old.socket ∉ s.permanentFds ++ (before ++ after).map (·.socket) := by
  have hSockets := h.sockets
  rw [hSplit] at hSockets
  have hPerm : (s.permanentFds ++ (before ++ old :: after).map (·.socket)).Perm
      (old.socket :: (s.permanentFds ++ (before ++ after).map (·.socket))) := by
    rw [List.map_append, List.map_cons, List.map_append, ← List.append_assoc,
      ← List.append_assoc]
    exact List.perm_middle
  obtain ⟨hOld, hOthers⟩ := List.nodup_cons.mp (hPerm.nodup_iff.mp hSockets)
  exact ⟨hOthers, hOld⟩

theorem subset_of_split {before after : List AppConnection} {old : AppConnection}
    (hSplit : s.connections = before ++ old :: after) : before ++ after ⊆ s.connections := by
  rw [hSplit]
  exact ((List.sublist_cons_self old after).append_left before).subset

theorem WellFormed.socket_ne_of_split (h : WellFormed s) {before after : List AppConnection}
    {old : AppConnection} (hSplit : s.connections = before ++ old :: after) :
    ∀ connection ∈ before ++ after, connection.socket ≠ old.socket := by
  intro connection hMem hEq
  exact (h.split_sockets hSplit).2
    (List.mem_append_right _ (List.mem_map.mpr ⟨connection, hMem, hEq⟩))

/-- One connection less, and perhaps its descriptor no longer polled. -/
theorem WellFormed.remove (h : WellFormed s) {before after : List AppConnection}
    {old : AppConnection} (hSplit : s.connections = before ++ old :: after)
    (hConnections : t.connections = before ++ after) (hRegistered : t.registered = s.registered)
    (hPermanent : t.permanentFds = s.permanentFds)
    (hPolled : t.polled = s.polled ∨ t.polled = s.polled.erase old.socket) : WellFormed t := by
  obtain ⟨hNodup, hOld⟩ := h.split_sockets hSplit
  have hMem := subset_of_split hSplit
  have hSubset : s.permanentFds ++ (before ++ after).map (·.socket) ⊆ s.polled := by
    refine List.append_subset.mpr ⟨(List.append_subset.mp h.polled).1, ?_⟩
    exact fun fd hFd => (List.append_subset.mp h.polled).2 (List.map_subset _ hMem hFd)
  refine ⟨?_, ?_, ?_, ?_, ?_⟩
  · rw [hConnections]
    exact fun connection hConnection => h.valid connection (hMem hConnection)
  · rw [hConnections, hRegistered]
    exact fun connection hConnection => h.port connection (hMem hConnection)
  · rw [hConnections, hPermanent]
    exact hNodup
  · rw [hConnections, hPermanent]
    rcases hPolled with hSame | hErased
    · rw [hSame]
      exact hSubset
    · rw [hErased]
      intro fd hFd
      have hOther : fd ≠ old.socket := fun hEq => hOld (hEq ▸ hFd)
      exact (List.mem_erase_of_ne hOther).mpr (hSubset hFd)
  · rcases hPolled with hSame | hErased
    · rw [hSame]
      exact h.nonneg
    · rw [hErased]
      exact fun fd hFd => h.nonneg fd (List.mem_of_mem_erase hFd)

/-- One connection more, on a descriptor that was not open. -/
theorem WellFormed.accept (h : WellFormed s) (hNonneg : 0 ≤ accepted)
    (hFresh : accepted ∉ s.polled)
    (hConnections : t.connections = s.connections ++ [AppConnection.unregistered accepted])
    (hRegistered : t.registered = Function.update s.registered accepted none)
    (hPermanent : t.permanentFds = s.permanentFds) (hPolled : t.polled = s.polled ++ [accepted]) :
    WellFormed t := by
  have hNew : accepted ∉ s.permanentFds ++ s.connections.map (·.socket) :=
    fun hMem => hFresh (h.polled hMem)
  have hSockets : t.permanentFds ++ t.connections.map (·.socket) =
      (s.permanentFds ++ s.connections.map (·.socket)) ++ [accepted] := by
    rw [hConnections, hPermanent, List.map_append, List.append_assoc]
    rfl
  refine ⟨?_, ?_, ?_, ?_, ?_⟩
  · intro connection hMem
    rw [hConnections] at hMem
    rcases List.mem_append.mp hMem with hMem | hMem
    · exact h.valid connection hMem
    · exact List.mem_singleton.mp hMem ▸ AppConnection.valid_unregistered accepted
  · intro connection hMem
    rw [hConnections] at hMem
    rw [hRegistered]
    rcases List.mem_append.mp hMem with hMem | hMem
    · have hOther : connection.socket ≠ accepted := fun hEq => hNew
        (List.mem_append_right _ (List.mem_map.mpr ⟨connection, hMem, hEq⟩))
      rw [Function.update_of_ne hOther]
      exact h.port connection hMem
    · obtain rfl := List.mem_singleton.mp hMem
      rw [show (AppConnection.unregistered accepted).socket = accepted from rfl,
        Function.update_self]
      rfl
  · rw [hSockets, ← List.concat_eq_append]
    exact List.Nodup.concat hNew h.sockets
  · rw [hSockets, hPolled]
    exact List.append_subset.mpr ⟨fun fd hFd => List.mem_append_left _ (h.polled hFd),
      fun fd hFd => List.mem_append_right _ hFd⟩
  · intro fd hFd
    rw [hPolled] at hFd
    rcases List.mem_append.mp hFd with hFd | hFd
    · exact h.nonneg fd hFd
    · exact List.mem_singleton.mp hFd ▸ hNonneg

/-- Each connection keeps its socket and its port, in any order. -/
theorem WellFormed.congr (h : WellFormed s) (hPermanent : t.permanentFds = s.permanentFds)
    (hPolled : t.polled = s.polled)
    (hSockets : (t.connections.map (·.socket)).Perm (s.connections.map (·.socket)))
    (hValid : ∀ connection ∈ t.connections, connection.Valid)
    (hPort : ∀ connection ∈ t.connections,
      connection.port = portOf (t.registered connection.socket)) : WellFormed t := by
  refine ⟨hValid, hPort, ?_, ?_, ?_⟩
  · rw [hPermanent]
    exact (hSockets.append_left _).nodup_iff.mpr h.sockets
  · rw [hPermanent, hPolled]
    exact fun fd hFd => h.polled ((hSockets.append_left _).subset hFd)
  · rw [hPolled]
    exact h.nonneg

/-- Nothing but the registered ports of other descriptors changes. -/
theorem WellFormed.of_same (h : WellFormed s) (hPermanent : t.permanentFds = s.permanentFds)
    (hPolled : t.polled = s.polled) (hConnections : t.connections = s.connections)
    (hRegistered : ∀ connection ∈ s.connections,
      t.registered connection.socket = s.registered connection.socket) : WellFormed t := by
  refine h.congr hPermanent hPolled (by rw [hConnections]) (by rw [hConnections]; exact h.valid) ?_
  intro connection hMem
  rw [hConnections] at hMem
  rw [hRegistered connection hMem]
  exact h.port connection hMem

/-- `accept` returns a descriptor that is not in use, so sockets stay distinct. -/
theorem WellFormed.perform_accept (h : WellFormed s)
    (hEnabled : s.Enabled (.accept accepted epollAdded now)) :
    WellFormed (s.perform (.accept accepted epollAdded now)) := by
  have hFd := hEnabled.2
  rcases AppSession.perform_accept s accepted epollAdded now with
    ⟨hSame, hPolled, -⟩ | ⟨hAccepted, -, hConnections, hPolled⟩
  · have hNew : accepted ∉ s.polled := by
      rcases hFd with rfl | ⟨-, hFresh⟩
      · intro hMem
        have hNonneg := h.nonneg _ hMem
        omega
      · exact hFresh
    refine h.of_same rfl hPolled hSame fun connection hMem => ?_
    have hOther : connection.socket ≠ accepted := fun hEq => hNew
      (hEq ▸ h.polled (List.mem_append_right _ (List.mem_map.mpr ⟨connection, hMem, rfl⟩)))
    exact Function.update_of_ne hOther _ _
  · obtain ⟨hNonneg, hFresh⟩ := hFd.resolve_left hAccepted
    exact h.accept hNonneg hFresh hConnections rfl rfl hPolled

/-- The record that a package asks for is on its socket, with the port registered. -/
theorem registration_fields {complete : AppConnection}
    (h : s.server.appController.registration socket (MIPTPServer.readBuffer bytes) now =
      .ok complete) :
    complete.socket = socket ∧ complete.Valid ∧
      s.registeredAfter (.appPackage socket bytes now) = Function.update s.registered socket
        (some (ClientPackage.serializedGetPort (MIPTPServer.readBuffer bytes))) ∧
      complete.port =
        portOf (some (ClientPackage.serializedGetPort (MIPTPServer.readBuffer bytes))) := by
  obtain ⟨package, hPackage, -, -, hCreate⟩ := MIPTPAppController.registration_eq_ok_iff.mp h
  obtain ⟨hSocket, hPort, -⟩ := AppConnection.create_fields hCreate
  refine ⟨hSocket, AppConnection.valid_create hCreate, ?_, ?_⟩
  · simp only [registeredAfter, h]
  · rw [hPort, (ClientPackage.fields_of_deserialize hPackage).2.1]
    rfl

/-- The connections of all sockets stay, if not in their places. -/
theorem sockets_appPackage (s : AppSession) (socket : ℤ) (bytes : List UInt8) (now : ℤ) :
    ((s.perform (.appPackage socket bytes now)).connections.map (·.socket)).Perm
      (s.connections.map (·.socket)) := by
  obtain ⟨-, ⟨hSame, -⟩ | ⟨complete, before, old, after, hComplete, hSplit, hOld, hAfter⟩⟩ :=
    perform_appPackage s socket bytes now
  · rw [hSame]
  · obtain ⟨hSocket, -⟩ := registration_fields hComplete
    have hLast : [complete].map (·.socket) = [old.socket] := by
      rw [List.map_singleton, hSocket, hOld]
    rw [hAfter, hSplit, List.map_append, hLast, List.map_append, List.map_append, List.map_cons]
    exact (List.perm_append_singleton _ _).trans List.perm_middle.symm

theorem sockets_mipdPackage (h : WellFormed s) (mipAddress : MIPAddress) (data : List UInt8) :
    (s.perform (.mipdPackage mipAddress data)).connections.map (·.socket) =
      s.connections.map (·.socket) := by
  obtain ⟨-, deliver, hConnections, hDeliver⟩ := perform_mipdPackage h mipAddress data
  rw [hConnections, List.map_map]
  exact List.map_congr_left fun connection hMem => (hDeliver connection hMem).2.socket

/-- The new record has the socket of the old one and the port that was registered last. -/
theorem WellFormed.perform_appPackage (h : WellFormed s) (socket : ℤ) (bytes : List UInt8)
    (now : ℤ) : WellFormed (s.perform (.appPackage socket bytes now)) := by
  have hSockets := sockets_appPackage s socket bytes now
  obtain ⟨hPolled, hCases⟩ := AppSession.perform_appPackage s socket bytes now
  rcases hCases with ⟨hSame, hRefused⟩ |
    ⟨complete, before, old, after, hComplete, hSplit, hOld, hAfter⟩
  · refine h.of_same rfl hPolled hSame fun connection hMem => ?_
    rcases hRefused with ⟨halt, hHalt⟩ | hUnknown
    · simp only [perform, registeredAfter, hHalt]
    · have hOther : connection.socket ≠ socket :=
        fun hEq => hUnknown (List.mem_map.mpr ⟨connection, hMem, hEq⟩)
      simp only [perform, registeredAfter]
      cases s.server.appController.registration socket (MIPTPServer.readBuffer bytes) now with
      | error halt => rfl
      | ok complete => simp only [Function.update_of_ne hOther]
  · obtain ⟨hSocket, hValid, hRegistered, hPort⟩ := registration_fields hComplete
    have hMem := subset_of_split hSplit
    refine h.congr rfl hPolled hSockets ?_ ?_
    · intro connection hConnection
      rw [hAfter] at hConnection
      rcases List.mem_append.mp hConnection with hConnection | hConnection
      · exact h.valid connection (hMem hConnection)
      · exact List.mem_singleton.mp hConnection ▸ hValid
    · intro connection hConnection
      rw [hAfter] at hConnection
      simp only [perform, hRegistered]
      rcases List.mem_append.mp hConnection with hConnection | hConnection
      · have hOther := h.socket_ne_of_split hSplit connection hConnection
        rw [hOld] at hOther
        rw [Function.update_of_ne hOther]
        exact h.port connection (hMem hConnection)
      · rw [List.mem_singleton.mp hConnection, hSocket, Function.update_self]
        exact hPort

/-- Taking a package changes neither socket nor port. -/
theorem WellFormed.perform_mipdPackage (h : WellFormed s) (mipAddress : MIPAddress)
    (data : List UInt8) : WellFormed (s.perform (.mipdPackage mipAddress data)) := by
  obtain ⟨hPolled, deliver, hConnections, hDeliver⟩ :=
    AppSession.perform_mipdPackage h mipAddress data
  refine h.congr rfl hPolled (by rw [sockets_mipdPackage h]) ?_ ?_
  · intro received hMem
    rw [hConnections] at hMem
    obtain ⟨connection, hConnection, rfl⟩ := List.mem_map.mp hMem
    exact (hDeliver connection hConnection).1
  · intro received hMem
    rw [hConnections] at hMem
    obtain ⟨connection, hConnection, rfl⟩ := List.mem_map.mp hMem
    obtain ⟨-, hReceived⟩ := hDeliver connection hConnection
    rw [hReceived.socket, hReceived.port]
    exact h.port connection hConnection

/-- Every action keeps the invariant, so it holds in every state that a run reaches. -/
theorem WellFormed.perform (h : WellFormed s) (hEnabled : s.Enabled action) :
    WellFormed (s.perform action) := by
  cases action with
  | accept accepted epollAdded now => exact h.perform_accept hEnabled
  | appPackage socket bytes now => exact h.perform_appPackage socket bytes now
  | mipdPackage mipAddress data => exact h.perform_mipdPackage mipAddress data
  | outgoing written =>
      obtain ⟨hConnections, hPolled⟩ := perform_outgoing s written
      exact h.of_same rfl hPolled hConnections fun _ _ => rfl
  | completes =>
      rcases perform_completes s with
        ⟨hConnections, hPolled⟩ | ⟨before, old, after, hSplit, -, hConnections, hPolled⟩
      · exact h.of_same rfl hPolled hConnections fun _ _ => rfl
      · refine h.remove hSplit hConnections rfl rfl ?_
        split_ifs at hPolled
        · exact Or.inr hPolled
        · exact Or.inl hPolled
  | disconnect socket =>
      obtain ⟨hPolled, ⟨hConnections, -⟩ | ⟨before, old, after, hSplit, -, hConnections⟩⟩ :=
        perform_disconnect s socket
      · exact h.of_same rfl hPolled hConnections fun _ _ => rfl
      · exact h.remove hSplit hConnections rfl rfl (Or.inl hPolled)

/-- Each branch of the loop is an action, or it leaves the connections alone. -/
theorem branch_cases (s : AppSession) (event : MIPTPEvent) :
    (s.server.branch event).server = s.server ∨
      ∃ action, s.server.branch event = s.server.ofController (s.outcome action) := by
  by_cases hMipd : event.fd = s.server.mipdFd
  · rw [MIPTPServer.branch, if_pos hMipd]
    match event.read with
    | none => exact Or.inl rfl
    | some [] => exact Or.inl rfl
    | some (byte :: rest) =>
        simp only [MIPTPServer.mipdBranch]
        cases event.memory _ _ with
        | none => exact Or.inl rfl
        | some data => exact Or.inr ⟨.mipdPackage _ data, rfl⟩
  rw [MIPTPServer.branch, if_neg hMipd]
  by_cases hListening : event.fd = s.server.listeningFd
  · rw [if_pos hListening]
    exact Or.inr ⟨.accept event.accepted event.epollAdded event.now, rfl⟩
  rw [if_neg hListening]
  split_ifs
  · rw [MIPTPServer.appBranch]
    match event.read with
    | none => exact Or.inr ⟨.appPackage event.fd [] event.now, rfl⟩
    | some [] => exact Or.inr ⟨.disconnect event.fd, rfl⟩
    | some (byte :: rest) => exact Or.inr ⟨.appPackage event.fd (byte :: rest) event.now, rfl⟩
  · exact Or.inl rfl
  · exact Or.inl rfl

/-- A sender's package, whatever is written behind it, asks for a job with its data. -/
theorem registration_toBytes (controller : MIPTPAppController) {package : ClientPackage}
    (hType : package.type = .sender) (hPort : package.port ≠ 0)
    (hDestination : package.destination ≠ 0) (rest : List UInt8)
    (hSize : (package.toBytes ++ rest).length ≤ packetBufferSize) (socket now : ℤ) :
    controller.registration socket (MIPTPServer.readBuffer (package.toBytes ++ rest)) now =
      .ok (AppConnection.forSender socket package controller.timeout now) := by
  refine MIPTPAppController.registration_eq_ok_iff.mpr ⟨package, ?_, hPort, hDestination, ?_⟩
  · rw [MIPTPServer.readBuffer_eq hSize, List.append_assoc]
    exact ClientPackage.deserialize_toBytes (Or.inl hType) _
  · rw [hType]
    rfl

/-- The only application there is registers as a sender. -/
theorem perform_register {package : ClientPackage} (hType : package.type = .sender)
    (hPort : package.port ≠ 0) (hDestination : package.destination ≠ 0)
    (hSize : package.toBytes.length ≤ packetBufferSize) {old : AppConnection}
    (hAlone : s.connections = [old]) (now : ℤ) :
    let t := s.perform (.appPackage old.socket package.toBytes now)
    t.connections =
        [AppConnection.forSender old.socket package s.server.appController.timeout now] ∧
      t.registered old.socket = some package.port ∧ t.alive = true := by
  have hRegistration := registration_toBytes s.server.appController hType hPort hDestination
    [] (by rwa [List.append_nil]) old.socket now
  rw [List.append_nil] at hRegistration
  have hKnown : old.socket ∈ s.server.appController.connections.map (·.socket) := by
    rw [show s.server.appController.connections = [old] from hAlone]
    exact List.mem_singleton.mpr rfl
  refine ⟨?_, ?_, ?_⟩
  · simp only [perform, outcome, connections, MIPTPAppController.handleAppPackage_of_known hKnown,
      hRegistration, MIPTPAppController.finish, MIPTPAppController.withConnections]
    rw [show s.server.appController.connections = [old] from hAlone, KeyedList.replace,
      List.eraseP_cons_of_pos (by exact decide_eq_true rfl), List.nil_append]
  · simp only [perform, registeredAfter, hRegistration, Function.update_self]
    rw [MIPTPServer.readBuffer_eq hSize]
    obtain ⟨-, hField, -⟩ := ClientPackage.fields_of_deserialize
      (ClientPackage.deserialize_toBytes (Or.inl hType) _)
    rw [← hField]
  · simp only [perform, outcome, MIPTPAppController.handleAppPackage_of_known hKnown,
      hRegistration, MIPTPAppController.finish]

/-- The invariant holds in every state that is reached. -/
theorem wellFormed_of_trace {setup : AppSetup} {actions : List Action}
    (run : Trace Step (start setup) actions s) : WellFormed s := by
  apply run.invariant (WellFormed.start setup)
  rintro s action _ h ⟨hEnabled, rfl⟩
  exact h.perform hEnabled

/-- miptpd after its only application registered. -/
def afterRegistration (package : ClientPackage) : AppSession :=
  ((start ⟨3, 4, by decide, by decide⟩).perform (.accept 5 true 0)).perform
    (.appPackage 5 package.toBytes 0)

theorem trace_afterRegistration (package : ClientPackage)
    (hSize : package.toBytes.length ≤ packetBufferSize) :
    Trace Step (start ⟨3, 4, by decide, by decide⟩)
      [.accept 5 true 0, .appPackage 5 package.toBytes 0] (afterRegistration package) :=
  Trace.snoc (Trace.snoc (Trace.nil _) ⟨by decide, rfl⟩) ⟨⟨by decide, hSize⟩, rfl⟩

theorem afterRegistration_eq (package : ClientPackage) (hType : package.type = .sender)
    (hPort : package.port ≠ 0) (hDestination : package.destination ≠ 0)
    (hSize : package.toBytes.length ≤ packetBufferSize) :
    (afterRegistration package).connections = [AppConnection.forSender 5 package 0 0] ∧
      (afterRegistration package).registered 5 = some package.port ∧
      (afterRegistration package).alive = true :=
  perform_register hType hPort hDestination hSize
    (s := (start ⟨3, 4, by decide, by decide⟩).perform (.accept 5 true 0))
    (show _ = [AppConnection.unregistered 5] from rfl) 0

end AppSession

end MipStack
