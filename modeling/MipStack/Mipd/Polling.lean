import MipStack.Library.Execution
import MipStack.Library.PollSet
import MipStack.Mipd.Handlers

/-! The descriptors that mipd polls. Each local socket has one place for a connected
client. -/
namespace MipStack
open Execution

/-- The epoll set after an output; closing a descriptor takes it out. -/
def Output.pollAfter (polled : List ℤ) : Output → List ℤ
  | .epollAdd fd => polled ++ [fd]
  | .close fd => polled.erase fd
  | _ => polled

/-- Neither opens nor closes a descriptor. -/
def Output.IsSilent : Output → Prop
  | .epollAdd _ => False
  | .close _ => False
  | _ => True

namespace MIPDServer

/-- The descriptors polled from the start on. -/
def permanentFds (server : MIPDServer) : List ℤ :=
  0 :: server.appSocket.listeningSocketFd :: server.routeSocket.listeningSocketFd ::
    server.forwardSocket.listeningSocketFd ::
      server.iTable.interfaces.map InterfaceRecord.rawSocket

/-- The client of a local socket; -1 stands for none. -/
def client (socket : LocalSocket) : List ℤ :=
  if socket.connectedSocketFd = -1 then [] else [socket.connectedSocketFd]

/-- The descriptors that the branches of the loop compare with. -/
def knownFds (server : MIPDServer) : List ℤ :=
  server.permanentFds ++
    (client server.appSocket ++ client server.routeSocket ++ client server.forwardSocket)

/-- The sockets are those from before and no descriptor is opened or closed. -/
structure KeepsSockets (server : MIPDServer) (o : Outcome) : Prop where
  appSocket : o.server.appSocket = server.appSocket
  routeSocket : o.server.routeSocket = server.routeSocket
  forwardSocket : o.server.forwardSocket = server.forwardSocket
  iTable : o.server.iTable = server.iTable
  silent : ∀ output ∈ o.outputs, output.IsSilent

variable {server : MIPDServer} {event : Event} {env : Env}

theorem keepsSockets_halt (halt : Halt) : KeepsSockets server (server.halt halt) :=
  ⟨rfl, rfl, rfl, rfl, by simp [MIPDServer.halt]⟩

theorem keepsSockets_finish {rc : ℤ} {outputs : List Output}
    (hSilent : ∀ output ∈ outputs, output.IsSilent) :
    KeepsSockets server (server.finish rc outputs) :=
  ⟨rfl, rfl, rfl, rfl, hSilent⟩

/-- A request is written to routerd and opens nothing. -/
theorem requestForwarding_keepsSockets (destination : MIPAddress) (package : MIPPackage) :
    KeepsSockets server (server.requestForwarding destination package env) := by
  unfold requestForwarding
  split_ifs
  · exact ⟨rfl, rfl, rfl, rfl, by simp [finish, Output.IsSilent]⟩
  · exact keepsSockets_finish (by simp)

theorem recvRouteTableBroadcast_keepsSockets (package : MIPPackage) :
    KeepsSockets server (server.recvRouteTableBroadcast package) := by
  unfold recvRouteTableBroadcast
  split_ifs
  · exact keepsSockets_finish (by simp)
  · exact keepsSockets_finish (by simp [Output.IsSilent])

theorem handleMIPPackageForApplication_keepsSockets (received : MIPPackage) :
    KeepsSockets server (server.handleMIPPackageForApplication received) := by
  unfold handleMIPPackageForApplication
  split_ifs
  · exact keepsSockets_finish (by simp)
  · split
    · exact keepsSockets_halt _
    · split
      · exact keepsSockets_halt _
      · exact keepsSockets_finish (by simp [Output.IsSilent])

/-- Whatever a frame carries, only applications and routerd can open or close a connection. -/
theorem handleReceivedPackage_keepsSockets (fd : ℤ) (record : InterfaceRecord)
    (received : MIPPackage) :
    KeepsSockets server (server.handleReceivedPackage fd record received env) := by
  unfold handleReceivedPackage
  split_ifs
  · split
    · exact keepsSockets_halt _
    · exact ⟨rfl, rfl, rfl, rfl, by simp [finish]⟩
  · split
    · exact keepsSockets_halt _
    · rename_i cache outputs hHandled
      obtain ⟨response, rfl, -⟩ := handleMipArpRequest_outputs hHandled
      exact ⟨rfl, rfl, rfl, rfl, by simp [finish, Output.IsSilent]⟩
  · exact recvRouteTableBroadcast_keepsSockets received
  · exact handleMIPPackageForApplication_keepsSockets received
  · exact keepsSockets_finish (by simp)
  · exact requestForwarding_keepsSockets _ _
  · exact keepsSockets_finish (by simp)

theorem handleRawSocketFrame_keepsSockets (fd : ℤ) (frame : List UInt8) :
    KeepsSockets server (server.handleRawSocketFrame fd frame env) := by
  unfold handleRawSocketFrame
  split
  · exact handleReceivedPackage_keepsSockets _ _ _
  · exact keepsSockets_halt _

/-- A message of the application is sent or queued and closes nothing. -/
theorem handleApplicationMessage_keepsSockets (message : MIPDMessage) :
    KeepsSockets server (server.handleApplicationMessage message env) := by
  have hNeighbour : KeepsSockets server (server.handleDomainSocketRequest message) := by
    unfold handleDomainSocketRequest
    simp only
    split_ifs
    · exact keepsSockets_finish (by simp)
    · split
      · split
        · exact keepsSockets_halt _
        · exact keepsSockets_finish (by simp [Output.IsSilent])
      · exact keepsSockets_halt _
  unfold handleApplicationMessage
  simp only
  split
  · split
    · exact keepsSockets_halt _
    · exact requestForwarding_keepsSockets _ _
  · exact hNeighbour

theorem handleForwardResponse_keepsSockets (nextHop : MIPAddress) :
    KeepsSockets server (server.handleForwardResponse nextHop) := by
  unfold handleForwardResponse
  simp only
  split
  · exact ⟨rfl, rfl, rfl, rfl, by simp [halt]⟩
  · exact ⟨rfl, rfl, rfl, rfl, by simp [finish, Output.IsSilent]⟩

/-- A connection is closed only where nothing was read from it. -/
theorem routeBranch_keepsSockets (hData : event.data ≠ []) :
    KeepsSockets server (server.routeBranch event env) := by
  unfold routeBranch
  rw [if_neg hData]
  split
  · exact keepsSockets_halt _
  · rename_i outputs hBroadcast
    apply keepsSockets_finish
    intro output hMem
    obtain ⟨record, -, hFrame⟩ := mem_broadcastRouteTable hBroadcast hMem
    obtain ⟨-, package, -, rfl, -⟩ := broadcastOnInterface_eq_ok hFrame
    trivial

theorem forwardBranch_keepsSockets (hData : event.data ≠ []) :
    KeepsSockets server (server.forwardBranch event) := by
  unfold forwardBranch
  split
  · exact absurd ‹_› hData
  · split_ifs
    · exact handleForwardResponse_keepsSockets _
    · split
      · exact keepsSockets_halt _
      · exact ⟨rfl, rfl, rfl, rfl, by simp [finish]⟩

theorem take_eq_nil_iff (data : List UInt8) : data.take maxMipMessageDataSize = [] ↔ data = [] := by
  simp [maxMipMessageDataSize]

theorem appBranch_keepsSockets (hData : event.data ≠ []) :
    KeepsSockets server (server.appBranch event env) := by
  unfold appBranch
  simp only
  rw [if_neg (mt (take_eq_nil_iff event.data).mp hData)]
  split_ifs
  · exact keepsSockets_finish (by simp)
  · split
    · exact keepsSockets_halt _
    · exact handleApplicationMessage_keepsSockets _

/-- A client that is accepted takes the place of the one before. -/
def acceptChange (socket : LocalSocket) (event : Event) : PollSet.Change ℤ :=
  if event.accepted = -1 then .none else ⟨[event.accepted], [], client socket⟩

def clientChange (event : Event) : PollSet.Change ℤ :=
  if event.data = [] then ⟨[], [event.fd], []⟩ else .none

/-- What an event does to the descriptors. -/
def pollChange (server : MIPDServer) (event : Event) : PollSet.Change ℤ :=
  match server.source event.fd with
  | .appListening => acceptChange server.appSocket event
  | .routeListening => acceptChange server.routeSocket event
  | .forwardListening => acceptChange server.forwardSocket event
  | .routeConnection => clientChange event
  | .forwardConnection => clientChange event
  | .appConnection => clientChange event
  | _ => .none

theorem client_of_connected {listening fd : ℤ} (h : fd ≠ -1) : client ⟨listening, fd⟩ = [fd] :=
  if_neg h

/-! Another client of one socket, or none, in place of the one before. -/

/-- The new client of a local socket takes the place of the old one, which is then unknown. It is
not closed. -/
theorem perm_connectApp (server : MIPDServer) (fd : ℤ) :
    ((server.connectApp fd).knownFds ++ client server.appSocket).Perm
      (server.knownFds ++ client ⟨server.appSocket.listeningSocketFd, fd⟩) := by
  simp only [knownFds, permanentFds, connectApp, List.perm_iff_count, List.count_append]
  intro other
  omega

theorem perm_connectRoute (server : MIPDServer) (fd : ℤ) :
    ((server.connectRoute fd).knownFds ++ client server.routeSocket).Perm
      (server.knownFds ++ client ⟨server.routeSocket.listeningSocketFd, fd⟩) := by
  simp only [knownFds, permanentFds, connectRoute, List.perm_iff_count, List.count_append]
  intro other
  omega

theorem perm_connectForward (server : MIPDServer) (fd : ℤ) :
    ((server.connectForward fd).knownFds ++ client server.forwardSocket).Perm
      (server.knownFds ++ client ⟨server.forwardSocket.listeningSocketFd, fd⟩) := by
  simp only [knownFds, permanentFds, connectForward, List.perm_iff_count, List.count_append]
  intro other
  omega

/-- The branch of a connection is chosen by its descriptor. -/
theorem fd_eq_of_source (server : MIPDServer) (fd : ℤ) :
    (server.source fd = .routeConnection → server.routeSocket.connectedSocketFd = fd) ∧
    (server.source fd = .forwardConnection → server.forwardSocket.connectedSocketFd = fd) ∧
    (server.source fd = .appConnection → server.appSocket.connectedSocketFd = fd) := by
  unfold source
  split_ifs <;> simp_all

/-- A descriptor belongs to a branch of the loop exactly if the server knows it, so an event on
any other one is never consumed. -/
theorem source_ne_unknown_iff (server : MIPDServer) (fd : ℤ) (hFd : fd ≠ -1) :
    server.source fd ≠ .unknown ↔ fd ∈ server.knownFds := by
  have hClient : ∀ socket : LocalSocket, fd ∈ client socket ↔ fd = socket.connectedSocketFd := by
    intro socket
    unfold client
    split_ifs with hNone
    · simp [hNone, hFd]
    · exact List.mem_singleton
  have hRaw : server.iTable.isSocketInTable fd ↔
      fd ∈ server.iTable.interfaces.map InterfaceRecord.rawSocket := by
    rw [InterfaceTable.isSocketInTable_iff, List.mem_map]
  simp only [knownFds, permanentFds, List.mem_append, List.mem_cons, hClient, ← hRaw]
  unfold source
  split_ifs <;> simp_all

end MIPDServer

/-- The sockets of mipd when its loop begins: the descriptors are those of different
files. -/
structure PollingSetup where
  appFd : ℤ
  routeFd : ℤ
  forwardFd : ℤ
  iTable : InterfaceTable
  cacheUpdateFreqMilli : ℤ
  now : ℤ
  nodup : (0 :: appFd :: routeFd :: forwardFd ::
    iTable.interfaces.map InterfaceRecord.rawSocket).Nodup
  nonneg : ∀ fd ∈ appFd :: routeFd :: forwardFd ::
    iTable.interfaces.map InterfaceRecord.rawSocket, 0 ≤ fd

/-- `polled` are the descriptors in the epoll set, `running` tells if the loop of
`MIPDServer_run` goes on. -/
structure Polling where
  server : MIPDServer
  polled : List ℤ
  running : Bool

namespace Polling

def start (setup : PollingSetup) : Polling :=
  let server := ((MIPDServer.create ⟨setup.appFd, -1⟩ ⟨setup.routeFd, -1⟩ ⟨setup.forwardFd, -1⟩
    setup.iTable setup.cacheUpdateFreqMilli).startRun setup.now).1
  { server, polled := server.permanentFds, running := true }

inductive Action where
  | handle (event : Event) (env : Env)
  | tick (clock : Clock)

def perform (s : Polling) : Action → Polling
  | .handle event env =>
    let outcome := s.server.branch event env
    { server := outcome.server
      polled := outcome.outputs.foldl Output.pollAfter s.polled
      running := outcome.continues }
  | .tick clock => { s with server := (s.server.tick clock).1 }

/-- An event is about a descriptor that is polled. A descriptor that is accepted was
not open before. -/
def Enabled (s : Polling) : Action → Prop
  | .handle event _ => s.running ∧ event.fd ∈ s.polled ∧
      (event.accepted = -1 ∨ 0 ≤ event.accepted ∧ event.accepted ∉ s.polled)
  | .tick _ => s.running

instance (s : Polling) (action : Action) : Decidable (s.Enabled action) :=
  match action with
  | .handle _ _ => inferInstanceAs (Decidable (_ ∧ _ ∧ _))
  | .tick _ => inferInstanceAs (Decidable (_ = true))

def Step (s : Polling) (action : Action) (t : Polling) : Prop :=
  s.Enabled action ∧ t = s.perform action

/-- Every descriptor that is polled has a branch in the loop. -/
def ConsumesEvents (s : Polling) : Prop :=
  ∀ fd ∈ s.polled, fd ∈ s.server.knownFds ∧ s.server.source fd ≠ .unknown

/-- A client is accepted only by a local socket that has none. -/
def AcceptsWhenFree (s : Polling) : Action → Prop
  | .handle event _ => event.accepted ≠ -1 →
      match s.server.source event.fd with
      | .appListening => s.server.appSocket.connectedSocketFd = -1
      | .routeListening => s.server.routeSocket.connectedSocketFd = -1
      | .forwardListening => s.server.forwardSocket.connectedSocketFd = -1
      | _ => True
  | .tick _ => True

/-- The descriptors that are polled and those that are known. -/
def pollSet (s : Polling) : PollSet.State ℤ :=
  { polled := s.polled, known := s.server.knownFds }

/-- What an action does to the descriptors. -/
def pollChange (s : Polling) : Action → PollSet.Change ℤ
  | .handle event _ => s.server.pollChange event
  | .tick _ => .none

/-- The invariant of runs in which no client takes the place of another one. -/
structure Consistent (s : Polling) : Prop where
  mirrors : PollSet.Mirrors s.pollSet
  nonneg : ∀ fd ∈ s.polled, 0 ≤ fd

variable {s t : Polling} {action : Action} {event : Event} {env : Env}

theorem Consistent.start (setup : PollingSetup) : Consistent (start setup) := by
  have hKnown : (Polling.start setup).server.knownFds = (Polling.start setup).polled :=
    List.append_nil _
  refine ⟨⟨?_, setup.nodup⟩, ?_⟩
  · simp only [pollSet, hKnown]
    exact List.Perm.refl _
  · intro fd hMem
    rcases List.mem_cons.mp hMem with rfl | hMem
    · exact le_refl 0
    · exact setup.nonneg fd hMem

/-- What is not opened or closed stays in the epoll set. -/
theorem foldl_pollAfter_of_silent {outputs : List Output} {polled : List ℤ}
    (hSilent : ∀ output ∈ outputs, output.IsSilent) :
    outputs.foldl Output.pollAfter polled = polled := by
  induction outputs with
  | nil => rfl
  | cons output rest ih =>
      have hFirst : output.pollAfter polled = polled := by
        have hOutput := hSilent output List.mem_cons_self
        cases output with
        | epollAdd fd => exact hOutput.elim
        | close fd => exact hOutput.elim
        | sendto socket package => rfl
        | writeForward destination package => rfl
        | writeRoute bytes => rfl
        | sendApp bytes => rfl
      rw [List.foldl_cons, hFirst]
      exact ih fun output hMem => hSilent output (List.mem_cons_of_mem _ hMem)

/-- A branch that keeps the sockets changes neither the known descriptors nor those that are
polled. -/
theorem handle_keeps (hKeeps : s.server.KeepsSockets (s.server.branch event env)) :
    PollSet.Step s.pollSet .none (s.perform (.handle event env)).pollSet := by
  apply PollSet.Step.unchanged
  · exact foldl_pollAfter_of_silent hKeeps.silent
  · simp only [pollSet, perform, MIPDServer.knownFds, MIPDServer.permanentFds, hKeeps.appSocket,
      hKeeps.routeSocket, hKeeps.forwardSocket, hKeeps.iTable]

/-- A client that is accepted is polled and known. If there was one before, it is polled on but
not known. -/
theorem handle_accept (connect : ℤ → MIPDServer) {socket : LocalSocket}
    (hBranch : s.server.branch event env = s.server.acceptOn event connect)
    (hKnown : ∀ fd, ((connect fd).knownFds ++ MIPDServer.client socket).Perm
      (s.server.knownFds ++ MIPDServer.client ⟨socket.listeningSocketFd, fd⟩)) :
    PollSet.Step s.pollSet (MIPDServer.acceptChange socket event)
      (s.perform (.handle event env)).pollSet := by
  rw [MIPDServer.acceptChange]
  split_ifs with hRefused
  · apply handle_keeps
    rw [hBranch, MIPDServer.acceptOn, if_pos hRefused]
    exact MIPDServer.keepsSockets_halt _
  · rw [MIPDServer.acceptOn, if_neg hRefused] at hBranch
    have hAccepted := hKnown event.accepted
    rw [MIPDServer.client_of_connected hRefused] at hAccepted
    constructor
    · simp [pollSet, perform, hBranch, MIPDServer.finish, Output.pollAfter]
    · simpa [pollSet, perform, hBranch, MIPDServer.finish] using hAccepted

/-- A client that leaves is no longer polled and its place is free. -/
theorem handle_client (connect : ℤ → MIPDServer) {socket : LocalSocket}
    (hPolled : event.fd ∈ s.polled) (hFd : event.fd ≠ -1)
    (hClient : socket.connectedSocketFd = event.fd)
    (hLeaves : event.data = [] →
      s.server.branch event env = (connect (-1)).finish 0 [.close event.fd])
    (hStays : event.data ≠ [] → s.server.KeepsSockets (s.server.branch event env))
    (hKnown : ∀ fd, ((connect fd).knownFds ++ MIPDServer.client socket).Perm
      (s.server.knownFds ++ MIPDServer.client ⟨socket.listeningSocketFd, fd⟩)) :
    PollSet.Step s.pollSet (MIPDServer.clientChange event)
      (s.perform (.handle event env)).pollSet := by
  rw [MIPDServer.clientChange]
  split_ifs with hData
  · have hFree := hKnown (-1)
    have hNone : MIPDServer.client ⟨socket.listeningSocketFd, -1⟩ = [] := if_pos rfl
    have hOne : MIPDServer.client socket = [event.fd] := by
      rw [← hClient]
      exact MIPDServer.client_of_connected (hClient ▸ hFd)
    rw [hNone, hOne] at hFree
    constructor
    · simp only [pollSet, perform, hLeaves hData, MIPDServer.finish, List.foldl_cons,
        List.foldl_nil, Output.pollAfter, List.append_nil]
      exact (List.perm_append_singleton _ _).trans (List.perm_cons_erase hPolled).symm
    · simpa [pollSet, perform, hLeaves hData, MIPDServer.finish] using hFree
  · exact handle_keeps (hStays hData)

/-- What a step does to the epoll set and to the known descriptors, branch by branch of the loop.
All that is shown of runs follows from the lemmas about poll sets. -/
theorem perform_pollSet (hEnabled : s.Enabled action) (h : Consistent s) :
    PollSet.Step s.pollSet (s.pollChange action) (s.perform action).pollSet := by
  cases action with
  | tick clock => exact PollSet.Step.unchanged rfl rfl
  | handle event env =>
      obtain ⟨-, hPolled, -⟩ := hEnabled
      have hFd : event.fd ≠ -1 := by
        have hNonneg := h.nonneg event.fd hPolled
        omega
      obtain ⟨hRoute, hForward, hApp⟩ := s.server.fd_eq_of_source event.fd
      simp only [pollChange, MIPDServer.pollChange]
      cases hSource : s.server.source event.fd with
      | appListening =>
          apply handle_accept s.server.connectApp
          · simp only [MIPDServer.branch, hSource]
          · exact s.server.perm_connectApp
      | routeListening =>
          apply handle_accept s.server.connectRoute
          · simp only [MIPDServer.branch, hSource]
          · exact s.server.perm_connectRoute
      | forwardListening =>
          apply handle_accept s.server.connectForward
          · simp only [MIPDServer.branch, hSource]
          · exact s.server.perm_connectForward
      | routeConnection =>
          apply handle_client s.server.connectRoute hPolled hFd (hRoute hSource)
          · intro hData
            simp only [MIPDServer.branch, hSource, MIPDServer.routeBranch, if_pos hData]
          · intro hData
            simp only [MIPDServer.branch, hSource]
            exact MIPDServer.routeBranch_keepsSockets hData
          · exact s.server.perm_connectRoute
      | forwardConnection =>
          apply handle_client s.server.connectForward hPolled hFd (hForward hSource)
          · intro hData
            simp only [MIPDServer.branch, hSource, MIPDServer.forwardBranch, hData]
          · intro hData
            simp only [MIPDServer.branch, hSource]
            exact MIPDServer.forwardBranch_keepsSockets hData
          · exact s.server.perm_connectForward
      | rawSocket =>
          apply handle_keeps
          simp only [MIPDServer.branch, hSource]
          exact MIPDServer.handleRawSocketFrame_keepsSockets _ _
      | appConnection =>
          apply handle_client s.server.connectApp hPolled hFd (hApp hSource)
          · intro hData
            simp only [MIPDServer.branch, hSource, MIPDServer.appBranch, hData, List.take_nil,
              if_pos]
          · intro hData
            simp only [MIPDServer.branch, hSource]
            exact MIPDServer.appBranch_keepsSockets hData
          · exact s.server.perm_connectApp
      | stdin =>
          apply handle_keeps
          simp only [MIPDServer.branch, hSource]
          exact ⟨rfl, rfl, rfl, rfl, by simp [MIPDServer.finish]⟩
      | unknown =>
          apply handle_keeps
          simp only [MIPDServer.branch, hSource]
          exact MIPDServer.keepsSockets_finish (by simp)

/-- A step opens at most the descriptor that `accept` returned. -/
theorem opened_pollChange (server : MIPDServer) (event : Event) :
    (server.pollChange event).opened = [] ∨
      event.accepted ≠ -1 ∧ (server.pollChange event).opened = [event.accepted] := by
  have hAccept : ∀ socket, (MIPDServer.acceptChange socket event).opened = [] ∨
      event.accepted ≠ -1 ∧
        (MIPDServer.acceptChange socket event).opened = [event.accepted] := by
    intro socket
    rw [MIPDServer.acceptChange]
    split_ifs with hRefused
    · exact Or.inl rfl
    · exact Or.inr ⟨hRefused, rfl⟩
  have hClient : (MIPDServer.clientChange event).opened = [] := by
    rw [MIPDServer.clientChange]
    split_ifs
    · rfl
    · rfl
  rw [MIPDServer.pollChange]
  cases server.source event.fd with
  | appListening => exact hAccept _
  | routeListening => exact hAccept _
  | forwardListening => exact hAccept _
  | routeConnection => exact Or.inl hClient
  | forwardConnection => exact Or.inl hClient
  | rawSocket => exact Or.inl rfl
  | appConnection => exact Or.inl hClient
  | stdin => exact Or.inl rfl
  | unknown => exact Or.inl rfl

/-- No descriptor is opened that is open. The kernel returns one that is not in use. -/
theorem fresh_pollChange (hEnabled : s.Enabled action) (h : Consistent s) :
    (s.polled ++ (s.pollChange action).opened).Nodup ∧
      ∀ fd ∈ s.polled ++ (s.pollChange action).opened, 0 ≤ fd := by
  have hNone : (s.pollChange action).opened = [] →
      (s.polled ++ (s.pollChange action).opened).Nodup ∧
        ∀ fd ∈ s.polled ++ (s.pollChange action).opened, 0 ≤ fd := by
    intro hNone
    rw [hNone, List.append_nil]
    exact ⟨h.mirrors.nodup, h.nonneg⟩
  cases action with
  | tick clock => exact hNone rfl
  | handle event env =>
      rcases opened_pollChange s.server event with hOpened | ⟨hAccepted, hOpened⟩
      · exact hNone hOpened
      · obtain ⟨hNonneg, hFresh⟩ := hEnabled.2.2.resolve_left hAccepted
        rw [pollChange, hOpened]
        constructor
        · rw [← List.concat_eq_append]
          exact List.Nodup.concat hFresh h.mirrors.nodup
        · intro fd hMem
          rcases List.mem_append.mp hMem with hMem | hMem
          · exact h.nonneg fd hMem
          · exact List.mem_singleton.mp hMem ▸ hNonneg

/-- A client is forgotten exactly if another one takes its place. -/
theorem forgotten_eq_nil_iff (s : Polling) (action : Action) :
    (s.pollChange action).forgotten = [] ↔ s.AcceptsWhenFree action := by
  cases action with
  | tick clock => exact iff_of_true rfl trivial
  | handle event env =>
      have hAccept : ∀ socket, (MIPDServer.acceptChange socket event).forgotten = [] ↔
          (event.accepted ≠ -1 → socket.connectedSocketFd = -1) := by
        intro socket
        rw [MIPDServer.acceptChange]
        split_ifs with hRefused
        · exact iff_of_true rfl (absurd hRefused ·)
        · simp [MIPDServer.client, hRefused]
      have hClient : (MIPDServer.clientChange event).forgotten = [] := by
        rw [MIPDServer.clientChange]
        split_ifs
        · rfl
        · rfl
      simp only [pollChange, MIPDServer.pollChange, AcceptsWhenFree]
      cases s.server.source event.fd with
      | appListening => exact hAccept _
      | routeListening => exact hAccept _
      | forwardListening => exact hAccept _
      | routeConnection => exact iff_of_true hClient fun _ => trivial
      | forwardConnection => exact iff_of_true hClient fun _ => trivial
      | rawSocket => exact iff_of_true rfl fun _ => trivial
      | appConnection => exact iff_of_true hClient fun _ => trivial
      | stdin => exact iff_of_true rfl fun _ => trivial
      | unknown => exact iff_of_true rfl fun _ => trivial

/-- Descriptors are never negative, and so never the -1 of a socket without a client. -/
theorem nonneg_perform (hEnabled : s.Enabled action) (h : Consistent s) :
    ∀ fd ∈ (s.perform action).polled, 0 ≤ fd := by
  intro fd hMem
  have hPerm := (perform_pollSet hEnabled h).polled
  exact (fresh_pollChange hEnabled h).2 fd (hPerm.subset (List.mem_append_left _ hMem))

/-- A step leaves every descriptor with a branch exactly if no client is forgotten. -/
theorem consumesEvents_perform_iff (hEnabled : s.Enabled action) (h : Consistent s) :
    (s.perform action).ConsumesEvents ↔ s.AcceptsWhenFree action := by
  have hStep := perform_pollSet hEnabled h
  have hFresh := (fresh_pollChange hEnabled h).1
  rw [← forgotten_eq_nil_iff, ← hStep.subset_iff h.mirrors hFresh]
  constructor
  · intro hConsumes fd hMem
    exact (hConsumes fd hMem).1
  · intro hSubset fd hMem
    have hFd : fd ≠ -1 := by
      have hNonneg := nonneg_perform hEnabled h fd hMem
      omega
    exact ⟨hSubset hMem, ((s.perform action).server.source_ne_unknown_iff fd hFd).mpr
      (hSubset hMem)⟩

/-- The invariant is kept as long as a client is accepted only where there is none. -/
theorem Consistent.perform (hEnabled : s.Enabled action) (h : Consistent s)
    (hFree : s.AcceptsWhenFree action) : Consistent (s.perform action) :=
  ⟨(perform_pollSet hEnabled h).mirrors h.mirrors (fresh_pollChange hEnabled h).1
    ((forgotten_eq_nil_iff s action).mpr hFree), nonneg_perform hEnabled h⟩

/-- In the runs in which all polled descriptors always have a branch no client is
accepted by a socket that has one, and these are all such runs. -/
theorem consumes_events_iff (setup : PollingSetup) (actions : List Action) (t : Polling) :
    Trace (Guarded Step fun _ _ t => t.ConsumesEvents) (start setup) actions t ↔
      Trace (Guarded Step fun s action _ => s.AcceptsWhenFree action) (start setup) actions t := by
  apply Trace.guarded_iff (Consistent.start setup)
  · rintro s action _ h ⟨hEnabled, rfl⟩ hFree
    exact h.perform hEnabled hFree
  · rintro s action _ h ⟨hEnabled, rfl⟩
    exact consumesEvents_perform_iff hEnabled h

/-- When a second application connects, the first one is still polled and no branch reads from it:
its events come back in every round. -/
theorem second_client_orphans_first :
    let setup : PollingSetup := ⟨3, 4, 5, ⟨[]⟩, 10000, 0, by decide, by decide⟩
    let env : Env := ⟨fun _ => 0, fun _ => Vector.replicate 8 0, fun _ => 0, true⟩
    let actions : List Action := [.handle ⟨3, [], 6⟩ env, .handle ⟨3, [], 7⟩ env]
    ∃ t, Trace Step (start setup) actions t ∧ 6 ∈ t.polled ∧ t.server.source 6 = .unknown := by
  intro setup env actions
  have hRuns : Runs Enabled perform (start setup) actions := by decide
  exact ⟨_, hRuns.trace, by decide, by decide⟩

end Polling

end MipStack
