import MipStack.Mipd.Handlers
import MipStack.Library.Execution
import MipStack.Library.Pipeline

/-! mipd beside a routerd that answers its requests one byte each, in order, and
that may leave and come back. -/
namespace MipStack
open Execution

/-- The connection for forwarding that mipd accepted last. Answers that mipd did
not read yet stand beside the request they were given for. When routerd closes
the connection, its requests and answers are lost. -/
structure ForwardConnection where
  requests : List ForwardRequest
  answers : List (MIPAddress × ForwardRequest)
  closed : Bool

namespace ForwardConnection

def new : ForwardConnection := { requests := [], answers := [], closed := false }

/-- The requests mipd has read no answer for, oldest first. -/
def unanswered (connection : ForwardConnection) : List ForwardRequest :=
  connection.answers.map Prod.snd ++ connection.requests

/-- What reading returns: the oldest answer, and nothing after the connection
was closed. -/
def Reads (connection : ForwardConnection) (data : List UInt8) : Prop :=
  data = [] ∧ connection.closed = true ∨
    connection.closed = false ∧ ∃ answer ∈ connection.answers.head?, data = [answer.1]

instance (connection : ForwardConnection) (data : List UInt8) :
    Decidable (connection.Reads data) :=
  inferInstanceAs (Decidable (_ ∨ _ ∧ ∃ answer ∈ connection.answers.head?, data = [answer.1]))

end ForwardConnection

/-- `running` tells if the loop of `MIPDServer_run` goes on. -/
structure Daemon where
  server : MIPDServer
  connection : ForwardConnection
  running : Bool

namespace Daemon

/-- mipd as it enters the loop, with an empty cache and an empty queue. -/
def start (appSocket routeSocket forwardSocket : LocalSocket) (iTable : InterfaceTable)
    (cacheUpdateFreqMilli now : ℤ) : Daemon :=
  { server := ((MIPDServer.create appSocket routeSocket forwardSocket iTable
      cacheUpdateFreqMilli).startRun now).1
    connection := ForwardConnection.new
    running := true }

/-- One event in the loop of mipd. Accepting a connection for forwarding, or
reading the end of the one there is, leaves no request unanswered. -/
def handle (s : Daemon) (event : Event) (env : Env) : Daemon :=
  let outcome := s.server.branch event env
  { server := outcome.server
    connection :=
      match s.server.source event.fd with
      | .forwardConnection =>
        if event.data = [] then ForwardConnection.new
        else { s.connection with answers := s.connection.answers.tail }
      | .forwardListening =>
        if event.accepted = -1 then s.connection else ForwardConnection.new
      | _ => { s.connection with requests := s.connection.requests ++ outcome.requests }
    running := outcome.continues }

inductive Action where
  | handle (event : Event) (env : Env)
  | tick (clock : Clock)
  /-- routerd answers its oldest request. -/
  | answer (nextHop : MIPAddress)
  | disconnect

def perform (s : Daemon) : Action → Daemon
  | .handle event env => s.handle event env
  | .tick clock => { s with server := (s.server.tick clock).1 }
  | .answer nextHop =>
    match s.connection.requests with
    | [] => s
    | request :: rest => { s with connection := { s.connection with
        requests := rest
        answers := s.connection.answers ++ [(nextHop, request)] } }
  | .disconnect => { s with connection := { s.connection with closed := true } }

/-- When an action can happen. Writing a request fails exactly if there is no
connection or routerd closed it. -/
def Enabled (s : Daemon) : Action → Prop
  | .handle event env => s.running ∧
      (s.server.source event.fd = .forwardConnection → s.connection.Reads event.data) ∧
      env.forwardWritten = !s.connection.closed
  | .tick _ => s.running
  | .answer _ => s.connection.closed = false ∧ s.connection.requests ≠ []
  | .disconnect => True

instance (s : Daemon) (action : Action) : Decidable (s.Enabled action) :=
  match action with
  | .handle _ _ => inferInstanceAs (Decidable (_ ∧ _ ∧ _))
  | .tick _ => inferInstanceAs (Decidable (_ = true))
  | .answer _ => inferInstanceAs (Decidable (_ ∧ _))
  | .disconnect => isTrue trivial

/-- The actions of mipd and of routerd in any order. -/
def Step (s : Daemon) (action : Action) (t : Daemon) : Prop :=
  s.Enabled action ∧ t = s.perform action

/-- An event that ends the connection for forwarding, or replaces it. -/
def EndsConnection (s : Daemon) : Action → Prop
  | .handle event _ => s.server.source event.fd = .forwardConnection ∧ event.data = [] ∨
      s.server.source event.fd = .forwardListening ∧ event.accepted ≠ -1
  | _ => False

variable {s t : Daemon} {action : Action} {event : Event} {env : Env}

/-- Reading the end of the connection starts a new list of requests and leaves the queue as it
is. -/
theorem handle_end (hSource : s.server.source event.fd = .forwardConnection)
    (hData : event.data = []) :
    (s.handle event env).server.forwardQueue = s.server.forwardQueue ∧
      (s.handle event env).connection = ForwardConnection.new := by
  simp [handle, MIPDServer.branch, hSource, MIPDServer.forwardBranch, hData, MIPDServer.finish,
    MIPDServer.connectForward]

/-- So does accepting a new connection, also while there is an old one. -/
theorem handle_accept (hSource : s.server.source event.fd = .forwardListening)
    (hAccepted : event.accepted ≠ -1) :
    (s.handle event env).server.forwardQueue = s.server.forwardQueue ∧
      (s.handle event env).connection = ForwardConnection.new := by
  simp [handle, MIPDServer.branch, hSource, MIPDServer.acceptOn, hAccepted, MIPDServer.finish,
    MIPDServer.connectForward]

/-- When the connection for forwarding ends its requests are forgotten, but their packages stay in
the queue. -/
theorem queued_of_ends (hEnds : s.EndsConnection action) :
    (s.perform action).server.forwardQueue = s.server.forwardQueue ∧
      (s.perform action).connection = ForwardConnection.new := by
  cases action with
  | handle event env =>
      rcases hEnds with ⟨hSource, hData⟩ | ⟨hSource, hAccepted⟩
      · exact handle_end hSource hData
      · exact handle_accept hSource hAccepted
  | tick clock => exact hEnds.elim
  | answer nextHop => exact hEnds.elim
  | disconnect => exact hEnds.elim

/-- An answer waits in the connection until mipd reads it. -/
theorem perform_answer (s : Daemon) (nextHop : MIPAddress) :
    (s.perform (.answer nextHop)).server = s.server ∧
      (s.perform (.answer nextHop)).running = s.running := by
  unfold perform
  cases s.connection.requests with
  | nil => exact ⟨rfl, rfl⟩
  | cons request rest => exact ⟨rfl, rfl⟩

/-- The packages in the forward queue wait for the answers to the requests that
mipd has read none for. -/
def pipeline (s : Daemon) : Pipeline.State MIPPackage ForwardRequest :=
  { waiting := s.server.queued
    unanswered := s.connection.unanswered }

/-- What an action does to the pipeline. -/
def pipelineLabel (s : Daemon) : Action → Pipeline.Label ForwardRequest
  | .handle event env =>
    match s.server.source event.fd with
    | .forwardConnection => if event.data = [] then .reconnect else .answer
    | .forwardListening => if event.accepted = -1 then .ask [] else .reconnect
    | _ => .ask (s.server.branch event env).requests
  | _ => .ask []

/-- The pipeline of requests starts anew exactly where the connection ends or is replaced. -/
theorem pipelineLabel_eq_reconnect_iff (s : Daemon) (action : Action) :
    s.pipelineLabel action = .reconnect ↔ s.EndsConnection action := by
  cases action with
  | handle event env =>
      simp only [pipelineLabel, EndsConnection]
      cases s.server.source event.fd <;> simp
  | tick clock => simp [pipelineLabel, EndsConnection]
  | answer nextHop => simp [pipelineLabel, EndsConnection]
  | disconnect => simp [pipelineLabel, EndsConnection]

/-- An event that is not about the connection for forwarding asks what its branch
writes. -/
theorem pipelineLabel_handle (hForward : s.server.source event.fd ≠ .forwardConnection)
    (hListening : s.server.source event.fd ≠ .forwardListening) :
    s.pipelineLabel (.handle event env) = .ask (s.server.branch event env).requests := by
  simp only [pipelineLabel]

/-- A request is written for the destination of its package. -/
theorem pipelineLabel_asks (s : Daemon) (action : Action) :
    (s.pipelineLabel action).Asks
      fun request => request.destination = request.package.mHeader.dstAddr := by
  cases action with
  | handle event env =>
      by_cases hForward : s.server.source event.fd = .forwardConnection
      · simp only [pipelineLabel, hForward]
        split <;> trivial
      by_cases hListening : s.server.source event.fd = .forwardListening
      · simp only [pipelineLabel, hListening]
        split
        · exact fun request hMem => absurd hMem List.not_mem_nil
        · trivial
      · rw [pipelineLabel_handle hForward hListening]
        have hEmits := MIPDServer.branch_emits env hForward
        exact fun request hMem => (hEmits.requests request hMem).1
  | tick clock => exact fun request hMem => absurd hMem List.not_mem_nil
  | answer nextHop => exact fun request hMem => absurd hMem List.not_mem_nil
  | disconnect => exact fun request hMem => absurd hMem List.not_mem_nil

/-- Reading an answer takes the oldest package with the oldest request. -/
theorem handle_answer (hEnabled : s.Enabled (.handle event env))
    (hSource : s.server.source event.fd = .forwardConnection) (hData : event.data ≠ []) :
    Pipeline.Step ForwardRequest.package s.pipeline .answer (s.handle event env).pipeline := by
  obtain ⟨-, hRead, -⟩ := hEnabled
  rcases hRead hSource with ⟨hEnd, -⟩ | ⟨-, answer, hAnswer, -⟩
  · exact absurd hEnd hData
  have hAnswers : s.connection.answers.map Prod.snd ≠ [] := by
    intro hNone
    rw [List.map_eq_nil_iff] at hNone
    simp [hNone] at hAnswer
  have hBranch : s.server.branch event env = s.server.forwardBranch event := by
    simp only [MIPDServer.branch, hSource]
  constructor
  · simpa only [pipeline, handle, hBranch] using (MIPDServer.forwardBranch_answers hData).queued
  · simp [pipeline, handle, hSource, hData, ForwardConnection.unanswered,
      List.tail_append_of_ne_nil hAnswers]

/-- An event puts the requests its branch writes behind those that wait. -/
theorem handle_ask (hForward : s.server.source event.fd ≠ .forwardConnection)
    (hListening : s.server.source event.fd ≠ .forwardListening) :
    Pipeline.Step ForwardRequest.package s.pipeline (.ask (s.server.branch event env).requests)
      (s.handle event env).pipeline := by
  constructor
  · exact (MIPDServer.branch_emits env hForward).queued
  · simp only [pipeline, handle]
    rw [ForwardConnection.unanswered, ForwardConnection.unanswered, List.append_assoc]

/-- A connection that could not be accepted changes nothing. -/
theorem handle_refused (hListening : s.server.source event.fd = .forwardListening)
    (hRefused : event.accepted = -1) : (s.handle event env).pipeline = s.pipeline := by
  simp [pipeline, handle, MIPDServer.branch, hListening, MIPDServer.acceptOn, hRefused,
    MIPDServer.halt]

/-- An answer that mipd did not read yet still belongs to its request. -/
theorem perform_answer_pipeline (s : Daemon) (nextHop : MIPAddress) :
    (s.perform (.answer nextHop)).pipeline = s.pipeline := by
  cases hRequests : s.connection.requests with
  | nil => simp [perform, hRequests]
  | cons request rest => simp [pipeline, perform, hRequests, ForwardConnection.unanswered]

/-- mipd and routerd match packages and answers by their position alone. -/
theorem perform_pipeline (hEnabled : s.Enabled action) :
    Pipeline.Step ForwardRequest.package s.pipeline (s.pipelineLabel action)
      (s.perform action).pipeline := by
  by_cases hEnds : s.EndsConnection action
  · obtain ⟨hQueue, hConnection⟩ := queued_of_ends hEnds
    rw [(pipelineLabel_eq_reconnect_iff s action).mpr hEnds]
    constructor
    · simp only [pipeline, MIPDServer.queued, hQueue]
    · rw [pipeline, hConnection]
      rfl
  cases action with
  | handle event env =>
      by_cases hForward : s.server.source event.fd = .forwardConnection
      · have hData : event.data ≠ [] := fun hEnd => hEnds (Or.inl ⟨hForward, hEnd⟩)
        simp only [pipelineLabel, hForward, if_neg hData]
        exact handle_answer hEnabled hForward hData
      by_cases hListening : s.server.source event.fd = .forwardListening
      · have hRefused : event.accepted = -1 := by
          by_contra hAccepted
          exact hEnds (Or.inr ⟨hListening, hAccepted⟩)
        simp only [pipelineLabel, hListening, if_pos hRefused, perform]
        rw [handle_refused hListening hRefused]
        exact Pipeline.Step.ask_nil s.pipeline
      · rw [pipelineLabel_handle hForward hListening]
        exact handle_ask hForward hListening
  | tick clock => exact Pipeline.Step.ask_nil s.pipeline
  | answer nextHop =>
      rw [perform_answer_pipeline]
      exact Pipeline.Step.ask_nil s.pipeline
  | disconnect => exact Pipeline.Step.ask_nil s.pipeline

end Daemon

end MipStack
