import MipStack.Mipd.Daemon

/-! When the answers of routerd meet the packages they were asked for. They are
matched by their position alone, and the forward queue outlives the connection. -/
namespace MipStack
open Execution

namespace Daemon

/-- The forward queue holds the packages of the unanswered requests, in order. -/
def QueueMatches (s : Daemon) : Prop :=
  s.server.queued = s.connection.unanswered.map ForwardRequest.package

instance (s : Daemon) : Decidable s.QueueMatches := inferInstanceAs (Decidable (_ = _))

/-- An answer that is read takes the package it was asked for out of the queue. -/
def AnswerMeets (s : Daemon) : Action → Prop
  | .handle event _ =>
    s.server.source event.fd = .forwardConnection → event.data ≠ [] →
      ∀ answer ∈ s.connection.answers.head?,
        (MIPDServer.forwardQueuePop s.server.forwardQueue).1 = some answer.2.package ∧
          answer.2.package.mHeader.dstAddr = answer.2.destination
  | _ => True

instance (s : Daemon) (action : Action) : Decidable (s.AnswerMeets action) :=
  match action with
  | .handle _ _ => inferInstanceAs (Decidable (_ → _ → ∀ answer ∈ _, _))
  | .tick _ => isTrue trivial
  | .answer _ => isTrue trivial
  | .disconnect => isTrue trivial

/-- No package waits when a connection for forwarding ends or is replaced. -/
def EndsIdle (s : Daemon) (action : Action) : Prop :=
  s.EndsConnection action → s.server.forwardQueue = []

/-- Every request was written for the destination of its package. -/
structure Matched (s : Daemon) : Prop where
  queue : s.QueueMatches
  destination : ∀ request ∈ s.connection.unanswered,
    request.destination = request.package.mHeader.dstAddr

variable {s t : Daemon} {action : Action} {actions : List Action}
  {appSocket routeSocket forwardSocket : LocalSocket} {iTable : InterfaceTable} {freq now : ℤ}

/-- The queue and the open requests are the two ends of a pipeline. -/
theorem queueMatches_iff_pipeline :
    s.QueueMatches ↔ Pipeline.Matched ForwardRequest.package s.pipeline := Iff.rfl

/-- At the start nothing waits and nothing was asked. -/
theorem Matched.start : Matched (start appSocket routeSocket forwardSocket iTable freq now) :=
  ⟨rfl, by simp [Daemon.start, ForwardConnection.unanswered, ForwardConnection.new]⟩

/-- The queue stays matched exactly if it is empty whenever a connection ends. -/
theorem Matched.queueMatches_iff (h : Matched s) (hEnabled : s.Enabled action) :
    QueueMatches (s.perform action) ↔ EndsIdle s action := by
  rw [queueMatches_iff_pipeline,
    (perform_pipeline hEnabled).matched_iff (queueMatches_iff_pipeline.mp h.queue),
    pipelineLabel_eq_reconnect_iff]
  exact imp_congr_right fun _ => List.map_eq_nil_iff

/-- The invariant of the runs in which no connection ends while packages wait. -/
theorem Matched.perform (h : Matched s) (hEnabled : s.Enabled action)
    (hIdle : EndsIdle s action) : Matched (s.perform action) :=
  ⟨(h.queueMatches_iff hEnabled).mpr hIdle,
    (perform_pipeline hEnabled).forall_unanswered (pipelineLabel_asks s action) h.destination⟩

/-- The package at the head of the queue is the one the next answer was asked for, and its
destination is that of the request. -/
theorem Matched.answerMeets (h : Matched s) (action : Action) : AnswerMeets s action := by
  cases action with
  | handle event env =>
      intro _ _ answer hAnswer
      have hFirst : s.connection.unanswered.head? = some answer.2 := by
        rw [ForwardConnection.unanswered, List.head?_append, List.head?_map, hAnswer]
        rfl
      constructor
      · rw [MIPDServer.forwardQueuePop_package]
        exact (queueMatches_iff_pipeline.mp h.queue).oldest hFirst
      · exact (h.destination answer.2 (List.mem_of_mem_head? hFirst)).symm
  | tick clock => trivial
  | answer nextHop => trivial
  | disconnect => trivial

/-- In the runs in which no connection for forwarding ends while packages wait,
and in no others, every answer meets the package it was asked for and the forward
queue always holds the packages of the unanswered requests. -/
theorem answers_meet_packages_iff :
    Trace (Guarded Step fun s action t => AnswerMeets s action ∧ QueueMatches t)
        (start appSocket routeSocket forwardSocket iTable freq now) actions t ↔
      Trace (Guarded Step fun s action _ => EndsIdle s action)
        (start appSocket routeSocket forwardSocket iTable freq now) actions t := by
  apply Trace.guarded_iff Matched.start
  · rintro s action t h ⟨hEnabled, rfl⟩ hIdle
    exact h.perform hEnabled hIdle
  · rintro s action t h ⟨hEnabled, rfl⟩
    rw [← h.queueMatches_iff hEnabled]
    exact and_iff_right (h.answerMeets action)

/-- A package for 20 waits when routerd leaves. The answer to the first request after it came
back, for 30, takes that package out of the queue: nothing tells which request an answer belongs
to. -/
theorem answer_meets_older_package :
    let env : Env := ⟨fun _ => 0, fun _ => Vector.replicate 8 0, fun _ => 0, true⟩
    let message := fun address : MIPAddress => address :: 13 :: List.replicate 14 0
    ∃ s, Trace Step (start ⟨3, -1⟩ ⟨4, -1⟩ ⟨5, -1⟩
        ⟨[⟨ethBroadcastAddr, ethBroadcastAddr, 10, 6⟩]⟩ 10000 0)
        [.handle ⟨3, [], 8⟩ env, .handle ⟨5, [], 9⟩ env, .handle ⟨8, message 20, -1⟩ env,
          .disconnect, .handle ⟨9, [], -1⟩ { env with forwardWritten := false },
          .handle ⟨5, [], 9⟩ env, .handle ⟨8, message 30, -1⟩ env, .answer 40] s ∧
      ¬ QueueMatches s ∧ ¬ AnswerMeets s (.handle ⟨9, [40], -1⟩ env) := by
  intro env message
  exact ⟨_, Runs.trace (by decide), by decide, by decide⟩

end Daemon

end MipStack
