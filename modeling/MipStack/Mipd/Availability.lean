import MipStack.Mipd.Traffic
import MipStack.Routerd.RouterServer

/-! The runs in which no traffic stops mipd. -/
namespace MipStack
open Execution

namespace Daemon

/-- What mipd may rely on: accepting succeeds, routerd writes its own tables and
answers with next hops of a table, applications write whole messages, and nobody
types the stop command. -/
def Promised (s : Daemon) : Action → Prop
  | .handle event _ => event.accepted ≠ -1 ∧
    match s.server.source event.fd with
    | .routeConnection => event.data = [] ∨ MIPDServer.WrittenByRouterd event.data
    | .appConnection => MIPDServer.ReadOfMessages event.data
    | .stdin => event.data.take 5 ≠ MIPDServer.stopCommand
    | _ => True
  | .answer nextHop => ∀ request ∈ s.connection.requests.head?,
    ∃ table : MIPRouteTable, nextHop = table.getNextHop request.destination
  | _ => True

/-- What stops mipd is excluded: frames it cannot hold or cannot cache the sender
of, and next hops that are not in its cache. -/
def Safe (s : Daemon) : Action → Prop
  | .handle event _ =>
    match s.server.source event.fd with
    | .rawSocket => SafeFrame s.server.cache (receivedHeader event.data)
    | .forwardConnection => ∀ nextHop ∈ event.data.head?, nextHop ≠ 255 →
        s.server.cache.queryMipAddressSrcSocket nextHop ≠ -1
    | _ => True
  | _ => True

/-- A package without a next hop leaves the queue and is not sent, and one that
routerd cannot be asked about is not queued. -/
def Drops (s : Daemon) : Action → Prop
  | .handle event env =>
    let outcome := s.server.branch event env
    (s.server.source event.fd = .forwardConnection → event.data = [255] →
      outcome.server.queued = s.server.queued.tail ∧ outcome.outputs = []) ∧
    (s.server.source event.fd ≠ .forwardConnection → ¬ s.server.CanRequest env →
      outcome.server.queued = s.server.queued ∧ outcome.requests = [])
  | _ => True

/-- The queue may hold packages of former connections before those that wait for
an answer, and only a host with interfaces has neighbours. -/
structure Serving (s : Daemon) : Prop where
  running : s.running
  queue : ∃ older, s.server.queued =
    older ++ s.connection.unanswered.map ForwardRequest.package
  interfaces : s.server.cache.entries ≠ [] → s.server.iTable.interfaces ≠ []

variable {s t : Daemon} {action : Action} {actions : List Action} {event : Event} {env : Env}
  {appSocket routeSocket forwardSocket : LocalSocket} {iTable : InterfaceTable} {freq now : ℤ}

theorem Serving.start : Serving (start appSocket routeSocket forwardSocket iTable freq now) :=
  ⟨rfl, ⟨[], rfl⟩, fun h => absurd rfl h⟩

/-- Packages that cannot be delivered are dropped: the answer 255 takes one off the queue, and
without a routerd none is queued. -/
theorem drops (s : Daemon) (action : Action) : Drops s action := by
  cases action with
  | handle event env =>
      constructor
      · intro hSource hData
        have hNonempty : event.data ≠ [] := by simp [hData]
        simp only [MIPDServer.branch, hSource]
        refine ⟨(MIPDServer.forwardBranch_answers hNonempty).queued, ?_⟩
        unfold MIPDServer.forwardBranch
        rw [hData]
        simp only [MIPDServer.forwardFound]
        cases s.server.forwardQueue <;> rfl
      · intro hSource hCannot
        have hEmits := MIPDServer.branch_emits env hSource
        have hNone : (s.server.branch event env).requests = [] := by
          rw [List.eq_nil_iff_forall_not_mem]
          intro request hMem
          exact hCannot (hEmits.requests request hMem).2.1
        exact ⟨by rw [hEmits.queued, hNone, List.map_nil, List.append_nil], hNone⟩
  | tick clock => trivial
  | answer nextHop => trivial
  | disconnect => trivial

/-- Handling an event leaves the interfaces, and without any the cache too, as no frame can be
read. -/
theorem handle_interfaces (s : Daemon) (event : Event) (env : Env) :
    (s.handle event env).server.iTable = s.server.iTable ∧
      (s.server.iTable.interfaces = [] →
        (s.handle event env).server.cache = s.server.cache) := by
  by_cases hSource : s.server.source event.fd = .forwardConnection
  · have hBranch : (s.handle event env).server = (s.server.forwardBranch event).server := by
      simp only [handle, MIPDServer.branch, hSource]
    rw [hBranch]
    by_cases hData : event.data = []
    · simp [MIPDServer.forwardBranch, hData, MIPDServer.finish, MIPDServer.connectForward]
    · have hAnswers : MIPDServer.Answers s.server (s.server.forwardBranch event) :=
        MIPDServer.forwardBranch_answers hData
      exact ⟨hAnswers.iTable, fun _ => hAnswers.cache⟩
  · have hEmits := MIPDServer.branch_emits env hSource
    exact ⟨hEmits.iTable, hEmits.cache⟩

/-- Neighbours are heard on interfaces only, so a host without any keeps an empty cache. -/
theorem Serving.interfaces_perform (h : Serving s) (action : Action) :
    (s.perform action).server.cache.entries ≠ [] →
      (s.perform action).server.iTable.interfaces ≠ [] := by
  intro hCached
  cases action with
  | handle event env =>
      obtain ⟨hTable, hCache⟩ := handle_interfaces s event env
      change (s.handle event env).server.iTable.interfaces ≠ []
      rw [hTable]
      intro hNone
      refine h.interfaces ?_ hNone
      rw [← hCache hNone]
      exact hCached
  | tick clock =>
      have hSub := MIPDServer.tick_entries s.server clock
      exact h.interfaces fun hEmpty => hCached (List.sublist_nil.mp (hEmpty ▸ hSub))
  | answer nextHop =>
      rw [(perform_answer s nextHop).1] at hCached ⊢
      exact h.interfaces hCached
  | disconnect => exact h.interfaces hCached

/-- An answer is read while its package still waits, so the answer 255 finds one to drop. -/
theorem Serving.forwardQueue_ne_nil (h : Serving s) (hAnswers : s.connection.answers ≠ []) :
    s.server.forwardQueue ≠ [] := by
  obtain ⟨older, hQueue⟩ := h.queue
  intro hEmpty
  rw [MIPDServer.queued, hEmpty, List.map_nil, eq_comm, List.append_eq_nil_iff,
    List.map_eq_nil_iff, ForwardConnection.unanswered, List.append_eq_nil_iff,
    List.map_eq_nil_iff] at hQueue
  exact hAnswers hQueue.2.1

/-- The loop goes on after an event exactly if it is safe, branch by branch of the loop. -/
theorem Serving.handle_running_iff (h : Serving s) (hEnabled : s.Enabled (.handle event env))
    (hPromised : s.Promised (.handle event env)) :
    (s.handle event env).running ↔ s.Safe (.handle event env) := by
  obtain ⟨-, hRead, -⟩ := hEnabled
  obtain ⟨hAccepted, hData⟩ := hPromised
  change (s.server.branch event env).continues ↔ _
  cases hSource : s.server.source event.fd with
  | appListening =>
      simp [MIPDServer.branch, Safe, hSource, MIPDServer.acceptOn, hAccepted]
  | routeListening =>
      simp [MIPDServer.branch, Safe, hSource, MIPDServer.acceptOn, hAccepted]
  | forwardListening =>
      simp [MIPDServer.branch, Safe, hSource, MIPDServer.acceptOn, hAccepted]
  | routeConnection =>
      simp only [hSource] at hData
      simpa [MIPDServer.branch, Safe, hSource] using MIPDServer.routeBranch_continues hData
  | forwardConnection =>
      simp only [MIPDServer.branch, Safe, hSource]
      rcases hRead hSource with ⟨hEnd, -⟩ | ⟨-, answer, hAnswer, hByte⟩
      · simp [MIPDServer.forwardBranch, hEnd]
      · have hAnswers : s.connection.answers ≠ [] := by
          intro hNone
          simp [hNone] at hAnswer
        rw [MIPDServer.forwardBranch_continues_iff (h.forwardQueue_ne_nil hAnswers)
          h.interfaces hByte]
        simp [hByte]
  | rawSocket =>
      have hInterfaces := MIPDServer.interfaces_ne_nil_of_source hSource
      simpa only [MIPDServer.branch, Safe, hSource] using
        MIPDServer.handleRawSocketFrame_continues_iff hInterfaces event.fd event.data
  | appConnection =>
      simp only [hSource] at hData
      simpa [MIPDServer.branch, Safe, hSource] using
        MIPDServer.appBranch_continues h.interfaces hData
  | stdin =>
      simp only [hSource] at hData
      simp [MIPDServer.branch, Safe, hSource, MIPDServer.finish, Outcome.continues, hData,
        Except.isOk, Except.toBool]
  | unknown => simp [MIPDServer.branch, Safe, hSource]

/-- The step lemma: given what mipd may rely on, it stays in its loop exactly if the step is
safe. -/
theorem Serving.running_iff (h : Serving s) (hEnabled : s.Enabled action)
    (hPromised : s.Promised action) : (s.perform action).running ↔ s.Safe action := by
  cases action with
  | handle event env => exact h.handle_running_iff hEnabled hPromised
  | tick clock => exact iff_of_true h.running trivial
  | answer nextHop => exact iff_of_true ((perform_answer s nextHop).2.trans h.running) trivial
  | disconnect => exact iff_of_true h.running trivial

/-- The invariant is kept by the steps that keep mipd in its loop. -/
theorem Serving.perform (h : Serving s) (hEnabled : s.Enabled action)
    (hPromised : s.Promised action) (hSafe : s.Safe action) : Serving (s.perform action) :=
  ⟨(h.running_iff hEnabled hPromised).mpr hSafe, (perform_pipeline hEnabled).covered h.queue,
    h.interfaces_perform action⟩

/-- In the runs in which every frame and every next hop is safe, and in no
others, mipd never leaves its loop; what cannot be delivered is dropped. -/
theorem never_stops_iff :
    Trace (Guarded (Guarded Step fun s action _ => s.Promised action)
          fun s action t => t.running ∧ s.Drops action)
        (start appSocket routeSocket forwardSocket iTable freq now) actions t ↔
      Trace (Guarded (Guarded Step fun s action _ => s.Promised action)
          fun s action _ => s.Safe action)
        (start appSocket routeSocket forwardSocket iTable freq now) actions t := by
  apply Trace.guarded_iff Serving.start
  · rintro s action t h ⟨⟨hEnabled, rfl⟩, hPromised⟩ hSafe
    exact h.perform hEnabled hPromised hSafe
  · rintro s action t h ⟨⟨hEnabled, rfl⟩, hPromised⟩
    rw [h.running_iff hEnabled hPromised]
    exact and_iff_left (drops s action)

/-- A message to the own address 10: routerd answers with its local route, and
the host has no entry for itself in its ARP cache. -/
theorem message_to_own_address_stops :
    let env : Env := ⟨fun _ => 0, fun _ => Vector.replicate 8 0, fun _ => 0, true⟩
    let table := (RouterServer.create [10] fun _ => 0).table
    ∃ s, Trace (Guarded Step fun s action _ => s.Promised action)
        (start ⟨3, -1⟩ ⟨4, -1⟩ ⟨5, -1⟩ ⟨[⟨ethBroadcastAddr, ethBroadcastAddr, 10, 6⟩]⟩ 10000 0)
        [.handle ⟨3, [], 8⟩ env, .handle ⟨5, [], 9⟩ env,
          .handle ⟨8, 10 :: 13 :: List.replicate 14 0, 7⟩ env, .answer (table.getNextHop 10),
          .handle ⟨9, [table.getNextHop 10], 7⟩ env] s ∧
      s.running = false := by
  intro env table
  let message : MIPDMessage := ⟨10, List.replicate 13 0, by decide⟩
  have hRuns : Runs (fun s action => s.Enabled action ∧ s.Promised action) perform
      (start ⟨3, -1⟩ ⟨4, -1⟩ ⟨5, -1⟩ ⟨[⟨ethBroadcastAddr, ethBroadcastAddr, 10, 6⟩]⟩ 10000 0)
      [.handle ⟨3, [], 8⟩ env, .handle ⟨5, [], 9⟩ env,
        .handle ⟨8, 10 :: 13 :: List.replicate 14 0, 7⟩ env, .answer (table.getNextHop 10),
        .handle ⟨9, [table.getNextHop 10], 7⟩ env] := by
    refine ⟨⟨by decide, by decide, trivial⟩, ⟨by decide, by decide, trivial⟩,
      ⟨by decide, by decide, Or.inr ⟨message, _, [], rfl, by decide⟩⟩, ⟨by decide, ?_⟩,
      ⟨by decide, by decide, trivial⟩, trivial⟩
    intro request hRequest
    obtain rfl := Option.some.inj hRequest
    exact ⟨table, rfl⟩
  refine ⟨_, hRuns.trace.mono ?_, by decide⟩
  rintro s action t ⟨⟨hEnabled, hPromised⟩, hPerform⟩
  exact ⟨⟨hEnabled, hPerform⟩, hPromised⟩

end Daemon

end MipStack
