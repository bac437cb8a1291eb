import MipStack.Library.PollSet
import MipStack.Miptpd.AppSession

/-! The descriptors that miptpd polls beside the connections it keeps. -/
namespace MipStack
open Execution

namespace AppSession

/-- The descriptors that are polled and those that miptpd has a record of. -/
def pollSet (s : AppSession) : PollSet.State ℤ :=
  { polled := s.polled, known := s.permanentFds ++ s.connections.map (·.socket) }

/-- The applications that are polled are those with a connection, not more than
allowed, and an event of one of them finds its connection. -/
structure Mirrored (s : AppSession) : Prop where
  mirrors : PollSet.Mirrors s.pollSet
  bounded : s.connections.length ≤ s.server.appController.maxConnections
  found : ∀ fd ∈ s.polled, fd ∉ s.permanentFds →
    s.server.appController.isAConnection fd = 1

/-- An application is accepted only if there is room for it, and none with a
connection leaves. -/
def StaysOrFits (s : AppSession) : Action → Prop
  | .accept accepted epollAdded _ => accepted ≠ -1 → epollAdded = true →
      s.connections.length < s.server.appController.maxConnections
  | .disconnect socket => socket ∉ s.connections.map (·.socket)
  | _ => True

variable {s t : AppSession} {action : Action}

/-- The limit that was set at the start is never changed, and it is nowhere compared with the
number of connections either. -/
theorem outcome_maxConnections (s : AppSession) (action : Action) :
    (s.outcome action).controller.maxConnections =
      s.server.appController.maxConnections := by
  cases action with
  | accept accepted epollAdded now =>
      rcases s.server.appController.handleConnection_cases accepted epollAdded now with
        ⟨hSame, -⟩ | ⟨-, -, hMore⟩
      · rw [outcome, hSame]
        rfl
      · rw [outcome, hMore]
        rfl
  | appPackage socket bytes now =>
      rcases (s.server.appController.handleAppPackage_cases socket
        (MIPTPServer.readBuffer bytes) now).2 with ⟨hSame, -⟩ | ⟨_, _, _, _, _, _, _, hReplaced⟩
      · rw [outcome, hSame]
      · rw [outcome, hReplaced]
        rfl
  | mipdPackage mipAddress data =>
      rw [outcome, MIPTPAppController.handleMipdPackage]
      cases MIPTPPackage.deserialize data with
      | error halt => rfl
      | ok package => rfl
  | outgoing written => rfl
  | completes =>
      rcases s.server.appController.handleCompletes_cases with hSame | ⟨_, _, _, _, _, hLess⟩
      · rw [outcome, hSame]
        rfl
      · rw [outcome, hLess]
        rfl
  | disconnect socket =>
      rcases (s.server.appController.disconnect_cases socket).2 with
        ⟨hSame, -⟩ | ⟨_, _, _, _, _, hLess⟩
      · rw [outcome, hSame]
      · rw [outcome, hLess]
        rfl

/-- With a record of every descriptor that is polled an application is found. -/
theorem found_of_mirrors (h : WellFormed s) (hMirrors : PollSet.Mirrors s.pollSet) :
    ∀ fd ∈ s.polled, fd ∉ s.permanentFds → s.server.appController.isAConnection fd = 1 := by
  intro fd hPolled hOther
  have hSocket : fd ∈ s.connections.map (·.socket) :=
    (List.mem_append.mp (hMirrors.perm.symm.subset hPolled)).resolve_left hOther
  exact MIPTPAppController.isAConnection_of_mem (h.nonneg fd hPolled) hSocket

/-- One record less, without which the descriptors are those of the others. -/
theorem known_perm_of_split {before after : List AppConnection} {old : AppConnection}
    (hSplit : s.connections = before ++ old :: after)
    (hPermanent : t.permanentFds = s.permanentFds)
    (hConnections : t.connections = before ++ after) :
    (t.pollSet.known ++ [old.socket]).Perm s.pollSet.known := by
  simp only [pollSet, hSplit, hPermanent, hConnections, List.map_append, List.map_cons,
    List.perm_iff_count, List.count_append, List.count_cons, List.count_nil]
  intro fd
  omega

/-- The connections change their order or their jobs at most. -/
theorem pollSet_of_perm (hPolled : t.polled = s.polled)
    (hPermanent : t.permanentFds = s.permanentFds)
    (hSockets : (t.connections.map (·.socket)).Perm (s.connections.map (·.socket))) :
    PollSet.Step s.pollSet .none t.pollSet := by
  constructor
  · simp only [pollSet, hPolled]
    exact List.Perm.refl _
  · simp only [pollSet, hPermanent, PollSet.Change.none, List.append_nil]
    exact hSockets.append_left _

/-- What an action does to the descriptors, and how many connections it leaves: only
an application that leaves is forgotten, only one that is accepted makes them more. -/
structure Polls (s : AppSession) (action : Action) (change : PollSet.Change ℤ) : Prop where
  step : PollSet.Step s.pollSet change (s.perform action).pollSet
  fresh : ∀ fd ∈ change.opened, fd ∉ s.polled
  single : change.opened.Nodup
  stays : s.StaysOrFits action ↔ change.forgotten = [] ∧ (change.opened = [] ∨
    s.connections.length < s.server.appController.maxConnections)
  length : (s.perform action).connections.length ≤ s.connections.length + change.opened.length
  grows : change.opened ≠ [] →
    (s.perform action).connections.length = s.connections.length + 1

/-- An application that is accepted is polled and gets a connection, also where there are as many
as allowed. -/
theorem polls_accept {accepted now : ℤ} {epollAdded : Bool}
    (hEnabled : s.Enabled (.accept accepted epollAdded now)) :
    ∃ change, s.Polls (.accept accepted epollAdded now) change := by
  rcases perform_accept s accepted epollAdded now with
    ⟨hSame, hPolled, hRefused⟩ | ⟨hAccepted, hAdded, hConnections, hPolled⟩
  · refine ⟨.none, pollSet_of_perm hPolled rfl (by rw [hSame]), nofun, List.nodup_nil, ?_, ?_,
      fun hOpened => absurd rfl hOpened⟩
    · refine iff_of_true (fun hAccepted hAdded => ?_) ⟨rfl, Or.inl rfl⟩
      rcases hRefused with hRefused | hFailed
      · exact absurd hRefused hAccepted
      · exact absurd (hFailed.symm.trans hAdded) Bool.false_ne_true
    · rw [hSame]
      exact Nat.le_add_right _ _
  · obtain ⟨-, hFresh⟩ := hEnabled.2.resolve_left hAccepted
    have hLength : (s.perform (.accept accepted epollAdded now)).connections.length =
        s.connections.length + 1 := by
      rw [hConnections, List.length_append, List.length_singleton]
    refine ⟨⟨[accepted], [], []⟩, ⟨?_, ?_⟩, ?_, List.nodup_singleton _, ?_, hLength.le,
      fun _ => hLength⟩
    · simp only [pollSet, hPolled, List.append_nil]
      exact List.Perm.refl _
    · simp only [pollSet, hConnections, List.map_append, List.append_assoc, List.append_nil]
      exact List.Perm.refl _
    · intro fd hMem
      exact List.mem_singleton.mp hMem ▸ hFresh
    · exact ⟨fun hFits => ⟨rfl, Or.inr (hFits hAccepted hAdded)⟩,
        fun hFits _ _ => hFits.2.resolve_left (List.cons_ne_nil _ _)⟩

/-- An action that opens and forgets no descriptor leaves the connections on the sockets they
had. -/
theorem polls_keeps (hStep : PollSet.Step s.pollSet .none (s.perform action).pollSet)
    (hStays : s.StaysOrFits action)
    (hLength : (s.perform action).connections.length = s.connections.length) :
    ∃ change, s.Polls action change :=
  ⟨.none, hStep, nofun, List.nodup_nil, iff_of_true hStays ⟨rfl, Or.inl rfl⟩, hLength.le,
    fun hOpened => absurd rfl hOpened⟩

theorem length_of_split {before after : List AppConnection} {old : AppConnection}
    (hSplit : s.connections = before ++ old :: after)
    (hConnections : t.connections = before ++ after) :
    t.connections.length ≤ s.connections.length := by
  rw [hSplit, hConnections]
  exact ((List.sublist_cons_self old after).append_left before).length_le

theorem polls_appPackage (s : AppSession) (socket : ℤ) (bytes : List UInt8) (now : ℤ) :
    ∃ change, s.Polls (.appPackage socket bytes now) change := by
  have hSockets := sockets_appPackage s socket bytes now
  obtain ⟨hPolled, -⟩ := perform_appPackage s socket bytes now
  exact polls_keeps (pollSet_of_perm hPolled rfl hSockets) trivial
    (by simpa only [List.length_map] using hSockets.length_eq)

theorem polls_completes (h : WellFormed s) : ∃ change, s.Polls .completes change := by
  rcases perform_completes s with
    ⟨hSame, hPolled⟩ | ⟨before, old, after, hSplit, -, hConnections, hPolled⟩
  · exact polls_keeps (pollSet_of_perm hPolled rfl (by rw [hSame])) trivial (by rw [hSame])
  · obtain ⟨-, hOld⟩ := h.split_sockets hSplit
    have hMem : old.socket ∈ s.polled := h.polled
      (List.mem_append_right _ (List.mem_map.mpr ⟨old, hSplit ▸ List.mem_append_right _
        List.mem_cons_self, rfl⟩))
    have hSocket : old.socket ≠ 0 := fun hZero => hOld
      (hZero ▸ List.mem_append_left _ List.mem_cons_self)
    rw [if_pos hSocket] at hPolled
    refine ⟨⟨[], [old.socket], []⟩, ⟨?_, ?_⟩, nofun, List.nodup_nil, iff_of_true trivial
      ⟨rfl, Or.inl rfl⟩, length_of_split hSplit hConnections, fun hOpened => absurd rfl hOpened⟩
    · simp only [pollSet, hPolled, List.append_nil]
      exact (List.perm_append_singleton _ _).trans (List.perm_cons_erase hMem).symm
    · simp only [List.nil_append, List.append_nil]
      exact known_perm_of_split hSplit rfl hConnections

/-- An application that leaves is taken off the list, but its socket is neither closed nor taken
out of the epoll set. -/
theorem polls_disconnect (s : AppSession) (socket : ℤ) :
    ∃ change, s.Polls (.disconnect socket) change := by
  obtain ⟨hPolled, ⟨hSame, hUnknown⟩ | ⟨before, old, after, hSplit, hSocket, hConnections⟩⟩ :=
    perform_disconnect s socket
  · exact polls_keeps (pollSet_of_perm hPolled rfl (by rw [hSame])) hUnknown (by rw [hSame])
  · have hKnown : socket ∈ s.connections.map (·.socket) :=
      List.mem_map.mpr ⟨old, hSplit ▸ List.mem_append_right _ List.mem_cons_self, hSocket⟩
    refine ⟨⟨[], [], [old.socket]⟩, ⟨?_, ?_⟩, nofun, List.nodup_nil,
      iff_of_false (fun hStays => hStays hKnown) (fun hNone => nomatch hNone.1),
      length_of_split hSplit hConnections, fun hOpened => absurd rfl hOpened⟩
    · simp only [pollSet, hPolled]
      exact List.Perm.refl _
    · simp only [List.append_nil]
      exact known_perm_of_split hSplit rfl hConnections

/-- The step lemma, one case for each operation: what it does to the descriptors is a step of the
two lists. -/
theorem exists_polls (h : WellFormed s) (hEnabled : s.Enabled action) :
    ∃ change, s.Polls action change := by
  cases action with
  | accept accepted epollAdded now => exact polls_accept hEnabled
  | appPackage socket bytes now => exact polls_appPackage s socket bytes now
  | mipdPackage mipAddress data =>
      have hSockets := sockets_mipdPackage h mipAddress data
      obtain ⟨hPolled, -⟩ := perform_mipdPackage h mipAddress data
      exact polls_keeps (pollSet_of_perm hPolled rfl (by rw [hSockets])) trivial
        (by simpa only [List.length_map] using congrArg List.length hSockets)
  | outgoing written =>
      obtain ⟨hSame, hPolled⟩ := perform_outgoing s written
      exact polls_keeps (pollSet_of_perm hPolled rfl (by rw [hSame])) trivial (by rw [hSame])
  | completes => exact polls_completes h
  | disconnect socket => exact polls_disconnect s socket

/-- Connections and polled applications stay the same in a step exactly if nobody with a
connection leaves and nobody is accepted above the limit. -/
theorem mirrored_perform_iff (h : WellFormed s) (hMirrored : Mirrored s)
    (hEnabled : s.Enabled action) : Mirrored (s.perform action) ↔ s.StaysOrFits action := by
  obtain ⟨change, hPolls⟩ := exists_polls h hEnabled
  have hFresh : (s.polled ++ change.opened).Nodup :=
    List.nodup_append.mpr ⟨hMirrored.mirrors.nodup, hPolls.single,
      fun fd hPolled fd' hOpened hEq => hPolls.fresh fd' hOpened (hEq ▸ hPolled)⟩
  have hMax : (s.perform action).server.appController.maxConnections =
      s.server.appController.maxConnections := outcome_maxConnections s action
  rw [hPolls.stays]
  constructor
  · intro hAfter
    refine ⟨(hPolls.step.mirrors_iff hMirrored.mirrors hFresh).mp hAfter.mirrors, ?_⟩
    by_cases hOpened : change.opened = []
    · exact Or.inl hOpened
    · have hBounded := hAfter.bounded
      rw [hPolls.grows hOpened, hMax] at hBounded
      exact Or.inr hBounded
  · rintro ⟨hForgotten, hRoom⟩
    have hMirrors := hPolls.step.mirrors hMirrored.mirrors hFresh hForgotten
    refine ⟨hMirrors, ?_, found_of_mirrors (h.perform hEnabled) hMirrors⟩
    rw [hMax]
    by_cases hOpened : change.opened = []
    · have hLength := hPolls.length
      rw [hOpened] at hLength
      exact hLength.trans hMirrored.bounded
    · rw [hPolls.grows hOpened]
      exact hRoom.resolve_left hOpened

theorem Mirrored.start (setup : AppSetup) : Mirrored (start setup) := by
  have hMirrors : PollSet.Mirrors (AppSession.start setup).pollSet :=
    ⟨List.Perm.refl _, setup.nodup⟩
  exact ⟨hMirrors, Nat.zero_le _, found_of_mirrors (WellFormed.start setup) hMirrors⟩

/-- In the runs in which the connections always mirror the applications that are polled
none of these leaves and none is accepted without room, and these are all such runs. -/
theorem connections_mirror_iff (setup : AppSetup) (actions : List Action) (t : AppSession) :
    Trace (Guarded Step fun _ _ t => t.Mirrored) (start setup) actions t ↔
      Trace (Guarded Step fun s action _ => s.StaysOrFits action) (start setup) actions t := by
  apply Trace.guarded_iff (I := fun s => WellFormed s ∧ Mirrored s)
    ⟨WellFormed.start setup, Mirrored.start setup⟩
  · rintro s action _ ⟨h, hMirrored⟩ ⟨hEnabled, rfl⟩ hStays
    exact ⟨h.perform hEnabled, (mirrored_perform_iff h hMirrored hEnabled).mpr hStays⟩
  · rintro s action _ ⟨h, hMirrored⟩ ⟨hEnabled, rfl⟩
    exact mirrored_perform_iff h hMirrored hEnabled

/-- An application that left is still polled and its events find no connection: its socket was
never closed. -/
theorem left_application_is_polled :
    let setup : AppSetup := ⟨3, 4, by decide, by decide⟩
    ∃ t, Trace Step (start setup) [.accept 5 true 0, .disconnect 5] t ∧ 5 ∈ t.polled ∧
      t.server.appController.isAConnection 5 = 0 := by
  intro setup
  have hRuns : Runs Enabled perform (start setup) [.accept 5 true 0, .disconnect 5] := by decide
  exact ⟨_, hRuns.trace, by decide, by decide⟩

end AppSession

end MipStack
