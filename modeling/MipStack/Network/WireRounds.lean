import MipStack.Network.Convergence
import MipStack.Network.RouteWire

/-! Rounds of routing tables over raw sockets. As long as a network has at most 20 addresses
every table arrives whole, and its rounds are those in which frames arrive as they were sent. -/
namespace MipStack
open DistanceVector Execution

namespace Network

variable {ρ σ : Type*} (net : Network ρ σ)

/-- Nothing expires, and every host merges what arrives of a table that each neighbour packed
and sent in the round. -/
def WireRound [DecidableEq ρ] (caches : ρ → MipArpCache → Prop) (s t : State ρ σ) : Prop :=
  (∃ events, Trace (Guarded (net.WireStep caches) fun _ event _ => event.onHosts.Retains)
    s.beginRound events t) ∧
    ∀ u v, net.graph.Adj u v → (v, u) ∈ t.merged

inductive WireRounds [DecidableEq ρ] (caches : ρ → MipArpCache → Prop) :
    ℕ → State ρ σ → State ρ σ → Prop where
  | zero (s : State ρ σ) : WireRounds caches 0 s s
  | succ {k : ℕ} {s m t : State ρ σ} (prior : WireRounds caches k s m)
      (last : net.WireRound caches m t) : WireRounds caches (k + 1) s t

/-- Tables of at most 20 entries are on their way, from hosts that know only reachable
destinations. -/
structure Few (hUnique : net.AddressesUnique) (caches : ρ → MipArpCache → Prop)
    (s : State ρ σ) : Prop where
  sound : ∃ a, Refines net caches s a ∧ Sound (net.topology hUnique) a
  packed : ∀ u package, (u, package) ∈ s.packed → package.numEntries.toNat ≤ 20
  broadcast : SentTables s
  sent : ∀ u w package, (u, w, package) ∈ s.sent →
    (parseBroadcastedTable package).numEntries.toNat ≤ 20

variable {net} {hUnique : net.AddressesUnique} {caches : ρ → MipArpCache → Prop}
  {s t : State ρ σ} {addressBook : List MIPAddress} {k : ℕ} {clocks : ρ → Clock}
  [DecidableEq ρ]

/-- The step lemma: sound routes lead to configured addresses only, so no table has more entries
than there are addresses. -/
theorem Few.step {event : Event ρ} (h : net.Few hUnique caches s)
    (hBook : ∀ u, net.configured u ⊆ addressBook) (hSmall : addressBook.length ≤ 20)
    (hStep : net.Step caches s event t) : net.Few hUnique caches t := by
  obtain ⟨a, hRefines, hSound⟩ := h.sound
  obtain ⟨ls, b, hTrace, hEnd⟩ := hRefines.step hUnique hStep
  refine ⟨⟨b, hEnd, hSound.run hTrace.unguard⟩, ?_, h.broadcast.step hStep, ?_⟩
  · cases hStep with
    | pack hPack =>
        rintro v package' (hNew | hOld)
        · cases hNew
          rw [(MIPRouteTable.createPackage_numEntries hPack).1]
          exact (entries_length_le_of_sound hUnique hBook hRefines hSound _).trans hSmall
        · exact h.packed v package' hOld
    | broadcast hPacked hCache hSend => exact h.packed
    | deliver hSent hNe hAttached hTable => exact h.packed
    | expire v clock => exact h.packed
  · cases hStep with
    | pack hPack => exact h.sent
    | @broadcast u package cache pointers outputs hPacked hCache hSend =>
        rintro v w frame (hOld | ⟨socket, frame', hOutput, hNew⟩)
        · exact h.sent v w frame hOld
        · cases hNew
          obtain ⟨record, -, hFrame⟩ := mem_broadcastRouteTable hSend hOutput
          obtain ⟨tmp, _, hCopy, hSent, hMessage, -⟩ := broadcastOnInterface_eq_ok hFrame
          obtain ⟨rfl, rfl⟩ := Output.sendto.inj hSent
          rw [parseBroadcastedTable_eq hMessage, splitHorizonCopy_numEntries hCopy]
          exact h.packed u package hPacked
    | deliver hSent hNe hAttached hTable => exact h.sent
    | expire v clock => exact h.sent

/-- Every table on its way arrives whole, so a host merges what was sent and nothing of its
heap. -/
theorem Few.whole {event : WireEvent ρ} (h : net.Few hUnique caches s)
    (hStep : net.WireStep caches s event t) : event.Whole := by
  cases hStep with
  | host hStep hHost => trivial
  | deliver hSent hNe hAttached hReceive hTable => exact h.sent _ _ _ hSent

omit [DecidableEq ρ] in
theorem Few.beginRound (h : net.Few hUnique caches s) : net.Few hUnique caches s.beginRound := by
  obtain ⟨a, hRefines, hSound⟩ := h.sound
  exact ⟨⟨a.beginRound, hRefines.beginRound, hSound.route, fun _ _ hNone => hNone.elim⟩,
    fun _ _ hNone => hNone.elim, fun _ _ _ hNone => hNone.elim, fun _ _ _ hNone => hNone.elim⟩

omit [DecidableEq ρ] in
theorem Few.initial (hUnique : net.AddressesUnique) (caches : ρ → MipArpCache → Prop)
    (clocks : ρ → Clock) : net.Few hUnique caches (net.initial clocks) :=
  ⟨⟨_, Refines.initial clocks, (initial_topology hUnique clocks).sound⟩,
    fun _ _ hNone => hNone.elim, SentTables.initial clocks, fun _ _ _ hNone => hNone.elim⟩

/-- In a network of few addresses the hosts learn the same over raw sockets as if every frame
arrived as it was sent. -/
theorem Few.round_iff (h : net.Few hUnique caches s)
    (hBook : ∀ u, net.configured u ⊆ addressBook) (hSmall : addressBook.length ≤ 20) :
    net.WireRound caches s t ↔ net.Round caches s t := by
  refine and_congr_left' ⟨?_, ?_⟩
  · rintro ⟨events, run⟩
    have hKept : ∀ s event t, net.Few hUnique caches s →
        Guarded (net.WireStep caches) (fun _ event _ => event.onHosts.Retains) s event t →
          net.Few hUnique caches t := fun s event t hFew hStep =>
      hFew.step hBook hSmall (hStep.1.step hFew.broadcast (hFew.whole hStep.1))
    have hWhole : Trace (Guarded (Guarded (net.WireStep caches) fun _ event _ =>
        event.onHosts.Retains) fun _ event _ => event.Whole) s.beginRound events t :=
      run.strengthen h.beginRound hKept fun s event t hFew hStep => hFew.whole hStep.1
    refine ⟨_, run_of_whole h.beginRound.broadcast (hWhole.mono fun _ _ _ hStep => ?_)⟩
    exact ⟨hStep.1.1, hStep.2, hStep.1.2⟩
  · rintro ⟨events, run⟩
    let R (s b : State ρ σ) : Prop := s = b ∧ net.Few hUnique caches s
    have hMatch : ∀ s event t b, R s b →
        Guarded (net.Step caches) (fun _ event _ => event.Retains) s event t →
          ∃ events' b', Trace (Guarded (net.WireStep caches) fun _ event _ =>
            event.onHosts.Retains) b events' b' ∧ R t b' := by
      rintro s event t b ⟨rfl, hFew⟩ ⟨hStep, hRetains⟩
      obtain ⟨event', rfl, hWire⟩ := hStep.wireStep hFew.broadcast hFew.sent
      exact ⟨[event'], t, Trace.single ⟨hWire, hRetains⟩, rfl, hFew.step hBook hSmall hStep⟩
    obtain ⟨wireEvents, b, hTrace, rfl, -⟩ := run.simulation ⟨rfl, h.beginRound⟩ hMatch
    exact ⟨wireEvents, hTrace⟩

theorem Few.round (h : net.Few hUnique caches s) (hBook : ∀ u, net.configured u ⊆ addressBook)
    (hSmall : addressBook.length ≤ 20) (hRound : net.Round caches s t) :
    net.Few hUnique caches t := by
  obtain ⟨⟨events, run⟩, -⟩ := hRound
  exact run.invariant h.beginRound fun s event t hFew hStep => hFew.step hBook hSmall hStep.1

theorem Few.rounds (h : net.Few hUnique caches s) (hBook : ∀ u, net.configured u ⊆ addressBook)
    (hSmall : addressBook.length ≤ 20) (rounds : net.Rounds caches k s t) :
    net.Few hUnique caches t := by
  induction rounds with
  | zero s => exact h
  | succ prior last ih => exact (ih h).round hBook hSmall last

/-- In a network of at most 20 addresses rounds over raw sockets are the rounds in which frames
arrive as they were sent. -/
theorem Few.rounds_iff (h : net.Few hUnique caches s)
    (hBook : ∀ u, net.configured u ⊆ addressBook) (hSmall : addressBook.length ≤ 20) :
    net.WireRounds caches k s t ↔ net.Rounds caches k s t := by
  constructor
  · intro rounds
    induction rounds with
    | zero s => exact .zero s
    | succ prior last ih =>
        have hPrior := ih h
        exact .succ hPrior (((h.rounds hBook hSmall hPrior).round_iff hBook hSmall).mp last)
  · intro rounds
    induction rounds with
    | zero s => exact .zero s
    | succ prior last ih =>
        exact .succ (ih h) (((h.rounds hBook hSmall prior).round_iff hBook hSmall).mpr last)

/-- With at most 20 addresses in all, rounds over raw sockets are rounds in which every frame
arrives as it was sent. -/
theorem wireRounds_iff (hUnique : net.AddressesUnique)
    (hBook : ∀ u, net.configured u ⊆ addressBook) (hSmall : addressBook.length ≤ 20) :
    net.WireRounds caches k (net.initial clocks) t ↔
      net.Rounds caches k (net.initial clocks) t :=
  (Few.initial hUnique caches clocks).rounds_iff hBook hSmall

end Network

end MipStack
