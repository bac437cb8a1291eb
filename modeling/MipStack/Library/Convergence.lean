import MipStack.Library.DistanceVector

/-! Convergence of distance-vector routing in rounds. In a round every node
hears at least one snapshot that each of its neighbours took in that round.
Split horizon withholds from a neighbour the routes that lead through it. -/
namespace DistanceVector
open Execution

variable {V D H : Type*} {net : Topology V D H} {limit k : ℕ}

/-- Nothing is forgotten, and a receiver is denied only the routes through
itself and those whose cost has reached `limit`. -/
def Label.Honest (net : Topology V D H) (limit : ℕ) : Label V D H → Prop
  | .receive v _ snap ad _ => ∀ d r, snap d = some r → ad d = none →
      r.hop ∈ net.names v ∨ limit ≤ r.cost
  | .forget _ _ => False
  | .advertise _ => True

/-- An honest step forgets no route, so whatever holds between expiries holds in a round. -/
theorem Label.Honest.retains {l : Label V D H} (h : l.Honest net limit) : l.Retains := by
  cases l with
  | forget => exact h.elim
  | advertise u => trivial
  | receive => trivial

/-- Forget which snapshots are in the air and which were heard. -/
def State.beginRound (s : State V D H) : State V D H := { s with air := ∅, heard := ∅ }

section Rounds

variable [DecidableEq V] {s t : State V D H} {l : Label V D H}

def Round (net : Topology V D H) (limit : ℕ) (s t : State V D H) : Prop :=
  (∃ ls, Trace (Guarded (Step net) fun _ l _ => l.Honest net limit) s.beginRound ls t) ∧
    ∀ u v, net.graph.Adj u v → ∃ snap, (v, u, snap) ∈ t.heard

inductive Rounds (net : Topology V D H) (limit : ℕ) :
    ℕ → State V D H → State V D H → Prop where
  | zero (s : State V D H) : Rounds net limit 0 s s
  | succ {k : ℕ} {s m t : State V D H}
      (prior : Rounds net limit k s m) (last : Round net limit m t) :
      Rounds net limit (k + 1) s t

/-- Up to distance `k` the costs are the distances. -/
def Settled (net : Topology V D H) (limit k : ℕ) (s : State V D H) : Prop :=
  ∀ v d n, n ≤ k → n ≤ limit → setDist net.graph (net.owners d) v = n →
    ∃ r, s.route v d = some r ∧ r.cost = n

/-- What holds inside the round after `k` complete ones: snapshots taken in the
round carry the settled costs, and who heard one from a closer node is settled. -/
structure Settling (net : Topology V D H) (limit k : ℕ) (s : State V D H) : Prop where
  sound : Sound net s
  settled : Settled net limit k s
  air : ∀ u snap, (u, snap) ∈ s.air → ∀ d n, n ≤ k → n ≤ limit →
    setDist net.graph (net.owners d) u = n → ∃ r, snap d = some r ∧ r.cost = n
  heard : ∀ v u snap, (v, u, snap) ∈ s.heard → ∀ d n, n ≤ k → n < limit →
    setDist net.graph (net.owners d) u = n → setDist net.graph (net.owners d) v = (n + 1 : ℕ) →
    ∃ r, s.route v d = some r ∧ r.cost ≤ n + 1

omit [DecidableEq V] in
/-- A sound cost that is at most the distance is the distance. -/
theorem SoundRoute.cost_eq {v : V} {d : D} {r : Route H} {n : ℕ}
    (hSound : SoundRoute net v d r) (hDist : setDist net.graph (net.owners d) v = n)
    (hCost : r.cost ≤ n) : r.cost = n := by
  have hLower := hSound.setDist_le
  rw [hDist] at hLower
  exact Nat.le_antisymm hCost (by exact_mod_cast hLower)

omit [DecidableEq V] in
/-- The route of a closer node never leads through the node that needs it. -/
theorem SoundRoute.hop_not_mem {u v : V} {d : D} {r : Route H} {n : ℕ}
    (hSound : SoundRoute net u d r) (hCost : r.cost = n)
    (hNear : setDist net.graph (net.owners d) u = n)
    (hFar : setDist net.graph (net.owners d) v = (n + 1 : ℕ)) : r.hop ∉ net.names v := by
  intro hHop
  rcases hSound with ⟨_, hOwner, hHome⟩ | ⟨w, _, hName, hLe⟩
  · obtain rfl : u = v := net.names_unique (hHome ▸ net.home_name hOwner) hHop
    rw [hNear] at hFar
    have hAbsurd : n = n + 1 := by exact_mod_cast hFar
    omega
  · obtain rfl : w = v := net.names_unique hName hHop
    rw [hFar, hCost] at hLe
    have hAbsurd : n + 1 + 1 ≤ n := by exact_mod_cast hLe
    omega

/-- Once the routes within `k` links have their cost, no event changes it: merges only keep or
lower a cost, and soundness keeps it from getting lower than the distance. -/
theorem Settled.step (hSettled : Settled net limit k s) (hStep : Step net s l t)
    (hRetains : l.Retains) (hSound : Sound net t) : Settled net limit k t := by
  intro v d n hk hLimit hDist
  obtain ⟨r, hRoute, rfl⟩ := hSettled v d n hk hLimit hDist
  obtain ⟨r', hRoute', hLe⟩ := hStep.route_cost_le hRetains hRoute
  exact ⟨r', hRoute', (hSound.route v d r' hRoute').cost_eq hDist hLe⟩

/-- The step lemma of a round. A snapshot that is taken in it carries settled costs, and a node
that receives one from a neighbour one link closer has its own cost from then on. -/
theorem Settling.step (h : Settling net limit k s) (hStep : Step net s l t)
    (hHonest : l.Honest net limit) : Settling net limit k t := by
  have hSound := h.sound.step hStep
  have hSettled := h.settled.step hStep hHonest.retains hSound
  have hMono : ∀ v d c, (∃ r, s.route v d = some r ∧ r.cost ≤ c) →
      ∃ r, t.route v d = some r ∧ r.cost ≤ c := by
    rintro v d c ⟨r, hRoute, hLe⟩
    obtain ⟨r', hRoute', hLe'⟩ := hStep.route_cost_le hHonest.retains hRoute
    exact ⟨r', hRoute', hLe'.trans hLe⟩
  cases hStep with
  | advertise u =>
      refine ⟨hSound, hSettled, ?_, h.heard⟩
      rintro v snap (hNew | hOld)
      · cases hNew
        exact h.settled u
      · exact h.air v snap hOld
  | @receive v u snap ad hop hAir hAdj hName hAd =>
      refine ⟨hSound, hSettled, h.air, ?_⟩
      rintro w x snap' (hNew | hOld) d n hk hLimit hNear hFar
      · cases hNew
        obtain ⟨r, hSnap, hCost⟩ := h.air u snap hAir d n hk hLimit.le hNear
        have hShown : ad d = some n := by
          cases hOffer : ad d with
          | none =>
              rcases hHonest d r hSnap hOffer with hHop | hBig
              · exact absurd hHop ((h.sound.air u snap hAir d r hSnap).hop_not_mem hCost hNear hFar)
              · omega
          | some c =>
              obtain ⟨q, hq, rfl⟩ := hAd d c hOffer
              obtain rfl : r = q := Option.some.inj (hSnap.symm.trans hq)
              rw [hCost]
        simp only [Function.update_self, hShown, relaxOffer_some]
        exact relax_cost_le hop (s.route v d) n
      · exact hMono w d (n + 1) (h.heard w x snap' hOld d n hk hLimit hNear hFar)
  | forget => exact hHonest.elim

/-- One complete round settles one more distance. -/
theorem Round.settled (hRound : Round net limit s t) (hSound : Sound net s)
    (hSettled : Settled net limit k s) : Sound net t ∧ Settled net limit (k + 1) t := by
  obtain ⟨⟨ls, run⟩, hHeard⟩ := hRound
  have hStart : Settling net limit k s.beginRound :=
    ⟨⟨hSound.route, by simp [State.beginRound]⟩, hSettled, by simp [State.beginRound],
      by simp [State.beginRound]⟩
  have hEnd : Settling net limit k t :=
    run.invariant hStart fun _ _ _ h hStep => h.step hStep.1 hStep.2
  refine ⟨hEnd.sound, ?_⟩
  intro v d n hk hLimit hDist
  rcases Nat.lt_or_eq_of_le hk with hLt | rfl
  · exact hEnd.settled v d n (Nat.le_of_lt_succ hLt) hLimit hDist
  · obtain ⟨w, hAdj, hNear⟩ := exists_adj_setDist hDist
    obtain ⟨snap, hMem⟩ := hHeard w v hAdj.symm
    obtain ⟨r, hRoute, hLe⟩ := hEnd.heard v w snap hMem d k (Nat.le_refl k) hLimit hNear hDist
    exact ⟨r, hRoute, (hEnd.sound.route v d r hRoute).cost_eq hDist hLe⟩

/-- After `k` rounds every node knows the exact distance of every destination
at most `k` links away. -/
theorem Rounds.settled (hInitial : Initial net s) (rounds : Rounds net limit k s t) :
    Sound net t ∧ Settled net limit k t := by
  induction rounds with
  | zero s =>
      refine ⟨hInitial.sound, ?_⟩
      intro v d n hn _ hDist
      obtain rfl : n = 0 := Nat.le_zero.mp hn
      have hOwner : v ∈ net.owners d := by simpa using hDist
      exact ⟨_, (hInitial.route v d _).mpr ⟨hOwner, rfl⟩, rfl⟩
  | succ prior last ih =>
      obtain ⟨hSound, hSettled⟩ := ih hInitial
      exact last.settled hSound hSettled

end Rounds

end DistanceVector
