import MipStack.Library.Execution
import MipStack.Library.Relaxation
import Mathlib.Data.Set.Insert
import Mathlib.Data.List.Nodup

/-! Asynchronous distance-vector routing over an arbitrary graph. Nodes put
snapshots of their routes in the air; a neighbour may receive a snapshot late,
repeatedly or never, and any part of it may be withheld from that neighbour. -/
namespace DistanceVector
open Execution

variable {V D H : Type*}

/-- The links, the nodes that own each destination, the names under which the
neighbours know a node, and the hop an owner records for its own destination,
which is one of its own names. -/
structure Topology (V D H : Type*) where
  graph : SimpleGraph V
  owners : D → Set V
  names : V → Set H
  home : D → H
  names_unique : ∀ {u v : V} {h : H}, h ∈ names u → h ∈ names v → u = v
  home_name : ∀ {v : V} {d : D}, v ∈ owners d → home d ∈ names v

abbrev Snapshot (D H : Type*) := D → Option (Route H)

/-- `air` holds the snapshots put in the air, `heard` who received whose. -/
structure State (V D H : Type*) where
  route : V → Snapshot D H
  air : Set (V × Snapshot D H)
  heard : Set (V × V × Snapshot D H)

inductive Label (V D H : Type*) where
  | advertise (u : V)
  /-- `v` receives from `u` the costs `ad` out of the snapshot `snap`. -/
  | receive (v u : V) (snap : Snapshot D H) (ad : D → Option ℕ) (h : H)
  | forget (v : V) (kept : Snapshot D H)

/-- No route is forgotten by this step. -/
def Label.Retains : Label V D H → Prop
  | .forget _ _ => False
  | _ => True

variable (net : Topology V D H)

inductive Step [DecidableEq V] : State V D H → Label V D H → State V D H → Prop where
  | advertise (s : State V D H) (u : V) :
      Step s (.advertise u) { s with air := insert (u, s.route u) s.air }
  | receive (s : State V D H) {v u : V} {snap : Snapshot D H} {ad : D → Option ℕ} {h : H}
      (hAir : (u, snap) ∈ s.air) (hAdj : net.graph.Adj u v) (hName : h ∈ net.names u)
      (hAd : ∀ d c, ad d = some c → ∃ r, snap d = some r ∧ r.cost = c) :
      Step s (.receive v u snap ad h)
        { s with
          route := Function.update s.route v fun d => relaxOffer h (s.route v d) (ad d)
          heard := insert (v, u, snap) s.heard }
  | forget (s : State V D H) {v : V} {kept : Snapshot D H}
      (hKept : ∀ d r, kept d = some r → s.route v d = some r) :
      Step s (.forget v kept) { s with route := Function.update s.route v kept }

/-- Owners know their destinations at cost zero and nobody knows anything else. -/
structure Initial (s : State V D H) : Prop where
  route : ∀ v d r, s.route v d = some r ↔ v ∈ net.owners d ∧ r = ⟨0, net.home d⟩
  air : s.air = ∅
  heard : s.heard = ∅

/-- A route whose cost no shorter walk could undercut: free only at an owner,
otherwise through a neighbour that is at least one edge closer. -/
def SoundRoute (v : V) (d : D) (r : Route H) : Prop :=
  (r.cost = 0 ∧ v ∈ net.owners d ∧ r.hop = net.home d) ∨
    ∃ w, net.graph.Adj v w ∧ r.hop ∈ net.names w ∧
      setDist net.graph (net.owners d) w + 1 ≤ r.cost

variable {net} {s t : State V D H} {l : Label V D H} {ls : List (Label V D H)}
  {u v : V} {d : D} {r : Route H}

/-- A sound route is at least as long as the way to the nearest owner. This is the lower bound
that no loss or reordering breaks. -/
theorem SoundRoute.setDist_le (h : SoundRoute net v d r) :
    setDist net.graph (net.owners d) v ≤ r.cost := by
  rcases h with ⟨_, hOwner, _⟩ | ⟨w, hAdj, _, hCost⟩
  · simp [setDist_eq_zero_iff.mpr hOwner]
  · exact (setDist_le_succ hAdj).trans hCost

/-- Only an owner has a route of no cost, and it is the one to itself. -/
theorem SoundRoute.cost_eq_zero (h : SoundRoute net v d r) (hZero : r.cost = 0) :
    v ∈ net.owners d ∧ r.hop = net.home d := by
  rcases h with ⟨_, hOwner⟩ | ⟨w, _, _, hCost⟩
  · exact hOwner
  · rw [hZero] at hCost
    simp at hCost

/-- The next hop of a route is a neighbour that is at least one link closer than the route
claims. -/
theorem SoundRoute.next (h : SoundRoute net v d r) (hPos : r.cost ≠ 0) :
    ∃ w, net.graph.Adj v w ∧ r.hop ∈ net.names w ∧
      setDist net.graph (net.owners d) w + 1 ≤ r.cost := by
  rcases h with ⟨hZero, _⟩ | hNext
  · exact absurd hZero hPos
  · exact hNext

/-- Adopting a sound cost from a neighbour keeps a table sound. -/
theorem SoundRoute.relaxOffer {q : Option (Route H)} {offer : Option ℕ} {h : H}
    (hTable : ∀ r, q = some r → SoundRoute net v d r) (hAdj : net.graph.Adj u v)
    (hName : h ∈ net.names u)
    (hOffer : ∀ c, offer = some c → setDist net.graph (net.owners d) u ≤ c)
    (hRoute : DistanceVector.relaxOffer h q offer = some r) : SoundRoute net v d r := by
  cases offer with
  | none => exact hTable r hRoute
  | some c =>
      rcases relax_cases h q c with ⟨_, hEq⟩ | ⟨q', hq, _, hEq⟩
      · rw [relaxOffer_some, hEq] at hRoute
        cases hRoute
        refine Or.inr ⟨u, hAdj.symm, hName, ?_⟩
        simpa using add_le_add_left (hOffer c rfl) 1
      · rw [relaxOffer_some, hEq] at hRoute
        cases hRoute
        exact hTable r hq

/-- Every route in a table and every route in the air is sound. -/
structure Sound (net : Topology V D H) (s : State V D H) : Prop where
  route : ∀ v d r, s.route v d = some r → SoundRoute net v d r
  air : ∀ u snap, (u, snap) ∈ s.air → ∀ d r, snap d = some r → SoundRoute net u d r

/-- At the start every route is one to the node itself and nothing is in the air. -/
theorem Initial.sound (h : Initial net s) : Sound net s where
  route := by
    intro v d r hRoute
    obtain ⟨hOwner, rfl⟩ := (h.route v d r).mp hRoute
    exact Or.inl ⟨rfl, hOwner, rfl⟩
  air := by simp [h.air]

/-- Snapshots in the air overstate the sender's present costs, and the next hop
of a route is strictly closer to the destination. -/
structure Ordered (net : Topology V D H) (s : State V D H) : Prop where
  air : ∀ u snap, (u, snap) ∈ s.air → ∀ d r, snap d = some r →
    ∃ r', s.route u d = some r' ∧ r'.cost ≤ r.cost
  next : ∀ u v d r, s.route u d = some r → r.cost ≠ 0 → r.hop ∈ net.names v →
    ∃ r', s.route v d = some r' ∧ r'.cost < r.cost

/-- At the start there are no next hops that could lack a route. -/
theorem Initial.ordered (h : Initial net s) : Ordered net s where
  air := by simp [h.air]
  next := by
    intro u v d r hRoute hPos
    obtain ⟨_, rfl⟩ := (h.route u d r).mp hRoute
    exact absurd rfl hPos

section Runs

variable [DecidableEq V]

/-- Soundness of the routes and of the snapshots in the air is kept by every step, whatever is
withheld, received late or again, or forgotten. -/
theorem Sound.step (hSound : Sound net s) (hStep : Step net s l t) : Sound net t := by
  cases hStep with
  | advertise u =>
      refine ⟨hSound.route, ?_⟩
      rintro v snap (hNew | hOld)
      · cases hNew
        exact hSound.route u
      · exact hSound.air v snap hOld
  | @receive v u snap ad h hAir hAdj hName hAd =>
      refine ⟨?_, hSound.air⟩
      intro w d r hRoute
      by_cases hw : w = v
      · subst hw
        simp only [Function.update_self] at hRoute
        refine SoundRoute.relaxOffer (hSound.route w d) hAdj hName ?_ hRoute
        intro c hc
        obtain ⟨q, hq, rfl⟩ := hAd d c hc
        exact (hSound.air u snap hAir d q hq).setDist_le
      · simp only [Function.update_of_ne hw] at hRoute
        exact hSound.route w d r hRoute
  | @forget v kept hKept =>
      refine ⟨?_, hSound.air⟩
      intro w d r hRoute
      by_cases hw : w = v
      · subst hw
        simp only [Function.update_self] at hRoute
        exact hSound.route w d r (hKept d r hRoute)
      · simp only [Function.update_of_ne hw] at hRoute
        exact hSound.route w d r hRoute

/-- Soundness survives loss, duplication, reordering and forgetting, in any number and mixture. -/
theorem Sound.run (hSound : Sound net s) (run : Trace (Step net) s ls t) : Sound net t :=
  run.invariant hSound fun _ _ _ h hStep => h.step hStep

/-- Without forgetting, known costs only decrease, and a known destination stays known. -/
theorem Step.route_cost_le (hStep : Step net s l t) (hRetains : l.Retains)
    (hRoute : s.route v d = some r) : ∃ r', t.route v d = some r' ∧ r'.cost ≤ r.cost := by
  cases hStep with
  | advertise u => exact ⟨r, hRoute, Nat.le_refl _⟩
  | @receive w u snap ad h hAir hAdj hName hAd =>
      by_cases hv : v = w
      · subst hv
        simpa using relaxOffer_cost_le h (ad d) hRoute
      · exact ⟨r, by simpa [Function.update_of_ne hv] using hRoute, Nat.le_refl _⟩
  | forget => exact hRetains.elim

/-- While no route is forgotten the costs of a node never grow, so a snapshot in the air costs at
least what its sender has now. This relates what was received to the present routes. -/
theorem Ordered.step (hOrdered : Ordered net s) (hStep : Step net s l t)
    (hRetains : l.Retains) : Ordered net t := by
  have hMono : ∀ v d r, s.route v d = some r →
      ∃ r', t.route v d = some r' ∧ r'.cost ≤ r.cost :=
    fun v d r => hStep.route_cost_le hRetains
  cases hStep with
  | advertise u =>
      refine ⟨?_, hOrdered.next⟩
      rintro v snap (hNew | hOld)
      · cases hNew
        exact fun d r hSnap => ⟨r, hSnap, Nat.le_refl _⟩
      · exact hOrdered.air v snap hOld
  | @receive v u snap ad h hAir hAdj hName hAd =>
      refine ⟨?_, ?_⟩
      · intro w snap' hMem d r hSnap
        obtain ⟨q, hq, hLe⟩ := hOrdered.air w snap' hMem d r hSnap
        obtain ⟨q', hq', hLe'⟩ := hMono w d q hq
        exact ⟨q', hq', hLe'.trans hLe⟩
      · intro x y d r hRoute hPos hHop
        -- The route is new only at the receiver, and then its hop names the sender.
        have hOldNext : s.route x d = some r → ∃ r', s.route y d = some r' ∧ r'.cost < r.cost :=
          fun hOld => hOrdered.next x y d r hOld hPos hHop
        have hBefore : ∃ r', s.route y d = some r' ∧ r'.cost < r.cost := by
          by_cases hx : x = v
          · subst hx
            simp only [Function.update_self] at hRoute
            cases hOffer : ad d with
            | none => exact hOldNext (by simpa [hOffer] using hRoute)
            | some c =>
                rw [hOffer, relaxOffer_some] at hRoute
                rcases relax_cases h (s.route x d) c with ⟨_, hEq⟩ | ⟨q, hq, _, hEq⟩
                · obtain rfl : ⟨c + 1, h⟩ = r := by simpa [hEq] using hRoute
                  obtain rfl : y = u := net.names_unique hHop hName
                  obtain ⟨q, hq, rfl⟩ := hAd d c hOffer
                  obtain ⟨q', hq', hLe⟩ := hOrdered.air y snap hAir d q hq
                  exact ⟨q', hq', Nat.lt_succ_of_le hLe⟩
                · exact hOldNext (hq.trans (hEq.symm.trans hRoute))
          · exact hOldNext (by simpa [Function.update_of_ne hx] using hRoute)
        obtain ⟨q, hq, hLt⟩ := hBefore
        obtain ⟨q', hq', hLe⟩ := hMono y d q hq
        exact ⟨q', hq', hLe.trans_lt hLt⟩
  | forget => exact hRetains.elim

/-- In a run without expiry the next hop has a cheaper route in every state reached. -/
theorem Ordered.run (hOrdered : Ordered net s)
    (run : Trace (Guarded (Step net) fun _ l _ => l.Retains) s ls t) : Ordered net t :=
  run.invariant hOrdered fun _ _ _ h hStep => h.step hStep.1 hStep.2

end Runs

/-- `u` hands packages for `d` to `v`. -/
def Next (net : Topology V D H) (s : State V D H) (d : D) (u v : V) : Prop :=
  ∃ r, s.route u d = some r ∧ r.cost ≠ 0 ∧ r.hop ∈ net.names v

/-- Following next hops lowers the cost with every hop, so no node repeats. -/
theorem Ordered.chain_bounded (hOrdered : Ordered net s) {path : List V}
    (hChain : (u :: path).IsChain (Next net s d)) (hRoute : s.route u d = some r) :
    path.length ≤ r.cost ∧ (u :: path).Nodup := by
  let cost := fun v => ((s.route v d).map Route.cost).getD 0
  have hDecrease : ∀ a b, Next net s d a b → cost b < cost a := by
    rintro a b ⟨q, hq, hPos, hHop⟩
    obtain ⟨q', hq', hLt⟩ := hOrdered.next a b d q hq hPos hHop
    simpa [cost, hq, hq'] using hLt
  have hCosts : (u :: path).Pairwise fun a b => cost b < cost a :=
    haveI : Trans (fun a b => cost b < cost a) (fun a b => cost b < cost a)
        (fun a b : V => cost b < cost a) := ⟨fun hab hbc => Nat.lt_trans hbc hab⟩
    (hChain.imp hDecrease).pairwise
  have hLength : ∀ (p : List V) (a : V), ((a :: p).Pairwise fun a b => cost b < cost a) →
      p.length ≤ cost a := by
    intro p
    induction p with
    | nil => simp
    | cons b rest ih =>
        intro a hPairwise
        have hHead := (List.pairwise_cons.mp hPairwise).1 b (by simp)
        have hRest := ih b (List.pairwise_cons.mp hPairwise).2
        rw [List.length_cons]
        omega
  refine ⟨by simpa [cost, hRoute] using hLength path u hCosts, ?_⟩
  exact hCosts.imp fun hLt hEq => by rw [hEq] at hLt; exact Nat.lt_irrefl _ hLt

/-- Following next hops leads to an owner of the destination. -/
theorem Ordered.exists_chain (hOrdered : Ordered net s) (hSound : Sound net s)
    (hRoute : s.route u d = some r) :
    ∃ path, (u :: path).IsChain (Next net s d) ∧
      (u :: path).getLast (List.cons_ne_nil u path) ∈ net.owners d := by
  induction hCost : r.cost using Nat.strong_induction_on generalizing u r with
  | _ n ih =>
      have hSoundRoute := hSound.route u d r hRoute
      by_cases hZero : r.cost = 0
      · exact ⟨[], by simp, by simpa using (hSoundRoute.cost_eq_zero hZero).1⟩
      · obtain ⟨w, _, hHop, _⟩ := hSoundRoute.next hZero
        obtain ⟨r', hRoute', hLt⟩ := hOrdered.next u w d r hRoute hZero hHop
        obtain ⟨path, hChain, hLast⟩ := ih r'.cost (hCost ▸ hLt) hRoute' rfl
        refine ⟨w :: path, List.isChain_cons_cons.mpr ⟨⟨r, hRoute, hZero, hHop⟩, hChain⟩, ?_⟩
        simpa using hLast

end DistanceVector
