import Mathlib.Combinatorics.SimpleGraph.Metric
import Mathlib.Data.ENat.Lattice
import Mathlib.Data.List.MinMax

/-! Hop distance to a set of nodes of a graph, and the relaxation step by which
a node adopts the advertisement of a neighbour. -/
namespace DistanceVector

section SetDistance

variable {V : Type*} (G : SimpleGraph V) (S : Set V)

/-- Number of edges on a shortest walk to some node of the set, `⊤` if there is
no such walk. -/
noncomputable def setDist (v : V) : ℕ∞ := ⨅ o ∈ S, G.edist v o

variable {G S} {u v w : V}

theorem setDist_le {o : V} (ho : o ∈ S) : setDist G S v ≤ G.edist v o :=
  iInf₂_le o ho

/-- A finite distance is the distance to some owner. -/
theorem exists_setDist_eq {n : ℕ} (h : setDist G S v = n) : ∃ o ∈ S, G.edist v o = n := by
  rw [setDist, iInf_subtype'] at h
  cases isEmpty_or_nonempty S with
  | inl hEmpty =>
      rw [iInf_of_empty] at h
      exact absurd h.symm (ENat.natCast_ne_top n)
  | inr hNonempty =>
      obtain ⟨o, ho⟩ := ENat.exists_eq_iInf fun o : S => G.edist v o
      exact ⟨o, o.property, ho.trans h⟩

@[simp] theorem setDist_eq_zero_iff : setDist G S v = 0 ↔ v ∈ S := by
  constructor
  · intro h
    obtain ⟨o, ho, hZero⟩ := exists_setDist_eq (n := 0) (by simpa using h)
    have hEq : v = o := by simpa using hZero
    exact hEq ▸ ho
  · intro hv
    exact le_antisymm ((setDist_le hv).trans (by simp)) (zero_le)

/-- Crossing one edge changes the distance by at most one. -/
theorem setDist_le_succ (h : G.Adj v w) : setDist G S v ≤ setDist G S w + 1 := by
  cases hw : setDist G S w with
  | top => simp
  | coe n =>
      obtain ⟨o, ho, hDist⟩ := exists_setDist_eq hw
      calc
        setDist G S v ≤ G.edist v o := setDist_le ho
        _ ≤ G.edist v w + G.edist w o := SimpleGraph.edist_triangle
        _ = n + 1 := by rw [SimpleGraph.edist_eq_one_iff_adj.mpr h, hDist, add_comm]

/-- A shortest walk leaves a node outside the set through a neighbour that is
one edge closer. -/
theorem exists_adj_setDist {n : ℕ} (h : setDist G S v = (n + 1 : ℕ)) :
    ∃ w, G.Adj v w ∧ setDist G S w = n := by
  obtain ⟨o, ho, hDist⟩ := exists_setDist_eq h
  obtain ⟨walk, hLength⟩ := SimpleGraph.exists_walk_of_edist_eq_coe hDist
  cases walk with
  | nil => simp at hLength
  | @cons _ w _ hAdj rest =>
      refine ⟨w, hAdj, le_antisymm ?_ ?_⟩
      · calc
          setDist G S w ≤ G.edist w o := setDist_le ho
          _ ≤ rest.length := SimpleGraph.edist_le rest
          _ = n := by simpa using hLength
      · have hStep := setDist_le_succ (S := S) hAdj
        rw [h, Nat.cast_add, Nat.cast_one] at hStep
        exact (ENat.add_le_add_iff_right (by simp)).mp hStep

end SetDistance

/-- What a node knows about one destination: a cost and the neighbour to hand
packages to. -/
structure Route (H : Type*) where
  cost : ℕ
  hop : H
  deriving DecidableEq

section Relax

variable {H : Type*} {h : H} {r : Option (Route H)} {c : ℕ} {q : Route H}

/-- Adopt a neighbour's cost plus one unless the cost already known is smaller.
Equal costs move the next hop. -/
def relax (h : H) (r : Option (Route H)) (c : ℕ) : Option (Route H) :=
  match r with
  | none => some ⟨c + 1, h⟩
  | some q => if c + 1 ≤ q.cost then some ⟨c + 1, h⟩ else some q

/-- Relaxation by an advertisement that may be missing. -/
def relaxOffer (h : H) (r : Option (Route H)) : Option ℕ → Option (Route H)
  | none => r
  | some c => relax h r c

@[simp] theorem relaxOffer_none (h : H) (r : Option (Route H)) : relaxOffer h r none = r := rfl

@[simp] theorem relaxOffer_some (h : H) (r : Option (Route H)) (c : ℕ) :
    relaxOffer h r (some c) = relax h r c := rfl

/-- An offer that costs no more than the present route is taken, also on a tie. -/
theorem relax_adopt (hCost : ∀ q, r = some q → c + 1 ≤ q.cost) :
    relax h r c = some ⟨c + 1, h⟩ := by
  cases r with
  | none => rfl
  | some q => simp [relax, hCost q rfl]

theorem relax_keep (hCost : q.cost < c + 1) : relax h (some q) c = some q := by
  simp [relax, Nat.not_le.mpr hCost]

/-- Relaxation either adopts the advertisement or keeps a strictly better route. -/
theorem relax_cases (h : H) (r : Option (Route H)) (c : ℕ) :
    ((∀ q, r = some q → c + 1 ≤ q.cost) ∧ relax h r c = some ⟨c + 1, h⟩) ∨
      ∃ q, r = some q ∧ q.cost < c + 1 ∧ relax h r c = some q := by
  cases r with
  | none => exact Or.inl ⟨by simp, rfl⟩
  | some q =>
      by_cases hCost : c + 1 ≤ q.cost
      · exact Or.inl ⟨by simpa using hCost, by simp [relax, hCost]⟩
      · exact Or.inr ⟨q, rfl, Nat.not_le.mp hCost, by simp [relax, hCost]⟩

/-- After an offer the route costs at most what was offered and one link. -/
theorem relax_cost_le (h : H) (r : Option (Route H)) (c : ℕ) :
    ∃ q, relax h r c = some q ∧ q.cost ≤ c + 1 := by
  rcases relax_cases h r c with ⟨_, hEq⟩ | ⟨q, _, hCost, hEq⟩
  · exact ⟨_, hEq, Nat.le_refl _⟩
  · exact ⟨q, hEq, hCost.le⟩

/-- Relaxation never raises a cost and never forgets a destination. -/
theorem relaxOffer_cost_le (h : H) (offer : Option ℕ) (hr : r = some q) :
    ∃ q', relaxOffer h r offer = some q' ∧ q'.cost ≤ q.cost := by
  subst hr
  cases offer with
  | none => exact ⟨q, rfl, Nat.le_refl _⟩
  | some c =>
      rcases relax_cases h (some q) c with ⟨hLe, hEq⟩ | ⟨q', hq, _, hEq⟩
      · exact ⟨_, hEq, hLe q rfl⟩
      · cases hq
        exact ⟨q, hEq, Nat.le_refl _⟩

/-- A route after relaxation was known before or leads through the neighbour. -/
theorem relaxOffer_eq_some {offer : Option ℕ} (hq : relaxOffer h r offer = some q) :
    r = some q ∨ q.hop = h ∧ ∃ c, offer = some c ∧ q.cost = c + 1 := by
  cases offer with
  | none => exact Or.inl hq
  | some c =>
      rcases relax_cases h r c with ⟨_, hEq⟩ | ⟨q', hr, _, hEq⟩
      · obtain rfl : ⟨c + 1, h⟩ = q := Option.some.inj (hEq.symm.trans hq)
        exact Or.inr ⟨rfl, c, rfl, rfl⟩
      · exact Or.inl (hr.trans (hEq.symm.trans hq))

/-- Relaxation neither creates nor replaces a route of cost zero. -/
theorem relaxOffer_eq_some_zero {offer : Option ℕ} (hZero : q.cost = 0) :
    relaxOffer h r offer = some q ↔ r = some q := by
  constructor
  · intro hq
    rcases relaxOffer_eq_some hq with hr | ⟨_, c, _, hCost⟩
    · exact hr
    · omega
  · rintro rfl
    cases offer with
    | none => rfl
    | some c => exact relax_keep (by omega)

/-- Two advertisements of one neighbour count as the smaller of the two. -/
theorem relax_relax (h : H) (r : Option (Route H)) (c d : ℕ) :
    relax h (relax h r c) d = relax h r (min c d) := by
  rcases relax_cases h r c with ⟨hLe, hEq⟩ | ⟨q, hq, hLt, hEq⟩
  · rw [hEq]
    rcases le_or_gt d c with hdc | hcd
    · rw [relax_adopt (by simpa using hdc), Nat.min_eq_right hdc, relax_adopt]
      intro q hq
      have hcq := hLe q hq
      omega
    · rw [relax_keep (by simpa using hcd), Nat.min_eq_left hcd.le, hEq]
  · rw [hEq, hq]
    rcases le_or_gt c d with hcd | hdc
    · rw [Nat.min_eq_left hcd, relax_keep hLt, relax_keep (by omega)]
    · rw [Nat.min_eq_right hdc.le]

/-- All advertisements of one neighbour for one destination count as the
smallest of them. -/
theorem foldl_relax (h : H) (r : Option (Route H)) (cs : List ℕ) :
    cs.foldl (relax h) r = relaxOffer h r cs.min? := by
  induction cs generalizing r with
  | nil => rfl
  | cons c rest ih =>
      rw [List.foldl_cons, ih, List.min?_cons]
      cases rest.min? with
      | none => rw [relaxOffer_none]; rfl
      | some m => simp [relax_relax]

/-- Hearing an advertisement again changes nothing, whatever the route was before. -/
theorem relaxOffer_relaxOffer (h : H) (r : Option (Route H)) (offer : Option ℕ) :
    relaxOffer h (relaxOffer h r offer) offer = relaxOffer h r offer := by
  cases offer with
  | none => rfl
  | some c => rw [relaxOffer_some, relaxOffer_some, relax_relax, Nat.min_self]

end Relax

section Sequence

variable {H : Type*} {r : Option (Route H)} {q : Route H} {ads ads' : List (H × ℕ)}

/-- The advertisements of several neighbours, one after the other. -/
def relaxAll (r : Option (Route H)) (ads : List (H × ℕ)) : Option (Route H) :=
  ads.foldl (fun r ad => relax ad.1 r ad.2) r

/-- The cost of what is known, and one more than each advertised cost. -/
def costs (r : Option (Route H)) (ads : List (H × ℕ)) : List ℕ :=
  (r.map Route.cost).toList ++ ads.map fun ad => ad.2 + 1

/-- The neighbour whose advertisement was the last one to lead to the cost. -/
def lastHop (ads : List (H × ℕ)) (cost : ℕ) : Option H :=
  (ads.filter fun ad => ad.2 + 1 = cost).getLast?.map Prod.fst

theorem relaxAll_append (r : Option (Route H)) (ads ads' : List (H × ℕ)) :
    relaxAll r (ads ++ ads') = relaxAll (relaxAll r ads) ads' := List.foldl_append

theorem costs_append (r : Option (Route H)) (ads : List (H × ℕ)) (ad : H × ℕ) :
    costs r (ads ++ [ad]) = costs r ads ++ [ad.2 + 1] := by
  rw [costs, costs, List.map_append, List.append_assoc, List.map_singleton]

/-- On a tie the offer that came last wins. -/
theorem lastHop_append_eq (ads : List (H × ℕ)) (ad : H × ℕ) :
    lastHop (ads ++ [ad]) (ad.2 + 1) = some ad.1 := by
  simp [lastHop]

theorem lastHop_append_ne {ad : H × ℕ} {cost : ℕ} (hNe : ad.2 + 1 ≠ cost) :
    lastHop (ads ++ [ad]) cost = lastHop ads cost := by
  simp [lastHop, hNe]

theorem min?_append_singleton (cs : List ℕ) (c : ℕ) :
    (cs ++ [c]).min? = some (cs.min?.elim c (min · c)) := by
  cases cs with
  | nil => rfl
  | cons x rest =>
      rw [List.cons_append, List.min?_cons', List.min?_cons', List.foldl_append]
      rfl

/-- The cost after an offer is the minimum of the old cost and the new one, whichever hop it
belongs to. -/
theorem relax_cost (h : H) (r : Option (Route H)) (c : ℕ) :
    (relax h r c).map Route.cost = some ((r.map Route.cost).elim (c + 1) (min · (c + 1))) := by
  rcases relax_cases h r c with ⟨hAdopt, hEq⟩ | ⟨q, rfl, hKeep, hEq⟩
  · rw [hEq]
    cases r with
    | none => rfl
    | some q => exact congrArg some (Nat.min_eq_right (hAdopt q rfl)).symm
  · rw [hEq]
    exact congrArg some (Nat.min_eq_left hKeep.le).symm

/-- The cost after all advertisements is the least of the costs there were. -/
theorem relaxAll_cost (r : Option (Route H)) (ads : List (H × ℕ)) :
    (relaxAll r ads).map Route.cost = (costs r ads).min? := by
  induction ads using List.reverseRecOn with
  | nil => cases r <;> rfl
  | append_singleton ads ad ih =>
      rw [relaxAll_append, costs_append, min?_append_singleton, ← ih]
      exact relax_cost ad.1 (relaxAll r ads) ad.2

/-- Packages are handed to the neighbour that advertised the cost last, or as before if
none did. -/
theorem relaxAll_hop (h : relaxAll r ads = some q) :
    some q.hop = (lastHop ads q.cost).or (r.map Route.hop) := by
  induction ads using List.reverseRecOn generalizing q with
  | nil =>
      obtain rfl : r = some q := h
      rfl
  | append_singleton ads ad ih =>
      rw [relaxAll_append] at h
      rcases relax_cases ad.1 (relaxAll r ads) ad.2 with ⟨-, hEq⟩ | ⟨q', hOld, hKeep, hEq⟩
      · obtain rfl : ⟨ad.2 + 1, ad.1⟩ = q := Option.some.inj (hEq.symm.trans h)
        rw [lastHop_append_eq]
        rfl
      · obtain rfl : q' = q := Option.some.inj (hEq.symm.trans h)
        rw [lastHop_append_ne hKeep.ne']
        exact ih hOld

/-- Only which costs were advertised counts for the cost, not when or how often. -/
theorem relaxAll_cost_congr (hSame : ∀ c, c ∈ ads.map Prod.snd ↔ c ∈ ads'.map Prod.snd) :
    (relaxAll r ads).map Route.cost = (relaxAll r ads').map Route.cost := by
  have hCosts : ∀ ads : List (H × ℕ), costs r ads =
      (r.map Route.cost).toList ++ (ads.map Prod.snd).map (· + 1) := by
    intro ads
    rw [costs, List.map_map]
    rfl
  rw [relaxAll_cost, relaxAll_cost, hCosts, hCosts]
  ext c
  simp only [List.min?_eq_some_iff, List.mem_append, List.mem_map (f := (· + 1)), hSame]

end Sequence

end DistanceVector
