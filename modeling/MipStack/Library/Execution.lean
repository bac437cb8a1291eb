import Mathlib.Tactic.Common

/-! Finite executions of labelled transition systems. Side conditions on the
steps of an execution are part of the step relation, so an execution all of
whose steps meet a condition is again an execution. -/
namespace Execution

variable {State Abstract Label AbstractLabel : Type*}

/-- The labels, taken in the order listed, lead from the first state to the
last one. -/
inductive Trace (step : State → Label → State → Prop) :
    State → List Label → State → Prop where
  | nil (s : State) : Trace step s [] s
  | snoc {s m t : State} {ls : List Label} {l : Label}
      (prior : Trace step s ls m) (last : step m l t) :
      Trace step s (ls ++ [l]) t

/-- The steps which also meet a side condition on both states and the label. -/
def Guarded (step guard : State → Label → State → Prop) (s : State) (l : Label) (t : State) :
    Prop :=
  step s l t ∧ guard s l t

variable {step guard guard' : State → Label → State → Prop} {s t : State} {ls : List Label}

theorem Trace.single {l : Label} (h : step s l t) : Trace step s [l] t := by
  simpa using Trace.snoc (Trace.nil s) h

/-- A run goes on where another one ended. The labels of the two are appended. -/
theorem Trace.trans {m : State} {ls' : List Label} (left : Trace step s ls m)
    (right : Trace step m ls' t) : Trace step s (ls ++ ls') t := by
  induction right with
  | nil => simpa using left
  | snoc prior last ih =>
      rw [← List.append_assoc]
      exact Trace.snoc ih last

/-- What is shown of one step relation carries over to the runs of any that it includes. -/
theorem Trace.mono {step' : State → Label → State → Prop} (run : Trace step s ls t)
    (h : ∀ s l t, step s l t → step' s l t) : Trace step' s ls t := by
  induction run with
  | nil => exact Trace.nil _
  | snoc prior last ih => exact Trace.snoc ih (h _ _ _ last)

/-- Dropping the side condition leaves an execution of the same system. -/
theorem Trace.unguard (run : Trace (Guarded step guard) s ls t) : Trace step s ls t :=
  run.mono fun _ _ _ h => h.1

/-- Every step is one of another system under a name of its own. -/
theorem Trace.relabel {step' : State → AbstractLabel → State → Prop} (f : Label → AbstractLabel)
    (run : Trace step s ls t) (h : ∀ s l t, step s l t → step' s (f l) t) :
    Trace step' s (ls.map f) t := by
  induction run with
  | nil => exact Trace.nil _
  | snoc prior last ih =>
      rw [List.map_append]
      exact Trace.snoc ih (h _ _ _ last)

/-- A side condition on the labels alone can be checked on the list of them. -/
theorem Trace.guard_labels {P : Label → Prop} (run : Trace step s ls t) (h : ∀ l ∈ ls, P l) :
    Trace (Guarded step fun _ l _ => P l) s ls t := by
  induction run with
  | nil => exact Trace.nil _
  | snoc prior last ih =>
      rw [List.forall_mem_append] at h
      exact Trace.snoc (ih h.1) ⟨last, h.2 _ (List.mem_singleton_self _)⟩

/-- What holds at the start and is kept by every step holds at the end. -/
theorem Trace.invariant {I : State → Prop} (run : Trace step s ls t) (hStart : I s)
    (hStep : ∀ s l t, I s → step s l t → I t) : I t := by
  induction run with
  | nil => exact hStart
  | snoc prior last ih => exact hStep _ _ _ ih last

/-- A property of both states and the label that every step has, given an
invariant, holds of the steps of the execution. -/
theorem Trace.strengthen {I : State → Prop} (run : Trace step s ls t) (hStart : I s)
    (hStep : ∀ s l t, I s → step s l t → I t)
    (hGuard : ∀ s l t, I s → step s l t → guard s l t) :
    Trace (Guarded step guard) s ls t := by
  induction run with
  | nil => exact Trace.nil _
  | snoc prior last ih =>
      exact Trace.snoc ih ⟨last, hGuard _ _ _ (prior.invariant hStart hStep) last⟩

/-- Two side conditions that agree wherever an invariant holds select the same
executions. The invariant need only survive the steps that are selected. -/
theorem Trace.guarded_iff {I : State → Prop} (hStart : I s)
    (hStep : ∀ s l t, I s → step s l t → guard' s l t → I t)
    (hGuard : ∀ s l t, I s → step s l t → (guard s l t ↔ guard' s l t)) :
    Trace (Guarded step guard) s ls t ↔ Trace (Guarded step guard') s ls t := by
  constructor
  · intro run
    have hEach : ∀ s l t, I s → Guarded step guard s l t → guard' s l t :=
      fun s l t hI h => (hGuard s l t hI h.1).mp h.2
    have hKept : ∀ s l t, I s → Guarded step guard s l t → I t :=
      fun s l t hI h => hStep s l t hI h.1 (hEach s l t hI h)
    exact (run.strengthen hStart hKept hEach).mono fun s l t h => ⟨h.1.1, h.2⟩
  · intro run
    have hEach : ∀ s l t, I s → Guarded step guard' s l t → guard s l t :=
      fun s l t hI h => (hGuard s l t hI h.1).mpr h.2
    have hKept : ∀ s l t, I s → Guarded step guard' s l t → I t :=
      fun s l t hI h => hStep s l t hI h.1 h.2
    exact (run.strengthen hStart hKept hEach).mono fun s l t h => ⟨h.1.1, h.2⟩

/-- The labels can be taken one after the other in a system given by a function
and the condition under which it applies. -/
def Runs (enabled : State → Label → Prop) (perform : State → Label → State) :
    State → List Label → Prop
  | _, [] => True
  | s, l :: ls => enabled s l ∧ Runs enabled perform (perform s l) ls

instance Runs.decidable (enabled : State → Label → Prop) (perform : State → Label → State)
    [∀ s l, Decidable (enabled s l)] :
    (s : State) → (ls : List Label) → Decidable (Runs enabled perform s ls)
  | _, [] => isTrue trivial
  | s, l :: ls =>
    haveI := Runs.decidable enabled perform (perform s l) ls
    inferInstanceAs (Decidable (_ ∧ _))

/-- Actions that are enabled one after the other make a run, and it ends where they lead when they
are simply performed. -/
theorem Runs.trace {enabled : State → Label → Prop} {perform : State → Label → State}
    (h : Runs enabled perform s ls) :
    Trace (fun s l t => enabled s l ∧ t = perform s l) s ls (ls.foldl perform s) := by
  induction ls generalizing s with
  | nil => exact Trace.nil s
  | cons l ls ih => exact (Trace.single ⟨h.1, rfl⟩).trans (ih h.2)

/-- Forward simulation: a system each of whose steps is matched by some
execution of an abstract system only reaches states related to reachable ones. -/
theorem Trace.simulation {R : State → Abstract → Prop}
    {abstractStep : Abstract → AbstractLabel → Abstract → Prop} {a : Abstract}
    (run : Trace step s ls t) (hStart : R s a)
    (hStep : ∀ s l t a, R s a → step s l t →
      ∃ ls' b, Trace abstractStep a ls' b ∧ R t b) :
    ∃ ls' b, Trace abstractStep a ls' b ∧ R t b := by
  induction run with
  | nil => exact ⟨[], a, Trace.nil a, hStart⟩
  | snoc prior last ih =>
      obtain ⟨before, m, hBefore, hMiddle⟩ := ih
      obtain ⟨after, b, hAfter, hEnd⟩ := hStep _ _ _ m hMiddle last
      exact ⟨before ++ after, b, hBefore.trans hAfter, hEnd⟩

/-- Forward simulation step by step: the abstract execution has the same labels. -/
theorem Trace.lockstep {R : State → Abstract → Prop}
    {abstractStep : Abstract → Label → Abstract → Prop} {a : Abstract}
    (run : Trace step s ls t) (hStart : R s a)
    (hStep : ∀ s l t a, R s a → step s l t → ∃ b, abstractStep a l b ∧ R t b) :
    ∃ b, Trace abstractStep a ls b ∧ R t b := by
  induction run with
  | nil => exact ⟨a, Trace.nil a, hStart⟩
  | snoc prior last ih =>
      obtain ⟨m, hPrior, hMiddle⟩ := ih
      obtain ⟨b, hLast, hEnd⟩ := hStep _ _ _ m hMiddle last
      exact ⟨b, Trace.snoc hPrior hLast, hEnd⟩

end Execution
