import Mathlib.Data.List.Nodup
import Mathlib.Data.List.Perm.Basic

/-! The descriptors a process polls beside those it keeps on record. A descriptor
leaves the poll set only when it is closed. -/
namespace PollSet

variable {Fd : Type*}

structure State (Fd : Type*) where
  polled : List Fd
  known : List Fd

/-- What a step opens, closes, and takes off the record without closing it. -/
structure Change (Fd : Type*) where
  opened : List Fd
  closed : List Fd
  forgotten : List Fd

namespace Change

def none : Change Fd := ⟨[], [], []⟩

end Change

/-- In what order the descriptors are listed does not matter. -/
structure Step (s : State Fd) (change : Change Fd) (t : State Fd) : Prop where
  polled : (t.polled ++ change.closed).Perm (s.polled ++ change.opened)
  known : (t.known ++ (change.forgotten ++ change.closed)).Perm (s.known ++ change.opened)

/-- The descriptors on record are those that are polled, each of them once. -/
structure Mirrors (s : State Fd) : Prop where
  perm : s.known.Perm s.polled
  nodup : s.polled.Nodup

variable {s t : State Fd} {change : Change Fd}

theorem Step.unchanged (hPolled : t.polled = s.polled) (hKnown : t.known = s.known) :
    Step s .none t := by
  constructor
  · rw [hPolled]
    exact List.Perm.refl _
  · rw [hKnown]
    exact List.Perm.refl _

/-- What is polled after a step is on record or was forgotten. -/
theorem Step.perm (step : Step s change t) (h : Mirrors s) :
    (t.known ++ change.forgotten).Perm t.polled := by
  apply (List.perm_append_right_iff change.closed).mp
  rw [List.append_assoc]
  exact step.known.trans ((h.perm.append_right change.opened).trans step.polled.symm)

/-- No descriptor is polled twice as long as those that are opened were not open. -/
theorem Step.nodup (step : Step s change t) (hFresh : (s.polled ++ change.opened).Nodup) :
    t.polled.Nodup :=
  (List.nodup_append.mp (step.polled.nodup_iff.mpr hFresh)).1

/-- What is opened is polled and put on record, so the two stay the same in a step that forgets
nothing. -/
theorem Step.mirrors (step : Step s change t) (h : Mirrors s)
    (hFresh : (s.polled ++ change.opened).Nodup) (hNone : change.forgotten = []) : Mirrors t := by
  have hPerm := step.perm h
  rw [hNone, List.append_nil] at hPerm
  exact ⟨hPerm, step.nodup hFresh⟩

/-- All that is polled is on record exactly as long as nothing was forgotten. -/
theorem Step.subset_iff (step : Step s change t) (h : Mirrors s)
    (hFresh : (s.polled ++ change.opened).Nodup) :
    t.polled ⊆ t.known ↔ change.forgotten = [] := by
  constructor
  · intro hSubset
    apply List.eq_nil_iff_forall_not_mem.mpr
    intro fd hForgotten
    have hNodup := (step.perm h).nodup_iff.mpr (step.nodup hFresh)
    have hPolled : fd ∈ t.polled :=
      (step.perm h).subset (List.mem_append_right t.known hForgotten)
    exact (List.nodup_append.mp hNodup).2.2 fd (hSubset hPolled) fd hForgotten rfl
  · intro hNone
    exact (step.mirrors h hFresh hNone).perm.symm.subset

/-- A step keeps the two the same exactly if it forgets nothing. This is where a missing `close`
shows. -/
theorem Step.mirrors_iff (step : Step s change t) (h : Mirrors s)
    (hFresh : (s.polled ++ change.opened).Nodup) : Mirrors t ↔ change.forgotten = [] :=
  ⟨fun hMirrors => (step.subset_iff h hFresh).mp hMirrors.perm.symm.subset,
    step.mirrors h hFresh⟩

end PollSet
