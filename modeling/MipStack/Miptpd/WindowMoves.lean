import MipStack.Library.Execution
import MipStack.Miptpd.SendWindow
import Mathlib.Data.Finset.Lattice.Fold
import Mathlib.Order.Interval.Finset.Nat
import Mathlib.Order.Lattice.Nat

/-! The window of a send job against the packages it has handed out. -/
namespace MipStack
open Execution MIPTPSendJob

/-- `handedOut` are the numbers of all packages made so far. -/
structure SendHistory where
  job : MIPTPSendJob
  handedOut : Finset ℕ

namespace SendHistory

def start (request : MIPTPSendJob.Request) : SendHistory :=
  { job := request.job, handedOut := ∅ }

inductive Action where
  | next
  | receive (package : MIPTPPackage)

def perform (s : SendHistory) : Action → SendHistory
  | .next => { s with
      handedOut := s.handedOut ∪
        (s.job.nextPackages.map fun package => package.miptpHeader.psn.toNat).toFinset }
  | .receive package => { s with job := s.job.receivePackage package }

def Step (s : SendHistory) (action : Action) (t : SendHistory) : Prop := t = s.perform action

def base (s : SendHistory) : ℕ := s.job.slidingWindow.sequenceBase.toNat

def last (s : SendHistory) : ℕ := s.job.slidingWindow.sequenceMax.toNat

/-- One more than the highest number handed out, 0 if there is none. -/
def nextUnsent (s : SendHistory) : ℕ := s.handedOut.sup (· + 1)

def unacknowledged (s : SendHistory) : Finset ℕ := s.handedOut.filter (s.base ≤ ·)

/-- The window moves forward only, in its full width and not past what was handed out, of
which no more is unacknowledged than the size of the window. -/
structure MovesOverSent (s t : SendHistory) : Prop where
  base_le : s.base ≤ t.base
  width : (t.last : ℤ) - t.base = s.last - s.base
  base_le_sent : t.base ≤ t.nextUnsent
  few : t.unacknowledged.card ≤ windowSize.toNat

/-- The file ends within as many packages as the window should hold, and a package that
moves the window asks for nothing past the next number that was not handed out, and not
for one of the last numbers there are. -/
def StaysInside (s : SendHistory) : Action → Prop
  | .next => ∃ k ≤ windowSize.toNat, s.job.data.length < indexOf (s.base + k)
  | .receive package => package.miptpHeader.psn.toNat ≤ s.base ∨
      package.miptpHeader.psn.toNat ≤ s.nextUnsent ∧
        package.miptpHeader.psn.toNat + (windowSize.toNat + 1) < 2 ^ 16

/-- All numbers up to one in the window were handed out, and none behind it. -/
structure Contiguous (s : SendHistory) : Prop where
  handedOut : s.handedOut = Finset.range s.nextUnsent
  base_le : s.base ≤ s.nextUnsent
  sent_le : s.nextUnsent ≤ s.base + windowSize.toNat
  last : s.last = s.base + (windowSize.toNat + 1)

variable {s t : SendHistory} {action : Action} {package : MIPTPPackage} {m : ℕ}

theorem sup_range (m : ℕ) : (Finset.range m).sup (· + 1) = m := by
  induction m with
  | zero => rfl
  | succ m ih =>
      rw [Finset.range_add_one, Finset.sup_insert, ih]
      exact Nat.max_eq_left (Nat.le_succ m)

/-- Of numbers handed out without a gap, those from the base on are unacknowledged. -/
theorem card_unacknowledged (h : s.handedOut = Finset.range m) :
    s.unacknowledged.card = m - s.base := by
  have hIco : s.unacknowledged = Finset.Ico s.base m := by
    ext k
    rw [unacknowledged, h, Finset.mem_filter, Finset.mem_range, Finset.mem_Ico, and_comm]
  rw [hIco, Nat.card_Ico]

theorem nextUnsent_eq (h : s.handedOut = Finset.range m) : s.nextUnsent = m := by
  rw [nextUnsent, h, sup_range]

theorem Contiguous.start (request : MIPTPSendJob.Request) : Contiguous (start request) :=
  ⟨rfl, Nat.le_refl 0, Nat.zero_le _, rfl⟩

/-- The numbers that a window hands out, from its base on and without a gap. -/
theorem Contiguous.numbers (h : Contiguous s) : ∃ made ≤ windowSize.toNat + 1,
    (s.job.nextPackages.map fun package => package.miptpHeader.psn.toNat) =
        List.range' s.base made ∧
      (made ≤ windowSize.toNat ↔ s.StaysInside .next) := by
  have hLast := h.last
  have hWidth : s.last - s.base = windowSize.toNat + 1 := by omega
  have hBound : s.last < 2 ^ 16 := s.job.slidingWindow.sequenceMax.toNat_lt
  obtain ⟨made, hMade, hNumbers⟩ :=
    Chunks.takeWhile_range'_eq s.job.Makes s.base (windowSize.toNat + 1)
  have hPackages : s.job.nextPackages = (List.range' s.base made).map s.job.packageOf := by
    rw [nextPackages_eq, ← hNumbers, ← hWidth]
    rfl
  refine ⟨made, hMade, ?_, ?_⟩
  · rw [hPackages]
    refine map_psn fun k hMem => ?_
    obtain ⟨-, hHigh⟩ := List.mem_range'_1.mp hMem
    omega
  · have hLength := Chunks.length_takeWhile_range'_le_iff s.job.Makes s.base windowSize.toNat
    rw [hNumbers, List.length_range'] at hLength
    rw [hLength, StaysInside]
    simp only [Makes, decide_eq_false_iff_not, Nat.not_le]

/-- The numbers handed out stay without a gap, as a window begins at or below the first one that
is new. -/
theorem Contiguous.next (h : Contiguous s) : ∃ made ≤ windowSize.toNat + 1,
    (s.perform .next).handedOut = Finset.range (max s.nextUnsent (s.base + made)) ∧
      (made ≤ windowSize.toNat ↔ s.StaysInside .next) := by
  obtain ⟨made, hMade, hNumbers, hStays⟩ := h.numbers
  have hBase := h.base_le
  refine ⟨made, hMade, ?_, hStays⟩
  show s.handedOut ∪ (s.job.nextPackages.map _).toFinset = _
  rw [hNumbers, List.toFinset_range'_1, h.handedOut]
  ext k
  simp only [Finset.mem_union, Finset.mem_range, Finset.mem_Ico]
  omega

/-- Handing out packages keeps the window over what was sent exactly if the file ends inside it.
One number too many is handed out otherwise. -/
theorem movesOverSent_next_iff (h : Contiguous s) :
    MovesOverSent s (s.perform .next) ↔ s.StaysInside .next := by
  obtain ⟨made, hMade, hHanded, hStays⟩ := h.next
  have hCard := card_unacknowledged hHanded
  have hUnsent := nextUnsent_eq hHanded
  have hBase : (s.perform .next).base = s.base := rfl
  have hLow := h.base_le
  have hHigh := h.sent_le
  rw [← hStays]
  constructor
  · intro hMoves
    have hFew := hMoves.few
    omega
  · intro hFew
    exact ⟨hBase.ge, rfl, by omega, by omega⟩

/-- A package moves the base forward, and the end of the window with it, in 16 bits. -/
theorem Contiguous.receive (h : Contiguous s) (package : MIPTPPackage) :
    (s.perform (.receive package)).base = max s.base package.miptpHeader.psn.toNat ∧
      (s.perform (.receive package)).last =
        (max s.base package.miptpHeader.psn.toNat + (windowSize.toNat + 1)) % 2 ^ 16 := by
  have hLast := h.last
  have hBase : (s.perform (.receive package)).base = max s.base package.miptpHeader.psn.toNat :=
    SlidingWindow.update_base _ _
  have hWidth : (s.job.slidingWindow.sequenceMax - s.job.slidingWindow.sequenceBase).toNat =
      windowSize.toNat + 1 := by
    rw [UInt16.toNat_sub_of_le _ _ (UInt16.le_iff_toNat_le.mpr (show s.base ≤ s.last by omega))]
    exact (show s.last - s.base = _ by omega)
  refine ⟨hBase, ?_⟩
  have hSum := congrArg UInt16.toNat (UInt16.sub_eq_iff_eq_add.mp
    (SlidingWindow.update_width s.job.slidingWindow package.miptpHeader.psn))
  rw [UInt16.toNat_add, hWidth, SlidingWindow.update_base, Nat.add_comm] at hSum
  exact hSum

/-- An acknowledgement does so exactly if it asks for nothing that was not sent yet, and not for
one of the last numbers. -/
theorem movesOverSent_receive_iff (h : Contiguous s) (package : MIPTPPackage) :
    MovesOverSent s (s.perform (.receive package)) ↔ s.StaysInside (.receive package) := by
  obtain ⟨hBase, hLast⟩ := h.receive package
  have hOld := h.last
  have hLow := h.base_le
  have hHigh := h.sent_le
  have hBound : s.last < 2 ^ 16 := s.job.slidingWindow.sequenceMax.toNat_lt
  have hUnsent : (s.perform (.receive package)).nextUnsent = s.nextUnsent := rfl
  have hCard : (s.perform (.receive package)).unacknowledged.card =
      s.nextUnsent - (s.perform (.receive package)).base := card_unacknowledged h.handedOut
  rw [StaysInside]
  constructor
  · intro hMoves
    have hWidth := hMoves.width
    have hSent := hMoves.base_le_sent
    omega
  · intro hStays
    exact ⟨by omega, by omega, by omega, by omega⟩

theorem movesOverSent_perform_iff (h : Contiguous s) (action : Action) :
    MovesOverSent s (s.perform action) ↔ s.StaysInside action := by
  cases action with
  | next => exact movesOverSent_next_iff h
  | receive package => exact movesOverSent_receive_iff h package

/-- The invariant of the runs that stay inside: what was handed out is all numbers up to one in
the window. -/
theorem Contiguous.perform (h : Contiguous s) (hStays : s.StaysInside action) :
    Contiguous (s.perform action) := by
  have hMoves := (movesOverSent_perform_iff h action).mpr hStays
  have hLast := h.last
  have hWidth := hMoves.width
  have hSent := hMoves.base_le_sent
  have hFew := hMoves.few
  have hHanded : (s.perform action).handedOut = Finset.range (s.perform action).nextUnsent := by
    cases action with
    | next =>
        obtain ⟨made, -, hHanded, -⟩ := h.next
        rw [nextUnsent_eq hHanded, hHanded]
    | receive package => exact h.handedOut
  rw [card_unacknowledged hHanded] at hFew
  exact ⟨hHanded, hSent, by omega, by omega⟩

/-- In the runs whose steps all stay inside, and in no others, the window only ever moves
over what was sent. -/
theorem window_moves_over_sent_iff (request : MIPTPSendJob.Request) (actions : List Action)
    (t : SendHistory) :
    Trace (Guarded Step fun s _ t => MovesOverSent s t) (start request) actions t ↔
      Trace (Guarded Step fun s action _ => s.StaysInside action) (start request) actions t := by
  apply Trace.guarded_iff (Contiguous.start request)
  · rintro s action _ h rfl hStays
    exact h.perform hStays
  · rintro s action _ h rfl
    exact movesOverSent_perform_iff h action

/-- Eleven packages of a large file are handed out at once, and a package that asks for
number 65535 moves the window there before anything was sent. -/
theorem window_leaves_what_was_sent :
    let request : MIPTPSendJob.Request := ⟨80, 10, List.replicate 65535 7,
      by rw [List.length_replicate]; decide, 1000, 0⟩
    let package : MIPTPPackage := ⟨⟨0, 80, 65535⟩, []⟩
    let s := start request
    ¬ MovesOverSent s (s.perform .next) ∧ ¬ MovesOverSent s (s.perform (.receive package)) := by
  intro request package s
  have hStart := Contiguous.start request
  have hLength : (start request).job.data.length = 65535 := List.length_replicate
  refine ⟨fun hMoves => ?_, fun hMoves => ?_⟩
  · obtain ⟨k, -, hBehind⟩ := (movesOverSent_next_iff hStart).mp hMoves
    have hPlace : indexOf ((start request).base + k) < 2 ^ 16 := Nat.mod_lt _ (by decide)
    omega
  · have hBase := hMoves.base_le_sent
    rw [(hStart.receive package).1] at hBase
    exact absurd hBase (by decide)

end SendHistory

end MipStack
