import MipStack.Library.Execution
import MipStack.Library.GoBackN
import MipStack.Miptpd.AppConnection

/-! A sending connection and a go-back-N receiver. Packages and answers may be
lost, repeated and reordered between them. -/
namespace MipStack
open Execution

structure OutgoingFile where
  data : List UInt8
  size_pos : 0 < data.length
  size_le : data.length ≤ maxDataSizeBytes

/-- `packages` and `answers` hold all that was ever sent. The receiver holds the
packages it took, and asks for the number that is their count. -/
structure Transfer where
  sender : AppConnection
  held : List MIPTPPackage
  packages : List MIPTPPackage
  answers : List MIPTPPackage

namespace Transfer

/-- The connection of an application that registered the file. -/
def start (file : OutgoingFile) (socket : ℤ) (port : UInt16) (destination : MIPAddress)
    (timeout now : ℤ) : Transfer :=
  { sender := (AppConnection.create .sender socket port destination file.data file.size_le
      timeout now).get rfl
    held := [], packages := [], answers := [] }

inductive Action where
  | send
  /-- A package arrives; the receiver answers. -/
  | deliver (package answer : MIPTPPackage)
  | hear (answer : MIPTPPackage)

/-- The packages held after one more arrives. -/
def take (held : List MIPTPPackage) (package : MIPTPPackage) : List MIPTPPackage :=
  if package.miptpHeader.psn.toNat = held.length then held ++ [package] else held

def perform (s : Transfer) : Action → Transfer
  | .send =>
    match s.sender.nextPackages with
    | .ok packages => { s with packages := s.packages ++ packages }
    | .error _ => s
  | .deliver package answer =>
    { s with
      held := take s.held package
      answers := s.answers ++ [answer] }
  | .hear answer =>
    match s.sender.receivePackage s.sender.connectedMip answer with
    | .ok (_, sender) => { s with sender }
    | .error _ => s

/-- An answer carries the number of the package that the receiver waits for. -/
def Enabled (s : Transfer) : Action → Prop
  | .send => True
  | .deliver package answer => package ∈ s.packages ∧
      answer.miptpHeader.psn = UInt16.ofNat (take s.held package).length
  | .hear answer => answer ∈ s.answers

instance (s : Transfer) (action : Action) : Decidable (s.Enabled action) :=
  match action with
  | .send => isTrue trivial
  | .deliver _ _ => inferInstanceAs (Decidable (_ ∧ _))
  | .hear _ => inferInstanceAs (Decidable (_ ∈ _))

def Step (s : Transfer) (action : Action) (t : Transfer) : Prop :=
  s.Enabled action ∧ t = s.perform action

/-- The receiver holds every part of the file. -/
def Arrived (file : OutgoingFile) (s : Transfer) : Prop :=
  ∀ i < packageCount file.data.length, ∃ package ∈ s.held[i]?,
    package.miptpHeader.psn.toNat = i ∧ package.data = chunk file.data i

/-- The connection counts as complete only if the file has arrived. -/
def CompleteMeansArrived (file : OutgoingFile) (s : Transfer) : Prop :=
  s.sender.status = .complete → s.Arrived file

/-- No answer asks a connection that still sends for the last package before that
package has arrived. -/
def LastArrivedBefore (file : OutgoingFile) (s : Transfer) : Action → Prop
  | .hear answer => s.sender.status = .sender →
      answer.miptpHeader.psn.toNat + 1 = packageCount file.data.length →
        packageCount file.data.length ≤ s.held.length
  | _ => True

/-- The numbers that are in use, and the package of each. -/
def content (job : MIPTPSendJob) (i : ℕ) (package : MIPTPPackage) : Prop :=
  i < 54 ∧ package.miptpHeader.psn.toNat = i ∧ job.nextPackage (UInt16.ofNat i) = some package

/-- The transfer as the protocol sees it. -/
def protocol (s : Transfer) : GoBackN.State MIPTPPackage :=
  { base := (s.sender.sJob.elim 0 fun job => job.slidingWindow.sequenceBase.toNat)
    held := s.held
    packages := s.packages.map fun package => (package.miptpHeader.psn.toNat, package)
    answers := s.answers.map fun answer => answer.miptpHeader.psn.toNat }

/-- The job of the sender is the first one with its window moved on. A connection
that still sends has at most all packages but one acknowledged, a complete one
has sent a file that arrived. -/
structure Sending (job : MIPTPSendJob) (s : Transfer) : Prop where
  sJob : ∃ window, s.sender.sJob = some { job with slidingWindow := window } ∧
    window.sequenceMax - window.sequenceBase = windowSize + 1
  status : s.sender.status = .sender ∧
      (s.protocol.base = 0 ∨ s.protocol.base + 1 < packageCount job.data.length) ∨
    s.sender.status = .complete ∧ packageCount job.data.length ≤ s.held.length
  sound : GoBackN.Sound (content job) s.protocol

variable {file : OutgoingFile} {job : MIPTPSendJob} {s t : Transfer} {action : Action}
  {answer package : MIPTPPackage}

theorem Sending.length_le (h : Sending job s) : s.held.length ≤ 54 :=
  h.sound.length_le fun _ _ hContent => hContent.1

theorem Sending.answer_le (h : Sending job s) (hMem : answer ∈ s.answers) :
    answer.miptpHeader.psn.toNat ≤ s.held.length :=
  h.sound.answers _ (List.mem_map_of_mem hMem)

/-- The file has arrived exactly if the receiver took as many packages as it makes. -/
theorem Sending.arrived_iff (h : Sending job s) (hData : job.data = file.data) :
    s.Arrived file ↔ packageCount file.data.length ≤ s.held.length := by
  have hCount : 0 < packageCount file.data.length := by
    have hPos := file.size_pos
    unfold packageCount maxDataBatchSizeBytes
    omega
  constructor
  · intro hArrived
    obtain ⟨package, hGet, -⟩ := hArrived (packageCount file.data.length - 1) (by omega)
    have hLt := (List.getElem?_eq_some_iff.mp hGet).1
    omega
  · intro hLength i hi
    obtain ⟨package, hGet, -, hPsn, hNext⟩ := h.sound.exists_held (Nat.lt_of_lt_of_le hi hLength)
    refine ⟨package, hGet, hPsn, ?_⟩
    have hNumber := MIPTPSendJob.nextPackage_psn hNext
    rw [← hPsn, hNumber, ← hData]
    apply MIPTPSendJob.nextPackage_data hNext
    rw [← hNumber, hPsn, hData]
    exact hi

/-- What the window gives has numbers in use, all of them below 54, so that none ever wraps. -/
theorem Sending.content_of_send (h : Sending job s) (hSender : s.sender.status = .sender)
    {packages : List MIPTPPackage} (hNext : s.sender.nextPackages = .ok packages)
    (hMem : package ∈ packages) : content job package.miptpHeader.psn.toNat package := by
  obtain ⟨window, hJob, hWindow⟩ := h.sJob
  simp only [AppConnection.nextPackages, hSender, hJob, Except.ok.injEq] at hNext
  obtain ⟨i, hPackage, hi⟩ := MIPTPSendJob.mem_nextPackages (hNext ▸ hMem)
  have hSize := job.size_le
  have hBase : window.sequenceBase.toNat ≤ 43 := by
    rcases h.status with ⟨-, hBase⟩ | ⟨hComplete, -⟩
    · simp only [protocol, hJob, Option.elim_some] at hBase
      unfold packageCount maxDataBatchSizeBytes maxDataSizeBytes at *
      omega
    · rw [hSender] at hComplete
      cases hComplete
  have hMax : window.sequenceMax.toNat = window.sequenceBase.toNat + 11 := by
    rw [UInt16.sub_eq_iff_eq_add.mp hWindow, UInt16.toNat_add, Nat.add_comm]
    exact Nat.mod_eq_of_lt (by change _ + 11 < 2 ^ 16; omega)
  simp only at hi
  obtain rfl := MIPTPSendJob.nextPackage_psn hPackage
  refine ⟨by omega, rfl, ?_⟩
  rw [UInt16.ofNat_toNat]
  exact hPackage

/-- All packages of the window carry the number and the content that belong to it. -/
theorem Sending.send (h : Sending job s) : Sending job (s.perform .send) := by
  rcases h.status with ⟨hSender, hBase⟩ | ⟨hComplete, hLength⟩
  · cases hNext : s.sender.nextPackages with
    | error halt => simpa only [perform, hNext] using h
    | ok packages =>
        simp only [perform, hNext]
        refine ⟨h.sJob, Or.inl ⟨hSender, hBase⟩, ?_⟩
        have hStep : GoBackN.Step (content job) s.protocol _ := GoBackN.Step.send s.protocol
          (packages.map fun package => (package.miptpHeader.psn.toNat, package)) (by
            intro p hMem
            obtain ⟨package, hPackage, rfl⟩ := List.mem_map.mp hMem
            exact h.content_of_send hSender hNext hPackage)
        have hSound := h.sound.step hStep
        simpa only [protocol, List.map_append] using hSound
  · have hNone : s.sender.nextPackages = .ok [] := by
      simp only [AppConnection.nextPackages, hComplete]
    simpa only [perform, hNone, List.append_nil] using h

/-- The receiver takes the package it waits for and answers any other one with the number it waits
for. -/
theorem Sending.deliver (h : Sending job s) (hEnabled : s.Enabled (.deliver package answer)) :
    Sending job (s.perform (.deliver package answer)) := by
  obtain ⟨hMem, hAnswer⟩ := hEnabled
  have hLength := h.length_le
  have hLe : s.held.length ≤ (take s.held package).length := by
    unfold take
    split_ifs <;> simp
  refine ⟨h.sJob, h.status.imp_right fun hComplete =>
    ⟨hComplete.1, hComplete.2.trans hLe⟩, ?_⟩
  by_cases hNumber : package.miptpHeader.psn.toNat = s.held.length
  · have hStep : GoBackN.Step (content job) s.protocol _ := GoBackN.Step.accept s.protocol package
      (hNumber ▸ List.mem_map_of_mem hMem)
    have hSound := h.sound.step hStep
    have hTake : take s.held package = s.held ++ [package] := if_pos hNumber
    have hPsn : answer.miptpHeader.psn.toNat = s.held.length + 1 := by
      rw [hAnswer, hTake, List.length_append, List.length_singleton, UInt16.toNat_ofNat']
      exact Nat.mod_eq_of_lt (by omega)
    simpa only [protocol, perform, hTake, List.map_append, List.map_cons, List.map_nil, hPsn]
      using hSound
  · have hSound := h.sound.step (GoBackN.Step.refuse s.protocol)
    have hTake : take s.held package = s.held := if_neg hNumber
    have hPsn : answer.miptpHeader.psn.toNat = s.held.length := by
      rw [hAnswer, hTake, UInt16.toNat_ofNat']
      exact Nat.mod_eq_of_lt (by omega)
    simpa only [protocol, perform, hTake, List.map_append, List.map_cons, List.map_nil, hPsn]
      using hSound

/-- An answer moves the window on. The connection is complete after it asks for
the last package of the file or a later one. -/
theorem Sending.hear_eq (h : Sending job s) (hData : 0 < job.data.length)
    (hSender : s.sender.status = .sender) (answer : MIPTPPackage) :
    ∃ window : SlidingWindow, window.sequenceMax - window.sequenceBase = windowSize + 1 ∧
      window.sequenceBase.toNat = max s.protocol.base answer.miptpHeader.psn.toNat ∧
      s.perform (.hear answer) = { s with sender := { s.sender with
        sJob := some { job with slidingWindow := window }
        status := if packageCount job.data.length ≤ answer.miptpHeader.psn.toNat + 1
          then .complete else .sender } } := by
  obtain ⟨window, hJob, hWindow⟩ := h.sJob
  have hBase : s.protocol.base = window.sequenceBase.toNat := by rw [protocol, hJob]; rfl
  refine ⟨window.update answer.miptpHeader.psn, ?_, ?_, ?_⟩
  · rw [SlidingWindow.update_width, hWindow]
  · rw [SlidingWindow.update_base, hBase]
  · have hComplete : (({ job with slidingWindow := window.update answer.miptpHeader.psn } :
        MIPTPSendJob).isComplete = true) ↔
          packageCount job.data.length ≤ answer.miptpHeader.psn.toNat + 1 := by
      refine (MIPTPSendJob.isComplete_iff (by exact hData)).trans ?_
      rw [SlidingWindow.update_base, ← hBase]
      change packageCount job.data.length ≤ _ ↔ _
      rcases h.status with ⟨-, hZero | hOpen⟩ | ⟨hDone, -⟩
      · rw [hZero, Nat.zero_max]
      · omega
      · rw [hSender] at hDone
        cases hDone
    simp only [perform, AppConnection.receivePackage, hSender, hJob, MIPTPSendJob.receivePackage,
      hComplete]

/-- What is not a sender any more ignores the answers, so a complete transfer stays complete. -/
theorem perform_hear_complete (hComplete : s.sender.status = .complete) :
    s.perform (.hear answer) = s := by
  simp only [perform, AppConnection.receivePackage, hComplete]

/-- An answer that ends the transfer must not come before the file. Any other one moves the window
to a number that has arrived. -/
theorem Sending.hear (h : Sending job s) (hData : 0 < job.data.length) (hMem : answer ∈ s.answers)
    (hLast : s.sender.status = .sender →
      answer.miptpHeader.psn.toNat + 1 = packageCount job.data.length →
        packageCount job.data.length ≤ s.held.length) :
    Sending job (s.perform (.hear answer)) := by
  rcases h.status with ⟨hSender, hOpen⟩ | ⟨hComplete, -⟩
  · obtain ⟨window, hWindow, hBase, hPerform⟩ := h.hear_eq hData hSender answer
    have hHeld := h.answer_le hMem
    rw [hPerform]
    refine ⟨⟨window, rfl, hWindow⟩, ?_, ?_⟩
    · simp only [protocol, Option.elim_some] at hBase hOpen ⊢
      rw [hBase]
      split_ifs with hCount
      · refine Or.inr ⟨rfl, ?_⟩
        rcases Nat.lt_or_ge answer.miptpHeader.psn.toNat (packageCount job.data.length) with
          hLt | hGe
        · exact hLast hSender (by omega)
        · exact hGe.trans hHeld
      · exact Or.inl ⟨rfl, by omega⟩
    · have hStep : GoBackN.Step (content job) s.protocol _ := GoBackN.Step.hear s.protocol _
        (List.mem_map_of_mem hMem)
      simpa only [protocol, Option.elim_some, hBase] using h.sound.step hStep
  · rw [perform_hear_complete hComplete]
    exact h

theorem Sending.start (file : OutgoingFile) (socket : ℤ) (port : UInt16)
    (destination : MIPAddress) (timeout now : ℤ) :
    Sending (MIPTPSendJob.create (BitVec.ofNat 14 port.toNat) destination file.data file.size_le
      timeout now) (start file socket port destination timeout now) :=
  ⟨⟨SlidingWindow.create 0 windowSize, rfl, rfl⟩, Or.inl ⟨rfl, Or.inl rfl⟩,
    GoBackN.Sound.start⟩

/-- The step lemma: the sender's window stays behind what has arrived, as long as the last package
is not asked for too early. -/
theorem Sending.perform (h : Sending job s) (hData : job.data = file.data)
    (hEnabled : s.Enabled action) (hLast : LastArrivedBefore file s action) :
    Sending job (s.perform action) := by
  cases action with
  | send => exact h.send
  | deliver package answer => exact h.deliver hEnabled
  | hear answer =>
      have hPos : 0 < job.data.length := hData ▸ file.size_pos
      apply h.hear hPos hEnabled
      rw [hData]
      exact hLast

/-- At the end all packages were taken, so the receiver holds the whole file. -/
theorem Sending.completeMeansArrived (h : Sending job s) (hData : job.data = file.data) :
    CompleteMeansArrived file s := by
  intro hComplete
  rw [h.arrived_iff hData, ← hData]
  rcases h.status with ⟨hSender, -⟩ | ⟨-, hLength⟩
  · rw [hComplete] at hSender
    cases hSender
  · exact hLength

/-- After one action a complete connection means that the file has arrived,
exactly if the action is no answer that comes too early. -/
theorem Sending.completeMeansArrived_iff (h : Sending job s) (hData : job.data = file.data)
    (hEnabled : s.Enabled action) :
    CompleteMeansArrived file (s.perform action) ↔ LastArrivedBefore file s action := by
  constructor
  · intro hArrived
    cases action with
    | send => trivial
    | deliver package answer => trivial
    | hear answer =>
        intro hSender hLast
        have hPos : 0 < job.data.length := hData ▸ file.size_pos
        obtain ⟨window, -, -, hPerform⟩ := h.hear_eq hPos hSender answer
        rw [← h.arrived_iff hData]
        rw [hPerform, if_pos (hData ▸ hLast.ge)] at hArrived
        exact hArrived rfl
  · intro hLast
    exact (h.perform hData hEnabled hLast).completeMeansArrived hData

/-- In the runs in which no answer asks for the last package before that package
has arrived, and in no others, a connection becomes complete only after its file
has arrived. -/
theorem complete_means_arrived_iff (file : OutgoingFile) (socket : ℤ) (port : UInt16)
    (destination : MIPAddress) (timeout now : ℤ) (actions : List Action) (t : Transfer) :
    Trace (Guarded Step fun _ _ t => CompleteMeansArrived file t)
        (start file socket port destination timeout now) actions t ↔
      Trace (Guarded Step fun s action _ => LastArrivedBefore file s action)
        (start file socket port destination timeout now) actions t := by
  apply Trace.guarded_iff (Sending.start file socket port destination timeout now)
  · rintro s action t h ⟨hEnabled, rfl⟩ hLast
    exact h.perform rfl hEnabled hLast
  · rintro s action t h ⟨hEnabled, rfl⟩
    exact h.completeMeansArrived_iff rfl hEnabled

/-- A file of two packages counts as sent once the first one is acknowledged, because the base of
the window is compared with the number of packages less one. -/
theorem complete_before_last_package :
    let file : OutgoingFile := ⟨List.replicate 1493 7, by rw [List.length_replicate]; decide,
      by rw [List.length_replicate]; decide⟩
    let first : MIPTPPackage := ⟨⟨0, 80, 0⟩, List.replicate 1492 7⟩
    let answer : MIPTPPackage := ⟨⟨0, 80, 1⟩, []⟩
    ∃ t, Trace Step (start file 7 80 20 0 0) [.send, .deliver first answer, .hear answer] t ∧
      t.held.length = 1 ∧ ¬ CompleteMeansArrived file t := by
  intro file first answer
  let actions : List Action := [.send, .deliver first answer, .hear answer]
  have hRuns : Runs Enabled perform (start file 7 80 20 0 0) actions := by decide +kernel
  have hComplete : (actions.foldl perform (start file 7 80 20 0 0)).sender.status = .complete := by
    decide +kernel
  have hHeld : (actions.foldl perform (start file 7 80 20 0 0)).held.length = 1 := by
    decide +kernel
  refine ⟨_, hRuns.trace, hHeld, fun hArrived => ?_⟩
  have hTwo : 1 < packageCount file.data.length := by
    show 1 < packageCount (List.replicate 1493 (7 : UInt8)).length
    rw [List.length_replicate]
    decide
  obtain ⟨package, hGet, -⟩ := hArrived hComplete 1 hTwo
  have hLt := (List.getElem?_eq_some_iff.mp hGet).1
  omega

end Transfer

end MipStack
