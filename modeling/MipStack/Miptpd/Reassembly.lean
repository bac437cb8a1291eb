import MipStack.Miptpd.MIPTPReceiveJob
import MipStack.Miptpd.MIPTPSendJob

/-! What a fresh receive job makes of a transfer. Its status is none of the three
the job can wait in, and its sizes agree before anything is announced. -/
namespace MipStack

/-- A package that carries a part of the file. -/
def IsDataPackage (file : List UInt8) (package : MIPTPPackage) : Prop :=
  package.miptpHeader.psn.toNat * maxDataBatchSizeBytes ≤ file.length ∧
    package.data = chunk file package.miptpHeader.psn.toNat

/-- The packages of one transfer as they are handed to the job: first the one that
announces the size, then parts of the file, any of them, in any order. -/
structure Delivery (file : List UInt8) where
  opening : MIPTPPackage
  packages : List MIPTPPackage
  file_le : file.length ≤ maxDataSizeBytes
  announces : opening.data.take 2 = ByteLayout.encode 2 file.length
  of_file : ∀ package ∈ packages, IsDataPackage file package

namespace MIPTPReceiveJob

/-- The packages are handed over one after the other. -/
def receivePackages (job : MIPTPReceiveJob) (sender : MIPAddress) :
    List MIPTPPackage → Except Halt MIPTPReceiveJob
  | [] => .ok job
  | package :: rest =>
    match job.receivePackage sender package with
    | .error halt => .error halt
    | .ok (_, job) => job.receivePackages sender rest

/-- The received bytes are the parts that were asked for, and the job is complete
with the file as its result exactly if the whole file is there. -/
structure Rebuilds (file : List UInt8) (job : MIPTPReceiveJob) : Prop where
  data : job.data.take job.dataReceived.toNat =
    (List.range job.requestNr.toNat).flatMap (chunk file)
  complete : job.isComplete ↔ job.data.take job.dataReceived.toNat = file
  result : job.isComplete → ∃ package, job.result = some package ∧ package.data = file

/-- A part that was not asked for is received without effect on the data. -/
def IgnoresOthers (file : List UInt8) (sender : MIPAddress) (job : MIPTPReceiveJob) : Prop :=
  ∀ package, IsDataPackage file package → package.miptpHeader.psn ≠ job.requestNr →
    ∃ rc after, job.receivePackage sender package = .ok (rc, after) ∧
      after.data = job.data ∧ after.dataReceived = job.dataReceived

variable {job : MIPTPReceiveJob} {sender : MIPAddress}

/-- A job that does not wait for a connection and counts as complete takes nothing. -/
theorem receivePackage_of_complete (hStatus : job.status ≠ .waitingForConnection)
    (hComplete : job.isComplete) (package : MIPTPPackage) :
    job.receivePackage sender package = .ok (1, job) := by
  rw [receivePackage, if_neg hStatus, if_pos hComplete]

/-- A job that has all its data takes nothing more. -/
theorem receivePackages_of_complete (hStatus : job.status ≠ .waitingForConnection)
    (hComplete : job.isComplete) (packages : List MIPTPPackage) :
    job.receivePackages sender packages = .ok job := by
  induction packages with
  | nil => rfl
  | cons package rest ih => simp only [receivePackages,
      receivePackage_of_complete hStatus hComplete, ih]

/-- The state that a fresh job never leaves rebuilds the empty file and no other. -/
theorem rebuilds_of_nothing_received {file : List UInt8} (hReceived : job.dataReceived = 0)
    (hRequest : job.requestNr = 0) (hComplete : job.isComplete) :
    job.Rebuilds file ↔ file = [] := by
  have hData : job.data.take job.dataReceived.toNat = [] := by rw [hReceived]; rfl
  constructor
  · intro h
    exact (h.complete.mp hComplete).symm.trans hData
  · rintro rfl
    refine ⟨?_, iff_of_true hComplete hData, fun _ => ?_⟩
    · rw [hData, hRequest]
      rfl
    · rw [result, if_pos hComplete, hData]
      exact ⟨_, rfl, rfl⟩

/-- Whatever parts arrive after the announcement, a fresh job rebuilds the file
exactly if it is empty. -/
theorem fresh_job_rebuilds_iff (file : List UInt8) (delivery : Delivery file) (port : BitVec 14)
    (timeout : ℤ) (sender : MIPAddress) :
    (∃ job, (create port timeout).receivePackages sender
        (delivery.opening :: delivery.packages) = .ok job ∧
      job.Rebuilds file ∧ job.IgnoresOthers file sender) ↔ file = [] := by
  have hStatus : (create port timeout).status ≠ .waitingForConnection := by simp [create]
  have hComplete : (create port timeout).isComplete := rfl
  rw [receivePackages_of_complete hStatus hComplete]
  constructor
  · rintro ⟨job, hJob, hRebuilds, -⟩
    obtain rfl := Except.ok.inj hJob
    exact (rebuilds_of_nothing_received rfl rfl hComplete).mp hRebuilds
  · intro hEmpty
    refine ⟨_, rfl, (rebuilds_of_nothing_received rfl rfl hComplete).mpr hEmpty, ?_⟩
    intro package _ _
    exact ⟨1, _, receivePackage_of_complete hStatus hComplete package, rfl, rfl⟩

/-- A file of one byte counts as received when only its size was announced. A fresh job does not
wait for the announcement, so it expects no bytes at all. -/
theorem complete_without_data :
    let job := create 80 0
    let delivery : Delivery [7] := ⟨⟨⟨0, 80, 0⟩, [1, 0]⟩, [], by decide, by decide, by simp⟩
    job.receivePackages 10 (delivery.opening :: delivery.packages) = .ok job ∧
      job.isComplete ∧ job.data.take job.dataReceived.toNat = [] ∧ ¬ job.Rebuilds [7] := by
  intro job delivery
  have hStatus : job.status ≠ .waitingForConnection := by simp [job, create]
  refine ⟨receivePackages_of_complete hStatus rfl _, rfl, rfl, fun h => ?_⟩
  have hFile := h.complete.mp rfl
  cases hFile

end MIPTPReceiveJob

end MipStack
