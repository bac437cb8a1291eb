import MipStack.Commons.ClientPackage
import MipStack.Miptpd.MIPTPPackage

/-! A file on its way out (`miptpd/src/lib/sliding_window.c`,
`miptpd/src/lib/miptp_send_job.c`). -/
namespace MipStack

structure SlidingWindow where
  windowSize : UInt16
  sequenceBase : UInt16
  sequenceMax : UInt16
  deriving DecidableEq, Repr

namespace SlidingWindow

def create (sequenceBase windowSize : UInt16) : SlidingWindow :=
  { windowSize, sequenceBase, sequenceMax := windowSize + 1 }

/-- A request number moves the window only forward. -/
def update (window : SlidingWindow) (sequenceNr : UInt16) : SlidingWindow :=
  if sequenceNr > window.sequenceBase then
    { window with
      sequenceBase := sequenceNr
      sequenceMax := window.sequenceMax - window.sequenceBase + sequenceNr }
  else window

variable (window : SlidingWindow) (sequenceNr : UInt16)

theorem update_base :
    (window.update sequenceNr).sequenceBase.toNat =
      max window.sequenceBase.toNat sequenceNr.toNat := by
  unfold update
  split_ifs with hLt
  · exact (Nat.max_eq_right (UInt16.lt_iff_toNat_lt.mp hLt).le).symm
  · exact (Nat.max_eq_left (UInt16.le_iff_toNat_le.mp (UInt16.not_lt.mp hLt))).symm

/-- The width of the window stays. -/
theorem update_width :
    (window.update sequenceNr).sequenceMax - (window.update sequenceNr).sequenceBase =
      window.sequenceMax - window.sequenceBase := by
  unfold update
  split_ifs
  · exact UInt16.add_sub_cancel _ _
  · rfl

end SlidingWindow

def windowSize : UInt16 := 10

def maxDataBatchSizeBytes : ℕ := 1492

/-- `data_size` is the length of `data`. -/
structure MIPTPSendJob where
  port : BitVec 14
  destination : MIPAddress
  timeout : ℤ
  lastAck : ℤ
  data : List UInt8
  slidingWindow : SlidingWindow
  size_le : data.length ≤ maxDataSizeBytes
  deriving DecidableEq, Repr

namespace MIPTPSendJob

def create (port : BitVec 14) (destination : MIPAddress) (data : List UInt8)
    (size_le : data.length ≤ maxDataSizeBytes) (timeout now : ℤ) : MIPTPSendJob :=
  { port, destination, timeout, lastAck := now, data, size_le
    slidingWindow := SlidingWindow.create 0 windowSize }

/-- The chunk of the data at the position of the sequence number. The index is a
16-bit number, and one that is the data size still gives a package. -/
def nextPackage (job : MIPTPSendJob) (sequenceNr : UInt16) : Option MIPTPPackage :=
  let index := sequenceNr.toNat * maxDataBatchSizeBytes % 2 ^ 16
  if index > job.data.length then none
  else
    let limit := if job.data.length < index + maxDataBatchSizeBytes then job.data.length
      else index + maxDataBatchSizeBytes
    MIPTPPackage.create (UInt16.ofNat job.port.toNat) sequenceNr
      (some ((job.data.drop index).take (limit - index)))

/-- The loop over the window, for at most so many turns. -/
def nextPackagesFrom (job : MIPTPSendJob) : ℕ → UInt16 → List MIPTPPackage
  | 0, _ => []
  | turns + 1, i =>
    match job.nextPackage i with
    | none => []
    | some package => package :: nextPackagesFrom job turns (i + 1)

/-- The packages of the window, first in first out. -/
def nextPackages (job : MIPTPSendJob) : List MIPTPPackage :=
  let window := job.slidingWindow
  job.nextPackagesFrom (window.sequenceMax.toNat - window.sequenceBase.toNat)
    window.sequenceBase

def receivePackage (job : MIPTPSendJob) (package : MIPTPPackage) : MIPTPSendJob :=
  { job with slidingWindow := job.slidingWindow.update package.miptpHeader.psn }

def numPackages (job : MIPTPSendJob) : UInt32 :=
  let full := UInt32.ofNat (job.data.length / maxDataBatchSizeBytes)
  if job.data.length % maxDataBatchSizeBytes ≠ 0 then full + 1 else full

/-- One package is deducted since the base is taken for an index. -/
def isComplete (job : MIPTPSendJob) : Bool :=
  job.slidingWindow.sequenceBase.toUInt32 ≥ job.numPackages - 1

/-- The bytes of the string literal `"OK"`, its end included. -/
def okData : List UInt8 := [79, 75, 0]

def result (job : MIPTPSendJob) : Option ClientPackage :=
  if job.isComplete then
    ClientPackage.create (UInt16.ofNat job.port.toNat) job.destination .receiver okData
  else none

end MIPTPSendJob

/-- The part of the data with a given number. -/
def chunk (data : List UInt8) (i : ℕ) : List UInt8 :=
  (data.drop (i * maxDataBatchSizeBytes)).take maxDataBatchSizeBytes

/-- The number of packages the data makes. -/
def packageCount (size : ℕ) : ℕ := (size + maxDataBatchSizeBytes - 1) / maxDataBatchSizeBytes

namespace MIPTPSendJob

variable {job : MIPTPSendJob} {package : MIPTPPackage} {i : UInt16}

/-- Whatever the limit, at most one batch is taken from the index on. -/
theorem nextPackage_eq (job : MIPTPSendJob) (i : UInt16) :
    job.nextPackage i =
      let index := i.toNat * maxDataBatchSizeBytes % 2 ^ 16
      let batch := (job.data.drop index).take maxDataBatchSizeBytes
      if index > job.data.length then none
      else some ⟨⟨calcPl batch.length, job.port, i⟩, batch⟩ := by
  have hPort : BitVec.ofNat 14 (UInt16.ofNat job.port.toNat).toNat = job.port := by
    have hLt := job.port.isLt
    rw [UInt16.toNat_ofNat', Nat.mod_eq_of_lt (by omega), BitVec.ofNat_toNat, BitVec.setWidth_eq]
  have hBatch : ∀ index, ((job.data.drop index).take maxDataBatchSizeBytes).length ≤
      maxMiptpPackageDataSize := fun index => List.length_take_le _ _
  rw [nextPackage]
  generalize i.toNat * maxDataBatchSizeBytes % 2 ^ 16 = index
  simp only
  split_ifs with hBeyond hEnd
  · rfl
  · have hAll : (job.data.drop index).take (job.data.length - index) =
        (job.data.drop index).take maxDataBatchSizeBytes := by
      rw [List.take_of_length_le (by rw [List.length_drop]),
        List.take_of_length_le (by rw [List.length_drop]; omega)]
    rw [hAll, MIPTPPackage.create_eq_some (hBatch index), hPort]
  · rw [Nat.add_sub_cancel_left, MIPTPPackage.create_eq_some (hBatch index), hPort]

theorem nextPackage_psn (h : job.nextPackage i = some package) : package.miptpHeader.psn = i := by
  rw [nextPackage_eq] at h
  simp only at h
  split_ifs at h
  obtain rfl := Option.some.inj h
  rfl

/-- The packages of the file itself carry its parts. -/
theorem nextPackage_data (h : job.nextPackage i = some package)
    (hInside : i.toNat < packageCount job.data.length) :
    package.data = chunk job.data i.toNat := by
  have hSize := job.size_le
  have hIndex : i.toNat * maxDataBatchSizeBytes < 2 ^ 16 := by
    unfold packageCount maxDataBatchSizeBytes maxDataSizeBytes at *
    omega
  rw [nextPackage_eq, Nat.mod_eq_of_lt hIndex] at h
  simp only at h
  split_ifs at h
  obtain rfl := Option.some.inj h
  rfl

/-- The loop makes packages for the next numbers only. -/
theorem mem_nextPackagesFrom {turns : ℕ} (h : package ∈ job.nextPackagesFrom turns i) :
    ∃ k < turns, job.nextPackage (i + UInt16.ofNat k) = some package := by
  induction turns generalizing i with
  | zero => cases h
  | succ turns ih =>
      rw [nextPackagesFrom] at h
      cases hNext : job.nextPackage i with
      | none =>
          rw [hNext] at h
          cases h
      | some first =>
          rw [hNext] at h
          rcases List.mem_cons.mp h with rfl | hRest
          · refine ⟨0, Nat.succ_pos turns, ?_⟩
            rw [show UInt16.ofNat 0 = 0 from rfl, UInt16.add_zero, hNext]
          · obtain ⟨k, hk, hPackage⟩ := ih hRest
            refine ⟨k + 1, Nat.succ_lt_succ hk, ?_⟩
            rw [← hPackage, UInt16.add_assoc, UInt16.ofNat_add, UInt16.add_comm 1]
            rfl

theorem mem_nextPackages (h : package ∈ job.nextPackages) :
    ∃ i : UInt16, job.nextPackage i = some package ∧
      i.toNat < job.slidingWindow.sequenceMax.toNat := by
  obtain ⟨k, hk, hPackage⟩ := mem_nextPackagesFrom h
  refine ⟨_, hPackage, ?_⟩
  have hMax := job.slidingWindow.sequenceMax.toNat_lt
  have hSum : job.slidingWindow.sequenceBase.toNat + k < job.slidingWindow.sequenceMax.toNat := by
    omega
  rw [UInt16.toNat_add, UInt16.toNat_ofNat', Nat.mod_eq_of_lt (show k < 2 ^ 16 by omega)]
  exact Nat.lt_of_le_of_lt (Nat.mod_le _ _) hSum

/-- The job is taken for complete once all packages but one are acknowledged. -/
theorem isComplete_iff (hData : 0 < job.data.length) :
    job.isComplete ↔
      packageCount job.data.length ≤ job.slidingWindow.sequenceBase.toNat + 1 := by
  have hSize := job.size_le
  have hCount : (job.numPackages - 1).toNat + 1 = packageCount job.data.length := by
    unfold maxDataSizeBytes at hSize
    rw [numPackages]
    unfold packageCount maxDataBatchSizeBytes
    have hFull : (UInt32.ofNat (job.data.length / 1492)).toNat = job.data.length / 1492 := by
      rw [UInt32.toNat_ofNat']
      omega
    have hOne : (1 : UInt32).toNat = 1 := rfl
    split_ifs with hRest
    · rw [UInt32.add_sub_cancel, hFull]
      omega
    · rw [UInt32.toNat_sub_of_le _ _ (by rw [UInt32.le_iff_toNat_le, hFull, hOne]; omega), hFull,
        hOne]
      omega
  rw [isComplete, decide_eq_true_iff, ge_iff_le, UInt32.le_iff_toNat_le, UInt16.toNat_toUInt32]
  omega

end MIPTPSendJob

end MipStack
