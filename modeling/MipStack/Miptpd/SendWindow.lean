import MipStack.Library.Chunks
import MipStack.Miptpd.MIPTPSendJob

/-! Which packages a send job makes for the window it has reached. -/
namespace MipStack

namespace MIPTPSendJob

/-- The place of a part in the data, in the 16 bits it is computed in. -/
def indexOf (k : ℕ) : ℕ := k * maxDataBatchSizeBytes % 2 ^ 16

/-- A package is made for the number, as long as its place is not behind the data. -/
def Makes (job : MIPTPSendJob) (k : ℕ) : Bool := indexOf k ≤ job.data.length

/-- The package for a number for which one is made. -/
def packageOf (job : MIPTPSendJob) (k : ℕ) : MIPTPPackage :=
  let batch := (job.data.drop (indexOf k)).take maxDataBatchSizeBytes
  { miptpHeader := { pl := calcPl batch.length, port := job.port, psn := UInt16.ofNat k }
    data := batch }

/-- The number of a package, its port and what it carries. -/
def contents (package : MIPTPPackage) : ℕ × BitVec 14 × List UInt8 :=
  (package.miptpHeader.psn.toNat, package.miptpHeader.port, package.data)

/-- The packages are the parts of the data from the base of the window on, as far as the
window reaches, each under its number. -/
def CutsExactly (job : MIPTPSendJob) : Prop :=
  let base := job.slidingWindow.sequenceBase.toNat
  let last := min job.slidingWindow.sequenceMax.toNat (packageCount job.data.length)
  job.nextPackages.map contents =
    (List.range' base (last - base)).map fun k => (k, job.port, chunk job.data k)

instance (job : MIPTPSendJob) : Decidable job.CutsExactly :=
  inferInstanceAs (Decidable (_ = _))

/-- The arguments of `MIPTPSendJob_create`. -/
structure Request where
  port : BitVec 14
  destination : MIPAddress
  data : List UInt8
  size_le : data.length ≤ maxDataSizeBytes
  timeout : ℤ
  now : ℤ

def Request.job (request : Request) : MIPTPSendJob :=
  create request.port request.destination request.data request.size_le request.timeout request.now

/-- The window ends with the file or before, or the place of the first number behind the
file is behind the data even in 16 bits. -/
def EndsWithFile (size base : ℕ) : Prop :=
  let next := max base (packageCount size)
  (base + (windowSize.toNat + 1)) % 2 ^ 16 ≤ next ∨ size < indexOf next

instance (size base : ℕ) : Decidable (EndsWithFile size base) :=
  inferInstanceAs (Decidable (_ ∨ _))

variable {job : MIPTPSendJob} {k : ℕ}

/-- Whether there is a package with a number depends on the data alone, and so does its content.
-/
theorem nextPackage_ofNat (hk : k < 2 ^ 16) :
    job.nextPackage (UInt16.ofNat k) = if job.Makes k then some (job.packageOf k) else none := by
  rw [nextPackage_eq, UInt16.toNat_ofNat', Nat.mod_eq_of_lt hk]
  by_cases hMakes : indexOf k ≤ job.data.length
  · rw [if_pos (show job.Makes k from decide_eq_true hMakes)]
    exact if_neg (Nat.not_lt.mpr hMakes)
  · rw [if_neg (show ¬ job.Makes k from fun h => hMakes (of_decide_eq_true h))]
    exact if_pos (Nat.lt_of_not_le hMakes)

/-- The loop of `next_packages` hands out consecutive numbers and ends at the first one that has
no package. -/
theorem nextPackagesFrom_eq {turns : ℕ} (hTurns : k + turns ≤ 2 ^ 16) :
    job.nextPackagesFrom turns (UInt16.ofNat k) =
      ((List.range' k turns).takeWhile job.Makes).map job.packageOf := by
  induction turns generalizing k with
  | zero => rfl
  | succ turns ih =>
      have hNext : UInt16.ofNat k + 1 = UInt16.ofNat (k + 1) := (UInt16.ofNat_add k 1).symm
      rw [nextPackagesFrom, nextPackage_ofNat (by omega), List.range'_succ, List.takeWhile_cons]
      split_ifs with hMakes
      · rw [hNext, ih (by omega), List.map_cons]
      · rfl

/-- One package is made for each number of the window, up to the first number for which
there is none. -/
theorem nextPackages_eq (job : MIPTPSendJob) :
    job.nextPackages = ((List.range' job.slidingWindow.sequenceBase.toNat
      (job.slidingWindow.sequenceMax.toNat - job.slidingWindow.sequenceBase.toNat)).takeWhile
        job.Makes).map job.packageOf := by
  have hBase := job.slidingWindow.sequenceBase.toNat_lt
  have hMax := job.slidingWindow.sequenceMax.toNat_lt
  rw [← nextPackagesFrom_eq (by omega), UInt16.ofNat_toNat]
  rfl

theorem indexOf_of_lt (hSize : job.data.length ≤ maxDataSizeBytes)
    (hk : k < packageCount job.data.length) :
    indexOf k = k * maxDataBatchSizeBytes ∧ indexOf k < job.data.length := by
  unfold indexOf packageCount maxDataBatchSizeBytes maxDataSizeBytes at *
  omega

/-- The parts of the file are made as they are. -/
theorem packageOf_of_lt (hk : k < packageCount job.data.length) :
    job.Makes k ∧ (job.packageOf k).data = chunk job.data k := by
  obtain ⟨hIndex, hInside⟩ := indexOf_of_lt job.size_le hk
  refine ⟨decide_eq_true hInside.le, ?_⟩
  rw [packageOf, hIndex]
  rfl

/-- Every package carries its number, as long as it is one of 16 bits. -/
theorem packageOf_psn (job : MIPTPSendJob) (hk : k < 2 ^ 16) :
    (job.packageOf k).miptpHeader.psn.toNat = k :=
  Nat.mod_eq_of_lt hk

theorem map_psn {numbers : List ℕ} (h : ∀ k ∈ numbers, k < 2 ^ 16) :
    (numbers.map job.packageOf).map (fun package => package.miptpHeader.psn.toNat) = numbers := by
  rw [List.map_map]
  conv_rhs => rw [← List.map_id numbers]
  exact List.map_congr_left fun k hMem => packageOf_psn job (h k hMem)

/-- Packages that carry the same were made for the same numbers. -/
theorem map_contents_inj {numbers numbers' : List ℕ} (h : ∀ k ∈ numbers, k < 2 ^ 16)
    (h' : ∀ k ∈ numbers', k < 2 ^ 16) :
    (numbers.map job.packageOf).map contents = (numbers'.map job.packageOf).map contents ↔
      numbers = numbers' := by
  have hFirst : ∀ l : List ℕ, (∀ k ∈ l, k < 2 ^ 16) →
      ((l.map job.packageOf).map contents).map Prod.fst = l := by
    intro l hl
    rw [List.map_map]
    exact map_psn hl
  constructor
  · intro hSame
    rw [← hFirst numbers h, hSame, hFirst numbers' h']
  · rintro rfl
    rfl

/-- The parts make up the data, one behind the other and the last one as long as it is. -/
theorem flatMap_chunk (data : List UInt8) :
    (List.range (packageCount data.length)).flatMap (chunk data) = data := by
  refine Chunks.flatMap_range_eq ?_
  unfold packageCount maxDataBatchSizeBytes
  omega

/-- The packages for numbers inside the file carry its parts. -/
theorem map_chunk {numbers : List ℕ} (h : ∀ k ∈ numbers, k < packageCount job.data.length) :
    (numbers.map fun k => (k, job.port, chunk job.data k)) =
      (numbers.map job.packageOf).map contents := by
  have hCount : packageCount job.data.length < 2 ^ 16 := by
    have hSize := job.size_le
    unfold packageCount maxDataBatchSizeBytes maxDataSizeBytes at *
    omega
  rw [List.map_map]
  refine List.map_congr_left fun k hMem => ?_
  have hInside := h k hMem
  rw [Function.comp_apply, contents, packageOf_psn job (hInside.trans hCount),
    (packageOf_of_lt hInside).2]
  rfl

/-- The window is cut exactly if no package is made behind the file. -/
theorem cutsExactly_iff (job : MIPTPSendJob) :
    job.CutsExactly ↔
      let next := max job.slidingWindow.sequenceBase.toNat (packageCount job.data.length)
      job.slidingWindow.sequenceMax.toNat ≤ next ∨ job.data.length < indexOf next := by
  have hMax := job.slidingWindow.sequenceMax.toNat_lt
  simp only [CutsExactly, nextPackages_eq]
  generalize job.slidingWindow.sequenceBase.toNat = base at *
  generalize job.slidingWindow.sequenceMax.toNat = last at *
  have hBound : ∀ k ∈ List.range' base (last - base), k < 2 ^ 16 := fun k hMem => by
    obtain ⟨hLow, hHigh⟩ := List.mem_range'_1.mp hMem
    omega
  -- The numbers of the window inside the file, and those behind it.
  obtain ⟨inside, rest, hWindow, hInside, hNext, hRest⟩ : ∃ inside rest,
      last - base = inside + rest ∧ min last (packageCount job.data.length) - base = inside ∧
      (rest = 0 ∨ base + inside = max base (packageCount job.data.length)) ∧
      (rest = 0 ↔ last ≤ max base (packageCount job.data.length)) :=
    ⟨min last (packageCount job.data.length) - base,
      last - base - (min last (packageCount job.data.length) - base), by omega, rfl, by omega,
      by omega⟩
  have hFile : ∀ k ∈ List.range' base inside, k < packageCount job.data.length := fun k hMem => by
    obtain ⟨hLow, hHigh⟩ := List.mem_range'_1.mp hMem
    omega
  have hSub : ∀ k ∈ List.range' base inside, k < 2 ^ 16 := fun k hMem => by
    obtain ⟨hLow, hHigh⟩ := List.mem_range'_1.mp hMem
    exact hBound k (List.mem_range'_1.mpr (by omega))
  rw [hInside, map_chunk hFile,
    map_contents_inj (fun k hMem => hBound k ((List.takeWhile_prefix _).subset hMem)) hSub,
    hWindow, Chunks.takeWhile_range'_eq_iff fun k hLow hHigh =>
      (packageOf_of_lt (hFile k (List.mem_range'_1.mpr ⟨hLow, hHigh⟩))).1, ← hRest]
  -- The first number behind the file ends the loop if its place is behind the data.
  have hEnds : ∀ k, job.Makes k = false ↔ job.data.length < indexOf k := fun k => by
    rw [Makes, decide_eq_false_iff_not, Nat.not_le]
  rcases hNext with hNone | hNext
  · simp [hNone]
  · rw [hNext, hEnds]

/-- Packages move the window to the greatest of their numbers, in its full width. -/
theorem window_of_received (job : MIPTPSendJob) (received : List MIPTPPackage) :
    let after := received.foldl receivePackage job
    after.data = job.data ∧ after.slidingWindow.sequenceBase.toNat =
        (received.map fun package => package.miptpHeader.psn.toNat).foldl max
          job.slidingWindow.sequenceBase.toNat ∧
      after.slidingWindow.sequenceMax - after.slidingWindow.sequenceBase =
        job.slidingWindow.sequenceMax - job.slidingWindow.sequenceBase := by
  induction received generalizing job with
  | nil => exact ⟨rfl, rfl, rfl⟩
  | cons package rest ih =>
      obtain ⟨hData, hBase, hWidth⟩ := ih (job.receivePackage package)
      refine ⟨hData, hBase.trans ?_, hWidth.trans ?_⟩
      · rw [List.map_cons, List.foldl_cons, receivePackage, SlidingWindow.update_base]
      · exact SlidingWindow.update_width _ _

/-- After any packages a window is cut from the data exactly in the cases in which it ends
with the file, and the parts of the file make it up. -/
theorem cuts_exactly_iff (request : Request) (received : List MIPTPPackage) :
    (List.range (packageCount request.data.length)).flatMap (chunk request.data) = request.data ∧
      ((received.foldl receivePackage request.job).CutsExactly ↔
        EndsWithFile request.data.length
          ((received.map fun package => package.miptpHeader.psn.toNat).foldl max 0)) := by
  refine ⟨flatMap_chunk request.data, ?_⟩
  obtain ⟨hData, hBase, hWidth⟩ := window_of_received request.job received
  have hMax : (received.foldl receivePackage request.job).slidingWindow.sequenceMax.toNat =
      ((received.foldl receivePackage request.job).slidingWindow.sequenceBase.toNat +
        (windowSize.toNat + 1)) % 2 ^ 16 := by
    have hStart : (request.job.slidingWindow.sequenceMax -
        request.job.slidingWindow.sequenceBase).toNat = windowSize.toNat + 1 := by
      show (windowSize + 1 - 0).toNat = _
      decide
    have hSum := congrArg UInt16.toNat (UInt16.sub_eq_iff_eq_add.mp hWidth)
    rw [UInt16.toNat_add, Nat.add_comm, hStart] at hSum
    exact hSum
  rw [cutsExactly_iff, hMax, hBase, hData]
  rfl

/-- Of a file of just one package, a second package without data is made: an index at the end of
the data is not refused. -/
theorem full_package_is_followed :
    let request : Request := ⟨80, 10, List.replicate 1492 7,
      by rw [List.length_replicate]; decide, 1000, 0⟩
    ¬ request.job.CutsExactly := by
  intro request
  have hLength : request.job.data.length = 1492 := List.length_replicate
  rw [cutsExactly_iff, hLength]
  decide

end MIPTPSendJob

end MipStack
