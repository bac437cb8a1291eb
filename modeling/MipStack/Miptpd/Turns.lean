import MipStack.Miptpd.AppSession

/-! The turns of miptpd's loop. In each of them every connection sends the packages of its
window, and one that cannot be sent ends the loop for all of them. -/
namespace MipStack
open Execution

namespace MIPTPAppController

variable {connection : AppConnection} {package : MIPTPPackage} {message : MIPDMessage}

/-- A package is written with two bytes of data size that its count leaves out, and the message is
as long as the count: the last two bytes of the data are cut off. -/
theorem packageMessage_eq_ok (h : packageMessage connection package = .ok message) :
    package.data.length ≤ 1490 ∧ message.mipAddress = connection.connectedMip ∧
      message.data = package.toBytes.take (4 + package.data.length) ∧
      message.data.length = 4 + package.data.length := by
  have hLength := package.toBytes_length
  rw [packageMessage, MIPTPPackage.serialize] at h
  split_ifs at h with hCounted
  simp only at h
  split_ifs at h with hLarge
  have hData : package.data.length ≤ 1490 := by
    unfold maxMiptpPackageSize at hLarge
    omega
  have hWhole : package.data.length ≤ maxMiptpPackageDataSize := by
    unfold maxMiptpPackageDataSize
    omega
  have hSize : package.serializedSize ≤ maxMipMessageDataSize := hCounted
  rw [MIPDMessage.create, dif_pos hSize] at h
  obtain rfl := Except.ok.inj h
  rw [← MIPTPPackage.serializedSize_of_le hWhole]
  refine ⟨hData, rfl, rfl, List.length_take_of_le ?_⟩
  rw [hLength, MIPTPPackage.serializedSize_of_le hWhole]
  omega

/-- A package fits into the buffer with its data size if it has at most 1490 bytes of data. -/
theorem exists_packageMessage (connection : AppConnection) (hFits : package.data.length ≤ 1490) :
    ∃ message, packageMessage connection package = .ok message := by
  have hCounted : package.serializedSize ≤ maxMiptpPackageSize := by
    have hSize := package.serializedSize_le
    unfold maxMiptpPackageSize
    omega
  have hRoom : ¬ maxMiptpPackageSize < package.toBytes.length := by
    rw [package.toBytes_length, maxMiptpPackageSize]
    omega
  have hSize : package.serializedSize ≤ maxMipMessageDataSize := hCounted
  obtain ⟨message, hMessage⟩ : ∃ message, MIPDMessage.create connection.connectedMip
      package.serializedSize package.toBytes = some message := ⟨_, dif_pos hSize⟩
  refine ⟨message, ?_⟩
  rw [packageMessage, MIPTPPackage.serialize, if_pos hCounted]
  simp only [if_neg hRoom, hMessage]

end MIPTPAppController

open MIPTPAppController

/-- Every package of the window has a message. -/
def AppConnection.SendsWindow (connection : AppConnection) : Prop :=
  ∃ packages, connection.nextPackages = .ok packages ∧
    ∀ package ∈ packages, ∃ message, packageMessage connection package = .ok message

/-- As long as mipd can be written to, the turn of the loop does not end at the connection. -/
def MIPTPServer.GetsPast (server : MIPTPServer) (connection : AppConnection) : Prop :=
  ({ server with appController := server.appController.withConnections [connection] }.cycle
    fun _ => true).continues = true

variable {server : MIPTPServer} {connection : AppConnection}

namespace MIPTPAppController

/-- The loop over the packages of a window ends without a fault exactly if each of them fits into
the buffer with its data size. -/
theorem sendPackages_isOk_iff {socket : ℤ} {packages : List MIPTPPackage} {sent : ℕ} :
    (sendPackages socket (fun _ => true) connection sent packages).1.isOk ↔
      ∀ package ∈ packages, ∃ message, packageMessage connection package = .ok message := by
  induction packages generalizing sent with
  | nil => simp [sendPackages, Except.isOk, Except.toBool]
  | cons package rest ih =>
      rw [sendPackages, List.forall_mem_cons]
      cases hMessage : packageMessage connection package with
      | error halt => simp [Except.isOk, Except.toBool]
      | ok message =>
          have hRest := @ih (sent + 1)
          simp only [if_true, ← hRest]
          exact ⟨fun h => ⟨⟨message, rfl⟩, h⟩, And.right⟩

/-- A turn goes on exactly if the window of every connection can be sent. The first one that
cannot hurts those behind it too. -/
theorem sendWindows_isOk_iff {socket : ℤ} {connections : List AppConnection} {sent : ℕ} :
    (sendWindows socket (fun _ => true) sent connections).1.isOk ↔
      ∀ connection ∈ connections, connection.SendsWindow := by
  induction connections generalizing sent with
  | nil => simp [sendWindows, Except.isOk, Except.toBool]
  | cons connection rest ih =>
      rw [sendWindows, List.forall_mem_cons, AppConnection.SendsWindow]
      cases hPackages : connection.nextPackages with
      | error halt => simp [Except.isOk, Except.toBool]
      | ok packages =>
          have hWindow := @sendPackages_isOk_iff connection socket packages sent
          have hRest := @ih (sent + packages.length)
          simp only [Except.ok.injEq, exists_eq_left', ← hWindow, ← hRest]
          cases sendPackages socket (fun _ => true) connection sent packages with
          | mk result outputs =>
              cases result with
              | error halt => simp [Except.isOk, Except.toBool]
              | ok rc => simp [Except.isOk, Except.toBool]

end MIPTPAppController

namespace MIPTPServer

/-- Where writing succeeds, only a package that is too large keeps the turn from getting past a
connection. -/
theorem getsPast_iff : server.GetsPast connection ↔ connection.SendsWindow := by
  have hTurn : (MIPTPAppController.sendWindows server.appController.mipdSocket (fun _ => true) 0
      [connection]).1.isOk ↔ _ := MIPTPAppController.sendWindows_isOk_iff
  rw [List.forall_mem_singleton] at hTurn
  rw [GetsPast, cycle, continues_ofController]
  exact hTurn

/-- A turn goes on exactly if it gets past every connection, so what one application registered
decides for all of them. -/
theorem cycle_continues_iff : (server.cycle fun _ => true).continues ↔
    ∀ connection ∈ server.appController.connections, server.GetsPast connection := by
  simp only [getsPast_iff]
  rw [cycle, continues_ofController]
  exact sendWindows_isOk_iff

end MIPTPServer

namespace AppConnection

/-- A file of at most 1490 bytes makes only packages that can be sent, wherever the window
stands. -/
theorem sendsWindow_of_small (hValid : connection.Valid)
    (hSmall : ∀ job, connection.sJob = some job → job.data.length ≤ 1490) :
    connection.SendsWindow := by
  rw [SendsWindow, nextPackages]
  cases hStatus : connection.status with
  | sender =>
      obtain ⟨job, hJob⟩ := Option.isSome_iff_exists.mp (hValid.sender hStatus)
      simp only [hJob]
      refine ⟨_, rfl, fun package hMem => exists_packageMessage connection ?_⟩
      obtain ⟨i, hNext, -⟩ := MIPTPSendJob.mem_nextPackages hMem
      rw [MIPTPSendJob.nextPackage_eq] at hNext
      simp only at hNext
      split_ifs at hNext
      obtain rfl := Option.some.inj hNext
      have hData := hSmall job hJob
      simp only [List.length_take, List.length_drop]
      omega
  | receiver => exact absurd hStatus hValid.receiver
  | notReady => exact ⟨[], rfl, List.forall_mem_nil _⟩
  | complete => exact ⟨[], rfl, List.forall_mem_nil _⟩
  | finished => exact ⟨[], rfl, List.forall_mem_nil _⟩

/-- The first package of a larger file is written past the end of the buffer. -/
theorem sendsWindow_forSender_iff (socket : ℤ) (file : ClientPackage) (timeout now : ℤ) :
    (forSender socket file timeout now).SendsWindow ↔ file.data.length ≤ 1490 := by
  constructor
  · rintro ⟨packages, hPackages, hMessages⟩
    let job := MIPTPSendJob.create (BitVec.ofNat 14 file.port.toNat) file.destination file.data
      file.size_le timeout now
    obtain ⟨first, hFirst, hData⟩ : ∃ first, job.nextPackage 0 = some first ∧
        first.data = file.data.take maxDataBatchSizeBytes := by
      have hNext := job.nextPackage_eq 0
      rw [show (0 : UInt16).toNat = 0 from rfl, Nat.zero_mul] at hNext
      simp only [Nat.zero_mod, not_lt_zero, gt_iff_lt, if_false, List.drop_zero] at hNext
      exact ⟨_, hNext, rfl⟩
    have hMem : first ∈ packages := by
      obtain rfl := Except.ok.inj hPackages
      show first ∈ job.nextPackagesFrom 11 0
      rw [MIPTPSendJob.nextPackagesFrom, hFirst]
      exact List.mem_cons_self
    obtain ⟨message, hMessage⟩ := hMessages first hMem
    have hFits := (packageMessage_eq_ok hMessage).1
    rw [hData, List.length_take, maxDataBatchSizeBytes] at hFits
    omega
  · intro hSmall
    have hValid : (forSender socket file timeout now).Valid :=
      ⟨fun _ => rfl, fun hReceiver => (by cases hReceiver), rfl⟩
    refine sendsWindow_of_small hValid fun job hJob => ?_
    obtain rfl := Option.some.inj hJob
    exact hSmall

end AppConnection

namespace AppSession

/-- The application on the socket has at most 1490 bytes to send. -/
def SmallJob (socket : ℤ) (s : AppSession) : Prop :=
  ∀ connection ∈ s.connections, connection.socket = socket →
    ∀ job, connection.sJob = some job → job.data.length ≤ 1490

variable {s t : AppSession} {action : Action} {actions : List Action} {socket : ℤ}

theorem SmallJob.of_subset (h : SmallJob socket s) (hSubset : t.connections ⊆ s.connections) :
    SmallJob socket t := fun connection hMem => h connection (hSubset hMem)

/-- What the others do, and what arrives, leaves an application with the file it has. -/
theorem SmallJob.perform (h : SmallJob socket s) (hWellFormed : WellFormed s)
    (hQuiet : ¬ action.IsPackageOf socket) : SmallJob socket (s.perform action) := by
  cases action with
  | accept accepted epollAdded now =>
      rcases perform_accept s accepted epollAdded now with ⟨hSame, -⟩ | ⟨-, -, hMore, -⟩
      · exact h.of_subset (by rw [hSame]; exact List.Subset.refl _)
      · intro connection hMem hSocket job hJob
        rw [hMore] at hMem
        rcases List.mem_append.mp hMem with hOld | hNew
        · exact h connection hOld hSocket job hJob
        · obtain rfl := List.mem_singleton.mp hNew
          cases hJob
  | appPackage sender bytes now =>
      obtain ⟨-, ⟨hSame, -⟩ | ⟨complete, before, old, after, hComplete, hSplit, -, hAfter⟩⟩ :=
        perform_appPackage s sender bytes now
      · exact h.of_subset (by rw [hSame]; exact List.Subset.refl _)
      · intro connection hMem hSocket job hJob
        rw [hAfter] at hMem
        rcases List.mem_append.mp hMem with hOld | hNew
        · exact h connection (subset_of_split hSplit hOld) hSocket job hJob
        · obtain rfl := List.mem_singleton.mp hNew
          exact absurd ((registration_fields hComplete).1.symm.trans hSocket) hQuiet
  | mipdPackage mipAddress data =>
      obtain ⟨-, deliver, hConnections, hDeliver⟩ := perform_mipdPackage hWellFormed mipAddress data
      intro received hMem hSocket job hJob
      rw [hConnections] at hMem
      obtain ⟨connection, hConnection, rfl⟩ := List.mem_map.mp hMem
      obtain ⟨-, hReceived⟩ := hDeliver connection hConnection
      have hData := hReceived.data
      rw [hJob, Option.map_some] at hData
      obtain ⟨before, hBefore, hSame⟩ := Option.map_eq_some_iff.mp hData.symm
      rw [← hSame]
      exact h connection hConnection (hReceived.socket.symm.trans hSocket) before hBefore
  | outgoing written =>
      refine h.of_subset ?_
      rw [(perform_outgoing s written).1]
      exact List.Subset.refl _
  | completes =>
      rcases perform_completes s with ⟨hSame, -⟩ | ⟨before, old, after, hSplit, -, hAfter, -⟩
      · exact h.of_subset (by rw [hSame]; exact List.Subset.refl _)
      · exact h.of_subset (hAfter ▸ subset_of_split hSplit)
  | disconnect sender =>
      obtain ⟨-, ⟨hSame, -⟩ | ⟨before, old, after, hSplit, -, hAfter⟩⟩ :=
        perform_disconnect s sender
      · exact h.of_subset (by rw [hSame]; exact List.Subset.refl _)
      · exact h.of_subset (hAfter ▸ subset_of_split hSplit)

/-- Until it writes again, an application with a small file stops no turn of the loop. -/
theorem SmallJob.getsPast (h : SmallJob socket s) (hWellFormed : WellFormed s)
    (run : Trace (Guarded Step fun _ action _ => ¬ action.IsPackageOf socket) s actions t) :
    ∀ connection ∈ t.connections, connection.socket = socket → t.server.GetsPast connection := by
  have hEnd : WellFormed t ∧ SmallJob socket t := by
    apply run.invariant ⟨hWellFormed, h⟩
    rintro s action _ ⟨hWellFormed, hSmall⟩ ⟨⟨hEnabled, rfl⟩, hQuiet⟩
    exact ⟨hWellFormed.perform hEnabled, hSmall.perform hWellFormed hQuiet⟩
  intro connection hMem hSocket
  rw [MIPTPServer.getsPast_iff]
  exact AppConnection.sendsWindow_of_small (hEnd.1.valid connection hMem)
    (hEnd.2 connection hMem hSocket)

end AppSession

end MipStack
