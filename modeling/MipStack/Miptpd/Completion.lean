import MipStack.Miptpd.AppSession

/-! The results of finished transfers. A job gives its result only while its
connection still sends or receives, and the sweep asks complete connections. -/
namespace MipStack
open Execution

/-- What the job of the connection would report. -/
def AppConnection.jobResult (connection : AppConnection) : Option ClientPackage :=
  match connection.sJob with
  | some job => job.result
  | none => connection.rJob.bind MIPTPReceiveJob.result

def AppOutput.isReport : AppOutput → Bool
  | .sendApp _ _ => true
  | _ => false

/-- The output is the result of the connection's job, sent to its own socket. -/
def Reports (connection : AppConnection) (output : AppOutput) : Prop :=
  ∃ package, connection.jobResult = some package ∧
    MIPTPAppController.sendClientPackage connection.socket (some package) = [output]

/-- A complete connection has no result: the status check lets only connections pass that still
send or receive. -/
theorem AppConnection.result_of_complete {connection : AppConnection}
    (hComplete : connection.status = .complete) : connection.result = none := by
  rw [result, hComplete]

namespace MIPTPAppController

def reports (controller : MIPTPAppController) : List AppOutput :=
  controller.handleCompletes.outputs.filter AppOutput.isReport

/-- Every complete connection is reported and taken off the list, and the others stay
as they are. -/
structure ReportsOnce (controller : MIPTPAppController) : Prop where
  result : controller.handleCompletes.result = .ok 1
  connections : controller.handleCompletes.controller = controller.withConnections
    (controller.connections.filter fun connection => connection.status ≠ .complete)
  reports : List.Forall₂ Reports
    (controller.connections.filter fun connection => connection.status = .complete)
    controller.reports

variable {controller : MIPTPAppController}

/-- Whatever connections there are, nothing is reported, in any call of the sweep. -/
theorem reports_eq_nil (controller : MIPTPAppController) : controller.reports = [] := by
  rw [reports]
  rcases controller.handleCompletes_cases with hDone | ⟨_, connection, _, -, -, hFault⟩
  · rw [hDone]
    rfl
  · rw [hFault]
    simp only
    split_ifs <;> rfl

/-- The sweep reports every finished transfer exactly if none is finished, for it never
reports any. -/
theorem reports_once_iff (controller : MIPTPAppController) :
    (controller.ReportsOnce ↔
      ∀ connection ∈ controller.connections, connection.status ≠ .complete) ∧
    controller.reports = [] := by
  refine ⟨⟨?_, fun hNone => ?_⟩, reports_eq_nil controller⟩
  · intro h connection hMem hComplete
    cases h.result.symm.trans (handleCompletes_of_mem hMem hComplete)
  · have hFinish := handleCompletes_of_none hNone
    have hAll : (controller.connections.filter fun c => c.status ≠ .complete) =
        controller.connections :=
      List.filter_eq_self.mpr fun c hMem => decide_eq_true (hNone c hMem)
    have hComplete : (controller.connections.filter fun c => c.status = .complete) = [] :=
      List.filter_eq_nil_iff.mpr fun c hMem => by simpa using hNone c hMem
    refine ⟨by rw [hFinish]; rfl, by rw [hFinish, hAll]; rfl, ?_⟩
    rw [reports_eq_nil, hComplete]
    exact List.Forall₂.nil

end MIPTPAppController

namespace AppSession

/-- What a package does to the list of connections: those on its port take it, one by one. -/
theorem perform_mipdPackage_eq {s : AppSession} (h : WellFormed s) {data : List UInt8}
    {package : MIPTPPackage} (sender : MIPAddress)
    (hPackage : MIPTPPackage.deserialize data = .ok package) :
    let t := s.perform (.mipdPackage sender data)
    t.connections = (s.connections.map fun connection =>
        if connection.port = package.miptpHeader.port then connection.afterPackage sender package
        else connection) ∧ t.alive = true := by
  have hHandled := MIPTPAppController.handleMipdPackage_of_valid h.valid sender hPackage
  simp only [perform, outcome, connections, hHandled]
  exact ⟨rfl, rfl⟩

/-- A file of one byte is complete with the first package that comes back, whatever that package
acknowledges. -/
theorem exists_complete :
    let package : ClientPackage := ⟨80, 20, .sender, [7], by decide⟩
    ∃ s connection, Trace Step (start ⟨3, 4, by decide, by decide⟩)
        [.accept 5 true 0, .appPackage 5 package.toBytes 0, .mipdPackage 20 [64, 1, 0, 0]] s ∧
      s.connections = [connection] ∧ connection.status = .complete ∧
      connection.jobResult.isSome ∧ s.alive = true := by
  intro package
  have hSize : package.toBytes.length ≤ packetBufferSize := by decide
  have hRun := trace_afterRegistration package hSize
  obtain ⟨hConnections, -, hAlive⟩ :=
    afterRegistration_eq package rfl (by decide) (by decide) hSize
  obtain ⟨hAfter, hAliveAfter⟩ := perform_mipdPackage_eq (wellFormed_of_trace hRun) 20
    (show MIPTPPackage.deserialize [64, 1, 0, 0] = .ok ⟨⟨0, 80, 0⟩, []⟩ from rfl)
  rw [hConnections, List.map_singleton, if_pos (by decide)] at hAfter
  exact ⟨_, _, Trace.snoc hRun ⟨hAlive, rfl⟩, hAfter, by decide, by decide, hAliveAfter⟩

/-- The application of that file hears nothing, and miptpd follows a node that was freed. A run of
four operations gets there. -/
theorem finished_transfer_is_not_reported :
    let package : ClientPackage := ⟨80, 20, .sender, [7], by decide⟩
    ∃ s connection t, Trace Step (start ⟨3, 4, by decide, by decide⟩)
        [.accept 5 true 0, .appPackage 5 package.toBytes 0, .mipdPackage 20 [64, 1, 0, 0]] s ∧
      s.connections = [connection] ∧ connection.status = .complete ∧
      connection.jobResult.isSome ∧ connection.result = none ∧ Step s .completes t ∧
      ¬ s.server.appController.ReportsOnce ∧ s.server.appController.reports = [] ∧
      t.alive = false := by
  obtain ⟨s, connection, hRun, hConnections, hComplete, hResult, hAlive⟩ := exists_complete
  have hMem : connection ∈ s.connections := by
    rw [hConnections]
    exact List.mem_cons_self
  have hFault := MIPTPAppController.handleCompletes_of_mem hMem hComplete
  refine ⟨s, connection, s.perform .completes, hRun, hConnections, hComplete, hResult,
    AppConnection.result_of_complete hComplete, ⟨hAlive, rfl⟩, ?_,
    MIPTPAppController.reports_eq_nil _, ?_⟩
  · intro h
    cases h.result.symm.trans hFault
  · simp only [perform, outcome, hFault]

end AppSession

end MipStack
