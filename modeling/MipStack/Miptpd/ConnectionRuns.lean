import MipStack.Miptpd.AppSession
import MipStack.Miptpd.ConnectionMemory

/-! miptpd among its applications with the connections in memory: the operations in any
order, and what of the memory is never given back. The records are found again only where the
pointers to them survive being returned as an `int`. -/
namespace MipStack
open Execution

namespace AppSession

/-- What the operations returned and did, one after the other. -/
def results : AppSession → List Action → List (Except Halt ℤ × List AppOutput)
  | _, [] => []
  | s, action :: rest =>
    ((s.outcome action).result, (s.outcome action).outputs) :: results (s.perform action) rest

/-- The receivers among the applications that registered on their connection. -/
def refusals : AppSession → List Action → ℕ
  | _, [] => 0
  | s, .appPackage socket bytes now :: rest =>
    (if s.server.appController.refuses socket (MIPTPServer.readBuffer bytes) then 1 else 0) +
      refusals (s.perform (.appPackage socket bytes now)) rest
  | s, action :: rest => refusals (s.perform action) rest

end AppSession

structure AppMemory where
  memory : ConnectionMemory
  controller : ControllerObject

namespace AppMemory
open AppSession (Action)
open ControllerObject

def start (setup : AppSetup) : AppMemory :=
  ⟨⟨fun _ => none, fun _ => none⟩, ControllerObject.create setup.mipdFd maxAppConnections⟩

def outcome (m : AppMemory) :
    ConnectionAllocators × Action → Except Heap.Failure MemoryOutcome
  | (allocators, .accept accepted epollAdded _) =>
    m.controller.handleConnection allocators m.memory accepted epollAdded
  | (allocators, .appPackage socket bytes now) =>
    m.controller.handleAppPackage allocators m.memory socket (MIPTPServer.readBuffer bytes) now
  | (_, .mipdPackage mipAddress data) => m.controller.handleMipdPackage m.memory mipAddress data
  | (_, .outgoing written) => m.controller.handleOutgoing m.memory written
  | (_, .completes) => m.controller.handleCompletes m.memory
  | (_, .disconnect socket) => m.controller.disconnect m.memory socket

/-- A fault ends the run, in the list or elsewhere. -/
def perform (m : AppMemory) (step : ConnectionAllocators × Action) :
    Except Heap.Failure (AppMemory × (Except Halt ℤ × List AppOutput)) := do
  let outcome ← m.outcome step
  match outcome.result with
  | .error .fault => .error .fault
  | result => .ok (⟨outcome.memory, outcome.controller⟩, result, outcome.outputs)

def performAll (m : AppMemory) : List (ConnectionAllocators × Action) →
    Except Heap.Failure (AppMemory × List (Except Halt ℤ × List AppOutput))
  | [] => .ok (m, [])
  | step :: rest => do
    let (m, result) ← m.perform step
    let (m, results) ← m.performAll rest
    .ok (m, result :: results)

/-- Where the operation makes a record, its address survives being returned. -/
def Keeps (m : AppMemory) : ConnectionAllocators × Action → Prop
  | (allocators, .accept _ _ _) => KeepsPointer allocators m.memory
  | (allocators, .appPackage _ _ _) => KeepsPointer allocators m.memory
  | _ => True

/-- The addresses of all records of the run survive. -/
def KeepsAll (m : AppMemory) : List (ConnectionAllocators × Action) → Prop
  | [] => True
  | step :: rest => m.Keeps step ∧ ∀ m' result, m.perform step = .ok (m', result) → m'.KeepsAll rest

variable {m : AppMemory} {s : AppSession} {slots : List (Slot AppConnection)} {lost : List ℕ}

/-- The step lemma: the outcome of one operation agrees with the plain one, or both fault. -/
theorem outcome_of_holds
    (h : ControllerObject.Holds m.memory m.controller s.server.appController slots lost)
    {step : ConnectionAllocators × Action} (hKeeps : m.Keeps step) :
    ((s.outcome step.2).result = .error .fault ∧ m.outcome step = .error .fault) ∨
      ∃ outcome slots' more, m.outcome step = .ok outcome ∧
        Agrees outcome (s.outcome step.2) slots' (lost ++ more) ∧
        more.length = s.refusals [step.2] := by
  obtain ⟨allocators, action⟩ := step
  cases action with
  | accept accepted epollAdded now =>
      obtain ⟨outcome, slots', hOutcome, hAgrees⟩ :=
        h.handleConnection hKeeps accepted epollAdded now
      exact Or.inr ⟨outcome, slots', [], hOutcome, hAgrees.nothing, rfl⟩
  | appPackage socket bytes now =>
      obtain ⟨outcome, slots', more, hOutcome, hAgrees, hMore⟩ :=
        h.handleAppPackage hKeeps socket (MIPTPServer.readBuffer bytes) now
      exact Or.inr ⟨outcome, slots', more, hOutcome, hAgrees, hMore⟩
  | mipdPackage mipAddress data =>
      obtain ⟨outcome, slots', hOutcome, hAgrees⟩ := h.handleMipdPackage mipAddress data
      exact Or.inr ⟨outcome, slots', [], hOutcome, hAgrees.nothing, rfl⟩
  | outgoing written =>
      obtain ⟨outcome, hOutcome, hAgrees⟩ := h.handleOutgoing written
      exact Or.inr ⟨outcome, slots, [], hOutcome, hAgrees.nothing, rfl⟩
  | completes =>
      rcases h.handleCompletes with ⟨hComplete, hFault⟩ | ⟨-, outcome, hOutcome, hAgrees⟩
      · exact Or.inl ⟨MIPTPAppController.handleCompletes_fault_iff.mpr hComplete, hFault⟩
      · exact Or.inr ⟨outcome, slots, [], hOutcome, hAgrees.nothing, rfl⟩
  | disconnect socket =>
      obtain ⟨outcome, slots', hOutcome, hAgrees⟩ := h.disconnect socket
      exact Or.inr ⟨outcome, slots', [], hOutcome, hAgrees.nothing, rfl⟩

/-- The list itself gives a fault only to a sweep that meets a complete connection: its node is
freed and then read. -/
theorem outcome_fails_iff
    (h : ControllerObject.Holds m.memory m.controller s.server.appController slots lost)
    {step : ConnectionAllocators × Action} (hKeeps : m.Keeps step) :
    (∃ failure, m.outcome step = .error failure) ↔
      step.2 = .completes ∧ ∃ connection ∈ s.connections, connection.status = .complete := by
  have hOnly : (∃ failure, m.outcome step = .error failure) → step.2 = .completes := by
    rintro ⟨failure, hFailure⟩
    obtain ⟨allocators, action⟩ := step
    cases action with
    | completes => rfl
    | accept accepted epollAdded now =>
        obtain ⟨outcome, _, hOutcome, -⟩ := h.handleConnection hKeeps accepted epollAdded now
        cases hFailure.symm.trans hOutcome
    | appPackage socket bytes now =>
        obtain ⟨outcome, _, _, hOutcome, -⟩ :=
          h.handleAppPackage hKeeps socket (MIPTPServer.readBuffer bytes) now
        cases hFailure.symm.trans hOutcome
    | mipdPackage mipAddress data =>
        obtain ⟨outcome, _, hOutcome, -⟩ := h.handleMipdPackage mipAddress data
        cases hFailure.symm.trans hOutcome
    | outgoing written =>
        obtain ⟨outcome, hOutcome, -⟩ := h.handleOutgoing written
        cases hFailure.symm.trans hOutcome
    | disconnect socket =>
        obtain ⟨outcome, _, hOutcome, -⟩ := h.disconnect socket
        cases hFailure.symm.trans hOutcome
  have hSweep : (∃ failure, m.controller.handleCompletes m.memory = .error failure) ↔
      ∃ connection ∈ s.connections, connection.status = .complete := by
    rcases h.handleCompletes with ⟨hComplete, hFault⟩ | ⟨hOpen, outcome, hOutcome, -⟩
    · exact iff_of_true ⟨_, hFault⟩ hComplete
    · refine iff_of_false ?_ fun ⟨connection, hMem, hComplete⟩ => hOpen connection hMem hComplete
      rintro ⟨failure, hFailure⟩
      cases hFailure.symm.trans hOutcome
  constructor
  · intro hFails
    obtain ⟨allocators, action⟩ := step
    obtain rfl : action = .completes := hOnly hFails
    exact ⟨rfl, hSweep.mp hFails⟩
  · rintro ⟨hCompletes, hMem⟩
    obtain ⟨allocators, action⟩ := step
    obtain rfl : action = .completes := hCompletes
    exact hSweep.mpr hMem

theorem alive_of_enabled {action : Action} (h : s.Enabled action) : s.alive = true := by
  cases action with
  | accept accepted epollAdded now => exact h.1
  | appPackage socket bytes now => exact h.1
  | mipdPackage mipAddress data => exact h
  | outgoing written => exact h
  | completes => exact h
  | disconnect socket => exact h

theorem refusals_cons (s : AppSession) (action : Action) (rest : List Action) :
    s.refusals (action :: rest) = s.refusals [action] + (s.perform action).refusals rest := by
  cases action <;> simp [AppSession.refusals]

/-- A fault in a list is the only way in which a run in memory ends before its time. -/
theorem perform_of_holds
    (h : ControllerObject.Holds m.memory m.controller s.server.appController slots lost)
    {step : ConnectionAllocators × Action} (hKeeps : m.Keeps step) :
    ((s.perform step.2).alive = false ∧ m.perform step = .error .fault) ∨
      ∃ m' slots' more, (s.perform step.2).alive = true ∧
        m.perform step = .ok (m', (s.outcome step.2).result, (s.outcome step.2).outputs) ∧
        ControllerObject.Holds m'.memory m'.controller (s.perform step.2).server.appController
          slots' (lost ++ more) ∧
        more.length = s.refusals [step.2] := by
  rcases outcome_of_holds h hKeeps with
    ⟨hFault, hOutcome⟩ | ⟨outcome, slots', more, hOutcome, hAgrees, hMore⟩
  · refine Or.inl ⟨?_, ?_⟩
    · simp only [AppSession.perform, hFault]
    · simp only [perform, hOutcome, bind, Except.bind]
  · have hResult := hAgrees.result
    cases hPlain : (s.outcome step.2).result with
    | ok rc =>
        rw [hPlain] at hResult
        refine Or.inr ⟨⟨outcome.memory, outcome.controller⟩, slots', more, ?_, ?_,
          hAgrees.holds, hMore⟩
        · simp only [AppSession.perform, hPlain]
        · simp only [perform, hOutcome, bind, Except.bind, hResult, hAgrees.outputs]
    | error halt =>
        rw [hPlain] at hResult
        cases halt with
        | fault =>
            refine Or.inl ⟨?_, ?_⟩
            · simp only [AppSession.perform, hPlain]
            · simp only [perform, hOutcome, bind, Except.bind, hResult]
        | error =>
            refine Or.inr ⟨⟨outcome.memory, outcome.controller⟩, slots', more, ?_, ?_,
              hAgrees.holds, hMore⟩
            · simp only [AppSession.perform, hPlain]
            · simp only [perform, hOutcome, bind, Except.bind, hResult, hAgrees.outputs]

/-- The run lemma: the memory follows the plain run until that faults, and what was lost on the
way is one record for each refused receiver. -/
theorem performAll_of_holds {steps : List (ConnectionAllocators × Action)}
    (h : ControllerObject.Holds m.memory m.controller s.server.appController slots lost)
    (hAlive : s.alive) (hKeeps : m.KeepsAll steps)
    (hRuns : Runs AppSession.Enabled AppSession.perform s (steps.map Prod.snd)) :
    (((steps.map Prod.snd).foldl AppSession.perform s).alive = false ∧
        m.performAll steps = .error .fault) ∨
      ∃ m' slots' more, ((steps.map Prod.snd).foldl AppSession.perform s).alive = true ∧
        m.performAll steps = .ok (m', s.results (steps.map Prod.snd)) ∧
        ControllerObject.Holds m'.memory m'.controller
          ((steps.map Prod.snd).foldl AppSession.perform s).server.appController slots'
          (lost ++ more) ∧
        more.length = s.refusals (steps.map Prod.snd) := by
  induction steps generalizing m s slots lost with
  | nil => exact Or.inr ⟨m, slots, [], hAlive, rfl, h.nothing, rfl⟩
  | cons step rest ih =>
      obtain ⟨-, hRest⟩ := hRuns
      obtain ⟨hFirst, hLater⟩ := hKeeps
      rcases perform_of_holds h hFirst with
        ⟨hDead, hFault⟩ | ⟨middle, slots₁, more₁, hAlive₁, hStep, hHolds, hMore₁⟩
      · cases rest with
        | nil =>
            refine Or.inl ⟨hDead, ?_⟩
            simp only [performAll, hFault, bind, Except.bind]
        | cons next rest =>
            obtain ⟨hEnabled, -⟩ := hRest
            exact absurd (alive_of_enabled hEnabled) (Bool.eq_false_iff.mp hDead)
      · rcases ih hHolds hAlive₁ (hLater _ _ hStep) hRest with
          ⟨hDead, hFault⟩ | ⟨m', slots', more, hAlive', hAll, hHolds', hMore⟩
        · refine Or.inl ⟨hDead, ?_⟩
          simp only [performAll, hStep, bind, Except.bind, hFault]
        · refine Or.inr ⟨m', slots', more₁ ++ more, hAlive', ?_, ?_, ?_⟩
          · simp only [performAll, hStep, bind, Except.bind, hAll]
            rfl
          · rw [← List.append_assoc]
            exact hHolds'
          · rw [List.map_cons, refusals_cons, List.length_append, hMore₁, hMore]

/-- Whatever miptpd does, with memory wherever the allocators put it, as long as the addresses
of the records survive being returned as an `int`: the run in memory ends with a fault exactly
when the plain one does. Until then every operation returns and does what it should, and in use
are the nodes and the records of the connections, next to one record for every receiver that
registered. What comes next faults in the list only if it is a sweep and there is a complete
connection. The records stay when the controller is destroyed. -/
theorem connections_stay_in_memory (setup : AppSetup) (steps : List (ConnectionAllocators × Action))
    (hKeeps : (start setup).KeepsAll steps)
    (hRuns : Runs AppSession.Enabled AppSession.perform (AppSession.start setup)
      (steps.map Prod.snd)) :
    let actions := steps.map Prod.snd
    let s := actions.foldl AppSession.perform (AppSession.start setup)
    let used := (AppSession.start setup).refusals actions + s.connections.length
    (s.alive = false ∧ (start setup).performAll steps = .error .fault) ∨
      ∃ m memory', s.alive = true ∧
        (start setup).performAll steps = .ok (m, (AppSession.start setup).results actions) ∧
        (∀ socket, m.controller.isAConnection m.memory socket =
          .ok (s.server.appController.isAConnection socket)) ∧
        {a | m.memory.nodes a ≠ none}.ncard = s.connections.length ∧
        {a | m.memory.objects a ≠ none}.ncard = used ∧
        (∀ step, m.Keeps step → ((∃ failure, m.outcome step = .error failure) ↔
          step.2 = .completes ∧ ∃ connection ∈ s.connections, connection.status = .complete)) ∧
        m.controller.destroy m.memory = .ok memory' ∧
        {a | memory'.nodes a ≠ none}.ncard = 0 ∧ {a | memory'.objects a ≠ none}.ncard = used := by
  intro actions s used
  rcases performAll_of_holds (m := start setup) (s := AppSession.start setup)
    (holds_create setup.mipdFd maxAppConnections) rfl hKeeps hRuns with
    hFault | ⟨m, slots, more, hAlive, hAll, hHolds, hMore⟩
  · exact Or.inl hFault
  obtain ⟨memory', hDestroy, hNodes, hObjects⟩ := hHolds.destroy
  have hConnections : s.connections.length = slots.length := by
    rw [AppSession.connections, hHolds.connections, List.length_map]
  have hUsed : ([] ++ more ++ slots.map Slot.pointer).length = used := by
    rw [List.length_append, List.nil_append, List.length_map, hMore, ← hConnections]
  refine Or.inr ⟨m, memory', hAlive, hAll, hHolds.isAConnection, ?_, ?_,
    fun _ => outcome_fails_iff hHolds, hDestroy, ?_, ?_⟩
  · rw [hHolds.nodes.ncard_eq, List.length_map, hConnections]
  · rw [hHolds.objects.ncard_eq, hUsed]
  · rw [hNodes.ncard_eq, List.length_nil]
  · rw [hObjects.ncard_eq, hUsed]

/-- A receiver with a record is answered with an error, and a refusal is counted. -/
theorem outcome_of_receiver {package : ClientPackage} {socket : ℤ}
    (hType : package.type = .receiver) (hPort : package.port ≠ 0)
    (hDestination : package.destination ≠ 0) (hSize : package.toBytes.length ≤ packetBufferSize)
    (hKnown : socket ∈ s.connections.map (·.socket)) (now : ℤ) :
    s.outcome (.appPackage socket package.toBytes now) = s.server.appController.halt .error ∧
      s.refusals [.appPackage socket package.toBytes now] = 1 := by
  have hPackage := ClientPackage.deserialize_toBytes (Or.inr hType)
    (List.replicate (packetBufferSize - package.toBytes.length) 0)
  rw [← MIPTPServer.readBuffer_eq hSize] at hPackage
  obtain ⟨connection, hMem, hSocket⟩ := List.mem_map.mp hKnown
  have hAny : (s.server.appController.connections.any fun c => c.socket = socket) = true :=
    List.any_eq_true.mpr ⟨connection, hMem, decide_eq_true hSocket⟩
  constructor
  · rw [AppSession.outcome, MIPTPAppController.handleAppPackage_of_known hKnown,
      MIPTPAppController.registration]
    simp only [hPackage, hPort, hDestination, or_self, if_false, hType, connectionType,
      AppConnection.create_receiver]
  · simp [AppSession.refusals, MIPTPAppController.refuses, hPackage, hPort, hDestination, hType,
      hAny]

/-- A receiver on port 80 that registers and leaves again. -/
def lostReceiver : ClientPackage := ⟨80, 10, .receiver, [], by decide⟩

noncomputable def firstFit : ConnectionAllocators :=
  ⟨Heap.Allocator.firstFit _ 1, Heap.Allocator.firstFit _ 1⟩

/-- Memory from 1 on keeps the record of an application that registers as the first one. -/
theorem keepsAll_firstFit (setup : AppSetup) {accepted now : ℤ} {bytes : List UInt8}
    (hAccepted : accepted ≠ -1) (socket : ℤ) :
    (start setup).KeepsAll [(firstFit, .accept accepted true now),
      (firstFit, .appPackage accepted bytes now), (firstFit, .disconnect socket)] := by
  have hStart : ControllerObject.Holds (start setup).memory (start setup).controller
      (AppSession.start setup).server.appController [] [] :=
    holds_create setup.mipdFd maxAppConnections
  have hEmpty : (AppSession.start setup).server.appController.connections = [] := rfl
  have hFirst : (start setup).Keeps (firstFit, .accept accepted true now) := by
    refine hStart.keepsPointer_firstFit rfl ?_
    rw [hEmpty]
    decide
  refine ⟨hFirst, fun m result hStep => ⟨?_, fun _ _ _ => ⟨trivial, fun _ _ _ => trivial⟩⟩⟩
  have hOne : ((AppSession.start setup).perform (.accept accepted true now)).alive = true ∧
      ((AppSession.start setup).perform
        (.accept accepted true now)).server.appController.connections.length = 1 := by
    rw [AppSession.perform, AppSession.outcome, MIPTPAppController.handleConnection,
      if_neg hAccepted]
    exact ⟨rfl, rfl⟩
  rcases perform_of_holds hStart hFirst with ⟨hDead, -⟩ | ⟨_, _, more, -, hDone, hHolds, hMore⟩
  · cases hOne.1.symm.trans hDead
  · cases hDone.symm.trans hStep
    have hMore' : more.length = 0 := hMore
    refine hHolds.keepsPointer_firstFit rfl ?_
    rw [List.nil_append, hMore', hOne.2]
    decide

/-- A receiver that registers is refused and its record is never freed, not even when its
application leaves. -/
theorem connections_stay_in_memory_lostReceiver : ∃ m,
    (start ⟨3, 4, by decide, by decide⟩).performAll [(firstFit, .accept 5 true 0),
      (firstFit, .appPackage 5 lostReceiver.toBytes 0), (firstFit, .disconnect 5)] =
        .ok (m, [(.ok 5, [.epollAdd 5]), (.error .error, []), (.ok 1, [])]) ∧
      {a | m.memory.nodes a ≠ none}.ncard = 0 ∧ {a | m.memory.objects a ≠ none}.ncard = 1 := by
  obtain ⟨first, hFirst⟩ : ∃ first, (AppSession.start ⟨3, 4, by decide, by decide⟩).perform
      (.accept 5 true 0) = first := ⟨_, rfl⟩
  have hKnown : first.connections.map (·.socket) = [5] := by
    rw [← hFirst]
    rfl
  have hSocket : (5 : ℤ) ∈ first.connections.map (·.socket) := by
    rw [hKnown]
    exact List.mem_singleton_self 5
  have hType : lostReceiver.type = .receiver := rfl
  obtain ⟨hOutcome, hRefused⟩ := outcome_of_receiver hType (by decide) (by decide) (by decide)
    hSocket 0
  obtain ⟨second, hSecond⟩ : ∃ second,
      first.perform (.appPackage 5 lostReceiver.toBytes 0) = second := ⟨_, rfl⟩
  have hAlive : second.alive = true ∧ second.server = first.server := by
    rw [← hSecond, AppSession.perform, hOutcome]
    exact ⟨rfl, rfl⟩
  have hLast : second.outcome (.disconnect 5) =
      (first.server.appController.withConnections []).finish 1 [] := by
    rw [AppSession.outcome, hAlive.2, ← hFirst]
    rfl
  have hEnd : (second.perform (.disconnect 5)).alive = true ∧
      (second.perform (.disconnect 5)).connections = [] := by
    rw [AppSession.perform, hLast]
    exact ⟨rfl, rfl⟩
  have hEnabled : Runs AppSession.Enabled AppSession.perform
      (AppSession.start ⟨3, 4, by decide, by decide⟩)
      [.accept 5 true 0, .appPackage 5 lostReceiver.toBytes 0, .disconnect 5] := by
    refine ⟨by decide, ?_, ?_, trivial⟩
    · rw [hFirst]
      exact ⟨by rw [← hFirst]; rfl, by decide⟩
    · rw [hFirst, hSecond]
      exact hAlive.1
  rcases connections_stay_in_memory ⟨3, 4, by decide, by decide⟩
    [(firstFit, .accept 5 true 0), (firstFit, .appPackage 5 lostReceiver.toBytes 0),
      (firstFit, .disconnect 5)] (keepsAll_firstFit _ (by decide) 5) hEnabled with
    ⟨hDead, -⟩ | ⟨m, -, -, hAll, -, hNodes, hObjects, -⟩
  · simp only [List.map_cons, List.map_nil, List.foldl_cons, List.foldl_nil, hFirst, hSecond,
      hEnd.1] at hDead
    cases hDead
  · simp only [List.map_cons, List.map_nil, List.foldl_cons, List.foldl_nil, hFirst, hSecond,
      hEnd.2, AppSession.results, hOutcome, hLast] at hAll hNodes hObjects
    refine ⟨m, hAll, hNodes, hObjects.trans ?_⟩
    subst hFirst
    rw [refusals_cons, refusals_cons (AppSession.perform _ _), hRefused]
    rfl

end AppMemory

end MipStack
