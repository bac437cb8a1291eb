import MipStack.Routerd.RouterRun
import MipStack.Routerd.TableMemory

/-! The loop of routerd on its table in memory. The table that is made of a received
package is merged and then forgotten, without being freed. -/
namespace MipStack
open ObjectMemory

/-- The memory with the server's own table, next to what else the loop carries. -/
structure RouterMemory where
  memory : TableMemory
  table : TableObject
  broadcastFreqMilli : ℤ
  lastBroadcastMilli : ℤ
  sent : List MIPRouteTablePackage
  answers : List MIPAddress
  running : Bool

namespace RouterMemory
open RouterRun (Action)

def addLocals (allocators : TableAllocators) (clock : Clock) :
    List (MIPAddress × ℕ) → TableMemory → TableObject →
      Except Heap.Failure (TableMemory × TableObject)
  | [], memory, table => .ok (memory, table)
  | (address, turn) :: rest, memory, table => do
    let (_, memory, table) ← table.update allocators memory address address 0 (clock turn)
    addLocals allocators clock rest memory table

def start (allocators : TableAllocators) (config : RouterdConfig) (clock : Clock) :
    Except Heap.Failure RouterMemory := do
  let (memory, table) ← addLocals allocators clock config.mipAddresses.zipIdx
    ⟨fun _ => none, fun _ => none⟩ TableObject.create
  .ok { memory, table
        broadcastFreqMilli := config.broadcastFreq
        lastBroadcastMilli := 0
        sent := []
        answers := []
        running := true }

def removeOldEntries (allocators : TableAllocators) (s : RouterMemory) (clock : Clock) :
    Except Heap.Failure RouterMemory := do
  let (_, memory, table) ← s.table.removeOldEntries allocators s.memory clock
  .ok { s with memory, table }

def poll (allocators : TableAllocators) (s : RouterMemory) (now sentAt : ℤ) (written : Bool)
    (clock : Clock) : Except Heap.Failure RouterMemory :=
  if s.broadcastFreqMilli < now - s.lastBroadcastMilli then do
    match ← s.table.createPackage s.memory with
    | none => .ok { s with running := false }
    | some package =>
      if written then
        removeOldEntries allocators
          { s with sent := s.sent ++ [package], lastBroadcastMilli := sentAt } clock
      else .ok { s with running := false }
  else s.removeOldEntries allocators clock

def routing (allocators : TableAllocators) (s : RouterMemory) (bytes : List UInt8)
    (received merged : Clock) : Except Heap.Failure RouterMemory := do
  match ← (MIPRouteTablePackage.ofBytes bytes).createTableObject allocators s.memory received with
  | none => .ok { s with running := false }
  | some (memory, neighborTable) => do
    let (memory, table) ← s.table.updateRouting allocators memory neighborTable merged
    .ok { s with memory, table }

def perform (s : RouterMemory) :
    TableAllocators × Action → Except Heap.Failure RouterMemory
  | (allocators, .poll now sentAt written clock) => s.poll allocators now sentAt written clock
  | (allocators, .routing bytes received merged) => s.routing allocators bytes received merged
  | (_, .forward destination) => do
    let hop ← s.table.getNextHop s.memory destination
    .ok { s with answers := s.answers ++ [hop] }
  | (_, .stop) => .ok { s with running := false }

/-- The loop as the table of the slots has it. -/
def view (s : RouterMemory) (slots : List (Slot MIPRouteEntry)) : RouterRun :=
  { table := s.table.view slots
    broadcastFreqMilli := s.broadcastFreqMilli
    lastBroadcastMilli := s.lastBroadcastMilli
    sent := s.sent
    answers := s.answers
    running := s.running }

/-- The entries of the tables made of received packages. -/
def received : List Action → ℕ
  | [] => 0
  | .routing bytes clock _ :: rest =>
    ((RouterRun.handleRouteRequest bytes clock).elim 0 fun table => table.entries.length) +
      received rest
  | _ :: rest => received rest

/-- The server owns its table, and next to it only forgotten entries are in use. -/
structure Forgetful (s : RouterMemory) (run : RouterRun) (forgotten : ℕ)
    (slots lost : List (Slot MIPRouteEntry)) : Prop where
  owns : s.memory.Owns s.table.entries slots
  view : s.view slots = run
  accounts : s.memory.Accounts (lost ++ slots)
  forgotten : lost.length = forgotten

variable {s : RouterMemory} {run : RouterRun} {forgotten : ℕ}
  {slots lost : List (Slot MIPRouteEntry)}

theorem addLocals_of_owns (allocators : TableAllocators) (clock : Clock)
    (addresses : List (MIPAddress × ℕ)) {memory : TableMemory} {table : TableObject}
    (hAccounts : memory.Accounts slots) (h : memory.Owns table.entries slots) :
    ∃ memory' table' slots',
      addLocals allocators clock addresses memory table = .ok (memory', table') ∧
      memory'.Owns table'.entries slots' ∧ memory'.Accounts slots' ∧
      table'.view slots' = addresses.foldl (fun table current =>
        RouterServer.addLocal table current.1 (clock current.2)) (table.view slots) := by
  induction addresses generalizing memory table slots with
  | nil => exact ⟨memory, table, slots, rfl, h, hAccounts, rfl⟩
  | cons current rest ih =>
      have hNone : memory.Accounts ([] ++ slots) := hAccounts
      obtain ⟨middle, table₁, slots₁, hUpdate, hOwns, hView, hExchange⟩ :=
        TableObject.update_of_owns allocators hNone h current.1 current.1 0 (clock current.2)
      have hMiddle : middle.Accounts slots₁ := hNone.exchange hExchange hOwns
      obtain ⟨memory', table', slots', hRest, hOwns', hAccounts', hView'⟩ := ih hMiddle hOwns
      refine ⟨memory', table', slots', ?_, hOwns', hAccounts', ?_⟩
      · simp only [addLocals, hUpdate, bind, Except.bind]
        exact hRest
      · rw [hView', hView]
        rfl

/-- At the start the table holds the configured addresses and nothing is lost. -/
theorem start_forgetful (allocators : TableAllocators) (config : RouterdConfig) (clock : Clock) :
    ∃ s slots, start allocators config clock = .ok s ∧
      Forgetful s (RouterRun.start config clock) 0 slots [] := by
  have hEmpty : ObjectMemory.Accounts (⟨fun _ => none, fun _ => none⟩ : TableMemory) [] :=
    ⟨⟨List.nodup_nil, fun _ => by simp⟩, ⟨List.nodup_nil, fun _ => by simp⟩⟩
  have hCreate : ObjectMemory.Owns (⟨fun _ => none, fun _ => none⟩ : TableMemory)
      TableObject.create.entries [] :=
    ⟨LinkedList.represents_create, List.nodup_nil, by simp⟩
  obtain ⟨memory', table', slots', hLocals, hOwns, hAccounts, hView⟩ :=
    addLocals_of_owns allocators clock config.mipAddresses.zipIdx hEmpty hCreate
  refine ⟨_, slots', by rw [start, hLocals]; rfl, hOwns, ?_, hAccounts, rfl⟩
  simp only [RouterMemory.view, hView]
  rfl

theorem removeOldEntries_forgetful (allocators : TableAllocators) (clock : Clock)
    (h : Forgetful s run forgotten slots lost) :
    ∃ s' slots', removeOldEntries allocators s clock = .ok s' ∧
      Forgetful s' { run with table := (run.table.removeOldEntries clock).2 } forgotten slots'
        lost := by
  obtain ⟨memory', table', slots', hSweep, hOwns, hView, hExchange⟩ :=
    TableObject.removeOldEntries_of_owns allocators clock h.accounts h.owns
  refine ⟨_, slots', by rw [removeOldEntries, hSweep]; rfl, hOwns, ?_,
    h.accounts.exchange hExchange hOwns, h.forgotten⟩
  rw [← h.view]
  simp only [RouterMemory.view, hView]

/-- A sweep and a broadcast lose nothing: the removed entries are freed. -/
theorem poll_forgetful (allocators : TableAllocators) (now sentAt : ℤ) (written : Bool)
    (clock : Clock) (h : Forgetful s run forgotten slots lost) :
    ∃ s' slots', s.poll allocators now sentAt written clock = .ok s' ∧
      Forgetful s' (run.poll now sentAt written clock) forgotten slots' lost := by
  obtain rfl := h.view.symm
  by_cases hDue : s.broadcastFreqMilli < now - s.lastBroadcastMilli
  · have hDue' : (s.view slots).shouldCompleteRouteBroadcast now = true := decide_eq_true hDue
    have hTable : (s.view slots).table = s.table.view slots := rfl
    rw [RouterRun.poll, if_pos hDue', RouterRun.broadcastRouteTable, hTable]
    simp only [poll, if_pos hDue, TableObject.createPackage_of_owns h.owns, bind, Except.bind]
    cases hPackage : (s.table.view slots).createPackage with
    | none => exact ⟨_, slots, rfl, { h with view := rfl }⟩
    | some package =>
        cases written with
        | false => exact ⟨_, slots, rfl, { h with view := rfl }⟩
        | true =>
            have hSent : Forgetful
                { s with sent := s.sent ++ [package], lastBroadcastMilli := sentAt }
                { s.view slots with sent := s.sent ++ [package], lastBroadcastMilli := sentAt }
                forgotten slots lost := { h with view := rfl }
            exact removeOldEntries_forgetful allocators clock hSent
  · have hDue' : (s.view slots).shouldCompleteRouteBroadcast now = false := decide_eq_false hDue
    rw [RouterRun.poll, if_neg (by rw [hDue']; decide), poll, if_neg hDue]
    exact removeOldEntries_forgetful allocators clock h

/-- The table of the package is lost with all that it owns. -/
theorem routing_forgetful (allocators : TableAllocators) (bytes : List UInt8)
    (received merged : Clock) (h : Forgetful s run forgotten slots lost) :
    ∃ s' slots' lost', s.routing allocators bytes received merged = .ok s' ∧
      Forgetful s' (run.routing bytes received merged) (forgotten +
        (RouterRun.handleRouteRequest bytes received).elim 0 fun table => table.entries.length)
        slots' lost' := by
  obtain rfl := h.view.symm
  rcases TableObject.createTableObject_of_accounts allocators received
    (MIPRouteTablePackage.ofBytes bytes) h.accounts with
    ⟨hNone, hCreate⟩ | ⟨middle, neighborTable, mine, hCreate, hMine, hTable, hExchange⟩
  · refine ⟨{ s with running := false }, slots, lost, ?_, h.owns, ?_, h.accounts, ?_⟩
    · simp only [routing, hCreate, bind, Except.bind]
    · simp only [RouterRun.routing, RouterRun.handleRouteRequest, hNone]
      rfl
    · simp only [RouterRun.handleRouteRequest, hNone, Option.elim_none, Nat.add_zero, h.forgotten]
  · have hBefore : s.memory.Accounts ((lost ++ slots) ++ []) := by
      rw [List.append_nil]
      exact h.accounts
    have hOwns := h.owns.other (List.subset_append_right lost slots) hBefore hExchange
    have hMiddle : middle.Accounts ((lost ++ mine) ++ slots) := by
      refine (hBefore.exchange hExchange hMine).perm ?_
      rw [List.append_assoc, List.append_assoc]
      exact List.perm_append_comm.append_left lost
    obtain ⟨memory', table', slots', hMerge, hOwns', hView, hExchange'⟩ :=
      TableObject.updateRouting_of_owns allocators merged (List.subset_append_right lost mine)
        hMiddle hOwns hMine
    refine ⟨{ s with memory := memory', table := table' }, slots', lost ++ mine, ?_, hOwns', ?_,
      hMiddle.exchange hExchange' hOwns', ?_⟩
    · simp only [routing, hCreate, bind, Except.bind, hMerge]
    · simp only [RouterRun.routing, RouterRun.handleRouteRequest, hTable, RouterMemory.view, hView]
    · simp only [RouterRun.handleRouteRequest, hTable, Option.elim_some, List.length_append,
        h.forgotten, TableObject.view, List.length_map]

/-- The step lemma: only a received table is lost, with all its entries. -/
theorem perform_forgetful (step : TableAllocators × Action)
    (h : Forgetful s run forgotten slots lost) :
    ∃ s' slots' lost', s.perform step = .ok s' ∧
      Forgetful s' (run.perform step.2) (forgotten + received [step.2]) slots' lost' := by
  obtain ⟨allocators, action⟩ := step
  cases action with
  | poll now sentAt written clock =>
      obtain ⟨s', slots', hPoll, hAfter⟩ := poll_forgetful allocators now sentAt written clock h
      exact ⟨s', slots', lost, hPoll, hAfter⟩
  | routing bytes receivedAt merged => exact routing_forgetful allocators bytes receivedAt merged h
  | forward destination =>
      obtain rfl := h.view.symm
      refine ⟨{ s with answers := s.answers ++ [(s.table.view slots).getNextHop destination] },
        slots, lost, ?_, { h with view := rfl }⟩
      simp only [perform, TableObject.getNextHop_of_owns h.owns, bind, Except.bind]
  | stop =>
      obtain rfl := h.view.symm
      exact ⟨_, slots, lost, rfl, { h with view := rfl }⟩

/-- The run lemma: the server in memory does what the plain one does, and what was forgotten adds
up. -/
theorem foldlM_forgetful (steps : List (TableAllocators × Action))
    (h : Forgetful s run forgotten slots lost) :
    ∃ s' slots' lost', steps.foldlM perform s = .ok s' ∧
      Forgetful s' ((steps.map Prod.snd).foldl RouterRun.perform run)
        (forgotten + received (steps.map Prod.snd)) slots' lost' := by
  induction steps generalizing s run forgotten slots lost with
  | nil => exact ⟨s, slots, lost, rfl, h⟩
  | cons step rest ih =>
      obtain ⟨middle, slots₁, lost₁, hStep, hMiddle⟩ := perform_forgetful step h
      obtain ⟨s', slots', lost', hRest, hEnd⟩ := ih hMiddle
      refine ⟨s', slots', lost', ?_, ?_⟩
      · rw [List.foldlM_cons, hStep]
        exact hRest
      · rw [List.map_cons, List.foldl_cons]
        rw [Nat.add_assoc] at hEnd
        have hSum : received [step.2] + received (rest.map Prod.snd) =
            received (step.2 :: rest.map Prod.snd) := by
          cases hAction : step.2 <;> simp [received]
        rwa [hSum] at hEnd

/-- Whatever routerd does, its lists are handled without a fault and the loop sends and
answers what it would with plain tables. In use are the entries of its table and every
entry of every table it was ever sent, and the latter still after its own table has been
destroyed. -/
theorem routerd_forgets_received_tables (allocators : TableAllocators) (config : RouterdConfig)
    (clock : Clock) (steps : List (TableAllocators × Action)) :
    let actions := steps.map Prod.snd
    let run := actions.foldl RouterRun.perform (RouterRun.start config clock)
    ∃ s memory', (start allocators config clock >>= fun s => steps.foldlM perform s) = .ok s ∧
      s.sent = run.sent ∧ s.answers = run.answers ∧ s.running = run.running ∧
      s.table.listed s.memory = .ok run.table.entries ∧
      {a | s.memory.nodes a ≠ none}.ncard = received actions + run.table.entries.length ∧
      {a | s.memory.objects a ≠ none}.ncard = received actions + run.table.entries.length ∧
      s.table.destroy s.memory = .ok memory' ∧
      {a | memory'.nodes a ≠ none}.ncard = received actions ∧
      {a | memory'.objects a ≠ none}.ncard = received actions := by
  intro actions run
  obtain ⟨first, slots₀, hStart, hFirst⟩ := start_forgetful allocators config clock
  obtain ⟨s, slots, lost, hSteps, hEnd⟩ := foldlM_forgetful steps hFirst
  obtain ⟨memory', hDestroy, hExchange⟩ := TableObject.destroy_of_owns hEnd.owns
  have hLost : lost.length = received actions := by rw [hEnd.forgotten, Nat.zero_add]
  have hTable : s.table.view slots = run.table := congrArg RouterRun.table hEnd.view
  have hEntries : slots.length = run.table.entries.length := by
    rw [← hTable, TableObject.view, List.length_map]
  have hCount : (lost ++ slots).length = received actions + run.table.entries.length := by
    rw [List.length_append, hLost, hEntries]
  have hNothing : memory'.Owns LinkedList.create [] :=
    ⟨LinkedList.represents_create, List.nodup_nil, by simp⟩
  have hLeft := hEnd.accounts.exchange hExchange hNothing
  rw [List.append_nil] at hLeft
  refine ⟨s, memory', ?_, congrArg RouterRun.sent hEnd.view, congrArg RouterRun.answers hEnd.view,
    congrArg RouterRun.running hEnd.view, ?_, ?_, ?_, hDestroy, ?_, ?_⟩
  · rw [hStart]
    exact hSteps
  · rw [TableObject.listed_of_owns hEnd.owns, hTable]
  · rw [hEnd.accounts.nodes.ncard_eq, List.length_map, hCount]
  · rw [hEnd.accounts.objects.ncard_eq, List.length_map, hCount]
  · rw [hLeft.nodes.ncard_eq, List.length_map, hLost]
  · rw [hLeft.objects.ncard_eq, List.length_map, hLost]

end RouterMemory

end MipStack
