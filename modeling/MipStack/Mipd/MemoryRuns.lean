import MipStack.Mipd.BranchMemory

/-! The loop of mipd (`MIPDServer_run`) with its queue and its packages in memory: what is never
given back, event by event. -/
namespace MipStack

/-- `running` is false after the loop was left. -/
structure MipdRun where
  server : MIPDServer
  outputs : List Output
  running : Bool
  leaked : Leaks

/-- The same loop with its memory. -/
structure MipdLoop where
  memory : MipdMemory
  server : ServerObject
  outputs : List Output
  running : Bool

/-- The arguments of `MIPDServer_create`. -/
structure MipdSetup where
  appSocket : LocalSocket
  routeSocket : LocalSocket
  forwardSocket : LocalSocket
  iTable : InterfaceTable
  cacheUpdateFreqMilli : ℤ

namespace MipdRun

inductive Action where
  | tick (clock : Clock)
  | event (event : Event) (env : Env)

def start (setup : MipdSetup) (now : ℤ) : MipdRun :=
  let (server, outputs) := (MIPDServer.create setup.appSocket setup.routeSocket setup.forwardSocket
    setup.iTable setup.cacheUpdateFreqMilli).startRun now
  { server, outputs, running := true, leaked := .none }

def tick (s : MipdRun) (clock : Clock) : MipdRun :=
  let (server, outputs) := s.server.tick clock
  { s with server, outputs := s.outputs ++ outputs }

/-- A fault leaves no state. -/
def handle (s : MipdRun) (event : Event) (env : Env) : Except Heap.Failure MipdRun :=
  let outcome := s.server.branch event env
  match outcome.result with
  | .error .fault => .error .fault
  | _ =>
    .ok { server := outcome.server
          outputs := s.outputs ++ outcome.outputs
          running := outcome.continues
          leaked := s.leaked.add (s.server.leaks event env) }

/-- Nothing happens after the loop was left. -/
def perform (s : MipdRun) (action : Action) : Except Heap.Failure MipdRun :=
  if s.running then
    match action with
    | .tick clock => .ok (s.tick clock)
    | .event event env => s.handle event env
  else .ok s

end MipdRun

namespace MipdLoop
open MipdRun (Action)

def start (allocators : MipdAllocators) (setup : MipdSetup) (now : ℤ) :
    Except Heap.Failure MipdLoop := do
  let server := ServerObject.create setup.appSocket setup.routeSocket setup.forwardSocket
    setup.iTable setup.cacheUpdateFreqMilli
  let (memory, cache, outputs) ← MipdMemory.empty.completeMipArp allocators server.iTable
    server.cache now
  .ok { memory, server := { server with cache }, outputs, running := true }

def tick (allocators : MipdAllocators) (m : MipdLoop) (clock : Clock) :
    Except Heap.Failure MipdLoop := do
  let (memory, cache, outputs) ← m.memory.updateArpCache allocators m.server.iTable
    m.server.cache clock
  .ok { m with memory, server := { m.server with cache }, outputs := m.outputs ++ outputs }

def handle (allocators : MipdAllocators) (m : MipdLoop) (event : Event) (env : Env) :
    Except Heap.Failure MipdLoop := do
  let outcome ← m.server.branch m.memory allocators event env
  .ok { memory := outcome.memory
        server := outcome.server
        outputs := m.outputs ++ outcome.outputs
        running := outcome.running && outcome.result.isOk }

def perform (m : MipdLoop) (step : MipdAllocators × Action) : Except Heap.Failure MipdLoop :=
  if m.running then
    match step with
    | (allocators, .tick clock) => m.tick allocators clock
    | (allocators, .event event env) => m.handle allocators event env
  else .ok m

/-- The loop in memory is where the plain one is, and next to its queue only what was left
behind is in use. -/
structure Follows (m : MipdLoop) (s : MipdRun) (slots : List (Slot ForwardEntryObject))
    (strays : Strays) : Prop where
  keeps : Keeps m.memory m.server s.server slots strays
  outputs : m.outputs = s.outputs
  running : m.running = s.running
  messages : strays.messages = []
  leaks : strays.leaks = s.leaked

variable {m : MipdLoop} {s : MipdRun} {slots : List (Slot ForwardEntryObject)} {strays : Strays}

/-- The start in memory: the queue is created and the first ARP requests are sent and freed. -/
theorem start_follows (allocators : MipdAllocators) (setup : MipdSetup) (now : ℤ) :
    ∃ m strays, start allocators setup now = .ok m ∧
      Follows m (MipdRun.start setup now) [] strays := by
  have hCreate := keeps_create setup.appSocket setup.routeSocket setup.forwardSocket setup.iTable
    setup.cacheUpdateFreqMilli
  let server := ServerObject.create setup.appSocket setup.routeSocket setup.forwardSocket
    setup.iTable setup.cacheUpdateFreqMilli
  let arp := MipArpCache.completeMipArp server.iTable server.cache now
  refine ⟨⟨.empty, { server with cache := arp.1 }, arp.2, true⟩, _, ?_,
    hCreate.withCache arp.1, rfl, rfl, rfl, rfl⟩
  rw [start, hCreate.completeMipArp]
  rfl

/-- A sweep in memory does what the plain one does and leaves nothing behind. -/
theorem tick_follows (h : Follows m s slots strays) (allocators : MipdAllocators) (clock : Clock) :
    ∃ m', m.tick allocators clock = .ok m' ∧ Follows m' (s.tick clock) slots strays := by
  let arp := MipArpCache.updateArpCache s.server.iTable s.server.cache clock
  refine ⟨⟨m.memory, { m.server with cache := arp.1 }, m.outputs ++ arp.2, m.running⟩, ?_,
    h.keeps.withCache arp.1, ?_, h.running, h.messages, h.leaks⟩
  · rw [tick, h.keeps.updateArpCache, h.keeps.iTable_eq, h.keeps.cache_eq]
    rfl
  · rw [h.outputs]
    rfl

/-- An event: both fault, or the loop in memory follows. -/
theorem handle_follows (h : Follows m s slots strays) (allocators : MipdAllocators) (event : Event)
    (env : Env) :
    (s.handle event env = .error .fault ∧ m.handle allocators event env = .error .fault) ∨
      ∃ s' m' slots' strays', s.handle event env = .ok s' ∧ m.handle allocators event env = .ok m' ∧
        Follows m' s' slots' strays' := by
  obtain ⟨strays', hMatches, hMessages, hLeaks⟩ := h.keeps.branch allocators event env
  unfold MipdLoop.handle MipdRun.handle
  generalize m.server.branch m.memory allocators event env = done at hMatches ⊢
  cases hMatches with
  | fault hFault => exact Or.inl ⟨by simp only [hFault], rfl⟩
  | @agrees o _ _ hFine hAgrees =>
      obtain ⟨slots', hKeeps⟩ := hAgrees.keeps
      refine Or.inr ⟨⟨(s.server.branch event env).server,
        s.outputs ++ (s.server.branch event env).outputs, (s.server.branch event env).continues,
        s.leaked.add (s.server.leaks event env)⟩, _, slots', strays', ?_, rfl, hKeeps, ?_, ?_,
        hMessages.trans h.messages, ?_⟩
      · simp only
      · rw [h.outputs, hAgrees.outputs]
      · rw [hAgrees.running, hAgrees.result, Outcome.continues]
      · rw [hLeaks, h.leaks]

/-- The step lemma: an event or a sweep in memory faults if the plain one does, or else it follows
it, with the strays that the event leaves behind. -/
theorem perform_follows (h : Follows m s slots strays) (step : MipdAllocators × Action) :
    (s.perform step.2 = .error .fault ∧ m.perform step = .error .fault) ∨
      ∃ s' m' slots' strays', s.perform step.2 = .ok s' ∧ m.perform step = .ok m' ∧
        Follows m' s' slots' strays' := by
  obtain ⟨allocators, action⟩ := step
  unfold MipdLoop.perform MipdRun.perform
  rw [h.running]
  by_cases hRunning : s.running
  · simp only [if_pos hRunning]
    cases action with
    | tick clock =>
        obtain ⟨m', hTick, hAfter⟩ := tick_follows h allocators clock
        exact Or.inr ⟨_, m', slots, strays, rfl, hTick, hAfter⟩
    | event event env => exact handle_follows h allocators event env
  · simp only [if_neg hRunning]
    exact Or.inr ⟨s, m, slots, strays, rfl, rfl, h⟩

/-- The run lemma, for any number of turns of the loop and with a new choice of the allocators in
each. -/
theorem foldlM_follows (steps : List (MipdAllocators × Action)) (h : Follows m s slots strays) :
    ((steps.map Prod.snd).foldlM MipdRun.perform s = .error .fault ∧
      steps.foldlM perform m = .error .fault) ∨
    ∃ s' m' slots' strays', (steps.map Prod.snd).foldlM MipdRun.perform s = .ok s' ∧
      steps.foldlM perform m = .ok m' ∧ Follows m' s' slots' strays' := by
  induction steps generalizing m s slots strays with
  | nil => exact Or.inr ⟨s, m, slots, strays, rfl, rfl, h⟩
  | cons step rest ih =>
      rw [List.map_cons, List.foldlM_cons, List.foldlM_cons]
      rcases perform_follows h step with
        ⟨hPlain, hDone⟩ | ⟨s₁, m₁, slots₁, strays₁, hPlain, hDone, hFollows⟩
      · rw [hPlain, hDone]
        exact Or.inl ⟨rfl, rfl⟩
      · rw [hPlain, hDone]
        exact ih hFollows

/-- The queue is destroyed without its packages: entries and nodes are freed, and nobody frees
what the entries point to. -/
theorem destroy_follows (h : Follows m s slots strays) :
    ∃ memory', m.server.destroy m.memory = .ok memory' ∧
      memory'.queue.nodes.Allocated [] ∧ memory'.queue.objects.Allocated [] ∧
      memory'.packages = m.memory.packages ∧ memory'.buffers = m.memory.buffers ∧
      memory'.tables = m.memory.tables := by
  obtain ⟨⟨nodes', objects'⟩, hClear, hDestroy, hExchange⟩ := h.keeps.owns.clearDestroy
  have hNodes : m.memory.queue.nodes.Allocated ([] ++ slots.map Slot.node) := h.keeps.nodes
  have hEntries : m.memory.queue.objects.Allocated ([] ++ slots.map Slot.pointer) := h.keeps.entries
  refine ⟨{ m.memory with queue := ⟨nodes', objects'⟩ }, ?_,
    hNodes.turnover hExchange.nodes List.nodup_nil fun _ hMem => absurd hMem List.not_mem_nil,
    hEntries.turnover hExchange.objects List.nodup_nil fun _ hMem => absurd hMem List.not_mem_nil,
    rfl, rfl, rfl⟩
  simp only [ServerObject.destroy, hClear, hDestroy, bind, Except.bind]

/-- Whatever mipd does, with memory wherever the allocators put it: the run in memory faults
exactly when the plain one does, in a handler and never at a pointer. Until then it does the
same, and in use are the nodes, the entries and the packages of the queue, next to what each
event left behind. When mipd stops, nothing but the nodes and the entries is given back. -/
theorem packages_stay_in_memory (setup : MipdSetup) (now : ℤ) (allocators : MipdAllocators)
    (steps : List (MipdAllocators × Action)) :
    let plain := (steps.map Prod.snd).foldlM MipdRun.perform (MipdRun.start setup now)
    let run := start allocators setup now >>= steps.foldlM perform
    (plain = .error .fault ∧ run = .error .fault) ∨
    ∃ s m memory', plain = .ok s ∧ run = .ok m ∧ m.outputs = s.outputs ∧ m.running = s.running ∧
      m.server.view s.server.forwardQueue = s.server ∧
      {a | m.memory.queue.nodes a ≠ none}.ncard = s.server.forwardQueue.length ∧
      {a | m.memory.queue.objects a ≠ none}.ncard = s.server.forwardQueue.length ∧
      {a | m.memory.packages a ≠ none}.ncard =
        s.leaked.packages + s.server.forwardQueue.length ∧
      {a | m.memory.messages a ≠ none}.ncard = 0 ∧
      {a | m.memory.buffers a ≠ none}.ncard = s.leaked.buffers ∧
      {a | m.memory.tables a ≠ none}.ncard = s.leaked.tables ∧
      m.server.destroy m.memory = .ok memory' ∧
      {a | memory'.queue.nodes a ≠ none}.ncard = 0 ∧
      {a | memory'.queue.objects a ≠ none}.ncard = 0 ∧
      memory'.packages = m.memory.packages ∧ memory'.buffers = m.memory.buffers ∧
      memory'.tables = m.memory.tables := by
  intro plain run
  obtain ⟨first, strays₀, hStart, hFirst⟩ := start_follows allocators setup now
  have hRun : run = steps.foldlM perform first := by
    simp only [run, hStart, bind, Except.bind]
  rw [hRun]
  rcases foldlM_follows steps hFirst with hFault | ⟨s, m, slots, strays, hPlain, hDone, hFollows⟩
  · exact Or.inl hFault
  obtain ⟨memory', hDestroy, hNodes, hEntries, hPackages, hBuffers, hTables⟩ :=
    destroy_follows hFollows
  have hKeeps := hFollows.keeps
  have hQueue : slots.length = s.server.forwardQueue.length := by
    rw [← hKeeps.queued.length_eq, List.length_reverse]
  have hLeaks := hFollows.leaks
  refine Or.inr ⟨s, m, memory', hPlain, hDone, hFollows.outputs, hFollows.running, hKeeps.view, ?_,
    ?_, ?_, ?_, ?_, ?_, hDestroy, ?_, ?_, hPackages, hBuffers, hTables⟩
  · rw [hKeeps.nodes.ncard_eq, List.length_map, hQueue]
  · rw [hKeeps.entries.ncard_eq, List.length_map, hQueue]
  · rw [hKeeps.packages.ncard_eq, List.length_append, List.length_map, hQueue, ← hLeaks]
    rfl
  · rw [hKeeps.messages.ncard_eq, hFollows.messages, List.length_nil]
  · rw [hKeeps.buffers.ncard_eq, ← hLeaks]
    rfl
  · rw [hKeeps.tables.ncard_eq, ← hLeaks]
    rfl
  · rw [hNodes.ncard_eq, List.length_nil]
  · rw [hEntries.ncard_eq, List.length_nil]

end MipdLoop

end MipStack
