import MipStack.Commons.OwnedList
import MipStack.Routerd.RouteRefinement

/-! The routing table in memory (`routerd/src/lib/mip_route_table.c`): a linked list of
pointers to entries. Memory never runs out, so the checks for NULL do not occur. -/
namespace MipStack

abbrev TableMemory := ObjectMemory MIPRouteEntry

abbrev TableAllocators := ObjectAllocators MIPRouteEntry

/-- The struct `MIPRouteTable`, with the list behind its pointer. -/
structure TableObject where
  tableAddress : MIPAddress
  entryMaxAgeMilli : ℤ
  entries : LinkedList
  deriving DecidableEq, Repr

namespace TableObject

def create : TableObject :=
  { tableAddress := 0, entryMaxAgeMilli := mipTableEntryMaxAgeMilli, entries := .create }

/-- `MIPRouteTable_get` gives a pointer to the entry. -/
def get (memory : TableMemory) (table : TableObject) (destination : MIPAddress) :
    Except Heap.Failure (Option ℕ) :=
  LinkedList.forEach (fun _ => memory.nodes) LinkedCell.next (fun _ current => do
    let node ← memory.nodes.read (some current)
    let entry ← memory.objects.read (some node.value)
    .ok (if entry.destination = destination then .leave (some node.value) else .next none))
    table.entries.fuel table.entries.first none

/-- Whether the pointer is to an entry for the destination. -/
def leadsTo (memory : TableMemory) (destination : MIPAddress) (pointer : ℕ) :
    Except Heap.Failure Bool := do
  let entry ← memory.objects.read (some pointer)
  .ok (decide (entry.destination = destination))

/-- The removed entry is freed before the loop is left. -/
def remove (memory : TableMemory) (table : TableObject) (destination : MIPAddress) :
    Except Heap.Failure (ℤ × TableMemory × TableObject) :=
  if table.entries.count = 0 then .ok (1, memory, table)
  else do
    let (nodes, entries, removed) ← LinkedList.removeLoop .leave (leadsTo memory destination)
      table.entries.fuel memory.nodes table.entries
    let objects ← memory.objects.free removed
    .ok (if removed.isSome then 1 else 0, ⟨nodes, objects⟩, { table with entries })

def update (allocators : TableAllocators) (memory : TableMemory) (table : TableObject)
    (destination nextHop : MIPAddress) (cost : UInt32) (now : ℤ) :
    Except Heap.Failure (ℤ × TableMemory × TableObject) := do
  let pointer := allocators.object.malloc memory.objects
  let objects := memory.objects.alloc pointer (MIPRouteEntry.create destination nextHop cost now)
  let (rc, memory, table) ← table.remove { memory with objects } destination
  if rc = -1 then .ok (-1, memory, table)
  else
    let (nodes, entries) ← table.entries.push memory.nodes pointer
      (some (allocators.node.malloc memory.nodes))
    .ok (1, { memory with nodes }, { table with entries })

/-- The entries as a loop over the list sees them. -/
def listed (memory : TableMemory) (table : TableObject) :
    Except Heap.Failure (List MIPRouteEntry) :=
  LinkedList.forEach (fun _ => memory.nodes) LinkedCell.next (fun seen current => do
    let node ← memory.nodes.read (some current)
    let entry ← memory.objects.read (some node.value)
    .ok (.next (seen ++ [entry]))) table.entries.fuel table.entries.first []

/-- `none` is the NULL package. The loop fills as many places as the list has nodes. -/
def createPackage (memory : TableMemory) (table : TableObject) :
    Except Heap.Failure (Option MIPRouteTablePackage) :=
  if table.entries.count < mipTablePackageEntriesMaxSize then do
    let entries ← table.listed memory
    .ok (some {
      tableAddress := 0
      numEntries := UInt8.ofNat entries.length
      entries := Vector.ofFn fun i => match entries[i.val]? with
        | some current => ⟨current.destination, current.nextHop, current.cost⟩
        | none => ⟨0, 0, 0⟩ })
  else .ok none

/-- `List_clear_destroy` on the entries. -/
def destroy (memory : TableMemory) (table : TableObject) : Except Heap.Failure TableMemory := do
  let objects ← table.entries.clear table.entries.fuel memory.nodes memory.objects
  let nodes ← table.entries.destroy table.entries.fuel memory.nodes
  .ok ⟨nodes, objects⟩

def getNextHop (memory : TableMemory) (table : TableObject) (destination : MIPAddress) :
    Except Heap.Failure MIPAddress :=
  if destination = mipBroadcastAddress then .ok mipBroadcastAddress
  else do
    match ← table.get memory destination with
    | none => .ok 255
    | some pointer => do
      let entry ← memory.objects.read (some pointer)
      .ok entry.nextHop

/-- Whether there is no entry for the destination yet, or none as good. -/
def wins (memory : TableMemory) (table : TableObject) (challenger : MIPRouteEntry) :
    Except Heap.Failure Bool := do
  match ← table.get memory challenger.destination with
  | none => .ok true
  | some pointer => do
    let champion ← memory.objects.read (some pointer)
    .ok (decide (challenger.cost + 1 ≤ champion.cost))

/-- What the merge loop carries: the memory, the table and the number of turns. -/
abbrev Merge := TableMemory × TableObject × ℕ

def updateRoutingTurn (allocators : TableAllocators) (neighborAddress : MIPAddress)
    (clock : Clock) (state : Merge) (current : ℕ) : Except Heap.Failure (Flow Merge) := do
  let (memory, table, turn) := state
  let node ← memory.nodes.read (some current)
  let challenger ← memory.objects.read (some node.value)
  let wins ← table.wins memory challenger
  if wins && challenger.cost != uintMax then
    let (_, memory, table) ← table.update allocators memory challenger.destination
      neighborAddress (challenger.cost + 1) (clock turn)
    .ok (.next (memory, table, turn + 1))
  else .ok (.next (memory, table, turn + 1))

def updateRouting (allocators : TableAllocators) (memory : TableMemory)
    (table neighborTable : TableObject) (clock : Clock) :
    Except Heap.Failure (TableMemory × TableObject) := do
  let (memory, table, _) ← LinkedList.forEach (fun state : Merge => state.1.nodes)
    LinkedCell.next (updateRoutingTurn allocators neighborTable.tableAddress clock)
    neighborTable.entries.fuel neighborTable.entries.first (memory, table, 0)
  .ok (memory, table)

end TableObject

/-- The entries of the package that were not read yet are put on the list. -/
def MIPRouteTablePackage.pushEntries (allocators : TableAllocators) (clock : Clock) :
    List (MIPRoutePackageEntry × ℕ) → TableMemory → TableObject →
      Except Heap.Failure (TableMemory × TableObject)
  | [], memory, table => .ok (memory, table)
  | (current, turn) :: rest, memory, table => do
    let pointer := allocators.object.malloc memory.objects
    let objects := memory.objects.alloc pointer
      (MIPRouteEntry.create current.destination current.nextHop current.cost (clock turn))
    let (nodes, entries) ← table.entries.push memory.nodes pointer
      (some (allocators.node.malloc memory.nodes))
    pushEntries allocators clock rest ⟨nodes, objects⟩ { table with entries }

/-- `none` is the NULL table. -/
def MIPRouteTablePackage.createTableObject (allocators : TableAllocators)
    (package : MIPRouteTablePackage) (memory : TableMemory) (clock : Clock) :
    Except Heap.Failure (Option (TableMemory × TableObject)) :=
  if package.numEntries.toNat < mipTablePackageEntriesMaxSize then do
    let created ← pushEntries allocators clock
      ((package.entries.toList.take package.numEntries.toNat).zipIdx) memory
      { TableObject.create with tableAddress := package.tableAddress }
    .ok (some created)
  else .ok none

namespace TableObject

/-- What the loop of `MIPRouteTable_remove_old_entries` carries: the memory, the new
list, the number of entries removed and the number of turns. -/
abbrev Sweep := TableMemory × LinkedList × ℕ × ℕ

def toOld (table : TableObject) (entry : MIPRouteEntry) (now : ℤ) : Bool :=
  now - entry.lastUpdatedMilli > table.entryMaxAgeMilli

def removeOldTurn (allocators : TableAllocators) (table : TableObject) (clock : Clock)
    (state : Sweep) (current : ℕ) : Except Heap.Failure (Flow Sweep) := do
  let (memory, newList, removed, turn) := state
  let node ← memory.nodes.read (some current)
  let entry ← memory.objects.read (some node.value)
  if table.toOld entry (clock turn) && entry.cost != 0 then
    let objects ← memory.objects.free (some node.value)
    .ok (.next ({ memory with objects }, newList, removed + 1, turn + 1))
  else
    let (nodes, newList) ← newList.push memory.nodes node.value
      (some (allocators.node.malloc memory.nodes))
    .ok (.next ({ memory with nodes }, newList, removed, turn + 1))

def removeOldEntries (allocators : TableAllocators) (memory : TableMemory) (table : TableObject)
    (clock : Clock) : Except Heap.Failure (ℕ × TableMemory × TableObject) := do
  let (memory, newList, removed, _) ← LinkedList.forEach (fun state : Sweep => state.1.nodes)
    LinkedCell.next (removeOldTurn allocators table clock) table.entries.fuel table.entries.first
    (memory, LinkedList.create, 0, 0)
  let nodes ← table.entries.destroy table.entries.fuel memory.nodes
  .ok (removed, { memory with nodes }, { table with entries := newList })

/-- The table that the slots make up. -/
def view (table : TableObject) (slots : List (Slot MIPRouteEntry)) : MIPRouteTable :=
  { tableAddress := table.tableAddress
    entryMaxAgeMilli := table.entryMaxAgeMilli
    entries := slots.map Slot.object }

theorem view_push (table : TableObject) (entries : LinkedList) (slots : List (Slot MIPRouteEntry))
    (slot : Slot MIPRouteEntry) :
    TableObject.view { table with entries } (slots ++ [slot]) =
      { table.view slots with entries := (table.view slots).entries ++ [slot.object] } := by
  simp only [view, List.map_append, List.map_cons, List.map_nil]

variable {memory memory' : TableMemory} {table neighborTable : TableObject}
  {slots others : List (Slot MIPRouteEntry)}

open ObjectMemory LinkedChain

/-- The pointer found is that of the entry found. -/
theorem get_of_owns (h : memory.Owns table.entries slots) (destination : MIPAddress) :
    table.get memory destination =
      .ok ((slots.find? fun slot => slot.object.destination = destination).map Slot.pointer) := by
  rw [get, h.represents.first]
  refine forEach_find (q := fun entry => decide (entry.destination = destination))
    h.represents.linked.visits_next (Nat.le_of_eq h.fuel.symm)
    fun slot hMem node hNode hValue => ?_
  simp only [Heap.read_of_live hNode, bind, Except.bind, hValue,
    Heap.read_of_live (h.objects slot hMem), decide_eq_true_eq]

theorem find_object (destination : MIPAddress) :
    (slots.find? fun slot => slot.object.destination = destination).map Slot.object =
      (table.view slots).get destination := by
  rw [view, MIPRouteTable.get, List.find?_map]
  rfl

/-- `MIPRouteTable_remove` takes out the first node with the destination and frees its entry. -/
theorem remove_of_owns (h : memory.Owns table.entries slots) (destination : MIPAddress) :
    ∃ memory' table', table.remove memory destination =
        .ok (((table.view slots).remove destination).1, memory', table') ∧
      memory'.Owns table'.entries
        (slots.eraseP fun slot => slot.object.destination = destination) ∧
      table'.view (slots.eraseP fun slot => slot.object.destination = destination) =
        ((table.view slots).remove destination).2 ∧
      memory.Exchange memory' slots
        (slots.eraseP fun slot => slot.object.destination = destination) := by
  have hView : ∀ entries : LinkedList, TableObject.view { table with entries }
      (slots.eraseP fun slot => slot.object.destination = destination) =
        ((table.view slots).remove destination).2 := by
    intro entries
    rw [MIPRouteTable.remove_snd, view, view, List.eraseP_map]
    rfl
  have hLeadsTo : ∀ pointer entry, memory.objects pointer = some entry →
      leadsTo memory destination pointer = .ok (decide (entry.destination = destination)) := by
    intro pointer entry hEntry
    simp only [leadsTo, Heap.read_of_live hEntry, bind, Except.bind]
  have hLength : table.entries.count = slots.length := by
    rw [h.represents.count, List.length_map]
  by_cases hEmpty : table.entries.count = 0
  · obtain rfl : slots = [] := List.length_eq_zero_iff.mp (by omega)
    refine ⟨memory, table, ?_, h, hView table.entries, Exchange.refl memory []⟩
    rw [remove, if_pos hEmpty]
    rfl
  · obtain ⟨nodes', entries', objects', hLoop, hFree, hOwns, hExchange⟩ :=
      h.removeFirst (Nat.le_of_eq h.fuel.symm) hLeadsTo
    refine ⟨⟨nodes', objects'⟩, { table with entries := entries' }, ?_, hOwns, hView entries',
      hExchange⟩
    have hView' : (table.view slots).entries.length ≠ 0 := by
      simp only [view, List.length_map]
      omega
    rw [remove, if_neg hEmpty, hLoop]
    simp only [bind, Except.bind, hFree, Option.isSome_map]
    rw [MIPRouteTable.remove, if_neg hView', ← find_object, Option.isSome_map]
    split_ifs <;> rfl

/-- `MIPRouteTable_update` removes the old entry and pushes a new one, so the table has a node and
an entry for each destination. -/
theorem update_of_owns (allocators : TableAllocators)
    (hAccounts : memory.Accounts (others ++ slots))
    (h : memory.Owns table.entries slots) (destination nextHop : MIPAddress) (cost : UInt32)
    (now : ℤ) :
    ∃ memory' table' slots', table.update allocators memory destination nextHop cost now =
        .ok (1, memory', table') ∧
      memory'.Owns table'.entries slots' ∧
      table'.view slots' = ((table.view slots).update destination nextHop cost now).2 ∧
      memory.Exchange memory' slots slots' := by
  obtain ⟨pointer, hPointer⟩ : ∃ pointer, allocators.object.malloc memory.objects = pointer :=
    ⟨_, rfl⟩
  obtain ⟨entry, hEntry⟩ : ∃ entry, MIPRouteEntry.create destination nextHop cost now = entry :=
    ⟨_, rfl⟩
  have hFresh : memory.objects pointer = none :=
    hPointer ▸ allocators.object.fresh_of_allocated hAccounts.objects
  obtain ⟨removed, table', hRemove, hOwns, hView, hExchange⟩ :=
    remove_of_owns (h.alloc hFresh entry) destination
  obtain ⟨kept, hKept⟩ : ∃ kept,
      (slots.eraseP fun slot => slot.object.destination = destination) = kept := ⟨_, rfl⟩
  rw [hKept] at hOwns hView hExchange
  have hNodes : removed.nodes.Allocated ((others ++ kept).map Slot.node) := by
    have hBefore := hAccounts.nodes
    rw [List.map_append] at hBefore ⊢
    exact hBefore.turnover hExchange.nodes hOwns.nodup fun a ha => by
      obtain ⟨slot, hMem, rfl⟩ := List.mem_map.mp ha
      exact (hOwns.live hMem).1
  obtain ⟨nodes', entries', hPush, hAfter, hTurnover⟩ := h.pushAllocated hFresh hExchange
    (hKept ▸ List.eraseP_subset) hOwns (allocators.node.fresh_of_allocated hNodes)
  refine ⟨⟨nodes', removed.objects⟩, { table' with entries := entries' }, _, ?_, hAfter, ?_,
    hTurnover⟩
  · simp only [update, hPointer, hEntry, hRemove, bind, Except.bind]
    rw [if_neg (MIPRouteTable.remove_fst _ _)]
    simp only [hPush]
  · rw [MIPRouteTable.remove_snd] at hView
    rw [view_push, hView, MIPRouteTable.update_eq, hEntry, KeyedList.replace, ← hEntry]
    rfl

/-- The comparison of a challenger with the entry in memory is that of the plain tables. -/
theorem wins_of_owns (h : memory.Owns table.entries slots) (challenger : MIPRouteEntry) :
    ∃ wins, table.wins memory challenger = .ok wins ∧ ∀ address now,
      (table.view slots).updateEntry address challenger now =
        if wins && challenger.cost != uintMax then
          ((table.view slots).update challenger.destination address (challenger.cost + 1) now).2
        else table.view slots := by
  refine ⟨_, ?_, fun _ _ => rfl⟩
  simp only [wins, get_of_owns h, bind, Except.bind, ← find_object]
  cases hFind : slots.find? fun slot => slot.object.destination = challenger.destination with
  | none => rfl
  | some champion =>
      have hMem := List.mem_of_find?_eq_some hFind
      simp only [Option.map_some, Heap.read_of_live (h.objects champion hMem)]

/-- One turn of the merge loop, with the neighbour's table among what others own. -/
theorem updateRoutingTurn_of_owns (allocators : TableAllocators) (clock : Clock) (turn : ℕ)
    {mine : List (Slot MIPRouteEntry)} {slot : Slot MIPRouteEntry}
    (hAccounts : memory.Accounts (others ++ slots))
    (h : memory.Owns table.entries slots) (hMine : memory.Owns neighborTable.entries mine)
    (hMem : slot ∈ mine) :
    ∃ memory' table' slots', updateRoutingTurn allocators neighborTable.tableAddress clock
        (memory, table, turn) slot.node = .ok (.next (memory', table', turn + 1)) ∧
      memory'.Owns table'.entries slots' ∧
      table'.view slots' = (table.view slots).updateEntry neighborTable.tableAddress slot.object
        (clock turn) ∧
      memory.Exchange memory' slots slots' := by
  obtain ⟨node, hNode, hValue⟩ := hMine.represents.linked.live (List.mem_map_of_mem hMem)
  have hRead : memory.objects.read (some node.value) = .ok slot.object := by
    rw [hValue]
    exact Heap.read_of_live (hMine.objects slot hMem)
  have hRead' : memory.nodes.read (some slot.node) = .ok node := Heap.read_of_live hNode
  obtain ⟨memory', table', slots', hUpdate, hOwns, hView, hExchange⟩ := update_of_owns
    allocators hAccounts h slot.object.destination neighborTable.tableAddress
    (slot.object.cost + 1) (clock turn)
  obtain ⟨wins, hWins, hEntry⟩ := wins_of_owns h slot.object
  simp only [updateRoutingTurn, hRead', hRead, hWins, bind, Except.bind, hEntry]
  split_ifs
  · simp only [hUpdate]
    exact ⟨memory', table', slots', rfl, hOwns, hView, hExchange⟩
  · exact ⟨memory, table, slots, rfl, h, rfl, Exchange.refl memory slots⟩

/-- The merge loop, from some entry of the neighbour on. -/
theorem forEach_updateRoutingTurn (allocators : TableAllocators) (clock : Clock) (turn : ℕ)
    {rest : List (Slot MIPRouteEntry)} {fuel : ℕ} (done : List (Slot MIPRouteEntry))
    (hSub : done ++ rest ⊆ others) (hAccounts : memory.Accounts (others ++ slots))
    (h : memory.Owns table.entries slots)
    (hMine : memory.Owns neighborTable.entries (done ++ rest)) (hFuel : rest.length ≤ fuel) :
    ∃ memory' table' slots', LinkedList.forEach (fun state : Merge => state.1.nodes)
        LinkedCell.next (updateRoutingTurn allocators neighborTable.tableAddress clock) fuel
        (entry (rest.map Slot.cell) none) (memory, table, turn) =
          .ok (memory', table', turn + rest.length) ∧
      memory'.Owns table'.entries slots' ∧
      table'.view slots' = ((rest.map Slot.object).zipIdx turn).foldl (fun table entry =>
        table.updateEntry neighborTable.tableAddress entry.1 (clock entry.2)) (table.view slots) ∧
      memory.Exchange memory' slots slots' := by
  induction rest generalizing memory table slots done turn fuel with
  | nil => exact ⟨memory, table, slots, LinkedList.forEach.eq_1 .., h, rfl,
      Exchange.refl memory slots⟩
  | cons slot rest ih =>
      cases fuel with
      | zero => cases hFuel
      | succ fuel =>
          obtain ⟨middle, table₁, slots₁, hTurn, hOwns, hView, hExchange⟩ :=
            updateRoutingTurn_of_owns allocators clock turn hAccounts h hMine
              (List.mem_append_right done List.mem_cons_self)
          have hMine₁ : middle.Owns neighborTable.entries (done ++ slot :: rest) :=
            hMine.other hSub hAccounts hExchange
          have hLinked := hMine₁.represents.linked
          rw [List.map_append] at hLinked
          obtain ⟨-, hNode, -⟩ := linked_append.mp hLinked
          rw [List.append_cons] at hSub hMine₁
          obtain ⟨memory', table', slots', hLoop, hOwns', hView', hExchange'⟩ :=
            ih (turn + 1) _ hSub (hAccounts.exchange hExchange hOwns) hOwns hMine₁
              (Nat.le_of_succ_le_succ hFuel)
          refine ⟨memory', table', slots', ?_, hOwns', ?_, hExchange.trans hExchange'⟩
          · refine (LinkedList.forEach_next hTurn hNode fuel).trans (hLoop.trans ?_)
            rw [List.length_cons, Nat.add_assoc, Nat.add_comm 1]
          · rw [hView', hView]
            rfl

/-- Merging a table that others own: it is read entry by entry, and nothing of it is changed or
freed. -/
theorem updateRouting_of_owns (allocators : TableAllocators) (clock : Clock)
    {mine : List (Slot MIPRouteEntry)} (hSub : mine ⊆ others)
    (hAccounts : memory.Accounts (others ++ slots)) (h : memory.Owns table.entries slots)
    (hMine : memory.Owns neighborTable.entries mine) :
    ∃ memory' table' slots',
      table.updateRouting allocators memory neighborTable clock = .ok (memory', table') ∧
      memory'.Owns table'.entries slots' ∧
      table'.view slots' = (table.view slots).updateRouting (neighborTable.view mine) clock ∧
      memory.Exchange memory' slots slots' := by
  obtain ⟨memory', table', slots', hLoop, hOwns, hView, hExchange⟩ :=
    forEach_updateRoutingTurn allocators clock 0 [] hSub hAccounts h hMine
      (Nat.le_of_eq hMine.fuel.symm)
  refine ⟨memory', table', slots', ?_, hOwns, hView, hExchange⟩
  rw [updateRouting, hMine.represents.first, hLoop]
  rfl

/-- A new entry behind the others, with a node of its own. -/
theorem push_of_owns (allocators : TableAllocators) (hAccounts : memory.Accounts (others ++ slots))
    (h : memory.Owns table.entries slots) (entry : MIPRouteEntry) :
    let pointer := allocators.object.malloc memory.objects
    ∃ nodes' entries' slot,
      table.entries.push memory.nodes pointer (some (allocators.node.malloc memory.nodes)) =
        .ok (nodes', entries') ∧
      slot.object = entry ∧
      Owns ⟨nodes', memory.objects.alloc pointer entry⟩ entries' (slots ++ [slot]) ∧
      memory.Exchange ⟨nodes', memory.objects.alloc pointer entry⟩ slots (slots ++ [slot]) := by
  intro pointer
  have hFresh : memory.objects pointer = none :=
    allocators.object.fresh_of_allocated hAccounts.objects
  obtain ⟨nodes', entries', hPush, hOwns, hExchange⟩ := h.pushAllocated hFresh
    (Exchange.refl _ slots) (List.Subset.refl slots) (h.alloc hFresh entry)
    (allocators.node.fresh_of_allocated hAccounts.nodes)
  exact ⟨nodes', entries', _, hPush, rfl, hOwns, hExchange⟩

/-- The table made of a package: one node and one entry are allocated for each entry that it
lists. -/
theorem pushEntries_of_owns (allocators : TableAllocators) (clock : Clock) (table : TableObject)
    (listed : List (MIPRoutePackageEntry × ℕ)) (hAccounts : memory.Accounts (others ++ slots))
    (h : memory.Owns table.entries slots) :
    ∃ memory' table' slots',
      MIPRouteTablePackage.pushEntries allocators clock listed memory table =
        .ok (memory', table') ∧
      memory'.Owns table'.entries slots' ∧
      table'.view slots' = { table.view slots with
        entries := (table.view slots).entries ++ listed.map fun current =>
          MIPRouteEntry.create current.1.destination current.1.nextHop current.1.cost
            (clock current.2) } ∧
      memory.Exchange memory' slots slots' := by
  induction listed generalizing memory table slots with
  | nil =>
      refine ⟨memory, table, slots, rfl, h, ?_, Exchange.refl memory slots⟩
      rw [List.map_nil, List.append_nil]
  | cons current listed ih =>
      obtain ⟨nodes', entries', slot, hPush, hSlot, hOwns, hExchange⟩ := push_of_owns allocators
        hAccounts h (MIPRouteEntry.create current.1.destination current.1.nextHop current.1.cost
          (clock current.2))
      obtain ⟨memory', table', slots', hRest, hOwns', hView, hExchange'⟩ :=
        ih { table with entries := entries' } (hAccounts.exchange hExchange hOwns) hOwns
      refine ⟨memory', table', slots', ?_, hOwns', ?_, hExchange.trans hExchange'⟩
      · simp only [MIPRouteTablePackage.pushEntries, hPush, bind, Except.bind]
        exact hRest
      · rw [hView, view_push, hSlot]
        simp only [List.map_cons, List.append_assoc, List.singleton_append]

/-- The table of a package is made of new memory. -/
theorem createTableObject_of_accounts (allocators : TableAllocators) (clock : Clock)
    (package : MIPRouteTablePackage) (hAccounts : memory.Accounts others) :
    (package.createTable clock = none ∧
        package.createTableObject allocators memory clock = .ok none) ∨
      ∃ memory' table' slots',
        package.createTableObject allocators memory clock = .ok (some (memory', table')) ∧
        memory'.Owns table'.entries slots' ∧
        package.createTable clock = some (table'.view slots') ∧
        memory.Exchange memory' [] slots' := by
  by_cases hSize : package.numEntries.toNat < mipTablePackageEntriesMaxSize
  · refine Or.inr ?_
    have hEmpty : memory.Accounts (others ++ []) := by rwa [List.append_nil]
    have hOwns : memory.Owns LinkedList.create [] :=
      ⟨LinkedList.represents_create, List.nodup_nil, by simp⟩
    obtain ⟨memory', table', slots', hPush, hOwns', hView, hExchange⟩ :=
      pushEntries_of_owns allocators clock
        { TableObject.create with tableAddress := package.tableAddress }
        ((package.entries.toList.take package.numEntries.toNat).zipIdx) hEmpty hOwns
    refine ⟨memory', table', slots', ?_, hOwns', ?_, hExchange⟩
    · rw [MIPRouteTablePackage.createTableObject, if_pos hSize, hPush]
      rfl
    · rw [MIPRouteTablePackage.createTable, if_pos hSize, hView]
      rfl
  · refine Or.inl ⟨?_, ?_⟩
    · rw [MIPRouteTablePackage.createTable, if_neg hSize]
    · rw [MIPRouteTablePackage.createTableObject, if_neg hSize]

/-- An entry that is dropped by the sweep. -/
def isRemoved (table : TableObject) (clock : Clock) (entry : MIPRouteEntry × ℕ) : Bool :=
  table.toOld entry.1 (clock entry.2) && entry.1.cost != 0

theorem removeOldEntries_view (clock : Clock) :
    (table.view slots).removeOldEntries clock =
      (((slots.map Slot.object).zipIdx.filter (table.isRemoved clock)).length,
        { table.view slots with entries := ((slots.map Slot.object).zipIdx.filter
          fun entry => !table.isRemoved clock entry).map Prod.fst }) := by
  rw [MIPRouteTable.removeOldEntries, List.partition_eq_filter_filter]
  rfl

theorem removeOldTurn_of_removed (allocators : TableAllocators) {clock : Clock}
    (newList : LinkedList) (removed : ℕ) {turn : ℕ} {slot : Slot MIPRouteEntry} {node : ListNode ℕ}
    (hNode : memory.nodes slot.node = some node) (hValue : node.value = slot.pointer)
    (hObject : memory.objects slot.pointer = some slot.object)
    (hRemoved : table.isRemoved clock (slot.object, turn) = true) :
    removeOldTurn allocators table clock (memory, newList, removed, turn) slot.node =
      .ok (.next (memory.freed slot.pointer, newList, removed + 1, turn + 1)) := by
  rw [isRemoved] at hRemoved
  simp only [removeOldTurn, Heap.read_of_live hNode, bind, Except.bind, hValue,
    Heap.read_of_live hObject, hRemoved, if_true, Heap.free_of_live hObject]
  rfl

theorem removeOldTurn_of_kept {allocators : TableAllocators} {clock : Clock}
    {newList newList' : LinkedList} {nodes' : Heap (ListNode ℕ)} (removed : ℕ) {turn : ℕ}
    {slot : Slot MIPRouteEntry} {node : ListNode ℕ}
    (hNode : memory.nodes slot.node = some node) (hValue : node.value = slot.pointer)
    (hObject : memory.objects slot.pointer = some slot.object)
    (hKept : table.isRemoved clock (slot.object, turn) = false)
    (hPush : newList.push memory.nodes slot.pointer (some (allocators.node.malloc memory.nodes)) =
      .ok (nodes', newList')) :
    removeOldTurn allocators table clock (memory, newList, removed, turn) slot.node =
      .ok (.next ({ memory with nodes := nodes' }, newList', removed, turn + 1)) := by
  rw [isRemoved] at hKept
  simp only [removeOldTurn, Heap.read_of_live hNode, bind, Except.bind, hValue,
    Heap.read_of_live hObject, hKept, Bool.false_eq_true, if_false, hPush]

/-- The sweep goes over these nodes of the old list. The nodes stay; of the entries some are
freed, and the others have new nodes in the new list. -/
def Sweeps (allocators : TableAllocators) (table : TableObject) (clock : Clock) (fuel : ℕ)
    (memory : TableMemory) (newList : LinkedList) (removed turn : ℕ)
    (kept rest : List (Slot MIPRouteEntry)) : Prop :=
  ∃ memory' newList' more,
    LinkedList.forEach (fun state : Sweep => state.1.nodes) LinkedCell.next
      (removeOldTurn allocators table clock) fuel (entry (rest.map Slot.cell) none)
      (memory, newList, removed, turn) = .ok (memory', newList',
        removed + (((rest.map Slot.object).zipIdx turn).filter (table.isRemoved clock)).length,
        turn + rest.length) ∧
    memory'.Owns newList' more ∧
    more.map Slot.object = kept.map Slot.object ++
      (((rest.map Slot.object).zipIdx turn).filter
        fun entry => !table.isRemoved clock entry).map Prod.fst ∧
    memory.nodes.Turnover memory'.nodes (kept.map Slot.node) (more.map Slot.node) ∧
    memory.objects.Turnover memory'.objects (kept.map Slot.pointer ++ rest.map Slot.pointer)
      (more.map Slot.pointer)

section Sweeping

variable {clock : Clock} {fuel removed turn : ℕ} {newList newList' : LinkedList}
  {kept rest : List (Slot MIPRouteEntry)} {slot : Slot MIPRouteEntry} {before : Option ℕ}
  {nodes' : Heap (ListNode ℕ)}

/-- What becomes of the new list does not touch the nodes of the old one. -/
theorem linked_of_turnover {more : List ℕ}
    (hLinked : Linked memory.nodes before (rest.map Slot.cell) none) (hOld : rest ⊆ others)
    (hNodes : memory.nodes.Allocated (others.map Slot.node ++ kept.map Slot.node))
    (hTurnover : memory.nodes.Turnover nodes' (kept.map Slot.node) more) :
    Linked nodes' before (rest.map Slot.cell) none := by
  refine hLinked.congr fun cell hMem => ?_
  obtain ⟨other, hOther, rfl⟩ := List.mem_map.mp hMem
  obtain ⟨node, hNode, -⟩ := hLinked.live hMem
  refine hTurnover.untouched (hNode ▸ Option.some_ne_none node) fun hKept => ?_
  exact (List.nodup_append.mp hNodes.nodup).2.2 _ (List.mem_map_of_mem (hOld hOther)) _ hKept rfl

/-- An entry that is too old is freed, and the new list does not get it. -/
theorem Sweeps.cons_removed
    (h : Sweeps allocators table clock fuel (memory.freed slot.pointer) newList (removed + 1)
      (turn + 1) kept rest)
    (hLinked : Linked memory.nodes before ((slot :: rest).map Slot.cell) none)
    (hObject : memory.objects slot.pointer = some slot.object)
    (hDistinct : (kept.map Slot.pointer ++ (slot :: rest).map Slot.pointer).Nodup)
    (hRemoved : table.isRemoved clock (slot.object, turn) = true) :
    Sweeps allocators table clock (fuel + 1) memory newList removed turn kept (slot :: rest) := by
  obtain ⟨hCell, -⟩ := hLinked
  have hTurn := removeOldTurn_of_removed allocators newList removed hCell rfl hObject hRemoved
  have hListed : ((slot :: rest).map Slot.object).zipIdx turn =
      (slot.object, turn) :: (rest.map Slot.object).zipIdx (turn + 1) := by
    rw [List.map_cons, List.zipIdx_cons]
  obtain ⟨memory', newList', more, hLoop, hOwns, hMore, hTurnover, hFreed⟩ := h
  rw [Sweeps, hListed]
  refine ⟨memory', newList', more, ?_, hOwns, ?_, hTurnover,
    (Heap.turnover_free hDistinct).trans hFreed⟩
  · refine (LinkedList.forEach_next hTurn hCell fuel).trans (hLoop.trans ?_)
    rw [List.filter_cons_of_pos hRemoved, List.length_cons, List.length_cons]
    congr 4 <;> omega
  · rw [hMore, List.filter_cons_of_neg (by rw [hRemoved]; decide)]

/-- Any other entry is pushed to the new list. -/
theorem Sweeps.cons_kept {added : Slot MIPRouteEntry}
    (h : Sweeps allocators table clock fuel { memory with nodes := nodes' } newList' removed
      (turn + 1) (kept ++ [added]) rest)
    (hAdded : added.object = slot.object ∧ added.pointer = slot.pointer)
    (hPush : newList.push memory.nodes slot.pointer (some (allocators.node.malloc memory.nodes)) =
      .ok (nodes', newList'))
    (hTurnover : memory.nodes.Turnover nodes' (kept.map Slot.node)
      ((kept ++ [added]).map Slot.node))
    (hLinked : Linked memory.nodes before ((slot :: rest).map Slot.cell) none)
    (hLinked' : Linked nodes' before ((slot :: rest).map Slot.cell) none)
    (hObject : memory.objects slot.pointer = some slot.object)
    (hKept : table.isRemoved clock (slot.object, turn) = false) :
    Sweeps allocators table clock (fuel + 1) memory newList removed turn kept (slot :: rest) := by
  obtain ⟨hCell, -⟩ := hLinked
  obtain ⟨hCell', -⟩ := hLinked'
  have hTurn := removeOldTurn_of_kept removed hCell rfl hObject hKept hPush
  have hListed : ((slot :: rest).map Slot.object).zipIdx turn =
      (slot.object, turn) :: (rest.map Slot.object).zipIdx (turn + 1) := by
    rw [List.map_cons, List.zipIdx_cons]
  obtain ⟨memory', newList'', more, hLoop, hOwns, hMore, hTurnover', hFreed⟩ := h
  rw [Sweeps, hListed]
  refine ⟨memory', newList'', more, ?_, hOwns, ?_, hTurnover.trans hTurnover', ?_⟩
  · refine (LinkedList.forEach_next hTurn hCell' fuel).trans (hLoop.trans ?_)
    rw [List.filter_cons_of_neg (by rw [hKept]; decide), List.length_cons]
    congr 4
    omega
  · rw [hMore, List.filter_cons_of_pos (by rw [hKept]; decide)]
    simp only [List.map_append, List.map_cons, List.map_nil, List.append_assoc,
      List.singleton_append, hAdded.1]
  · simpa [hAdded.2] using hFreed

end Sweeping

/-- The sweep from some node of the old list on, entry by entry. -/
theorem forEach_removeOldTurn (allocators : TableAllocators) (table : TableObject) (clock : Clock)
    (memory : TableMemory) (turn removed : ℕ) {newList : LinkedList}
    {kept rest : List (Slot MIPRouteEntry)} {fuel : ℕ} {before : Option ℕ}
    (hLinked : Linked memory.nodes before (rest.map Slot.cell) none)
    (hOld : rest ⊆ others)
    (hNodes : memory.nodes.Allocated (others.map Slot.node ++ kept.map Slot.node))
    (hKept : memory.Owns newList kept)
    (hObjects : ∀ slot ∈ rest, memory.objects slot.pointer = some slot.object)
    (hDistinct : (kept.map Slot.pointer ++ rest.map Slot.pointer).Nodup)
    (hFuel : rest.length ≤ fuel) :
    Sweeps allocators table clock fuel memory newList removed turn kept rest := by
  induction rest generalizing memory newList kept turn removed fuel before with
  | nil =>
      refine ⟨memory, newList, kept, LinkedList.forEach.eq_1 .., hKept, by simp, ?_, ?_⟩
      · exact Heap.turnover_refl _ _
      · simpa using Heap.turnover_refl memory.objects (kept.map Slot.pointer)
  | cons slot rest ih =>
      obtain ⟨fuel, rfl⟩ := Nat.exists_eq_succ_of_ne_zero (Nat.ne_of_gt (Nat.zero_lt_of_lt hFuel))
      have hEnough := Nat.le_of_succ_le_succ hFuel
      obtain ⟨hKeptNodup, hSlots, hApart⟩ := List.nodup_append.mp hDistinct
      obtain ⟨hSlot, hRestNodup⟩ := List.nodup_cons.mp hSlots
      have hOther : slot.pointer ∉ kept.map Slot.pointer := fun hMem =>
        hApart _ hMem _ List.mem_cons_self rfl
      have hObject := hObjects slot List.mem_cons_self
      have hOldRest : rest ⊆ others := fun other hMem => hOld (List.mem_cons_of_mem slot hMem)
      have hObjectsRest : ∀ other ∈ rest, memory.objects other.pointer = some other.object :=
        fun other hMem => hObjects other (List.mem_cons_of_mem slot hMem)
      cases hRemoved : table.isRemoved clock (slot.object, turn) with
      | true =>
          have hStill : (kept.map Slot.pointer ++ rest.map Slot.pointer).Nodup :=
            (List.nodup_cons.mp (List.nodup_middle.mp hDistinct)).2
          exact (ih (memory.freed slot.pointer) (turn + 1) (removed + 1) hLinked.2 hOldRest hNodes
            (hKept.freed hOther) (update_live hSlot hObjectsRest none) hStill hEnough).cons_removed
              hLinked hObject hDistinct hRemoved
      | false =>
          obtain ⟨nodes', newList₁, hPush, hOwns₁, hTurnover₁⟩ := hKept.push hObject hOther
            (allocators.node.fresh_of_allocated hNodes)
          have hLinked' := linked_of_turnover hLinked hOld hNodes hTurnover₁
          have hNodes₁ := hNodes.turnover hTurnover₁ hOwns₁.nodup fun a ha => by
              obtain ⟨other, hMem, rfl⟩ := List.mem_map.mp ha
              exact (hOwns₁.live hMem).1
          exact (ih { memory with nodes := nodes' } (turn + 1) removed hLinked'.2 hOldRest hNodes₁
            hOwns₁ hObjectsRest (by simpa using hDistinct) hEnough).cons_kept ⟨rfl, rfl⟩ hPush
              hTurnover₁ hLinked hLinked' hObject hRemoved

/-- A sweep builds a new list of the kept entries and frees the old nodes and the entries that are
too old. -/
theorem removeOldEntries_of_owns (allocators : TableAllocators) (clock : Clock)
    (hAccounts : memory.Accounts (others ++ slots)) (h : memory.Owns table.entries slots) :
    ∃ memory' table' slots',
      table.removeOldEntries allocators memory clock =
        .ok (((table.view slots).removeOldEntries clock).1, memory', table') ∧
      memory'.Owns table'.entries slots' ∧
      table'.view slots' = ((table.view slots).removeOldEntries clock).2 ∧
      memory.Exchange memory' slots slots' := by
  have hStart : memory.Owns LinkedList.create [] :=
    ⟨LinkedList.represents_create, List.nodup_nil, by simp⟩
  have hNodes : memory.nodes.Allocated ((others ++ slots).map Slot.node ++
      ([] : List (Slot MIPRouteEntry)).map Slot.node) := by
    simpa using hAccounts.nodes
  obtain ⟨swept, newList, more, hLoop, hOwns, hMore, hTurnover, hFreed⟩ :=
    forEach_removeOldTurn allocators table clock memory 0 0 h.represents.linked
      (List.subset_append_right others slots) hNodes hStart h.objects h.distinct
      (Nat.le_of_eq h.fuel.symm)
  have hApart : ∀ slot ∈ slots, swept.nodes slot.node = memory.nodes slot.node := fun slot hMem =>
    hTurnover.untouched (h.live hMem).1 List.not_mem_nil
  -- The old list still has all its nodes when it is destroyed.
  have hOldList : table.entries.Represents swept.nodes (slots.map Slot.cell) := by
    refine h.represents.congr fun cell hCell => ?_
    obtain ⟨slot, hMem, rfl⟩ := List.mem_map.mp hCell
    exact hApart slot hMem
  have hNew : ∀ slot ∈ more, slot.node ∉ slots.map Slot.node := by
    intro slot hMem hOld
    obtain ⟨old, hOldMem, hEq⟩ := List.mem_map.mp hOld
    have hFresh := hTurnover.fresh slot.node (List.mem_map_of_mem hMem)
    refine hFresh.elim List.not_mem_nil fun hNone => ?_
    exact (h.live hOldMem).1 (hEq ▸ hNone)
  have hDestroy := hOldList.destroy (Nat.le_of_eq (by
    rw [List.length_map, h.fuel] : (slots.map Slot.cell).length = table.entries.fuel))
  rw [addresses_cells] at hDestroy
  refine ⟨⟨swept.nodes.without (slots.map Slot.node), swept.objects⟩,
    { table with entries := newList }, more, ?_, ⟨?_, hOwns.distinct, hOwns.objects⟩, ?_, ?_, ?_⟩
  · rw [removeOldEntries, h.represents.first, hLoop, removeOldEntries_view]
    simp only [bind, Except.bind, hDestroy, Nat.zero_add]
  · refine hOwns.represents.congr fun cell hCell => ?_
    obtain ⟨slot, hMem, rfl⟩ := List.mem_map.mp hCell
    exact Heap.without_of_not_mem (hNew slot hMem)
  · rw [removeOldEntries_view, view, hMore]
    rfl
  · have hFrame := hTurnover.frame (slots.map Slot.node) []
    simp only [List.map_nil, List.append_nil] at hFrame
    exact hFrame.trans (Heap.turnover_without swept.nodes _ _)
  · exact hFreed

/-- A look-up in memory answers with the next hop of the plain table. -/
theorem getNextHop_of_owns (h : memory.Owns table.entries slots) (destination : MIPAddress) :
    table.getNextHop memory destination = .ok ((table.view slots).getNextHop destination) := by
  simp only [getNextHop, MIPRouteTable.getNextHop, get_of_owns h, bind, Except.bind,
    ← find_object]
  split_ifs
  · rfl
  · cases hFind : slots.find? fun slot => slot.object.destination = destination with
    | none => rfl
    | some slot =>
        have hMem := List.mem_of_find?_eq_some hFind
        simp only [Option.map_some, Heap.read_of_live (h.objects slot hMem)]

/-- A table in memory is read as the plain one that it stands for. -/
theorem listed_of_owns (h : memory.Owns table.entries slots) :
    table.listed memory = .ok (table.view slots).entries := by
  have hFold : ∀ (rest : List (Slot MIPRouteEntry)) (seen : List MIPRouteEntry),
      (∀ slot ∈ rest, memory.objects slot.pointer = some slot.object) →
      (rest.map Slot.pointer).foldlM (fun seen pointer => do
        let entry ← memory.objects.read (some pointer)
        .ok (seen ++ [entry])) seen = .ok (seen ++ rest.map Slot.object) := by
    intro rest
    induction rest with
    | nil => simp [pure, Except.pure]
    | cons slot rest ih =>
        intro seen hObjects
        rw [List.map_cons, List.foldlM_cons, Heap.read_of_live (hObjects slot List.mem_cons_self)]
        simpa [bind, Except.bind] using
          ih (seen ++ [slot.object]) fun other hMem => hObjects other (List.mem_cons_of_mem _ hMem)
  have hLength : (slots.map Slot.cell).length ≤ table.entries.fuel := by
    rw [List.length_map, h.fuel]
  rw [listed, h.represents.first, LinkedList.forEach_foldlM h.represents.linked.visits_next hLength,
    pointers_cells, hFold slots [] h.objects]
  · rfl
  · intro seen current node hNode
    rw [Heap.read_of_live hNode]
    simp only [bind, Except.bind]
    cases memory.objects.read (some node.value) <;> rfl

theorem createPackage_of_owns (h : memory.Owns table.entries slots) :
    table.createPackage memory = .ok (table.view slots).createPackage := by
  have hLength : table.entries.count = (table.view slots).entries.length := by
    simp only [h.represents.count, view, List.length_map]
  rw [createPackage, MIPRouteTable.createPackage, listed_of_owns h, hLength]
  simp only [Nat.cast_lt, bind, Except.bind]
  split_ifs <;> rfl

/-- Both the nodes and the entries of the table go. -/
theorem destroy_of_owns (h : memory.Owns table.entries slots) :
    ∃ memory', table.destroy memory = .ok memory' ∧ memory.Exchange memory' slots [] := by
  obtain ⟨memory', hClear, hDestroy, hExchange⟩ := h.clearDestroy
  refine ⟨memory', ?_, hExchange⟩
  simp only [destroy, hClear, hDestroy, bind, Except.bind]

end TableObject

end MipStack
