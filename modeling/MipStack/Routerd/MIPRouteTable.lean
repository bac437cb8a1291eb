import MipStack.Commons.Definitions
import MipStack.Library.KeyedList

/-! The routing table of routerd (`routerd/src/lib/mip_route_table.c`) and the
fixed-size package in which a table travels between hosts. -/
namespace MipStack

structure MIPRouteEntry where
  destination : MIPAddress
  nextHop : MIPAddress
  cost : UInt32
  lastUpdatedMilli : ℤ
  deriving DecidableEq, Repr

/-- The entries stand in the order of the linked list, oldest first. -/
structure MIPRouteTable where
  tableAddress : MIPAddress
  entryMaxAgeMilli : ℤ
  entries : List MIPRouteEntry
  deriving DecidableEq, Repr

structure MIPRoutePackageEntry where
  destination : MIPAddress
  nextHop : MIPAddress
  cost : UInt32
  deriving DecidableEq, Repr, Inhabited

def mipTablePackageEntriesMaxSize : ℕ := 64

def mipTableEntryMaxAgeMilli : ℤ := 5000

structure MIPRouteTablePackage where
  tableAddress : MIPAddress
  numEntries : UInt8
  entries : Vector MIPRoutePackageEntry mipTablePackageEntriesMaxSize
  deriving DecidableEq, Repr

/-- The check of the destination against 255 cannot fail for a byte. -/
def MIPRouteEntry.create (destination nextHop : MIPAddress) (cost : UInt32) (now : ℤ) :
    MIPRouteEntry :=
  { destination, nextHop, cost, lastUpdatedMilli := now }

namespace MIPRouteTable

def create : MIPRouteTable :=
  { tableAddress := 0, entryMaxAgeMilli := mipTableEntryMaxAgeMilli, entries := [] }

/-- The first entry for the destination. -/
def get (table : MIPRouteTable) (destination : MIPAddress) : Option MIPRouteEntry :=
  table.entries.find? fun current => current.destination = destination

/-- Returns 1 if an entry was removed or the table is empty, 0 if none matched. -/
def remove (table : MIPRouteTable) (destination : MIPAddress) : ℤ × MIPRouteTable :=
  if table.entries.length = 0 then (1, table)
  else if (table.get destination).isSome then
    (1, { table with
      entries := table.entries.eraseP fun current => current.destination = destination })
  else (0, table)

/-- Removes an existing route and appends the new one. The parameter `cost` is
an `int` in the source; it takes the unsigned cost there and back unchanged. -/
def update (table : MIPRouteTable) (destination nextHop : MIPAddress) (cost : UInt32) (now : ℤ) :
    ℤ × MIPRouteTable :=
  let entry := MIPRouteEntry.create destination nextHop cost now
  let (rc, table) := table.remove destination
  if rc = -1 then (-1, table) else (1, { table with entries := table.entries ++ [entry] })

def getNextHop (table : MIPRouteTable) (destination : MIPAddress) : MIPAddress :=
  if destination = mipBroadcastAddress then mipBroadcastAddress
  else match table.get destination with
    | some entry => entry.nextHop
    | none => 255

/-- One turn of the merge loop. The sum wraps at 32 bits, so a poisoned
challenger would win every comparison; the second conjunct excludes it. -/
def updateEntry (table : MIPRouteTable) (neighborAddress : MIPAddress)
    (challenger : MIPRouteEntry) (now : ℤ) : MIPRouteTable :=
  let wins := match table.get challenger.destination with
    | none => true
    | some champion => challenger.cost + 1 ≤ champion.cost
  if wins && challenger.cost != uintMax then
    (table.update challenger.destination neighborAddress (challenger.cost + 1) now).2
  else table

def updateRouting (table neighborTable : MIPRouteTable) (clock : Clock) : MIPRouteTable :=
  neighborTable.entries.zipIdx.foldl
    (fun table entry => table.updateEntry neighborTable.tableAddress entry.1 (clock entry.2)) table

/-- `none` when the table has more entries than the check admits. -/
def createPackage (table : MIPRouteTable) : Option MIPRouteTablePackage :=
  if table.entries.length < mipTablePackageEntriesMaxSize then
    some {
      tableAddress := 0
      numEntries := UInt8.ofNat table.entries.length
      entries := Vector.ofFn fun i => match table.entries[i.val]? with
        | some current => ⟨current.destination, current.nextHop, current.cost⟩
        | none => ⟨0, 0, 0⟩ }
  else none

/-- A table makes a package only while it has fewer entries than there are places for them: the
bound of the check is strict. -/
theorem createPackage_numEntries {table : MIPRouteTable} {package : MIPRouteTablePackage}
    (h : table.createPackage = some package) :
    package.numEntries.toNat = table.entries.length ∧
      table.entries.length < mipTablePackageEntriesMaxSize := by
  unfold createPackage at h
  split_ifs at h with hSize
  obtain rfl := Option.some.inj h
  refine ⟨?_, hSize⟩
  unfold mipTablePackageEntriesMaxSize at hSize
  rw [UInt8.toNat_ofNat']
  omega

end MIPRouteTable

/-- `none` when the package announces more entries than the check admits. -/
def MIPRouteTablePackage.createTable (package : MIPRouteTablePackage) (clock : Clock) :
    Option MIPRouteTable :=
  if package.numEntries.toNat < mipTablePackageEntriesMaxSize then
    some { MIPRouteTable.create with
      tableAddress := package.tableAddress
      entries := (package.entries.toList.take package.numEntries.toNat).zipIdx.map fun current =>
        MIPRouteEntry.create current.1.destination current.1.nextHop current.1.cost
          (clock current.2) }
  else none

def MIPRouteEntry.toOld (table : MIPRouteTable) (entry : MIPRouteEntry) (now : ℤ) : Bool :=
  now - entry.lastUpdatedMilli > table.entryMaxAgeMilli

/-- Rebuilds the list without the entries that are too old; local routes stay.
Returns the number of removed entries. -/
def MIPRouteTable.removeOldEntries (table : MIPRouteTable) (clock : Clock) : ℕ × MIPRouteTable :=
  let isRemoved := fun entry : MIPRouteEntry × ℕ =>
    entry.1.toOld table (clock entry.2) && entry.1.cost != 0
  let (removed, kept) := table.entries.zipIdx.partition isRemoved
  (removed.length, { table with entries := kept.map Prod.fst })

end MipStack
