import MipStack.Network.RoutePackages

/-! Tables that are packed and read again, and packages that are read and packed again. The
two size checks are the same, but the package has one slot more than they admit entries. -/
namespace MipStack

/-- The slots behind the announced entries. -/
def MIPRouteTablePackage.unused (package : MIPRouteTablePackage) : List MIPRoutePackageEntry :=
  package.entries.toList.drop package.numEntries.toNat

/-- The table fits into a package, and whenever the package is read it gives the same routes
in the same order. -/
def MIPRouteTable.RoundTrips (table : MIPRouteTable) : Prop :=
  ∃ package, table.createPackage = some package ∧ ∀ clock, ∃ copy,
    package.createTable clock = some copy ∧
      copy.entries.map MIPRouteEntry.toPackageEntry =
        table.entries.map MIPRouteEntry.toPackageEntry

/-- A table read from the package can be packed again, with the same announced entries. The
slots behind them come back too exactly if they were unused, that is zero. -/
def MIPRouteTablePackage.RoundTrips (package : MIPRouteTablePackage) : Prop :=
  ∀ clock table, package.createTable clock = some table →
    ∃ repacked, table.createPackage = some repacked ∧
      repacked.numEntries = package.numEntries ∧ repacked.listed = package.listed ∧
      (repacked.entries = package.entries ↔ ∀ entry ∈ package.unused, entry = ⟨0, 0, 0⟩)

variable {table : MIPRouteTable} {package : MIPRouteTablePackage}

theorem MIPRouteTablePackage.listed_append_unused (package : MIPRouteTablePackage) :
    package.listed ++ package.unused = package.entries.toList :=
  List.take_append_drop _ _

theorem MIPRouteTablePackage.unused_length (package : MIPRouteTablePackage) :
    package.unused.length = mipTablePackageEntriesMaxSize - package.numEntries.toNat := by
  rw [unused, List.length_drop, Vector.length_toList]

namespace MIPRouteTable

theorem createPackage_unused (h : table.createPackage = some package) :
    ∀ entry ∈ package.unused, entry = ⟨0, 0, 0⟩ := by
  rw [MIPRouteTablePackage.unused, createPackage_entries h, (createPackage_numEntries h).1,
    List.drop_left' (List.length_map _)]
  exact fun entry hMem => List.eq_of_mem_replicate hMem

/-- A table makes the round trip exactly if it leaves one slot of the package free. -/
theorem roundTrips_iff :
    table.RoundTrips ↔ table.entries.length < mipTablePackageEntriesMaxSize := by
  constructor
  · rintro ⟨package, hPackage, -⟩
    exact (createPackage_numEntries hPackage).2
  · intro hSize
    obtain ⟨package, hPackage⟩ := Option.isSome_iff_exists.mp (createPackage_isSome.mpr hSize)
    refine ⟨package, hPackage, fun clock => ?_⟩
    have hCount : package.numEntries.toNat < mipTablePackageEntriesMaxSize := by
      rwa [(createPackage_numEntries hPackage).1]
    obtain ⟨copy, hCopy⟩ : ∃ copy, package.createTable clock = some copy :=
      Option.ne_none_iff_exists'.mp fun hNone => createTable_eq_none_iff.mp hNone hCount
    refine ⟨copy, hCopy, ?_⟩
    rw [(createTable_entries hCopy).2, createPackage_listed hPackage]

end MIPRouteTable

namespace MIPRouteTablePackage

/-- Packing keeps the announced entries, and the unused slots if they are zero. -/
theorem roundTrips (package : MIPRouteTablePackage) : package.RoundTrips := by
  intro clock table hTable
  have hEntries := (MIPRouteTable.createTable_entries hTable).2
  have hSize := MIPRouteTable.numEntries_lt_of_createTable hTable
  have hLength : table.entries.length = package.numEntries.toNat := by
    have hListed := congrArg List.length hEntries
    rw [List.length_map, listed, List.length_take, Vector.length_toList] at hListed
    omega
  obtain ⟨repacked, hRepacked⟩ : ∃ repacked, table.createPackage = some repacked :=
    Option.isSome_iff_exists.mp (MIPRouteTable.createPackage_isSome.mpr (by rwa [hLength]))
  have hCount := (MIPRouteTable.createPackage_numEntries hRepacked).1.trans hLength
  have hListed : repacked.listed = package.listed :=
    (MIPRouteTable.createPackage_listed hRepacked).trans hEntries
  have hZero := MIPRouteTable.createPackage_unused hRepacked
  refine ⟨repacked, hRepacked, UInt8.toNat_inj.mp hCount, hListed, ?_⟩
  rw [← Vector.toList_inj, ← listed_append_unused, ← listed_append_unused, hListed,
    List.append_cancel_left_eq]
  constructor
  · intro hSame
    rwa [← hSame]
  · intro hUnused
    have hSlots : repacked.unused.length = package.unused.length := by
      rw [unused_length, unused_length, hCount]
    rw [List.eq_replicate_of_mem hZero, List.eq_replicate_of_mem hUnused, hSlots]

end MIPRouteTablePackage

/-- Tables of fewer than 64 entries, and no others, make the round trip through a package;
packages make the round trip through a table. -/
theorem MIPRouteTable.packages_round_trip_iff (table : MIPRouteTable)
    (package : MIPRouteTablePackage) :
    (table.RoundTrips ↔ table.entries.length < mipTablePackageEntriesMaxSize) ∧
      package.RoundTrips :=
  ⟨roundTrips_iff, package.roundTrips⟩

/-- A table with as many entries as a package has slots is refused, although there is a slot for
each of them. -/
theorem MIPRouteTable.full_table_is_not_packed :
    let table : MIPRouteTable := ⟨10, mipTableEntryMaxAgeMilli,
      (List.range mipTablePackageEntriesMaxSize).map fun i => ⟨UInt8.ofNat i, 20, 1, 0⟩⟩
    table.entries.length = mipTablePackageEntriesMaxSize ∧ table.createPackage = none ∧
      ¬ table.RoundTrips := by
  intro table
  have hLength : table.entries.length = mipTablePackageEntriesMaxSize := by
    rw [List.length_map, List.length_range]
  have hNone : table.createPackage = none := by
    rw [createPackage, if_neg (Nat.not_lt.mpr hLength.ge)]
  refine ⟨hLength, hNone, fun ⟨package, hPackage, _⟩ => ?_⟩
  rw [hNone] at hPackage
  cases hPackage

end MipStack
