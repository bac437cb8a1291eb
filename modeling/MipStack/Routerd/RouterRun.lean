import MipStack.Network.RoutePackages
import MipStack.Routerd.Cli
import MipStack.Routerd.PackageLayout
import MipStack.Routerd.RouterServer

/-! The loop of routerd (`RouterServer_run`) on what it reads from its two sockets, and
the room in the packages that it sends. -/
namespace MipStack
open DistanceVector Execution

/-- `sent` are the packages written to the routing socket and `answers` the next hops
written to the forwarding socket. `running` is false after the loop was left. -/
structure RouterRun where
  table : MIPRouteTable
  broadcastFreqMilli : ℤ
  lastBroadcastMilli : ℤ
  sent : List MIPRouteTablePackage
  answers : List MIPAddress
  running : Bool

namespace RouterRun

def start (config : RouterdConfig) (clock : Clock) : RouterRun :=
  { table := (RouterServer.create config.mipAddresses clock).table
    broadcastFreqMilli := config.broadcastFreq
    lastBroadcastMilli := 0
    sent := []
    answers := []
    running := true }

def shouldCompleteRouteBroadcast (s : RouterRun) (now : ℤ) : Bool :=
  s.broadcastFreqMilli < now - s.lastBroadcastMilli

/-- `none` is the error result. -/
def broadcastRouteTable (table : MIPRouteTable) (written : Bool) : Option MIPRouteTablePackage :=
  match table.createPackage with
  | none => none
  | some package => if written then some package else none

/-- The bytes that were received lie in a zeroed package. -/
def handleRouteRequest (bytes : List UInt8) (clock : Clock) : Option MIPRouteTable :=
  (MIPRouteTablePackage.ofBytes bytes).createTable clock

/-- One thing that the loop does: `poll` is what comes before each waiting for events, at
a time and with the time after a broadcast, and the others are the events. -/
inductive Action where
  | poll (now sentAt : ℤ) (written : Bool) (clock : Clock)
  | routing (bytes : List UInt8) (received merged : Clock)
  | forward (destination : MIPAddress)
  | stop

def poll (s : RouterRun) (now sentAt : ℤ) (written : Bool) (clock : Clock) : RouterRun :=
  if s.shouldCompleteRouteBroadcast now then
    match broadcastRouteTable s.table written with
    | none => { s with running := false }
    | some package =>
      { s with
        sent := s.sent ++ [package]
        lastBroadcastMilli := sentAt
        table := (s.table.removeOldEntries clock).2 }
  else { s with table := (s.table.removeOldEntries clock).2 }

/-- A package without a table is taken for a lack of memory. -/
def routing (s : RouterRun) (bytes : List UInt8) (received merged : Clock) : RouterRun :=
  match handleRouteRequest bytes received with
  | none => { s with running := false }
  | some neighborTable => { s with table := s.table.updateRouting neighborTable merged }

def perform (s : RouterRun) : Action → RouterRun
  | .poll now sentAt written clock => s.poll now sentAt written clock
  | .routing bytes received merged => s.routing bytes received merged
  | .forward destination => { s with answers := s.answers ++ [s.table.getNextHop destination] }
  | .stop => { s with running := false }

/-- Packages of routes are read as a whole. -/
def Enabled (s : RouterRun) : Action → Prop
  | .routing bytes _ _ => s.running ∧
      bytes.length = MIPRouteTablePackage.sizeofMIPRouteTablePackage
  | _ => s.running

def Step (s : RouterRun) (action : Action) (t : RouterRun) : Prop :=
  s.Enabled action ∧ t = s.perform action

/-- A package can be made of the table, and it lists every entry. -/
def Announced (table : MIPRouteTable) : Prop :=
  ∃ package, table.createPackage = some package ∧
    package.listed = table.entries.map MIPRouteEntry.toPackageEntry

/-- The table can be announced after the action. A package of routes does not end the
loop, and a broadcast that is due and that the socket takes is sent with all entries. -/
def Serves (s : RouterRun) (action : Action) (t : RouterRun) : Prop :=
  Announced t.table ∧
    match action with
    | .poll now _ written _ => written → t.running ∧ (s.shouldCompleteRouteBroadcast now →
        ∃ package, t.sent = s.sent ++ [package] ∧
          package.listed = s.table.entries.map MIPRouteEntry.toPackageEntry)
    | .routing _ _ _ => t.running
    | .forward _ => t.running
    | .stop => True

/-- The destinations that the package announces and does not poison. -/
def announcedDestinations (package : MIPRouteTablePackage) : List MIPAddress :=
  (package.listed.filter fun entry => entry.cost ≠ uintMax).map (·.destination)

/-- A package of routes announces less entries than it has room for, and with its
destinations the table still has less. -/
def Fits (s : RouterRun) : Action → Prop
  | .routing bytes _ _ =>
    let package := MIPRouteTablePackage.ofBytes bytes
    package.numEntries.toNat < mipTablePackageEntriesMaxSize ∧
      (s.table.entries.map (·.destination) ++ announcedDestinations package).dedup.length <
        mipTablePackageEntriesMaxSize
  | _ => True

variable {s : RouterRun} {table neighborTable : MIPRouteTable} {package : MIPRouteTablePackage}
  {clock : Clock} {d : MIPAddress}

theorem announced_iff :
    Announced table ↔ table.entries.length < mipTablePackageEntriesMaxSize := by
  rw [← MIPRouteTable.createPackage_isSome, Option.isSome_iff_exists]
  constructor
  · rintro ⟨package, hPackage, -⟩
    exact ⟨package, hPackage⟩
  · rintro ⟨package, hPackage⟩
    exact ⟨package, hPackage, MIPRouteTable.createPackage_listed hPackage⟩

/-- The destinations of a table are those that it has a route to. -/
theorem mem_destinations_iff (hDistinct : table.Distinct) :
    d ∈ table.entries.map (·.destination) ↔ (table.route d).isSome := by
  constructor
  · intro hMem
    obtain ⟨entry, hEntry, rfl⟩ := List.mem_map.mp hMem
    rw [MIPRouteTable.route_of_mem hDistinct hEntry]
    rfl
  · intro hSome
    obtain ⟨r, hRoute⟩ := Option.isSome_iff_exists.mp hSome
    obtain ⟨entry, hEntry, hDestination, -⟩ :=
      (MIPRouteTable.route_eq_some_iff hDistinct).mp hRoute
    exact List.mem_map.mpr ⟨entry, hEntry, hDestination⟩

/-- The neighbour offers the destinations that its package announces. -/
theorem offer_isSome_iff (hTable : package.createTable clock = some neighborTable) :
    (neighborTable.offer d).isSome ↔ d ∈ announcedDestinations package := by
  obtain ⟨-, hEntries⟩ := MIPRouteTable.createTable_entries hTable
  rw [announcedDestinations, ← hEntries]
  constructor
  · intro hSome
    obtain ⟨cost, hOffer⟩ := Option.isSome_iff_exists.mp hSome
    obtain ⟨entry, hMem, hDestination, hCost, -⟩ := MIPRouteTable.offer_eq_some hOffer
    refine List.mem_map.mpr ⟨entry.toPackageEntry, List.mem_filter.mpr ⟨?_, ?_⟩, hDestination⟩
    · exact List.mem_map_of_mem hMem
    · exact decide_eq_true hCost
  · intro hMem
    obtain ⟨listed, hListed, hDestination⟩ := List.mem_map.mp hMem
    obtain ⟨hListed, hCost⟩ := List.mem_filter.mp hListed
    obtain ⟨entry, hEntry, rfl⟩ := List.mem_map.mp hListed
    rw [Option.isSome_iff_ne_none]
    intro hNone
    exact of_decide_eq_true hCost (MIPRouteTable.cost_of_offer_eq_none hNone hEntry hDestination)

/-- The merge adds the announced destinations that are new. -/
theorem destinations_updateRouting (hDistinct : table.Distinct)
    (hTable : package.createTable clock = some neighborTable) (merged : Clock) :
    ((table.updateRouting neighborTable merged).entries.map (·.destination)).Perm
      (table.entries.map (·.destination) ++ announcedDestinations package).dedup := by
  have hUpdated := hDistinct.updateRouting neighborTable merged
  refine (List.perm_ext_iff_of_nodup hUpdated (List.nodup_dedup _)).mpr fun d => ?_
  rw [List.mem_dedup, List.mem_append, mem_destinations_iff hUpdated,
    mem_destinations_iff hDistinct, ← offer_isSome_iff hTable,
    MIPRouteTable.updateRouting_route hDistinct]
  cases neighborTable.offer d with
  | none => simp
  | some cost =>
      obtain ⟨kept, hKept, -⟩ := relax_cost_le neighborTable.tableAddress (table.route d) cost
      simp [hKept]

/-- Only configured addresses are in the first table, and a second mention of one makes no second
entry. -/
theorem length_start (config : RouterdConfig) (clock : Clock) :
    (start config clock).table.Distinct ∧
      (start config clock).table.entries.length = config.mipAddresses.dedup.length := by
  have h := RouterServer.LocalRoutes.create config.mipAddresses [] clock
  obtain ⟨hLocal, hLearned⟩ := h.entries
  refine ⟨h.distinct, ?_⟩
  have hAll : (start config clock).table.entries.filter (fun entry => entry.cost = 0) =
      (start config clock).table.entries := by
    refine List.filter_eq_self.mpr fun entry hMem => decide_eq_true ?_
    by_contra hCost
    exact absurd (hLearned entry hMem hCost) List.not_mem_nil
  have hLength := hLocal.length_eq
  rw [List.length_map, List.length_map] at hLength
  rw [← hAll]
  exact hLength

/-- The table has distinct destinations and can be announced. -/
def Announcing (s : RouterRun) : Prop :=
  s.table.Distinct ∧ s.table.entries.length < mipTablePackageEntriesMaxSize

/-- A merge leaves a table that can be announced exactly if there is room for the
announced destinations. -/
theorem updateRouting_announced_iff (hDistinct : table.Distinct)
    (hTable : package.createTable clock = some neighborTable) (merged : Clock) :
    Announced (table.updateRouting neighborTable merged) ↔
      (table.entries.map (·.destination) ++ announcedDestinations package).dedup.length <
        mipTablePackageEntriesMaxSize := by
  have hLength := (destinations_updateRouting hDistinct hTable merged).length_eq
  rw [List.length_map] at hLength
  rw [announced_iff, hLength]

/-- A broadcast that is due has all entries, and no route is added before the events. -/
theorem Announcing.poll (h : Announcing s) (now sentAt : ℤ) (written : Bool) (clock : Clock) :
    Announcing (s.poll now sentAt written clock) ∧
      (written → s.running → (s.poll now sentAt written clock).running ∧
        (s.shouldCompleteRouteBroadcast now → ∃ package,
          (s.poll now sentAt written clock).sent = s.sent ++ [package] ∧
            package.listed = s.table.entries.map MIPRouteEntry.toPackageEntry)) := by
  obtain ⟨hDistinct, hLength⟩ := h
  obtain ⟨package, hPackage, hListed⟩ := announced_iff.mpr hLength
  have hRemoved : (s.table.removeOldEntries clock).2.Distinct ∧
      (s.table.removeOldEntries clock).2.entries.length < mipTablePackageEntriesMaxSize :=
    ⟨hDistinct.removeOldEntries clock,
      (MIPRouteTable.removeOldEntries_sublist s.table clock).length_le.trans_lt hLength⟩
  rw [RouterRun.poll, broadcastRouteTable, hPackage]
  by_cases hDue : s.shouldCompleteRouteBroadcast now = true
  · rw [if_pos hDue]
    cases written with
    | false => exact ⟨⟨hDistinct, hLength⟩, fun hWritten => nomatch hWritten⟩
    | true => exact ⟨hRemoved, fun _ hRunning => ⟨hRunning, fun _ => ⟨package, rfl, hListed⟩⟩⟩
  · rw [if_neg hDue]
    exact ⟨hRemoved, fun _ hRunning => ⟨hRunning, fun hNow => absurd hNow hDue⟩⟩

/-- A package of routes has the effect it should have exactly if it fits. -/
theorem Announcing.routing_iff (h : Announcing s) (hRunning : s.running = true)
    (bytes : List UInt8) (received merged : Clock) :
    Announced (s.routing bytes received merged).table ∧
        (s.routing bytes received merged).running = true ↔
      s.Fits (.routing bytes received merged) := by
  rw [routing, handleRouteRequest, Fits]
  cases hTable : (MIPRouteTablePackage.ofBytes bytes).createTable received with
  | none =>
      have hCount := MIPRouteTable.createTable_eq_none_iff.mp hTable
      simp [hCount]
  | some neighborTable =>
      have hCount := MIPRouteTable.numEntries_lt_of_createTable hTable
      simp only [hRunning, and_true, hCount, true_and]
      exact updateRouting_announced_iff h.1 hTable merged

/-- Among the tables that can be announced an action serves its purpose exactly if what
it reads fits. -/
theorem serves_perform_iff (h : Announcing s) {action : Action} (hEnabled : s.Enabled action) :
    Serves s action (s.perform action) ↔ s.Fits action := by
  have hAnnounced : Announced s.table := announced_iff.mpr h.2
  cases action with
  | poll now sentAt written clock =>
      obtain ⟨hAnnouncing, hSent⟩ := h.poll now sentAt written clock
      refine iff_of_true ⟨announced_iff.mpr hAnnouncing.2, fun hWritten => ?_⟩ trivial
      exact hSent hWritten hEnabled
  | routing bytes received merged => exact h.routing_iff hEnabled.1 bytes received merged
  | forward destination => exact iff_of_true ⟨hAnnounced, hEnabled⟩ trivial
  | stop => exact iff_of_true ⟨hAnnounced, trivial⟩ trivial

/-- No event makes a second entry for a destination. -/
theorem distinct_perform (h : s.table.Distinct) (action : Action) :
    (s.perform action).table.Distinct := by
  cases action with
  | poll now sentAt written clock =>
      rw [perform, RouterRun.poll]
      split_ifs
      · cases broadcastRouteTable s.table written with
        | none => exact h
        | some package => exact h.removeOldEntries clock
      · exact h.removeOldEntries clock
  | routing bytes received merged =>
      rw [perform, routing]
      cases handleRouteRequest bytes received with
      | none => exact h
      | some neighborTable => exact h.updateRouting neighborTable merged
  | forward destination => exact h
  | stop => exact h

/-- In the runs in which every broadcast can be sent, and no package of routes ends the
loop, there was always room for what was configured and announced. These are all such
runs. -/
theorem serves_traffic_iff (config : RouterdConfig) (clock : Clock) (actions : List Action)
    (t : RouterRun) :
    Announced (start config clock).table ∧
        Trace (Guarded Step Serves) (start config clock) actions t ↔
      config.mipAddresses.dedup.length < mipTablePackageEntriesMaxSize ∧
        Trace (Guarded Step fun s action _ => s.Fits action) (start config clock) actions t := by
  obtain ⟨hDistinct, hLength⟩ := length_start config clock
  rw [announced_iff, hLength]
  refine and_congr_right fun hFew => ?_
  apply Trace.guarded_iff (I := Announcing) ⟨hDistinct, hLength ▸ hFew⟩
  · rintro s action _ h ⟨hEnabled, rfl⟩ hFits
    obtain ⟨hAnnounced, -⟩ := (serves_perform_iff h hEnabled).mpr hFits
    exact ⟨distinct_perform h.1 action, announced_iff.mp hAnnounced⟩
  · rintro s action _ h ⟨hEnabled, rfl⟩
    exact serves_perform_iff h hEnabled

/-- A neighbour's package that announces 64 entries ends the loop, as the check asks for fewer
entries than there are places. -/
theorem full_package_ends_loop :
    let argv : List (List Char) := [[], ['r'], ['f'], ['3', '0']]
    let bytes : List UInt8 := 10 :: 64 :: List.replicate 512 0
    ∃ config, RouterdConfig.parseArgs argv = some config ∧
      let s := start config (fun _ => 0)
      let action := Action.routing bytes (fun _ => 0) (fun _ => 0)
      s.Enabled action ∧ (s.perform action).running = false ∧
        ¬ Serves s action (s.perform action) := by
  intro argv bytes
  have hLength : bytes.length = MIPRouteTablePackage.sizeofMIPRouteTablePackage := by
    rw [List.length_cons, List.length_cons, List.length_replicate]
    rfl
  have hNone : handleRouteRequest bytes (fun _ => 0) = none :=
    MIPRouteTable.createTable_eq_none_iff.mpr (by decide)
  refine ⟨⟨['r'], ['f'], [30], false, 2000, by decide⟩, by decide, ⟨rfl, hLength⟩, ?_⟩
  have hEnds : ∀ s : RouterRun, (s.routing bytes (fun _ => 0) (fun _ => 0)).running = false := by
    intro s
    rw [routing, hNone]
  refine ⟨hEnds _, fun h => ?_⟩
  have hRunning : (routing _ bytes (fun _ => 0) (fun _ => 0)).running = true := h.2
  rw [hEnds] at hRunning
  cases hRunning

end RouterRun

end MipStack
