import MipStack.Routerd.RouterRun

/-! How old the routes are that routerd uses. Nothing looks at the age of an entry but the
sweep, once in each turn of the loop, between the broadcast and the waiting. -/
namespace MipStack
open DistanceVector Execution

def pollingTimeout : ℤ := 5000

namespace MIPRouteTable

variable {table neighborTable : MIPRouteTable} {entry challenger : MIPRouteEntry} {clock : Clock}
  {now : ℤ}

/-- An entry after an update was there before or is the new one. -/
theorem mem_updateEntry {neighborAddress : MIPAddress}
    (hMem : entry ∈ (table.updateEntry neighborAddress challenger now).entries) :
    entry ∈ table.entries ∨ entry.lastUpdatedMilli = now := by
  rcases updateEntry_cases table neighborAddress challenger now with ⟨-, -, hEq⟩ | ⟨-, hEq⟩
  · rw [hEq, update_eq] at hMem
    rcases List.mem_append.mp hMem with hOld | hNew
    · exact Or.inl (List.mem_of_mem_eraseP hOld)
    · rw [List.mem_singleton.mp hNew]
      exact Or.inr rfl
  · exact Or.inl (hEq ▸ hMem)

/-- A merge dates what it writes by the clock. -/
theorem mem_updateRouting (hMem : entry ∈ (table.updateRouting neighborTable clock).entries) :
    entry ∈ table.entries ∨ ∃ i, entry.lastUpdatedMilli = clock i := by
  rw [updateRouting] at hMem
  refine List.foldlRecOn
    (motive := fun t : MIPRouteTable => entry ∈ t.entries →
      entry ∈ table.entries ∨ ∃ i, entry.lastUpdatedMilli = clock i)
    _ _ Or.inl (fun t ih challenger _ hMem => ?_) hMem
  rcases mem_updateEntry hMem with hOld | hNew
  · exact ih hOld
  · exact Or.inr ⟨challenger.2, hNew⟩

theorem entryMaxAgeMilli_updateRouting (table neighborTable : MIPRouteTable) (clock : Clock) :
    (table.updateRouting neighborTable clock).entryMaxAgeMilli = table.entryMaxAgeMilli := by
  refine updateRouting_induction (motive := fun t => t.entryMaxAgeMilli = table.entryMaxAgeMilli)
    neighborTable clock rfl fun t challenger now ih _ => ?_
  rcases updateEntry_cases t neighborTable.tableAddress challenger now with ⟨-, -, hEq⟩ | ⟨-, hEq⟩
  · rw [hEq, update_eq]
    exact ih
  · rw [hEq]
    exact ih

/-- A learned route that the sweep leaves was young enough when it was looked at. -/
theorem age_of_mem_removeOldEntries (hMem : entry ∈ (table.removeOldEntries clock).2.entries)
    (hLearned : entry.cost ≠ 0) :
    ∃ i, clock i - entry.lastUpdatedMilli ≤ table.entryMaxAgeMilli := by
  simp only [removeOldEntries, List.partition_eq_filter_filter] at hMem
  obtain ⟨⟨_, i⟩, hKept, rfl⟩ := List.mem_map.mp hMem
  have hYoung := (List.mem_filter.mp hKept).2
  simp only [Function.comp_apply, Bool.not_and, Bool.or_eq_true, Bool.not_eq_true',
    MIPRouteEntry.toOld, decide_eq_false_iff_not, bne_eq_false_iff_eq] at hYoung
  exact ⟨i, Int.not_lt.mp (hYoung.resolve_right hLearned)⟩

end MIPRouteTable

namespace RouterRun

/-- The entries that an action announces to the neighbours. -/
def broadcast (s : RouterRun) : Action → List MIPRouteEntry
  | .poll now _ written _ =>
    if s.shouldCompleteRouteBroadcast now ∧ (broadcastRouteTable s.table written).isSome then
      s.table.entries
    else []
  | .routing _ _ _ => []
  | .forward _ => []
  | .stop => []

/-- The entry whose next hop is the answer to a request. -/
def answering (s : RouterRun) : Action → Option MIPRouteEntry
  | .poll _ _ _ _ => none
  | .routing _ _ _ => none
  | .forward destination =>
    if destination = mipBroadcastAddress then none else s.table.get destination
  | .stop => none

/-- The next hops an action answers with. -/
def answer (s : RouterRun) : Action → List MIPAddress
  | .poll _ _ _ _ => []
  | .routing _ _ _ => []
  | .forward destination => [((s.answering (.forward destination)).map (·.nextHop)).getD 255]
  | .stop => []

variable {s : RouterRun} {action : Action}

/-- What an event sends is taken from the entries of the present table. -/
theorem sent_perform (s : RouterRun) (action : Action) :
    (s.perform action).sent.flatMap MIPRouteTablePackage.listed =
      s.sent.flatMap MIPRouteTablePackage.listed ++
        (s.broadcast action).map MIPRouteEntry.toPackageEntry := by
  cases action with
  | poll now sentAt written clock =>
      rw [perform, RouterRun.poll, broadcast]
      by_cases hDue : s.shouldCompleteRouteBroadcast now = true
      · cases hSend : broadcastRouteTable s.table written with
        | none => simp [hDue]
        | some package =>
            have hListed : package.listed = s.table.entries.map MIPRouteEntry.toPackageEntry := by
              rw [broadcastRouteTable] at hSend
              cases hPackage : s.table.createPackage with
              | none => simp [hPackage] at hSend
              | some created =>
                  simp only [hPackage] at hSend
                  split_ifs at hSend
                  rw [← Option.some.inj hSend]
                  exact MIPRouteTable.createPackage_listed hPackage
            simp [hDue, hListed]
      · simp [hDue]
  | routing bytes received merged =>
      rw [perform, routing]
      cases handleRouteRequest bytes received with
      | none => exact (List.append_nil _).symm
      | some neighborTable => exact (List.append_nil _).symm
  | forward destination => exact (List.append_nil _).symm
  | stop => exact (List.append_nil _).symm

theorem answers_perform (s : RouterRun) (action : Action) :
    (s.perform action).answers = s.answers ++ s.answer action := by
  cases action with
  | poll now sentAt written clock =>
      rw [perform, RouterRun.poll, answer, List.append_nil]
      split_ifs
      · cases broadcastRouteTable s.table written <;> rfl
      · rfl
  | routing bytes received merged =>
      rw [perform, routing, answer, List.append_nil]
      cases handleRouteRequest bytes received <;> rfl
  | forward destination =>
      simp only [perform, answer, answering, MIPRouteTable.getNextHop]
      split_ifs with hBroadcast
      · rfl
      · cases s.table.get destination <;> rfl
  | stop => exact (List.append_nil _).symm

/-- A poll ends with a sweep, or leaves the loop with the table as it was. -/
theorem poll_cases (s : RouterRun) (now sentAt : ℤ) (written : Bool) (clock : Clock) :
    (s.poll now sentAt written clock).table = s.table ∧
        (s.poll now sentAt written clock).running = false ∨
      (s.poll now sentAt written clock).table = (s.table.removeOldEntries clock).2 ∧
        (s.poll now sentAt written clock).running = s.running := by
  rw [RouterRun.poll]
  split_ifs
  · cases broadcastRouteTable s.table written with
    | none => exact Or.inl ⟨rfl, rfl⟩
    | some package => exact Or.inr ⟨rfl, rfl⟩
  · exact Or.inr ⟨rfl, rfl⟩

/-- What an action uses is in the table before it. A sweep in front of a broadcast only removes
entries. -/
theorem mem_of_used {entry : MIPRouteEntry}
    (h : entry ∈ s.broadcast action ∨ s.answering action = some entry) :
    entry ∈ s.table.entries := by
  cases action with
  | poll now sentAt written clock =>
      rw [broadcast, answering] at h
      split_ifs at h
      · exact h.resolve_right nofun
      · simp at h
  | routing bytes received merged => simp [broadcast, answering] at h
  | forward destination =>
      rw [broadcast, answering] at h
      split_ifs at h
      · simp at h
      · exact (MIPRouteTable.mem_of_get (h.resolve_left List.not_mem_nil)).1
  | stop => simp [broadcast, answering] at h

/-- An action with the times at which it began and ended. -/
structure TimedAction where
  action : Action
  began : ℤ
  ended : ℤ

/-- The clock is read between the beginning and the end; a sweep comes after the
broadcast. -/
def TimedAction.InTime (a : TimedAction) : Prop :=
  a.began ≤ a.ended ∧ match a.action with
    | .poll now sentAt _ clock =>
      a.began ≤ now ∧ now ≤ sentAt ∧ ∀ i, sentAt ≤ clock i ∧ clock i ≤ a.ended
    | .routing _ received merged => ∀ i, (a.began ≤ received i ∧ received i ≤ a.ended) ∧
        a.began ≤ merged i ∧ merged i ≤ a.ended
    | .forward _ => True
    | .stop => True

end RouterRun

open RouterRun

/-- routerd and its clock. `sweptAt` is when the latest sweep began, and `waiting` tells that
nothing happened since. -/
structure AgingRouter where
  run : RouterRun
  now : ℤ
  sweptAt : Option ℤ
  waiting : Bool

namespace AgingRouter

def start (config : RouterdConfig) (clock : Clock) (now : ℤ) : AgingRouter :=
  { run := RouterRun.start config clock, now, sweptAt := none, waiting := false }

/-- An error of the broadcast leaves the loop before the sweep. -/
def sweptAfter (s : AgingRouter) : Action → Option ℤ
  | .poll now sentAt written clock =>
    if (s.run.poll now sentAt written clock).running then some sentAt else s.sweptAt
  | .routing _ _ _ => s.sweptAt
  | .forward _ => s.sweptAt
  | .stop => s.sweptAt

def perform (s : AgingRouter) (a : TimedAction) : AgingRouter :=
  { run := s.run.perform a.action
    now := a.ended
    sweptAt := s.sweptAfter a.action
    waiting := match a.action with
      | .poll _ _ _ _ => true
      | _ => false }

/-- Events come after the first sweep, and the waiting ends at the latest with its
timeout. -/
def Enabled (s : AgingRouter) (a : TimedAction) : Prop :=
  s.run.Enabled a.action ∧ s.now ≤ a.began ∧ a.InTime ∧
    (s.waiting → a.began ≤ s.now + pollingTimeout) ∧
    match a.action with
    | .poll _ _ _ _ => True
    | _ => s.sweptAt.isSome

def Step (s : AgingRouter) (a : TimedAction) (t : AgingRouter) : Prop :=
  s.Enabled a ∧ t = s.perform a

/-- At the latest sweep the entry was a local route or not too old. -/
def YoungWhenSwept (s : AgingRouter) (entry : MIPRouteEntry) : Prop :=
  entry.cost ≠ 0 → ∃ swept, s.sweptAt = some swept ∧
    swept - entry.lastUpdatedMilli ≤ s.run.table.entryMaxAgeMilli

/-- What is sent is taken from entries that were not too old at the latest sweep. -/
structure UsesYoung (s : AgingRouter) (a : TimedAction) (t : AgingRouter) : Prop where
  sent : t.run.sent.flatMap MIPRouteTablePackage.listed =
    s.run.sent.flatMap MIPRouteTablePackage.listed ++
      (s.run.broadcast a.action).map MIPRouteEntry.toPackageEntry
  answers : t.run.answers = s.run.answers ++ s.run.answer a.action
  broadcast : ∀ entry ∈ s.run.broadcast a.action, s.YoungWhenSwept entry
  answering : ∀ entry, s.run.answering a.action = some entry → s.YoungWhenSwept entry

/-- The invariant of all runs. -/
structure Aged (s : AgingRouter) : Prop where
  maxAge : s.run.table.entryMaxAgeMilli = mipTableEntryMaxAgeMilli
  swept : ∀ swept, s.sweptAt = some swept → swept ≤ s.now
  young : ∀ entry ∈ s.run.table.entries, s.YoungWhenSwept entry

variable {s t : AgingRouter} {a : TimedAction}

theorem entryMaxAgeMilli_create (addresses : List MIPAddress) (clock : Clock) :
    (RouterServer.create addresses clock).table.entryMaxAgeMilli = mipTableEntryMaxAgeMilli := by
  refine List.foldlRecOn
    (motive := fun t : MIPRouteTable => t.entryMaxAgeMilli = mipTableEntryMaxAgeMilli)
    _ _ rfl fun t ih current _ => ?_
  rw [RouterServer.addLocal, MIPRouteTable.update_eq]
  exact ih

theorem Aged.start (config : RouterdConfig) (clock : Clock) (now : ℤ) :
    Aged (start config clock now) := by
  refine ⟨entryMaxAgeMilli_create config.mipAddresses clock, nofun, fun entry hMem hLearned => ?_⟩
  obtain ⟨-, hHeard⟩ := (RouterServer.LocalRoutes.create config.mipAddresses [] clock).entries
  exact absurd (hHeard entry hMem hLearned) List.not_mem_nil

theorem Aged.of_same (h : Aged s) (hTable : t.run.table = s.run.table)
    (hSwept : t.sweptAt = s.sweptAt) (hNow : s.now ≤ t.now) : Aged t := by
  refine ⟨hTable ▸ h.maxAge, fun swept hSome => ?_, fun entry hMem hLearned => ?_⟩
  · exact (h.swept swept (hSwept ▸ hSome)).trans hNow
  · obtain ⟨swept, hSome, hAge⟩ := h.young entry (hTable ▸ hMem) hLearned
    exact ⟨swept, hSwept.trans hSome, hTable ▸ hAge⟩

/-- A sweep leaves only entries that are young enough at this time, and what it broadcasts it
sends right afterwards. -/
theorem Aged.poll (h : Aged s) {now sentAt : ℤ} {written : Bool} {clock : Clock}
    {began ended : ℤ} (hEnabled : s.Enabled ⟨.poll now sentAt written clock, began, ended⟩) :
    Aged (s.perform ⟨.poll now sentAt written clock, began, ended⟩) := by
  obtain ⟨hRunning, hLater, ⟨hOrder, hNow, hSent, hClock⟩, -⟩ := hEnabled
  rcases s.run.poll_cases now sentAt written clock with ⟨hTable, hEnds⟩ | ⟨hTable, hGoesOn⟩
  · have hSwept : s.sweptAfter (.poll now sentAt written clock) = s.sweptAt :=
      if_neg (by simp [hEnds])
    exact h.of_same hTable hSwept (hLater.trans hOrder)
  · have hSwept : s.sweptAfter (.poll now sentAt written clock) = some sentAt :=
      if_pos (hGoesOn.trans hRunning)
    have hMaxAge : (s.run.poll now sentAt written clock).table.entryMaxAgeMilli =
        s.run.table.entryMaxAgeMilli := by
      rw [hTable]
      rfl
    refine ⟨hMaxAge.trans h.maxAge, fun swept hSome => ?_, fun entry hMem hLearned => ?_⟩
    · obtain rfl := Option.some.inj (hSwept.symm.trans hSome)
      exact (hClock 0).1.trans (hClock 0).2
    · obtain ⟨i, hAge⟩ := MIPRouteTable.age_of_mem_removeOldEntries (hTable ▸ hMem) hLearned
      have hBefore := (hClock i).1
      refine ⟨sentAt, hSwept, ?_⟩
      show _ ≤ (s.run.poll now sentAt written clock).table.entryMaxAgeMilli
      omega

/-- What a merge writes is younger than the latest sweep. -/
theorem Aged.routing (h : Aged s) {bytes : List UInt8} {received merged : Clock}
    {began ended : ℤ} (hEnabled : s.Enabled ⟨.routing bytes received merged, began, ended⟩) :
    Aged (s.perform ⟨.routing bytes received merged, began, ended⟩) := by
  obtain ⟨-, hLater, ⟨hOrder, hClock⟩, -, hSwept⟩ := hEnabled
  obtain ⟨swept, hSome⟩ := Option.isSome_iff_exists.mp hSwept
  have hBefore := h.swept swept hSome
  cases hRead : handleRouteRequest bytes received with
  | none =>
      refine h.of_same ?_ rfl (hLater.trans hOrder)
      simp only [AgingRouter.perform, RouterRun.perform, RouterRun.routing, hRead]
  | some neighborTable =>
      have hTable : (s.perform ⟨.routing bytes received merged, began, ended⟩).run.table =
          s.run.table.updateRouting neighborTable merged := by
        simp only [AgingRouter.perform, RouterRun.perform, RouterRun.routing, hRead]
      have hMaxAge : (s.run.table.updateRouting neighborTable merged).entryMaxAgeMilli =
          mipTableEntryMaxAgeMilli :=
        (MIPRouteTable.entryMaxAgeMilli_updateRouting _ _ _).trans h.maxAge
      refine ⟨hTable ▸ hMaxAge, fun swept' hSome' => ?_, fun entry hMem hLearned => ?_⟩
      · exact (h.swept swept' hSome').trans (hLater.trans hOrder)
      · refine ⟨swept, hSome, ?_⟩
        rw [hTable, hMaxAge]
        rcases MIPRouteTable.mem_updateRouting (hTable ▸ hMem) with hOld | ⟨i, hNew⟩
        · obtain ⟨swept', hSome', hAge⟩ := h.young entry hOld hLearned
          obtain rfl := Option.some.inj (hSome.symm.trans hSome')
          exact h.maxAge ▸ hAge
        · have hRead := (hClock i).2.1
          unfold mipTableEntryMaxAgeMilli
          rw [hNew]
          omega

/-- The step lemma: between two sweeps entries only get updated, and time goes on. -/
theorem Aged.perform (h : Aged s) (hEnabled : s.Enabled a) : Aged (s.perform a) := by
  obtain ⟨action, began, ended⟩ := a
  cases action with
  | poll now sentAt written clock => exact h.poll hEnabled
  | routing bytes received merged => exact h.routing hEnabled
  | forward destination =>
      obtain ⟨-, hLater, ⟨hOrder, -⟩, -⟩ := hEnabled
      exact h.of_same rfl rfl (hLater.trans hOrder)
  | stop =>
      obtain ⟨-, hLater, ⟨hOrder, -⟩, -⟩ := hEnabled
      exact h.of_same rfl rfl (hLater.trans hOrder)

theorem usesYoung_perform (h : Aged s) (a : TimedAction) : UsesYoung s a (s.perform a) :=
  ⟨RouterRun.sent_perform s.run a.action, RouterRun.answers_perform s.run a.action,
    fun entry hMem => h.young entry (RouterRun.mem_of_used (Or.inl hMem)),
    fun entry hEntry => h.young entry (RouterRun.mem_of_used (Or.inr hEntry))⟩

/-- In every run all that is sent is taken from local routes and from entries that were
not too old when the latest sweep began. -/
theorem used_routes_were_young (config : RouterdConfig) (clock : Clock) (now : ℤ)
    (actions : List TimedAction) (t : AgingRouter) :
    Trace Step (start config clock now) actions t ↔
      Trace (Guarded Step UsesYoung) (start config clock now) actions t := by
  refine ⟨fun run => ?_, Trace.unguard⟩
  refine run.strengthen (I := Aged) (Aged.start config clock now) ?_ ?_
  · rintro s a _ h ⟨hEnabled, rfl⟩
    exact h.perform hEnabled
  · rintro s a _ h ⟨-, rfl⟩
    exact usesYoung_perform h a

/-- A poll that takes no time is possible in every state. -/
theorem enabled_poll {now : ℤ} (written : Bool) (hRunning : s.run.running = true)
    (hLater : s.now ≤ now) (hWaits : now ≤ s.now + pollingTimeout) :
    s.Enabled ⟨.poll now now written fun _ => now, now, now⟩ :=
  ⟨hRunning, hLater, ⟨le_rfl, le_rfl, le_rfl, fun _ => ⟨le_rfl, le_rfl⟩⟩, fun _ => hWaits, trivial⟩

/-- A neighbour is heard once, right before a sweep. Five seconds later its route still
answers a request, and the next broadcast announces it. -/
theorem expired_route_is_used :
    let config : RouterdConfig := ⟨['r'], ['f'], [10], false, 2000, by decide⟩
    let package : MIPRouteTablePackage :=
      ⟨20, 1, Vector.ofFn fun i => if i.val = 0 then ⟨20, 20, 0⟩ else ⟨0, 0, 0⟩⟩
    let entry : MIPRouteEntry := ⟨20, 20, 1, 3010⟩
    let request : TimedAction := ⟨.forward 20, 8015, 8015⟩
    let turn : TimedAction := ⟨.poll 8016 8016 true fun _ => 8016, 8016, 8016⟩
    ∃ s, Trace Step (start config (fun _ => 0) 0)
        [⟨.poll 3000 3000 true fun _ => 3000, 3000, 3000⟩,
          ⟨.routing package.toBytes (fun _ => 3010) (fun _ => 3010), 3010, 3010⟩,
          ⟨.poll 3020 3020 true fun _ => 3020, 3020, 3020⟩] s ∧
      s.Enabled request ∧ s.run.answering request.action = some entry ∧
      s.run.table.entryMaxAgeMilli < request.began - entry.lastUpdatedMilli ∧
      (s.perform request).Enabled turn ∧
      entry ∈ (s.perform request).run.broadcast turn.action := by
  intro config package entry request turn
  let first : TimedAction := ⟨.poll 3000 3000 true fun _ => 3000, 3000, 3000⟩
  let news : TimedAction :=
    ⟨.routing package.toBytes (fun _ => 3010) (fun _ => 3010), 3010, 3010⟩
  let second : TimedAction := ⟨.poll 3020 3020 true fun _ => 3020, 3020, 3020⟩
  have hNews : handleRouteRequest package.toBytes (fun _ => 3010) =
      some ⟨20, 5000, [⟨20, 20, 0, 3010⟩]⟩ := by
    have hRead := package.ofBytes_toBytes []
    rw [List.append_nil] at hRead
    rw [handleRouteRequest, hRead]
    decide
  let s₁ := (start config (fun _ => 0) 0).perform first
  let s₂ : AgingRouter := {
    run := { s₁.run with table := ⟨0, 5000, [⟨10, 10, 0, 0⟩, entry]⟩ }
    now := 3010
    sweptAt := some 3000
    waiting := false }
  have hLearned : s₁.perform news = s₂ := by
    have hTable : s₁.run.table.updateRouting ⟨20, 5000, [⟨20, 20, 0, 3010⟩]⟩ (fun _ => 3010) =
        ⟨0, 5000, [⟨10, 10, 0, 0⟩, entry]⟩ := by decide
    have hSwept : s₁.sweptAt = some 3000 := by decide
    simp only [perform, news, RouterRun.perform, RouterRun.routing, hNews, hTable, sweptAfter,
      hSwept, s₂]
  have hFirst : (start config (fun _ => 0) 0).Enabled first :=
    enabled_poll true rfl (by decide) (by decide)
  have hHeard : s₁.Enabled news :=
    ⟨⟨by decide, package.toBytes_length⟩, by decide,
      ⟨le_rfl, fun _ => ⟨⟨le_rfl, le_rfl⟩, le_rfl, le_rfl⟩⟩, fun _ => by decide, by decide⟩
  have hSecond : s₂.Enabled second :=
    enabled_poll true (show s₁.run.running = true by decide) (by decide) (by decide)
  let s₃ := s₂.perform second
  have hAsked : s₃.Enabled request :=
    ⟨show s₃.run.running = true by decide, by decide, ⟨le_rfl, trivial⟩, fun _ => by decide,
      by decide⟩
  have hTurn : (s₃.perform request).Enabled turn :=
    enabled_poll true (show (s₃.perform request).run.running = true by decide) (by decide)
      (by decide)
  exact ⟨s₃, Trace.snoc (Trace.snoc (Trace.single ⟨hFirst, rfl⟩) ⟨hHeard, hLearned.symm⟩)
    ⟨hSecond, rfl⟩, hAsked, by decide, by decide, hTurn, by decide⟩

end AgingRouter

end MipStack
