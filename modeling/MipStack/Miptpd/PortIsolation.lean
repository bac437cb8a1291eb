import MipStack.Miptpd.AppSession

/-! Which connections a package is handed to. Applications register ports of 16 bits,
connections and packages have 14 bits for them. -/
namespace MipStack
open Execution

namespace AppSession

/-- The application behind the connection registered the port. -/
def HasPort (s : AppSession) (port : BitVec 14) (connection : AppConnection) : Prop :=
  (s.registered connection.socket).map UInt16.toNat = some port.toNat

instance (s : AppSession) (port : BitVec 14) : DecidablePred (s.HasPort port) :=
  fun _ => inferInstanceAs (Decidable (_ = _))

/-- The connections that the package is handed to are those of the applications that
registered its port. They receive it and the others stay as they are. -/
structure Isolates (s : AppSession) (mipAddress : MIPAddress) (data : List UInt8)
    (package : MIPTPPackage) : Prop where
  handed : ∀ connection ∈ s.connections,
    connection.port = package.miptpHeader.port ↔ s.HasPort package.miptpHeader.port connection
  result : (s.outcome (.mipdPackage mipAddress data)).result = .ok 1
  received : (s.perform (.mipdPackage mipAddress data)).connections =
    s.connections.map fun connection =>
      if s.HasPort package.miptpHeader.port connection then
        connection.afterPackage mipAddress package
      else connection

/-- No application registered a port of more than 14 bits that has these low bits, and
no connection is without an application if the port is the one that stands for none. -/
def NoAlias (s : AppSession) (port : BitVec 14) : Prop :=
  ∀ connection ∈ s.connections,
    match s.registered connection.socket with
    | none => port ≠ 16383
    | some registered => 2 ^ 14 ≤ registered.toNat → registered.toNat % 2 ^ 14 ≠ port.toNat

variable {s : AppSession}

/-- The low bits of the registered port are what the package is compared with. -/
theorem portOf_some_eq_iff (registered : UInt16) (port : BitVec 14) :
    portOf (some registered) = port ↔ registered.toNat % 2 ^ 14 = port.toNat := by
  rw [portOf, ← BitVec.toNat_inj, BitVec.toNat_ofNat]

/-- A connection is handed the packages for its registered port and no others, if
the port has 14 bits; without a port it is handed those for the placeholder. -/
theorem handed_iff_hasPort (h : WellFormed s) {connection : AppConnection}
    (hMem : connection ∈ s.connections) (port : BitVec 14) :
    (connection.port = port ↔ s.HasPort port connection) ↔
      match s.registered connection.socket with
      | none => port ≠ 16383
      | some registered => 2 ^ 14 ≤ registered.toNat → registered.toNat % 2 ^ 14 ≠ port.toNat := by
  have hPort := port.isLt
  rw [h.port connection hMem, HasPort]
  cases s.registered connection.socket with
  | none =>
      rw [Option.map_none, portOf]
      simp only [reduceCtorEq, iff_false]
      exact ⟨fun hNe hEq => hNe hEq.symm, fun hNe hEq => hNe hEq.symm⟩
  | some registered =>
      rw [portOf_some_eq_iff, Option.map_some, Option.some.injEq]
      omega

/-- A package for a port reaches the applications that registered it and no others
exactly if there is no alias of the port. -/
theorem isolates_iff (setup : AppSetup) (actions : List Action) (s : AppSession)
    (run : Trace Step (start setup) actions s) (mipAddress : MIPAddress) (data : List UInt8)
    (package : MIPTPPackage) (hPackage : MIPTPPackage.deserialize data = .ok package) :
    s.Isolates mipAddress data package ↔ s.NoAlias package.miptpHeader.port := by
  have hWellFormed := wellFormed_of_trace run
  have hHandled := MIPTPAppController.handleMipdPackage_of_valid hWellFormed.valid mipAddress
    hPackage
  constructor
  · intro h connection hMem
    exact (handed_iff_hasPort hWellFormed hMem _).mp (h.handed connection hMem)
  · intro h
    have hEach : ∀ connection ∈ s.connections, (connection.port = package.miptpHeader.port ↔
        s.HasPort package.miptpHeader.port connection) := fun connection hMem =>
      (handed_iff_hasPort hWellFormed hMem _).mpr (h connection hMem)
    refine ⟨hEach, ?_, ?_⟩
    · simp only [outcome, hHandled]
      rfl
    · simp only [perform, outcome, connections, hHandled]
      exact List.map_congr_left fun connection hMem => if_congr (hEach connection hMem) rfl rfl

/-- An application on port 80 receives the packages for port 80. It is the only one, so nobody
else does. -/
theorem isolates_port_80 :
    let package : ClientPackage := ⟨80, 10, .sender, [7], by decide⟩
    (afterRegistration package).Isolates 10 [64, 1, 0, 0] ⟨⟨0, 80, 0⟩, []⟩ := by
  intro package
  obtain ⟨hConnections, hRegistered, -⟩ := afterRegistration_eq package rfl (by decide)
    (by decide) (by decide)
  have hRun := trace_afterRegistration package (by decide)
  refine (isolates_iff _ _ _ hRun 10 [64, 1, 0, 0] _ rfl).mpr fun connection hMem => ?_
  rw [hConnections] at hMem
  obtain rfl := List.mem_singleton.mp hMem
  rw [show (AppConnection.forSender 5 package 0 0).socket = 5 from rfl, hRegistered]
  exact fun hLarge => absurd hLarge (by decide)

/-- An application that registered port 16464 is handed the packages for port 80, because 14 bits
of the port are kept. -/
theorem port_16464_receives_80 :
    let package : ClientPackage := ⟨16464, 10, .sender, [7], by decide⟩
    let s := afterRegistration package
    (∃ actions, Trace Step (start ⟨3, 4, by decide, by decide⟩) actions s) ∧
      s.registered 5 = some 16464 ∧ ¬ s.Isolates 10 [64, 1, 0, 0] ⟨⟨0, 80, 0⟩, []⟩ := by
  intro package s
  obtain ⟨hConnections, hRegistered, -⟩ := afterRegistration_eq package rfl (by decide)
    (by decide) (by decide)
  refine ⟨⟨_, trace_afterRegistration package (by decide)⟩, hRegistered, fun h => ?_⟩
  have hHanded := h.handed (AppConnection.forSender 5 package 0 0)
    (hConnections ▸ List.mem_singleton.mpr rfl)
  have hLow : BitVec.ofNat 14 (16464 : UInt16).toNat = 80 := by decide
  have hPort : s.HasPort 80 (AppConnection.forSender 5 package 0 0) := hHanded.mp hLow
  rw [HasPort, show (AppConnection.forSender 5 package 0 0).socket = 5 from rfl, hRegistered]
    at hPort
  exact absurd hPort (by decide)

end AppSession

end MipStack
