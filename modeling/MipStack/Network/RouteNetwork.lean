import MipStack.Network.RoutePackages
import MipStack.Mipd.SplitHorizon
import MipStack.Routerd.RouterServer
import Mathlib.Combinatorics.SimpleGraph.Basic

/-! A network of hosts that run routerd and mipd: routing tables travel from a
routerd through its mipd and over a link to the mipd and the routerd of another
host. Packages may be delayed, repeated, reordered and lost on the way. -/
namespace MipStack
open Execution

/-- The addresses routerd was started with, the interfaces of mipd, and the wire
each raw socket is bound to. -/
structure Network (ρ σ : Type*) where
  configured : ρ → List MIPAddress
  iTable : ρ → InterfaceTable
  wire : ρ → ℤ → σ

namespace Network

variable {ρ σ : Type*} (net : Network ρ σ)

def addresses (u : ρ) : Set MIPAddress :=
  {a | a ∈ net.configured u ∨ ∃ record ∈ (net.iTable u).interfaces, record.mipAddress = a}

/-- An interface of the host is attached to the wire. -/
def Attached (u : ρ) (w : σ) (record : InterfaceRecord) : Prop :=
  record ∈ (net.iTable u).interfaces ∧ net.wire u record.rawSocket = w

/-- Two hosts are adjacent if they share a wire. -/
def graph : SimpleGraph ρ where
  Adj u v := u ≠ v ∧ ∃ w record record', net.Attached u w record ∧ net.Attached v w record'
  symm := ⟨fun _ _ ⟨hNe, w, record, record', hu, hv⟩ => ⟨hNe.symm, w, record', record, hv, hu⟩⟩
  loopless := ⟨fun _ h => h.1 rfl⟩

def owners (d : MIPAddress) : Set ρ := {u | d ∈ net.configured u}

/-- No address belongs to two hosts. -/
def AddressesUnique : Prop :=
  ∀ ⦃u v : ρ⦄ ⦃a : MIPAddress⦄, a ∈ net.addresses u → a ∈ net.addresses v → u = v

/-- `packed` holds the packages routerd handed to mipd, `sent` the frames on the
wires, `merged` which host merged a table of which. -/
structure State (ρ σ : Type*) where
  tables : ρ → MIPRouteTable
  packed : Set (ρ × MIPRouteTablePackage)
  sent : Set (ρ × σ × MIPPackage)
  merged : Set (ρ × ρ)

def initial (clocks : ρ → Clock) : State ρ σ :=
  { tables := fun u => (RouterServer.create (net.configured u) (clocks u)).table
    packed := ∅, sent := ∅, merged := ∅ }

inductive Event (ρ : Type*) where
  | pack (u : ρ)
  | broadcast (u : ρ)
  | deliver (v u : ρ)
  | expire (v : ρ)

/-- One event on one host. `caches` restricts the ARP caches a host may have. A
frame stays on its wire, so it may be delivered again, later or never, with the
bytes that were sent. -/
inductive Step [DecidableEq ρ] (caches : ρ → MipArpCache → Prop) :
    State ρ σ → Event ρ → State ρ σ → Prop where
  | pack (s : State ρ σ) {u : ρ} {package : MIPRouteTablePackage}
      (hPack : (s.tables u).createPackage = some package) :
      Step caches s (.pack u) { s with packed := insert (u, package) s.packed }
  | broadcast (s : State ρ σ) {u : ρ} {package : MIPRouteTablePackage} {cache : MipArpCache}
      {pointers : ℕ → PointerBytes} {outputs : List Output}
      (hPacked : (u, package) ∈ s.packed) (hCache : caches u cache)
      (hSend : broadcastRouteTable (net.iTable u) cache package pointers = .ok outputs) :
      Step caches s (.broadcast u) { s with
        sent := {frame | frame ∈ s.sent ∨ ∃ socket package, .sendto socket package ∈ outputs ∧
          frame = (u, net.wire u socket, package)} }
  | deliver (s : State ρ σ) {u v : ρ} {w : σ} {record : InterfaceRecord} {package : MIPPackage}
      {received : Clock} {merging : Clock} {neighborTable : MIPRouteTable}
      (hSent : (u, w, package) ∈ s.sent) (hNe : u ≠ v) (hAttached : net.Attached v w record)
      (hTable : (parseBroadcastedTable package).createTable received = some neighborTable) :
      Step caches s (.deliver v u) { s with
        tables := Function.update s.tables v ((s.tables v).updateRouting neighborTable merging)
        merged := insert (v, u) s.merged }
  | expire (s : State ρ σ) (v : ρ) (clock : Clock) :
      Step caches s (.expire v) { s with
        tables := Function.update s.tables v ((s.tables v).removeOldEntries clock).2 }

/-- A table gets from one host to another. -/
def Event.Delivers : Event ρ → Prop
  | .deliver _ _ => True
  | _ => False

/-- Only expiry takes routes out of a table. -/
def Event.Retains : Event ρ → Prop
  | .expire _ => False
  | _ => True

/-- A new round forgets what was packed, sent and merged before. -/
def State.beginRound (s : State ρ σ) : State ρ σ :=
  { s with packed := ∅, sent := ∅, merged := ∅ }

/-- Nothing expires, and every host merges a table that each neighbour packed
and sent in the round. -/
def Round [DecidableEq ρ] (caches : ρ → MipArpCache → Prop) (s t : State ρ σ) : Prop :=
  (∃ events, Trace (Guarded (net.Step caches) fun _ event _ => event.Retains)
    s.beginRound events t) ∧
    ∀ u v, net.graph.Adj u v → (v, u) ∈ t.merged

inductive Rounds [DecidableEq ρ] (caches : ρ → MipArpCache → Prop) :
    ℕ → State ρ σ → State ρ σ → Prop where
  | zero (s : State ρ σ) : Rounds caches 0 s s
  | succ {k : ℕ} {s m t : State ρ σ} (prior : Rounds caches k s m)
      (last : net.Round caches m t) : Rounds caches (k + 1) s t

/-- At most two hosts are attached to a wire. -/
def PointToPoint : Prop :=
  ∀ ⦃u v x : ρ⦄ ⦃w : σ⦄ ⦃record record' record'' : InterfaceRecord⦄,
    net.Attached u w record → net.Attached v w record' → net.Attached x w record'' →
      u ≠ v → u ≠ x → v = x

/-- The cache names exactly the neighbours' interfaces on each wire. -/
def ExactCache (u : ρ) (cache : MipArpCache) : Prop :=
  ∀ record ∈ (net.iTable u).interfaces, ∀ a,
    cache.Reaches record.rawSocket a ↔ ∃ v record', u ≠ v ∧
      net.Attached v (net.wire u record.rawSocket) record' ∧ record'.mipAddress = a

end Network

end MipStack
