import MipStack.Mipd.ApplicationStream
import MipStack.Network.TransportNetwork

/-! A network of mipds in which what is received is taken off the wire. Every message that an
application hands to mipd has a number, which follows its package from place to place. -/
namespace MipStack
open Execution MIPDServer

def Output.transport : Output → Option MIPPackage
  | .sendto _ package => if package.mHeader.tra = 3 then some package else none
  | _ => none

def Output.appBytes : Output → Option (List UInt8)
  | .sendApp bytes => some bytes
  | _ => none

/-- A transport package on the wire. Its number is recorded beside it and never read. -/
structure Parcel where
  tag : ℕ
  package : MIPPackage
  deriving DecidableEq

/-- `tags` are the numbers of the queued packages, in the order of the queue. -/
structure ParcelHost where
  server : MIPDServer
  tags : List ℕ
  given : List (ℕ × List UInt8)

/-- The messages are listed with the hosts that sent them, in the order of their numbers. -/
structure ParcelNetwork (ρ : Type*) where
  hosts : ρ → ParcelHost
  wire : List Parcel
  gone : List ℕ
  messages : List (ρ × MIPDMessage)

/-- Where a message can be. -/
inductive Place (ρ : Type*) where
  | wire
  | queue (x : ρ)
  | app (x : ρ)
  | gone
  deriving DecidableEq

namespace ParcelNetwork

inductive Action (ρ : Type*) where
  | startRun (x : ρ) (now : ℤ)
  | tick (x : ρ) (clock : Clock)
  /-- `pointer` is the address that is sent along with the package. -/
  | receive (x : ρ) (parcel : Parcel) (pointer : PointerBytes) (fd : ℤ) (env : Env)
  | lose (parcel : Parcel)
  | handle (x : ρ) (event : MipStack.Event) (env : Env)

variable {ρ : Type*}

def start (config : ρ → MipdConfig) : ParcelNetwork ρ :=
  { hosts := fun x =>
      { server := MIPDServer.create (config x).appSocket (config x).routeSocket
          (config x).forwardSocket (config x).iTable (config x).cacheUpdateFreqMilli
        tags := []
        given := [] }
    wire := []
    gone := []
    messages := [] }

def contents (net : ParcelNetwork ρ) : Place ρ → List ℕ
  | .wire => net.wire.map Parcel.tag
  | .queue x => (net.hosts x).tags
  | .app x => (net.hosts x).given.map Prod.fst
  | .gone => net.gone

/-- The outputs of the host are for the message with this number. -/
def settle [DecidableEq ρ] (net : ParcelNetwork ρ) (x : ρ) (server : MIPDServer) (tags : List ℕ)
    (outputs : List Output) (tag : ℕ) : ParcelNetwork ρ :=
  { net with
    hosts := Function.update net.hosts x
      { server
        tags := tags ++ (outputs.filterMap Output.forwardRequest).map fun _ => tag
        given := (net.hosts x).given ++
          (outputs.filterMap Output.appBytes).map fun bytes => (tag, bytes) }
    wire := net.wire ++ (outputs.filterMap Output.transport).map (Parcel.mk tag) }

/-- The message is gone if no output is for it. -/
def follow [DecidableEq ρ] (net : ParcelNetwork ρ) (x : ρ) (server : MIPDServer)
    (tags : List ℕ) (outputs : List Output) (tag : ℕ) : ParcelNetwork ρ :=
  let net := net.settle x server tags outputs tag
  if outputs.filterMap Output.forwardRequest = [] ∧ outputs.filterMap Output.appBytes = [] ∧
      outputs.filterMap Output.transport = [] then { net with gone := net.gone ++ [tag] }
  else net

def receive [DecidableEq ρ] (net : ParcelNetwork ρ) (x : ρ) (parcel : Parcel)
    (pointer : PointerBytes) (fd : ℤ) (env : Env) : ParcelNetwork ρ :=
  let bytes := sendtoRawMipPackage parcel.package pointer
  let outcome := (net.hosts x).server.branch ⟨fd, bytes, -1⟩ env
  { net with wire := net.wire.erase parcel }.follow x outcome.server (net.hosts x).tags
    outcome.outputs parcel.tag

/-- An answer of routerd is for the oldest queued package, and a message that is parsed gets
the next number. What any other event makes mipd send would belong to no message. -/
def handle [DecidableEq ρ] (net : ParcelNetwork ρ) (x : ρ) (event : MipStack.Event)
    (env : Env) : ParcelNetwork ρ :=
  let host := net.hosts x
  let outcome := host.server.branch event env
  let noMessage := net.messages.length
  match host.server.source event.fd with
  | .forwardConnection =>
    match event.data, host.tags with
    | _ :: _, tag :: rest => net.follow x outcome.server rest outcome.outputs tag
    | _, _ => net.settle x outcome.server host.tags outcome.outputs noMessage
  | .appConnection =>
    match readMessage (event.data.take maxMipMessageDataSize) with
    | .ok (some message) =>
      { net with messages := net.messages ++ [(x, message)] }.follow x outcome.server host.tags
        outcome.outputs net.messages.length
    | _ => net.settle x outcome.server host.tags outcome.outputs noMessage
  | _ => net.settle x outcome.server host.tags outcome.outputs noMessage

def perform [DecidableEq ρ] (net : ParcelNetwork ρ) : Action ρ → ParcelNetwork ρ
  | .startRun x now =>
    let (server, outputs) := (net.hosts x).server.startRun now
    net.settle x server (net.hosts x).tags outputs net.messages.length
  | .tick x clock =>
    let (server, outputs) := (net.hosts x).server.tick clock
    net.settle x server (net.hosts x).tags outputs net.messages.length
  | .receive x parcel pointer fd env => net.receive x parcel pointer fd env
  | .lose parcel =>
    { net with wire := net.wire.erase parcel, gone := net.gone ++ [parcel.tag] }
  | .handle x event env => net.handle x event env

/-- Any frames may arrive that are no transport packages. -/
def Enabled (net : ParcelNetwork ρ) : Action ρ → Prop
  | .receive x parcel _ fd _ =>
    parcel ∈ net.wire ∧ (net.hosts x).server.source fd = .rawSocket
  | .lose parcel => parcel ∈ net.wire
  | .handle x event _ => (net.hosts x).server.source event.fd = .rawSocket →
      (receivedHeader event.data).tra ≠ 3
  | _ => True

instance (net : ParcelNetwork ρ) (action : Action ρ) : Decidable (net.Enabled action) :=
  match action with
  | .startRun _ _ => isTrue trivial
  | .tick _ _ => isTrue trivial
  | .receive _ _ _ _ _ => inferInstanceAs (Decidable (_ ∧ _))
  | .lose _ => inferInstanceAs (Decidable (_ ∈ _))
  | .handle _ _ _ => inferInstanceAs (Decidable (_ → _))

def Step [DecidableEq ρ] (net : ParcelNetwork ρ) (action : Action ρ)
    (net' : ParcelNetwork ρ) : Prop :=
  net.Enabled action ∧ net' = net.perform action

end ParcelNetwork

end MipStack
