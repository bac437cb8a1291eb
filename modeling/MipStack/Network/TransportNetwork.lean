import MipStack.Mipd.Handlers
import MipStack.Library.Execution

/-! A network of mipds as transport packages see it. Whatever the hosts, their
routing daemons and their applications do, packages are only made, queued, sent on
and received by mipd. -/
namespace MipStack
open Execution

/-- One time that a transport package is put on the wire: the package mipd had
received, none if it was made for a local message, and the package it sent. -/
structure Hop where
  received : Option MIPPackage
  sent : MIPPackage
  deriving DecidableEq

/-- A package on the wire. Its earlier hops, latest first, are recorded beside it
and never read. -/
structure Frame where
  package : MIPPackage
  hops : List Hop
  deriving DecidableEq

/-- How a package came into a forward queue. -/
inductive Origin where
  | message
  | frame (received : MIPPackage) (hops : List Hop)
  deriving DecidableEq

/-- The hops of a package from this origin once it is sent. -/
def Origin.hops (sent : MIPPackage) : Origin → List Hop
  | .message => [⟨none, sent⟩]
  | .frame received hops => ⟨some received, sent⟩ :: hops

/-- `origins` are those of the queued packages, in the order of the queue. -/
structure Host where
  server : MIPDServer
  origins : List Origin

/-- What mipd is started with. -/
structure MipdConfig where
  appSocket : LocalSocket
  routeSocket : LocalSocket
  forwardSocket : LocalSocket
  iTable : InterfaceTable
  cacheUpdateFreqMilli : ℤ

/-- Nothing is taken off the wire: a frame may arrive at any host, at any time,
more than once or never. -/
structure TransportNetwork (ρ : Type*) where
  hosts : ρ → Host
  frames : List Frame

namespace TransportNetwork

inductive Action (ρ : Type*) where
  | startRun (x : ρ) (now : ℤ)
  | tick (x : ρ) (clock : Clock)
  /-- `pointer` is the address that is sent along with the frame. -/
  | receive (x : ρ) (frame : Frame) (pointer : PointerBytes) (fd : ℤ) (env : Env)
  | handle (x : ρ) (event : MipStack.Event) (env : Env)

variable {ρ : Type*}

def start (config : ρ → MipdConfig) : TransportNetwork ρ :=
  { hosts := fun x =>
      { server := MIPDServer.create (config x).appSocket (config x).routeSocket
          (config x).forwardSocket (config x).iTable (config x).cacheUpdateFreqMilli
        origins := [] }
    frames := [] }

/-- The frames handed to raw sockets. -/
def framesOf (outputs : List Output) (hops : MIPPackage → List Hop) : List Frame :=
  outputs.filterMap fun
    | .sendto _ package => some ⟨package, hops package⟩
    | _ => none

def update [DecidableEq ρ] (net : TransportNetwork ρ) (x : ρ) (host : Host)
    (frames : List Frame) : TransportNetwork ρ :=
  { hosts := Function.update net.hosts x host
    frames := net.frames ++ frames }

/-- A frame is handled. What is queued for it was received with its hops. -/
def receive [DecidableEq ρ] (net : TransportNetwork ρ) (x : ρ) (frame : Frame)
    (pointer : PointerBytes) (fd : ℤ) (env : Env) : TransportNetwork ρ :=
  let bytes := sendtoRawMipPackage frame.package pointer
  let outcome := (net.hosts x).server.handleRawSocketFrame fd bytes env
  let origins := (MIPDServer.receivePackage bytes env).elim [] fun received =>
    outcome.requests.map fun _ => Origin.frame received frame.hops
  net.update x ⟨outcome.server, (net.hosts x).origins ++ origins⟩
    (framesOf outcome.outputs fun _ => [])

/-- Any other event is handled. An answer sends the oldest queued package on, and
a message of the application makes a new one. -/
def handle [DecidableEq ρ] (net : TransportNetwork ρ) (x : ρ) (event : MipStack.Event)
    (env : Env) : TransportNetwork ρ :=
  let host := net.hosts x
  let outcome := host.server.branch event env
  match host.server.source event.fd with
  | .forwardConnection =>
    if event.data = [] then net.update x ⟨outcome.server, host.origins⟩ []
    else net.update x ⟨outcome.server, host.origins.tail⟩
      (framesOf outcome.outputs fun sent => host.origins.head?.elim [] (Origin.hops sent))
  | .appConnection =>
    net.update x ⟨outcome.server, host.origins ++ outcome.requests.map fun _ => Origin.message⟩
      (framesOf outcome.outputs fun sent => Origin.message.hops sent)
  | _ => net.update x ⟨outcome.server, host.origins⟩ (framesOf outcome.outputs fun _ => [])

def perform [DecidableEq ρ] (net : TransportNetwork ρ) : Action ρ → TransportNetwork ρ
  | .startRun x now =>
    let (server, outputs) := (net.hosts x).server.startRun now
    net.update x ⟨server, (net.hosts x).origins⟩ (framesOf outputs fun _ => [])
  | .tick x clock =>
    let (server, outputs) := (net.hosts x).server.tick clock
    net.update x ⟨server, (net.hosts x).origins⟩ (framesOf outputs fun _ => [])
  | .receive x frame pointer fd env => net.receive x frame pointer fd env
  | .handle x event env => net.handle x event env

/-- Only frames that were sent arrive on raw sockets; what is read elsewhere, the
answers of routerd among it, is any bytes. -/
def Enabled (net : TransportNetwork ρ) : Action ρ → Prop
  | .receive x frame _ fd _ =>
    frame ∈ net.frames ∧ (net.hosts x).server.source fd = .rawSocket
  | .handle x event _ => (net.hosts x).server.source event.fd ≠ .rawSocket
  | _ => True

instance (net : TransportNetwork ρ) (action : Action ρ) : Decidable (net.Enabled action) :=
  match action with
  | .startRun _ _ => isTrue trivial
  | .tick _ _ => isTrue trivial
  | .receive _ _ _ _ _ => inferInstanceAs (Decidable (_ ∧ _))
  | .handle _ _ _ => inferInstanceAs (Decidable (_ ≠ _))

def Step [DecidableEq ρ] (net : TransportNetwork ρ) (action : Action ρ)
    (net' : TransportNetwork ρ) : Prop :=
  net.Enabled action ∧ net' = net.perform action

end TransportNetwork

end MipStack
