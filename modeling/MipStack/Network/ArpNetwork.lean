import MipStack.Mipd.ArpAnswers
import MipStack.Network.TransportNetwork

/-! mipds on links that exchange ARP requests and responses, and what their caches
say about their neighbours. -/
namespace MipStack
open Execution MipArpCache MIPDServer

/-- Any links, and what an interface takes from its link. A socket has the address of its
interface twice. -/
structure ArpSetup (H L : Type*) where
  config : H → MipdConfig
  link : H → ℤ → L
  hears : H → ℤ → EtherFrame → Prop
  address_ne : ∀ h, ∀ record ∈ (config h).iTable.interfaces, record.mipAddress ≠ 255
  interface_eq : ∀ h, ∀ record ∈ (config h).iTable.interfaces, record.interface = record.sllAddr

/-- A package that was sent on a socket. -/
structure ArpFrame (H : Type*) where
  sender : H
  socket : ℤ
  package : MIPPackage

/-- Nothing is taken off the links: a frame may arrive at any time, more than once or
never. -/
structure ArpNetwork (H : Type*) where
  servers : H → MIPDServer
  frames : List (ArpFrame H)

namespace ArpSetup

variable {H L : Type*}

/-- Two mipds with interfaces on one link. -/
structure Neighbours (setup : ArpSetup H L) where
  asking : H
  answering : H
  ne : asking ≠ answering
  a : InterfaceRecord
  a_mem : a ∈ (setup.config asking).iTable.interfaces
  fd : ℤ
  b : InterfaceRecord
  b_eq : (setup.config answering).iTable.recordForSocket fd = some b
  link_eq : setup.link answering fd = setup.link asking a.rawSocket

/-- The entry has the address of the neighbour's interface on the link of its socket,
which is not an address of the mipd itself. -/
structure Truthful (setup : ArpSetup H L) (h : H) (entry : MipArpCacheEntry) : Prop where
  neighbour : ∃ h', h' ≠ h ∧ ∃ record ∈ (setup.config h').iTable.interfaces,
    setup.link h' record.rawSocket = setup.link h entry.srcSocket ∧
    record.mipAddress = entry.mipAddress ∧ record.interface = entry.dstInterface
  others : ∀ record ∈ (setup.config h).iTable.interfaces, record.interface ≠ entry.dstInterface

end ArpSetup

namespace ArpNetwork

variable {H L : Type*}

def server (config : MipdConfig) : MIPDServer :=
  MIPDServer.create config.appSocket config.routeSocket config.forwardSocket config.iTable
    config.cacheUpdateFreqMilli

def start (setup : ArpSetup H L) : ArpNetwork H :=
  { servers := fun h => server (setup.config h)
    frames := [] }

inductive Action (H : Type*) where
  | startRun (h : H) (now : ℤ)
  | tick (h : H) (clock : Clock)
  /-- `pointer` is the address that is sent along with the frame. -/
  | receive (h : H) (fd : ℤ) (frame : ArpFrame H) (pointer : PointerBytes) (env : Env)

def framesOf (h : H) (outputs : List Output) : List (ArpFrame H) :=
  outputs.filterMap fun
    | .sendto socket package => some ⟨h, socket, package⟩
    | _ => none

def update [DecidableEq H] (net : ArpNetwork H) (h : H) (server : MIPDServer)
    (outputs : List Output) : ArpNetwork H :=
  { servers := Function.update net.servers h server
    frames := net.frames ++ framesOf h outputs }

def perform [DecidableEq H] (net : ArpNetwork H) : Action H → ArpNetwork H
  | .startRun h now =>
    net.update h ((net.servers h).startRun now).1 ((net.servers h).startRun now).2
  | .tick h clock => net.update h ((net.servers h).tick clock).1 ((net.servers h).tick clock).2
  | .receive h fd frame pointer env =>
    let o := (net.servers h).handleRawSocketFrame fd (sendtoRawMipPackage frame.package pointer) env
    net.update h o.server o.outputs

/-- A frame arrives at the other interfaces on its link that take it. -/
def Enabled (setup : ArpSetup H L) (net : ArpNetwork H) : Action H → Prop
  | .receive h fd frame _ _ => frame ∈ net.frames ∧ (h, fd) ≠ (frame.sender, frame.socket) ∧
      (∃ record ∈ (setup.config h).iTable.interfaces, record.rawSocket = fd) ∧
      setup.link h fd = setup.link frame.sender frame.socket ∧
      setup.hears h fd frame.package.eFrame
  | _ => True

def Step [DecidableEq H] (setup : ArpSetup H L) (net : ArpNetwork H) (action : Action H)
    (net' : ArpNetwork H) : Prop :=
  Enabled setup net action ∧ net' = net.perform action

def CachesTruthful (setup : ArpSetup H L) (net : ArpNetwork H) : Prop :=
  ∀ h, ∀ entry ∈ (net.servers h).cache.entries, setup.Truthful h entry

/-- No request or response is received. -/
def Action.Silent : Action H → Prop
  | .receive _ _ _ _ _ => False
  | _ => True

/-- An ARP package under the address of an interface of its sender. -/
structure Sent (setup : ArpSetup H L) (frame : ArpFrame H) : Prop where
  isArp : IsArp frame.package
  address : ∃ record ∈ (setup.config frame.sender).iTable.interfaces,
    frame.package.mHeader.srcAddr = record.mipAddress

/-- All packages on the links are ARP packages, and all cached addresses are the mipd's
own. -/
structure Reached (setup : ArpSetup H L) (net : ArpNetwork H) : Prop where
  iTable : ∀ h, (net.servers h).iTable = (setup.config h).iTable
  frames : ∀ frame ∈ net.frames, Sent setup frame
  entries : ∀ h, ∀ entry ∈ (net.servers h).cache.entries,
    ∃ record ∈ (setup.config h).iTable.interfaces, record.sllAddr = entry.dstInterface

variable {setup : ArpSetup H L} {net net' : ArpNetwork H} {action : Action H} {h : H}
  {entry : MipArpCacheEntry}

/-- No entry of a reached state is true: the address that is stored belongs to the host that
stores it. -/
theorem Reached.not_truthful (hReached : Reached setup net)
    (hMem : entry ∈ (net.servers h).cache.entries) : ¬ setup.Truthful h entry := by
  intro hTruthful
  obtain ⟨record, hRecord, hOwn⟩ := hReached.entries h entry hMem
  exact hTruthful.others record hRecord ((setup.interface_eq h record hRecord).trans hOwn)

/-- As every entry holds an address of the host itself, the caches are truthful exactly while they
are empty. -/
theorem Reached.truthful_iff (hReached : Reached setup net) :
    CachesTruthful setup net ↔ ∀ h, (net.servers h).cache.entries = [] := by
  constructor
  · intro hTruthful h
    refine List.eq_nil_iff_forall_not_mem.mpr fun entry hMem => ?_
    exact hReached.not_truthful hMem (hTruthful h entry hMem)
  · intro hEmpty h entry hMem
    rw [hEmpty h] at hMem
    exact absurd hMem List.not_mem_nil

theorem Reached.start (setup : ArpSetup H L) : Reached setup (start setup) :=
  ⟨fun _ => rfl, fun _ hMem => absurd hMem List.not_mem_nil,
    fun _ _ hMem => absurd hMem List.not_mem_nil⟩

theorem mem_framesOf {outputs : List Output} {frame : ArpFrame H} :
    frame ∈ framesOf h outputs ↔
      frame.sender = h ∧ .sendto frame.socket frame.package ∈ outputs := by
  obtain ⟨sender, socket, package⟩ := frame
  simp only [framesOf, List.mem_filterMap]
  constructor
  · rintro ⟨output, hMem, hEq⟩
    cases output with
    | sendto s p =>
        cases hEq
        exact ⟨rfl, hMem⟩
    | _ => cases hEq
  · rintro ⟨rfl, hMem⟩
    exact ⟨_, hMem, rfl⟩

theorem Reached.sent_requestOf (hReached : Reached setup net) {record : InterfaceRecord}
    (hMem : record ∈ (net.servers h).iTable.interfaces) (socket : ℤ) :
    Sent setup ⟨h, socket, requestOf record⟩ := by
  rw [hReached.iTable h] at hMem
  exact ⟨isArp_requestOf record, record, hMem, rfl⟩

/-- The record that handles what arrives on a socket of the table. -/
theorem Reached.exists_record (hReached : Reached setup net) {fd : ℤ}
    (hSocket : ∃ record ∈ (setup.config h).iTable.interfaces, record.rawSocket = fd) :
    ∃ record ∈ (setup.config h).iTable.interfaces,
      (net.servers h).iTable.recordForSocket fd = some record := by
  obtain ⟨other, hMem, -⟩ := hSocket
  rw [hReached.iTable h]
  exact InterfaceTable.exists_recordForSocket (List.ne_nil_of_mem hMem) fd

theorem Sent.address_ne {frame : ArpFrame H} (hSent : Sent setup frame) :
    frame.package.mHeader.srcAddr ≠ 255 := by
  obtain ⟨record, hRecord, hAddress⟩ := hSent.address
  rw [hAddress]
  exact setup.address_ne frame.sender record hRecord

variable [DecidableEq H]

@[simp] theorem servers_update_self (server : MIPDServer) (outputs : List Output) :
    (net.update h server outputs).servers h = server := Function.update_self _ _ _

theorem servers_update_of_ne {x : H} (hx : x ≠ h) (server : MIPDServer) (outputs : List Output) :
    (net.update h server outputs).servers x = net.servers x := Function.update_of_ne hx _ _

/-- One host takes a step and sends something, the others stay as they are. -/
theorem Reached.update (hReached : Reached setup net) {server : MIPDServer}
    {outputs : List Output} (hTable : server.iTable = (net.servers h).iTable)
    (hFrames : ∀ socket package, .sendto socket package ∈ outputs →
      Sent setup ⟨h, socket, package⟩)
    (hEntries : ∀ entry ∈ server.cache.entries,
      ∃ record ∈ (setup.config h).iTable.interfaces, record.sllAddr = entry.dstInterface) :
    Reached setup (net.update h server outputs) := by
  refine ⟨fun x => ?_, fun frame hMem => ?_, fun x => ?_⟩
  · by_cases hx : x = h
    · subst hx
      rw [servers_update_self, hTable]
      exact hReached.iTable x
    · rw [servers_update_of_ne hx]
      exact hReached.iTable x
  · rcases List.mem_append.mp hMem with hOld | hNew
    · exact hReached.frames frame hOld
    · obtain ⟨rfl, hSent⟩ := mem_framesOf.mp hNew
      exact hFrames _ _ hSent
  · by_cases hx : x = h
    · subst hx
      rw [servers_update_self]
      exact hEntries
    · rw [servers_update_of_ne hx]
      exact hReached.entries x

/-- Requests for all interfaces are sent and no address is cached by it, at the start as well as
after a sweep. -/
theorem Reached.requests (hReached : Reached setup net) {server : MIPDServer}
    {outputs : List Output} (hTable : server.iTable = (net.servers h).iTable)
    (hEntries : server.cache.entries ⊆ (net.servers h).cache.entries)
    (hOutputs : ∀ output ∈ outputs, ∃ record ∈ (net.servers h).iTable.interfaces,
      output = .sendto record.rawSocket (requestOf record)) :
    Reached setup (net.update h server outputs) := by
  apply hReached.update hTable
  · intro socket package hMem
    obtain ⟨record, hRecord, hSent⟩ := hOutputs _ hMem
    obtain ⟨-, rfl⟩ := Output.sendto.inj hSent
    exact hReached.sent_requestOf hRecord socket
  · exact fun entry hMem => hReached.entries h entry (hEntries hMem)

/-- A request or response leaves an address of the mipd itself in its cache: the sender's is in
the frame header, which is not read. -/
theorem Reached.receive (hReached : Reached setup net) {fd : ℤ} {frame : ArpFrame H}
    {pointer : PointerBytes} {env : Env}
    (hEnabled : Enabled setup net (.receive h fd frame pointer env)) :
    Reached setup (net.perform (.receive h fd frame pointer env)) ∧
      ((net.servers h).cache.entries = [] →
        ((net.perform (.receive h fd frame pointer env)).servers h).cache.entries ≠ []) := by
  obtain ⟨hFrame, -, hSocket, -, -⟩ := hEnabled
  have hSent := hReached.frames frame hFrame
  obtain ⟨record, hRecord, hFound⟩ := hReached.exists_record hSocket
  have hServers : ((net.perform (.receive h fd frame pointer env)).servers h) =
      ((net.servers h).handleRawSocketFrame fd
        (sendtoRawMipPackage frame.package pointer) env).server := by
    rw [perform, servers_update_self]
  rw [hServers]
  rcases handleRawSocketFrame_arp_cases hFound hSent.isArp hSent.address_ne pointer env with
    ⟨hFull, hServer, hOutputs⟩ | ⟨cache, socket, hCache, hServer, hOutputs⟩
  · constructor
    · apply hReached.update (by rw [hServer])
      · rw [hOutputs]
        exact fun _ _ hMem => absurd hMem List.not_mem_nil
      · rw [hServer]
        exact hReached.entries h
    · intro hEmpty
      exact absurd (Or.inr (by rw [hEmpty]; decide)) hFull
  · obtain ⟨hNew, hEntries⟩ := mem_appendToCache hCache
    constructor
    · apply hReached.update (by rw [hServer])
      · intro socket package hMem
        obtain ⟨-, rfl⟩ := Output.sendto.inj (hOutputs _ hMem)
        exact ⟨⟨Or.inl rfl, rfl, rfl⟩, record, hRecord, rfl⟩
      · rw [hServer]
        intro entry hMem
        rcases hEntries entry hMem with hOld | rfl
        · exact hReached.entries h entry hOld
        · exact ⟨record, hRecord, rfl⟩
    · rw [hServer]
      exact fun _ => List.ne_nil_of_mem hNew

/-- The step lemma: whatever frames are received, in any order and as often as the network likes,
a cache only ever stores addresses of its own host. -/
theorem Reached.step (hReached : Reached setup net) (hStep : Step setup net action net') :
    Reached setup net' := by
  obtain ⟨hEnabled, rfl⟩ := hStep
  cases action with
  | startRun h now =>
      have hOutputs : ∀ output ∈ ((net.servers h).startRun now).2,
          ∃ record ∈ (net.servers h).iTable.interfaces,
            output = .sendto record.rawSocket (requestOf record) := by
        intro output hMem
        obtain ⟨record, hRecord, rfl⟩ := List.mem_map.mp hMem
        exact ⟨record, hRecord, rfl⟩
      exact hReached.requests rfl (List.Subset.refl _) hOutputs
  | tick h clock =>
      obtain ⟨hEntries, hOutputs⟩ := updateArpCache_spec (net.servers h).iTable
        (net.servers h).cache clock
      exact hReached.requests rfl hEntries hOutputs
  | receive h fd frame pointer env => exact (hReached.receive hEnabled).1

/-- In every reached state all cached addresses are the mipd's own. -/
theorem reached_of_trace {actions : List (Action H)}
    (run : Trace (Step setup) (start setup) actions net) : Reached setup net :=
  run.invariant (Reached.start setup) fun _ _ _ hReached hStep => hReached.step hStep

/-- No cache gets an entry by sending requests or by sweeping. -/
theorem cache_perform_of_silent (hSilent : action.Silent)
    (hEmpty : ∀ h, (net.servers h).cache.entries = []) (h : H) :
    ((net.perform action).servers h).cache.entries = [] := by
  have hUpdate : ∀ (x : H) (server : MIPDServer) (outputs : List Output),
      server.cache.entries = [] → ((net.update x server outputs).servers h).cache.entries = [] := by
    intro x server outputs hServer
    by_cases hx : h = x
    · subst hx
      rwa [servers_update_self]
    · rw [servers_update_of_ne hx]
      exact hEmpty h
  cases action with
  | startRun x now => exact hUpdate x _ _ (hEmpty x)
  | tick x clock =>
      apply hUpdate
      obtain ⟨hEntries, -⟩ := updateArpCache_spec (net.servers x).iTable
        (net.servers x).cache clock
      rw [hEmpty x] at hEntries
      exact List.subset_nil.mp hEntries
  | receive x fd frame pointer env => exact hSilent.elim

/-- With empty caches a step leaves true caches exactly if nothing is received, as the first frame
already brings a wrong entry. -/
theorem cachesTruthful_iff_silent (hReached : Reached setup net)
    (hEmpty : ∀ h, (net.servers h).cache.entries = []) (hStep : Step setup net action net') :
    CachesTruthful setup net' ↔ action.Silent := by
  rw [(hReached.step hStep).truthful_iff]
  obtain ⟨hEnabled, rfl⟩ := hStep
  constructor
  · intro hStill
    cases action with
    | startRun h now => trivial
    | tick h clock => trivial
    | receive h fd frame pointer env =>
        exact (hReached.receive hEnabled).2 (hEmpty h) (hStill h)
  · exact fun hSilent => cache_perform_of_silent hSilent hEmpty

/-- An answer is right exactly if the bytes of the two pointers are the addresses, and
the caches are true exactly in the runs in which nothing is received. -/
theorem arp_truth_iff (setup : ArpSetup H L) :
    (∀ (n : setup.Neighbours) (cache : MipArpCache) (pointer : PointerBytes) (env : Env),
      AnswersRequest ({ server (setup.config n.answering) with cache }.handleRawSocketFrame n.fd
          (sendtoRawMipPackage (requestOf n.a) pointer) env) n.a n.b ↔
        cache.HasSlotFor n.a.mipAddress ∧
          ByteLayout.field 6 0 (env.pointers 0).toList = n.b.interface ∧
          ByteLayout.field 6 0 (env.pointers 1).toList = n.a.interface) ∧
      ∀ (actions : List (Action H)) (net : ArpNetwork H),
        Trace (Guarded (Step setup) fun _ _ net' => CachesTruthful setup net')
            (start setup) actions net ↔
          Trace (Guarded (Step setup) fun _ action _ => action.Silent)
            (start setup) actions net := by
  constructor
  · intro n cache pointer env
    exact answersRequest_iff n.b_eq (setup.address_ne n.asking n.a n.a_mem) pointer env
  · intro actions net
    apply Trace.guarded_iff
      (I := fun net => Reached setup net ∧ ∀ h, (net.servers h).cache.entries = [])
      ⟨Reached.start setup, fun _ => rfl⟩
    · rintro s action t ⟨hReached, hEmpty⟩ hStep hSilent
      refine ⟨hReached.step hStep, ?_⟩
      rw [hStep.2]
      exact cache_perform_of_silent hSilent hEmpty
    · rintro s action t ⟨hReached, hEmpty⟩ hStep
      exact cachesTruthful_iff_silent hReached hEmpty hStep

/-- The interfaces of two mipds. -/
def pairRecord (h : Bool) : InterfaceRecord :=
  { interface := #v[2, 0, 0, 0, 0, if h then 2 else 1]
    sllAddr := #v[2, 0, 0, 0, 0, if h then 2 else 1]
    mipAddress := if h then 20 else 10
    rawSocket := 6 }

/-- They are on one link and take all frames from it. -/
def pair : ArpSetup Bool Unit :=
  { config := fun h =>
      { appSocket := ⟨3, -1⟩
        routeSocket := ⟨4, -1⟩
        forwardSocket := ⟨5, -1⟩
        iTable := ⟨[pairRecord h]⟩
        cacheUpdateFreqMilli := 10000 }
    link := fun _ _ => ()
    hears := fun _ _ _ => True
    address_ne := by
      intro h record hMem
      obtain rfl := List.mem_singleton.mp hMem
      cases h <;> decide
    interface_eq := by
      intro h record hMem
      obtain rfl := List.mem_singleton.mp hMem
      rfl }

/-- The mipd with address 20 answers the first request of the one with address 10 with a
frame to the bytes of a pointer, and caches a wrong address for it. -/
theorem first_request_is_answered_wrong :
    let frame : ArpFrame Bool := ⟨false, 6, requestOf (pairRecord false)⟩
    let env : Env := ⟨fun _ => 0, fun _ => #v[0, 0x42, 0, 0, 0xfc, 0x7f, 0, 0], fun _ => 0, false⟩
    (∃ net, Trace (Step pair) (start pair)
        [.startRun false 0, .receive true 6 frame (Vector.replicate 8 0) env] net ∧
      ¬ CachesTruthful pair net) ∧
      ¬ AnswersRequest ((server (pair.config true)).handleRawSocketFrame 6
        (sendtoRawMipPackage frame.package (Vector.replicate 8 0)) env)
        (pairRecord false) (pairRecord true) := by
  intro frame env
  have hEnabled : Enabled pair ((start pair).perform (.startRun false 0))
      (.receive true 6 frame (Vector.replicate 8 0) env) :=
    ⟨List.mem_singleton.mpr rfl, by decide, ⟨pairRecord true, List.mem_singleton.mpr rfl, rfl⟩,
      rfl, trivial⟩
  have hFirst : Trace (Step pair) (start pair) [.startRun false 0]
      ((start pair).perform (.startRun false 0)) := Trace.single ⟨trivial, rfl⟩
  constructor
  · refine ⟨_, Trace.snoc hFirst ⟨hEnabled, rfl⟩, fun hTruthful => ?_⟩
    obtain ⟨hReached, hCached⟩ := (reached_of_trace hFirst).receive hEnabled
    exact hCached rfl (hReached.truthful_iff.mp hTruthful true)
  · intro hAnswers
    have hRecord : (server (pair.config true)).iTable.recordForSocket 6 =
        some (pairRecord true) := rfl
    obtain ⟨-, hSource, -⟩ := (answersRequest_iff hRecord (by decide) (Vector.replicate 8 0)
      env).mp hAnswers
    exact absurd hSource (by decide)

end ArpNetwork

end MipStack
