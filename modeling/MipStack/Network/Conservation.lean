import MipStack.Library.Placement
import MipStack.Network.MessageSteps

/-! Where the messages are in a run of a network of mipds, and what is left of them there. -/
namespace MipStack
open Execution MIPDServer

/-- The package carries the message since its host put it on a wire. -/
def Underway (iTable : InterfaceTable) (message : MIPDMessage) (package : MIPPackage) : Prop :=
  ∃ record ∈ iTable.interfaces, ∃ first,
    MadeOf message record.mipAddress first ∧ SameCargo first package

namespace ParcelNetwork

/-- The claim about the message with this number and the host that sent it. -/
def OfMessage {ρ : Type*} (messages : List (ρ × MIPDMessage)) (tag : ℕ)
    (claim : ρ → MIPDMessage → Prop) : Prop :=
  ∃ sender message, messages[tag]? = some (sender, message) ∧ claim sender message

/-- The package waits at `x` to be put on a wire, for the first time or again. -/
def InQueue {ρ : Type*} (config : ρ → MipdConfig) (x : ρ) (package : MIPPackage) (sender : ρ)
    (message : MIPDMessage) : Prop :=
  sender = x ∧ MadeOf message 255 package ∨ Underway (config sender).iTable message package

/-- The application at `x` was given what is left of the message. -/
def AtApp {ρ : Type*} (config : ρ → MipdConfig) (x : ρ) (bytes : List UInt8) (sender : ρ)
    (message : MIPDMessage) : Prop :=
  ∃ record ∈ (config sender).iTable.interfaces,
    Receives (config x).iTable message record.mipAddress bytes

/-- Every package carries the message whose number it has, and so does what the applications
are given. -/
structure Truthful {ρ : Type*} (config : ρ → MipdConfig) (net : ParcelNetwork ρ) : Prop where
  iTable : ∀ x, (net.hosts x).server.iTable = (config x).iTable
  wire : ∀ parcel ∈ net.wire, OfMessage net.messages parcel.tag
    fun sender message => Underway (config sender).iTable message parcel.package
  queues : ∀ x, List.Forall₂ (fun package tag => OfMessage net.messages tag
    (InQueue config x package)) (net.hosts x).server.queued (net.hosts x).tags
  given : ∀ x, ∀ entry ∈ (net.hosts x).given,
    OfMessage net.messages entry.1 (AtApp config x entry.2)

/-- What comes out at `x` is about the message with this number. -/
def About {ρ : Type*} (config : ρ → MipdConfig) (messages : List (ρ × MIPDMessage)) (x : ρ)
    (tag : ℕ) (outputs : List Output) : Prop :=
  Yields (fun package => OfMessage messages tag (InQueue config x package))
    (fun package => OfMessage messages tag
      fun sender message => Underway (config sender).iTable message package)
    (fun bytes => OfMessage messages tag (AtApp config x bytes)) outputs

/-- Every message is at one place. -/
def Placed {ρ : Type*} (net : ParcelNetwork ρ) : Prop :=
  ∃ places : List (Place ρ), places.length = net.messages.length ∧
    Placement.Lists net.contents places

variable {ρ : Type*} {config : ρ → MipdConfig} {net : ParcelNetwork ρ} {x : ρ}
  {server : MIPDServer} {tags : List ℕ} {outputs : List Output} {tag : ℕ}
  {asked sent : MIPPackage → Prop} {given : List UInt8 → Prop} {places : List (Place ρ)}
  {messages : List (ρ × MIPDMessage)} {claim : ρ → MIPDMessage → Prop} {pointer : PointerBytes}
  {fd : ℤ} {env : Env} {parcel : Parcel}

/-- Later messages have other numbers, so what is known of a number stays true. -/
theorem OfMessage.append (h : OfMessage messages tag claim) (later : List (ρ × MIPDMessage)) :
    OfMessage (messages ++ later) tag claim := by
  obtain ⟨sender, message, hMessage, hHolds⟩ := h
  obtain ⟨hLt, -⟩ := List.getElem?_eq_some_iff.mp hMessage
  exact ⟨sender, message, by rw [List.getElem?_append_left hLt, hMessage], hHolds⟩

theorem Truthful.start (config : ρ → MipdConfig) : Truthful config (start config) := by
  refine ⟨fun _ => rfl, fun parcel hMem => ?_, fun _ => List.Forall₂.nil, fun _ entry hMem => ?_⟩
  · cases hMem
  · cases hMem

theorem Placed.start (config : ρ → MipdConfig) : Placed (start config) := by
  have hContents : (ParcelNetwork.start config).contents = fun _ => [] := by
    funext place
    cases place with
    | wire => rfl
    | queue x => rfl
    | app x => rfl
    | gone => rfl
  exact ⟨[], rfl, hContents ▸ Placement.Lists.nil⟩

theorem Truthful.remove (h : Truthful config net) (parcel : Parcel) (gone : List ℕ) :
    Truthful config { net with wire := net.wire.erase parcel, gone } :=
  ⟨h.iTable, fun other hMem => h.wire other (List.mem_of_mem_erase hMem), h.queues, h.given⟩

theorem Truthful.append (h : Truthful config net) (later : List (ρ × MIPDMessage)) :
    Truthful config { net with messages := net.messages ++ later } :=
  ⟨h.iTable, fun parcel hMem => (h.wire parcel hMem).append later,
    fun x => (h.queues x).imp fun _ _ hQueued => hQueued.append later,
    fun x entry hMem => (h.given x entry hMem).append later⟩

/-- The next message is at no place yet: its number is the count of those before. -/
theorem Placed.fresh (h : Placed net) (sent : ρ × MIPDMessage) : ∃ places : List (Place ρ),
    Placement.Lifted net.contents places net.messages.length ∧
      net.messages.length < places.length ∧
      places.length = (net.messages ++ [sent]).length := by
  obtain ⟨places, hLength, hLists⟩ := h
  refine ⟨places ++ [.gone], hLength ▸ hLists.fresh .gone, ?_, ?_⟩
  · rw [List.length_append, hLength]
    exact Nat.lt_succ_self _
  · rw [List.length_append, hLength, List.length_append]
    rfl

/-- The message of a package on the wire is taken from there before it is put anywhere else, so it
is never at two places. -/
theorem Placed.pick (h : Placed net) {parcel : Parcel} (hMem : parcel ∈ net.wire) :
    ∃ places : List (Place ρ), places.length = net.messages.length ∧
      Placement.Lifted { net with wire := net.wire.erase parcel }.contents places parcel.tag ∧
        parcel.tag < places.length := by
  obtain ⟨places, hLength, hLists⟩ := h
  have hWire : (net.contents .wire).Perm
      (parcel.tag :: { net with wire := net.wire.erase parcel }.contents .wire) :=
    (List.perm_cons_erase hMem).map Parcel.tag
  refine ⟨places, hLength, hLists.take hWire fun place hPlace => ?_⟩
  cases place with
  | wire => exact absurd rfl hPlace
  | _ => rfl

/-- A package that arrives is about the message that it carried on the wire, also where the
receive buffer had no room for all of it. -/
theorem Truthful.about (h : Truthful config net)
    (hAddresses : ∀ x, ∀ record ∈ (config x).iTable.interfaces, record.mipAddress ≠ 255)
    (hMem : parcel ∈ net.wire) (hSource : (net.hosts x).server.source fd = .rawSocket)
    (pointer : PointerBytes) (env : Env) :
    About config net.messages x parcel.tag ((net.hosts x).server.branch
      ⟨fd, sendtoRawMipPackage parcel.package pointer, -1⟩ env).outputs := by
  obtain ⟨sender, message, hMessage, record, hRecord, first, hMade, hSame⟩ := h.wire parcel hMem
  have hFirst := hMade.transportable (hAddresses sender record hRecord)
  refine (receive_yields hMade hFirst hSame hSource pointer env).mono ?_ ?_ ?_
  · intro package hPackage
    exact ⟨sender, message, hMessage, Or.inr ⟨record, hRecord, first, hMade, hPackage⟩⟩
  · exact fun _ hFalse => hFalse.elim
  · intro bytes hBytes
    rw [h.iTable x] at hBytes
    exact ⟨sender, message, hMessage, record, hRecord, hBytes⟩

theorem Placed.lose (h : Placed net) (hMem : parcel ∈ net.wire) :
    Placed { net with wire := net.wire.erase parcel, gone := net.gone ++ [parcel.tag] } := by
  obtain ⟨places, hLength, hLifted, hTag⟩ := h.pick hMem
  refine ⟨places.set parcel.tag .gone, by rw [List.length_set, hLength],
    hLifted.put hTag rfl fun place hPlace => ?_⟩
  cases place with
  | gone => exact absurd rfl hPlace
  | _ => rfl

theorem InQueue.tra {sender : ρ} {message : MIPDMessage} {waiting : MIPPackage}
    (h : InQueue config x waiting sender message) : waiting.mHeader.tra = 3 := by
  rcases h with ⟨-, hMade⟩ | ⟨record, -, first, hMade, hSame⟩
  · rw [hMade.header]
    rfl
  · rw [hSame.header, hMade.header]
    rfl

/-- A package that is sent on is about the message that it waited for, under the number that
waited with it. -/
theorem Truthful.sentOn (h : Truthful config net)
    (hAddresses : ∀ x, ∀ record ∈ (config x).iTable.interfaces, record.mipAddress ≠ 255)
    {waiting package : MIPPackage} (hQueue : OfMessage net.messages tag (InQueue config x waiting))
    (hSent : SentOn (net.hosts x).server.iTable waiting package) :
    OfMessage net.messages tag
      fun sender message => Underway (config sender).iTable message package := by
  rw [h.iTable x] at hSent
  obtain ⟨sender, message, hMessage, hWaiting⟩ := hQueue
  refine ⟨sender, message, hMessage, ?_⟩
  rcases hWaiting with ⟨rfl, hMade⟩ | ⟨record, hRecord, first, hMade, hSame⟩
  · obtain ⟨eFrame, record, hRecord, rfl⟩ := hSent
    refine ⟨record, hRecord, _, ⟨?_, ?_⟩, SameCargo.refl _⟩
    · simp only [hMade.header]
      rfl
    · exact hMade.message
  · have hFirst := hMade.transportable (hAddresses sender record hRecord)
    have hOn := (SentOn.sameCargo hSent (hFirst.of_sameCargo hSame).src).2
    exact ⟨record, hRecord, first, hMade, hSame.trans hOn⟩

variable [DecidableEq ρ]

/-- One host takes a step; what comes of it is about the message with this number. -/
theorem Truthful.settle (h : Truthful config net) (old : List MIPPackage)
    (hTable : server.iTable = (net.hosts x).server.iTable)
    (hQueued : server.queued = old ++
      (outputs.filterMap Output.forwardRequest).map ForwardRequest.package)
    (hOld : List.Forall₂ (fun package tag => OfMessage net.messages tag
      (InQueue config x package)) old tags)
    (hAsked : ∀ request ∈ outputs.filterMap Output.forwardRequest,
      OfMessage net.messages tag (InQueue config x request.package))
    (hSent : ∀ package ∈ outputs.filterMap Output.transport, OfMessage net.messages tag
      fun sender message => Underway (config sender).iTable message package)
    (hGiven : ∀ bytes ∈ outputs.filterMap Output.appBytes,
      OfMessage net.messages tag (AtApp config x bytes)) :
    Truthful config (net.settle x server tags outputs tag) := by
  refine ⟨fun y => ?_, fun parcel hMem => ?_, fun y => ?_, fun y entry hMem => ?_⟩
  · by_cases hy : y = x
    · subst hy
      simpa [ParcelNetwork.settle, hTable] using h.iTable y
    · simpa [ParcelNetwork.settle, Function.update_of_ne hy] using h.iTable y
  · rcases List.mem_append.mp hMem with hBefore | hNew
    · exact h.wire parcel hBefore
    · obtain ⟨package, hPackage, rfl⟩ := List.mem_map.mp hNew
      exact hSent package hPackage
  · by_cases hy : y = x
    · subst hy
      simp only [ParcelNetwork.settle, Function.update_self, hQueued]
      apply List.rel_append hOld
      rw [List.forall₂_map_left_iff, List.forall₂_map_right_iff, List.forall₂_same]
      exact hAsked
    · simpa [ParcelNetwork.settle, Function.update_of_ne hy] using h.queues y
  · by_cases hy : y = x
    · subst hy
      simp only [ParcelNetwork.settle, Function.update_self] at hMem
      rcases List.mem_append.mp hMem with hBefore | hNew
      · exact h.given y entry hBefore
      · obtain ⟨bytes, hBytes, rfl⟩ := List.mem_map.mp hNew
        exact hGiven bytes hBytes
    · simp only [ParcelNetwork.settle, Function.update_of_ne hy] at hMem
      exact h.given y entry hMem

/-- Nothing that a silent step does is about a message. -/
theorem Truthful.silent (h : Truthful config net) (hSilent : Silent outputs)
    (hTable : server.iTable = (net.hosts x).server.iTable)
    (hQueued : server.queued = (net.hosts x).server.queued) :
    Truthful config (net.settle x server (net.hosts x).tags outputs tag) := by
  apply h.settle (net.hosts x).server.queued hTable
  · rw [hSilent.requests, hQueued, List.map_nil, List.append_nil]
  · exact h.queues x
  · simp [hSilent.requests]
  · simp [hSilent.packages]
  · simp [hSilent.given]

/-- What is made of one message is about this message: the handler is given nothing else. -/
theorem Truthful.follow (h : Truthful config net) (old : List MIPPackage)
    (hTable : server.iTable = (net.hosts x).server.iTable)
    (hQueued : server.queued = old ++
      (outputs.filterMap Output.forwardRequest).map ForwardRequest.package)
    (hOld : List.Forall₂ (fun package tag => OfMessage net.messages tag
      (InQueue config x package)) old tags)
    (hAbout : About config net.messages x tag outputs) :
    Truthful config (net.follow x server tags outputs tag) := by
  have hSettled : Truthful config (net.settle x server tags outputs tag) := by
    cases hAbout with
    | nothing => exact h.settle old hTable hQueued hOld (by simp) (by simp) (by simp)
    | asks hAsked =>
        refine h.settle old hTable hQueued hOld ?_ (by simp [Output.transport])
          (by simp [Output.appBytes])
        rintro request hMem
        obtain rfl := List.mem_singleton.mp hMem
        exact hAsked
    | @sends socket package hTra hSent =>
        refine h.settle old hTable hQueued hOld (by simp [Output.forwardRequest]) ?_
          (by simp [Output.appBytes])
        simpa [Output.transport, hTra] using hSent
    | gives hGiven =>
        refine h.settle old hTable hQueued hOld (by simp [Output.forwardRequest])
          (by simp [Output.transport]) ?_
        simpa [Output.appBytes] using hGiven
  unfold ParcelNetwork.follow
  simp only
  split_ifs
  · exact ⟨hSettled.iTable, hSettled.wire, hSettled.queues, hSettled.given⟩
  · exact hSettled

/-- How many outputs of the host `x` put something there. -/
def arrivals (x : ρ) (outputs : List Output) : Place ρ → ℕ
  | .wire => (outputs.filterMap Output.transport).length
  | .queue y => if y = x then (outputs.filterMap Output.forwardRequest).length else 0
  | .app y => if y = x then (outputs.filterMap Output.appBytes).length else 0
  | .gone => 0

/-- What a host did puts its packages to their new places: one more in the queue, on the wire or
at the application. -/
theorem contents_settle (place : Place ρ) :
    (net.settle x server tags outputs tag).contents place =
      Function.update net.contents (.queue x) tags place ++
        List.replicate (arrivals x outputs place) tag := by
  cases place with
  | wire => simp [contents, ParcelNetwork.settle, arrivals, Function.comp_def]
  | queue y =>
      by_cases hy : y = x
      · subst hy
        simp [contents, ParcelNetwork.settle, arrivals]
      · simp [contents, ParcelNetwork.settle, arrivals, hy]
  | app y =>
      by_cases hy : y = x
      · subst hy
        simp [contents, ParcelNetwork.settle, arrivals, Function.comp_def]
      · simp [contents, ParcelNetwork.settle, arrivals, hy]
  | gone => simp [contents, ParcelNetwork.settle, arrivals]

theorem arrivals_silent (hSilent : Silent outputs) (place : Place ρ) :
    arrivals x outputs place = 0 := by
  cases place with
  | wire => simp [arrivals, hSilent.packages]
  | queue y => simp [arrivals, hSilent.requests]
  | app y => simp [arrivals, hSilent.given]
  | gone => rfl

/-- A silent step moves no message: it sends ARP packages or tables only. -/
theorem contents_silent (hSilent : Silent outputs) :
    (net.settle x server (net.hosts x).tags outputs tag).contents = net.contents := by
  funext place
  rw [contents_settle, arrivals_silent hSilent, List.replicate_zero, List.append_nil]
  exact congrFun (Function.update_eq_self _ _) place

/-- A message that is at no place is put at the place of the only output. -/
theorem lists_settle
    (h : Placement.Lifted (Function.update net.contents (.queue x) tags) places tag)
    (hTag : tag < places.length) {target : Place ρ}
    (hTarget : ∀ place, arrivals x outputs place = if place = target then 1 else 0) :
    Placement.Lists (net.settle x server tags outputs tag).contents (places.set tag target) := by
  refine h.put hTag ?_ fun place hPlace => ?_
  · rw [contents_settle, hTarget, if_pos rfl, List.replicate_one]
  · rw [contents_settle, hTarget, if_neg hPlace, List.replicate_zero, List.append_nil]

/-- A message that is at no place is at one again after a step that is about it. -/
theorem exists_lists_follow
    (h : Placement.Lifted (Function.update net.contents (.queue x) tags) places tag)
    (hTag : tag < places.length) (hYields : Yields asked sent given outputs) : ∃ target,
      Placement.Lists (net.follow x server tags outputs tag).contents
        (places.set tag target) := by
  cases hYields with
  | nothing =>
      refine ⟨.gone, h.put hTag rfl fun place hPlace => ?_⟩
      have hSettled : (net.settle x server tags [] tag).contents place =
          Function.update net.contents (.queue x) tags place := by
        rw [contents_settle, arrivals_silent ⟨rfl, rfl, rfl⟩, List.replicate_zero, List.append_nil]
      rw [← hSettled]
      cases place with
      | gone => exact absurd rfl hPlace
      | _ => rfl
  | asks hAsked =>
      refine ⟨.queue x, lists_settle h hTag fun place => ?_⟩
      cases place <;> simp [arrivals, Output.transport, Output.forwardRequest, Output.appBytes]
  | @sends socket package hTra hSent =>
      have hFollow : net.follow x server tags [.sendto socket package] tag =
          net.settle x server tags [.sendto socket package] tag := by
        simp [ParcelNetwork.follow, Output.transport, hTra]
      rw [hFollow]
      refine ⟨.wire, lists_settle h hTag fun place => ?_⟩
      cases place <;>
        simp [arrivals, Output.transport, Output.forwardRequest, Output.appBytes, hTra]
  | gives hGiven =>
      refine ⟨.app x, lists_settle h hTag fun place => ?_⟩
      cases place <;> simp [arrivals, Output.transport, Output.forwardRequest, Output.appBytes]

/-- A step about one message leaves every message at one place: this one moves, or is gone if
nothing comes of it. -/
theorem Placed.follow
    (h : Placement.Lifted (Function.update net.contents (.queue x) tags) places tag)
    (hTag : tag < places.length) (hLength : places.length = net.messages.length)
    (hYields : Yields asked sent given outputs) :
    Placed (net.follow x server tags outputs tag) := by
  obtain ⟨target, hLists⟩ := exists_lists_follow h hTag hYields
  refine ⟨places.set tag target, ?_, hLists⟩
  rw [List.length_set, hLength]
  unfold ParcelNetwork.follow
  simp only
  split_ifs
  · rfl
  · rfl

/-- A package that is received goes on with the number it had. -/
theorem Truthful.receive (h : Truthful config net) (hPlaced : Placed net)
    (hAddresses : ∀ x, ∀ record ∈ (config x).iTable.interfaces, record.mipAddress ≠ 255)
    (hMem : parcel ∈ net.wire) (hSource : (net.hosts x).server.source fd = .rawSocket) :
    Truthful config (net.receive x parcel pointer fd env) ∧
      Placed (net.receive x parcel pointer fd env) := by
  have hAbout := h.about hAddresses hMem hSource pointer env
  have hEmits : Emits (net.hosts x).server ((net.hosts x).server.branch
      ⟨fd, sendtoRawMipPackage parcel.package pointer, -1⟩ env) _ _ :=
    branch_emits env (by rw [hSource]; decide)
  constructor
  · exact (h.remove parcel net.gone).follow _ hEmits.iTable hEmits.queued (h.queues x) hAbout
  · obtain ⟨places, hLength, hLifted, hTag⟩ := hPlaced.pick hMem
    refine Placed.follow ?_ hTag hLength hAbout
    rw [show (net.hosts x).tags =
      { net with wire := net.wire.erase parcel }.contents (.queue x) from rfl,
      Function.update_eq_self]
    exact hLifted

/-- A step that is about no message, as a sweep or a request of another host. -/
theorem Truthful.quiet (h : Truthful config net) (hPlaced : Placed net)
    (hSilent : Silent outputs) (hTable : server.iTable = (net.hosts x).server.iTable)
    (hQueued : server.queued = (net.hosts x).server.queued) :
    Truthful config (net.settle x server (net.hosts x).tags outputs tag) ∧
      Placed (net.settle x server (net.hosts x).tags outputs tag) := by
  refine ⟨h.silent hSilent hTable hQueued, ?_⟩
  obtain ⟨places, hLength, hLists⟩ := hPlaced
  refine ⟨places, hLength, ?_⟩
  rw [contents_silent hSilent]
  exact hLists

/-- An answer is about the message of the oldest package, whatever request routerd meant it for.
-/
theorem Truthful.answer (h : Truthful config net) (hPlaced : Placed net)
    (hAddresses : ∀ x, ∀ record ∈ (config x).iTable.interfaces, record.mipAddress ≠ 255)
    {event : MipStack.Event} (hData : event.data ≠ []) {rest : List ℕ}
    (hTags : (net.hosts x).tags = tag :: rest) :
    let outcome := (net.hosts x).server.forwardBranch event
    Truthful config (net.follow x outcome.server rest outcome.outputs tag) ∧
      Placed (net.follow x outcome.server rest outcome.outputs tag) := by
  intro outcome
  have hAnswers : Answers (net.hosts x).server outcome := forwardBranch_answers hData
  have hQueues := h.queues x
  rw [hTags, List.forall₂_cons_right_iff] at hQueues
  obtain ⟨waiting, others, hWaiting, hOthers, hQueue⟩ := hQueues
  have hTra : waiting.mHeader.tra = 3 := by
    obtain ⟨sender, message, -, hIn⟩ := hWaiting
    exact hIn.tra
  have hHead : (net.hosts x).server.queued.head? = some waiting := by
    rw [hQueue]
    rfl
  have hSome : ∀ other ∈ (net.hosts x).server.queued.head?, other = waiting := by
    intro other hOther
    exact (Option.some.inj (hHead.symm.trans hOther)).symm
  have hAbout : About config net.messages x tag outcome.outputs := by
    refine (answer_yields hData fun other hOther => ?_).mono ?_ ?_ ?_
    · rw [hSome other hOther]
      exact hTra
    · exact fun _ hFalse => hFalse.elim
    · rintro package ⟨other, hOther, hSent⟩
      exact h.sentOn hAddresses (hSome other hOther ▸ hWaiting) hSent
    · exact fun _ hFalse => hFalse.elim
  constructor
  · refine h.follow others hAnswers.iTable ?_ hOthers hAbout
    rw [hAnswers.queued, hQueue, show outcome.outputs.filterMap Output.forwardRequest = [] from
      hAnswers.requests]
    simp
  · obtain ⟨places, hLength, hLists⟩ := hPlaced
    have hQueued : (net.contents (.queue x)).Perm
        (tag :: Function.update net.contents (.queue x) rest (.queue x)) := by
      rw [Function.update_self, contents, hTags]
    obtain ⟨hLifted, hTag⟩ := hLists.take hQueued fun place hPlace =>
      Function.update_of_ne hPlace _ _
    exact Placed.follow hLifted hTag hLength hAbout

/-- The next message is sent, or asked about, or gone. It gets the number of messages before it.
-/
theorem Truthful.message (h : Truthful config net) (hPlaced : Placed net)
    {event : MipStack.Event} {message : MIPDMessage}
    (hSource : (net.hosts x).server.source event.fd = .appConnection)
    (hRead : readMessage (event.data.take maxMipMessageDataSize) = .ok (some message)) :
    let outcome := (net.hosts x).server.branch event env
    let net' := { net with messages := net.messages ++ [(x, message)] }
    Truthful config (net'.follow x outcome.server (net.hosts x).tags outcome.outputs
      net.messages.length) ∧
      Placed (net'.follow x outcome.server (net.hosts x).tags outcome.outputs
        net.messages.length) := by
  intro outcome net'
  have hMessage : net'.messages[net.messages.length]? = some (x, message) :=
    List.getElem?_concat_length
  have hOutcome : outcome = (net.hosts x).server.handleApplicationMessage message env := by
    simp only [outcome, branch, hSource]
    exact appBranch_of_readMessage hRead
  have hEmits : Emits (net.hosts x).server outcome _ _ := branch_emits env (by rw [hSource]; decide)
  have hAbout : About config net'.messages x net.messages.length outcome.outputs := by
    rw [hOutcome]
    refine ((net.hosts x).server.handleApplicationMessage_yields message env).mono ?_ ?_ ?_
    · exact fun package hMade => ⟨x, message, hMessage, Or.inl ⟨rfl, hMade⟩⟩
    · rintro package ⟨record, hRecord, hMade⟩
      rw [h.iTable x] at hRecord
      exact ⟨x, message, hMessage, record, hRecord, package, hMade, SameCargo.refl package⟩
    · exact fun _ hFalse => hFalse.elim
  constructor
  · exact (h.append [(x, message)]).follow _ hEmits.iTable hEmits.queued
      ((h.append [(x, message)]).queues x) hAbout
  · obtain ⟨places, hLifted, hTag, hLength⟩ := hPlaced.fresh (x, message)
    refine Placed.follow ?_ hTag hLength hAbout
    rw [show (net.hosts x).tags = net'.contents (.queue x) from rfl, Function.update_eq_self]
    exact hLifted

/-- What a handler does that is about no message. -/
theorem Truthful.emits (h : Truthful config net) (hPlaced : Placed net) {o : Outcome}
    (hEmits : Emits (net.hosts x).server o asked sent) (hSilent : Silent o.outputs) :
    Truthful config (net.settle x o.server (net.hosts x).tags o.outputs tag) ∧
      Placed (net.settle x o.server (net.hosts x).tags o.outputs tag) := by
  refine h.quiet hPlaced hSilent hEmits.iTable ?_
  rw [hEmits.queued, Outcome.requests, hSilent.requests, List.map_nil, List.append_nil]

/-- The end of the connection, or an answer without a package, is about no message. -/
theorem Truthful.noAnswer (h : Truthful config net) (hPlaced : Placed net)
    {event : MipStack.Event} (hNone : event.data = [] ∨ (net.hosts x).tags = []) :
    let outcome := (net.hosts x).server.forwardBranch event
    Truthful config (net.settle x outcome.server (net.hosts x).tags outcome.outputs tag) ∧
      Placed (net.settle x outcome.server (net.hosts x).tags outcome.outputs tag) := by
  intro outcome
  by_cases hData : event.data = []
  · have hEnd : outcome =
        ((net.hosts x).server.connectForward (-1)).finish 0 [.close event.fd] := by
      simp only [outcome, forwardBranch, hData]
    rw [hEnd]
    exact h.quiet hPlaced ⟨rfl, rfl, rfl⟩ rfl rfl
  · have hQueues := h.queues x
    rw [hNone.resolve_left hData, List.forall₂_nil_right_iff] at hQueues
    have hHead : (net.hosts x).server.queued.head? = none := by
      rw [hQueues]
      rfl
    have hAnswers : Answers (net.hosts x).server outcome := forwardBranch_answers hData
    have hOutputs : outcome.outputs = [] := by
      refine (answer_yields hData fun waiting hWaiting => ?_).eq_nil (fun _ => id) ?_ fun _ => id
      · cases hHead.symm.trans hWaiting
      · rintro package ⟨waiting, hWaiting, -⟩
        cases hHead.symm.trans hWaiting
    have hSilent : Silent outcome.outputs := by
      rw [hOutputs]
      exact ⟨rfl, rfl, rfl⟩
    refine h.quiet hPlaced hSilent hAnswers.iTable ?_
    rw [hAnswers.queued, hQueues]
    rfl

/-- A message that is taken from the application gets a new number, and an answer sends the
package with the oldest number in the queue. -/
theorem Truthful.handle (h : Truthful config net) (hPlaced : Placed net)
    (hAddresses : ∀ x, ∀ record ∈ (config x).iTable.interfaces, record.mipAddress ≠ 255)
    {event : MipStack.Event} (hRaw : (net.hosts x).server.source event.fd = .rawSocket →
      (receivedHeader event.data).tra ≠ 3) :
    Truthful config (net.handle x event env) ∧ Placed (net.handle x event env) := by
  by_cases hForward : (net.hosts x).server.source event.fd = .forwardConnection
  · have hBranch : (net.hosts x).server.branch event env =
        (net.hosts x).server.forwardBranch event := by
      simp only [branch, hForward]
    simp only [ParcelNetwork.handle, hForward, hBranch]
    split
    · rename_i byte more tag rest hData hTags
      exact h.answer hPlaced hAddresses (hData ▸ List.cons_ne_nil _ _) hTags
    · rename_i hOther
      refine h.noAnswer hPlaced ?_
      by_contra hSome
      rw [not_or] at hSome
      obtain ⟨byte, more, hData⟩ := List.exists_cons_of_ne_nil hSome.1
      obtain ⟨tag, rest, hTags⟩ := List.exists_cons_of_ne_nil hSome.2
      exact hOther byte more tag rest hData hTags
  · have hEmits : Emits (net.hosts x).server ((net.hosts x).server.branch event env) _ _ :=
      branch_emits env hForward
    by_cases hApp : (net.hosts x).server.source event.fd = .appConnection
    · have hBranch : (net.hosts x).server.branch event env =
          (net.hosts x).server.appBranch event env := by
        simp only [branch, hApp]
      simp only [ParcelNetwork.handle, hApp]
      split
      · rename_i message hRead
        exact h.message hPlaced hApp hRead
      · rename_i hNone
        refine h.emits hPlaced hEmits ?_
        rw [hBranch]
        exact appBranch_silent hNone
    · simp only [ParcelNetwork.handle]
      exact h.emits hPlaced hEmits (branch_silent hApp hForward hRaw)

/-- The step lemma for both invariants: numbers tell what packages carry, and each number is at
one place. -/
theorem Truthful.perform (h : Truthful config net) (hPlaced : Placed net)
    (hAddresses : ∀ x, ∀ record ∈ (config x).iTable.interfaces, record.mipAddress ≠ 255)
    {action : Action ρ} (hEnabled : net.Enabled action) :
    Truthful config (net.perform action) ∧ Placed (net.perform action) := by
  cases action with
  | startRun x now => exact h.quiet hPlaced (startRun_silent now) rfl rfl
  | tick x clock => exact h.quiet hPlaced (tick_silent clock) rfl rfl
  | receive x parcel pointer fd env => exact h.receive hPlaced hAddresses hEnabled.1 hEnabled.2
  | lose parcel => exact ⟨h.remove parcel _, hPlaced.lose hEnabled⟩
  | handle x event env => exact h.handle hPlaced hAddresses hEnabled

/-- In every run of a network of mipds without the address 255 every message that a mipd took
from its application is at one place, and there once: on the wire, in the forward queue of one
host, given to the application of one host, or gone. The messages in the queue of a host are
those whose packages wait there, in this order. An application is only given messages for an
address of its host, under an address of the host that sent them. -/
theorem messages_are_conserved
    (hAddresses : ∀ x, ∀ record ∈ (config x).iTable.interfaces, record.mipAddress ≠ 255)
    {actions : List (Action ρ)} (run : Trace Step (ParcelNetwork.start config) actions net) :
    (∀ place, (net.contents place).Nodup) ∧
    (∀ tag, (∃ place, tag ∈ net.contents place) ↔ tag < net.messages.length) ∧
    (∀ tag place place', tag ∈ net.contents place → tag ∈ net.contents place' →
      place = place') ∧
    (∀ x, List.Forall₂ (fun package tag => OfMessage net.messages tag (InQueue config x package))
      (net.hosts x).server.queued (net.contents (.queue x))) ∧
    ∀ x, ∀ entry ∈ (net.hosts x).given, ∃ sender message,
      net.messages[entry.1]? = some (sender, message) ∧
      ∃ record ∈ (config sender).iTable.interfaces,
        Receives (config x).iTable message record.mipAddress entry.2 := by
  have hHolds : Truthful config net ∧ Placed net := by
    apply run.invariant ⟨Truthful.start config, Placed.start config⟩
    rintro s action t ⟨hTruthful, hPlaced⟩ ⟨hEnabled, rfl⟩
    exact hTruthful.perform hPlaced hAddresses hEnabled
  obtain ⟨hTruthful, places, hLength, hLists⟩ := hHolds
  refine ⟨hLists.nodup, fun tag => ?_, fun tag place place' hMem hMem' => ?_, hTruthful.queues,
    hTruthful.given⟩
  · rw [hLists.exists_iff, hLength]
  · exact hLists.unique hMem hMem'

/-- A message of 10 is given to the application of its neighbour 30, after one ARP request between
them. -/
theorem neighbor_is_given_the_message :
    let env : Env := ⟨fun _ => 0, fun _ => Vector.replicate 8 0, fun _ => 0, true⟩
    let pointer : PointerBytes := Vector.replicate 8 0
    let mac := ethBroadcastAddr
    let request := sendtoRawMipPackage (MIPPackage.createMipArpRequestPacket 30 mac) pointer
    let package : MIPPackage :=
      ⟨createEthernetFrame mac mac, ⟨3, 15, 4, 30, 10⟩, List.replicate 16 0⟩
    let config : Bool → MipdConfig := fun x =>
      ⟨⟨3, -1⟩, ⟨4, -1⟩, ⟨5, -1⟩, ⟨[⟨mac, mac, if x then 30 else 10, 6⟩]⟩, 10000⟩
    let actions : List (Action Bool) := [
      .handle false ⟨6, request, -1⟩ env, .handle false ⟨3, [], 8⟩ env,
      .handle false ⟨8, 30 :: 13 :: List.replicate 14 0, -1⟩ env, .handle true ⟨3, [], 8⟩ env,
      .receive true ⟨0, package⟩ pointer 6 env]
    ∃ net, Trace Step (ParcelNetwork.start config) actions net ∧
      (∀ place, 0 ∈ net.contents place ↔ place = .app true) ∧
      ∃ entry ∈ (net.hosts true).given, ∃ message,
        Receives (config true).iTable message 10 entry.2 := by
  intro env pointer mac request package config actions
  have hAddresses : ∀ x, ∀ record ∈ (config x).iTable.interfaces, record.mipAddress ≠ 255 := by
    decide
  have hRuns : Runs Enabled perform (ParcelNetwork.start config) actions := by
    decide +kernel
  have hApp : 0 ∈ (actions.foldl perform (ParcelNetwork.start config)).contents (.app true) := by
    decide +kernel
  have hMessages : (actions.foldl perform (ParcelNetwork.start config)).messages.map Prod.fst =
      [false] := by
    decide +kernel
  obtain ⟨-, -, hUnique, -, hGiven⟩ := messages_are_conserved hAddresses hRuns.trace
  refine ⟨_, hRuns.trace, fun place => ⟨fun hMem => hUnique 0 place _ hMem hApp, ?_⟩, ?_⟩
  · rintro rfl
    exact hApp
  · obtain ⟨entry, hEntry, -⟩ := List.mem_map.mp hApp
    obtain ⟨sender, message, hMessage, record, hRecord, hReceives⟩ := hGiven true entry hEntry
    have hSender : sender ∈ [false] := by
      rw [← hMessages]
      exact List.mem_map_of_mem (List.mem_of_getElem? hMessage)
    obtain rfl := List.mem_singleton.mp hSender
    obtain rfl := List.mem_singleton.mp hRecord
    exact ⟨entry, hEntry, message, hReceives⟩

end ParcelNetwork

end MipStack
