import MipStack.Mipd.ArpAnswers
import MipStack.Mipd.MipArpSlots
import MipStack.Library.Execution

/-! ARP frames with any source addresses, and the slots of the cache that they are written
to. -/
namespace MipStack
open Execution

/-- The headers of a frame as they lie in the receive buffer. The ARP branches look at
nothing else. -/
def receivedHeaders (frame : List UInt8) : MIPPackage :=
  { eFrame := EtherFrame.ofBytes (recvBuffer frame)
    mHeader := receivedHeader frame
    message := [] }

namespace MipArpSlots

/-- The branches for ARP of `handle_raw_socket_frame`; `none` is a write outside the array. -/
def handleArpFrame (cache : MipArpSlots) (fd : ℤ) (record : InterfaceRecord)
    (received : MIPPackage) (env : Env) : Option (ℤ × MipArpSlots × List Output) :=
  if received.mHeader.tra = 0 then
    (cache.appendToCache fd received.mHeader.srcAddr record.sllAddr (env.clock 0)).map
      fun appended => (if appended.1 = -1 then -1 else 0, appended.2, [])
  else
    (cache.handleMipArpRequest received record env.pointers (env.clock 0)).map
      fun handled => (if handled.1 = -1 then -1 else 0, handled.2)

end MipArpSlots

/-- The cache of a mipd with what its loop is told: it ends with the first error. -/
structure ArpTraffic where
  cache : MipArpSlots
  running : Bool

namespace ArpTraffic

inductive Action where
  | frame (fd : ℤ) (frame : List UInt8) (env : Env)
  | update (clock : Clock) (asked sent : ℤ)

def start (updateFreq : ℤ) : ArpTraffic :=
  { cache := MipArpSlots.createCache updateFreq, running := true }

/-- The result and the cache; `none` is a write outside the array. -/
def outcome (iTable : InterfaceTable) (s : ArpTraffic) : Action → Option (ℤ × MipArpSlots)
  | .frame fd frame env =>
    match iTable.recordForSocket fd with
    | none => none
    | some record =>
      (s.cache.handleArpFrame fd record (receivedHeaders frame) env).map
        fun handled => (handled.1, handled.2.1)
  | .update clock asked sent =>
    (s.cache.updateArpCache iTable clock asked sent).map fun updated => (0, updated.1)

def perform (iTable : InterfaceTable) (s : ArpTraffic) (action : Action) : ArpTraffic :=
  match s.outcome iTable action with
  | none => { s with running := false }
  | some (rc, cache) => { cache, running := rc ≠ -1 }

/-- Frames arrive on the sockets of the table. -/
def Enabled (iTable : InterfaceTable) (s : ArpTraffic) (action : Action) : Prop :=
  s.running = true ∧ match action with
    | .frame fd frame _ => iTable.isSocketInTable fd ∧
      ((receivedHeader frame).tra = 0 ∨ (receivedHeader frame).tra = 1)
    | .update _ _ _ => True

def Step (iTable : InterfaceTable) (s : ArpTraffic) (action : Action) (t : ArpTraffic) : Prop :=
  s.Enabled iTable action ∧ t = s.perform iTable action

/-- Every write has an index inside the array, and the size stays within its bounds. -/
structure StaysInside (iTable : InterfaceTable) (s : ArpTraffic) (action : Action)
    (t : ArpTraffic) : Prop where
  writes : (s.outcome iTable action).isSome
  nonneg : 0 ≤ t.cache.array.size
  size_le : t.cache.array.size ≤ mipArpCacheCapacity

/-- The sender of a frame is cached, or a slot is free for it. -/
def FindsSlot (s : ArpTraffic) (action : Action) (_ : ArpTraffic) : Prop :=
  match action with
  | .frame _ frame _ => (receivedHeader frame).srcAddr = 255 ∨
      (∃ entry ∈ s.cache.array.used, entry.mipAddress = (receivedHeader frame).srcAddr) ∨
      s.cache.array.size < mipArpCacheCapacity
  | .update _ _ _ => True

/-- The invariant of all runs: the array is that of a cache. -/
def Valid (s : ArpTraffic) : Prop := ∃ cache, s.cache.Represents cache

end ArpTraffic

namespace MipArpSlots

variable {slots slots' : MipArpSlots} {cache : MipArpCache} {fd : ℤ} {record : InterfaceRecord}
  {received : MIPPackage} {env : Env} {result : ℤ × MipArpSlots × List Output}

/-- The request is appended to the array and answered, also where nothing was appended because it
came from 255. -/
theorem handleMipArpRequest_eq (slots : MipArpSlots) (received : MIPPackage)
    (record : InterfaceRecord) (pointers : ℕ → PointerBytes) (now : ℤ) :
    slots.handleMipArpRequest received record pointers now =
      (slots.appendToCache record.rawSocket received.mHeader.srcAddr record.sllAddr now).map
        fun appended => (1, appended.2, [.sendto record.rawSocket
          (MipArpCache.responseOf record received.mHeader.srcAddr pointers)]) := by
  rw [handleMipArpRequest, MIPPackage.createRaw_eq (by decide : 0 < 5) (Nat.zero_le _)]
  rfl

/-- Both branches cache the sender of the frame, requests as well as responses. -/
theorem handleArpFrame_eq (slots : MipArpSlots) (fd : ℤ) (record : InterfaceRecord)
    (received : MIPPackage) (env : Env) :
    slots.handleArpFrame fd record received env =
      (slots.appendToCache (if received.mHeader.tra = 0 then fd else record.rawSocket)
        received.mHeader.srcAddr record.sllAddr (env.clock 0)).map fun appended =>
          (if received.mHeader.tra = 0 ∧ appended.1 = -1 then -1 else 0, appended.2,
            if received.mHeader.tra = 0 then [] else [.sendto record.rawSocket
              (MipArpCache.responseOf record received.mHeader.srcAddr env.pointers)]) := by
  rw [handleArpFrame]
  by_cases hTra : received.mHeader.tra = 0
  · rw [if_pos hTra]
    simp only [hTra, true_and, if_true]
  · rw [if_neg hTra, handleMipArpRequest_eq, Option.map_map]
    simp only [hTra, false_and, if_false]
    rfl

/-- A frame is handled inside the array exactly if its sender is 255, is cached already or finds a
free slot. -/
theorem Represents.handleArpFrame_isSome_iff (h : Represents slots cache) :
    (slots.handleArpFrame fd record received env).isSome ↔
      received.mHeader.srcAddr = 255 ∨ cache.HasSlotFor received.mHeader.srcAddr := by
  rw [handleArpFrame_eq, Option.isSome_map, h.appendToCache_isSome_iff]

/-- Afterwards the array is that of a cache again. -/
theorem Represents.of_handleArpFrame (h : Represents slots cache)
    (hHandled : slots.handleArpFrame fd record received env = some result) :
    ∃ cache', Represents result.2.1 cache' := by
  rw [handleArpFrame_eq] at hHandled
  obtain ⟨⟨rc, slots'⟩, hAppend, rfl⟩ := Option.map_eq_some_iff.mp hHandled
  exact h.of_appendToCache hAppend

/-- The slots change as the cache of a mipd that handles the same frame, so runs on slots are
about the daemon. -/
theorem Represents.handleRawSocketFrame {server : MIPDServer} {frame : List UInt8}
    (h : Represents slots server.cache) (hRecord : server.iTable.recordForSocket fd = some record)
    (hReceive : MIPDServer.receivePackage frame env = some received)
    (hArp : received.mHeader.tra = 0 ∨ received.mHeader.tra = 1) :
    match slots.handleArpFrame fd record (receivedHeaders frame) env with
    | some (rc, slots', outputs) =>
        Represents slots' (server.handleRawSocketFrame fd frame env).server.cache ∧
        (server.handleRawSocketFrame fd frame env).outputs = outputs ∧
        (server.handleRawSocketFrame fd frame env).result =
          if rc = -1 then .error .error else .ok 0
    | none => (server.handleRawSocketFrame fd frame env).result = .error .fault := by
  have hHeader : received.mHeader = receivedHeader frame := by
    obtain ⟨empty, -, hRecv⟩ := Option.bind_eq_some_iff.mp hReceive
    exact (recvRawMipPackage_eq_some hRecv).1
  have hReceived : server.handleRawSocketFrame fd frame env =
      server.handleReceivedPackage fd record received env := by
    unfold MIPDServer.handleRawSocketFrame
    rw [hReceive, hRecord]
  have hHeaders : (receivedHeaders frame).mHeader = received.mHeader := hHeader.symm
  rw [hReceived, handleArpFrame_eq, hHeaders, MIPDServer.handleReceivedPackage]
  have hAppend := h.appendToCache (if received.mHeader.tra = 0 then fd else record.rawSocket)
    received.mHeader.srcAddr record.sllAddr (env.clock 0)
  rcases hArp with hTra | hTra
  · simp only [hTra, if_true] at hAppend ⊢
    cases hList : server.cache.appendToCache fd received.mHeader.srcAddr record.sllAddr
        (env.clock 0) with
    | ok cache =>
        simp only [hList] at hAppend
        obtain ⟨rc, slots', hSome, hNonneg, hRepresents⟩ := hAppend
        have hFound : rc ≠ -1 := by omega
        simp only [hSome, Option.map_some, hFound, and_false, if_false]
        exact ⟨hRepresents, rfl, rfl⟩
    | error halt =>
        cases halt with
        | error =>
            simp only [hList] at hAppend
            simp only [hAppend, Option.map_some, and_self, if_true]
            exact ⟨h, rfl, rfl⟩
        | fault =>
            simp only [hList] at hAppend
            simp only [hAppend, Option.map_none]
            rfl
  · have hResponse : ¬ received.mHeader.tra = 0 := by
      rw [hTra]
      decide
    simp only [if_pos hTra, hResponse, false_and, if_false,
      MipArpCache.handleMipArpRequest_eq] at hAppend ⊢
    cases hList : server.cache.appendToCache record.rawSocket received.mHeader.srcAddr
        record.sllAddr (env.clock 0) with
    | ok cache =>
        simp only [hList] at hAppend
        obtain ⟨rc, slots', hSome, -, hRepresents⟩ := hAppend
        simp only [hSome, Option.map_some]
        exact ⟨hRepresents, rfl, rfl⟩
    | error halt =>
        cases halt with
        | error =>
            simp only [hList] at hAppend
            simp only [hAppend, Option.map_some]
            exact ⟨h, rfl, rfl⟩
        | fault =>
            simp only [hList] at hAppend
            simp only [hAppend, Option.map_none]
            rfl

end MipArpSlots

namespace ArpTraffic

variable {iTable : InterfaceTable} {s t : ArpTraffic} {action : Action} {updateFreq : ℤ}

theorem Valid.start (updateFreq : ℤ) : Valid (start updateFreq) :=
  ⟨_, MipArpSlots.Represents.createCache updateFreq⟩

theorem Valid.size (h : s.Valid) :
    0 ≤ s.cache.array.size ∧ s.cache.array.size ≤ mipArpCacheCapacity := by
  obtain ⟨cache, hRepresents⟩ := h
  rw [hRepresents.array.size]
  exact ⟨Int.natCast_nonneg _, Int.ofNat_le.mpr cache.size_le⟩

/-- What a frame or a sweep leaves is the array of a cache, if it does not write behind the
array. -/
theorem Valid.outcome (h : s.Valid) {result : ℤ × MipArpSlots}
    (hOutcome : s.outcome iTable action = some result) : ∃ cache, result.2.Represents cache := by
  obtain ⟨cache, hRepresents⟩ := h
  cases action with
  | frame fd frame env =>
      rw [ArpTraffic.outcome] at hOutcome
      cases hRecord : iTable.recordForSocket fd with
      | none => simp [hRecord] at hOutcome
      | some record =>
          simp only [hRecord] at hOutcome
          obtain ⟨handled, hHandled, rfl⟩ := Option.map_eq_some_iff.mp hOutcome
          exact hRepresents.of_handleArpFrame hHandled
  | update clock asked sent =>
      obtain ⟨updated, hUpdated, rfl⟩ := Option.map_eq_some_iff.mp hOutcome
      exact hRepresents.of_updateArpCache hUpdated

/-- The invariant of runs, in which a frame that finds no slot ends the daemon. -/
theorem Valid.perform (h : s.Valid) : (s.perform iTable action).Valid := by
  rw [ArpTraffic.perform]
  cases hOutcome : s.outcome iTable action with
  | none => exact h
  | some result => exact h.outcome hOutcome

/-- Only a frame whose sender finds no slot leads outside the array. Sweeps write to used slots.
-/
theorem Valid.writes_iff (h : s.Valid) (hEnabled : s.Enabled iTable action) :
    (s.outcome iTable action).isSome ↔ s.FindsSlot action t := by
  obtain ⟨cache, hRepresents⟩ := h
  cases action with
  | frame fd frame env =>
      obtain ⟨-, hSocket, -⟩ := hEnabled
      have hInterfaces := InterfaceTable.interfaces_ne_nil_of_isSocketInTable hSocket
      obtain ⟨record, -, hRecord⟩ := InterfaceTable.exists_recordForSocket hInterfaces fd
      simp only [ArpTraffic.outcome, hRecord, Option.isSome_map,
        hRepresents.handleArpFrame_isSome_iff, FindsSlot, hRepresents.array.used,
        hRepresents.array.size, MipArpCache.HasSlotFor, Int.ofNat_lt]
      rfl
  | update clock asked sent =>
      obtain ⟨swept, outputs, hSwept, -⟩ :=
        MipArpSlots.exists_updateArpCache hRepresents.array iTable clock asked sent
      simp [ArpTraffic.outcome, hSwept, FindsSlot]

/-- In one step the array is left exactly by a frame of a new neighbour when all slots are
taken. -/
theorem Valid.staysInside_iff (h : s.Valid) (hStep : Step iTable s action t) :
    StaysInside iTable s action t ↔ s.FindsSlot action t := by
  obtain ⟨hEnabled, rfl⟩ := hStep
  rw [← h.writes_iff hEnabled]
  have hPerformed : (s.perform iTable action).Valid := h.perform
  exact ⟨StaysInside.writes, fun hWrites => ⟨hWrites, hPerformed.size.1, hPerformed.size.2⟩⟩

/-- All writes of a run have indices inside the array exactly if every frame finds a slot
for its sender, at whatever times the sweeps come. -/
theorem stays_inside_iff (iTable : InterfaceTable) (updateFreq : ℤ) (actions : List Action)
    (t : ArpTraffic) :
    Trace (Guarded (Step iTable) (StaysInside iTable)) (start updateFreq) actions t ↔
      Trace (Guarded (Step iTable) FindsSlot) (start updateFreq) actions t := by
  refine Trace.guarded_iff (I := Valid) (Valid.start updateFreq) ?_ ?_
  · rintro s action _ h ⟨-, rfl⟩ -
    exact h.perform
  · exact fun s action t h hStep => h.staysInside_iff hStep

/-- The request of a neighbour under an address. -/
def requestFrom (fd : ℤ) (mac : MacAddress) (pointer : PointerBytes) (env : Env)
    (address : MIPAddress) : Action :=
  .frame fd (sendtoRawMipPackage (MIPPackage.createMipArpRequestPacket address mac) pointer) env

variable {fd : ℤ} {mac : MacAddress} {pointer : PointerBytes} {env : Env} {n : ℕ}

/-- An ARP request from any address is a frame that the daemon can receive. -/
theorem enabled_requestFrom (hRunning : s.running = true) (hSocket : iTable.isSocketInTable fd)
    (address : MIPAddress) : s.Enabled iTable (requestFrom fd mac pointer env address) := by
  refine ⟨hRunning, hSocket, Or.inr ?_⟩
  rw [receivedHeader_sendto]
  rfl

/-- A request of a new address takes the next slot, and the daemon answers it. -/
theorem exists_perform_request {cache : MipArpCache} {address : MIPAddress}
    (h : s.cache.Represents cache) (hSocket : iTable.isSocketInTable fd)
    (hAddress : address ≠ 255) (hNew : cache.queryMipAddressPos address = none)
    (hFree : cache.entries.length < mipArpCacheCapacity) (mac : MacAddress)
    (pointer : PointerBytes) (env : Env) :
    ∃ cache', (s.perform iTable (requestFrom fd mac pointer env address)).cache.Represents cache' ∧
      (s.perform iTable (requestFrom fd mac pointer env address)).running = true ∧
      cache'.entries.map MipArpCacheEntry.mipAddress =
        cache.entries.map MipArpCacheEntry.mipAddress ++ [address] := by
  have hInterfaces := InterfaceTable.interfaces_ne_nil_of_isSocketInTable hSocket
  obtain ⟨record, -, hRecord⟩ := InterfaceTable.exists_recordForSocket hInterfaces fd
  obtain ⟨cache', hOk⟩ := (MipArpCache.exists_appendToCache_iff cache record.rawSocket address
    record.sllAddr (env.clock 0)).mpr ⟨hAddress, Or.inr hFree⟩
  have hAppend := h.appendToCache record.rawSocket address record.sllAddr (env.clock 0)
  rw [hOk] at hAppend
  obtain ⟨rc, slots', hSome, -, hRepresents⟩ := hAppend
  have hHeader : (receivedHeaders (sendtoRawMipPackage
      (MIPPackage.createMipArpRequestPacket address mac) pointer)).mHeader =
      (MIPPackage.createMipArpRequestPacket address mac).mHeader := receivedHeader_sendto _ _
  have hTra : ¬ (MIPPackage.createMipArpRequestPacket address mac).mHeader.tra = 0 := by
    show ¬ (1 : BitVec 3) = 0
    decide
  have hOutcome : s.outcome iTable (requestFrom fd mac pointer env address) = some (0, slots') := by
    simp only [ArpTraffic.outcome, requestFrom, hRecord, MipArpSlots.handleArpFrame_eq, hHeader,
      hTra, false_and, if_false]
    rw [show (MIPPackage.createMipArpRequestPacket address mac).mHeader.srcAddr = address from rfl,
      hSome]
    rfl
  rw [ArpTraffic.perform, hOutcome]
  refine ⟨cache', hRepresents, rfl, ?_⟩
  obtain ⟨-, -, ⟨pos, hPos, -⟩ | ⟨-, hPushed⟩⟩ := MipArpCache.appendToCache_eq_ok hOk
  · cases hNew.symm.trans hPos
  · rw [hPushed, List.map_append]
    rfl

/-- Any 64 neighbours fill the cache, if their requests come before a sweep. -/
theorem exists_filled (hSocket : iTable.isSocketInTable fd) (hn : n ≤ mipArpCacheCapacity)
    (updateFreq : ℤ) (mac : MacAddress) (pointer : PointerBytes) (env : Env) :
    ∃ s cache, Trace (Step iTable) (start updateFreq)
        ((List.range n).map fun i => requestFrom fd mac pointer env (UInt8.ofNat i)) s ∧
      s.running = true ∧ s.cache.Represents cache ∧
      cache.entries.map MipArpCacheEntry.mipAddress = (List.range n).map UInt8.ofNat := by
  induction n with
  | zero => exact ⟨_, _, Trace.nil _, rfl, MipArpSlots.Represents.createCache updateFreq, rfl⟩
  | succ n ih =>
      obtain ⟨s, cache, hRun, hRunning, hRepresents, hAddresses⟩ := ih (Nat.le_of_succ_le hn)
      have hLength := congrArg List.length hAddresses
      simp only [List.length_map, List.length_range] at hLength
      have hLt : n < 256 := by
        unfold mipArpCacheCapacity at hn
        omega
      have hDistinct : ∀ i < 256, i ≠ n → UInt8.ofNat i ≠ UInt8.ofNat n := by
        intro i hi hne hEq
        have hNat := congrArg UInt8.toNat hEq
        rw [UInt8.toNat_ofNat', UInt8.toNat_ofNat', Nat.mod_eq_of_lt hi,
          Nat.mod_eq_of_lt hLt] at hNat
        exact hne hNat
      have hNew : cache.queryMipAddressPos (UInt8.ofNat n) = none := by
        refine MipArpCache.queryMipAddressPos_eq_none_iff.mpr fun entry hMem => ?_
        have hListed := List.mem_map_of_mem (f := MipArpCacheEntry.mipAddress) hMem
        rw [hAddresses] at hListed
        obtain ⟨i, hi, hEq⟩ := List.mem_map.mp hListed
        rw [← hEq]
        have hBefore := List.mem_range.mp hi
        exact hDistinct i (by omega) (by omega)
      have hAddress : UInt8.ofNat n ≠ 255 := by
        unfold mipArpCacheCapacity at hn
        exact (hDistinct 255 (by decide) (by omega)).symm
      obtain ⟨cache', hNext, hStill, hAdded⟩ := 
        exists_perform_request hRepresents hSocket hAddress hNew (by omega) mac pointer env
      refine ⟨_, cache', ?_, hStill, hNext, ?_⟩
      · rw [List.range_succ, List.map_append]
        exact Trace.snoc hRun ⟨enabled_requestFrom hRunning hSocket _, rfl⟩
      · rw [hAdded, hAddresses, List.range_succ, List.map_append]
        rfl

/-- The request of a sixty-fifth neighbour is written behind the array: the size is compared with
nothing. -/
theorem last_neighbour_overruns :
    let iTable : InterfaceTable := ⟨[⟨ethBroadcastAddr, ethBroadcastAddr, 200, 3⟩]⟩
    let request := requestFrom 3 ethBroadcastAddr (Vector.replicate 8 0)
      ⟨fun _ => 0, fun _ => Vector.replicate 8 0, fun _ => 0, true⟩
    ∃ s, Trace (Step iTable) (start 10000)
        ((List.range 64).map fun i => request (UInt8.ofNat i)) s ∧
      s.Enabled iTable (request 64) ∧
      ¬ StaysInside iTable s (request 64) (s.perform iTable (request 64)) := by
  intro iTable request
  have hSocket : iTable.isSocketInTable 3 := by decide
  obtain ⟨s, cache, hRun, hRunning, hRepresents, hAddresses⟩ :=
    exists_filled hSocket (Nat.le_refl mipArpCacheCapacity) 10000 ethBroadcastAddr
      (Vector.replicate 8 0) ⟨fun _ => 0, fun _ => Vector.replicate 8 0, fun _ => 0, true⟩
  have hEnabled : s.Enabled iTable (request 64) := enabled_requestFrom hRunning hSocket 64
  refine ⟨s, hRun, hEnabled, fun hInside => ?_⟩
  have hSlot := (Valid.writes_iff (t := s) ⟨cache, hRepresents⟩ hEnabled).mp hInside.writes
  simp only [request, FindsSlot, requestFrom, receivedHeader_sendto, hRepresents.array.used,
    hRepresents.array.size] at hSlot
  rcases hSlot with hBroadcast | ⟨entry, hMem, hKnown⟩ | hFree
  · exact absurd hBroadcast (by decide)
  · have hListed := List.mem_map_of_mem (f := MipArpCacheEntry.mipAddress) hMem
    rw [hAddresses, hKnown] at hListed
    exact absurd hListed (by decide)
  · have hLength := congrArg List.length hAddresses
    simp only [List.length_map, List.length_range] at hLength
    omega

end ArpTraffic

end MipStack
