import MipStack.Mipd.MipArp
import MipStack.Routerd.PackageLayout

/-! Broadcasting the local routing table (`mipd/src/lib/router/routing.c`) and
the split horizon that is applied to each copy of it. -/
namespace MipStack

/-- `none` when the loop over the announced entries leaves the package. -/
def poisonReverse (package : MIPRouteTablePackage) (destination : MIPAddress) :
    Option MIPRouteTablePackage :=
  if package.numEntries.toNat ≤ mipTablePackageEntriesMaxSize then
    some { package with
      entries := Vector.ofFn fun i =>
        let entry := package.entries[i]
        if i.val < package.numEntries.toNat ∧ entry.nextHop = destination then
          { entry with cost := uintMax }
        else entry }
  else none

/-- The copy for one interface. The scratch copy is overwritten whole for every
interface, so nothing of an earlier one is left in it. -/
def splitHorizonCopy (cache : MipArpCache) (record : InterfaceRecord)
    (tablePackage : MIPRouteTablePackage) : Option MIPRouteTablePackage :=
  let tmp := { tablePackage with tableAddress := record.mipAddress }
  let destination := cache.queryCacheSocketMipAddress record.rawSocket
  let destination := if destination = 255 then tmp.tableAddress else destination
  poisonReverse tmp destination

/-- The frame for one interface, whose MAC addresses are given by pointers. -/
def broadcastOnInterface (cache : MipArpCache) (tablePackage : MIPRouteTablePackage)
    (pointers : ℕ → PointerBytes) (record : InterfaceRecord) : Except Halt Output :=
  match splitHorizonCopy cache record tablePackage with
  | none => .error .fault
  | some tmp =>
    match MIPPackage.createRaw record.mipAddress ⟨pointers 0, record.interface⟩ 255
        ⟨pointers 1, ethBroadcastAddr⟩ tmp.toBytes 2 with
    | none => .error .fault
    | some package => .ok (.sendto record.rawSocket package)

def broadcastRouteTable (iTable : InterfaceTable) (cache : MipArpCache)
    (tablePackage : MIPRouteTablePackage) (pointers : ℕ → PointerBytes) :
    Except Halt (List Output) :=
  iTable.interfaces.mapM (broadcastOnInterface cache tablePackage pointers)

/-- The table at the start of a received message. -/
def parseBroadcastedTable (package : MIPPackage) : MIPRouteTablePackage :=
  MIPRouteTablePackage.ofBytes (package.message.take
    MIPRouteTablePackage.sizeofMIPRouteTablePackage)

variable {cache : MipArpCache} {record : InterfaceRecord}
  {tablePackage tmp : MIPRouteTablePackage} {pointers : ℕ → PointerBytes} {output : Output}

/-- A table fits into one package, padded to whole words. -/
theorem exists_broadcastOnInterface
    (hCopy : splitHorizonCopy cache record tablePackage = some tmp)
    (pointers : ℕ → PointerBytes) : ∃ package,
    broadcastOnInterface cache tablePackage pointers record =
        .ok (.sendto record.rawSocket package) ∧
      package.message = padMessage tmp.toBytes ∧
      package.mHeader = ⟨2, 15, 129, 255, record.mipAddress⟩ := by
  have hFits : tmp.toBytes.length ≤ payloadMaxSizeBytes := by
    rw [MIPRouteTablePackage.toBytes_length]
    decide
  refine ⟨⟨createTransportEthernetFrame ⟨pointers 0, record.interface⟩
      ⟨pointers 1, ethBroadcastAddr⟩, ⟨2, 15, 129, 255, record.mipAddress⟩,
      padMessage tmp.toBytes⟩, ?_, rfl, rfl⟩
  simp only [broadcastOnInterface, hCopy, MIPPackage.createRaw_eq (by decide : 2 < 5) hFits,
    MIPRouteTablePackage.toBytes_length]
  rfl

/-- A receiver that gets the message unchanged reads the table that was sent. -/
theorem parseBroadcastedTable_eq {package : MIPPackage}
    (hMessage : package.message = padMessage tmp.toBytes) :
    parseBroadcastedTable package = tmp := by
  have hTake : package.message.take MIPRouteTablePackage.sizeofMIPRouteTablePackage =
      tmp.toBytes ++ [] := by
    rw [hMessage, padMessage, List.take_left' tmp.toBytes_length, List.append_nil]
  rw [parseBroadcastedTable, hTake, MIPRouteTablePackage.ofBytes_toBytes]

/-- What is broadcast on an interface is its split horizon copy. -/
theorem broadcastOnInterface_eq_ok
    (h : broadcastOnInterface cache tablePackage pointers record = .ok output) :
    ∃ tmp package, splitHorizonCopy cache record tablePackage = some tmp ∧
      output = .sendto record.rawSocket package ∧ package.message = padMessage tmp.toBytes ∧
      package.mHeader = ⟨2, 15, 129, 255, record.mipAddress⟩ := by
  cases hCopy : splitHorizonCopy cache record tablePackage with
  | none => simp [broadcastOnInterface, hCopy] at h
  | some tmp =>
      obtain ⟨package, hSend, hMessage, hHeader⟩ := exists_broadcastOnInterface hCopy pointers
      rw [hSend] at h
      exact ⟨tmp, package, rfl, (Except.ok.inj h).symm, hMessage, hHeader⟩

/-- Broadcasting succeeds exactly with one frame for every interface. -/
theorem broadcastRouteTable_eq_ok_iff {iTable : InterfaceTable} {pointers : ℕ → PointerBytes}
    {outputs : List Output} :
    broadcastRouteTable iTable cache tablePackage pointers = .ok outputs ↔
      List.Forall₂ (fun record output =>
        broadcastOnInterface cache tablePackage pointers record = .ok output)
        iTable.interfaces outputs := by
  unfold broadcastRouteTable
  induction iTable.interfaces generalizing outputs with
  | nil => simp [pure, Except.pure, eq_comm]
  | cons record rest ih =>
      rw [List.mapM_cons, List.forall₂_cons_left_iff]
      cases hFirst : broadcastOnInterface cache tablePackage pointers record with
      | error halt => simp [bind, Except.bind]
      | ok output =>
          cases hRest : rest.mapM (broadcastOnInterface cache tablePackage pointers) with
          | error halt =>
              simp only [hRest] at ih
              simp [bind, Except.bind, ← ih]
          | ok frames =>
              simp only [hRest] at ih
              simp only [bind, Except.bind, pure, Except.pure, ← ih, Except.ok.injEq]
              constructor
              · rintro rfl
                exact ⟨output, frames, rfl, rfl, rfl⟩
              · rintro ⟨_, _, rfl, rfl, rfl⟩
                rfl

/-- What can be sent on every interface is sent in one broadcast. -/
theorem exists_broadcast (iTable : InterfaceTable) (pointers : ℕ → PointerBytes)
    (P : InterfaceRecord → Output → Prop)
    (hEach : ∀ record ∈ iTable.interfaces, ∃ output,
      broadcastOnInterface cache tablePackage pointers record = .ok output ∧ P record output) :
    ∃ outputs, broadcastRouteTable iTable cache tablePackage pointers = .ok outputs ∧
      List.Forall₂ P iTable.interfaces outputs := by
  simp only [broadcastRouteTable_eq_ok_iff]
  generalize iTable.interfaces = interfaces at hEach ⊢
  induction interfaces with
  | nil => exact ⟨[], List.Forall₂.nil, List.Forall₂.nil⟩
  | cons record rest ih =>
      obtain ⟨output, hSend, hOutput⟩ := hEach record List.mem_cons_self
      obtain ⟨outputs, hFrames, hOutputs⟩ :=
        ih fun other hMem => hEach other (List.mem_cons_of_mem record hMem)
      exact ⟨_, List.Forall₂.cons hSend hFrames, List.Forall₂.cons hOutput hOutputs⟩

/-- Every frame of a broadcast is the frame of an interface. -/
theorem mem_broadcastRouteTable {iTable : InterfaceTable} {outputs : List Output}
    (h : broadcastRouteTable iTable cache tablePackage pointers = .ok outputs)
    (hMem : output ∈ outputs) : ∃ record ∈ iTable.interfaces,
      broadcastOnInterface cache tablePackage pointers record = .ok output := by
  have hFrames := broadcastRouteTable_eq_ok_iff.mp h
  obtain ⟨i, hi, rfl⟩ := List.mem_iff_getElem.mp hMem
  have hi' : i < iTable.interfaces.length := hFrames.length_eq ▸ hi
  exact ⟨iTable.interfaces[i], List.getElem_mem hi', hFrames.get hi' hi⟩

end MipStack
