import MipStack.Mipd.Packaging

/-! MIP packages on raw sockets (`mipd/src/lib/link.c`). The receive buffer is
shorter than the longest package, and the wire carries a pointer. -/
namespace MipStack

/-- The frame, the header and the message pointer of the packed structure. -/
def sizeofMIPPackage : ℕ := 26

def mipPackageMaxSize : ℕ := 188

/-- The bytes handed to the raw socket; the pointer to the message is sent along. -/
def sendtoRawMipPackage (package : MIPPackage) (pointer : PointerBytes) : List UInt8 :=
  package.eFrame.toBytes ++ (package.mHeader.toBytes ++ (pointer.toList ++ package.payload))

/-- What the zeroed buffer holds after reading one frame from the socket. -/
def recvBuffer (frame : List UInt8) : List UInt8 :=
  (frame ++ List.replicate mipPackageMaxSize 0).take mipPackageMaxSize

/-- The message bytes are read where the buffer holds them and, past its end,
from whatever the heap holds there. `none` when they are more than the message
buffer of the package has room for. -/
def recvRawMipPackage (frame : List UInt8) (heap : ℕ → UInt8) (package : MIPPackage) :
    Option MIPPackage :=
  let rawPackage := recvBuffer frame
  let mHeader := MIPHeader.ofBytes (rawPackage.drop 14)
  let payloadLenInBytes := mHeader.payloadLen.toNat * mipPayloadWord
  let bytes := (rawPackage.drop sizeofMIPPackage ++ (List.range payloadLenInBytes).map heap).take
    payloadLenInBytes
  if payloadLenInBytes ≤ package.message.length then
    some {
      eFrame := EtherFrame.ofBytes rawPackage
      mHeader
      message := bytes ++ package.message.drop payloadLenInBytes }
  else none

/-- The payload bytes of one package that fit into the receive buffer. -/
def payloadRoom : ℕ := mipPackageMaxSize - sizeofMIPPackage

theorem payloadRoom_eq : payloadRoom = 162 := rfl

variable {package : MIPPackage} {heap : ℕ → UInt8}
  {eFrame : EtherFrame} {mHeader : MIPHeader} {message : List UInt8}

/-- The buffer keeps what the first 188 bytes of a frame hold. -/
theorem recvBuffer_append (start rest : List UInt8) (hStart : start.length = sizeofMIPPackage) :
    recvBuffer (start ++ rest) =
      start ++ (rest ++ List.replicate mipPackageMaxSize 0).take payloadRoom := by
  have hShort : start.length ≤ mipPackageMaxSize := by
    rw [hStart, sizeofMIPPackage, mipPackageMaxSize]
    omega
  rw [recvBuffer, List.append_assoc, List.take_append, List.take_of_length_le hShort, hStart]
  rfl

/-- The bytes copied out of the buffer and past its end. -/
theorem take_buffer_append_heap (payload : List UInt8) (heap : ℕ → UInt8) :
    ((payload ++ List.replicate mipPackageMaxSize 0).take payloadRoom ++
        (List.range payload.length).map heap).take payload.length =
      payload.take payloadRoom ++ (List.range (payload.length - payloadRoom)).map heap := by
  have hZeros : payloadRoom ≤ (payload ++ List.replicate mipPackageMaxSize (0 : UInt8)).length := by
    rw [List.length_append, List.length_replicate, payloadRoom]
    omega
  rcases Nat.le_total payload.length payloadRoom with hShort | hLong
  · rw [Nat.sub_eq_zero_of_le hShort, List.take_of_length_le hShort,
      List.take_append_of_le_length (by rw [List.length_take]; omega), List.take_take,
      Nat.min_eq_left hShort, List.take_left' rfl]
    simp
  · rw [List.take_append_of_le_length hLong, List.take_append, List.take_take,
      Nat.min_eq_right hLong, List.length_take, Nat.min_eq_left hLong, ← List.map_take,
      List.take_range, Nat.min_eq_left (Nat.sub_le _ _)]

/-- What arrives of a payload: as much as the receive buffer has room for; the
rest is taken from the heap. -/
def arrivingPayload (payload : List UInt8) (heap : ℕ → UInt8) : List UInt8 :=
  payload.take payloadRoom ++ (List.range (payload.length - payloadRoom)).map heap

@[simp] theorem arrivingPayload_length (payload : List UInt8) (heap : ℕ → UInt8) :
    (arrivingPayload payload heap).length = payload.length := by
  simp only [arrivingPayload, List.length_append, List.length_take, List.length_map,
    List.length_range]
  omega

/-- A payload of up to 162 bytes arrives as it was sent. -/
theorem arrivingPayload_of_le {payload : List UInt8} (hShort : payload.length ≤ payloadRoom) :
    arrivingPayload payload heap = payload := by
  rw [arrivingPayload, Nat.sub_eq_zero_of_le hShort, List.take_of_length_le hShort]
  exact List.append_nil payload

/-- Some heap does not hold the first byte past the receive buffer. -/
theorem exists_arrivingPayload_ne {payload : List UInt8} (hLong : payloadRoom < payload.length) :
    ∃ heap, arrivingPayload payload heap ≠ payload := by
  refine ⟨fun _ => payload[payloadRoom] + 1, fun hSame => ?_⟩
  have hByte := congrArg (fun bytes => bytes[payloadRoom]?) hSame
  simp only [arrivingPayload] at hByte
  rw [List.getElem?_append_right (by rw [List.length_take]; omega), List.length_take,
    Nat.min_eq_left hLong.le, Nat.sub_self, List.getElem?_map,
    List.getElem?_range (by omega), List.getElem?_eq_getElem hLong] at hByte
  simp at hByte

/-- The header at its place in the receive buffer. -/
def receivedHeader (frame : List UInt8) : MIPHeader :=
  MIPHeader.ofBytes ((recvBuffer frame).drop 14)

/-- What is received of a frame: both headers, the eight bytes of the message pointer and the
payload as far as the buffer has room. -/
theorem recvBuffer_sendto (package : MIPPackage) (pointer : PointerBytes) :
    recvBuffer (sendtoRawMipPackage package pointer) =
      package.eFrame.toBytes ++ (package.mHeader.toBytes ++ (pointer.toList ++
        (package.payload ++ List.replicate mipPackageMaxSize 0).take payloadRoom)) := by
  have hStart : (package.eFrame.toBytes ++ (package.mHeader.toBytes ++ pointer.toList)).length =
      sizeofMIPPackage := by
    simp [sizeofMIPPackage]
  simpa only [sendtoRawMipPackage, List.append_assoc] using
    recvBuffer_append _ package.payload hStart

/-- The header of a package survives the wire: it is in front of the message pointer. -/
theorem receivedHeader_sendto (package : MIPPackage) (pointer : PointerBytes) :
    receivedHeader (sendtoRawMipPackage package pointer) = package.mHeader := by
  rw [receivedHeader, recvBuffer_sendto, List.drop_left' (EtherFrame.toBytes_length _),
    MIPHeader.ofBytes_toBytes]

/-- A frame is received exactly if the payload it announces fits into the message
buffer, and its header is taken as it is. -/
theorem recvRawMipPackage_eq_some {frame : List UInt8} {empty received : MIPPackage}
    (h : recvRawMipPackage frame heap empty = some received) :
    received.mHeader = receivedHeader frame ∧
      received.mHeader.payloadLen.toNat * mipPayloadWord ≤ empty.message.length := by
  unfold recvRawMipPackage at h
  simp only at h
  split_ifs at h with hRoom
  obtain rfl := Option.some.inj h
  exact ⟨rfl, hRoom⟩

/-- A frame is parsed without an overrun if the length in its header is at most that of the
message buffer. -/
theorem recvRawMipPackage_isSome {frame : List UInt8} {empty : MIPPackage}
    (hRoom : (receivedHeader frame).payloadLen.toNat * mipPayloadWord ≤ empty.message.length) :
    (recvRawMipPackage frame heap empty).isSome := by
  unfold receivedHeader at hRoom
  unfold recvRawMipPackage
  simp only
  rw [if_pos hRoom]
  rfl

/-- What arrives of a package that was sent: its headers, and its payload as far as the receive
buffer has room. -/
theorem recv_sendto {empty : MIPPackage} (pointer : PointerBytes) (heap : ℕ → UInt8)
    (hLength : package.payload.length = package.mHeader.payloadLen.toNat * mipPayloadWord)
    (hRoom : package.payload.length ≤ empty.message.length) :
    recvRawMipPackage (sendtoRawMipPackage package pointer) heap empty = some { package with
      message := arrivingPayload package.payload heap ++
        empty.message.drop package.payload.length } := by
  have hFrame : EtherFrame.ofBytes (recvBuffer (sendtoRawMipPackage package pointer)) =
      package.eFrame := by
    rw [recvBuffer_sendto, EtherFrame.ofBytes_toBytes]
  have hHeader := receivedHeader_sendto package pointer
  have hPayload : (recvBuffer (sendtoRawMipPackage package pointer)).drop sizeofMIPPackage =
      (package.payload ++ List.replicate mipPackageMaxSize 0).take payloadRoom := by
    rw [recvBuffer_sendto, ← List.append_assoc, ← List.append_assoc,
      List.drop_left' (by simp [sizeofMIPPackage])]
  unfold receivedHeader at hHeader
  rw [recvRawMipPackage]
  simp only [hFrame, hHeader, hPayload, ← hLength, if_pos hRoom, take_buffer_append_heap]
  rfl

namespace MIPPackage

/-- The empty package that a frame is received into has room for 374 words. -/
theorem exists_createEmpty : ∃ empty, createEmpty = some empty ∧
    empty.message.length = payloadMaxSizeBytes := by
  refine ⟨_, create_eq_some_iff.mpr ⟨?_, rfl⟩, ?_⟩
  · rw [List.length_replicate]
    exact Nat.le_refl _
  · rw [padMessage_length, List.length_replicate]
    rfl

/-- The receiver's view of a created package that was sent to it. -/
theorem exists_recv_of_create (h : create eFrame mHeader message = some package)
    (pointer : PointerBytes) (heap : ℕ → UInt8) : ∃ empty received,
      createEmpty = some empty ∧
      recvRawMipPackage (sendtoRawMipPackage package pointer) heap empty = some received ∧
      received.eFrame = eFrame ∧
      received.mHeader = { mHeader with
        payloadLen := BitVec.ofNat 9 (calculateMipPayloadWords message.length) } ∧
      received.payload = arrivingPayload (padMessage message) heap := by
  obtain ⟨empty, hEmpty, hRoom⟩ := exists_createEmpty
  have hPayload := payload_of_create h
  have hLength : package.payload.length = package.mHeader.payloadLen.toNat * mipPayloadWord := by
    rw [payload_length_of_create h, payload, payload_length_of_create h, List.take_length]
  obtain ⟨hFits, hPackage⟩ := create_eq_some_iff.mp h
  have hWords : package.payload.length ≤ empty.message.length := by
    rw [hPayload, padMessage_length, hRoom]
    unfold payloadMaxSizeBytes at *
    unfold calculateMipPayloadWords mipPayloadWord
    split_ifs <;> omega
  refine ⟨empty, _, hEmpty, recv_sendto pointer heap hLength hWords, ?_, ?_, ?_⟩
  · rw [hPackage]
  · rw [hPackage]
  · rw [MIPPackage.payload, ← hLength, List.take_left' (arrivingPayload_length _ _), hPayload]

end MIPPackage

/-- A created package arrives intact, whatever the heap holds, exactly if its
message has at most 160 bytes. -/
theorem frame_survives_wire_iff (eFrame : EtherFrame) (mHeader : MIPHeader)
    (message : List UInt8) (pointer : PointerBytes) (package : MIPPackage)
    (hCreate : MIPPackage.create eFrame mHeader message = some package) :
    (∀ heap, ∃ empty received, MIPPackage.createEmpty = some empty ∧
        recvRawMipPackage (sendtoRawMipPackage package pointer) heap empty = some received ∧
        received.eFrame = eFrame ∧
        received.mHeader = { mHeader with
          payloadLen := BitVec.ofNat 9 ((message.length + 3) / 4) } ∧
        ∃ padding < 4, received.payload = message ++ List.replicate padding 0) ↔
      message.length ≤ 160 := by
  have hWords := length_le_payload_words message.length
  have hCeil : calculateMipPayloadWords message.length = (message.length + 3) / 4 := by
    unfold mipPayloadWord at hWords
    omega
  rw [← hCeil]
  constructor
  · intro hArrives
    by_contra hLong
    have hBeyond : payloadRoom < (padMessage message).length := by
      simp only [padMessage_length, payloadRoom_eq]
      unfold mipPayloadWord at *
      omega
    obtain ⟨heap, hDamaged⟩ := exists_arrivingPayload_ne hBeyond
    obtain ⟨empty, received, hEmpty, hRecv, -, -, padding, -, hPayload⟩ := hArrives heap
    obtain ⟨empty', received', hEmpty', hRecv', -, -, hPayload'⟩ :=
      MIPPackage.exists_recv_of_create hCreate pointer heap
    obtain rfl := Option.some.inj (hEmpty.symm.trans hEmpty')
    obtain rfl := Option.some.inj (hRecv.symm.trans hRecv')
    rw [hPayload'] at hPayload
    have hPadding := congrArg List.length hPayload
    rw [arrivingPayload_length, padMessage_length, List.length_append,
      List.length_replicate] at hPadding
    refine hDamaged (hPayload.trans ?_)
    rw [padMessage, hPadding, Nat.add_sub_cancel_left]
  · intro hShort heap
    obtain ⟨empty, received, hEmpty, hRecv, hFrame, hHeader, hPayload⟩ :=
      MIPPackage.exists_recv_of_create hCreate pointer heap
    refine ⟨empty, received, hEmpty, hRecv, hFrame, hHeader,
      calculateMipPayloadWords message.length * mipPayloadWord - message.length, ?_, ?_⟩
    · unfold mipPayloadWord at *
      omega
    · have hRoom : (padMessage message).length ≤ payloadRoom := by
        simp only [padMessage_length, payloadRoom_eq]
        unfold mipPayloadWord at *
        omega
      rw [hPayload, arrivingPayload_of_le hRoom, padMessage]

/-- A message of five bytes arrives with three bytes of padding, which make up its second word. -/
theorem short_frame_survives_wire :
    (∀ heap, ∃ empty received, MIPPackage.createEmpty = some empty ∧
        recvRawMipPackage (sendtoRawMipPackage
          ⟨⟨ethBroadcastAddr, ethBroadcastAddr, ethProtoMip⟩, ⟨3, 15, 2, 20, 10⟩,
            [1, 2, 3, 4, 5, 0, 0, 0]⟩ (Vector.replicate 8 0)) heap empty = some received ∧
        received.eFrame = ⟨ethBroadcastAddr, ethBroadcastAddr, ethProtoMip⟩ ∧
        received.mHeader = ⟨3, 15, 2, 20, 10⟩ ∧
        ∃ padding < 4, received.payload = [1, 2, 3, 4, 5] ++ List.replicate padding 0) ↔
      [1, 2, 3, 4, 5].length ≤ 160 :=
  frame_survives_wire_iff ⟨ethBroadcastAddr, ethBroadcastAddr, ethProtoMip⟩
    (createTransportMipHeader 10 20) [1, 2, 3, 4, 5] (Vector.replicate 8 0) _ rfl

/-- Of a message of 200 bytes only the first 162 arrive. The rest of its words is read from the
heap. -/
theorem long_message_is_cut :
    ∃ package, MIPPackage.create ⟨ethBroadcastAddr, ethBroadcastAddr, ethProtoMip⟩
        (createTransportMipHeader 10 20) (List.replicate 200 7) = some package ∧
      ∀ empty received, MIPPackage.createEmpty = some empty →
        recvRawMipPackage (sendtoRawMipPackage package (Vector.replicate 8 0)) (fun _ => 0) empty =
          some received →
        ∀ padding < 4, received.payload ≠ List.replicate 200 7 ++ List.replicate padding 0 := by
  have hFits : (List.replicate 200 (7 : UInt8)).length ≤ payloadMaxSizeBytes := by
    rw [List.length_replicate, payloadMaxSizeBytes]
    omega
  obtain ⟨package, hCreate⟩ : ∃ package,
      MIPPackage.create ⟨ethBroadcastAddr, ethBroadcastAddr, ethProtoMip⟩
        (createTransportMipHeader 10 20) (List.replicate 200 7) = some package :=
    ⟨_, MIPPackage.create_eq_some_iff.mpr ⟨hFits, rfl⟩⟩
  refine ⟨package, hCreate, fun empty received hEmpty hRecv padding _ hPayload => ?_⟩
  obtain ⟨empty', received', hEmpty', hRecv', -, -, hPayload'⟩ :=
    MIPPackage.exists_recv_of_create hCreate (Vector.replicate 8 0) fun _ => 0
  obtain rfl := Option.some.inj (hEmpty.symm.trans hEmpty')
  obtain rfl := Option.some.inj (hRecv.symm.trans hRecv')
  have hByte := congrArg (fun bytes => bytes[170]?) (hPayload'.symm.trans hPayload)
  have hIndex : 170 < (List.replicate 200 (7 : UInt8)).length := by
    rw [List.length_replicate]
    omega
  simp only [List.getElem?_append_left hIndex] at hByte
  revert hByte
  decide +kernel

end MipStack
