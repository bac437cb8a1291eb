import MipStack.Commons.MIPDMessage
import MipStack.Library.ByteCopy
import MipStack.Mipd.MIPDServer

/-! The indices at which a received frame is read and written. Three lengths meet in
`recv_raw_mip_package`: what was received, the receive buffer and the message buffer. -/
namespace MipStack

/-- What `recv` returns for a frame. The rest of a longer frame is lost. -/
def receivedLength (frame : List UInt8) : ℕ := min frame.length mipPackageMaxSize

/-- `mip_header_payload_length_in_bytes` of the header in the receive buffer. -/
def payloadLenInBytes (frame : List UInt8) : ℕ :=
  (receivedHeader frame).payloadLen.toNat * mipPayloadWord

/-- The headers and the pointer are copied over the package. -/
def headerCopy : ByteCopy := { target := 0, source := 0, count := sizeofMIPPackage }

/-- The payload is copied behind the pointer that the package had before. -/
def messageCopy (frame : List UInt8) : ByteCopy :=
  { target := 0, source := sizeofMIPPackage, count := payloadLenInBytes frame }

/-- The copies out of the receive buffer. -/
def recvCopies (frame : List UInt8) : List ByteCopy := [headerCopy, messageCopy frame]

/-- The result of `recv_raw_mip_package`, -1 only if nothing could be received. -/
def recvResult (frame : List UInt8) : ℤ := receivedLength frame

/-- The receive buffer and what the heap holds behind it. -/
def rawMemory (frame : List UInt8) (heap : ℕ → UInt8) (i : ℕ) : UInt8 :=
  if i < mipPackageMaxSize then (recvBuffer frame).getD i 0 else heap (i - mipPackageMaxSize)

/-- The copies out of the message with the length from the header: into the message for the
application, which checks it, and into the frame in which the package is sent on. -/
def handlerCopies (payloadLenInBytes : ℕ) : List ByteCopy :=
  (if payloadLenInBytes ≤ maxMipMessageDataSize then
    [{ target := 0, source := 0, count := payloadLenInBytes }] else []) ++
  [{ target := sizeofMIPPackage, source := 0, count := payloadLenInBytes }]

/-- Only bytes that were received are copied, and only into the message buffer; a length
that does not fit is refused; and no handler reads behind the message buffer. -/
structure ParsesWithin (frame : List UInt8) : Prop where
  received : ∀ copy ∈ recvCopies frame, ∀ i ∈ copy.reads, i < receivedLength frame
  reserved : ∀ i ∈ (messageCopy frame).writes, i < payloadMaxSizeBytes
  refused : receivedLength frame < sizeofMIPPackage + payloadLenInBytes frame →
    recvResult frame = -1
  handlers : ∀ copy ∈ handlerCopies (payloadLenInBytes frame),
    ∀ i ∈ copy.reads, i < payloadMaxSizeBytes

variable {frame : List UInt8}

theorem recvBuffer_length (frame : List UInt8) :
    (recvBuffer frame).length = mipPackageMaxSize := by
  rw [recvBuffer, List.length_take, List.length_append, List.length_replicate]
  omega

/-- Within what was received, the receive buffer holds the frame. -/
theorem take_drop_recvBuffer {start count : ℕ} (hReceived : start + count ≤ receivedLength frame) :
    ((recvBuffer frame).drop start).take count = (frame.drop start).take count := by
  have hFrame : start + count ≤ frame.length := hReceived.trans (Nat.min_le_left _ _)
  have hBuffer : start + count ≤ mipPackageMaxSize := hReceived.trans (Nat.min_le_right _ _)
  rw [List.take_drop, List.take_drop, recvBuffer, List.take_take, Nat.min_eq_left hBuffer,
    List.take_append_of_le_length hFrame]

/-- A copy out of the receive buffer reads past its end into the heap. -/
theorem map_rawMemory (heap : ℕ → UInt8) {start : ℕ} (hStart : start ≤ mipPackageMaxSize)
    (count : ℕ) : (List.range' start count).map (rawMemory frame heap) =
      ((recvBuffer frame).drop start ++ (List.range count).map heap).take count := by
  have hBuffer := recvBuffer_length frame
  refine List.ext_getElem ?_ fun i hLeft _ => ?_
  · simp only [List.length_map, List.length_range', List.length_take, List.length_append,
      List.length_range, List.length_drop]
    omega
  · have hCount : i < count := by simpa using hLeft
    rw [List.getElem_map, List.getElem_range', Nat.one_mul, List.getElem_take, rawMemory]
    split_ifs with hInside
    · have hIndex : start + i < (recvBuffer frame).length := hInside.trans_eq hBuffer.symm
      rw [List.getElem_append_left (by rw [List.length_drop]; omega), List.getElem_drop,
        List.getD_eq_getElem?_getD, List.getElem?_eq_getElem hIndex, Option.getD_some]
    · have hBehind : start + i - mipPackageMaxSize =
          i - ((recvBuffer frame).drop start).length := by
        rw [List.length_drop, hBuffer]
        omega
      rw [List.getElem_append_right (by rw [List.length_drop]; omega), List.getElem_map,
        List.getElem_range, hBehind]

/-- What `recv_raw_mip_package` computes is what its copies do to the message buffer. -/
theorem recvRawMipPackage_eq_run (frame : List UInt8) (heap : ℕ → UInt8) (package : MIPPackage) :
    recvRawMipPackage frame heap package =
      if payloadLenInBytes frame ≤ package.message.length then
        some { eFrame := EtherFrame.ofBytes (recvBuffer frame)
               mHeader := receivedHeader frame
               message := (messageCopy frame).run (rawMemory frame heap) package.message }
      else none := by
  have hLen : (MIPHeader.ofBytes ((recvBuffer frame).drop 14)).payloadLen.toNat * mipPayloadWord =
      payloadLenInBytes frame := rfl
  have hStart : sizeofMIPPackage ≤ mipPackageMaxSize := by decide
  unfold recvRawMipPackage
  simp only [hLen]
  split_ifs with hRoom
  · have hFits : (messageCopy frame).target + (messageCopy frame).count ≤
        package.message.length := (Nat.zero_add _).trans_le hRoom
    rw [ByteCopy.run_eq _ _ hFits, ByteCopy.reads, messageCopy, map_rawMemory heap hStart,
      List.take_zero, List.nil_append, Nat.zero_add]
    rfl
  · rfl

/-- The headers are copied also when there is no payload. -/
theorem reads_received_iff :
    (∀ copy ∈ recvCopies frame, ∀ i ∈ copy.reads, i < receivedLength frame) ↔
      sizeofMIPPackage + payloadLenInBytes frame ≤ receivedLength frame := by
  simp only [recvCopies, List.forall_mem_cons, List.not_mem_nil, IsEmpty.forall_iff, implies_true,
    and_true, ByteCopy.reads_lt_iff, headerCopy, messageCopy]
  unfold sizeofMIPPackage
  omega

/-- The copy stays in the message buffer exactly if the announced payload does: the length in the
header is all that decides. -/
theorem writes_reserved_iff :
    (∀ i ∈ (messageCopy frame).writes, i < payloadMaxSizeBytes) ↔
      payloadLenInBytes frame ≤ payloadMaxSizeBytes := by
  simp only [ByteCopy.writes_lt_iff, messageCopy]
  omega

/-- The application is protected by the check of `MIPDMessage_create`, the next hop is not. -/
theorem handlers_read_iff (payloadLenInBytes : ℕ) :
    (∀ copy ∈ handlerCopies payloadLenInBytes, ∀ i ∈ copy.reads, i < payloadMaxSizeBytes) ↔
      payloadLenInBytes ≤ payloadMaxSizeBytes := by
  have hSame : maxMipMessageDataSize = payloadMaxSizeBytes := rfl
  rw [handlerCopies, hSame]
  split_ifs with hFits
  · simp only [List.cons_append, List.nil_append, List.forall_mem_cons, List.not_mem_nil,
      IsEmpty.forall_iff, implies_true, and_true, ByteCopy.reads_lt_iff]
    omega
  · simp only [List.nil_append, List.forall_mem_cons, List.not_mem_nil, IsEmpty.forall_iff,
      implies_true, and_true, ByteCopy.reads_lt_iff]
    omega

/-- A frame that fits is received as it was sent, whatever the heap holds. -/
theorem payload_received {heap : ℕ → UInt8} {package received : MIPPackage}
    (hFits : sizeofMIPPackage + payloadLenInBytes frame ≤ receivedLength frame)
    (h : recvRawMipPackage frame heap package = some received) :
    received.payload = (frame.drop sizeofMIPPackage).take (payloadLenInBytes frame) := by
  have hBuffer := hFits.trans (Nat.min_le_right _ _)
  have hLength : ((recvBuffer frame).drop sizeofMIPPackage).length =
      mipPackageMaxSize - sizeofMIPPackage := by
    rw [List.length_drop, recvBuffer_length]
  rw [recvRawMipPackage_eq_run] at h
  split_ifs at h with hRoom
  obtain rfl := Option.some.inj h
  have hTarget : (messageCopy frame).target + (messageCopy frame).count ≤
      package.message.length := (Nat.zero_add _).trans_le hRoom
  have hPayload : (receivedHeader frame).payloadLen.toNat * mipPayloadWord =
      payloadLenInBytes frame := rfl
  have hInside : payloadLenInBytes frame ≤ ((recvBuffer frame).drop sizeofMIPPackage).length := by
    omega
  have hCopied : (messageCopy frame).reads.map (rawMemory frame heap) =
      (frame.drop sizeofMIPPackage).take (payloadLenInBytes frame) := by
    rw [← take_drop_recvBuffer hFits, ← List.take_append_of_le_length hInside]
    exact map_rawMemory heap (Nat.le_of_add_right_le hBuffer) _
  have hCount : ((messageCopy frame).reads.map (rawMemory frame heap)).length =
      payloadLenInBytes frame := by
    rw [List.length_map, ByteCopy.reads, List.length_range', messageCopy]
  rw [MIPPackage.payload, hPayload, ByteCopy.run_eq _ _ hTarget, ← hCopied]
  exact List.take_left' hCount

/-- Frames are parsed within bounds exactly if the receive buffer has taken the payload
that they announce. -/
theorem parses_within_iff (frame : List UInt8) :
    ParsesWithin frame ↔
      sizeofMIPPackage + payloadLenInBytes frame ≤ min frame.length mipPackageMaxSize := by
  constructor
  · intro hWithin
    exact reads_received_iff.mp hWithin.received
  · intro hFits
    have hRoom : payloadLenInBytes frame ≤ payloadMaxSizeBytes := by
      have hBuffer := hFits.trans (Nat.min_le_right _ _)
      unfold sizeofMIPPackage mipPackageMaxSize at hBuffer
      unfold payloadMaxSizeBytes
      omega
    exact {
      received := reads_received_iff.mpr hFits
      reserved := writes_reserved_iff.mpr hRoom
      refused := fun hShort => absurd hFits (Nat.not_le.mpr hShort)
      handlers := (handlers_read_iff _).mpr hRoom }

/-- A frame without payload can announce 2044 bytes: they are copied from behind the frame,
the last of them behind the message buffer, and the package is received. -/
theorem announced_payload_overruns :
    let frame := sendtoRawMipPackage
      ⟨⟨ethBroadcastAddr, ethBroadcastAddr, ethProtoMip⟩, ⟨3, 15, 511, 20, 10⟩, []⟩
      (Vector.replicate 8 0)
    frame.length = sizeofMIPPackage ∧ recvResult frame = sizeofMIPPackage ∧
      (∃ i ∈ (messageCopy frame).reads, receivedLength frame ≤ i) ∧
      (∃ i ∈ (messageCopy frame).writes, payloadMaxSizeBytes ≤ i) ∧ ¬ ParsesWithin frame := by
  intro frame
  have hHeader : receivedHeader frame = ⟨3, 15, 511, 20, 10⟩ := receivedHeader_sendto _ _
  have hPayload : payloadLenInBytes frame = 2044 := by
    rw [payloadLenInBytes, hHeader]
    rfl
  have hReceived : receivedLength frame = sizeofMIPPackage := rfl
  have hRead : 26 ∈ (messageCopy frame).reads := by
    rw [ByteCopy.reads, messageCopy, hPayload]
    exact List.mem_range'_1.mpr ⟨by decide, by decide⟩
  have hWritten : 1496 ∈ (messageCopy frame).writes := by
    rw [ByteCopy.writes, messageCopy, hPayload]
    exact List.mem_range'_1.mpr ⟨by decide, by decide⟩
  refine ⟨rfl, rfl, ⟨26, hRead, hReceived.le⟩, ⟨1496, hWritten, Nat.le_refl _⟩, fun hWithin => ?_⟩
  exact absurd (hWithin.reserved 1496 hWritten) (Nat.lt_irrefl _)

end MipStack
