import MipStack.Commons.Definitions
import MipStack.Library.ByteLayout

/-! Ethernet frames, MIP headers and MIP packages
(`mipd/src/lib/packaging/*.c`). -/
namespace MipStack

abbrev MacAddress := Vector UInt8 6

/-- The eight bytes of a pointer as it lies in memory. -/
abbrev PointerBytes := Vector UInt8 8

/-- A pointer argument and the address it points to. -/
structure MacPointer where
  pointer : PointerBytes
  target : MacAddress
  deriving DecidableEq, Repr

def ethBroadcastAddr : MacAddress := Vector.replicate 6 0xff

/-- Ethertype 0x88B5. -/
def ethProtoMip : Vector UInt8 2 := #v[0x88, 0xB5]

structure EtherFrame where
  dstAddr : MacAddress
  srcAddr : MacAddress
  ethProto : Vector UInt8 2
  deriving DecidableEq, Repr

/-- Copies the first six bytes of the two parameters, which are pointers, and
not of the addresses they point to. -/
def createTransportEthernetFrame (src dest : MacPointer) : EtherFrame :=
  { dstAddr := ByteLayout.field 6 0 dest.pointer.toList
    srcAddr := ByteLayout.field 6 0 src.pointer.toList
    ethProto := ethProtoMip }

def createEthernetFrame (dest sllAddr : MacAddress) : EtherFrame :=
  { dstAddr := dest, srcAddr := sllAddr, ethProto := ethProtoMip }

def createEthernetArpFrameFromMacAddrs (macAddress : MacAddress) : EtherFrame :=
  { dstAddr := ethBroadcastAddr, srcAddr := macAddress, ethProto := ethProtoMip }

def EtherFrame.toBytes (frame : EtherFrame) : List UInt8 :=
  frame.dstAddr.toList ++ (frame.srcAddr.toList ++ frame.ethProto.toList)

def EtherFrame.ofBytes (bytes : List UInt8) : EtherFrame :=
  { dstAddr := ByteLayout.field 6 0 bytes
    srcAddr := ByteLayout.field 6 6 bytes
    ethProto := ByteLayout.field 2 12 bytes }

@[simp] theorem EtherFrame.toBytes_length (frame : EtherFrame) : frame.toBytes.length = 14 := by
  simp [toBytes]

/-- The frame header is read back from its fourteen bytes. It is packed, so nothing lies between
its fields. -/
theorem EtherFrame.ofBytes_toBytes (frame : EtherFrame) (rest : List UInt8) :
    ofBytes (frame.toBytes ++ rest) = frame := by
  have hSrc := ByteLayout.field_append 6 0 frame.dstAddr.toList
    (frame.srcAddr.toList ++ (frame.ethProto.toList ++ rest))
  have hProto := ByteLayout.field_append 2 0 (frame.dstAddr.toList ++ frame.srcAddr.toList)
    (frame.ethProto.toList ++ rest)
  rw [ByteLayout.field_toList] at hSrc hProto
  simp only [List.length_append, Vector.length_toList, List.append_assoc] at hSrc hProto
  simp only [ofBytes, toBytes, List.append_assoc]
  rw [ByteLayout.field_toList, hSrc, hProto]

/-- `tra`, `ttl` and `payloadLen` are bit fields that share the first two bytes. -/
structure MIPHeader where
  tra : BitVec 3
  ttl : BitVec 4
  payloadLen : BitVec 9
  dstAddr : MIPAddress
  srcAddr : MIPAddress
  deriving DecidableEq, Repr

def createArpRequestMipHeader (srcAddr : MIPAddress) : MIPHeader :=
  { tra := 1, ttl := 15, payloadLen := 0, dstAddr := 255, srcAddr }

def createTransportMipHeader (srcAddr destAddr : MIPAddress) : MIPHeader :=
  { createArpRequestMipHeader srcAddr with tra := 3, dstAddr := destAddr }

def MIPHeader.toBytes (header : MIPHeader) : List UInt8 :=
  ByteLayout.encode 2
      (header.tra.toNat + 8 * header.ttl.toNat + 128 * header.payloadLen.toNat) ++
    [header.dstAddr, header.srcAddr]

def MIPHeader.ofBytes (bytes : List UInt8) : MIPHeader :=
  let bits := ByteLayout.value (bytes.take 2)
  { tra := BitVec.ofNat 3 bits
    ttl := BitVec.ofNat 4 (bits / 8)
    payloadLen := BitVec.ofNat 9 (bits / 128)
    dstAddr := bytes.getD 2 0
    srcAddr := bytes.getD 3 0 }

@[simp] theorem MIPHeader.toBytes_length (header : MIPHeader) : header.toBytes.length = 4 := by
  simp [toBytes]

/-- The fields of the MIP header share bytes, and all five are read back. -/
theorem MIPHeader.ofBytes_toBytes (header : MIPHeader) (rest : List UInt8) :
    ofBytes (header.toBytes ++ rest) = header := by
  have hTra := header.tra.isLt
  have hTtl := header.ttl.isLt
  have hLen := header.payloadLen.isLt
  have hTake : (header.toBytes ++ rest).take 2 = ByteLayout.encode 2
      (header.tra.toNat + 8 * header.ttl.toNat + 128 * header.payloadLen.toNat) := by
    rw [toBytes, List.append_assoc, List.take_left' (ByteLayout.encode_length 2 _)]
  have hDst : (header.toBytes ++ rest).getD 2 0 = header.dstAddr := rfl
  have hSrc : (header.toBytes ++ rest).getD 3 0 = header.srcAddr := rfl
  simp only [ofBytes, hTake, hDst, hSrc]
  rw [ByteLayout.value_encode (by omega)]
  obtain ⟨tra, ttl, payloadLen, dstAddr, srcAddr⟩ := header
  simp only [MIPHeader.mk.injEq, and_true]
  refine ⟨BitVec.eq_of_toNat_eq ?_, BitVec.eq_of_toNat_eq ?_, BitVec.eq_of_toNat_eq ?_⟩ <;>
    simp only [BitVec.toNat_ofNat] at * <;> omega

def payloadMaxSizeBytes : ℕ := 1496

def payloadMaxWordNum : ℕ := 374

def mipPayloadWord : ℕ := 4

/-- `message` is the whole heap buffer, `[]` for the NULL pointer. -/
structure MIPPackage where
  eFrame : EtherFrame
  mHeader : MIPHeader
  message : List UInt8
  deriving DecidableEq, Repr

/-- The message is padded with zeros to whole words. -/
def calculateMipPayloadWords (messageSize : ℕ) : ℕ :=
  if messageSize % mipPayloadWord ≠ 0 then messageSize / mipPayloadWord + 1
  else messageSize / mipPayloadWord

namespace MIPPackage

def createPayload (package : MIPPackage) (message : List UInt8) : Option MIPPackage :=
  let numberOfWordsNeeded := calculateMipPayloadWords message.length
  if numberOfWordsNeeded ≤ payloadMaxWordNum then
    some { package with
      message := message ++
        List.replicate (numberOfWordsNeeded * mipPayloadWord - message.length) 0
      mHeader := { package.mHeader with payloadLen := BitVec.ofNat 9 numberOfWordsNeeded } }
  else none

/-- `MIPPackage_create` without a message. -/
def createHeaders (eFrame : EtherFrame) (mHeader : MIPHeader) : MIPPackage :=
  { eFrame, mHeader := { mHeader with payloadLen := 0 }, message := [] }

def create (eFrame : EtherFrame) (mHeader : MIPHeader) (message : List UInt8) :
    Option MIPPackage :=
  let newPackage := createHeaders eFrame mHeader
  if message.length > 0 then newPackage.createPayload message else some newPackage

def createRaw (srcMip : MIPAddress) (srcMac : MacPointer) (dstMip : MIPAddress)
    (dstMac : MacPointer) (message : List UInt8) (tra : ℕ) : Option MIPPackage :=
  if tra < 5 then
    let mHeader := { createTransportMipHeader srcMip dstMip with tra := BitVec.ofNat 3 tra }
    create (createTransportEthernetFrame srcMac dstMac) mHeader message
  else none

def createEmpty : Option MIPPackage :=
  create { dstAddr := Vector.replicate 6 0, srcAddr := Vector.replicate 6 0
           ethProto := Vector.replicate 2 0 }
    { tra := 0, ttl := 0, payloadLen := 0, dstAddr := 0, srcAddr := 0 }
    (List.replicate (payloadMaxWordNum * mipPayloadWord) 0)

def createMipArpRequestPacket (srcMip : MIPAddress) (srcMac : MacAddress) : MIPPackage :=
  createHeaders (createEthernetArpFrameFromMacAddrs srcMac) (createArpRequestMipHeader srcMip)

/-- The bytes of the message that the header announces. -/
def payload (package : MIPPackage) : List UInt8 :=
  package.message.take (package.mHeader.payloadLen.toNat * mipPayloadWord)

end MIPPackage

/-- The message followed by zeros up to a whole number of words. -/
def padMessage (message : List UInt8) : List UInt8 :=
  message ++ List.replicate
    (calculateMipPayloadWords message.length * mipPayloadWord - message.length) 0

/-- A message is filled up to the next whole word. -/
theorem length_le_payload_words (size : ℕ) :
    size ≤ calculateMipPayloadWords size * mipPayloadWord ∧
      calculateMipPayloadWords size * mipPayloadWord < size + mipPayloadWord := by
  unfold calculateMipPayloadWords mipPayloadWord
  split_ifs <;> omega

@[simp] theorem padMessage_length (message : List UInt8) :
    (padMessage message).length = calculateMipPayloadWords message.length * mipPayloadWord := by
  have hWords := length_le_payload_words message.length
  rw [padMessage, List.length_append, List.length_replicate]
  omega

namespace MIPPackage

variable {eFrame : EtherFrame} {mHeader : MIPHeader} {message : List UInt8} {package : MIPPackage}

/-- A package is created from every message that fits, and from no other. -/
theorem create_eq_some_iff :
    create eFrame mHeader message = some package ↔
      message.length ≤ payloadMaxSizeBytes ∧ package =
        { eFrame
          mHeader := { mHeader with
            payloadLen := BitVec.ofNat 9 (calculateMipPayloadWords message.length) }
          message := padMessage message } := by
  have hFits : calculateMipPayloadWords message.length ≤ payloadMaxWordNum ↔
      message.length ≤ payloadMaxSizeBytes := by
    unfold calculateMipPayloadWords mipPayloadWord payloadMaxWordNum payloadMaxSizeBytes
    split_ifs <;> omega
  cases message with
  | nil => simp [create, createHeaders, padMessage, calculateMipPayloadWords, eq_comm]
  | cons byte rest =>
      have hPos : (byte :: rest).length > 0 := Nat.succ_pos _
      rw [create, if_pos hPos, createPayload, createHeaders]
      simp only [hFits]
      split_ifs with hLength
      · simp only [hLength, true_and, Option.some.injEq, eq_comm]
        rfl
      · simp only [hLength, false_and]

/-- A package is made for every message that fits into the payload, with the header that its TRA
combination asks for. -/
theorem createRaw_eq {srcMip dstMip : MIPAddress} {srcMac dstMac : MacPointer} {tra : ℕ}
    (hTra : tra < 5) (hFits : message.length ≤ payloadMaxSizeBytes) :
    createRaw srcMip srcMac dstMip dstMac message tra = some
      { eFrame := createTransportEthernetFrame srcMac dstMac
        mHeader := { createTransportMipHeader srcMip dstMip with
          tra := BitVec.ofNat 3 tra
          payloadLen := BitVec.ofNat 9 (calculateMipPayloadWords message.length) }
        message := padMessage message } := by
  rw [createRaw, if_pos hTra]
  exact create_eq_some_iff.mpr ⟨hFits, rfl⟩

/-- The header of a created package announces exactly its message buffer. -/
theorem payload_length_of_create (h : create eFrame mHeader message = some package) :
    package.mHeader.payloadLen.toNat * mipPayloadWord = package.message.length := by
  obtain ⟨hFits, rfl⟩ := create_eq_some_iff.mp h
  have hWords := length_le_payload_words message.length
  have hLt : calculateMipPayloadWords message.length < 2 ^ 9 := by
    unfold payloadMaxSizeBytes at hFits
    unfold mipPayloadWord at hWords
    omega
  rw [padMessage_length, BitVec.toNat_ofNat, Nat.mod_eq_of_lt hLt]

/-- The payload of a package is the message filled up with zeros. -/
theorem payload_of_create (h : create eFrame mHeader message = some package) :
    package.payload = padMessage message := by
  rw [payload, payload_length_of_create h, List.take_length]
  rw [(create_eq_some_iff.mp h).2]

end MIPPackage

end MipStack
