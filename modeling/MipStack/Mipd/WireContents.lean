import MipStack.Mipd.Link

/-! What a frame shows of the package that was sent. Two packages with the same contents are
compared, which differ in where the contents lie in memory. -/
namespace MipStack

/-- What a package is made from, wherever it lies in memory. -/
structure Contents where
  dstMac : MacAddress
  srcMac : MacAddress
  dstMip : MIPAddress
  srcMip : MIPAddress
  tra : ℕ
  message : List UInt8
  deriving DecidableEq, Repr

/-- The arguments of `MIPPackage_create` and of `MIPPackage_create_raw`. -/
inductive Construction where
  | create (eFrame : EtherFrame) (mHeader : MIPHeader) (message : List UInt8)
  | raw (srcMip : MIPAddress) (srcMac : MacPointer) (dstMip : MIPAddress) (dstMac : MacPointer)
      (message : List UInt8) (tra : ℕ)
  deriving DecidableEq, Repr

namespace Construction

def build : Construction → Option MIPPackage
  | create eFrame mHeader message => MIPPackage.create eFrame mHeader message
  | raw srcMip srcMac dstMip dstMac message tra =>
      MIPPackage.createRaw srcMip srcMac dstMip dstMac message tra

def contents : Construction → Contents
  | create eFrame mHeader message =>
      { dstMac := eFrame.dstAddr, srcMac := eFrame.srcAddr, dstMip := mHeader.dstAddr,
        srcMip := mHeader.srcAddr, tra := mHeader.tra.toNat, message }
  | raw srcMip srcMac dstMip dstMac message tra =>
      { dstMac := dstMac.target, srcMac := srcMac.target, dstMip, srcMip, tra, message }

/-- The addresses of the frame are the given ones: for `MIPPackage_create_raw` only if the
pointers happen to begin with the bytes that they point to. -/
def KeepsAddresses : Construction → Prop
  | create _ _ _ => True
  | raw _ srcMac _ dstMac _ _ =>
      ByteLayout.field 6 0 dstMac.pointer.toList = dstMac.target ∧
        ByteLayout.field 6 0 srcMac.pointer.toList = srcMac.target

end Construction

/-- The Ethernet header with the given addresses, the MIP header and the announced words. -/
def contentBytes (contents : Contents) (package : MIPPackage) : List UInt8 :=
  { package.eFrame with dstAddr := contents.dstMac, srcAddr := contents.srcMac }.toBytes ++
    (package.mHeader.toBytes ++ package.payload)

/-- Two packages with these contents, whose messages lie at `pointer` and at `pointer'`, are
sent as the same bytes, and these are nothing but the contents. -/
structure CarriesOnly (contents : Contents) (package package' : MIPPackage)
    (pointer pointer' : PointerBytes) : Prop where
  identical : sendtoRawMipPackage package pointer = sendtoRawMipPackage package' pointer'
  layout : sendtoRawMipPackage package pointer = contentBytes contents package
  bounded : (sendtoRawMipPackage package pointer).length ≤ 14 + 1500

variable {construction construction' : Construction} {package package' : MIPPackage}
  {pointer pointer' : PointerBytes} {contents : Contents}

/-- A frame is eight bytes longer than its package: the message pointer is sent between header and
payload. -/
theorem sendto_length (package : MIPPackage) (pointer : PointerBytes) :
    (sendtoRawMipPackage package pointer).length = 14 + (4 + package.payload.length) + 8 := by
  simp only [sendtoRawMipPackage, List.length_append, EtherFrame.toBytes_length,
    MIPHeader.toBytes_length, Vector.length_toList]
  omega

/-- The package as it should be on the wire has no pointer. -/
theorem contentBytes_length (contents : Contents) (package : MIPPackage) :
    (contentBytes contents package).length = 14 + (4 + package.payload.length) := by
  simp only [contentBytes, List.length_append, EtherFrame.toBytes_length,
    MIPHeader.toBytes_length]

/-- The eight bytes of the message pointer are sent along. -/
theorem sendto_ne_contentBytes (contents : Contents) (package : MIPPackage)
    (pointer : PointerBytes) :
    sendtoRawMipPackage package pointer ≠ contentBytes contents package := by
  intro hSame
  have hLength := congrArg List.length hSame
  rw [sendto_length, contentBytes_length] at hLength
  omega

/-- Every part of a frame can be told from its bytes, the pointer included. -/
theorem sendto_eq_sendto_iff :
    sendtoRawMipPackage package pointer = sendtoRawMipPackage package' pointer' ↔
      package.eFrame = package'.eFrame ∧ package.mHeader = package'.mHeader ∧
        pointer = pointer' ∧ package.payload = package'.payload := by
  constructor
  · intro hSame
    have hFrame := congrArg EtherFrame.ofBytes hSame
    have hHeader := congrArg receivedHeader hSame
    rw [sendtoRawMipPackage, sendtoRawMipPackage, EtherFrame.ofBytes_toBytes,
      EtherFrame.ofBytes_toBytes] at hFrame
    rw [receivedHeader_sendto, receivedHeader_sendto] at hHeader
    rw [sendtoRawMipPackage, sendtoRawMipPackage, hFrame, hHeader] at hSame
    have hRest := List.append_cancel_left (List.append_cancel_left hSame)
    have hPointers : pointer.toList.length = pointer'.toList.length := by
      rw [Vector.length_toList, Vector.length_toList]
    obtain ⟨hPointer, hPayload⟩ := List.append_inj hRest hPointers
    exact ⟨hFrame, hHeader, Vector.toList_inj.mp hPointer, hPayload⟩
  · rintro ⟨hFrame, hHeader, rfl, hPayload⟩
    rw [sendtoRawMipPackage, sendtoRawMipPackage, hFrame, hHeader, hPayload]

namespace Construction

/-- Both constructors end in `MIPPackage_create`, with the message and the header that they were
given. -/
theorem exists_create (h : construction.build = some package) :
    ∃ eFrame mHeader, MIPPackage.create eFrame mHeader construction.contents.message =
        some package ∧
      mHeader.dstAddr = construction.contents.dstMip ∧
      mHeader.srcAddr = construction.contents.srcMip ∧
      mHeader.tra.toNat = construction.contents.tra := by
  cases construction with
  | create eFrame mHeader message => exact ⟨eFrame, mHeader, h, rfl, rfl, rfl⟩
  | raw srcMip srcMac dstMip dstMac message tra =>
      rw [build, MIPPackage.createRaw] at h
      split_ifs at h with hTra
      refine ⟨_, _, h, rfl, rfl, ?_⟩
      exact (BitVec.toNat_ofNat _ _).trans (Nat.mod_eq_of_lt (by omega))

/-- Every constructor pads its message in the same way. -/
theorem payload_of_build (h : construction.build = some package) :
    package.payload = padMessage construction.contents.message := by
  obtain ⟨eFrame, mHeader, hCreate, -⟩ := exists_create h
  exact MIPPackage.payload_of_create hCreate

/-- The headers of packages with the same contents can differ in the TTL only. -/
theorem mHeader_eq_iff (h : construction.build = some package)
    (h' : construction'.build = some package')
    (hContents : construction.contents = construction'.contents) :
    package.mHeader = package'.mHeader ↔ package.mHeader.ttl = package'.mHeader.ttl := by
  obtain ⟨eFrame, mHeader, hCreate, hDst, hSrc, hTra⟩ := exists_create h
  obtain ⟨eFrame', mHeader', hCreate', hDst', hSrc', hTra'⟩ := exists_create h'
  obtain ⟨-, rfl⟩ := MIPPackage.create_eq_some_iff.mp hCreate
  obtain ⟨-, rfl⟩ := MIPPackage.create_eq_some_iff.mp hCreate'
  rw [← hContents] at hDst' hSrc' hTra' ⊢
  have hSameTra : mHeader.tra = mHeader'.tra := BitVec.eq_of_toNat_eq (hTra.trans hTra'.symm)
  simp only [MIPHeader.mk.injEq, hSameTra, hDst, hSrc, hDst', hSrc', and_self, and_true, true_and]

/-- The addresses of the frame are the given ones exactly if the constructor keeps them. -/
theorem keepsAddresses_iff (h : construction.build = some package) :
    package.eFrame.dstAddr = construction.contents.dstMac ∧
        package.eFrame.srcAddr = construction.contents.srcMac ↔ construction.KeepsAddresses := by
  cases construction with
  | create eFrame mHeader message =>
      obtain ⟨-, rfl⟩ := MIPPackage.create_eq_some_iff.mp h
      exact iff_of_true ⟨rfl, rfl⟩ trivial
  | raw srcMip srcMac dstMip dstMac message tra =>
      rw [build, MIPPackage.createRaw] at h
      split_ifs at h with hTra
      obtain ⟨-, rfl⟩ := MIPPackage.create_eq_some_iff.mp h
      exact Iff.rfl

end Construction

/-- No frame carries the package and nothing else. Its bytes depend on the address of the
message, and eight of them are too many; for messages of more than 1488 bytes the frame is
longer than the longest package. The addresses are not always the given ones either. -/
theorem never_carries_only (construction construction' : Construction)
    (package package' : MIPPackage) (pointer pointer' : PointerBytes)
    (hBuild : construction.build = some package) (hBuild' : construction'.build = some package')
    (hContents : construction.contents = construction'.contents) :
    ¬ CarriesOnly construction.contents package package' pointer pointer' ∧
      (sendtoRawMipPackage package pointer).length =
        (contentBytes construction.contents package).length + 8 ∧
      ((sendtoRawMipPackage package pointer).length ≤ 14 + 1500 ↔
        construction.contents.message.length ≤ 1488) ∧
      (sendtoRawMipPackage package pointer = sendtoRawMipPackage package' pointer' ↔
        package.eFrame = package'.eFrame ∧ package.mHeader.ttl = package'.mHeader.ttl ∧
          pointer = pointer') ∧
      (package.eFrame.dstAddr = construction.contents.dstMac ∧
          package.eFrame.srcAddr = construction.contents.srcMac ↔
        construction.KeepsAddresses) := by
  have hPayload := Construction.payload_of_build hBuild
  have hPayload' := Construction.payload_of_build hBuild'
  refine ⟨fun hOnly => sendto_ne_contentBytes _ _ _ hOnly.layout, ?_, ?_, ?_,
    Construction.keepsAddresses_iff hBuild⟩
  · rw [sendto_length, contentBytes_length]
  · have hWords := length_le_payload_words construction.contents.message.length
    rw [sendto_length, hPayload, padMessage_length]
    unfold mipPayloadWord at *
    omega
  · rw [sendto_eq_sendto_iff, Construction.mHeader_eq_iff hBuild hBuild' hContents, hPayload,
      hPayload', hContents]
    simp only [and_true]

/-- Two messages of the same bytes that lie at different addresses. Their frames cannot both be
the package. -/
theorem never_carries_only_at_two_addresses :
    ¬ CarriesOnly ⟨ethBroadcastAddr, ethBroadcastAddr, 20, 10, 3, [7, 0, 0, 0]⟩
      ⟨⟨ethBroadcastAddr, ethBroadcastAddr, ethProtoMip⟩, ⟨3, 15, 1, 20, 10⟩, [7, 0, 0, 0]⟩
      ⟨⟨ethBroadcastAddr, ethBroadcastAddr, ethProtoMip⟩, ⟨3, 15, 1, 20, 10⟩, [7, 0, 0, 0]⟩
      (Vector.replicate 8 1) (Vector.replicate 8 2) :=
  (never_carries_only
    (.create ⟨ethBroadcastAddr, ethBroadcastAddr, ethProtoMip⟩ ⟨3, 15, 0, 20, 10⟩ [7, 0, 0, 0])
    (.create ⟨ethBroadcastAddr, ethBroadcastAddr, ethProtoMip⟩ ⟨3, 15, 0, 20, 10⟩ [7, 0, 0, 0])
    _ _ (Vector.replicate 8 1) (Vector.replicate 8 2) rfl rfl rfl).1

/-- The longest message, sent twice. The two frames differ in the eight bytes of the message
pointer, and each is 1522 bytes long. -/
theorem frame_shows_pointers :
    let message := List.replicate 1496 7
    let construction := Construction.raw 10 ⟨Vector.replicate 8 1, ethBroadcastAddr⟩
      20 ⟨Vector.replicate 8 2, ethBroadcastAddr⟩ message 3
    let construction' := Construction.raw 10 ⟨Vector.replicate 8 3, ethBroadcastAddr⟩
      20 ⟨Vector.replicate 8 4, ethBroadcastAddr⟩ message 3
    construction.contents = construction'.contents ∧ ∃ package package',
      construction.build = some package ∧ construction'.build = some package' ∧
      sendtoRawMipPackage package (Vector.replicate 8 5) ≠
        sendtoRawMipPackage package' (Vector.replicate 8 6) ∧
      (sendtoRawMipPackage package (Vector.replicate 8 5)).length = 1522 ∧
      ¬ CarriesOnly construction.contents package package' (Vector.replicate 8 5)
        (Vector.replicate 8 6) := by
  intro message construction construction'
  have hMessage : message.length = 1496 := List.length_replicate
  have hFits : message.length ≤ payloadMaxSizeBytes := hMessage.le
  have hTra : 3 < 5 := by decide
  have hBuild : construction.build = some _ := MIPPackage.createRaw_eq hTra hFits
  have hBuild' : construction'.build = some _ := MIPPackage.createRaw_eq hTra hFits
  have hPayload := Construction.payload_of_build hBuild
  refine ⟨rfl, _, _, hBuild, hBuild', fun hSame => ?_, ?_, fun hOnly => ?_⟩
  · have hPointers := (sendto_eq_sendto_iff.mp hSame).2.2.1
    exact absurd hPointers (by decide)
  · rw [sendto_length, hPayload, padMessage_length]
    show 14 + (4 + calculateMipPayloadWords message.length * mipPayloadWord) + 8 = 1522
    rw [hMessage]
    rfl
  · exact sendto_ne_contentBytes _ _ _ hOnly.layout

end MipStack
