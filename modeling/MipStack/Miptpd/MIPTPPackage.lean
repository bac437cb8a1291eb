import MipStack.Commons.Definitions
import MipStack.Library.ByteLayout

/-! MIPTP packages (`miptpd/src/lib/miptp_package.c`). -/
namespace MipStack

def maxMiptpPackageSize : ℕ := 1496

def maxMiptpPackageDataSize : ℕ := 1492

/-- `pl` and `port` are bit fields that share the first two bytes. -/
structure MIPTPHeader where
  pl : BitVec 2
  port : BitVec 14
  psn : UInt16
  deriving DecidableEq, Repr

def MIPTPHeader.size : ℕ := 4

def MIPTPHeader.toBytes (header : MIPTPHeader) : List UInt8 :=
  ByteLayout.encode 2 (header.pl.toNat + 4 * header.port.toNat) ++
    ByteLayout.encode 2 header.psn.toNat

def MIPTPHeader.ofBytes (bytes : List UInt8) : MIPTPHeader :=
  let bits := ByteLayout.value (bytes.take 2)
  { pl := BitVec.ofNat 2 bits
    port := BitVec.ofNat 14 (bits / 4)
    psn := UInt16.ofNat (ByteLayout.value ((bytes.drop 2).take 2)) }

/-- `data_size` is the length of `data`. -/
structure MIPTPPackage where
  miptpHeader : MIPTPHeader
  data : List UInt8
  deriving DecidableEq, Repr

def calcPl (dataSize : ℕ) : BitVec 2 :=
  if dataSize % 4 ≠ 0 then BitVec.ofNat 2 (4 - dataSize % 4) else 0

@[simp] theorem MIPTPHeader.toBytes_length (header : MIPTPHeader) :
    header.toBytes.length = size := by
  simp [toBytes, size]

/-- Padding, port and sequence number are read back from the four bytes of the header. -/
theorem MIPTPHeader.ofBytes_toBytes (header : MIPTPHeader) (rest : List UInt8) :
    ofBytes (header.toBytes ++ rest) = header := by
  have hPl := header.pl.isLt
  have hPort := header.port.isLt
  have hBits : (header.toBytes ++ rest).take 2 =
      ByteLayout.encode 2 (header.pl.toNat + 4 * header.port.toNat) := by
    rw [toBytes, List.append_assoc, List.take_left' (ByteLayout.encode_length 2 _)]
  have hPsn : ((header.toBytes ++ rest).drop 2).take 2 = ByteLayout.encode 2 header.psn.toNat := by
    rw [toBytes, List.append_assoc, List.drop_left' (ByteLayout.encode_length 2 _),
      List.take_left' (ByteLayout.encode_length 2 _)]
  simp only [ofBytes, hBits, hPsn]
  rw [ByteLayout.value_encode (by omega), ByteLayout.value_encode header.psn.toNat_lt,
    UInt16.ofNat_toNat]
  obtain ⟨pl, port, psn⟩ := header
  simp only [MIPTPHeader.mk.injEq, and_true]
  refine ⟨BitVec.eq_of_toNat_eq ?_, BitVec.eq_of_toNat_eq ?_⟩
  · simp only [BitVec.toNat_ofNat] at *
    omega
  · simp only [BitVec.toNat_ofNat] at *
    omega

namespace MIPTPPackage

/-- `none` as data is the NULL pointer, which is refused even for no bytes. -/
def create (port psn : UInt16) (data : Option (List UInt8)) : Option MIPTPPackage :=
  match data with
  | none => none
  | some bytes =>
    if bytes.length ≤ maxMiptpPackageDataSize then
      some {
        miptpHeader := { pl := calcPl bytes.length, port := BitVec.ofNat 14 port.toNat, psn }
        data := bytes }
    else none

/-- What is written to the buffer: the data size stands between header and data. -/
def toBytes (package : MIPTPPackage) : List UInt8 :=
  package.miptpHeader.toBytes ++ (ByteLayout.encode 2 package.data.length ++ package.data)

/-- The number that is returned for the written bytes leaves out the data size. It has 16
bits. -/
def serializedSize (package : MIPTPPackage) : ℕ :=
  (MIPTPHeader.size + package.data.length) % 2 ^ 16

/-- What is written and the number that is returned; `none` is -1. The check leaves out
the data size as well. -/
def serialize (package : MIPTPPackage) : Option (List UInt8 × ℕ) :=
  if package.serializedSize ≤ maxMiptpPackageSize then
    some (package.toBytes, package.serializedSize)
  else none

/-- The data is all that follows the header. Fewer bytes than a header make the
difference wrap around, and the copy leaves the package. -/
def deserialize (bytes : List UInt8) : Except Halt MIPTPPackage :=
  if bytes.length < MIPTPHeader.size then .error .fault
  else .ok {
    miptpHeader := MIPTPHeader.ofBytes bytes
    data := bytes.drop MIPTPHeader.size }

theorem create_eq_some {port psn : UInt16} {bytes : List UInt8}
    (hFits : bytes.length ≤ maxMiptpPackageDataSize) :
    create port psn (some bytes) = some
      ⟨⟨calcPl bytes.length, BitVec.ofNat 14 port.toNat, psn⟩, bytes⟩ := by
  rw [create, if_pos hFits]

theorem toBytes_length (package : MIPTPPackage) :
    package.toBytes.length = 6 + package.data.length := by
  rw [toBytes, List.length_append, List.length_append, MIPTPHeader.toBytes_length,
    ByteLayout.encode_length, MIPTPHeader.size]
  omega

theorem serializedSize_le (package : MIPTPPackage) :
    package.serializedSize ≤ 4 + package.data.length := Nat.mod_le _ _

/-- The data of a package that can be created is counted in full. -/
theorem serializedSize_of_le {package : MIPTPPackage}
    (hFits : package.data.length ≤ maxMiptpPackageDataSize) :
    package.serializedSize = 4 + package.data.length := by
  unfold maxMiptpPackageDataSize at hFits
  exact Nat.mod_eq_of_lt (show 4 + package.data.length < 2 ^ 16 by omega)

end MIPTPPackage

end MipStack
