import MipStack.Commons.Definitions
import MipStack.Library.ByteLayout

/-! Packages between an application and miptpd (`commons/src/client_package.c`). -/
namespace MipStack

def maxDataSizeBytes : ℕ := 65535

/-- The type is read as four bytes, whatever they hold. -/
inductive MIPTPClientType where
  | sender
  | receiver
  | invalid (code : ℕ)
  deriving DecidableEq, Repr

namespace MIPTPClientType

def code : MIPTPClientType → ℕ
  | .sender => 1
  | .receiver => 2
  | .invalid code => code

def ofCode (code : ℕ) : MIPTPClientType :=
  if code = 1 then .sender else if code = 2 then .receiver else .invalid code

end MIPTPClientType

/-- `data_size` is the length of `data`, a number of 16 bits. -/
structure ClientPackage where
  port : UInt16
  destination : MIPAddress
  type : MIPTPClientType
  data : List UInt8
  size_le : data.length ≤ maxDataSizeBytes
  deriving Repr

namespace ClientPackage

/-- Port, destination, type and data size. -/
def headerSize : ℕ := 9

def sizeofClientPackage : ℕ := 24

/-- `sizeof(ClientPackage)` without the pointer: seven bytes of it are padding. -/
def sizeWithoutData : ℕ := 16

/-- What is written to the buffer. -/
def toBytes (package : ClientPackage) : List UInt8 :=
  ByteLayout.encode 2 package.port.toNat ++ (package.destination ::
    (ByteLayout.encode 4 package.type.code ++
      (ByteLayout.encode 2 package.data.length ++ package.data)))

/-- The number of bytes that is returned, 16 bits wide. -/
def calcSerializedPackageSize (package : ClientPackage) : ℕ :=
  (sizeWithoutData + package.data.length) % 2 ^ 16

def serializedGetPort (buffer : List UInt8) : UInt16 :=
  UInt16.ofNat (ByteLayout.value (buffer.take 2))

def serializedGetDestination (buffer : List UInt8) : MIPAddress := buffer.getD 2 0

def serializedGetType (buffer : List UInt8) : MIPTPClientType :=
  MIPTPClientType.ofCode (ByteLayout.value ((buffer.drop 3).take 4))

def serializedGetDataSize (buffer : List UInt8) : ℕ :=
  (UInt16.ofNat (ByteLayout.value ((buffer.drop 7).take 2))).toNat

def create (port : UInt16) (destination : MIPAddress) (type : MIPTPClientType)
    (data : List UInt8) : Option ClientPackage :=
  if hSize : data.length ≤ maxDataSizeBytes then
    some { port, destination, type, data, size_le := hSize }
  else none

/-- The declared number of bytes is copied from the buffer. A fault when the
buffer ends before. -/
def deserialize (buffer : List UInt8) : Except Halt ClientPackage :=
  let dataSize := serializedGetDataSize buffer
  if headerSize + dataSize ≤ buffer.length then
    match create (serializedGetPort buffer) (serializedGetDestination buffer)
        (serializedGetType buffer) ((buffer.drop headerSize).take dataSize) with
    | some package => .ok package
    | none => .error .error
  else .error .fault

/-- Data of a declared size is never too large. -/
theorem deserialize_eq_ok_of_le {buffer : List UInt8}
    (h : headerSize + serializedGetDataSize buffer ≤ buffer.length) :
    ∃ package, deserialize buffer = .ok package ∧ package.port = serializedGetPort buffer ∧
      package.destination = serializedGetDestination buffer ∧
      package.type = serializedGetType buffer ∧
      package.data = (buffer.drop headerSize).take (serializedGetDataSize buffer) := by
  have hSize : ((buffer.drop headerSize).take (serializedGetDataSize buffer)).length ≤
      maxDataSizeBytes :=
    (List.length_take_le _ _).trans (Nat.le_of_lt_succ (UInt16.toNat_lt _))
  refine ⟨⟨serializedGetPort buffer, serializedGetDestination buffer, serializedGetType buffer,
    _, hSize⟩, ?_, rfl, rfl, rfl, rfl⟩
  simp only [deserialize, if_pos h, create, dif_pos hSize]

/-- The declared size is not compared with the bytes that were read: a larger one makes the copy
read past the buffer. -/
theorem deserialize_eq_fault {buffer : List UInt8}
    (h : ¬ headerSize + serializedGetDataSize buffer ≤ buffer.length) :
    deserialize buffer = .error .fault := if_neg h

/-- The fields of a package are read from their places in the buffer. -/
theorem fields_of_deserialize {buffer : List UInt8} {package : ClientPackage}
    (h : deserialize buffer = .ok package) :
    headerSize + serializedGetDataSize buffer ≤ buffer.length ∧
      package.port = serializedGetPort buffer ∧
      package.destination = serializedGetDestination buffer ∧
      package.type = serializedGetType buffer ∧
      package.data = (buffer.drop headerSize).take (serializedGetDataSize buffer) := by
  by_cases hFits : headerSize + serializedGetDataSize buffer ≤ buffer.length
  · obtain ⟨parsed, hParsed, hFields⟩ := deserialize_eq_ok_of_le hFits
    rw [hParsed] at h
    obtain rfl := Except.ok.inj h
    exact ⟨hFits, hFields⟩
  · rw [deserialize_eq_fault hFits] at h
    cases h

/-- A package is read back from its bytes, whatever stands behind them. -/
theorem deserialize_toBytes {package : ClientPackage}
    (hType : package.type = .sender ∨ package.type = .receiver) (rest : List UInt8) :
    deserialize (package.toBytes ++ rest) = .ok package := by
  have hDataSize : package.data.length < 256 ^ 2 := by
    have hSize := package.size_le
    unfold maxDataSizeBytes at hSize
    omega
  have hCode : package.type.code < 256 ^ 4 ∧
      MIPTPClientType.ofCode package.type.code = package.type := by
    rcases hType with hType | hType
    · rw [hType]
      decide
    · rw [hType]
      decide
  have hSizeField : serializedGetDataSize (package.toBytes ++ rest) = package.data.length := by
    show (UInt16.ofNat (ByteLayout.value (ByteLayout.encode 2 package.data.length))).toNat = _
    rw [ByteLayout.value_encode hDataSize, UInt16.toNat_ofNat']
    exact Nat.mod_eq_of_lt hDataSize
  have hFits : headerSize + serializedGetDataSize (package.toBytes ++ rest) ≤
      (package.toBytes ++ rest).length := by
    rw [hSizeField]
    simp [toBytes, headerSize]
    omega
  obtain ⟨parsed, hParsed, hPort, hDestination, hParsedType, hData⟩ :=
    deserialize_eq_ok_of_le hFits
  rw [hParsed]
  congr 1
  have hPortField : serializedGetPort (package.toBytes ++ rest) = package.port := by
    show UInt16.ofNat (ByteLayout.value (ByteLayout.encode 2 package.port.toNat)) = _
    rw [ByteLayout.value_encode package.port.toNat_lt, UInt16.ofNat_toNat]
  have hTypeField : serializedGetType (package.toBytes ++ rest) = package.type := by
    show MIPTPClientType.ofCode (ByteLayout.value (ByteLayout.encode 4 package.type.code)) = _
    rw [ByteLayout.value_encode hCode.1, hCode.2]
  have hDataField : ((package.toBytes ++ rest).drop headerSize).take package.data.length =
      package.data := by
    show (package.data ++ rest).take package.data.length = _
    rw [List.take_left]
  rw [hPortField] at hPort
  rw [hTypeField] at hParsedType
  rw [hSizeField, hDataField] at hData
  cases parsed with
  | mk port destination type data size_le =>
      simp only at hPort hDestination hParsedType hData
      subst hPort hDestination hParsedType hData
      rfl

end ClientPackage

end MipStack
