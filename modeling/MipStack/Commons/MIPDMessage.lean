import MipStack.Commons.Definitions
import MipStack.Library.ByteLayout

/-! Messages between an application and mipd (`commons/src/mipd_message.c`). -/
namespace MipStack

def maxMipMessageDataSize : ℕ := 1496

def maxMipMessageSize : ℕ := 1500

/-- `sizeof(MIPDMessage)`, the least number of bytes mipd accepts as a message. -/
def sizeofMIPDMessage : ℕ := 16

/-- `data_size` is the length of `data`. No message is larger than the check in
`MIPDMessage_create` admits. -/
structure MIPDMessage where
  mipAddress : MIPAddress
  data : List UInt8
  size_le : data.length ≤ maxMipMessageDataSize
  deriving DecidableEq, Repr

namespace MIPDMessage

def create (address : MIPAddress) (dataSize : ℕ) (data : List UInt8) : Option MIPDMessage :=
  if hSize : dataSize ≤ maxMipMessageDataSize then
    some {
      mipAddress := address
      data := data.take dataSize
      size_le := (List.length_take_le dataSize data).trans hSize }
  else none

def serialize (message : MIPDMessage) : Option (List UInt8) :=
  if 3 + message.data.length ≤ maxMipMessageSize then
    some (message.mipAddress :: ByteLayout.encode 2 message.data.length ++ message.data)
  else none

/-- What is written to the buffer. -/
def toBytes (message : MIPDMessage) : List UInt8 :=
  message.mipAddress :: ByteLayout.encode 2 message.data.length ++ message.data

def serializedGetDataSize (buffer : List UInt8) : ℕ :=
  ByteLayout.value ((buffer.drop 1).take 2)

def deserialize (buffer : List UInt8) : Option MIPDMessage :=
  create (buffer.getD 0 0) (serializedGetDataSize buffer) (buffer.drop 3)

/-- The header of a message is one byte of address and two of size. -/
theorem toBytes_length (message : MIPDMessage) :
    message.toBytes.length = 3 + message.data.length := by
  rw [toBytes, List.length_append, List.length_cons, ByteLayout.encode_length]

/-- No message is too large to be serialized. -/
theorem serialize_eq (message : MIPDMessage) : message.serialize = some message.toBytes := by
  have hSize := message.size_le
  rw [serialize, if_pos (by unfold maxMipMessageDataSize maxMipMessageSize at *; omega), toBytes]

/-- The size is read where it was written, however much of the rest is there. -/
theorem serializedGetDataSize_append {message : MIPDMessage} {bytes rest zeros : List UInt8}
    (h : message.serialize = some bytes) :
    serializedGetDataSize ((bytes ++ rest).take maxMipMessageDataSize ++ zeros) =
      message.data.length := by
  unfold serialize at h
  split_ifs at h
  have hBytes := Option.some.inj h
  have hSize : message.data.length < 256 ^ 2 := by
    have hLe := message.size_le
    unfold maxMipMessageDataSize at hLe
    omega
  have hField : ((((bytes ++ rest).take maxMipMessageDataSize ++ zeros).drop 1).take 2) =
      ByteLayout.encode 2 message.data.length := by
    rw [← hBytes]
    simp [maxMipMessageDataSize, ByteLayout.encode]
  rw [serializedGetDataSize, hField, ByteLayout.value_encode hSize]

/-- The message that is parsed is the one whose bytes stand at the beginning. -/
theorem deserialize_eq_some_iff {message : MIPDMessage} {buffer : List UInt8}
    (hLength : 3 + maxMipMessageDataSize ≤ buffer.length) :
    deserialize buffer = some message ↔ message.toBytes <+: buffer := by
  match buffer, hLength with
  | address :: low :: high :: rest, hLength =>
    have hRest : maxMipMessageDataSize ≤ rest.length := by
      simp only [List.length_cons] at hLength
      omega
    have hSize : ByteLayout.encode 2 (serializedGetDataSize (address :: low :: high :: rest)) =
        [low, high] := ByteLayout.encode_value [low, high]
    constructor
    · intro h
      rw [deserialize, create] at h
      split_ifs at h with hFits
      obtain rfl := Option.some.inj h
      have hTaken : (rest.take (serializedGetDataSize (address :: low :: high :: rest))).length =
          serializedGetDataSize (address :: low :: high :: rest) :=
        List.length_take_of_le (hFits.trans hRest)
      show address :: ByteLayout.encode 2 (rest.take _).length ++ rest.take _ <+: _
      rw [hTaken, hSize]
      exact (List.prefix_append_right_inj [address, low, high]).mpr (List.take_prefix _ rest)
    · intro h
      obtain ⟨tail, hTail⟩ := h
      have hWritten : message.data.length < 256 ^ 2 := by
        have hLe := message.size_le
        unfold maxMipMessageDataSize at hLe
        omega
      rw [← hTail, deserialize, create]
      have hField : serializedGetDataSize (message.toBytes ++ tail) = message.data.length :=
        ByteLayout.value_encode hWritten
      rw [dif_pos (by rw [hField]; exact message.size_le)]
      simp only [hField]
      simp [toBytes, ByteLayout.encode]

/-- The beginning of a message is parsed to a message. -/
theorem exists_deserialize {message : MIPDMessage} {bytes rest zeros : List UInt8}
    (h : message.serialize = some bytes) : ∃ received,
      deserialize ((bytes ++ rest).take maxMipMessageDataSize ++ zeros) = some received := by
  rw [deserialize, serializedGetDataSize_append h, create, dif_pos message.size_le]
  exact ⟨_, rfl⟩

end MIPDMessage

end MipStack
