import MipStack.Miptpd.MIPTPAppController

/-! What is read back of the packages that miptpd writes: to mipd, with the data size
between header and data, and to an application, with the padding of the struct behind
the data. -/
namespace MipStack

namespace MIPTPPackage

/-- A package is created, exactly the bytes that are counted are written, they fit into
the buffer, and the package is read back from them. -/
def RoundTrips (port psn : UInt16) (data : Option (List UInt8)) : Prop :=
  ∃ package written returned, create port psn data = some package ∧
    package.miptpHeader.port.toNat = port.toNat ∧
    package.serialize = some (written, returned) ∧ written.length = returned ∧
    written.length ≤ maxMiptpPackageSize ∧ deserialize (written.take returned) = .ok package

/-- A package is returned exactly if the bytes hold the header and the padding it
announces, without reading past them, and its data is what stands between the two. -/
structure StripsPadding (bytes : List UInt8) : Prop where
  inside : deserialize bytes ≠ .error .fault
  accepted : (∃ package, deserialize bytes = .ok package) ↔
    MIPTPHeader.size + (MIPTPHeader.ofBytes bytes).pl.toNat ≤ bytes.length
  data : ∀ package, deserialize bytes = .ok package → package.data =
    (bytes.drop MIPTPHeader.size).take
      (bytes.length - MIPTPHeader.size - (MIPTPHeader.ofBytes bytes).pl.toNat)

variable {port psn : UInt16} {data bytes : List UInt8} {package : MIPTPPackage}

/-- What is read back of a package that was created starts with the data size, and misses the
end of the data. -/
theorem deserialize_serialized (hFits : package.data.length ≤ maxMiptpPackageDataSize) :
    deserialize (package.toBytes.take package.serializedSize) = .ok { package with
      data := (ByteLayout.encode 2 package.data.length ++ package.data).take
        package.data.length } := by
  have hTake : package.toBytes.take package.serializedSize = package.miptpHeader.toBytes ++
      (ByteLayout.encode 2 package.data.length ++ package.data).take package.data.length := by
    rw [serializedSize_of_le hFits, toBytes,
      show 4 = package.miptpHeader.toBytes.length from (MIPTPHeader.toBytes_length _).symm,
      List.take_length_add_append]
  have hLong : ¬ (package.toBytes.take package.serializedSize).length < MIPTPHeader.size := by
    rw [hTake, List.length_append, MIPTPHeader.toBytes_length]
    omega
  rw [deserialize, if_neg hLong, hTake, MIPTPHeader.ofBytes_toBytes,
    List.drop_left' (MIPTPHeader.toBytes_length _)]

/-- Every package that is created is serialized; what is written fits into the buffer of
the callers exactly if the last two bytes of room are left. -/
theorem serialize_of_create (h : create port psn (some data) = some package) :
    package.serialize = some (package.toBytes, package.serializedSize) ∧
      (package.toBytes.length ≤ maxMiptpPackageSize ↔
        data.length + 2 ≤ maxMiptpPackageDataSize) := by
  rw [create] at h
  split_ifs at h with hSize
  obtain rfl := Option.some.inj h
  let created : MIPTPPackage := ⟨⟨calcPl data.length, BitVec.ofNat 14 port.toNat, psn⟩, data⟩
  have hLength : created.toBytes.length = 6 + data.length := toBytes_length created
  have hCounted : created.serializedSize = 4 + data.length := serializedSize_of_le hSize
  unfold maxMiptpPackageDataSize at *
  refine ⟨if_pos ?_, ?_⟩
  · rw [hCounted, maxMiptpPackageSize]
    omega
  · rw [hLength, maxMiptpPackageSize]
    omega

/-- No package round-trips: the counted bytes are always less than the written ones, for every
port, number and data. -/
theorem never_round_trips (port psn : UInt16) (data : Option (List UInt8)) :
    ¬ RoundTrips port psn data := by
  rintro ⟨package, written, returned, -, -, hWritten, hCounted, -⟩
  rw [serialize] at hWritten
  split_ifs at hWritten
  obtain ⟨rfl, rfl⟩ := Prod.mk.inj (Option.some.inj hWritten)
  have hSize := package.serializedSize_le
  rw [toBytes_length] at hCounted
  omega

/-- Of the byte 7, the low byte of the data size is read back: two bytes of size stand in front of
the data, and nobody skips them. -/
theorem data_size_is_read_as_data :
    let package : MIPTPPackage := ⟨⟨3, 80, 0⟩, [7]⟩
    create 80 0 (some [7]) = some package ∧
      deserialize (package.toBytes.take package.serializedSize) = .ok { package with data := [1] } ∧
      ¬ RoundTrips 80 0 (some [7]) := by
  intro package
  refine ⟨by decide, by decide, ?_⟩
  rintro ⟨created, written, returned, hCreate, -, hWritten, -, -, hRead⟩
  obtain rfl := Option.some.inj hCreate
  obtain ⟨rfl, rfl⟩ := Prod.mk.inj (Option.some.inj hWritten)
  exact absurd hRead (by decide)

theorem deserialize_of_le (h : MIPTPHeader.size ≤ bytes.length) :
    deserialize bytes = .ok ⟨MIPTPHeader.ofBytes bytes, bytes.drop MIPTPHeader.size⟩ :=
  if_neg (Nat.not_lt.mpr h)

/-- The padding is stripped exactly if there is none, and no byte past the end is read
exactly if there is a header. -/
theorem strips_padding_iff (bytes : List UInt8) :
    StripsPadding bytes ↔
      MIPTPHeader.size ≤ bytes.length ∧ (MIPTPHeader.ofBytes bytes).pl = 0 := by
  by_cases hHeader : MIPTPHeader.size ≤ bytes.length
  · have hParsed := deserialize_of_le hHeader
    have hLe := (MIPTPHeader.ofBytes bytes).pl.isLt
    rw [and_iff_right hHeader]
    constructor
    · intro h
      have hPadding := h.accepted.mp ⟨_, hParsed⟩
      -- The data that is returned has all bytes behind the header.
      have hLength := congrArg List.length (h.data _ hParsed)
      rw [List.length_take, List.length_drop] at hLength
      exact BitVec.eq_of_toNat_eq (show _ = 0 by omega)
    · intro hNone
      have hZero : (MIPTPHeader.ofBytes bytes).pl.toNat = 0 := by rw [hNone]; rfl
      refine ⟨?_, ?_, ?_⟩
      · rw [hParsed]
        exact fun h => nomatch h
      · rw [hZero]
        exact iff_of_true ⟨_, hParsed⟩ hHeader
      · intro package hPackage
        rw [hParsed] at hPackage
        obtain rfl := Except.ok.inj hPackage
        rw [hZero, Nat.sub_zero, List.take_of_length_le (List.length_drop ..).le]
  · have hFault : deserialize bytes = .error .fault := if_pos (Nat.lt_of_not_le hHeader)
    exact iff_of_false (fun h => h.inside hFault) fun h => hHeader h.1

/-- A package of one byte comes with three bytes of padding, which are taken for data because the
header's count of them is not used. -/
theorem padding_is_read_as_data :
    let bytes : List UInt8 := [67, 1, 0, 0, 7, 0, 0, 0]
    (MIPTPHeader.ofBytes bytes).pl = 3 ∧
      deserialize bytes = .ok ⟨⟨3, 80, 0⟩, [7, 0, 0, 0]⟩ ∧ ¬ StripsPadding bytes := by
  intro bytes
  refine ⟨by decide, by decide, fun h => ?_⟩
  exact absurd (h.data ⟨⟨3, 80, 0⟩, [7, 0, 0, 0]⟩ (by decide)) (by decide)

end MIPTPPackage

namespace ClientPackage

/-- Exactly the bytes that are counted are written, they are sent and nothing after them,
and the package is read back from them. -/
structure RoundTrips (package : ClientPackage) : Prop where
  counted : package.toBytes.length = package.calcSerializedPackageSize
  sent : ∀ socket, MIPTPAppController.sendClientPackage socket (some package) =
    [.sendApp socket package.toBytes]
  read : deserialize package.toBytes = .ok package

variable {package : ClientPackage}

theorem toBytes_length (package : ClientPackage) :
    package.toBytes.length = headerSize + package.data.length := by
  simp only [toBytes, List.length_append, List.length_cons, ByteLayout.encode_length, headerSize]
  omega

/-- The count takes the padding of the struct for bytes that were written, and wraps for
the longest packages. -/
theorem calcSerializedPackageSize_eq (package : ClientPackage) :
    package.calcSerializedPackageSize =
      if package.data.length + sizeWithoutData < 2 ^ 16 then package.toBytes.length + 7
      else package.data.length + sizeWithoutData - 2 ^ 16 := by
  have hSize := package.size_le
  rw [toBytes_length, calcSerializedPackageSize]
  unfold maxDataSizeBytes at hSize
  unfold headerSize sizeWithoutData
  split_ifs
  · omega
  · omega

/-- An application receives the package and seven zeros, or only the beginning of one of
the longest packages. -/
theorem sendClientPackage_eq (socket : ℤ) (package : ClientPackage) :
    MIPTPAppController.sendClientPackage socket (some package) =
      if package.data.length + sizeWithoutData < 2 ^ 16 then
        [.sendApp socket (package.toBytes ++ List.replicate 7 0)]
      else [.sendApp socket
        (package.toBytes.take (package.data.length + sizeWithoutData - 2 ^ 16))] := by
  have hLength := toBytes_length package
  have hSize := package.size_le
  unfold maxDataSizeBytes at hSize
  unfold headerSize at hLength
  rw [MIPTPAppController.sendClientPackage, calcSerializedPackageSize_eq]
  split_ifs with hFits
  · rw [List.take_length_add_append]
    rfl
  · rw [List.take_append_of_le_length]
    unfold sizeWithoutData at *
    omega

/-- A package of one of the two types is read back from its own bytes. -/
theorem deserialize_own (hType : package.type = .sender ∨ package.type = .receiver) :
    deserialize package.toBytes = .ok package := by
  have hRead := deserialize_toBytes hType []
  rwa [List.append_nil] at hRead

/-- The count is right for no package. It starts from the size of the structure in memory and not
from that of the fields. -/
theorem never_counted_right (package : ClientPackage) : ¬ package.RoundTrips := by
  intro h
  have hCounted := h.counted
  have hSize := package.size_le
  rw [calcSerializedPackageSize, toBytes_length] at hCounted
  unfold headerSize sizeWithoutData at hCounted
  unfold maxDataSizeBytes at hSize
  omega

/-- Behind a package without data seven zeros are sent, as the count says sixteen bytes and nine
were written. -/
theorem padding_is_sent :
    let package : ClientPackage := ⟨80, 10, .sender, [], by decide⟩
    MIPTPAppController.sendClientPackage 5 (some package) =
        [.sendApp 5 ([80, 0, 10, 1, 0, 0, 0, 0, 0] ++ List.replicate 7 0)] ∧
      ¬ package.RoundTrips := by
  intro package
  refine ⟨by decide, fun h => ?_⟩
  exact absurd h.counted (by decide)

end ClientPackage

end MipStack
