import MipStack.Routerd.MIPRouteTable
import MipStack.Library.ByteLayout

/-! The bytes of the packed structure `MIPRouteTablePackage`. Its entries keep
their own alignment, so two bytes lie unused before each cost. -/
namespace MipStack

namespace MIPRoutePackageEntry

def toBytes (entry : MIPRoutePackageEntry) : List UInt8 :=
  entry.destination :: entry.nextHop :: 0 :: 0 :: ByteLayout.encode 4 entry.cost.toNat

def ofBytes (bytes : List UInt8) : MIPRoutePackageEntry :=
  { destination := bytes.getD 0 0
    nextHop := bytes.getD 1 0
    cost := UInt32.ofNat (ByteLayout.value ((bytes.drop 4).take 4)) }

@[simp] theorem toBytes_length (entry : MIPRoutePackageEntry) : entry.toBytes.length = 8 := by
  simp [toBytes]

theorem ofBytes_toBytes (entry : MIPRoutePackageEntry) (rest : List UInt8) :
    ofBytes (entry.toBytes ++ rest) = entry := by
  have hTake : ((entry.toBytes ++ rest).drop 4).take 4 =
      ByteLayout.encode 4 entry.cost.toNat := by
    rw [toBytes]
    exact List.take_left' (ByteLayout.encode_length 4 _)
  have hCost : UInt32.ofNat (ByteLayout.value (ByteLayout.encode 4 entry.cost.toNat)) =
      entry.cost := by
    rw [ByteLayout.value_encode entry.cost.toNat_lt, UInt32.ofNat_toNat]
  rw [ofBytes, hTake, hCost]
  rfl

end MIPRoutePackageEntry

namespace MIPRouteTablePackage

def sizeofMIPRouteTablePackage : ℕ := 514

def toBytes (package : MIPRouteTablePackage) : List UInt8 :=
  package.tableAddress :: package.numEntries ::
    package.entries.toList.flatMap MIPRoutePackageEntry.toBytes

def ofBytes (bytes : List UInt8) : MIPRouteTablePackage :=
  { tableAddress := bytes.getD 0 0
    numEntries := bytes.getD 1 0
    entries := Vector.ofFn fun i => MIPRoutePackageEntry.ofBytes (bytes.drop (2 + 8 * i)) }

theorem flatMap_toBytes_length (entries : List MIPRoutePackageEntry) :
    (entries.flatMap MIPRoutePackageEntry.toBytes).length = 8 * entries.length := by
  simp [List.length_flatMap, Nat.mul_comm]

@[simp] theorem toBytes_length (package : MIPRouteTablePackage) :
    package.toBytes.length = sizeofMIPRouteTablePackage := by
  rw [toBytes, List.length_cons, List.length_cons, flatMap_toBytes_length, Vector.length_toList]
  rfl

theorem drop_flatMap_toBytes (entries : List MIPRoutePackageEntry) (i : ℕ) :
    (entries.flatMap MIPRoutePackageEntry.toBytes).drop (8 * i) =
      (entries.drop i).flatMap MIPRoutePackageEntry.toBytes := by
  induction i generalizing entries with
  | zero => rfl
  | succ i ih =>
      cases entries with
      | nil => simp
      | cons entry rest =>
          rw [List.flatMap_cons, Nat.mul_succ, Nat.add_comm, ← List.drop_drop,
            List.drop_left' (MIPRoutePackageEntry.toBytes_length entry), ih, List.drop_succ_cons]

/-- A package that travels unchanged is read back as it was written. -/
theorem ofBytes_toBytes (package : MIPRouteTablePackage) (rest : List UInt8) :
    ofBytes (package.toBytes ++ rest) = package := by
  obtain ⟨tableAddress, numEntries, entries⟩ := package
  simp only [ofBytes, MIPRouteTablePackage.mk.injEq]
  refine ⟨rfl, rfl, ?_⟩
  ext i hi
  rw [Vector.getElem_ofFn]
  have hList : i < entries.toList.length := by simpa using hi
  have hDrop : (toBytes ⟨tableAddress, numEntries, entries⟩ ++ rest).drop (2 + 8 * i) =
      (entries.toList[i]).toBytes ++
        ((entries.toList.drop (i + 1)).flatMap MIPRoutePackageEntry.toBytes ++ rest) := by
    rw [toBytes, Nat.add_comm, List.cons_append, List.cons_append, List.drop_succ_cons,
      List.drop_succ_cons, List.drop_append_of_le_length, drop_flatMap_toBytes,
      List.drop_eq_getElem_cons hList, List.flatMap_cons, List.append_assoc]
    rw [flatMap_toBytes_length]
    exact Nat.mul_le_mul_left 8 hList.le
  rw [hDrop, MIPRoutePackageEntry.ofBytes_toBytes, Vector.getElem_toList]

end MIPRouteTablePackage

end MipStack
