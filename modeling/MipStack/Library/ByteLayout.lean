import Mathlib.Data.Nat.Digits.Lemmas
import Mathlib.Data.Nat.Notation

/-! Fixed-width little-endian numbers and fixed-size fields in byte strings. -/
namespace ByteLayout

/-- The low `width` bytes of a number, least significant first. -/
def encode : ℕ → ℕ → List UInt8
  | 0, _ => []
  | width + 1, n => UInt8.ofNat n :: encode width (n / 256)

def value (bytes : List UInt8) : ℕ := Nat.ofDigits 256 (bytes.map UInt8.toNat)

@[simp] theorem encode_length (width n : ℕ) : (encode width n).length = width := by
  induction width generalizing n with
  | zero => rfl
  | succ width ih => simp [encode, ih]

theorem value_cons (byte : UInt8) (rest : List UInt8) :
    value (byte :: rest) = byte.toNat + 256 * value rest := by
  rw [value, List.map_cons, Nat.ofDigits_cons]
  rfl

/-- A number that fits into the field is read back as it was written. A larger one would lose its
upper bytes. -/
theorem value_encode {width n : ℕ} (h : n < 256 ^ width) : value (encode width n) = n := by
  induction width generalizing n with
  | zero =>
      obtain rfl : n = 0 := by simpa using h
      rfl
  | succ width ih =>
      have hHigh : n / 256 < 256 ^ width :=
        Nat.div_lt_of_lt_mul (by rwa [Nat.pow_succ, Nat.mul_comm] at h)
      have hRest := ih hHigh
      unfold value at hRest ⊢
      rw [encode, List.map_cons, Nat.ofDigits_cons, hRest, UInt8.toNat_ofNat']
      exact Nat.mod_add_div n (2 ^ 8)

/-- The bytes of a field are determined by its value, so equality of fields can be shown on
numbers. -/
theorem encode_value (bytes : List UInt8) : encode bytes.length (value bytes) = bytes := by
  induction bytes with
  | nil => rfl
  | cons byte rest ih =>
      have hByte := byte.toNat_lt
      rw [value, List.map_cons, Nat.ofDigits_cons, List.length_cons, encode]
      congr 1
      · apply UInt8.toNat_inj.mp
        rw [UInt8.toNat_ofNat', Nat.add_mul_mod_self_left, Nat.mod_eq_of_lt hByte]
      · rw [Nat.add_mul_div_left _ _ (by decide), Nat.div_eq_of_lt hByte, Nat.zero_add]
        exact ih

/-- The field of `n` bytes at an offset; bytes past the end read as zero. -/
def field (n offset : ℕ) (bytes : List UInt8) : Vector UInt8 n :=
  Vector.ofFn fun i => bytes.getD (offset + i) 0

/-- A field behind a known front is read as if it stood at the start: layouts are taken apart
field by field. -/
theorem field_append (n offset : ℕ) (before bytes : List UInt8) :
    field n (before.length + offset) (before ++ bytes) = field n offset bytes := by
  ext i hi
  simp [field, List.getD_eq_getElem?_getD, Nat.add_assoc, List.getElem?_append_right]

theorem field_toList {n : ℕ} (v : Vector UInt8 n) (rest : List UInt8) :
    field n 0 (v.toList ++ rest) = v := by
  ext i hi
  have hLength : i < v.toList.length := by simpa using hi
  simp [field, List.getD_eq_getElem?_getD, List.getElem?_append_left hLength, hi]

end ByteLayout
