import Mathlib.Data.Int.Notation
import Mathlib.Tactic.Common

namespace MipStack

abbrev MIPAddress := UInt8

/-- The broadcast address, also the answer to a lookup that found nothing. -/
def mipBroadcastAddress : MIPAddress := 255

/-- The successive readings of the millisecond clock during one call. -/
abbrev Clock := ℕ → ℤ

/-- `UINT_MAX`, the cost of a poisoned route. -/
def uintMax : UInt32 := 4294967295

/-- How a handler ends the daemon: with its error result, or by an access
outside the memory it owns. -/
inductive Halt where
  | error
  | fault
  deriving DecidableEq, Repr

/-- The cost of a link is added without a wrap to every cost but the poison value. -/
theorem toNat_add_one {cost : UInt32} (h : cost ≠ uintMax) :
    (cost + 1).toNat = cost.toNat + 1 := by
  have hNe : cost.toNat ≠ 4294967295 := fun hEq => h (UInt32.toNat_inj.mp hEq)
  have hLt := cost.toNat_lt
  rw [UInt32.toNat_add]
  exact Nat.mod_eq_of_lt (by change cost.toNat + 1 < 2 ^ 32; omega)

end MipStack
