import MipStack.Commons.Definitions
import Mathlib.Algebra.Group.Nat.Defs

/-! The arguments of routerd (`routerd/src/lib/cli.c`). -/
namespace MipStack

def broadcastFreqMilli : ℤ := 2000

/-- The most addresses that fit in the arguments. -/
def maxMipAddresses : ℕ := 254

/-- The two names are the arguments. routerd opens its sockets by copies of them without room for
their end, so what a reader finds behind the names is left open. -/
structure RouterdConfig where
  routingSocket : List Char
  forwardingSocket : List Char
  mipAddresses : List MIPAddress
  debugActive : Bool
  broadcastFreq : ℤ
  length_le : mipAddresses.length ≤ maxMipAddresses
  deriving DecidableEq, Repr

namespace RouterdConfig

/-- The characters that `isspace` accepts. -/
def isSpace (c : Char) : Bool := c.toNat = 32 || (9 ≤ c.toNat && c.toNat ≤ 13)

/-- The number at the beginning of the argument as `sscanf` reads it into a byte;
the byte is 0 before. -/
def scanAddress (argument : List Char) : MIPAddress :=
  let trimmed := argument.dropWhile isSpace
  let (negative, digits) := match trimmed with
    | '-' :: digits => (true, digits)
    | '+' :: digits => (false, digits)
    | digits => (false, digits)
  let value := (digits.takeWhile Char.isDigit).foldl
    (fun value digit => 10 * value + (digit.toNat - '0'.toNat)) 0
  if 2 ^ 64 ≤ value then 255
  else if negative then UInt8.ofNat (2 ^ 64 - value)
  else UInt8.ofNat value

/-- Only the beginning of the first argument is compared with the options. -/
def create : List (List Char) → Option RouterdConfig
  | _ :: first :: second :: third :: rest =>
    if List.isPrefixOf ['-', 'h'] first then none
    else if List.isPrefixOf ['-', 'd'] first then
      if hLength : rest.length ≤ maxMipAddresses then
        some {
          routingSocket := second
          forwardingSocket := third
          mipAddresses := rest.map scanAddress
          debugActive := true
          broadcastFreq := broadcastFreqMilli
          length_le := by rwa [List.length_map] }
      else none
    else if hLength : (third :: rest).length ≤ maxMipAddresses then
      some {
        routingSocket := first
        forwardingSocket := second
        mipAddresses := (third :: rest).map scanAddress
        debugActive := false
        broadcastFreq := broadcastFreqMilli
        length_le := by rwa [List.length_map] }
    else none
  | _ => none

/-- More than three and less than 258 arguments, with the name of the program. -/
def parseArgs (argv : List (List Char)) : Option RouterdConfig :=
  if 3 < argv.length ∧ argv.length < 258 then create argv else none

theorem scanAddress_toDigits (address : MIPAddress) :
    scanAddress (Nat.toDigits 10 address.toNat) = address := by
  have hEach : ∀ n < 256, scanAddress (Nat.toDigits 10 n) = UInt8.ofNat n := by decide +kernel
  rw [hEach _ address.toNat_lt, UInt8.ofNat_toNat]

/-- Every list of addresses that a configuration has room for can be given. -/
theorem exists_parseArgs (addresses : List MIPAddress) (h : addresses.length ≤ maxMipAddresses) :
    ∃ argv config, parseArgs argv = some config ∧ config.mipAddresses = addresses := by
  have hScan : (addresses.map fun address => Nat.toDigits 10 address.toNat).map scanAddress =
      addresses := by
    rw [List.map_map]
    exact (List.map_congr_left fun address _ => scanAddress_toDigits address).trans
      (List.map_id _)
  cases addresses with
  | nil => exact ⟨[[], ['-', 'd'], ['r'], ['f']], _, rfl, rfl⟩
  | cons address rest =>
      let third := Nat.toDigits 10 address.toNat
      let others := rest.map fun address => Nat.toDigits 10 address.toNat
      have hLength : (third :: others).length ≤ maxMipAddresses := by
        rw [List.length_cons, List.length_map]
        exact h
      have hCount : ([] :: ['r'] :: ['f'] :: third :: others).length < 258 := by
        simp only [List.length_cons, maxMipAddresses] at hLength ⊢
        omega
      refine ⟨[] :: ['r'] :: ['f'] :: third :: others, ⟨['r'], ['f'],
        (third :: others).map scanAddress, false, broadcastFreqMilli, by
          rwa [List.length_map]⟩, ?_, hScan⟩
      rw [parseArgs, if_pos ⟨by simp, hCount⟩, create, if_neg (by decide), if_neg (by decide),
        dif_pos hLength]

end RouterdConfig

end MipStack
