import MipStack.Mipd.Packaging

/-! What a handler of mipd does to its surroundings. -/
namespace MipStack

inductive Output where
  /-- A frame handed to a raw socket. -/
  | sendto (socket : ℤ) (package : MIPPackage)
  /-- One byte, the destination, written on behalf of the package. -/
  | writeForward (destination : MIPAddress) (package : MIPPackage)
  | writeRoute (bytes : List UInt8)
  | sendApp (bytes : List UInt8)
  | close (fd : ℤ)
  | epollAdd (fd : ℤ)
  deriving DecidableEq, Repr

end MipStack
