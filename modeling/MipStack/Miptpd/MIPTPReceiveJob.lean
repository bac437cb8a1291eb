import MipStack.Commons.ClientPackage
import MipStack.Miptpd.MIPTPPackage

/-! A file on its way in (`miptpd/src/lib/miptp_receive_job.c`). -/
namespace MipStack

/-- `unset` is the zero a fresh job holds, which none of the names stands for. -/
inductive MIPTPReceiveJobStatus where
  | unset
  | waitingForConnection
  | waitingForPackage
  | ackReady
  deriving DecidableEq, Repr

/-- `data` is the whole buffer. -/
structure MIPTPReceiveJob where
  port : BitVec 14
  sender : MIPAddress
  status : MIPTPReceiveJobStatus
  timeout : ℤ
  lastPackageTime : ℤ
  data : List UInt8
  dataReceived : UInt16
  dataSize : UInt16
  requestNr : UInt16
  size_eq : data.length = maxDataSizeBytes
  deriving DecidableEq, Repr

namespace MIPTPReceiveJob

def create (port : BitVec 14) (timeout : ℤ) : MIPTPReceiveJob :=
  { port, sender := 0, status := .unset, timeout, lastPackageTime := 0
    data := List.replicate maxDataSizeBytes 0
    dataReceived := 0, dataSize := 0, requestNr := 0
    size_eq := List.length_replicate }

def isComplete (job : MIPTPReceiveJob) : Bool := job.dataReceived = job.dataSize

/-- The announced size is read from the first two bytes; a fault when the package
holds fewer. -/
def getDataSizeFromPackage (package : MIPTPPackage) : Except Halt UInt16 :=
  if package.data.length < 2 then .error .fault
  else .ok (UInt16.ofNat (ByteLayout.value (package.data.take 2)))

/-- The data is copied behind what was received, without counting it, and the
function runs on into its error result. A fault when it leaves the buffer. -/
def appendData (job : MIPTPReceiveJob) (data : List UInt8) : Except Halt (ℤ × MIPTPReceiveJob) :=
  let offset := job.dataReceived.toNat
  if hFits : offset + data.length ≤ maxDataSizeBytes then
    .ok (-1, { job with
      data := job.data.take offset ++ (data ++ job.data.drop (offset + data.length))
      size_eq := by
        have hSize := job.size_eq
        simp only [List.length_append, List.length_take, List.length_drop]
        omega })
  else .error .fault

/-- Returns 1 on success and -1 on failure. -/
def receivePackage (job : MIPTPReceiveJob) (sender : MIPAddress) (package : MIPTPPackage) :
    Except Halt (ℤ × MIPTPReceiveJob) :=
  if job.status = .waitingForConnection then
    match getDataSizeFromPackage package with
    | .error halt => .error halt
    | .ok dataSize => .ok (1, { job with sender, dataSize, status := .waitingForPackage })
  else if job.isComplete then .ok (1, job)
  else job.appendData package.data

/-- An acknowledgement has no data, so its creation from NULL is refused. -/
def nextPackage (job : MIPTPReceiveJob) (sequenceNr : UInt16) : Option MIPTPPackage :=
  MIPTPPackage.create (UInt16.ofNat job.port.toNat) sequenceNr none

/-- An acknowledgement would be returned in place of a queue; `.error .error` is
the NULL result. -/
def nextPackages (job : MIPTPReceiveJob) : Except Halt (List MIPTPPackage) :=
  if job.status ≠ .ackReady then .ok []
  else
    match job.nextPackage job.requestNr with
    | none => .error .error
    | some _ => .error .fault

def result (job : MIPTPReceiveJob) : Option ClientPackage :=
  if job.isComplete then
    ClientPackage.create 0 0 .sender (job.data.take job.dataReceived.toNat)
  else none

end MIPTPReceiveJob

end MipStack
