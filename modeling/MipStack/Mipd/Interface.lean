import MipStack.Mipd.Packaging

/-! The table of network interfaces (`mipd/src/lib/interface.c`). -/
namespace MipStack

/-- `sllAddr` is the hardware address in `so_name`. -/
structure InterfaceRecord where
  interface : MacAddress
  sllAddr : MacAddress
  mipAddress : MIPAddress
  rawSocket : ℤ
  deriving DecidableEq, Repr

structure InterfaceTable where
  interfaces : List InterfaceRecord
  deriving DecidableEq, Repr

namespace InterfaceTable

def isSocketInTable (table : InterfaceTable) (fd : ℤ) : Bool :=
  table.interfaces.any fun record => record.rawSocket = fd

/-- The first interface when no socket matches. -/
def getInterfacePosForSocket (table : InterfaceTable) (fd : ℤ) : ℕ :=
  (table.interfaces.findIdx? fun record => record.rawSocket = fd).getD 0

/-- `none` stands for -1. -/
def getInterfacePosForMipAddress (table : InterfaceTable) (address : MIPAddress) : Option ℕ :=
  table.interfaces.findIdx? fun record => record.mipAddress = address

/-- The record at the position found for a socket; `none` is a NULL `so_name`. -/
def recordForSocket (table : InterfaceTable) (fd : ℤ) : Option InterfaceRecord :=
  table.interfaces[table.getInterfacePosForSocket fd]?

variable {table : InterfaceTable} {fd : ℤ}

/-- A frame is read from a socket exactly if an interface has it. -/
theorem isSocketInTable_iff :
    table.isSocketInTable fd ↔ ∃ record ∈ table.interfaces, record.rawSocket = fd := by
  simp [isSocketInTable]

/-- A lookup fails only in an empty table: the position of a missing socket is that of the first
interface. -/
theorem exists_recordForSocket (hNonempty : table.interfaces ≠ []) (fd : ℤ) :
    ∃ record ∈ table.interfaces, table.recordForSocket fd = some record := by
  have hPos : table.getInterfacePosForSocket fd < table.interfaces.length := by
    unfold getInterfacePosForSocket
    cases hFind : table.interfaces.findIdx? fun record => record.rawSocket = fd with
    | none => exact List.length_pos_iff.mpr hNonempty
    | some i => exact (List.findIdx?_eq_some_iff_getElem.mp hFind).1
  exact ⟨_, List.getElem_mem hPos, List.getElem?_eq_getElem hPos⟩

theorem interfaces_ne_nil_of_isSocketInTable (hSocket : table.isSocketInTable fd) :
    table.interfaces ≠ [] := by
  obtain ⟨record, hMem, -⟩ := isSocketInTable_iff.mp hSocket
  exact List.ne_nil_of_mem hMem

end InterfaceTable

end MipStack
