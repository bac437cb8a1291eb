import MipStack.Mipd.MipArpSlots
import MipStack.Library.Execution
import MipStack.Library.KeyedList

/-! The ARP cache as a finite map from addresses to what was last learned of them, for as
long as the array has a slot for each of them. -/
namespace MipStack
open Execution

structure ArpBinding where
  srcSocket : ℤ
  dstInterface : MacAddress
  lastUpdate : ℤ
  deriving DecidableEq, Repr

def MipArpCacheEntry.binding (entry : MipArpCacheEntry) : ArpBinding :=
  { srcSocket := entry.srcSocket
    dstInterface := entry.dstInterface
    lastUpdate := entry.lastUpdate }

abbrev ArpMap := MIPAddress → Option ArpBinding

/-- A call of `append_to_cache` or `update_arp_cache` with the clock at the time; one
reading serves the whole sweep. -/
inductive ArpCall where
  | append (srcSocket : ℤ) (address : MIPAddress) (interface : MacAddress) (now : ℤ)
  | update (table : InterfaceTable) (now asked sent : ℤ)

/-- -1 is no socket, it is the answer for an address that is not cached. -/
def ArpCall.OnSocket : ArpCall → Prop
  | .append srcSocket _ _ _ => srcSocket ≠ -1
  | .update _ _ _ _ => True

namespace ArpMap

def empty : ArpMap := fun _ => none

def known (m : ArpMap) : Set MIPAddress := {address | (m address).isSome}

/-- The last write wins. The broadcast address is never written. -/
def append (m : ArpMap) (srcSocket : ℤ) (address : MIPAddress) (interface : MacAddress)
    (now : ℤ) : ArpMap :=
  if address = 255 then m else Function.update m address (some ⟨srcSocket, interface, now⟩)

/-- Drops what is older than `maxAge`. -/
def expire (m : ArpMap) (maxAge now : ℤ) : ArpMap := fun address =>
  (m address).filter fun binding => now - binding.lastUpdate ≤ maxAge

def perform (updateFreq : ℤ) (m : ArpMap) : ArpCall → ArpMap
  | .append srcSocket address interface now => m.append srcSocket address interface now
  | .update _ now _ _ => m.expire (2 * updateFreq) now

def Step (updateFreq : ℤ) (m : ArpMap) (call : ArpCall) (m' : ArpMap) : Prop :=
  m' = m.perform updateFreq call

/-- No more addresses are cached at once than the array has slots. -/
def Fits (_ : ArpMap) (_ : ArpCall) (m' : ArpMap) : Prop :=
  m'.known.ncard ≤ mipArpCacheCapacity

/-- The map as a list of entries, one for each address. -/
structure Lists (m : ArpMap) (entries : List MipArpCacheEntry) : Prop where
  distinct : (entries.map MipArpCacheEntry.mipAddress).Nodup
  address_ne : ∀ entry ∈ entries, entry.mipAddress ≠ 255
  binding : ∀ address, m address =
    (entries.find? fun entry => entry.mipAddress = address).map MipArpCacheEntry.binding

end ArpMap

namespace MipArpSlots

def perform (slots : MipArpSlots) : ArpCall → Option MipArpSlots
  | .append srcSocket address interface now =>
    (slots.appendToCache srcSocket address interface now).map Prod.snd
  | .update table now asked sent =>
    (slots.updateArpCache table (fun _ => now) asked sent).map Prod.fst

def Step (slots : MipArpSlots) (call : ArpCall) (slots' : MipArpSlots) : Prop :=
  slots.perform call = some slots'

/-- A call for 255 changes nothing. A sweep skips no entry, and those that it leaves stay in
order. -/
def KeepsOthers (slots : MipArpSlots) (call : ArpCall) (slots' : MipArpSlots) : Prop :=
  match call with
  | .append _ address _ _ => address = 255 → slots' = slots
  | .update _ now _ _ => slots'.array.used = slots.array.used.filter fun entry =>
      now - entry.lastUpdate ≤ 2 * slots.updateFreq

/-- The array is the map: entries, lookups and the zeros behind them. -/
structure IsMap (slots : MipArpSlots) (m : ArpMap) : Prop where
  size : slots.array.size = slots.array.used.length
  size_le : slots.array.size ≤ mipArpCacheCapacity
  vacated : ∀ i (hi : i < mipArpCacheCapacity), slots.array.size ≤ i →
    slots.array.entries[i] = zeroEntry
  entries : m.Lists slots.array.used
  srcSocket : ∀ address, slots.queryMipAddressSrcSocket address =
    match m address with
    | some binding => binding.srcSocket
    | none => -1
  pos : ∀ address, match m address with
    | some binding => ∃ (i : ℕ) (entry : MipArpCacheEntry),
        slots.queryMipAddressPos address = i ∧ slots.array.used[i]? = some entry ∧
        entry.mipAddress = address ∧ entry.binding = binding
    | none => slots.queryMipAddressPos address = -1

end MipArpSlots

namespace ArpMap

variable {m m' : ArpMap} {entries : List MipArpCacheEntry} {cache cache' : MipArpCache}
  {srcSocket maxAge now updateFreq : ℤ} {address : MIPAddress} {interface : MacAddress}
  {calls : List ArpCall}

theorem Lists.empty : empty.Lists [] :=
  ⟨List.nodup_nil, fun _ hMem => absurd hMem List.not_mem_nil, fun _ => rfl⟩

/-- There are as many entries as cached addresses, which compares the map with the number of
slots. -/
theorem Lists.ncard_known (h : m.Lists entries) : m.known.ncard = entries.length := by
  rw [← KeyedList.ncard_keys h.distinct]
  congr 1
  ext address
  simp only [known, Set.mem_ofPred_eq, h.binding, Option.isSome_map]

theorem Lists.fits_iff {call : ArpCall} (h : m'.Lists entries) :
    Fits m call m' ↔ entries.length ≤ mipArpCacheCapacity := by
  rw [Fits, h.ncard_known]

/-- Writing one binding changes the lookup of its address only, wherever the entry is put. -/
theorem Lists.of_find (h : m.Lists entries) (hAddress : address ≠ 255)
    {written : List MipArpCacheEntry}
    (hDistinct : (written.map MipArpCacheEntry.mipAddress).Nodup)
    (hAddresses : ∀ entry ∈ written, entry.mipAddress ≠ 255)
    (hFind : ∀ a, (written.find? fun entry => entry.mipAddress = a) =
      if address = a then some ⟨address, srcSocket, interface, now⟩
      else entries.find? fun entry => entry.mipAddress = a) :
    (m.append srcSocket address interface now).Lists written := by
  refine ⟨hDistinct, hAddresses, fun a => ?_⟩
  rw [ArpMap.append, if_neg hAddress, Function.update_apply, hFind, h.binding]
  by_cases ha : address = a
  · rw [if_pos ha.symm, if_pos ha]
    rfl
  · rw [if_neg (Ne.symm ha), if_neg ha]

/-- A known address keeps its slot when it is heard again. -/
theorem Lists.set (h : m.Lists entries) (hAddress : address ≠ 255) {pos : ℕ}
    (hPos : entries.findIdx? (fun entry => entry.mipAddress = address) = some pos) :
    (m.append srcSocket address interface now).Lists
      (entries.set pos ⟨address, srcSocket, interface, now⟩) := by
  let newEntry : MipArpCacheEntry := ⟨address, srcSocket, interface, now⟩
  refine h.of_find hAddress ?_ ?_ fun a => KeyedList.find?_set (x := newEntry) hPos
  · rw [KeyedList.map_set (x := newEntry) hPos]
    exact h.distinct
  · intro entry hMem
    rcases List.mem_or_eq_of_mem_set hMem with hOld | rfl
    · exact h.address_ne entry hOld
    · exact hAddress

/-- A new address is put behind the others, in the first slot that is not used. -/
theorem Lists.push (h : m.Lists entries) (srcSocket : ℤ) (interface : MacAddress) (now : ℤ)
    (hAddress : address ≠ 255)
    (hNew : ∀ entry ∈ entries, entry.mipAddress ≠ address) :
    (m.append srcSocket address interface now).Lists
      (entries ++ [⟨address, srcSocket, interface, now⟩]) := by
  let newEntry : MipArpCacheEntry := ⟨address, srcSocket, interface, now⟩
  refine h.of_find hAddress (KeyedList.nodup_append (x := newEntry) h.distinct hNew) ?_
    fun a => KeyedList.find?_append (x := newEntry) hNew
  intro entry hMem
  rcases List.mem_append.mp hMem with hOld | hLast
  · exact h.address_ne entry hOld
  · rw [List.mem_singleton.mp hLast]
    exact hAddress

/-- An entry stays if it is at most twice the update frequency old. -/
theorem not_expired_eq (entry : MipArpCacheEntry) :
    (!MipArpCache.isCacheEntryExpired entry maxAge now) =
      decide (now - entry.lastUpdate ≤ maxAge) := by
  rw [MipArpCache.isCacheEntryExpired, ← decide_not, decide_eq_decide]
  exact Int.not_lt

/-- A sweep keeps the entries that are not too old, and only those. -/
theorem Lists.expire (h : m.Lists entries) (maxAge now : ℤ) :
    (m.expire maxAge now).Lists
      (entries.filter fun entry => now - entry.lastUpdate ≤ maxAge) := by
  refine ⟨(List.filter_sublist.map _).nodup h.distinct,
    fun entry hMem => h.address_ne entry (List.mem_of_mem_filter hMem), fun address => ?_⟩
  rw [KeyedList.find?_filter h.distinct, ArpMap.expire, h.binding]
  cases entries.find? fun entry => entry.mipAddress = address with
  | none => rfl
  | some entry =>
      simp only [Option.map_some, Option.filter_some, MipArpCacheEntry.binding]
      split_ifs <;> rfl

/-- An address that the map has room for has a slot: it is cached already, or one slot is left. -/
theorem Lists.hasSlotFor (h : m.Lists cache.entries) (hAddress : address ≠ 255)
    (hFits : Fits m (.append srcSocket address interface now)
      (m.append srcSocket address interface now)) : cache.HasSlotFor address := by
  by_cases hKnown : ∃ entry ∈ cache.entries, entry.mipAddress = address
  · exact Or.inl hKnown
  · refine Or.inr ?_
    have hPushed := h.push srcSocket interface now hAddress fun entry hMem hEq =>
      hKnown ⟨entry, hMem, hEq⟩
    rw [hPushed.fits_iff, List.length_append, List.length_singleton] at hFits
    exact hFits

end ArpMap

namespace MipArpSlots

open ArpMap

variable {slots slots' : MipArpSlots} {m m' : ArpMap} {updateFreq : ℤ} {call : ArpCall}
  {calls : List ArpCall}

/-- The invariant of all runs. -/
structure Mirrors (updateFreq : ℤ) (m : ArpMap) (slots : MipArpSlots) : Prop where
  updateFreq : slots.updateFreq = updateFreq
  array : slots.array.Holds zeroEntry slots.array.used
  entries : m.Lists slots.array.used

/-- An array that holds the entries of the map mirrors it, whatever stood in its slots before. -/
theorem Mirrors.of_holds (hFreq : slots.updateFreq = updateFreq)
    {entries : List MipArpCacheEntry} (hHolds : slots.array.Holds zeroEntry entries)
    (hLists : m.Lists entries) : Mirrors updateFreq m slots :=
  ⟨hFreq, hHolds.used.symm ▸ hHolds, hHolds.used.symm ▸ hLists⟩

theorem Mirrors.createCache (updateFreq : ℤ) :
    Mirrors updateFreq ArpMap.empty (createCache updateFreq) :=
  .of_holds rfl (SlotArray.Holds.empty _ _) Lists.empty

/-- What a reader of the array sees is the map: each address at most once, both queries, and zeros
behind the used slots. -/
theorem Mirrors.isMap (h : Mirrors updateFreq m slots) : slots.IsMap m := by
  refine ⟨h.array.size, ?_, fun i hi hLe => h.array.blank_of_le hLe hi, h.entries,
    fun address => ?_, fun address => ?_⟩
  · rw [h.array.size]
    exact Int.ofNat_le.mpr h.array.length_le
  · rw [queryMipAddressSrcSocket, h.entries.binding]
    cases slots.array.used.find? fun entry => entry.mipAddress = address <;> rfl
  · rw [queryMipAddressPos, h.entries.binding]
    cases hPos : slots.array.used.findIdx? fun entry => entry.mipAddress = address with
    | none =>
        rw [List.find?_eq_none.mpr fun entry hMem => by
          simpa using List.findIdx?_eq_none_iff.mp hPos entry hMem]
        rfl
    | some i =>
        obtain ⟨hLt, hKey, -⟩ := List.findIdx?_eq_some_iff_getElem.mp hPos
        have hAddress : slots.array.used[i].mipAddress = address := of_decide_eq_true hKey
        rw [(KeyedList.find?_eq_some_iff h.entries.distinct).mpr ⟨List.getElem_mem hLt, hAddress⟩]
        exact ⟨i, slots.array.used[i], rfl, List.getElem?_eq_getElem hLt, hAddress, rfl⟩

/-- `append_to_cache` follows an insertion into the map. The address 255 changes nothing, a known
one is overwritten in its slot and a new one is put behind the others. -/
theorem Mirrors.append (h : Mirrors updateFreq m slots) {srcSocket now : ℤ}
    {address : MIPAddress} {interface : MacAddress}
    (hFits : Fits m (.append srcSocket address interface now)
      (m.append srcSocket address interface now)) :
    ∃ slots', slots.perform (.append srcSocket address interface now) = some slots' ∧
      (address = 255 → slots' = slots) ∧
      Mirrors updateFreq (m.append srcSocket address interface now) slots' := by
  let cache : MipArpCache := ⟨slots.array.used, slots.updateFreq, slots.lastArp,
    h.array.length_le, h.entries.address_ne⟩
  have hCache : slots.Represents cache := ⟨h.array, rfl, rfl⟩
  have hAppend := hCache.appendToCache srcSocket address interface now
  by_cases hAddress : address = 255
  · subst hAddress
    rw [MipArpCache.appendToCache_broadcast] at hAppend
    refine ⟨slots, ?_, fun _ => rfl, ?_⟩
    · rw [perform, hAppend]
      rfl
    · rwa [ArpMap.append, if_pos rfl]
  · have hSlot : cache.HasSlotFor address := Lists.hasSlotFor h.entries hAddress hFits
    obtain ⟨cache', hOk⟩ := (MipArpCache.exists_appendToCache_iff cache srcSocket address interface
      now).mpr ⟨hAddress, hSlot⟩
    rw [hOk] at hAppend
    obtain ⟨rc, slots', hSlots, -, hRepresents⟩ := hAppend
    refine ⟨slots', ?_, fun hEq => absurd hEq hAddress, ?_⟩
    · rw [perform, hSlots]
      rfl
    · obtain ⟨-, hFreq, hWritten⟩ := MipArpCache.appendToCache_eq_ok hOk
      refine .of_holds (hRepresents.updateFreq.trans (hFreq.trans h.updateFreq))
        hRepresents.array ?_
      rcases hWritten with ⟨pos, hPos, hSet⟩ | ⟨hPos, hPushed⟩
      · rw [hSet]
        exact h.entries.set hAddress hPos
      · rw [hPushed]
        exact h.entries.push _ _ _ hAddress (MipArpCache.queryMipAddressPos_eq_none_iff.mp hPos)

/-- A sweep follows the expiry of the map. It looks at every entry although it removes from the
array it walks over. -/
theorem Mirrors.update (h : Mirrors updateFreq m slots) (table : InterfaceTable)
    (now asked sent : ℤ) :
    ∃ slots', slots.perform (.update table now asked sent) = some slots' ∧
      slots'.array.used = (slots.array.used.filter fun entry =>
        now - entry.lastUpdate ≤ 2 * slots.updateFreq) ∧
      Mirrors updateFreq (m.expire (2 * updateFreq) now) slots' := by
  obtain ⟨swept, outputs, hSwept, hHolds, hFreq⟩ :=
    exists_updateArpCache h.array table (fun _ => now) asked sent
  simp only [MipArpCache.survivors_const, not_expired_eq, Int.mul_comm _ 2] at hHolds
  refine ⟨swept, ?_, hHolds.used, ?_⟩
  · rw [perform, hSwept]
    rfl
  · rw [h.updateFreq] at hHolds
    exact .of_holds (hFreq.trans h.updateFreq) hHolds (h.entries.expire _ now)

/-- The step lemma: as long as the map fits into the array, a call on the cache follows the one on
the map. -/
theorem Mirrors.step (h : Mirrors updateFreq m slots)
    (hStep : ArpMap.Step updateFreq m call m') (hFits : Fits m call m') :
    ∃ slots', Guarded Step KeepsOthers slots call slots' ∧ Mirrors updateFreq m' slots' := by
  obtain rfl := hStep
  cases call with
  | append srcSocket address interface now =>
      obtain ⟨slots', hPerform, hSame, hMirrors⟩ := h.append hFits
      exact ⟨slots', ⟨hPerform, hSame⟩, hMirrors⟩
  | update table now asked sent =>
      obtain ⟨slots', hPerform, hLeft, hMirrors⟩ := h.update table now asked sent
      exact ⟨slots', ⟨hPerform, hLeft⟩, hMirrors⟩

end MipArpSlots

namespace ArpMap

variable {m m' : ArpMap} {updateFreq : ℤ} {call : ArpCall} {calls : List ArpCall}

/-- What is cached was cached under a socket. -/
def OnSockets (m : ArpMap) : Prop :=
  ∀ address binding, m address = some binding → binding.srcSocket ≠ -1

theorem OnSockets.empty : OnSockets empty := fun _ _ hBinding => by cases hBinding

/-- Queries return -1 for an address that is not cached, so nothing may be cached under this
socket. -/
theorem OnSockets.perform (h : m.OnSockets) (hCall : call.OnSocket) :
    (m.perform updateFreq call).OnSockets := by
  intro address binding hBinding
  cases call with
  | append srcSocket a interface now =>
      rw [ArpMap.perform, append] at hBinding
      split_ifs at hBinding
      · exact h address binding hBinding
      · rw [Function.update_apply] at hBinding
        split_ifs at hBinding
        · obtain rfl := Option.some.inj hBinding
          exact hCall
        · exact h address binding hBinding
  | update table now asked sent =>
      exact h address binding (Option.filter_eq_some_iff.mp hBinding).1

/-- In runs whose calls pass proper sockets, -1 is the result of a query only for an address that
is not cached. -/
theorem OnSockets.of_trace {start : ArpMap} (hStart : start.OnSockets)
    (run : Trace (Guarded (Step updateFreq) Fits) start calls m)
    (hCalls : ∀ call ∈ calls, call.OnSocket) : m.OnSockets := by
  induction run with
  | nil => exact hStart
  | snoc prior last ih =>
      obtain rfl := last.1
      have hPrior := ih fun call hMem => hCalls call (List.mem_append_left _ hMem)
      exact hPrior.perform (hCalls _ (List.mem_append_right _ (List.mem_singleton.mpr rfl)))

/-- As long as no more than 64 addresses are cached at once, no call writes outside the array
and the cache is the map. -/
theorem cache_is_map (run : Trace (Guarded (Step updateFreq) Fits) empty calls m) :
    ∃ slots, Trace (Guarded MipArpSlots.Step MipArpSlots.KeepsOthers)
        (MipArpSlots.createCache updateFreq) calls slots ∧
      slots.IsMap m ∧
      ((∀ call ∈ calls, call.OnSocket) → ∀ address,
        slots.queryMipAddressSrcSocket address ≠ -1 ↔ address ∈ m.known) := by
  obtain ⟨slots, hRun, hMirrors⟩ := run.lockstep
    (R := fun m slots => MipArpSlots.Mirrors updateFreq m slots)
    (MipArpSlots.Mirrors.createCache updateFreq)
    fun m call m' slots h hStep => h.step hStep.1 hStep.2
  refine ⟨slots, hRun, hMirrors.isMap, fun hCalls address => ?_⟩
  have hSocket := hMirrors.isMap.srcSocket address
  cases hBinding : m address with
  | none =>
      simp only [hBinding] at hSocket
      simp [known, hBinding, hSocket]
  | some binding =>
      simp only [hBinding] at hSocket
      have hOn := OnSockets.of_trace OnSockets.empty run hCalls address binding hBinding
      simp [known, hBinding, hSocket, hOn]

/-- Two neighbours are cached, and a sweep drops the older one, which is then more than twice the
update frequency old. -/
theorem cache_is_map_of_two_neighbours :
    let calls : List ArpCall := [.append 3 20 ethBroadcastAddr 0,
      .append 3 30 ethBroadcastAddr 100, .update ⟨[]⟩ 2050 2050 2050]
    let m := calls.foldl (perform 1000) empty
    ∃ slots, Trace (Guarded MipArpSlots.Step MipArpSlots.KeepsOthers)
        (MipArpSlots.createCache 1000) calls slots ∧
      slots.IsMap m ∧
      ((∀ call ∈ calls, call.OnSocket) → ∀ address,
        slots.queryMipAddressSrcSocket address ≠ -1 ↔ address ∈ m.known) := by
  intro calls m
  have hFirst : (empty.append 3 20 ethBroadcastAddr 0).Lists [⟨20, 3, ethBroadcastAddr, 0⟩] :=
    Lists.empty.push _ _ _ (by decide) fun _ hMem => absurd hMem List.not_mem_nil
  have hSecond := hFirst.push 3 ethBroadcastAddr 100 (show (30 : MIPAddress) ≠ 255 by decide)
    (by decide)
  have hSwept := hSecond.expire 2000 2050
  refine cache_is_map ?_
  refine Trace.snoc (Trace.snoc (Trace.single ⟨rfl, ?_⟩) ⟨rfl, ?_⟩) ⟨rfl, ?_⟩
  · exact hSwept.fits_iff.mpr (by decide)
  · exact hFirst.fits_iff.mpr (by decide)
  · exact hSecond.fits_iff.mpr (by decide)

end ArpMap

end MipStack
