import MipStack.Mipd.Interface
import MipStack.Mipd.Outcome

/-! The ARP cache (`mipd/src/lib/mip_arp.c`). -/
namespace MipStack

structure MipArpCacheEntry where
  mipAddress : MIPAddress
  srcSocket : ℤ
  dstInterface : MacAddress
  lastUpdate : ℤ
  deriving DecidableEq, Repr

def mipArpCacheCapacity : ℕ := 64

/-- `entries` are the used slots of the array. No slot behind it is in use, and
the broadcast address is never cached. `updateFreq` is unsigned in the struct and given as a
signed number; mipd gives 10000, and for a negative one the comparisons here are not those of
the source. -/
structure MipArpCache where
  entries : List MipArpCacheEntry
  updateFreq : ℤ
  lastArp : ℤ
  size_le : entries.length ≤ mipArpCacheCapacity
  address_ne : ∀ entry ∈ entries, entry.mipAddress ≠ 255

namespace MipArpCache

def createCache (updateFreq : ℤ) : MipArpCache :=
  { entries := [], updateFreq, lastArp := 0, size_le := Nat.zero_le _, address_ne := by simp }

def queryMipAddressPos (cache : MipArpCache) (address : MIPAddress) : Option ℕ :=
  cache.entries.findIdx? fun entry => entry.mipAddress = address

/-- -1 when the address is not cached. -/
def queryMipAddressSrcSocket (cache : MipArpCache) (address : MIPAddress) : ℤ :=
  match cache.entries.find? fun entry => entry.mipAddress = address with
  | some entry => entry.srcSocket
  | none => -1

/-- The first neighbour cached for the socket, 255 if there is none or its
address is not valid. -/
def queryCacheSocketMipAddress (cache : MipArpCache) (sock : ℤ) : MIPAddress :=
  match cache.entries.find? fun entry => entry.srcSocket = sock with
  | some entry => if entry.mipAddress < 255 then entry.mipAddress else 255
  | none => 255

/-- A known address keeps its slot. A new one takes the next slot, which lies
behind the array once all are used. -/
def appendToCache (cache : MipArpCache) (srcSocket : ℤ) (address : MIPAddress)
    (interface : MacAddress) (now : ℤ) : Except Halt MipArpCache :=
  if hAddress : address = 255 then .error .error
  else
    let newEntry : MipArpCacheEntry :=
      { mipAddress := address, srcSocket, dstInterface := interface, lastUpdate := now }
    match cache.queryMipAddressPos address with
    | some pos => .ok { cache with
        entries := cache.entries.set pos newEntry
        size_le := by
          rw [List.length_set]
          exact cache.size_le
        address_ne := by
          intro entry hMem
          rcases List.mem_or_eq_of_mem_set hMem with hOld | rfl
          · exact cache.address_ne entry hOld
          · exact hAddress }
    | none =>
      if hFree : cache.entries.length < mipArpCacheCapacity then
        .ok { cache with
          entries := cache.entries ++ [newEntry]
          size_le := by
            rw [List.length_append]
            exact hFree
          address_ne := by
            intro entry hMem
            rcases List.mem_append.mp hMem with hOld | hNew
            · exact cache.address_ne entry hOld
            · obtain rfl := List.mem_singleton.mp hNew
              exact hAddress }
      else .error .fault

def isCacheEntryExpired (entry : MipArpCacheEntry) (updateFreq now : ℤ) : Bool :=
  now - entry.lastUpdate > updateFreq

/-- The difference is compared as an unsigned number, so a clock that ran
backwards counts as a long time. -/
def shouldCompleteNewArp (cache : MipArpCache) (now : ℤ) : Bool :=
  now - cache.lastArp < 0 || now - cache.lastArp > cache.updateFreq

/-- The sweep from slot `i` on. A removal shifts the later slots left, so the
same slot is looked at again; every turn reads the clock once. -/
def sweep (updateFreq : ℤ) : ℕ → ℕ → Clock → List MipArpCacheEntry → List MipArpCacheEntry
  | 0, _, _, entries => entries
  | fuel + 1, i, clock, entries =>
    match entries[i]? with
    | none => entries
    | some entry =>
      if isCacheEntryExpired entry updateFreq (clock 0) then
        sweep updateFreq fuel i (fun n => clock (n + 1)) (entries.eraseIdx i)
      else sweep updateFreq fuel (i + 1) (fun n => clock (n + 1)) entries

/-- A sweep only removes entries, and those that stay keep their order. -/
theorem sweep_sublist (updateFreq : ℤ) (fuel i : ℕ) (clock : Clock)
    (entries : List MipArpCacheEntry) :
    (sweep updateFreq fuel i clock entries).Sublist entries := by
  induction fuel generalizing i clock entries with
  | zero => exact List.Sublist.refl _
  | succ fuel ih =>
      rw [sweep]
      split
      · exact List.Sublist.refl _
      · split_ifs
        · exact (ih _ _ _).trans (List.eraseIdx_sublist _ _)
        · exact ih _ _ _

/-- One request for every interface, in the order of the table. -/
def completeMipArp (table : InterfaceTable) (cache : MipArpCache) (now : ℤ) :
    MipArpCache × List Output :=
  ({ cache with lastArp := now }, table.interfaces.map fun record =>
    .sendto record.rawSocket
      (MIPPackage.createMipArpRequestPacket record.mipAddress record.interface))

def updateArpCache (table : InterfaceTable) (cache : MipArpCache) (clock : Clock) :
    MipArpCache × List Output :=
  let entries := sweep (cache.updateFreq * 2) cache.entries.length 0 clock cache.entries
  have hSub : entries.Sublist cache.entries := sweep_sublist _ _ _ _ _
  let swept : MipArpCache := { cache with
    entries
    size_le := hSub.length_le.trans cache.size_le
    address_ne := fun entry hMem => cache.address_ne entry (hSub.subset hMem) }
  if swept.shouldCompleteNewArp (clock cache.entries.length) then
    completeMipArp table swept (clock (cache.entries.length + 1))
  else (swept, [])

/-- The request is answered before its sender is cached, and a failure to cache
it is ignored: only a write behind the array is left of it. -/
def handleMipArpRequest (cache : MipArpCache) (received : MIPPackage)
    (receivedOn : InterfaceRecord) (pointers : ℕ → PointerBytes) (now : ℤ) :
    Except Halt (MipArpCache × List Output) :=
  match MIPPackage.createRaw receivedOn.mipAddress ⟨pointers 0, receivedOn.interface⟩
      received.mHeader.srcAddr ⟨pointers 1, received.eFrame.srcAddr⟩ [] 0 with
  | none => .error .error
  | some response =>
    let outputs := [Output.sendto receivedOn.rawSocket response]
    match cache.appendToCache receivedOn.rawSocket received.mHeader.srcAddr receivedOn.sllAddr
        now with
    | .ok cache => .ok (cache, outputs)
    | .error .error => .ok (cache, outputs)
    | .error .fault => .error .fault

section Append

variable {cache cache' : MipArpCache} {srcSocket now : ℤ} {address : MIPAddress}
  {interface : MacAddress}

/-- A position is found exactly for the addresses that are cached. -/
theorem queryMipAddressPos_eq_none_iff :
    cache.queryMipAddressPos address = none ↔
      ∀ entry ∈ cache.entries, entry.mipAddress ≠ address := by
  simp [queryMipAddressPos]

/-- The cache knows the address or has a free slot for it. -/
def HasSlotFor (cache : MipArpCache) (address : MIPAddress) : Prop :=
  (∃ entry ∈ cache.entries, entry.mipAddress = address) ∨ cache.entries.length < mipArpCacheCapacity

instance (cache : MipArpCache) (address : MIPAddress) : Decidable (cache.HasSlotFor address) :=
  inferInstanceAs (Decidable ((∃ entry ∈ cache.entries, entry.mipAddress = address) ∨ _))

/-- The broadcast address is refused, and this refusal is an error result. -/
theorem appendToCache_broadcast :
    cache.appendToCache srcSocket 255 interface now = .error .error := by
  simp [appendToCache]

/-- A new address is written behind the last slot of a full array: there is no check. -/
theorem appendToCache_full (hAddress : address ≠ 255) (hFull : ¬ cache.HasSlotFor address) :
    cache.appendToCache srcSocket address interface now = .error .fault := by
  obtain ⟨hUnknown, hUsed⟩ := not_or.mp hFull
  have hPos := queryMipAddressPos_eq_none_iff.mpr fun entry hMem hEq => hUnknown ⟨entry, hMem, hEq⟩
  simp only [appendToCache, dif_neg hAddress, hPos, dif_neg hUsed]

/-- A known address, or one that finds a free slot, is cached. -/
theorem exists_appendToCache (hAddress : address ≠ 255) (hSlot : cache.HasSlotFor address) :
    ∃ cache', cache.appendToCache srcSocket address interface now = .ok cache' := by
  cases hPos : cache.queryMipAddressPos address with
  | some pos =>
      simp only [appendToCache, dif_neg hAddress, hPos]
      exact ⟨_, rfl⟩
  | none =>
      have hUnknown := queryMipAddressPos_eq_none_iff.mp hPos
      have hFree := hSlot.resolve_left fun ⟨entry, hMem, hEq⟩ => hUnknown entry hMem hEq
      simp only [appendToCache, dif_neg hAddress, hPos, dif_pos hFree]
      exact ⟨_, rfl⟩

/-- An address is cached in the slot it has, or else in the next free one. -/
theorem appendToCache_eq_ok
    (h : cache.appendToCache srcSocket address interface now = .ok cache') :
    address ≠ 255 ∧ cache'.updateFreq = cache.updateFreq ∧
      ((∃ pos, cache.queryMipAddressPos address = some pos ∧
          cache'.entries = cache.entries.set pos ⟨address, srcSocket, interface, now⟩) ∨
        (cache.queryMipAddressPos address = none ∧
          cache'.entries = cache.entries ++ [⟨address, srcSocket, interface, now⟩])) := by
  by_cases hAddress : address = 255
  · rw [hAddress, appendToCache_broadcast] at h
    cases h
  refine ⟨hAddress, ?_⟩
  cases hPos : cache.queryMipAddressPos address with
  | some pos =>
      simp only [appendToCache, dif_neg hAddress, hPos, Except.ok.injEq] at h
      obtain rfl := h
      exact ⟨rfl, Or.inl ⟨pos, rfl, rfl⟩⟩
  | none =>
      by_cases hFree : cache.entries.length < mipArpCacheCapacity
      · simp only [appendToCache, dif_neg hAddress, hPos, dif_pos hFree, Except.ok.injEq] at h
        obtain rfl := h
        exact ⟨rfl, Or.inr ⟨rfl, rfl⟩⟩
      · simp only [appendToCache, dif_neg hAddress, hPos, dif_neg hFree, reduceCtorEq] at h

/-- Only a valid address is cached, and only where the array has room for it. -/
theorem exists_appendToCache_iff (cache : MipArpCache) (srcSocket : ℤ) (address : MIPAddress)
    (interface : MacAddress) (now : ℤ) :
    (∃ cache', cache.appendToCache srcSocket address interface now = .ok cache') ↔
      address ≠ 255 ∧ cache.HasSlotFor address := by
  constructor
  · rintro ⟨cache', hOk⟩
    by_cases hAddress : address = 255
    · rw [hAddress, appendToCache_broadcast] at hOk
      cases hOk
    · by_cases hSlot : cache.HasSlotFor address
      · exact ⟨hAddress, hSlot⟩
      · rw [appendToCache_full hAddress hSlot] at hOk
        cases hOk
  · rintro ⟨hAddress, hSlot⟩
    exact exists_appendToCache hAddress hSlot

/-- A request is answered, cached sender or not, unless caching its sender writes
behind the array. -/
theorem exists_handleMipArpRequest_iff (cache : MipArpCache) (received : MIPPackage)
    (record : InterfaceRecord) (pointers : ℕ → PointerBytes) (now : ℤ) :
    (∃ result, cache.handleMipArpRequest received record pointers now = .ok result) ↔
      received.mHeader.srcAddr = 255 ∨ cache.HasSlotFor received.mHeader.srcAddr := by
  have hFits : ([] : List UInt8).length ≤ payloadMaxSizeBytes := Nat.zero_le _
  simp only [handleMipArpRequest, MIPPackage.createRaw_eq (by decide : 0 < 5) hFits]
  by_cases hAddress : received.mHeader.srcAddr = 255
  · simp [hAddress, appendToCache_broadcast]
  · by_cases hSlot : cache.HasSlotFor received.mHeader.srcAddr
    · obtain ⟨cache', hOk⟩ : ∃ cache', cache.appendToCache record.rawSocket
          received.mHeader.srcAddr record.sllAddr now = .ok cache' :=
        exists_appendToCache hAddress hSlot
      simp [hOk, hSlot]
    · simp [appendToCache_full hAddress hSlot, hAddress, hSlot]

end Append

end MipArpCache

end MipStack
