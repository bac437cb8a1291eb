import MipStack.Mipd.MipArp
import MipStack.Library.SlotArray

/-! The ARP cache as it lies in memory (`mipd/src/lib/mip_arp.c`): an array of 64 slots and
a count of those in use, which nothing compares with the length of the array. -/
namespace MipStack

/-- The entry whose bytes are all zero. -/
def zeroEntry : MipArpCacheEntry :=
  { mipAddress := 0, srcSocket := 0, dstInterface := Vector.replicate 6 0, lastUpdate := 0 }

structure MipArpSlots where
  array : SlotArray MipArpCacheEntry mipArpCacheCapacity
  updateFreq : ℤ
  lastArp : ℤ

namespace MipArpSlots

def createCache (updateFreq : ℤ) : MipArpSlots :=
  { array := SlotArray.empty zeroEntry, updateFreq, lastArp := 0 }

def queryMipAddressPos (cache : MipArpSlots) (address : MIPAddress) : ℤ :=
  match cache.array.used.findIdx? fun entry => entry.mipAddress = address with
  | some i => i
  | none => -1

def queryMipAddressSrcSocket (cache : MipArpSlots) (address : MIPAddress) : ℤ :=
  match cache.array.used.find? fun entry => entry.mipAddress = address with
  | some entry => entry.srcSocket
  | none => -1

/-- The position of a known address is returned, for a new one the new size. `none` is a
write outside the array. -/
def appendToCache (cache : MipArpSlots) (srcSocket : ℤ) (address : MIPAddress)
    (interface : MacAddress) (now : ℤ) : Option (ℤ × MipArpSlots) :=
  if address = 255 then some (-1, cache)
  else
    let newEntry : MipArpCacheEntry :=
      { mipAddress := address, srcSocket, dstInterface := interface, lastUpdate := now }
    let entryPos := cache.queryMipAddressPos address
    if entryPos ≠ -1 then
      (cache.array.write entryPos newEntry).map fun array => (entryPos, { cache with array })
    else
      (cache.array.write cache.array.size newEntry).map fun array =>
        (array.size + 1, { cache with array := { array with size := array.size + 1 } })

def removeFromCache (cache : MipArpSlots) (pos : ℤ) : Option (ℤ × MipArpSlots) :=
  let shifted :=
    if pos ≠ cache.array.size - 1 then
      SlotArray.shiftLeft (cache.array.size - (pos + 1)).toNat (pos + 1) cache.array
    else some cache.array
  shifted.bind fun array =>
    (array.write (array.size - 1) zeroEntry).map fun array =>
      (pos, { cache with array := { array with size := array.size - 1 } })

theorem removeFromCache_size {cache : MipArpSlots} {pos : ℤ} {result : ℤ × MipArpSlots}
    (h : cache.removeFromCache pos = some result) :
    result.2.array.size = cache.array.size - 1 := by
  rw [removeFromCache, Option.bind_eq_some_iff] at h
  obtain ⟨shifted, hShift, hResult⟩ := h
  obtain ⟨array, hWrite, rfl⟩ := Option.map_eq_some_iff.mp hResult
  have hSize : shifted.size = cache.array.size := by
    split_ifs at hShift
    · exact SlotArray.shiftLeft_size hShift
    · rw [Option.some.inj hShift]
  rw [← hSize, ← SlotArray.write_size hWrite]

/-- The loop of `update_arp_cache` from slot `i` on. A removal shifts the later slots, so
the loop walks back one slot; every turn reads the clock once. -/
def sweepFrom (maxAge i : ℤ) (clock : Clock) (cache : MipArpSlots) : Option MipArpSlots :=
  if i < cache.array.size then
    match cache.array.read i with
    | none => none
    | some entry =>
      if MipArpCache.isCacheEntryExpired entry maxAge (clock 0) then
        match hRemoved : cache.removeFromCache i with
        | none => none
        | some (_, cache) => sweepFrom maxAge (i - 1 + 1) (fun n => clock (n + 1)) cache
      else sweepFrom maxAge (i + 1) (fun n => clock (n + 1)) cache
  else some cache
termination_by (cache.array.size - i).toNat
decreasing_by
  · have hSize := removeFromCache_size hRemoved
    simp only at hSize
    omega
  · omega

def shouldCompleteNewArp (cache : MipArpSlots) (now : ℤ) : Bool :=
  now - cache.lastArp < 0 || now - cache.lastArp > cache.updateFreq

def completeMipArp (table : InterfaceTable) (cache : MipArpSlots) (now : ℤ) :
    MipArpSlots × List Output :=
  ({ cache with lastArp := now }, table.interfaces.map fun record =>
    .sendto record.rawSocket
      (MIPPackage.createMipArpRequestPacket record.mipAddress record.interface))

/-- The clock is read in every turn of the loop, then to see if requests are due and, if
they are, once they are sent. -/
def updateArpCache (table : InterfaceTable) (cache : MipArpSlots) (clock : Clock)
    (asked sent : ℤ) : Option (MipArpSlots × List Output) :=
  (sweepFrom (cache.updateFreq * 2) 0 clock cache).map fun swept =>
    if swept.shouldCompleteNewArp asked then swept.completeMipArp table sent else (swept, [])

/-- The result of caching the sender is ignored. -/
def handleMipArpRequest (cache : MipArpSlots) (received : MIPPackage)
    (receivedOn : InterfaceRecord) (pointers : ℕ → PointerBytes) (now : ℤ) :
    Option (ℤ × MipArpSlots × List Output) :=
  match MIPPackage.createRaw receivedOn.mipAddress ⟨pointers 0, receivedOn.interface⟩
      received.mHeader.srcAddr ⟨pointers 1, received.eFrame.srcAddr⟩ [] 0 with
  | none => some (-1, cache, [])
  | some response =>
    (cache.appendToCache receivedOn.rawSocket received.mHeader.srcAddr receivedOn.sllAddr
      now).map fun appended => (1, appended.2, [.sendto receivedOn.rawSocket response])

end MipArpSlots

namespace MipArpCache

/-- The entries that a sweep leaves, each looked at once, at the next reading of the clock. -/
def survivors (maxAge : ℤ) : Clock → List MipArpCacheEntry → List MipArpCacheEntry
  | _, [] => []
  | clock, entry :: rest =>
    if isCacheEntryExpired entry maxAge (clock 0) then
      survivors maxAge (fun n => clock (n + 1)) rest
    else entry :: survivors maxAge (fun n => clock (n + 1)) rest

variable {cache : MipArpCache} {maxAge now : ℤ} {entry : MipArpCacheEntry}

/-- With a clock that stands still, a sweep is a filter for the entries that are not expired. -/
theorem survivors_const (entries : List MipArpCacheEntry) :
    survivors maxAge (fun _ => now) entries =
      entries.filter fun entry => !isCacheEntryExpired entry maxAge now := by
  induction entries with
  | nil => rfl
  | cons entry rest ih =>
      rw [survivors, ih, List.filter_cons]
      cases isCacheEntryExpired entry maxAge now <;> rfl

/-- The sweep goes on behind the entries that it kept. -/
theorem sweep_eq (maxAge : ℤ) (kept : List MipArpCacheEntry) {rest : List MipArpCacheEntry}
    {fuel : ℕ} (clock : Clock) (hFuel : rest.length ≤ fuel) :
    sweep maxAge fuel kept.length clock (kept ++ rest) = kept ++ survivors maxAge clock rest := by
  induction rest generalizing kept fuel clock with
  | nil =>
      cases fuel with
      | zero => rfl
      | succ fuel => simp [sweep, survivors]
  | cons entry rest ih =>
      cases fuel with
      | zero => exact absurd hFuel (Nat.not_succ_le_zero _)
      | succ fuel =>
          have hLeft : rest.length ≤ fuel := Nat.le_of_succ_le_succ hFuel
          have hEntry : (kept ++ entry :: rest)[kept.length]? = some entry := by simp
          rw [sweep, hEntry, survivors]
          simp only
          split_ifs
          · rw [List.eraseIdx_append_of_length_le (Nat.le_refl _), Nat.sub_self,
              List.eraseIdx_cons_zero]
            exact ih kept _ hLeft
          · simpa using ih (kept ++ [entry]) (fun n => clock (n + 1)) hLeft

/-- The entries after a sweep are its survivors, each compared with the clock once. -/
theorem updateArpCache_entries (table : InterfaceTable) (cache : MipArpCache) (clock : Clock) :
    (updateArpCache table cache clock).1.entries =
      survivors (cache.updateFreq * 2) clock cache.entries := by
  have hSweep := sweep_eq (cache.updateFreq * 2) [] clock (Nat.le_refl cache.entries.length)
  rw [updateArpCache]
  split_ifs
  · exact hSweep
  · exact hSweep

end MipArpCache

namespace MipArpSlots

open MipArpCache (survivors)

variable {slots : MipArpSlots} {cache : MipArpCache} {entries kept rest : List MipArpCacheEntry}
  {srcSocket now : ℤ} {address : MIPAddress} {interface : MacAddress}

/-- The array holds the entries of the cache and zeros behind them. -/
structure Represents (slots : MipArpSlots) (cache : MipArpCache) : Prop where
  array : slots.array.Holds zeroEntry cache.entries
  updateFreq : slots.updateFreq = cache.updateFreq
  lastArp : slots.lastArp = cache.lastArp

theorem Represents.createCache (updateFreq : ℤ) :
    Represents (createCache updateFreq) (MipArpCache.createCache updateFreq) :=
  ⟨SlotArray.Holds.empty _ _, rfl, rfl⟩

/-- The loop over the used slots finds the first entry with the address. -/
theorem queryMipAddressPos_eq (h : slots.array.Holds zeroEntry entries) (address : MIPAddress) :
    slots.queryMipAddressPos address =
      match entries.findIdx? fun entry => entry.mipAddress = address with
      | some i => (i : ℤ)
      | none => -1 := by
  rw [queryMipAddressPos, h.used]

/-- The socket of the first entry with the address, and -1 without one. -/
theorem queryMipAddressSrcSocket_eq (h : slots.array.Holds zeroEntry entries) :
    slots.queryMipAddressSrcSocket address =
      match entries.find? fun entry => entry.mipAddress = address with
      | some entry => entry.srcSocket
      | none => -1 := by
  rw [queryMipAddressSrcSocket, h.used]

theorem Represents.queryMipAddressSrcSocket (h : Represents slots cache) (address : MIPAddress) :
    slots.queryMipAddressSrcSocket address = cache.queryMipAddressSrcSocket address :=
  queryMipAddressSrcSocket_eq h.array

/-- Appending does the same to the array as to the list, and writes outside the array where
the list has no free slot. -/
theorem Represents.appendToCache (h : Represents slots cache) (srcSocket : ℤ)
    (address : MIPAddress) (interface : MacAddress) (now : ℤ) :
    match cache.appendToCache srcSocket address interface now with
    | .ok cache' => ∃ rc slots', slots.appendToCache srcSocket address interface now =
        some (rc, slots') ∧ 0 ≤ rc ∧ Represents slots' cache'
    | .error .error => slots.appendToCache srcSocket address interface now = some (-1, slots)
    | .error .fault => slots.appendToCache srcSocket address interface now = none := by
  by_cases hAddress : address = 255
  · simp only [MipArpCache.appendToCache, dif_pos hAddress, MipArpSlots.appendToCache,
      if_pos hAddress]
  have hPos := queryMipAddressPos_eq h.array address
  simp only [MipArpCache.appendToCache, dif_neg hAddress, MipArpCache.queryMipAddressPos,
    MipArpSlots.appendToCache, if_neg hAddress]
  cases hFound : cache.entries.findIdx? fun entry => entry.mipAddress = address with
  | some pos =>
      simp only [hFound] at hPos
      have hKnown : (pos : ℤ) ≠ -1 := fun hEq => absurd (hEq ▸ Int.natCast_nonneg pos) (by decide)
      obtain ⟨hLt, -⟩ := List.findIdx?_eq_some_iff_getElem.mp hFound
      have hSplit := h.array
      rw [← List.take_append_drop pos cache.entries, List.drop_eq_getElem_cons hLt] at hSplit
      obtain ⟨array, hWrite, hHolds⟩ := hSplit.set
        ⟨address, srcSocket, interface, now⟩
      rw [List.length_take, Nat.min_eq_left hLt.le] at hWrite
      simp only [hPos, if_pos hKnown, hWrite]
      refine ⟨pos, _, rfl, Int.natCast_nonneg pos, ?_, h.updateFreq, h.lastArp⟩
      simp only [List.set_eq_take_append_cons_drop, if_pos hLt]
      exact hHolds
  | none =>
      simp only [hFound] at hPos
      simp only [hPos, ne_eq, not_true_eq_false, if_false]
      by_cases hFree : cache.entries.length < mipArpCacheCapacity
      · obtain ⟨array, hWrite, hHolds⟩ := h.array.push hFree ⟨address, srcSocket, interface, now⟩
        simp only [dif_pos hFree, hWrite]
        refine ⟨_, _, rfl, ?_, hHolds, h.updateFreq, h.lastArp⟩
        rw [SlotArray.write_size hWrite, h.array.size]
        omega
      · have hOutside := h.array.write_full (Nat.not_lt.mp hFree)
          ⟨address, srcSocket, interface, now⟩
        simp only [dif_neg hFree, hOutside]
        rfl

/-- A write lies outside the array exactly if a valid address has no slot. -/
theorem Represents.appendToCache_isSome_iff (h : Represents slots cache) :
    (slots.appendToCache srcSocket address interface now).isSome ↔
      address = 255 ∨ cache.HasSlotFor address := by
  have hAppend := h.appendToCache srcSocket address interface now
  by_cases hAddress : address = 255
  · subst hAddress
    rw [MipArpCache.appendToCache_broadcast] at hAppend
    simp [hAppend]
  by_cases hSlot : cache.HasSlotFor address
  · obtain ⟨cache', hOk⟩ := (MipArpCache.exists_appendToCache_iff cache srcSocket address interface
      now).mpr ⟨hAddress, hSlot⟩
    rw [hOk] at hAppend
    obtain ⟨rc, slots', hSome, -, -⟩ := hAppend
    simp [hSome, hSlot]
  · rw [MipArpCache.appendToCache_full hAddress hSlot] at hAppend
    simp [hAppend, hAddress, hSlot]

/-- After appending the array is that of a cache again. -/
theorem Represents.of_appendToCache (h : Represents slots cache) {rc : ℤ} {slots' : MipArpSlots}
    (hAppend : slots.appendToCache srcSocket address interface now = some (rc, slots')) :
    ∃ cache', Represents slots' cache' := by
  have hCases := h.appendToCache srcSocket address interface now
  rw [hAppend] at hCases
  cases hList : cache.appendToCache srcSocket address interface now with
  | ok cache' =>
      simp only [hList] at hCases
      obtain ⟨_, slots'', hSome, -, hRepresents⟩ := hCases
      obtain ⟨-, rfl⟩ := Prod.mk.inj (Option.some.inj hSome)
      exact ⟨cache', hRepresents⟩
  | error halt =>
      cases halt with
      | error =>
          simp only [hList] at hCases
          obtain ⟨-, rfl⟩ := Prod.mk.inj (Option.some.inj hCases)
          exact ⟨cache, h⟩
      | fault =>
          simp only [hList] at hCases
          cases hCases

/-- The entry at the position is taken out and the later ones keep their order. -/
theorem exists_removeFromCache {entry : MipArpCacheEntry}
    (h : slots.array.Holds zeroEntry (kept ++ entry :: rest)) :
    ∃ array, slots.removeFromCache kept.length = some ((kept.length : ℤ), { slots with array }) ∧
      array.Holds zeroEntry (kept ++ rest) := by
  obtain ⟨shifted, array, hShift, hSize, hWrite, hHolds⟩ := h.remove
  refine ⟨_, ?_, hHolds⟩
  have hCount : slots.array.size - (kept.length + 1) = rest.length := by
    rw [h.size, List.length_append, List.length_cons]
    omega
  rw [removeFromCache, hCount, Int.toNat_natCast]
  split_ifs with hLast
  · simp only [hShift, Option.bind_some, hWrite]
    rfl
  · -- The last slot in use has no later ones to shift.
    obtain rfl : rest = [] := List.length_eq_zero_iff.mp (by omega)
    obtain rfl := Option.some.inj hShift
    simp only [Option.bind_some, hWrite]
    rfl

/-- The loop ends, and looks at every entry from the given slot on. -/
theorem exists_sweepFrom (maxAge : ℤ) (kept : List MipArpCacheEntry) (clock : Clock)
    (h : slots.array.Holds zeroEntry (kept ++ rest)) :
    ∃ array, sweepFrom maxAge kept.length clock slots = some { slots with array } ∧
      array.Holds zeroEntry (kept ++ survivors maxAge clock rest) := by
  induction rest generalizing slots kept clock with
  | nil =>
      refine ⟨slots.array, ?_, h⟩
      rw [sweepFrom, if_neg]
      rw [h.size, List.append_nil]
      omega
  | cons entry rest ih =>
      have hInside : (kept.length : ℤ) < slots.array.size := by
        rw [h.size, List.length_append, List.length_cons]
        omega
      have hRead : slots.array.read kept.length = some entry := by
        apply SlotArray.read_eq
        rw [h.entries, List.append_assoc, List.cons_append]
      rw [sweepFrom, if_pos hInside, hRead, survivors]
      simp only
      split_ifs with hExpired
      · obtain ⟨array, hRemoved, hHolds⟩ := exists_removeFromCache h
        have hRemains : ({ slots with array } : MipArpSlots).array.Holds zeroEntry (kept ++ rest) :=
          hHolds
        obtain ⟨swept, hSwept, hLeft⟩ := ih kept (fun n => clock (n + 1)) hRemains
        refine ⟨swept, ?_, hLeft⟩
        split
        · rename_i hNone
          cases hRemoved.symm.trans hNone
        · rename_i pos removed hSome
          obtain ⟨-, rfl⟩ := Prod.mk.inj (Option.some.inj (hRemoved.symm.trans hSome))
          rw [Int.sub_add_cancel]
          exact hSwept
      · obtain ⟨swept, hSwept, hLeft⟩ := ih (kept ++ [entry]) (fun n => clock (n + 1))
          (by rwa [List.append_assoc])
        refine ⟨swept, ?_, ?_⟩
        · rw [← hSwept, List.length_append, List.length_singleton, Int.natCast_add, Int.natCast_one]
        · simpa using hLeft

/-- The sweep over the array removes the expired entries one after the other, stays inside the
array and ends. -/
theorem exists_updateArpCache (h : slots.array.Holds zeroEntry entries) (table : InterfaceTable)
    (clock : Clock) (asked sent : ℤ) :
    ∃ swept outputs, slots.updateArpCache table clock asked sent = some (swept, outputs) ∧
      swept.array.Holds zeroEntry (survivors (slots.updateFreq * 2) clock entries) ∧
      swept.updateFreq = slots.updateFreq := by
  obtain ⟨array, hSwept, hLeft⟩ := exists_sweepFrom (slots.updateFreq * 2) [] clock h
  have hLoop : sweepFrom (slots.updateFreq * 2) 0 clock slots = some { slots with array } := hSwept
  rw [updateArpCache, hLoop, Option.map_some]
  split_ifs
  · exact ⟨_, _, rfl, hLeft, rfl⟩
  · exact ⟨_, _, rfl, hLeft, rfl⟩

/-- After a sweep the array is that of a cache again. -/
theorem Represents.of_updateArpCache (h : Represents slots cache) {table : InterfaceTable}
    {clock : Clock} {asked sent : ℤ} {updated : MipArpSlots × List Output}
    (hUpdate : slots.updateArpCache table clock asked sent = some updated) :
    ∃ cache', Represents updated.1 cache' := by
  obtain ⟨swept, outputs, hSwept, hHolds, -⟩ := exists_updateArpCache h.array table clock asked sent
  obtain rfl := Option.some.inj (hSwept.symm.trans hUpdate)
  rw [h.updateFreq, ← MipArpCache.updateArpCache_entries table cache clock] at hHolds
  exact ⟨{ (cache.updateArpCache table clock).1 with
    updateFreq := swept.updateFreq, lastArp := swept.lastArp }, hHolds, rfl, rfl⟩

/-- A sweep of the array leaves the entries that a sweep of the list leaves, and the same
requests are sent. -/
theorem Represents.updateArpCache (h : Represents slots cache) (table : InterfaceTable)
    (clock : Clock) : ∃ slots', slots.updateArpCache table clock (clock cache.entries.length)
        (clock (cache.entries.length + 1)) =
      some (slots', (cache.updateArpCache table clock).2) ∧
      Represents slots' (cache.updateArpCache table clock).1 := by
  obtain ⟨array, hSwept, hLeft⟩ := exists_sweepFrom (slots.updateFreq * 2) [] clock h.array
  have hSurvivors := MipArpCache.updateArpCache_entries table cache clock
  rw [List.nil_append, h.updateFreq, ← hSurvivors] at hLeft
  have hDue : ({ slots with array } : MipArpSlots).shouldCompleteNewArp
      (clock cache.entries.length) = cache.shouldCompleteNewArp (clock cache.entries.length) := by
    simp only [shouldCompleteNewArp, MipArpCache.shouldCompleteNewArp, h.updateFreq, h.lastArp]
  have hLoop : sweepFrom (slots.updateFreq * 2) 0 clock slots = some { slots with array } := hSwept
  simp only [MipArpSlots.updateArpCache, hLoop, Option.map_some, hDue]
  by_cases hCase : cache.shouldCompleteNewArp (clock cache.entries.length) = true
  · rw [if_pos hCase]
    have hList : MipArpCache.updateArpCache table cache clock = MipArpCache.completeMipArp table
        { cache with entries := _, size_le := _, address_ne := _ }
        (clock (cache.entries.length + 1)) := if_pos hCase
    rw [hList] at hLeft ⊢
    exact ⟨_, rfl, hLeft, h.updateFreq, rfl⟩
  · rw [if_neg hCase]
    have hList : MipArpCache.updateArpCache table cache clock =
        ({ cache with entries := _, size_le := _, address_ne := _ }, []) := if_neg hCase
    rw [hList] at hLeft ⊢
    exact ⟨_, rfl, hLeft, h.updateFreq, h.lastArp⟩

end MipArpSlots

end MipStack
