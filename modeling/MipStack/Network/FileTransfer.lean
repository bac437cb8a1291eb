import MipStack.Miptpd.Turns
import MipStack.Network.Delivery

/-! A package of miptpd on its way to another miptpd. The bytes that one mipd writes are not
the structure that miptpd takes its buffer for. -/
namespace MipStack

/-- When it reads these bytes from mipd, with or without more behind them, miptpd takes what
stands at an address of its own for a package. -/
def Dereferences (bytes : List UInt8) (address size : ℕ) : Prop :=
  ∀ (server : MIPTPServer) (event : MIPTPEvent) (more : List UInt8), event.fd = server.mipdFd →
    event.read = some (bytes ++ more) → (bytes ++ more).length ≤ packetBufferSize →
      server.branch event = match event.memory address size with
        | none => server.ofController (server.appController.halt .fault)
        | some data =>
          server.ofController (server.appController.handleMipdPackage (bytes.getD 0 0) data)

/-- The bytes are the message for a package that the connection sends. -/
structure Carries (connection : AppConnection) (package : MIPTPPackage) (bytes : List UInt8) :
    Prop where
  sends : ∃ packages, connection.nextPackages = .ok packages ∧ package ∈ packages
  message : ∃ message, MIPTPAppController.packageMessage connection package = .ok message ∧
    message.toBytes = bytes

variable {connection : AppConnection} {package : MIPTPPackage} {message received : MIPDMessage}
  {bytes : List UInt8}

namespace MIPTPAppController

theorem exists_of_mem_sendPackages {socket : ℤ} {written : ℕ → Bool}
    {packages : List MIPTPPackage} {sent : ℕ}
    (h : .sendMipd socket bytes ∈ (sendPackages socket written connection sent packages).2) :
    ∃ package ∈ packages, ∃ message, packageMessage connection package = .ok message ∧
      message.toBytes = bytes := by
  induction packages generalizing sent with
  | nil => exact absurd h List.not_mem_nil
  | cons package rest ih =>
      rw [sendPackages] at h
      cases hMessage : packageMessage connection package with
      | error halt =>
          rw [hMessage] at h
          exact absurd h List.not_mem_nil
      | ok message =>
          simp only [hMessage] at h
          split_ifs at h
          · rcases List.mem_cons.mp h with hFirst | hRest
            · injection hFirst with hSocket hBytes
              exact ⟨package, List.mem_cons_self, message, hMessage, hBytes.symm⟩
            · obtain ⟨other, hMem, hOther⟩ := ih hRest
              exact ⟨other, List.mem_cons_of_mem package hMem, hOther⟩
          · exact absurd h List.not_mem_nil

/-- Every message that is written in an outgoing cycle carries a package of the window of some
connection. -/
theorem exists_of_mem_sendWindows {socket : ℤ} {written : ℕ → Bool}
    {connections : List AppConnection} {sent : ℕ}
    (h : .sendMipd socket bytes ∈ (sendWindows socket written sent connections).2) :
    ∃ connection ∈ connections, ∃ package, Carries connection package bytes := by
  induction connections generalizing sent with
  | nil => exact absurd h List.not_mem_nil
  | cons connection rest ih =>
      rw [sendWindows] at h
      cases hPackages : connection.nextPackages with
      | error halt =>
          rw [hPackages] at h
          exact absurd h List.not_mem_nil
      | ok packages =>
          simp only [hPackages] at h
          have hFirst (hMem : .sendMipd socket bytes ∈
              (sendPackages socket written connection sent packages).2) :
              ∃ first ∈ connection :: rest, ∃ package, Carries first package bytes := by
            obtain ⟨package, hPackage, hMessage⟩ := exists_of_mem_sendPackages hMem
            exact ⟨connection, List.mem_cons_self, package, ⟨packages, hPackages, hPackage⟩,
              hMessage⟩
          have hLater (hMem : .sendMipd socket bytes ∈
              (sendWindows socket written (sent + packages.length) rest).2) :
              ∃ later ∈ connection :: rest, ∃ package, Carries later package bytes := by
            obtain ⟨later, hLater, hCarries⟩ := ih hMem
            exact ⟨later, List.mem_cons_of_mem connection hLater, hCarries⟩
          cases hSend : sendPackages socket written connection sent packages with
          | mk result outputs =>
              rw [hSend] at hFirst
              cases result with
              | error halt =>
                  simp only [hSend] at h
                  exact hFirst h
              | ok rc =>
                  simp only [hSend] at h
                  exact (List.mem_append.mp h).elim hFirst hLater

end MIPTPAppController

open MIPTPAppController

/-- The first bytes of the package arrive behind the header of the message. -/
theorem Delivered.toBytes_eq (h : Delivered message received)
    (hMessage : packageMessage connection package = .ok message)
    (hLong : 9 ≤ package.data.length) :
    received.toBytes = received.mipAddress :: ByteLayout.encode 2 received.data.length ++
      (package.miptpHeader.toBytes ++
        (ByteLayout.encode 2 package.data.length ++ package.data.take 7)) ++
          received.data.drop 13 := by
  obtain ⟨-, -, hTaken, hLength⟩ := packageMessage_eq_ok hMessage
  have hRoom : 13 ≤ payloadRoom := by decide
  have hHeader := package.miptpHeader.toBytes_length
  have hFront : received.data.take 13 = package.miptpHeader.toBytes ++
      (ByteLayout.encode 2 package.data.length ++ package.data.take 7) := by
    calc
      received.data.take 13 = (received.data.take payloadRoom).take 13 := by
        rw [List.take_take, Nat.min_eq_left hRoom]
      _ = (padMessage message.data).take 13 := by
        rw [h.start, List.take_take, Nat.min_eq_left hRoom]
      _ = message.data.take 13 := by
        rw [padMessage, List.take_append_of_le_length (by omega)]
      _ = package.toBytes.take 13 := by
        rw [hTaken, List.take_take, Nat.min_eq_left (by omega)]
      _ = _ := by
        rw [MIPTPPackage.toBytes, List.take_append, List.take_append, hHeader,
          List.take_of_length_le (by rw [hHeader]; decide),
          List.take_of_length_le (by rw [ByteLayout.encode_length]; decide),
          ByteLayout.encode_length]
        rfl
  rw [← hFront, List.append_assoc, List.take_append_drop, MIPDMessage.toBytes]

/-- The size is read from the header of the package, and the pointer from its data. -/
theorem Delivered.dereferences (h : Delivered message received)
    (hMessage : packageMessage connection package = .ok message)
    (hLong : 9 ≤ package.data.length) :
    Dereferences received.toBytes
      (package.data.length / 256 + 256 * ByteLayout.value (package.data.take 7))
      (received.data.length / 256 +
        256 * ((package.miptpHeader.pl.toNat + 4 * package.miptpHeader.port.toNat) % 256)) := by
  have hBytes := h.toBytes_eq hMessage hLong
  obtain ⟨hData, -⟩ := packageMessage_eq_ok hMessage
  have hReceived := received.size_le
  unfold maxMipMessageDataSize at hReceived
  have hSeven : (package.data.take 7).length = 7 := List.length_take_of_le (by omega)
  -- The third and fourth byte are the size, the ninth to the sixteenth the pointer.
  have hFields (rest : List UInt8) :
      ((received.toBytes ++ rest).drop 2).take 2 =
          [UInt8.ofNat (received.data.length / 256),
            UInt8.ofNat (package.miptpHeader.pl.toNat + 4 * package.miptpHeader.port.toNat)] ∧
        ((received.toBytes ++ rest).drop 8).take 8 =
          UInt8.ofNat (package.data.length / 256) :: package.data.take 7 ∧
        (received.toBytes ++ rest).getD 0 0 = received.toBytes.getD 0 0 := by
    rw [hBytes]
    refine ⟨rfl, ?_, rfl⟩
    rw [List.append_assoc, List.append_assoc, List.append_assoc]
    exact congrArg (List.cons _) (List.take_left' hSeven)
  have hSizeValue : ByteLayout.value [UInt8.ofNat (received.data.length / 256),
      UInt8.ofNat (package.miptpHeader.pl.toNat + 4 * package.miptpHeader.port.toNat)] =
        received.data.length / 256 +
          256 * ((package.miptpHeader.pl.toNat + 4 * package.miptpHeader.port.toNat) % 256) := by
    rw [ByteLayout.value_cons, ByteLayout.value_cons, UInt8.toNat_ofNat', UInt8.toNat_ofNat',
      Nat.mod_eq_of_lt (show received.data.length / 256 < 2 ^ 8 by omega)]
    rfl
  have hPointerValue : ByteLayout.value
      (UInt8.ofNat (package.data.length / 256) :: package.data.take 7) =
        package.data.length / 256 + 256 * ByteLayout.value (package.data.take 7) := by
    rw [ByteLayout.value_cons, UInt8.toNat_ofNat',
      Nat.mod_eq_of_lt (show package.data.length / 256 < 2 ^ 8 by omega)]
  intro server event more hFd hRead hSize
  have hBranch : server.branch event = server.mipdBranch event (received.toBytes ++ more) := by
    rw [MIPTPServer.branch, if_pos hFd, hRead, hBytes]
    rfl
  obtain ⟨hSizeField, hPointer, hAddress⟩ := hFields
    (more ++ List.replicate (packetBufferSize - (received.toBytes ++ more).length) 0)
  rw [hBranch, MIPTPServer.mipdBranch, MIPTPServer.readBuffer_eq hSize, List.append_assoc]
  cases hMemory : event.memory
      (package.data.length / 256 + 256 * ByteLayout.value (package.data.take 7))
      (received.data.length / 256 +
        256 * ((package.miptpHeader.pl.toNat + 4 * package.miptpHeader.port.toNat) % 256)) with
  | none => simp only [hSizeField, hPointer, hSizeValue, hPointerValue, hMemory]
  | some data => simp only [hSizeField, hPointer, hAddress, hSizeValue, hPointerValue, hMemory]

/-- Whatever the connections of miptpd, a package whose message mipd can read in one go does
not leave the host if it has less than 9 bytes of data, as acknowledgements do, or more than
1484, as all but the last of a longer file do. Any other gets over up to 15 relays, and the
first seven bytes of its data become a part of the address at which the other miptpd looks for
a package. -/
theorem file_bytes_become_an_address (controller : MIPTPAppController) (written : ℕ → Bool)
    (bytes : List UInt8) (hWritten : .sendMipd controller.mipdSocket bytes ∈
      (controller.handleOutgoing written).outputs) :
    ∃ connection ∈ controller.connections, ∃ package : MIPTPPackage,
      Carries connection package bytes ∧ package.data.length ≤ 1490 ∧
      (package.data.length ≠ 1490 → ∀ way : Way bytes connection.connectedMip,
        (way.last.isSome ↔ 9 ≤ package.data.length ∧ package.data.length ≤ 1484 ∧
          way.relays.length ≤ 15) ∧
        ∀ frame ∈ way.last, ∃ received : MIPDMessage,
          way.arrival.outputs frame = [.sendApp received.toBytes] ∧
          Dereferences received.toBytes
            (package.data.length / 256 + 256 * ByteLayout.value (package.data.take 7))
            (received.data.length / 256 + 256 *
              ((package.miptpHeader.pl.toNat + 4 * package.miptpHeader.port.toNat) % 256))) := by
  obtain ⟨connection, hMem, package, hCarries⟩ := exists_of_mem_sendWindows hWritten
  obtain ⟨message, hMessage, hBytes⟩ := hCarries.message
  obtain ⟨hData, hDestination, -, hLength⟩ := packageMessage_eq_ok hMessage
  refine ⟨connection, hMem, package, hCarries, hData, fun hFits => ?_⟩
  subst hBytes
  rw [← hDestination]
  intro way
  obtain ⟨hReach, hLast⟩ := way.delivers (by omega)
  have hLong : 13 ≤ message.data.length ↔ 9 ≤ package.data.length := by omega
  have hShort : message.data.length ≤ 1488 ↔ package.data.length ≤ 1484 := by omega
  rw [hLong, hShort] at hReach
  refine ⟨hReach, fun frame hFrame => ?_⟩
  obtain ⟨received, hOutputs, -, hDelivered⟩ := hLast frame hFrame
  obtain ⟨hNine, -⟩ := hReach.mp (Option.isSome_of_mem hFrame)
  exact ⟨received, hOutputs, hDelivered.dereferences hMessage hNine⟩

/-- 10 sends its neighbour 30 a file of nine bytes that begins with 1. The miptpd there looks for
a package at a low address. -/
theorem small_file_becomes_an_address :
    let mac := ethBroadcastAddr
    let cache := fun (neighbor : MIPAddress) (h : neighbor ≠ 255) =>
      (⟨[⟨neighbor, 6, mac, 0⟩], 10000, 0, Nat.le_add_left 1 63, by simpa using h⟩ :
        MipArpCache)
    let source : Stop := ⟨.idle ⟨[⟨mac, mac, 10, 6⟩]⟩ (cache 30 (by decide)), 8, quietEnv, [], 9, 0⟩
    let arrival : Arrival := ⟨(Daemon.idle ⟨[⟨mac, mac, 30, 6⟩]⟩ (cache 10 (by decide))).server, 6,
      Vector.replicate 8 0, quietEnv⟩
    let file : ClientPackage := ⟨80, 30, .sender, 1 :: List.replicate 8 0, by decide⟩
    let controller : MIPTPAppController := (MIPTPAppController.create 3 10).withConnections
      [AppConnection.forSender 5 file 0 0]
    ∃ bytes, .sendMipd 3 bytes ∈ (controller.handleOutgoing fun _ => true).outputs ∧
      ∃ frame ∈ source.sent bytes, ∃ received : MIPDMessage,
        arrival.outputs frame.2 = [.sendApp received.toBytes] ∧
        ∃ size, Dereferences received.toBytes 256 size := by
  intro mac cache source arrival file controller
  let package : MIPTPPackage := ⟨⟨3, 80, 0⟩, file.data⟩
  let message : MIPDMessage := ⟨30, package.toBytes.take 13, by decide⟩
  have hPackages : (AppConnection.forSender 5 file 0 0).nextPackages = .ok [package] := by
    decide +kernel
  have hWritten : .sendMipd 3 message.toBytes ∈
      (controller.handleOutgoing fun _ => true).outputs := by
    decide +kernel
  obtain ⟨connection, hMem, sent, ⟨⟨packages, hSends, hSent⟩, -⟩, -, hWay⟩ :=
    file_bytes_become_an_address controller (fun _ => true) message.toBytes hWritten
  obtain rfl := List.mem_singleton.mp hMem
  obtain rfl := Except.ok.inj (hPackages.symm.trans hSends)
  obtain rfl := List.mem_singleton.mp hSent
  have hReady : source.Ready message.toBytes :=
    ⟨⟨⟨rfl, by decide⟩, ⟨by decide, rfl⟩, by decide +kernel, by decide +kernel⟩, by decide,
      by decide +kernel⟩
  let way : Way message.toBytes 30 := ⟨source, [], arrival, by decide, by decide, hReady,
    fun _ _ => trivial, ⟨by decide, by decide, by decide⟩⟩
  obtain ⟨hReach, hLast⟩ := hWay (by decide) way
  obtain ⟨frame, hFrame⟩ := Option.isSome_iff_exists.mp
    (hReach.mpr ⟨le_refl 9, by decide, Nat.zero_le 15⟩)
  obtain ⟨first, hFirst, hSame⟩ := Option.bind_eq_some_iff.mp hFrame
  obtain rfl : first.2 = frame := Option.some.inj hSame
  obtain ⟨received, hOutputs, hAddress⟩ := hLast first.2 hFrame
  have hValue : package.data.length / 256 + 256 * ByteLayout.value (package.data.take 7) = 256 := by
    decide +kernel
  rw [hValue] at hAddress
  exact ⟨_, hWritten, first, hFirst, received, hOutputs, _, hAddress⟩

end MipStack
