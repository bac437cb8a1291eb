import MipStack.Network.Delivery

/-! A ping over the relays (`ping-client/src/ping_client.c`, `ping-server/src/ping_server.c`).
The reply is smaller than what mipd takes for a message. -/
namespace MipStack
open MIPDServer

namespace PingClient

/-- What the client writes to its mipd. The copy of the text needs room for its last zero. -/
def request (destination : MIPAddress) (text : List UInt8) : Except Halt (List UInt8) :=
  if maxMipMessageDataSize < text.length + 1 then .error .fault
  else
    match MIPDMessage.create destination text.length text with
    | none => .error .error
    | some message =>
      match message.serialize with
      | none => .error .error
      | some bytes => .ok bytes

/-- What `ping_client` writes is one message with the text. -/
theorem exists_of_request {destination : MIPAddress} {text bytes : List UInt8}
    (h : request destination text = .ok bytes) :
    ∃ message : MIPDMessage, message.mipAddress = destination ∧ message.data = text ∧
      message.toBytes = bytes := by
  unfold request at h
  split_ifs at h with hLarge
  have hSize : text.length ≤ maxMipMessageDataSize := by
    unfold maxMipMessageDataSize at *
    omega
  have hCreate : MIPDMessage.create destination text.length text =
      some ⟨destination, text, hSize⟩ := by
    simp only [MIPDMessage.create, dif_pos hSize, List.take_length]
  simp only [hCreate, MIPDMessage.serialize_eq] at h
  exact ⟨⟨destination, text, hSize⟩, rfl, rfl, Except.ok.inj h⟩

end PingClient

namespace PingServer

/-- "PONG" -/
def payload : List UInt8 := [80, 79, 78, 71]

/-- What one turn of the loop writes after a read into the buffer. -/
def turn (buffer : Vector UInt8 maxMipMessageSize) (chunk : List UInt8) :
    Except Halt (List UInt8) :=
  let read := chunk.take maxMipMessageSize
  match MIPDMessage.deserialize (read ++ buffer.toList.drop read.length) with
  | none => .error .fault
  | some message =>
    match MIPDMessage.create message.mipAddress payload.length payload with
    | none => .error .fault
    | some response =>
      match response.serialize with
      | none => .error .error
      | some bytes => .ok bytes

/-- What is written for the chunks that are read. Only the first buffer is not zeroed. -/
def run (buffer : Vector UInt8 maxMipMessageSize) : List (List UInt8) → Except Halt (List UInt8)
  | [] => .ok []
  | chunk :: rest => do
    let reply ← turn buffer chunk
    let replies ← run (Vector.replicate maxMipMessageSize 0) rest
    .ok (reply ++ replies)

def reply (message : MIPDMessage) : MIPDMessage := ⟨message.mipAddress, payload, by decide⟩

/-- `ping_server` answers a message with a fixed text to the address that it came from. -/
theorem turn_toBytes (buffer : Vector UInt8 maxMipMessageSize) (message : MIPDMessage) :
    turn buffer message.toBytes = .ok (reply message).toBytes := by
  have hSize := message.size_le
  have hFits : message.toBytes.length ≤ maxMipMessageSize := by
    rw [MIPDMessage.toBytes_length]
    unfold maxMipMessageDataSize maxMipMessageSize at *
    omega
  have hRead : MIPDMessage.deserialize
      (message.toBytes ++ buffer.toList.drop message.toBytes.length) = some message := by
    refine (MIPDMessage.deserialize_eq_some_iff ?_).mpr (List.prefix_append _ _)
    rw [List.length_append, List.length_drop, Vector.length_toList]
    unfold maxMipMessageDataSize maxMipMessageSize at *
    omega
  have hReply : MIPDMessage.create message.mipAddress payload.length payload =
      some (reply message) := rfl
  simp only [turn, List.take_of_length_le hFits, hRead, hReply, MIPDMessage.serialize_eq]

/-- Every message that is read on its own is replied to. -/
theorem run_toBytes (buffer : Vector UInt8 maxMipMessageSize) (messages : List MIPDMessage) :
    run buffer (messages.map MIPDMessage.toBytes) = .ok (stream (messages.map reply)) := by
  induction messages generalizing buffer with
  | nil => rfl
  | cons message rest ih =>
      simp only [List.map_cons, run, turn_toBytes, ih, bind, Except.bind]
      rfl

theorem length_stream_reply (messages : List MIPDMessage) :
    (stream (messages.map reply)).length = 7 * messages.length := by
  induction messages with
  | nil => rfl
  | cons message rest ih =>
      have hReply : (reply message).toBytes.length = 7 := MIPDMessage.toBytes_length _
      rw [List.map_cons, stream, List.map_cons, List.flatten_cons, List.length_append, hReply,
        ← stream, ih, List.length_cons]
      omega

end PingServer

open PingServer

variable {message : MIPDMessage} {server : MIPDServer} {fd accepted : ℤ} {env : Env}

/-- Of the replies that mipd reads at once only the first is sent, and only if there are at
least three. -/
theorem MIPDServer.branch_replies (hSource : server.source fd = .appConnection)
    {others : List MIPDMessage} (hFew : others.length < 213) :
    server.branch ⟨fd, stream ((message :: others).map reply), accepted⟩ env =
      if others.length < 2 then server.finish 0 []
      else server.handleApplicationMessage (reply message) env := by
  have hLength := length_stream_reply (message :: others)
  rw [List.length_cons] at hLength
  have hSome : stream ((message :: others).map reply) ≠ [] := List.cons_ne_nil _ _
  split_ifs with hTwo
  · refine branch_of_small hSource hSome ?_
    unfold sizeofMIPDMessage
    omega
  · have hSize : (stream ((message :: others).map reply)).length ≤ maxMipMessageDataSize := by
      unfold maxMipMessageDataSize
      omega
    have hParsed : IsParsed (stream ((message :: others).map reply)) := by
      unfold IsParsed sizeofMIPDMessage
      omega
    have hBegins : Begins (stream ((message :: others).map reply)) (reply message) :=
      (List.prefix_append _ _).trans (List.prefix_append _ _)
    simp only [branch, hSource]
    rw [server.appBranch_eq_handleTaken fd accepted env hSome hSize,
      (readMessage_eq_some_iff hParsed hSize).mpr hBegins]
    rfl

/-- No ping is answered. A text of less than 13 bytes or of more than 1488 does not leave the
host; any other gets to the other host if it needs no more than 15 relays, and its reply is
dropped by the mipd there, unless that reads two later ones together with it. -/
theorem pings_are_not_answered (destination : MIPAddress) (text bytes : List UInt8)
    (hRequest : PingClient.request destination text = .ok bytes) (hFits : text.length ≤ 1493)
    (way : Way bytes destination) :
    (way.last.isSome ↔ 13 ≤ text.length ∧ text.length ≤ 1488 ∧ way.relays.length ≤ 15) ∧
      ∀ package ∈ way.last, ∃ received : MIPDMessage,
        way.arrival.outputs package = [.sendApp received.toBytes] ∧
        (∃ record ∈ way.source.daemon.server.iTable.interfaces,
          received.mipAddress = record.mipAddress) ∧
        ∀ (buffer : Vector UInt8 maxMipMessageSize) (others : List MIPDMessage),
          others.length < 213 → ∃ replies,
            PingServer.run buffer ((received :: others).map MIPDMessage.toBytes) = .ok replies ∧
            ∀ (server : MIPDServer) (fd accepted : ℤ) (env : Env),
              server.source fd = .appConnection →
                server.branch ⟨fd, replies, accepted⟩ env =
                  if others.length < 2 then server.finish 0 []
                  else server.handleApplicationMessage (PingServer.reply received) env := by
  obtain ⟨message, rfl, rfl, rfl⟩ := PingClient.exists_of_request hRequest
  obtain ⟨hReach, hLast⟩ := way.delivers hFits
  refine ⟨hReach, fun package hPackage => ?_⟩
  obtain ⟨received, hOutputs, hSrc, -⟩ := hLast package hPackage
  refine ⟨received, hOutputs, hSrc, fun buffer others hFew => ?_⟩
  refine ⟨_, run_toBytes buffer (received :: others), fun server fd accepted env hApp => ?_⟩
  exact branch_replies hApp hFew

/-- 10 pings its neighbour 30, which drops the reply: it is shorter than the structure of a
message. -/
theorem neighbor_is_not_answered :
    let mac := ethBroadcastAddr
    let cache := fun (neighbor : MIPAddress) (h : neighbor ≠ 255) =>
      (⟨[⟨neighbor, 6, mac, 0⟩], 10000, 0, Nat.le_add_left 1 63, by simpa using h⟩ :
        MipArpCache)
    let source : Stop := ⟨.idle ⟨[⟨mac, mac, 10, 6⟩]⟩ (cache 30 (by decide)), 8, quietEnv, [], 9, 0⟩
    let arrival : Arrival := ⟨(Daemon.idle ⟨[⟨mac, mac, 30, 6⟩]⟩ (cache 10 (by decide))).server, 6,
      Vector.replicate 8 0, quietEnv⟩
    ∃ bytes, PingClient.request 30 (List.replicate 13 65) = .ok bytes ∧
      ∃ frame ∈ source.sent bytes, ∃ received : MIPDMessage,
        arrival.outputs frame.2 = [.sendApp received.toBytes] ∧
        ∃ replies, PingServer.run (Vector.replicate _ 0) [received.toBytes] = .ok replies ∧
          arrival.server.branch ⟨8, replies, -1⟩ quietEnv = arrival.server.finish 0 [] := by
  intro mac cache source arrival
  let message : MIPDMessage := ⟨30, List.replicate 13 65, by decide⟩
  have hRequest : PingClient.request 30 (List.replicate 13 65) = .ok message.toBytes := by
    decide +kernel
  have hReady : source.Ready message.toBytes :=
    ⟨⟨⟨rfl, by decide⟩, ⟨by decide, rfl⟩, by decide +kernel, by decide +kernel⟩, by decide,
      by decide +kernel⟩
  let way : Way message.toBytes 30 := ⟨source, [], arrival, by decide, by decide, hReady,
    fun _ _ => trivial, ⟨by decide, by decide, by decide⟩⟩
  obtain ⟨hReach, hLast⟩ :=
    pings_are_not_answered 30 message.data message.toBytes hRequest (by decide) way
  obtain ⟨package, hPackage⟩ :=
    Option.isSome_iff_exists.mp (hReach.mpr ⟨le_refl 13, by decide, Nat.zero_le 15⟩)
  obtain ⟨frame, hFrame, hSame⟩ := Option.bind_eq_some_iff.mp hPackage
  obtain rfl : frame.2 = package := Option.some.inj hSame
  obtain ⟨received, hOutputs, -, hReplies⟩ := hLast frame.2 hPackage
  obtain ⟨replies, hRun, hBranch⟩ := hReplies (Vector.replicate _ 0) [] (by decide)
  exact ⟨_, hRequest, frame, hFrame, received, hOutputs, replies, hRun,
    hBranch arrival.server 8 (-1) quietEnv (by decide)⟩

end MipStack
