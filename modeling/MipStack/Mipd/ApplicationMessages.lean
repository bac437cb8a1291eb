import MipStack.Mipd.ApplicationStream
import MipStack.Mipd.Handlers

/-! Which chunks mipd takes for messages. The smallest chunk it parses has the size
of the structure in memory, and the declared size is not compared with what was
received. -/
namespace MipStack

/-- A chunk as `recv` returns it: not empty, and at most as large as asked for. -/
structure ReceivedChunk where
  bytes : List UInt8
  ne_nil : bytes ≠ []
  size_le : bytes.length ≤ maxMipMessageDataSize

/-- The chunk is the header and the data of a message, and nothing else. -/
def IsMessage (chunk : List UInt8) : Prop := ∃ message : MIPDMessage, message.toBytes = chunk

/-- A message is handled as it was written; any other chunk is dropped and changes
nothing. -/
def TakesExactly (chunk : List UInt8) : Prop :=
  ∀ (server : MIPDServer) (fd accepted : ℤ) (env : Env),
    (∀ message : MIPDMessage, message.toBytes = chunk →
      server.appBranch ⟨fd, chunk, accepted⟩ env = server.handleApplicationMessage message env) ∧
    (¬ IsMessage chunk → server.appBranch ⟨fd, chunk, accepted⟩ env = server.finish 0 [])

variable {chunk : List UInt8} {message : MIPDMessage} {server : MIPDServer} {env : Env}

/-- The declared size of a message is the number of bytes behind its header. -/
theorem isMessage_iff (hSize : chunk.length ≤ maxMipMessageDataSize) :
    IsMessage chunk ↔
      3 ≤ chunk.length ∧ MIPDMessage.serializedGetDataSize chunk = chunk.length - 3 := by
  constructor
  · rintro ⟨message, rfl⟩
    have hWritten : message.data.length < 256 ^ 2 := by
      have hLe := message.size_le
      unfold maxMipMessageDataSize at hLe
      omega
    have hField : MIPDMessage.serializedGetDataSize message.toBytes = message.data.length :=
      ByteLayout.value_encode hWritten
    rw [hField, MIPDMessage.toBytes_length]
    omega
  · rintro ⟨hHeader, hDeclared⟩
    match chunk, hHeader with
    | address :: low :: high :: data, _ =>
      have hData : data.length ≤ maxMipMessageDataSize := by
        simp only [List.length_cons] at hSize
        omega
      have hBytes : ByteLayout.encode 2 data.length = [low, high] := by
        rw [← ByteLayout.encode_value [low, high]]
        exact congrArg (ByteLayout.encode 2) hDeclared.symm
      refine ⟨⟨address, data, hData⟩, ?_⟩
      rw [MIPDMessage.toBytes, hBytes]
      rfl

/-- A message begins the buffer that its bytes are read into. -/
theorem begins_toBytes (message : MIPDMessage) : Begins message.toBytes message :=
  List.prefix_append _ _

/-- A message to an address that is not cached is asked for. -/
theorem MIPDServer.handleApplicationMessage_outputs_ne
    (hCan : server.CanRequest env)
    (hCache : server.cache.queryMipAddressSrcSocket message.mipAddress = -1) :
    (server.handleApplicationMessage message env).outputs ≠ [] := by
  have hDirect : server.handleDomainSocketRequest message = server.finish 0 [] := if_pos hCache
  rw [handleApplicationMessage, hDirect, createQueueable_eq]
  simp only [finish, requestForwarding_eq hCan]
  exact List.cons_ne_nil _ _

/-- What is taken from a chunk shows in what the server does, unless it is nothing. -/
theorem exists_handleTaken_ne {taken : Except Halt (Option MIPDMessage)}
    (hTaken : taken ≠ .ok none) :
    ∃ (server : MIPDServer) (env : Env), server.handleTaken taken env ≠ server.finish 0 [] := by
  let env : Env := ⟨fun _ => 0, fun _ => Vector.replicate 8 0, fun _ => 0, true⟩
  let server := MIPDServer.create ⟨3, -1⟩ ⟨4, -1⟩ ⟨5, 9⟩ ⟨[]⟩ 10000
  refine ⟨server, env, fun h => ?_⟩
  match taken with
  | .error halt => exact nomatch congrArg Outcome.result h
  | .ok none => exact hTaken rfl
  | .ok (some message) =>
    have hCan : server.CanRequest env := ⟨by decide, rfl⟩
    exact MIPDServer.handleApplicationMessage_outputs_ne hCan rfl (congrArg Outcome.outputs h)

/-- If a chunk is taken exactly, mipd parses it just when it is a message: what it parses changes
the server at least in some state, and what it does not parse is dropped. -/
theorem TakesExactly.isMessage_iff (h : TakesExactly chunk) (hSome : chunk ≠ [])
    (hSize : chunk.length ≤ maxMipMessageDataSize) : IsMessage chunk ↔ IsParsed chunk := by
  constructor
  · rintro ⟨message, hBytes⟩
    by_contra hSmall
    have hTaken : (.ok (some message) : Except Halt (Option MIPDMessage)) ≠ .ok none := nofun
    obtain ⟨server, env, hNe⟩ := exists_handleTaken_ne hTaken
    have hHandled := (h server 7 8 env).1 message hBytes
    rw [server.appBranch_eq_handleTaken 7 8 env hSome hSize,
      readMessage_of_small hSmall] at hHandled
    exact hNe hHandled.symm
  · intro hParsed
    by_contra hOther
    obtain ⟨server, env, hNe⟩ := exists_handleTaken_ne (readMessage_ne_none hParsed)
    have hDropped := (h server 7 8 env).2 hOther
    rw [server.appBranch_eq_handleTaken 7 8 env hSome hSize] at hDropped
    exact hNe hDropped

/-- The other direction: a parsed message is handled as it was written, and a smaller chunk is
dropped. -/
theorem takesExactly_of_iff (hSome : chunk ≠ []) (hSize : chunk.length ≤ maxMipMessageDataSize)
    (h : IsMessage chunk ↔ IsParsed chunk) : TakesExactly chunk := by
  intro server fd accepted env
  rw [server.appBranch_eq_handleTaken fd accepted env hSome hSize]
  constructor
  · rintro message rfl
    have hParsed : IsParsed message.toBytes := h.mp ⟨message, rfl⟩
    rw [(readMessage_eq_some_iff hParsed hSize).mpr (begins_toBytes message)]
    rfl
  · intro hOther
    rw [readMessage_of_small fun hParsed => hOther (h.mpr hParsed)]
    rfl

/-- mipd reads 1496 bytes at a time, so a message with more than 1493 bytes of data does not
arrive in one read. -/
theorem toBytes_fits_iff (message : MIPDMessage) :
    message.toBytes.length ≤ maxMipMessageDataSize ↔ message.data.length ≤ 1493 := by
  rw [MIPDMessage.toBytes_length]
  unfold maxMipMessageDataSize
  omega

/-- The branch takes a chunk for what it is exactly if the size of the structure
tells messages from other chunks, and three of the sizes that can be sent do not
fit into one read. -/
theorem takes_exactly_iff (chunk : ReceivedChunk) (message : MIPDMessage) :
    (TakesExactly chunk.bytes ↔ (IsMessage chunk.bytes ↔ IsParsed chunk.bytes)) ∧
      (message.toBytes.length ≤ maxMipMessageDataSize ↔ message.data.length ≤ 1493) :=
  ⟨⟨fun h => h.isMessage_iff chunk.ne_nil chunk.size_le,
    takesExactly_of_iff chunk.ne_nil chunk.size_le⟩, toBytes_fits_iff message⟩

/-- A message of one byte is dropped, and sixteen bytes that declare 65535 are
parsed to no message, which is used all the same. -/
theorem short_message_is_dropped :
    let message : MIPDMessage := ⟨10, [7], by decide⟩
    let lie : List UInt8 := 10 :: 255 :: 255 :: List.replicate 13 0
    ¬ TakesExactly message.toBytes ∧ ¬ IsMessage lie ∧ readMessage lie = .error .fault ∧
      ¬ TakesExactly lie := by
  intro message lie
  have hLie : ¬ IsMessage lie := by
    rw [isMessage_iff (by decide)]
    decide
  refine ⟨fun h => ?_, hLie, by decide, fun h => ?_⟩
  · have hParsed := (h.isMessage_iff (List.cons_ne_nil _ _) (by decide)).mp ⟨message, rfl⟩
    exact absurd hParsed (by decide)
  · exact hLie ((h.isMessage_iff (List.cons_ne_nil _ _) (by decide)).mpr (by decide))

end MipStack
