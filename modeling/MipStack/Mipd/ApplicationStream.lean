import MipStack.Mipd.MIPDServer
import Mathlib.Data.List.Forall2

/-! The byte stream between an application and mipd. Messages are written back to
back, and each `recv` is taken for one message. -/
namespace MipStack

/-- The bytes of the messages as they are written to the socket. -/
def stream (messages : List MIPDMessage) : List UInt8 :=
  (messages.map MIPDMessage.toBytes).flatten

/-- What each `recv` returns, in this order: parts of the stream that are at most as
large as asked for. -/
structure Segmentation (messages : List MIPDMessage) where
  chunks : List (List UInt8)
  flatten_eq : chunks.flatten = stream messages
  ne_nil : ∀ chunk ∈ chunks, chunk ≠ []
  size_le : ∀ chunk ∈ chunks, chunk.length ≤ maxMipMessageDataSize

/-- The read buffer around a chunk. -/
def readBuffer (chunk : List UInt8) : List UInt8 :=
  chunk ++ List.replicate (maxMipMessageSize - chunk.length) 0

/-- The message that the branch for applications takes from a chunk; none from one
that is too small. -/
def readMessage (chunk : List UInt8) : Except Halt (Option MIPDMessage) :=
  if chunk.length < sizeofMIPDMessage then .ok none
  else
    match MIPDMessage.deserialize (readBuffer chunk) with
    | none => .error .fault
    | some message => .ok (some message)

/-- What the branch does with what it takes. -/
def MIPDServer.handleTaken (server : MIPDServer) (taken : Except Halt (Option MIPDMessage))
    (env : Env) : Outcome :=
  match taken with
  | .error halt => server.halt halt
  | .ok none => server.finish 0 []
  | .ok (some message) => server.handleApplicationMessage message env

/-- The messages taken from the chunks, one `recv` after the other. -/
def readMessages : List (List UInt8) → Except Halt (List MIPDMessage)
  | [] => .ok []
  | chunk :: rest =>
    match readMessage chunk with
    | .error halt => .error halt
    | .ok none => readMessages rest
    | .ok (some message) =>
      match readMessages rest with
      | .error halt => .error halt
      | .ok messages => .ok (message :: messages)

/-- The chunk is large enough to be parsed. -/
def IsParsed (chunk : List UInt8) : Prop := sizeofMIPDMessage ≤ chunk.length

instance : DecidablePred IsParsed := fun _ => inferInstanceAs (Decidable (_ ≤ _))

/-- The message stands at the beginning of the buffer that holds the chunk. -/
def Begins (chunk : List UInt8) (message : MIPDMessage) : Prop :=
  message.toBytes <+: readBuffer chunk

variable {chunk : List UInt8} {chunks : List (List UInt8)} {message : MIPDMessage}
  {messages : List MIPDMessage}

/-- The branch handles the message it takes from the chunk and no other. -/
theorem MIPDServer.appBranch_eq_handleTaken (server : MIPDServer) (fd accepted : ℤ) (env : Env)
    (hSome : chunk ≠ []) (hSize : chunk.length ≤ maxMipMessageDataSize) :
    server.appBranch ⟨fd, chunk, accepted⟩ env = server.handleTaken (readMessage chunk) env := by
  rw [appBranch, readMessage]
  simp only [List.take_of_length_le hSize, if_neg hSome]
  split_ifs with hSmall
  · rfl
  · show (match MIPDMessage.deserialize (readBuffer chunk) with
      | none => server.halt .fault
      | some message => server.handleApplicationMessage message env) = _
    cases MIPDMessage.deserialize (readBuffer chunk) with
    | none => rfl
    | some message => rfl

theorem readBuffer_length (hSize : chunk.length ≤ maxMipMessageDataSize) :
    (readBuffer chunk).length = maxMipMessageSize := by
  rw [readBuffer, List.length_append, List.length_replicate]
  unfold maxMipMessageDataSize maxMipMessageSize at *
  omega

/-- A chunk smaller than the structure of a message is not looked at. -/
theorem readMessage_of_small (hSmall : ¬ IsParsed chunk) : readMessage chunk = .ok none :=
  if_pos (Nat.lt_of_not_le hSmall)

/-- Any larger one is parsed, whatever its bytes are. -/
theorem readMessage_ne_none (hParsed : IsParsed chunk) : readMessage chunk ≠ .ok none := by
  rw [readMessage, if_neg (Nat.not_lt.mpr hParsed)]
  cases MIPDMessage.deserialize (readBuffer chunk) with
  | none => exact fun h => nomatch h
  | some message => exact fun h => nomatch h

/-- What is parsed is the message at the beginning of the buffer, with zeros where its data is
longer than the chunk. -/
theorem readMessage_eq_some_iff (hParsed : IsParsed chunk)
    (hSize : chunk.length ≤ maxMipMessageDataSize) :
    readMessage chunk = .ok (some message) ↔ Begins chunk message := by
  have hBuffer : 3 + maxMipMessageDataSize ≤ (readBuffer chunk).length := by
    rw [readBuffer_length hSize]
    decide
  rw [Begins, ← MIPDMessage.deserialize_eq_some_iff hBuffer, readMessage,
    if_neg (Nat.not_lt.mpr hParsed)]
  cases MIPDMessage.deserialize (readBuffer chunk) with
  | none => simp
  | some parsed => simp

/-- What is read from the first chunk comes first. -/
theorem readMessages_cons (chunk : List UInt8) (rest : List (List UInt8)) :
    readMessages (chunk :: rest) = .ok messages ↔
      readMessage chunk = .ok none ∧ readMessages rest = .ok messages ∨
        ∃ first later, readMessage chunk = .ok (some first) ∧ readMessages rest = .ok later ∧
          messages = first :: later := by
  rw [readMessages]
  cases readMessage chunk with
  | error halt => simp
  | ok taken =>
      cases taken with
      | none => simp
      | some first =>
          cases readMessages rest with
          | error halt => simp
          | ok later => simp [eq_comm]

/-- The messages are read if they begin the chunks that are large enough, each
chunk one message. -/
theorem readMessages_eq_ok_iff (hSize : ∀ chunk ∈ chunks, chunk.length ≤ maxMipMessageDataSize) :
    readMessages chunks = .ok messages ↔
      List.Forall₂ Begins (chunks.filter IsParsed) messages := by
  induction chunks generalizing messages with
  | nil =>
      rw [readMessages, List.filter_nil, List.forall₂_nil_left_iff, Except.ok.injEq]
      exact eq_comm
  | cons chunk rest ih =>
      have hFirst := hSize chunk List.mem_cons_self
      have hRest : ∀ c ∈ rest, c.length ≤ maxMipMessageDataSize :=
        fun c hMem => hSize c (List.mem_cons_of_mem chunk hMem)
      rw [readMessages_cons]
      by_cases hParsed : IsParsed chunk
      · simp only [readMessage_ne_none hParsed, false_and, false_or,
          readMessage_eq_some_iff hParsed hFirst, ih hRest]
        rw [List.filter_cons_of_pos (by simpa using hParsed), List.forall₂_cons_left_iff]
      · rw [List.filter_cons_of_neg (by simpa using hParsed), readMessage_of_small hParsed,
          ← ih hRest]
        simp

/-- The branch handles what it takes from each chunk. These are the messages that
were written exactly if each of them begins a chunk of its own and the other chunks
are too small. -/
theorem handles_messages_iff (messages : List MIPDMessage) (s : Segmentation messages) :
    (∀ chunk ∈ s.chunks, ∀ (server : MIPDServer) (fd accepted : ℤ) (env : Env),
      server.appBranch ⟨fd, chunk, accepted⟩ env = server.handleTaken (readMessage chunk) env) ∧
    (readMessages s.chunks = .ok messages ↔
      List.Forall₂ Begins (s.chunks.filter IsParsed) messages) := by
  constructor
  · intro chunk hMem server fd accepted env
    exact server.appBranch_eq_handleTaken fd accepted env (s.ne_nil chunk hMem)
      (s.size_le chunk hMem)
  · exact readMessages_eq_ok_iff s.size_le

/-- Of two messages that arrive together only the first is read. The other one is not kept for the
next read. -/
theorem coalesced_messages_are_lost :
    let message : MIPDMessage := ⟨10, List.replicate 13 7, by decide⟩
    ∃ s : Segmentation [message, message], s.chunks = [message.toBytes ++ message.toBytes] ∧
      readMessages s.chunks = .ok [message] ∧ readMessages s.chunks ≠ .ok [message, message] := by
  intro message
  have hSize : ∀ chunk ∈ [message.toBytes ++ message.toBytes],
      chunk.length ≤ maxMipMessageDataSize := by simp [message, MIPDMessage.toBytes_length,
        maxMipMessageDataSize]
  have hRead : readMessages [message.toBytes ++ message.toBytes] = .ok [message] := by
    rw [readMessages_eq_ok_iff hSize]
    exact List.Forall₂.cons ⟨_, (List.append_assoc _ _ _).symm⟩ List.Forall₂.nil
  refine ⟨⟨[message.toBytes ++ message.toBytes], rfl, by simp [MIPDMessage.toBytes], hSize⟩, rfl,
    hRead, ?_⟩
  rw [hRead]
  simp

end MipStack
