import DChat.Requests
import DChat.Wire

/-!
# Refusal — a request that is refused leaves no trace

Here a missing key throws like any other misuse of a json value.  That matters in one place: the
`catch` block of the constructor of `TextMessage` turns such an exception into a `std::exception`,
so `handleIncomingMessage` goes on in its error handler and not with a literal.
-/

namespace DChat
namespace Chat
namespace ChatService

open Utils Crypto Peer Messaging Blockchain KeyedTable Fallible Request

/-- The constructor of `TextMessage`, when a missing key throws. -/
def decodeTextThrowing (E : Env) (privateKey : String) (jMessage : Json) :
    Except Exn TextMessage := do
  let base ← SecretMessage.ofJson E jMessage
  match TextMessage.decrypt E base jMessage privateKey false with
  | .ok plain => return { toSecretMessage := base, message := plain }
  | .error _ => .error (.std "std::exception")

/-- `handleIncomingMessage`, when a missing key throws. -/
def handleIncomingMessageThrowing (E : Env) (n : Node) (tick : Tick) (jMessage : Json) :
    Node × Except Exn Json :=
  respond n tick jMessage (decode (decodeTextThrowing E n.config.privateKey) jMessage)

/-- Where no key is missing, this is `handleIncomingMessage`. -/
theorem handleIncomingMessageThrowing_eq {E : Env} {n : Node} {jMessage : Json}
    (h : OnlyThrows (fun e => ¬ e.IsAbsentKey) (decodeText E n.config.privateKey jMessage))
    (tick : Tick) : handleIncomingMessageThrowing E n tick jMessage =
      handleIncomingMessage E n tick jMessage := by
  -- the two decoders part only where `decrypt` reads an absent key
  have htext : decodeTextThrowing E n.config.privateKey jMessage =
      decodeText E n.config.privateKey jMessage := by
    rcases hbase : SecretMessage.ofJson E jMessage with e | base
    · simp [decodeTextThrowing, decodeText, TextMessage.ofJson, hbase, bind, Except.bind]
    · rcases hdecrypt : TextMessage.decrypt E base jMessage n.config.privateKey false with e | plain
      · cases e with
        | absentKey key =>
            have hthrow : decodeText E n.config.privateKey jMessage = .error (.absentKey key) := by
              simp [decodeText, TextMessage.ofJson, hbase, hdecrypt, bind, Except.bind]
            -- excluded by the hypothesis on what the decoder throws
            exact absurd trivial (h _ hthrow)
        | json what =>
            simp [decodeTextThrowing, decodeText, TextMessage.ofJson, hbase, hdecrypt, bind,
              Except.bind]
        | std what =>
            simp [decodeTextThrowing, decodeText, TextMessage.ofJson, hbase, hdecrypt, bind,
              Except.bind]
      · simp [decodeTextThrowing, decodeText, TextMessage.ofJson, hbase, hdecrypt, bind,
          Except.bind]
  rw [handleIncomingMessage_eq, handleIncomingMessageThrowing]
  congr 1
  simp only [decode, htext]

/-! ## What an accepted text is -/

/-- The JSON is a text for the owner of the private key, with a signature of the plain text that
verifies under the key of the sender. -/
def SignedText (E : Env) (privateKey : String) (jMessage : Json) (message : TextMessage) : Prop :=
  Message.ofJson jMessage = .ok message.toMessage ∧
    ∃ payload text cipher sessionKey publicKey,
      jMessage.field "payload" = .ok payload ∧ payload.field "message" = .ok (.string text) ∧
      E.crypto.stringToKey text = .ok cipher ∧
      TextMessage.createSessionKey E privateKey message.fromPeer.publicKey = .ok sessionKey ∧
      E.crypto.decrypt cipher sessionKey = .ok message.message ∧
      E.crypto.stringToKey message.fromPeer.publicKey = .ok publicKey ∧
      E.crypto.verify message.message message.signature publicKey = true

theorem signedText_of_decrypt {E : Env} {base : SecretMessage} {privateKey : String}
    {jMessage : Json} {plain : Bytes} (hbase : Message.ofJson jMessage = .ok base.toMessage)
    (h : TextMessage.decrypt E base jMessage privateKey false = .ok plain) :
    SignedText E privateKey jMessage { toSecretMessage := base, message := plain } :=
  ⟨hbase, TextMessage.decrypt_eq_ok h⟩

theorem signedText_of_decode {E : Env} {privateKey : String} {jMessage : Json}
    {message : TextMessage} (h : decodeTextThrowing E privateKey jMessage = .ok message) :
    SignedText E privateKey jMessage message := by
  rcases bind_eq_ok.1 h with ⟨base, hbase, h⟩
  have hmessage := SecretMessage.message_of_ofJson hbase
  rcases hdecrypt : TextMessage.decrypt E base jMessage privateKey false with e | plain
  · simp [hdecrypt] at h
  · simp only [hdecrypt] at h
    exact Except.ok.inj h ▸ signedText_of_decrypt hmessage hdecrypt

/-! ## Requests -/

theorem senderRead_of_throwing {E : Env} {privateKey : String} {j : Json} {what : String}
    (h : decodeTextThrowing E privateKey j = .error (.std what)) : SenderRead j :=
  senderRead_of_secret h

/-- Only the text constructor gives a text. -/
theorem text_of_decode {text : Json → Except Exn TextMessage} {j : Json} {message : TextMessage}
    (h : decode text j = .ok (.text message)) : text j = .ok message := by
  rcases bind_eq_ok.1 h with ⟨type, _, h⟩
  split_ifs at h
  · rcases bind_pure_eq_ok.1 h with ⟨_, _, heq⟩
    cases heq
  · rcases bind_pure_eq_ok.1 h with ⟨m, hm, heq⟩
    cases heq
    exact hm
  · rcases bind_pure_eq_ok.1 h with ⟨_, _, heq⟩
    cases heq
  · rcases bind_pure_eq_ok.1 h with ⟨_, _, heq⟩
    cases heq
  · rcases bind_pure_eq_ok.1 h with ⟨_, _, heq⟩
    cases heq
  · rcases bind_pure_eq_ok.1 h with ⟨_, _, heq⟩
    cases heq
  · cases h

/-- Among the handlers' answers only the literal for an unknown type is an error. -/
theorem unknown_of_error {request : Request} {n : Node} {tick : Tick} {j : Json}
    (h : (request.handle n tick j).2.field "type" =
      .ok (.string MessageType.errorResponse.toString)) : request = .unknown := by
  have htag : ∀ {t : MessageType} {p q : UserPeer}, t ≠ .errorResponse →
      (Message.create tick t p q).basicSerialization.field "type" ≠
        .ok (.string MessageType.errorResponse.toString) := by
    intro t p q ht heq
    exact ht (MessageType.toString_inj.1 (Json.string.inj (Except.ok.inj heq)))
  cases request with
  | connect message => exact absurd h (htag (t := .connectResponse) (by decide))
  | text message => exact absurd h (htag (t := .textMessageResponse) (by decide))
  | peerList message => exact absurd h (htag (t := .peerListResponse) (by decide))
  | blockRange message => exact absurd h (htag (t := .blockRangeResponse) (by decide))
  | disconnect message => exact absurd h (htag (t := .disconnectResponse) (by decide))
  | blockchainError message => cases h
  | unknown => rfl

/-- A handler adds at most the row of a text that it was given. -/
theorem messages_handle {request : Request} {n : Node} {tick : Tick} {j : Json} {row : MessageRow}
    (hrow : row ∈ (request.handle n tick j).1.messages.data) (hnew : row ∉ n.messages.data) :
    ∃ message, request = .text message ∧ row = .ofMessage message j message.blockHash := by
  cases request with
  | text message =>
      refine ⟨message, rfl, ?_⟩
      rcases Table.data_insert n.messages (.ofMessage message j message.blockHash) with h | h
      · have hmem : row ∈ n.messages.data ++ [.ofMessage message j message.blockHash] := h ▸ hrow
        rcases List.mem_append.1 hmem with hold | hlast
        · exact absurd hold hnew
        · exact List.mem_singleton.1 hlast
      · exact absurd (h ▸ hrow : row ∈ n.messages.data) hnew
  | blockchainError message =>
      have hmem : row ∈ (MessageDB.removeMessageByBlockHash n.messages message.blockHash).1.data :=
        hrow
      rw [MessageDB.data_removeMessageByBlockHash] at hmem
      exact absurd (List.mem_filter.1 hmem).1 hnew
  | _ => exact absurd hrow hnew

end ChatService
end Chat
end DChat
