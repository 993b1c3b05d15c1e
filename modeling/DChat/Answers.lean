import DChat.Access

/-!
# Answers — what a node replies and what its own client makes of it

Three things leave `handleIncomingMessage`: the response of a handler, the error response of the
`catch` block for `std::exception`, and two literals with a type and a text.  Client and handlers
agree on the first two (`readable_of_decodes`).  The literals lack the common fields that the
client's `ErrorMessageResponse` starts with (`not_readable_errorLiteral`).
-/

namespace DChat
namespace Chat
namespace ChatService

open Utils Crypto Peer Messaging Blockchain BlockchainService Fallible Request

/-! ## Answers that the client decodes -/

/-- The types for which `handleOutgoingMessage` has a constructor. -/
def responseTypes : List MessageType :=
  [.errorResponse, .blockchainErrorResponse, .connectResponse, .textMessageResponse,
    .peerListResponse, .blockRangeResponse, .disconnectResponse]

/-- The constructor that `handleOutgoingMessage` selects goes through, whatever the node. -/
def Decodes (response : Json) : Prop := ∀ n, ∃ n', dispatchOutgoing n response = .ok n'

/-- The answer is `{}`, or its type tag selects a constructor that decodes all of it. -/
def Readable (response : Json) : Prop :=
  response = .object [] ∨
    (∃ t ∈ responseTypes, response.field "type" = .ok (.string t.toString)) ∧ Decodes response

/-- The response string after the call; it starts as `{}`. -/
def responseLeft (result : Except Exn Json) : Json := result.toOption.getD (.object [])

theorem readable_errorResponse {m : ErrorMessageResponse} (h : m.type = .errorResponse) :
    Readable m.serialize :=
  Or.inr ⟨⟨.errorResponse, by decide, h ▸ rfl⟩, fun n => ⟨_, dispatchOutgoing_errorResponse n h⟩⟩

theorem readable_blockchainErrorResponse {m : BlockchainErrorMessageResponse}
    (h : m.type = .blockchainErrorResponse) : Readable m.serialize :=
  Or.inr ⟨⟨.blockchainErrorResponse, by decide, h ▸ rfl⟩,
    fun n => ⟨_, dispatchOutgoing_blockchainErrorResponse n h⟩⟩

theorem readable_connectResponse {m : ConnectionMessageResponse} (h : m.type = .connectResponse) :
    Readable m.serialize :=
  Or.inr ⟨⟨.connectResponse, by decide, h ▸ rfl⟩,
    fun n => ⟨_, dispatchOutgoing_connectResponse n h⟩⟩

theorem readable_peerListResponse {m : PeerListMessageResponse} (h : m.type = .peerListResponse) :
    Readable m.serialize :=
  Or.inr ⟨⟨.peerListResponse, by decide, h ▸ rfl⟩,
    fun n => ⟨_, dispatchOutgoing_peerListResponse n h⟩⟩

theorem readable_blockRangeResponse {m : BlockRangeMessageResponse}
    (h : m.type = .blockRangeResponse) : Readable m.serialize :=
  Or.inr ⟨⟨.blockRangeResponse, by decide, h ▸ rfl⟩,
    fun n => ⟨_, dispatchOutgoing_blockRangeResponse n h⟩⟩

/-- The two responses without a payload. -/
theorem readable_basicSerialization {m : Message}
    (h : m.type = .textMessageResponse ∨ m.type = .disconnectResponse) :
    Readable m.basicSerialization := by
  refine Or.inr ⟨⟨m.type, ?_, rfl⟩, fun n => ⟨n, dispatchOutgoing_basicSerialization n h⟩⟩
  rcases h with h | h <;> rw [h] <;> decide

/-- The literals have a tag whose constructor looks for an id first. -/
theorem not_readable_errorLiteral (n : Node) (error : String) :
    ¬ Readable (errorLiteral error) := by
  rintro (h | ⟨_, h⟩)
  · simp [errorLiteral] at h
  · rcases h n with ⟨n', h⟩
    have htag : (errorLiteral error).field "type" =
        .ok (.string MessageType.errorResponse.toString) := rfl
    have hid : ErrorMessageResponse.ofJson (errorLiteral error) = .error (.absentKey "id") := rfl
    simp [dispatchOutgoing, htag, hid, Except.toOption, bind, Except.bind] at h

/-- Every handler answers with `{}` or with a full response. -/
theorem readable_handle {request : Request} (h : request ≠ .unknown) (n : Node) (tick : Tick)
    (jMessage : Json) : Readable (request.handle n tick jMessage).2 := by
  cases request with
  | connect message => exact readable_connectResponse rfl
  | text message => exact readable_basicSerialization (Or.inl rfl)
  | peerList message => exact readable_peerListResponse rfl
  | blockRange message => exact readable_blockRangeResponse rfl
  | disconnect message => exact readable_basicSerialization (Or.inr rfl)
  | blockchainError message => exact Or.inl rfl
  | unknown => exact absurd rfl h

/-- What `onIncomingBlock` leaves is `{}` or a full error response, provided that it gets there: see
`answer_readable_iff`. -/
theorem readable_onIncomingBlock (E : Env) (t : BlockTable) (me : UserPeer) (now : ClockReading)
    (tick : Tick) (jData : Json) :
    Readable ((onIncomingBlock E me now tick jData).run ChainOp.exec t).1 := by
  have hrefusal : ∀ error blockHash, Readable (refusal me tick error blockHash) :=
    fun _ _ => readable_blockchainErrorResponse rfl
  cases hblock : Block.ofJson jData with
  | error e =>
      simp only [onIncomingBlock, hblock]
      exact hrefusal _ _
  | ok block =>
      rcases onIncomingBlock_cases (E := E) me now tick t hblock with
        ⟨_, hrun⟩ | ⟨_, error, hash, hrun⟩
      · rw [hrun]
        exact Or.inl rfl
      · rw [hrun]
        exact hrefusal error hash

/-! ## Which requests are answered readably -/

/-- The tag names one of the six requests, and the constructor throws no json exception. -/
def Understood (E : Env) (order : ArgumentOrder) (privateKey : String) (jMessage : Json) : Prop :=
  OnlyThrows Exn.IsStd (decode (decodeText E privateKey · order) jMessage order) ∧
    decode (decodeText E privateKey · order) jMessage order ≠ .ok .unknown

/-- `onIncomingBlock` answers readably where the block is read without an absent key, and
`handleIncomingMessage` where the request is understood. -/
theorem answer_readable_iff (E : Env) (order : ArgumentOrder) (n : Node) (tick : Tick)
    (jMessage : Json) :
    (∀ now, (Json.Defined (Block.ofJson jMessage) ∧
        Readable ((onIncomingBlock E n.config.me now tick jMessage).run ChainOp.exec n.chain).1) ↔
          Json.Safe jMessage Block.reads) ∧
      (Readable (responseLeft (handleIncomingMessage E n tick jMessage order).2) ↔
        Understood E order n.config.privateKey jMessage) := by
  refine ⟨fun now => ?_, ?_⟩
  · -- whatever the block is, what is answered is readable
    rw [← Json.defined_blockOfJson]
    exact and_iff_left (readable_onIncomingBlock E n.chain n.config.me now tick jMessage)
  rw [handleIncomingMessage_eq, Understood]
  cases hdecode : decode (decodeText E n.config.privateKey · order) jMessage order with
  | ok request =>
      by_cases hunknown : request = .unknown
      · -- the literal for an unknown type
        have hliteral := not_readable_errorLiteral n "Invalid message type"
        simpa [hunknown, respond, handle, responseLeft, Except.toOption] using hliteral
      · have hreadable := readable_handle hunknown n tick jMessage
        simpa [hunknown, respond, responseLeft, Except.toOption, onlyThrows_ok] using hreadable
  | error e =>
      -- the literal for a json exception
      have hliteral := not_readable_errorLiteral n "Invalid data format"
      cases e with
      | std what =>
          rcases handleIncomingErrorMessage_eq n tick
            (senderRead_of_decode (fun _ => senderRead_of_decodeText) hdecode) what with ⟨p, herror⟩
          have hreadable :
              Readable (ErrorMessageResponse.create tick n.config.me p what).serialize :=
            readable_errorResponse rfl
          simpa [respond, herror, responseLeft, Except.toOption, onlyThrows_error,
            Exn.IsStd] using hreadable
      | json what =>
          simpa [respond, responseLeft, Except.toOption, onlyThrows_error, Exn.IsStd] using hliteral
      | absentKey key =>
          simpa [respond, responseLeft, Except.toOption, onlyThrows_error, Exn.IsStd] using hliteral

/-- A message with all fields and an unknown type is answered with a literal. -/
theorem unknown_type_unreadable :
    let sender : UserPeer := { host := "127.0.0.1", port := 8001, publicKey := "test_key" }
    let jMessage : Json := .object [("type", .string "UNKNOWN_MESSAGE_TYPE"), ("id", .string "1"),
      ("from", sender.toJson), ("to", FirstBlock.config.me.toJson), ("timestamp", .unsigned 7)]
    ¬ Readable (responseLeft (handleIncomingMessage testEnv
      (Network.SmallNet.node FirstBlock.config [] KeyedTable.Table.empty) ⟨"2", FirstBlock.now⟩
      jMessage).2) :=
  not_readable_errorLiteral (Network.SmallNet.node FirstBlock.config [] KeyedTable.Table.empty)
    "Invalid message type"

/-! ## Addresses of the answers -/

/-- The type of the answer to a request that is answered by a message. -/
def answerType : MessageType → MessageType
  | .connect => .connectResponse
  | .textMessage => .textMessageResponse
  | .peerList => .peerListResponse
  | .blockRangeRequest => .blockRangeResponse
  | .disconnect => .disconnectResponse
  | t => t

/-- The common fields of a response, as the constructor of the type reads them. -/
def responseFields (t : MessageType) (response : Json) : Except Exn Message :=
  match t with
  | .connectResponse => (ConnectionMessageResponse.ofJson response).map (·.toMessage)
  | .textMessageResponse => TextMessageResponse.ofJson response
  | .peerListResponse => (PeerListMessageResponse.ofJson response).map (·.toMessage)
  | .blockRangeResponse => (BlockRangeMessageResponse.ofJson response).map (·.toMessage)
  | .disconnectResponse => DisconnectionMessageResponse.ofJson response
  | _ => Message.ofJson response

/-- The tag and the common fields of a request that is answered by a message. -/
def asked? : Request → Option (MessageType × Message)
  | .connect message => some (.connect, message.toMessage)
  | .text message => some (.textMessage, message.toMessage)
  | .peerList message => some (.peerList, message.toMessage)
  | .blockRange message => some (.blockRangeRequest, message.toMessage)
  | .disconnect message => some (.disconnect, message)
  | .blockchainError _ => none
  | .unknown => none

/-- The response has the right type, comes from the address that was asked, and goes to the sender
of the request. -/
def AddressedTo (t : MessageType) (request : Message) (response : Json) : Prop :=
  ∃ answer, responseFields (answerType t) response = .ok answer ∧ answer.type = answerType t ∧
    answer.fromPeer.toUserHost = request.toPeer.toUserHost ∧ answer.toPeer = request.fromPeer

/-- What the constructor of its type makes of the response of a handler. -/
theorem responseFields_handle {request : Request} {t : MessageType} {message : Message}
    (h : asked? request = some (t, message)) (n : Node) (tick : Tick) (jMessage : Json) :
    ∃ answer, responseFields (answerType t) (request.handle n tick jMessage).2 = .ok answer ∧
      answer.type = answerType t ∧
      answer.fromPeer.toUserHost =
        (if t = .peerList then message.fromPeer else message.toPeer).toUserHost ∧
      answer.toPeer = if t = .peerList then message.toPeer else message.fromPeer := by
  cases request with
  | connect m =>
      cases h
      let response := ConnectionMessageResponse.create tick (answering n m.toMessage) m.fromPeer
        (UInt32.ofNat (PeerService.addPeer n.peers m.fromPeer).length)
        (ChainDB.countBlocksAfterHash n.chain m.lastBlockHash)
      have hdecode : ConnectionMessageResponse.ofJson response.serialize = .ok response :=
        ConnectionMessageResponse.ofJson_serialize rfl
      exact ⟨response.toMessage,
        congrArg (Except.map ConnectionMessageResponse.toMessage) hdecode, rfl, rfl, rfl⟩
  | text m =>
      cases h
      exact ⟨Message.create tick .textMessageResponse (answering n m.toMessage) m.fromPeer,
        Message.ofJson_basicSerialization _, rfl, rfl, rfl⟩
  | peerList m =>
      cases h
      let peers := ((n.peers.take (m.start + m.count).toNat).drop m.start.toNat).filter
        (· ≠ m.fromPeer)
      -- the factory exchanges the two peers
      let response := PeerListMessageResponse.create tick m.toPeer m.fromPeer peers
      have hdecode : PeerListMessageResponse.ofJson response.serialize = .ok response :=
        PeerListMessageResponse.ofJson_serialize rfl
      exact ⟨response.toMessage,
        congrArg (Except.map PeerListMessageResponse.toMessage) hdecode, rfl, rfl, rfl⟩
  | blockRange m =>
      cases h
      let response := BlockRangeMessageResponse.create tick m.toPeer m.fromPeer
        (ChainDB.getBlocksByIndexRange n.chain m.start m.count m.lastHash)
      have hdecode : BlockRangeMessageResponse.ofJson response.serialize = .ok response :=
        BlockRangeMessageResponse.ofJson_serialize rfl
      exact ⟨response.toMessage,
        congrArg (Except.map BlockRangeMessageResponse.toMessage) hdecode, rfl, rfl, rfl⟩
  | disconnect m =>
      cases h
      exact ⟨Message.create tick .disconnectResponse message.toPeer message.fromPeer,
        ofJsonBare_basicSerialization rfl, rfl, rfl, rfl⟩
  | blockchainError m => cases h
  | unknown => cases h

/-- Only the handler that exchanges the two peers has to hope that they are equal. -/
theorem addressedTo_handle_iff {request : Request} {t : MessageType} {message : Message}
    (h : asked? request = some (t, message)) (n : Node) (tick : Tick) (jMessage : Json) :
    AddressedTo t message (request.handle n tick jMessage).2 ↔
      (t = .peerList → message.toPeer = message.fromPeer) := by
  rcases responseFields_handle h n tick jMessage with ⟨answer, hanswer, htype, hfrom, hto⟩
  have hfields : AddressedTo t message (request.handle n tick jMessage).2 ↔
      answer.fromPeer.toUserHost = message.toPeer.toUserHost ∧
        answer.toPeer = message.fromPeer := by
    simp [AddressedTo, hanswer, htype]
  rw [hfields, hfrom, hto]
  by_cases ht : t = .peerList
  · simp only [ht, if_true, true_implies]
    constructor
    · exact fun hboth => hboth.2
    · intro hsame
      exact ⟨by rw [hsame], hsame⟩
  · simp [ht]

theorem response_of_decode {E : Env} {n : Node} {jMessage : Json} {request : Request}
    (h : decode (decodeText E n.config.privateKey) jMessage = .ok request) (tick : Tick) :
    (handleIncomingMessage E n tick jMessage).2 = .ok (request.handle n tick jMessage).2 := by
  rw [handleIncomingMessage_eq, h]
  rfl

/-- A well-formed request is answered from the address it went to and back to its sender, except
that a request for peers is answered the other way round. -/
theorem answer_addressed_iff {E : Env} {n : Node} {tick : Tick} {jMessage : Json}
    {request : Request} {t : MessageType} {message : Message}
    (hdecode : decode (decodeText E n.config.privateKey) jMessage = .ok request)
    (hasked : asked? request = some (t, message)) :
    (∃ response, (handleIncomingMessage E n tick jMessage).2 = .ok response ∧
        AddressedTo t message response) ↔
      (t = .peerList → message.toPeer = message.fromPeer) := by
  rw [response_of_decode hdecode, ← addressedTo_handle_iff hasked n tick jMessage]
  simp

/-- A peer that asks the node of a first block for something. -/
def asker : UserPeer := { host := "127.0.0.1", port := 8005, publicKey := "asker" }

def askedNode : Node := Network.SmallNet.node FirstBlock.config [] KeyedTable.Table.empty

theorem answer_addressed_connect :
    ∃ response, (handleIncomingMessage testEnv askedNode (FirstBlock.tick "2")
        (ConnectionMessage.create (FirstBlock.tick "1") asker FirstBlock.config.me
          "0").serialize).2 = .ok response ∧
      AddressedTo .connect
        (ConnectionMessage.create (FirstBlock.tick "1") asker FirstBlock.config.me "0").toMessage
        response := by
  refine (answer_addressed_iff (t := .connect) (decode_connection rfl) rfl).2 ?_
  intro h
  cases h

/-- The answer to a request for peers comes from the asker and goes to the asked. -/
theorem peer_list_answer_swapped :
    ¬ ∃ response, (handleIncomingMessage testEnv askedNode (FirstBlock.tick "2")
        (PeerListMessage.create (FirstBlock.tick "1") asker FirstBlock.config.me 0
          12).serialize).2 = .ok response ∧
      AddressedTo .peerList
        (PeerListMessage.create (FirstBlock.tick "1") asker FirstBlock.config.me 0 12).toMessage
        response := by
  rintro ⟨response, hresponse, haddressed⟩
  rw [response_of_decode (decode_peerList rfl)] at hresponse
  rw [← Except.ok.inj hresponse] at haddressed
  have hsame : FirstBlock.config.me = asker :=
    (addressedTo_handle_iff (t := .peerList) rfl _ _ _).1 haddressed rfl
  exact absurd (congrArg (fun p => p.port) hsame) (by decide)

end ChatService
end Chat
end DChat
