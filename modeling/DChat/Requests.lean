import DChat.ChatService
import DChat.Library.Fallible

/-!
# Requests — decoding first, handling second

`handleIncomingMessage` decodes a request to its end before a handler sees it, and no handler
throws.  So it is a decoder, which looks at the private key of the node and at nothing else of it,
followed by a function that always answers (`handleIncomingMessage_eq`).

An exception that is no json exception comes from a decoder that has already read the sender, so
the error handler finds one to answer to.
-/

namespace DChat

/-- Neither a json exception nor an undefined access. -/
def Exn.IsStd : Exn → Prop
  | .std _ => True
  | _ => False

def Exn.IsAbsentKey : Exn → Prop
  | .absentKey _ => True
  | _ => False

def Exn.IsJson : Exn → Prop
  | .json _ => True
  | _ => False

theorem Exn.IsJson.not_std {e : Exn} (h : e.IsJson) : ¬ e.IsStd := by
  cases e with
  | json what => exact id
  | absentKey key => exact absurd h id
  | std what => exact absurd h id

theorem Exn.IsJson.not_absentKey {e : Exn} (h : e.IsJson) : ¬ e.IsAbsentKey := by
  cases e with
  | json what => exact id
  | absentKey key => exact absurd h id
  | std what => exact absurd h id

/-! ## What the conversions of a json value throw -/

namespace Json

open Fallible

theorem throwsJson_getString (w : Json) : OnlyThrows Exn.IsJson w.getString := by
  intro e h
  cases w with
  | string s => cases h
  | _ => exact Except.error.inj h ▸ trivial

theorem throwsJson_getUnsigned (n : Nat) (w : Json) :
    OnlyThrows Exn.IsJson (w.getUnsigned n) := by
  intro e h
  cases w with
  | boolean b => cases h
  | unsigned n => cases h
  | integer n => cases h
  | float q text => cases h
  | _ => exact Except.error.inj h ▸ trivial

theorem throwsJson_getUInt16 (w : Json) : OnlyThrows Exn.IsJson w.getUInt16 :=
  (throwsJson_getUnsigned 16 w).map UInt16.ofNat

theorem throwsJson_getUInt32 (w : Json) : OnlyThrows Exn.IsJson w.getUInt32 :=
  (throwsJson_getUnsigned 32 w).map UInt32.ofNat

theorem throwsJson_getUInt64 (w : Json) : OnlyThrows Exn.IsJson w.getUInt64 := by
  intro e h
  cases w with
  | unsigned n => cases h
  | integer n => cases h
  | float q text => cases h
  | _ => exact Except.error.inj h ▸ trivial

end Json

namespace Chat

open Utils Crypto Peer Messaging Blockchain Fallible

/-- A request whose constructor went through. -/
inductive Request
  | connect (message : ConnectionMessage)
  | text (message : TextMessage)
  | peerList (message : PeerListMessage)
  | blockRange (message : BlockRangeMessage)
  | disconnect (message : Message)
  | blockchainError (message : BlockchainErrorMessageResponse)
  /-- The tag names none of the six. -/
  | unknown

namespace Request

/-- The constructor that the type tag selects; `text` is the one of `TextMessage`. -/
def decode (text : Json → Except Exn TextMessage) (jMessage : Json)
    (order : ArgumentOrder := .portFirst) : Except Exn Request := do
  let type ← jMessage.field "type"
  if type.isString MessageType.connect.toString then
    return .connect (← ConnectionMessage.ofJson jMessage order)
  else if type.isString MessageType.textMessage.toString then
    return .text (← text jMessage)
  else if type.isString MessageType.peerList.toString then
    return .peerList (← PeerListMessage.ofJson jMessage order)
  else if type.isString MessageType.blockRangeRequest.toString then
    return .blockRange (← BlockRangeMessage.ofJson jMessage order)
  else if type.isString MessageType.disconnect.toString then
    return .disconnect (← DisconnectionMessage.ofJson jMessage order)
  else if type.isString MessageType.blockchainErrorResponse.toString then
    return .blockchainError (← BlockchainErrorMessageResponse.ofJson jMessage order)
  else
    return .unknown

/-- The literal that answers a request no constructor took. -/
def errorLiteral (error : String) : Json :=
  .object [("type", .string "ERROR_RESPONSE"), ("error", .string error)]

/-- The handler of the request. -/
def handle (n : Node) (tick : Tick) (jMessage : Json) : Request → Node × Json
  | connect message => ChatService.handleIncomingConnectionMessage n tick message
  | text message => ChatService.handleIncomingTextMessage n tick message jMessage
  | peerList message => ChatService.handleIncomingPeerListMessage n tick message
  | blockRange message => ChatService.handleIncomingBlockRangeMessage n tick message
  | disconnect message => ChatService.handleIncomingDisconnectionMessage n tick message
  | blockchainError message =>
      (ChatService.handleOutgoingBlockchainErrorMessage n message, .object [])
  | unknown => (n, errorLiteral "Invalid message type")

/-- What follows the decoder: the handler, or one of the two `catch` blocks. -/
def respond (n : Node) (tick : Tick) (jMessage : Json) (decoded : Except Exn Request)
    (order : ArgumentOrder := .portFirst) : Node × Except Exn Json :=
  match decoded with
  | .ok request => ((request.handle n tick jMessage).1, .ok (request.handle n tick jMessage).2)
  | .error (.std what) => (n, ChatService.handleIncomingErrorMessage n tick jMessage what order)
  | .error _ => (n, .ok (errorLiteral "Invalid data format"))

/-- The constructor of `TextMessage` as `handleIncomingMessage` calls it. -/
def decodeText (E : Env) (privateKey : String) (jMessage : Json)
    (order : ArgumentOrder := .portFirst) : Except Exn TextMessage :=
  TextMessage.ofJson E jMessage privateKey false false order

theorem dispatchIncoming_eq (E : Env) (n : Node) (tick : Tick) (jMessage : Json)
    {order : ArgumentOrder} :
    ChatService.dispatchIncoming E n tick jMessage order =
      (decode (decodeText E n.config.privateKey · order) jMessage order).map
        fun request => request.handle n tick jMessage := by
  cases htype : jMessage.field "type" with
  | error e => simp [ChatService.dispatchIncoming, decode, htype, bind, Except.bind, Except.map]
  | ok type =>
      simp only [ChatService.dispatchIncoming, decode, htype, decodeText, bind, Except.bind, pure,
        Except.pure]
      -- one case for each tag, and in it one for each outcome of the constructor
      split_ifs
      · cases ConnectionMessage.ofJson jMessage order <;> rfl
      · cases TextMessage.ofJson E jMessage n.config.privateKey false false order <;> rfl
      · cases PeerListMessage.ofJson jMessage order <;> rfl
      · cases BlockRangeMessage.ofJson jMessage order <;> rfl
      · cases DisconnectionMessage.ofJson jMessage order <;> rfl
      · cases BlockchainErrorMessageResponse.ofJson jMessage order <;> rfl
      · rfl

theorem handleIncomingMessage_eq (E : Env) (n : Node) (tick : Tick) (jMessage : Json)
    {order : ArgumentOrder} :
    ChatService.handleIncomingMessage E n tick jMessage order =
      respond n tick jMessage (decode (decodeText E n.config.privateKey · order) jMessage order)
        order := by
  rw [ChatService.handleIncomingMessage, dispatchIncoming_eq]
  cases decode (decodeText E n.config.privateKey · order) jMessage order with
  | ok request => rfl
  | error e => cases e <;> rfl

/-! ## Requests as the client writes them -/

theorem decode_connection {text : Json → Except Exn TextMessage} {m : ConnectionMessage}
    (h : m.type = .connect) {order : ArgumentOrder} :
    decode text m.serialize order = .ok (.connect m) := by
  have htag : m.serialize.field "type" = .ok (.string MessageType.connect.toString) := h ▸ rfl
  simp [decode, htag, ConnectionMessage.ofJson_serialize h order, bind, Except.bind, pure,
    Except.pure]

theorem decode_peerList {text : Json → Except Exn TextMessage} {m : PeerListMessage}
    (h : m.type = .peerList) : decode text m.serialize = .ok (.peerList m) := by
  have htag : m.serialize.field "type" = .ok (.string MessageType.peerList.toString) := h ▸ rfl
  simp [decode, htag, PeerListMessage.ofJson_serialize h, bind, Except.bind, pure, Except.pure]

theorem decode_blockRange {text : Json → Except Exn TextMessage} {m : BlockRangeMessage}
    (h : m.type = .blockRangeRequest) : decode text m.serialize = .ok (.blockRange m) := by
  have htag : m.serialize.field "type" = .ok (.string MessageType.blockRangeRequest.toString) :=
    h ▸ rfl
  simp [decode, htag, BlockRangeMessage.ofJson_serialize h, bind, Except.bind, pure, Except.pure]

theorem decode_disconnection {text : Json → Except Exn TextMessage} {m : Message}
    (h : m.type = .disconnect) : decode text m.basicSerialization = .ok (.disconnect m) := by
  have htag : m.basicSerialization.field "type" = .ok (.string MessageType.disconnect.toString) :=
    h ▸ rfl
  simp [decode, htag, DisconnectionMessage.ofJson, ofJsonBare_basicSerialization h, bind,
    Except.bind, pure, Except.pure]

/-! ## Responses as the server writes them -/

theorem dispatchOutgoing_errorResponse (n : Node) {m : ErrorMessageResponse}
    (h : m.type = .errorResponse) : ChatService.dispatchOutgoing n m.serialize = .ok n := by
  have htag : m.serialize.field "type" = .ok (.string MessageType.errorResponse.toString) := h ▸ rfl
  simp [ChatService.dispatchOutgoing, htag, ErrorMessageResponse.ofJson_serialize h,
    Except.toOption, bind, Except.bind, pure, Except.pure]

theorem dispatchOutgoing_blockchainErrorResponse (n : Node) {m : BlockchainErrorMessageResponse}
    (h : m.type = .blockchainErrorResponse) : ChatService.dispatchOutgoing n m.serialize =
      .ok (ChatService.handleOutgoingBlockchainErrorMessage n m) := by
  have htag : m.serialize.field "type" =
      .ok (.string MessageType.blockchainErrorResponse.toString) := h ▸ rfl
  simp [ChatService.dispatchOutgoing, htag, BlockchainErrorMessageResponse.ofJson_serialize h,
    Except.toOption, bind, Except.bind, pure, Except.pure]

theorem dispatchOutgoing_connectResponse (n : Node) {m : ConnectionMessageResponse}
    (h : m.type = .connectResponse) : ChatService.dispatchOutgoing n m.serialize =
      .ok (ChatService.handleOutgoingConnectionMessage n m) := by
  have htag : m.serialize.field "type" = .ok (.string MessageType.connectResponse.toString) :=
    h ▸ rfl
  simp [ChatService.dispatchOutgoing, htag, ConnectionMessageResponse.ofJson_serialize h,
    Except.toOption, bind, Except.bind, pure, Except.pure]

theorem dispatchOutgoing_peerListResponse (n : Node) {m : PeerListMessageResponse}
    (h : m.type = .peerListResponse) : ChatService.dispatchOutgoing n m.serialize =
      .ok (ChatService.handleOutgoingPeerListMessage n m) := by
  have htag : m.serialize.field "type" = .ok (.string MessageType.peerListResponse.toString) :=
    h ▸ rfl
  simp [ChatService.dispatchOutgoing, htag, PeerListMessageResponse.ofJson_serialize h,
    Except.toOption, bind, Except.bind, pure, Except.pure]

theorem dispatchOutgoing_blockRangeResponse (n : Node) {m : BlockRangeMessageResponse}
    (h : m.type = .blockRangeResponse) : ChatService.dispatchOutgoing n m.serialize =
      .ok (ChatService.handleOutgoingBlockRangeMessage n m) := by
  have htag : m.serialize.field "type" = .ok (.string MessageType.blockRangeResponse.toString) :=
    h ▸ rfl
  simp [ChatService.dispatchOutgoing, htag, BlockRangeMessageResponse.ofJson_serialize h,
    Except.toOption, bind, Except.bind, pure, Except.pure]

/-- The two responses without a payload. -/
theorem dispatchOutgoing_basicSerialization (n : Node) {m : Message}
    (h : m.type = .textMessageResponse ∨ m.type = .disconnectResponse) :
    ChatService.dispatchOutgoing n m.basicSerialization = .ok n := by
  have htag : m.basicSerialization.field "type" = .ok (.string m.type.toString) := rfl
  rcases h with h | h
  · rw [h] at htag
    simp [ChatService.dispatchOutgoing, htag, TextMessageResponse.ofJson,
      Message.ofJson_basicSerialization, Except.toOption, bind, Except.bind, pure, Except.pure]
  · rw [h] at htag
    simp [ChatService.dispatchOutgoing, htag, DisconnectionMessageResponse.ofJson,
      ofJsonBare_basicSerialization h, Except.toOption, bind, Except.bind, pure, Except.pure]

theorem handleOutgoingMessage_of_dispatch {n n' : Node} {response : Json}
    (h : ChatService.dispatchOutgoing n response = .ok n') :
    ChatService.handleOutgoingMessage n (some response) = n' := by
  rw [ChatService.handleOutgoingMessage, h]

/-! ## The configuration stays -/

theorem config_handle (request : Request) (n : Node) (tick : Tick) (j : Json) :
    (request.handle n tick j).1.config = n.config := by
  cases request <;> rfl

/-- What a response that is decoded does to the node. -/
theorem dispatchOutgoing_cases {n n' : Node} {response : Json}
    (h : ChatService.dispatchOutgoing n response = .ok n') :
    n' = n ∨ (∃ m, n' = ChatService.handleOutgoingBlockchainErrorMessage n m) ∨
      (∃ m, n' = ChatService.handleOutgoingConnectionMessage n m) ∨
      (∃ m, n' = ChatService.handleOutgoingPeerListMessage n m) ∨
      ∃ m, n' = ChatService.handleOutgoingBlockRangeMessage n m := by
  rw [ChatService.dispatchOutgoing] at h
  split_ifs at h
  · rcases bind_pure_eq_ok.1 h with ⟨_, _, heq⟩
    exact Or.inl heq.symm
  · rcases bind_pure_eq_ok.1 h with ⟨m, _, heq⟩
    exact Or.inr (Or.inl ⟨m, heq.symm⟩)
  · rcases bind_pure_eq_ok.1 h with ⟨m, _, heq⟩
    exact Or.inr (Or.inr (Or.inl ⟨m, heq.symm⟩))
  · rcases bind_pure_eq_ok.1 h with ⟨_, _, heq⟩
    exact Or.inl heq.symm
  · rcases bind_pure_eq_ok.1 h with ⟨m, _, heq⟩
    exact Or.inr (Or.inr (Or.inr (Or.inl ⟨m, heq.symm⟩)))
  · rcases bind_pure_eq_ok.1 h with ⟨m, _, heq⟩
    exact Or.inr (Or.inr (Or.inr (Or.inr ⟨m, heq.symm⟩)))
  · rcases bind_pure_eq_ok.1 h with ⟨_, _, heq⟩
    exact Or.inl heq.symm
  · exact Or.inl (Except.ok.inj h).symm

theorem config_handleOutgoingMessage (n : Node) (response : Json) :
    (ChatService.handleOutgoingMessage n (some response)).config = n.config := by
  rw [ChatService.handleOutgoingMessage]
  cases hdispatch : ChatService.dispatchOutgoing n response with
  | error e => rfl
  | ok n' =>
      rcases dispatchOutgoing_cases hdispatch with
        rfl | ⟨m, rfl⟩ | ⟨m, rfl⟩ | ⟨m, rfl⟩ | ⟨m, rfl⟩
      · rfl
      · rfl
      · rfl
      · rfl
      · rfl

/-! ## Who is answered after an exception -/

/-- The sender of the value can be read. -/
def SenderRead (jMessage : Json) (order : ArgumentOrder := .portFirst) : Prop :=
  ∃ jFrom p, jMessage.field "from" = .ok jFrom ∧ UserPeer.ofJson jFrom order = .ok p

theorem not_std_field (j : Json) (key : String) :
    OnlyThrows (fun e => ¬ e.IsStd) (j.field key) := by
  intro e h
  cases j with
  | object kvs =>
      rcases hlookup : kvs.lookup key with _ | v
      · simp only [Json.field, hlookup] at h
        exact Except.error.inj h ▸ id
      · simp [Json.field, hlookup] at h
  | _ => exact Except.error.inj h ▸ id

theorem not_std_userPeer (j : Json) (order : ArgumentOrder) :
    OnlyThrows (fun e => ¬ e.IsStd) (UserPeer.ofJson j order) := by
  have hstring := fun w : Json => (w.throwsJson_getString).mono fun _ => Exn.IsJson.not_std
  have hport := fun w : Json => (w.throwsJson_getUInt16).mono fun _ => Exn.IsJson.not_std
  have hbase : OnlyThrows (fun e => ¬ e.IsStd) (UserPeer.hostOfJson j order) := by
    cases order with
    | hostFirst =>
        exact (not_std_field j "host").bind fun host _ => (hstring host).bind fun _ _ =>
          (not_std_field j "port").bind fun port _ => (hport port).bind fun _ _ =>
          onlyThrows_pure _
    | portFirst =>
        exact (not_std_field j "port").bind fun port _ => (hport port).bind fun _ _ =>
          (not_std_field j "host").bind fun host _ => (hstring host).bind fun _ _ =>
          onlyThrows_pure _
  exact hbase.bind fun _ _ => (not_std_field j "public_key").bind fun key _ =>
    (hstring key).bind fun _ _ => onlyThrows_pure _

variable {order : ArgumentOrder}

theorem senderRead_of_ok {j : Json} {m : Message} (h : Message.ofJson j order = .ok m) :
    SenderRead j order := by
  rcases Message.fields_of_ofJson h with ⟨_, ⟨jFrom, hfrom, hp⟩, _⟩
  exact ⟨jFrom, m.fromPeer, hfrom, hp⟩

/-- Every constructor starts with the common fields, and these with the id and the sender. -/
theorem senderRead_of_error {α : Type} {j : Json} {f : Message → Except Exn α} {what : String}
    (h : (Message.ofJson j order >>= f) = .error (.std what)) : SenderRead j order := by
  rcases bind_eq_error.1 h with herror | ⟨m, hm, _⟩
  · by_contra hno
    -- up to the sender there are json exceptions only
    have hbase : OnlyThrows (fun e => ¬ e.IsStd) (Message.ofJson j order) := by
      refine (not_std_field j "id").bind fun id _ =>
        ((id.throwsJson_getString).mono fun _ => Exn.IsJson.not_std).bind fun _ _ =>
        (not_std_field j "from").bind fun jFrom hfrom =>
        (not_std_userPeer jFrom order).bind fun p hp => ?_
      exact absurd ⟨jFrom, p, hfrom, hp⟩ hno
    exact hbase _ herror trivial
  · exact senderRead_of_ok hm

theorem senderRead_of_secret {E : Env} {j : Json} {f : SecretMessage → Except Exn TextMessage}
    {what : String} (h : (SecretMessage.ofJson E j order >>= f) = .error (.std what)) :
    SenderRead j order := by
  rcases bind_eq_error.1 h with herror | ⟨base, hbase, _⟩
  · exact senderRead_of_error herror
  · exact senderRead_of_ok (SecretMessage.message_of_ofJson hbase)

theorem senderRead_of_decodeText {E : Env} {privateKey : String} {j : Json} {what : String}
    (h : decodeText E privateKey j order = .error (.std what)) : SenderRead j order :=
  senderRead_of_secret h

theorem senderRead_of_decode {text : Json → Except Exn TextMessage} {j : Json} {what : String}
    (htext : ∀ w, text j = .error (.std w) → SenderRead j order)
    (h : decode text j order = .error (.std what)) : SenderRead j order := by
  rcases bind_eq_error.1 h with herror | ⟨type, _, h⟩
  · exact absurd trivial (not_std_field j "type" _ herror)
  split_ifs at h
  · exact senderRead_of_error (bind_pure_eq_error.1 h)
  · exact htext what (bind_pure_eq_error.1 h)
  · exact senderRead_of_error (bind_pure_eq_error.1 h)
  · exact senderRead_of_error (bind_pure_eq_error.1 h)
  · exact senderRead_of_error (bind_pure_eq_error.1 h)
  · exact senderRead_of_error (bind_pure_eq_error.1 h)
  · cases h

/-- A value that has a field contains its key. -/
theorem contains_of_field {j v : Json} {key : String} (h : j.field key = .ok v) :
    j.contains key = true := by
  cases j with
  | object kvs =>
      rcases hlookup : kvs.lookup key with _ | w
      · simp [Json.field, hlookup] at h
      · simp [Json.contains, hlookup]
  | _ => cases h

/-- With a sender to answer to, the error handler writes a full response. -/
theorem handleIncomingErrorMessage_eq (n : Node) (tick : Tick) {j : Json}
    (h : SenderRead j order) (error : String) :
    ∃ p, ChatService.handleIncomingErrorMessage n tick j error order =
      .ok (ErrorMessageResponse.create tick n.config.me p error).serialize := by
  rcases h with ⟨jFrom, p, hfrom, hp⟩
  refine ⟨p, ?_⟩
  rcases UserPeer.fields_of_ofJson hp with ⟨hhost, ⟨port, hport, _⟩, hkey⟩
  simp [ChatService.handleIncomingErrorMessage, contains_of_field hfrom, hfrom,
    contains_of_field hhost, contains_of_field hport, contains_of_field hkey, hp, bind,
    Except.bind, pure, Except.pure]

end Request

end Chat
end DChat
