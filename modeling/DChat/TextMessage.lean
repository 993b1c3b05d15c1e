import DChat.Message
import DChat.Library.Fallible

/-!
# TextMessage — encrypted and signed messages

The text travels encrypted under the session key of sender and recipient, with a signature of
the plain text.  The constructor from JSON decrypts and checks; `invertFromTo` lets the sender
read its own copy, and `createObjectIfError` turns a failure into the text `CRASHED MESSAGE`.
-/

namespace DChat
namespace Messaging

open Utils Crypto Peer Fallible

/-- `message::SecretMessage`. -/
structure SecretMessage extends Message where
  signature : Bytes
  blockHash : String
  deriving DecidableEq

namespace SecretMessage

/-- `SecretMessage::getBasicSerialization`. -/
def basicSerialization (m : SecretMessage) : Json :=
  m.toMessage.basicSerialization.set "blockHash" (.string m.blockHash)

/-- `SecretMessage(const json&, crypto)`. -/
def ofJson (E : Env) (jData : Json) (order : ArgumentOrder := .portFirst) :
    Except Exn SecretMessage := do
  let base ← Message.ofJson jData order
  let signature ← E.crypto.stringToKey (← (← jData.field "signature").getString)
  let blockHash ← (← jData.field "blockHash").getString
  return { toMessage := base, signature, blockHash }

/-- The common fields of whatever is decoded. -/
theorem message_of_ofJson {E : Env} {j : Json} {order : ArgumentOrder} {m : SecretMessage}
    (h : ofJson E j order = .ok m) : Message.ofJson j order = .ok m.toMessage := by
  refine Message.returns_base (·.toMessage) (fun base => ?_) m h
  repeat refine Returns.bind fun _ _ => ?_
  exact returns_pure rfl

end SecretMessage

/-- `message::TextMessage`; the payload is the plain text. -/
structure TextMessage extends SecretMessage where
  message : Bytes
  deriving DecidableEq

namespace TextMessage

/-- `TextMessage::createSessionKey`. -/
def createSessionKey (E : Env) (privateKey publicKey : String) : Except Exn Bytes := do
  let privateKeyBytes ← E.crypto.stringToKey privateKey
  let publicKeyBytes ← E.crypto.stringToKey publicKey
  E.crypto.createSessionKey privateKeyBytes publicKeyBytes

/-- The body of the `try` block of the constructor. -/
def decrypt (E : Env) (base : SecretMessage) (jData : Json) (privateKey : String)
    (invertFromTo : Bool) : Except Exn Bytes := do
  base.expectType .textMessage
  let publicKey := if invertFromTo then base.toPeer.publicKey else base.fromPeer.publicKey
  let sessionKey ← createSessionKey E privateKey publicKey
  let cipher ← E.crypto.stringToKey (← (← (← jData.field "payload").field "message").getString)
  let plain ← E.crypto.decrypt cipher sessionKey
  let publicKeyBytes ← E.crypto.stringToKey base.fromPeer.publicKey
  if E.crypto.verify plain base.signature publicKeyBytes then
    return plain
  else
    .error (.std "Invalid signature")

/-- The text of a message that could not be read. -/
def crashedMessage : Bytes := bytesOf "CRASHED MESSAGE"

/-- `TextMessage(const json&, privateKey, crypto, invertFromTo, createObjectIfError)`.
`throw error` throws a copy of the base class, which keeps no text of its own. -/
def ofJson (E : Env) (jData : Json) (privateKey : String) (invertFromTo createObjectIfError : Bool)
    (order : ArgumentOrder := .portFirst) : Except Exn TextMessage := do
  let base ← SecretMessage.ofJson E jData order
  match decrypt E base jData privateKey invertFromTo with
  | .ok plain => return { toSecretMessage := base, message := plain }
  | .error (.absentKey key) => .error (.absentKey key)
  | .error _ =>
      if createObjectIfError then
        return { toSecretMessage := base, message := crashedMessage }
      else
        .error (.std "std::exception")

/-- The draws of `encrypt` and `sign` in one `serialize`. -/
structure Draws where
  encrypt : Rand
  sign : Rand

/-- The JSON around a cipher and a signature. -/
def envelope (m : SecretMessage) (cipher signature : String) : Json :=
  (m.basicSerialization.set "payload" (.object [("message", .string cipher)])).set "signature"
    (.string signature)

/-- `TextMessage::serialize`. -/
def serialize (E : Env) (m : TextMessage) (privateKey : String) (draws : Draws) :
    Except Exn Json := do
  let sessionKey ← createSessionKey E privateKey m.toPeer.publicKey
  let encryptedMessage ← E.crypto.encrypt draws.encrypt m.message sessionKey
  let privateKeyBytes ← E.crypto.stringToKey privateKey
  let signatureBytes ← E.crypto.sign draws.sign m.message privateKeyBytes
  return envelope m.toSecretMessage (E.crypto.keyToString encryptedMessage)
    (E.crypto.keyToString signatureBytes)

/-- `TextMessage::setBlockHash`. -/
def setBlockHash (m : TextMessage) (blockHash : String) : TextMessage :=
  { m with blockHash := blockHash }

/-- `TextMessage::create`. -/
def create (tick : Tick) (fromPeer toPeer : UserPeer) (message : Bytes) : TextMessage :=
  { toMessage := Message.create tick .textMessage fromPeer toPeer
    signature := [], blockHash := "0", message }

@[simp] theorem setBlockHash_toMessage (m : TextMessage) (h : String) :
    (m.setBlockHash h).toMessage = m.toMessage := rfl

@[simp] theorem setBlockHash_blockHash (m : TextMessage) (h : String) :
    (m.setBlockHash h).blockHash = h := rfl

@[simp] theorem setBlockHash_message (m : TextMessage) (h : String) :
    (m.setBlockHash h).message = m.message := rfl

/-! ## The JSON of a text message -/

theorem field_type_envelope (m : SecretMessage) (cipher signature : String) :
    (envelope m cipher signature).field "type" = .ok (.string m.type.toString) := rfl

/-- A text message is not taken for a block. -/
theorem contains_envelope (m : SecretMessage) (cipher signature : String) :
    (envelope m cipher signature).contains "previousHash" = false := rfl

theorem message_ofJson_envelope (m : SecretMessage) (cipher signature : String) :
    Message.ofJson (envelope m cipher signature) = .ok m.toMessage :=
  Message.ofJson_of_fields rfl rfl rfl rfl rfl

/-- Whoever reads the message sees the fields it was written with. -/
theorem fields_of_ofJson {E : Env} {m : SecretMessage} {cipher signature privateKey : String}
    {invertFromTo createObjectIfError : Bool} {m' : TextMessage}
    (h : ofJson E (envelope m cipher signature) privateKey invertFromTo createObjectIfError =
      .ok m') : m'.toMessage = m.toMessage ∧ m'.blockHash = m.blockHash := by
  -- the base part is read from fields the envelope writes as they are
  have hbase : SecretMessage.ofJson E (envelope m cipher signature) =
      (E.crypto.stringToKey signature).map fun sig =>
        { toMessage := m.toMessage, signature := sig, blockHash := m.blockHash } := by
    rw [SecretMessage.ofJson, message_ofJson_envelope]
    cases hsig : E.crypto.stringToKey signature <;>
      simp [envelope, SecretMessage.basicSerialization, Message.basicSerialization, Json.set,
        Json.assign, Json.field, List.lookup_cons, hsig, bind, Except.bind, pure, Except.pure,
        Except.map]
  cases hsig : E.crypto.stringToKey signature with
  | error e => simp [ofJson, hbase, hsig, Except.map, bind, Except.bind] at h
  | ok sig =>
      simp only [ofJson, hbase, hsig, Except.map, bind, Except.bind, pure, Except.pure] at h
      split at h
      · exact Except.ok.inj h ▸ ⟨rfl, rfl⟩
      · cases h
      · split at h
        · exact Except.ok.inj h ▸ ⟨rfl, rfl⟩
        · cases h

theorem message_of_ofJson {E : Env} {j : Json} {privateKey : String}
    {invertFromTo createObjectIfError : Bool} {order : ArgumentOrder} {m : TextMessage}
    (h : ofJson E j privateKey invertFromTo createObjectIfError order = .ok m) :
    Message.ofJson j order = .ok m.toMessage := by
  rcases bind_eq_ok.1 h with ⟨base, hbase, h⟩
  have hm : m.toSecretMessage = base := by
    simp only [pure, Except.pure] at h
    split at h
    · exact Except.ok.inj h ▸ rfl
    · cases h
    · split at h
      · exact Except.ok.inj h ▸ rfl
      · cases h
  rw [hm]
  exact SecretMessage.message_of_ofJson hbase

/-- What a text that was read has gone through; its signature is the one of the sender. -/
theorem decrypt_eq_ok {E : Env} {base : SecretMessage} {jData : Json} {privateKey : String}
    {invertFromTo : Bool} {plain : Bytes}
    (h : decrypt E base jData privateKey invertFromTo = .ok plain) :
    ∃ payload text cipher sessionKey publicKey,
      jData.field "payload" = .ok payload ∧ payload.field "message" = .ok (.string text) ∧
      E.crypto.stringToKey text = .ok cipher ∧
      createSessionKey E privateKey (if invertFromTo then base.toPeer.publicKey else
        base.fromPeer.publicKey) = .ok sessionKey ∧
      E.crypto.decrypt cipher sessionKey = .ok plain ∧
      E.crypto.stringToKey base.fromPeer.publicKey = .ok publicKey ∧
      E.crypto.verify plain base.signature publicKey = true := by
  -- the reads of the source in its order, peeled one by one
  rcases bind_eq_ok.1 h with ⟨_, _, h⟩
  rcases bind_eq_ok.1 h with ⟨sessionKey, hsession, h⟩
  rcases bind_eq_ok.1 h with ⟨payload, hpayload, h⟩
  rcases bind_eq_ok.1 h with ⟨w, hw, h⟩
  rcases bind_eq_ok.1 h with ⟨text, htext, h⟩
  rcases bind_eq_ok.1 h with ⟨cipher, hcipher, h⟩
  rcases bind_eq_ok.1 h with ⟨plain', hplain, h⟩
  rcases bind_eq_ok.1 h with ⟨publicKey, hpublic, h⟩
  rw [Json.getString_eq_ok] at htext
  -- the signature is checked last, over the decrypted bytes
  by_cases hverify : E.crypto.verify plain' base.signature publicKey = true
  · rw [if_pos hverify] at h
    have hsame : plain' = plain := Except.ok.inj h
    rw [hsame] at hplain hverify
    exact ⟨payload, text, cipher, sessionKey, publicKey, hpayload, htext ▸ hw, hcipher, hsession,
      hplain, hpublic, hverify⟩
  · rw [if_neg hverify] at h
    cases h

/-- Only the text of a message that could not be read may be without a signature. -/
theorem verified_of_ofJson {E : Env} {j : Json} {privateKey : String}
    {invertFromTo createObjectIfError : Bool} {m : TextMessage}
    (h : ofJson E j privateKey invertFromTo createObjectIfError = .ok m) :
    m.message = crashedMessage ∨ ∃ publicKey,
      E.crypto.stringToKey m.fromPeer.publicKey = .ok publicKey ∧
        E.crypto.verify m.message m.signature publicKey = true := by
  rcases bind_eq_ok.1 h with ⟨base, hbase, h⟩
  rcases hdecrypt : decrypt E base j privateKey invertFromTo with e | plain
  · rw [hdecrypt] at h
    cases e with
    | absentKey key => cases h
    | _ =>
        cases createObjectIfError with
        | true => exact Or.inl (Except.ok.inj h ▸ rfl)
        | false => cases h
  · rw [hdecrypt] at h
    rcases decrypt_eq_ok hdecrypt with ⟨_, _, _, _, publicKey, _, _, _, _, _, hpublic, hverify⟩
    exact Or.inr (Except.ok.inj h ▸ ⟨publicKey, hpublic, hverify⟩)

/-- Who has the session key and the sender's key reads the text. -/
theorem ofJson_envelope {E : Env} {m : SecretMessage} {privateKey : String}
    {invertFromTo createObjectIfError : Bool} {key cipher sig pub plain : Bytes}
    (hlaw : ∀ k, E.crypto.stringToKey (E.crypto.keyToString k) = .ok k)
    (htype : m.type = .textMessage)
    (hkey : createSessionKey E privateKey
      (if invertFromTo then m.toPeer.publicKey else m.fromPeer.publicKey) = .ok key)
    (hplain : E.crypto.decrypt cipher key = .ok plain)
    (hpub : E.crypto.stringToKey m.fromPeer.publicKey = .ok pub)
    (hverify : E.crypto.verify plain sig pub = true) :
    ofJson E (envelope m (E.crypto.keyToString cipher) (E.crypto.keyToString sig)) privateKey
      invertFromTo createObjectIfError =
        .ok { toMessage := m.toMessage, signature := sig, blockHash := m.blockHash,
              message := plain } := by
  have hbase : SecretMessage.ofJson E
      (envelope m (E.crypto.keyToString cipher) (E.crypto.keyToString sig)) =
        .ok { toMessage := m.toMessage, signature := sig, blockHash := m.blockHash } := by
    rw [SecretMessage.ofJson, message_ofJson_envelope]
    simp [envelope, SecretMessage.basicSerialization, Message.basicSerialization, Json.set,
      Json.assign, Json.field, List.lookup_cons, hlaw, bind, Except.bind, pure, Except.pure]
  have hdecrypt : decrypt E { toMessage := m.toMessage, signature := sig, blockHash := m.blockHash }
      (envelope m (E.crypto.keyToString cipher) (E.crypto.keyToString sig)) privateKey
      invertFromTo = .ok plain := by
    simp [decrypt, Message.expectType, htype, hkey, envelope, SecretMessage.basicSerialization,
      Message.basicSerialization, Json.set, Json.assign, Json.field, List.lookup_cons, hlaw, hplain,
      hpub, hverify, bind, Except.bind, pure, Except.pure]
  simp only [ofJson, hbase, hdecrypt, bind, Except.bind, pure, Except.pure]

/-- What a serialized message is made of. -/
theorem serialize_eq_ok {E : Env} {m : TextMessage} {privateKey : String} {draws : Draws} {j : Json}
    (h : serialize E m privateKey draws = .ok j) :
    ∃ key cipher priv sig, createSessionKey E privateKey m.toPeer.publicKey = .ok key ∧
      E.crypto.encrypt draws.encrypt m.message key = .ok cipher ∧
      E.crypto.stringToKey privateKey = .ok priv ∧
      E.crypto.sign draws.sign m.message priv = .ok sig ∧
      j = envelope m.toSecretMessage (E.crypto.keyToString cipher) (E.crypto.keyToString sig) := by
  rcases hkey : createSessionKey E privateKey m.toPeer.publicKey with e | key
  · simp [serialize, hkey, bind, Except.bind] at h
  rcases hcipher : E.crypto.encrypt draws.encrypt m.message key with e | cipher
  · simp [serialize, hkey, hcipher, bind, Except.bind] at h
  rcases hpriv : E.crypto.stringToKey privateKey with e | priv
  · simp [serialize, hkey, hcipher, hpriv, bind, Except.bind] at h
  rcases hsig : E.crypto.sign draws.sign m.message priv with e | sig
  · simp [serialize, hkey, hcipher, hpriv, hsig, bind, Except.bind] at h
  refine ⟨key, cipher, priv, sig, rfl, hcipher, rfl, hsig, ?_⟩
  simpa [serialize, hkey, hcipher, hpriv, hsig, bind, Except.bind, pure, Except.pure,
    eq_comm] using h

end TextMessage

/-- `TextMessageResponse(const json&)`: the one constructor that checks no tag. -/
def TextMessageResponse.ofJson (jData : Json) (order : ArgumentOrder := .portFirst) :
    Except Exn Message :=
  Message.ofJson jData order

end Messaging
end DChat
