import DChat.Requests
import DChat.Wire

/-!
# Access — the keys that a decoder looks up

The const `operator[]` of nlohmann throws on a value that is no object and is undefined on an
object without the key.  A decoder is described here by its reads in their order, each a path of
keys and what the decoder takes the value for.  A read that refuses its value ends the decoder, so
the later ones do not matter: `Safe` says that up to there no key is missing.

Each decoder is shown to reach an undefined access exactly where its list of reads is not safe.
-/

namespace DChat
namespace Json

open Utils Fallible

/-! ## Reads -/

/-- A lookup along a path, and the values with which the decoder goes on. -/
structure Read where
  path : List String
  accepts : Json → Prop

/-- A lookup whose value is not looked at yet. -/
def Read.lookup (path : List String) : Read := ⟨path, fun _ => True⟩

/-- A lookup whose value goes into a conversion that may throw. -/
def Read.convert {α : Type} (path : List String) (get : Json → Except Exn α) : Read :=
  ⟨path, fun v => ∃ a, get v = .ok a⟩

/-- The value at the end of a path. -/
def follow : List String → Json → Except Exn Json
  | [], j => .ok j
  | key :: path, j => do follow path (← j.field key)

/-- Along the path no object lacks the key that is looked up in it. -/
def Present : List String → Json → Prop
  | key :: path, .object kvs => ∃ v, kvs.lookup key = some v ∧ Present path v
  | _, _ => True

/-- The decoder goes on after the read. -/
def Taken (j : Json) (r : Read) : Prop := ∃ v, follow r.path j = .ok v ∧ r.accepts v

/-- Up to the first value that is refused, no key is missing. -/
def Safe (j : Json) : List Read → Prop
  | [] => True
  | r :: rs => Present r.path j ∧ (Taken j r → Safe j rs)

/-- Nothing undefined is reached. -/
abbrev Defined {α : Type} (x : Except Exn α) : Prop := OnlyThrows (fun e => ¬ e.IsAbsentKey) x

theorem follow_append (path : List String) (key : String) (j : Json) :
    follow (path ++ [key]) j = follow path j >>= fun v => v.field key := by
  induction path generalizing j with
  | nil => cases hfield : j.field key <;> simp [follow, hfield, bind, Except.bind]
  | cons k ks ih =>
      cases hfield : j.field k with
      | error e => simp [follow, hfield, bind, Except.bind]
      | ok v =>
          have hv := ih v
          simpa [follow, hfield, bind, Except.bind] using hv

/-- A path is followed without an undefined access when its keys are present. -/
theorem defined_follow (path : List String) (j : Json) :
    Defined (follow path j) ↔ Present path j := by
  induction path generalizing j with
  | nil => simp [follow, Present, onlyThrows_ok]
  | cons key path ih =>
      rw [follow, Defined, onlyThrows_bind]
      cases j with
      | object kvs =>
          rcases hlookup : kvs.lookup key with _ | v
          · simp [field, hlookup, Present, onlyThrows_error, Exn.IsAbsentKey]
          · simp [field, hlookup, Present, onlyThrows_ok, ih]
      | _ => simp [field, Present, onlyThrows_error, Exn.IsAbsentKey]

/-! ## Rules -/

variable {α β : Type} {j v : Json} {path : List String} {rs : List Read}

/-- A read, then the rest: the list of reads grows at its front. -/
theorem defined_step {r : Read} {x : Except Exn α} {f : α → Except Exn β}
    (hx : Defined x ↔ Present r.path j) (htaken : (∃ a, x = .ok a) ↔ Taken j r)
    (hrest : ∀ a, x = .ok a → (Defined (f a) ↔ Safe j rs)) :
    Defined (x >>= f) ↔ Safe j (r :: rs) := by
  rw [Defined, onlyThrows_bind, Safe]
  refine and_congr hx ?_
  constructor
  · intro h hr
    rcases htaken.2 hr with ⟨a, ha⟩
    exact (hrest a ha).1 (h a ha)
  · intro h a ha
    exact (hrest a ha).2 (h (htaken.1 ⟨a, ha⟩))

theorem follow_concat {key : String} {w : Json} (hv : follow path j = .ok v)
    (hw : v.field key = .ok w) : follow (path ++ [key]) j = .ok w := by
  rw [follow_append, hv]
  exact hw

theorem defined_field {key : String} (hv : follow path j = .ok v) :
    Defined (v.field key) ↔ Present (path ++ [key]) j := by
  rw [← defined_follow, follow_append, hv]
  rfl

theorem taken_iff {key : String} {accepts : Json → Prop} (hv : follow path j = .ok v) :
    Taken j ⟨path ++ [key], accepts⟩ ↔ ∃ w, v.field key = .ok w ∧ accepts w := by
  rw [Taken, follow_append, hv]
  rfl

theorem defined_lookup {key : String} {f : Json → Except Exn β} (hv : follow path j = .ok v)
    (hrest : ∀ w, v.field key = .ok w → (Defined (f w) ↔ Safe j rs)) :
    Defined (v.field key >>= f) ↔ Safe j (.lookup (path ++ [key]) :: rs) := by
  refine defined_step (defined_field hv) ?_ hrest
  rw [Read.lookup, taken_iff hv]
  simp

theorem defined_convert {key : String} {get : Json → Except Exn α} {f : α → Except Exn β}
    (hget : ∀ w, Defined (get w)) (hv : follow path j = .ok v)
    (hrest : ∀ w a, v.field key = .ok w → get w = .ok a → (Defined (f a) ↔ Safe j rs)) :
    Defined (v.field key >>= fun w => get w >>= f) ↔
      Safe j (.convert (path ++ [key]) get :: rs) := by
  -- bring lookup and conversion together as the one read the list names
  have hassoc : (v.field key >>= fun w => get w >>= f) = (v.field key >>= get) >>= f := by
    cases v.field key <;> rfl
  rw [hassoc]
  refine defined_step ?_ ?_ ?_
  · rw [Defined, onlyThrows_bind]
    exact (and_iff_left fun w _ => hget w).trans (defined_field hv)
  · rw [Read.convert, taken_iff hv]
    simp only [bind_eq_ok]
    constructor
    · rintro ⟨a, w, hw, ha⟩
      exact ⟨w, hw, a, ha⟩
    · rintro ⟨w, hw, a, ha⟩
      exact ⟨a, w, hw, ha⟩
  · intro a ha
    rcases bind_eq_ok.1 ha with ⟨w, hw, hget'⟩
    exact hrest w a hw hget'

/-- Nothing is read any more. -/
theorem defined_pure (a : α) : Defined (pure a : Except Exn α) ↔ Safe j [] :=
  iff_of_true (onlyThrows_pure a) trivial

/-! ## Conversions -/

theorem defined_getString (w : Json) : Defined w.getString :=
  (throwsJson_getString w).mono fun _ => Exn.IsJson.not_absentKey

theorem defined_getUInt16 (w : Json) : Defined w.getUInt16 :=
  (throwsJson_getUInt16 w).mono fun _ => Exn.IsJson.not_absentKey

theorem defined_getUInt32 (w : Json) : Defined w.getUInt32 :=
  (throwsJson_getUInt32 w).mono fun _ => Exn.IsJson.not_absentKey

theorem defined_getUInt64 (w : Json) : Defined w.getUInt64 :=
  (throwsJson_getUInt64 w).mono fun _ => Exn.IsJson.not_absentKey

end Json

open Utils Crypto Fallible Json

/-! ## Reads of the decoders -/

/-- The reads of the base of `UserPeer(const json&)` on the value at a path. -/
def Peer.UserPeer.hostReads (path : List String) : Peer.ArgumentOrder → List Read
  | .hostFirst => [.convert (path ++ ["host"]) getString, .convert (path ++ ["port"]) getUInt16]
  | .portFirst => [.convert (path ++ ["port"]) getUInt16, .convert (path ++ ["host"]) getString]

/-- The reads of `UserPeer(const json&)` on the value at a path. -/
def Peer.UserPeer.reads (path : List String) (order : Peer.ArgumentOrder) : List Read :=
  Peer.UserPeer.hostReads path order ++ [.convert (path ++ ["public_key"]) getString]

/-- The reads of `Block(const json&)`. -/
def Blockchain.Block.reads : List Read :=
  [.convert ["hash"] getString, .convert ["previousHash"] getString,
    .convert ["payloadHash"] getString, .convert ["authorPubKey"] getString,
    .convert ["signature"] getString, .convert ["timestamp"] getUInt64]

namespace Messaging

/-- `fromStringToMessageType` of the string in a value. -/
def MessageType.ofJson (w : Json) : Except Exn MessageType := do
  MessageType.ofString (← w.getString)

/-- The reads of `Message(const json&)`. -/
def Message.reads (order : Peer.ArgumentOrder) : List Read :=
  .convert ["id"] getString :: .lookup ["from"] :: (Peer.UserPeer.reads ["from"] order ++
    .lookup ["to"] :: (Peer.UserPeer.reads ["to"] order ++
      [.convert ["timestamp"] getUInt64, .convert ["type"] MessageType.ofJson]))

end Messaging

namespace Json

variable {α β : Type} {j v : Json} {path : List String} {rs : List Read}

theorem defined_hostOfJson {order : Peer.ArgumentOrder} {f : Peer.UserHost → Except Exn β}
    (hv : follow path j = .ok v)
    (hrest : ∀ h, Peer.UserPeer.hostOfJson v order = .ok h → (Defined (f h) ↔ Safe j rs)) :
    Defined (Peer.UserPeer.hostOfJson v order >>= f) ↔
      Safe j (Peer.UserPeer.hostReads path order ++ rs) := by
  cases order with
  | hostFirst =>
      have hbind : (Peer.UserPeer.hostOfJson v .hostFirst >>= f) =
          v.field "host" >>= fun w => w.getString >>= fun host =>
          v.field "port" >>= fun w => w.getUInt16 >>= fun port => f { host, port } := by
        simp only [Peer.UserPeer.hostOfJson, bind_assoc, pure_bind]
      rw [hbind]
      refine defined_convert defined_getString hv fun w host hw hhost => ?_
      refine defined_convert defined_getUInt16 hv fun w' port hw' hport => ?_
      refine hrest _ ?_
      simp [Peer.UserPeer.hostOfJson, hw, hhost, hw', hport, bind, Except.bind, pure, Except.pure]
  | portFirst =>
      have hbind : (Peer.UserPeer.hostOfJson v .portFirst >>= f) =
          v.field "port" >>= fun w => w.getUInt16 >>= fun port =>
          v.field "host" >>= fun w => w.getString >>= fun host => f { host, port } := by
        simp only [Peer.UserPeer.hostOfJson, bind_assoc, pure_bind]
      rw [hbind]
      refine defined_convert defined_getUInt16 hv fun w port hw hport => ?_
      refine defined_convert defined_getString hv fun w' host hw' hhost => ?_
      refine hrest _ ?_
      simp [Peer.UserPeer.hostOfJson, hw, hhost, hw', hport, bind, Except.bind, pure, Except.pure]

theorem defined_userPeer {order : Peer.ArgumentOrder} {f : Peer.UserPeer → Except Exn β}
    (hv : follow path j = .ok v)
    (hrest : ∀ p, Peer.UserPeer.ofJson v order = .ok p → (Defined (f p) ↔ Safe j rs)) :
    Defined (Peer.UserPeer.ofJson v order >>= f) ↔
      Safe j (Peer.UserPeer.reads path order ++ rs) := by
  have hbind : (Peer.UserPeer.ofJson v order >>= f) =
      Peer.UserPeer.hostOfJson v order >>= fun base =>
      v.field "public_key" >>= fun w => w.getString >>= fun publicKey =>
        f { toUserHost := base, publicKey } := by
    simp only [Peer.UserPeer.ofJson, bind_assoc, pure_bind]
  rw [hbind, Peer.UserPeer.reads, List.append_assoc]
  refine defined_hostOfJson hv fun base hbase => ?_
  refine defined_convert defined_getString hv fun w publicKey hw hkey => ?_
  refine hrest _ ?_
  simp [Peer.UserPeer.ofJson, hbase, hw, hkey, bind, Except.bind, pure, Except.pure]

theorem defined_block {f : Blockchain.Block → Except Exn β}
    (hrest : ∀ b, Defined (f b)) :
    Defined (Blockchain.Block.ofJson j >>= f) ↔ Safe j Blockchain.Block.reads := by
  have hbind : (Blockchain.Block.ofJson j >>= f) =
      j.field "hash" >>= fun w => w.getString >>= fun hash =>
      j.field "previousHash" >>= fun w => w.getString >>= fun previousHash =>
      j.field "payloadHash" >>= fun w => w.getString >>= fun payloadHash =>
      j.field "authorPubKey" >>= fun w => w.getString >>= fun authorPublicKey =>
      j.field "signature" >>= fun w => w.getString >>= fun signature =>
      j.field "timestamp" >>= fun w => w.getUInt64 >>= fun timestamp =>
        f { hash, previousHash, payloadHash, authorPublicKey, signature, timestamp } := by
    simp only [Blockchain.Block.ofJson, bind_assoc, pure_bind]
  rw [hbind]
  have hroot : follow [] j = .ok j := rfl
  refine defined_convert defined_getString hroot fun _ _ _ _ => ?_
  refine defined_convert defined_getString hroot fun _ _ _ _ => ?_
  refine defined_convert defined_getString hroot fun _ _ _ _ => ?_
  refine defined_convert defined_getString hroot fun _ _ _ _ => ?_
  refine defined_convert defined_getString hroot fun _ _ _ _ => ?_
  refine defined_convert defined_getUInt64 hroot fun _ _ _ _ => ?_
  exact iff_of_true (hrest _) trivial

theorem defined_blockOfJson :
    Defined (Blockchain.Block.ofJson j) ↔ Safe j Blockchain.Block.reads := by
  have hpure : Blockchain.Block.ofJson j >>= pure = Blockchain.Block.ofJson j := bind_pure _
  rw [← hpure]
  exact defined_block fun b => onlyThrows_pure b

theorem defined_typeOfJson (w : Json) : Defined (Messaging.MessageType.ofJson w) := by
  refine OnlyThrows.bind (defined_getString w) fun s _ => ?_
  rw [Messaging.MessageType.ofString]
  cases Messaging.MessageType.all.find? fun t => decide (s = t.toString) with
  | none => exact onlyThrows_error.2 id
  | some t => exact onlyThrows_ok t

theorem defined_message {order : Peer.ArgumentOrder} {f : Messaging.Message → Except Exn β}
    (hrest : ∀ m, Messaging.Message.ofJson j order = .ok m → (Defined (f m) ↔ Safe j rs)) :
    Defined (Messaging.Message.ofJson j order >>= f) ↔
      Safe j (Messaging.Message.reads order ++ rs) := by
  -- the reads of the source in its order, each one a step below
  have hbind : (Messaging.Message.ofJson j order >>= f) =
      j.field "id" >>= fun w => w.getString >>= fun id =>
      j.field "from" >>= fun w => Peer.UserPeer.ofJson w order >>= fun fromPeer =>
      j.field "to" >>= fun w => Peer.UserPeer.ofJson w order >>= fun toPeer =>
      j.field "timestamp" >>= fun w => w.getUInt64 >>= fun timestamp =>
      j.field "type" >>= fun w => Messaging.MessageType.ofJson w >>= fun type =>
        f { id, type, fromPeer, toPeer, timestamp } := by
    simp only [Messaging.Message.ofJson, Messaging.MessageType.ofJson, bind_assoc, pure_bind]
  rw [hbind]
  simp only [Messaging.Message.reads, List.cons_append, List.append_assoc]
  have hroot : follow [] j = .ok j := rfl
  refine defined_convert defined_getString hroot fun w₁ id hw₁ hid => ?_
  refine defined_lookup hroot fun w₂ hw₂ => ?_
  refine defined_userPeer (follow_concat hroot hw₂) fun fromPeer hfrom => ?_
  refine defined_lookup hroot fun w₃ hw₃ => ?_
  refine defined_userPeer (follow_concat hroot hw₃) fun toPeer hto => ?_
  refine defined_convert defined_getUInt64 hroot fun w₄ timestamp hw₄ htimestamp => ?_
  refine defined_convert defined_typeOfJson hroot fun w₅ type hw₅ htype => ?_
  refine hrest _ ?_
  -- every read succeeded, so the message itself was read
  rcases bind_eq_ok.1 htype with ⟨tag, htag, hof⟩
  simp [Messaging.Message.ofJson, hw₁, hid, hw₂, hfrom, hw₃, hto, hw₄, htimestamp, hw₅, htag, hof,
    bind, Except.bind, pure, Except.pure]

end Json

/-! ## Reads of the requests -/

namespace Crypto.ICrypto

/-- What the functions of the library throw are runtime errors. -/
structure ThrowsStd (c : ICrypto) : Prop where
  stringToKey : ∀ s, OnlyThrows Exn.IsStd (c.stringToKey s)
  createSessionKey : ∀ a b, OnlyThrows Exn.IsStd (c.createSessionKey a b)
  decrypt : ∀ cipher key, OnlyThrows Exn.IsStd (c.decrypt cipher key)

end Crypto.ICrypto

/-- A failed division counts as a runtime error. -/
theorem Crypto.XORCrypto.throwsStd : Crypto.XORCrypto.ThrowsStd where
  stringToKey := by
    -- two characters at a time; `stoi` is all that throws
    have hstoi : ∀ s, OnlyThrows Exn.IsStd (stoi16 s) := by
      intro s e h
      simp only [stoi16] at h
      split at h
      · exact Except.error.inj h ▸ trivial
      · cases h
    have hbytes : ∀ data, OnlyThrows Exn.IsStd (fromHexBytes data) := by
      intro data
      induction data using fromHexBytes.induct with
      | case1 a b rest ih =>
          rw [fromHexBytes]
          exact (hstoi [a, b]).bind fun _ _ => ih.bind fun _ _ => onlyThrows_pure _
      | case2 data hshort =>
          rw [fromHexBytes]
          · exact onlyThrows_ok _
          · exact hshort
    exact fun s => hbytes (bytesOf s)
  createSessionKey := by
    intro a b e h
    simp only [Crypto.XORCrypto, createSessionKey] at h
    split_ifs at h
    exact Except.error.inj h ▸ trivial
  decrypt := fun _ _ => onlyThrows_ok _

theorem Exn.IsStd.not_absentKey {e : Exn} (h : e.IsStd) : ¬ e.IsAbsentKey := by
  cases e with
  | std what => exact id
  | absentKey key => exact absurd h id
  | json what => exact absurd h id

namespace Messaging

open Peer Blockchain

def ConnectionMessage.reads (order : ArgumentOrder) : List Read :=
  Message.reads order ++ [.lookup ["payload"], .convert ["payload", "lastBlockHash"] getString]

def PeerListMessage.reads (order : ArgumentOrder) : List Read :=
  Message.reads order ++ [.lookup ["payload"], .convert ["payload", "start"] getUInt32,
    .lookup ["payload"], .convert ["payload", "count"] getUInt32]

def BlockRangeMessage.reads (order : ArgumentOrder) : List Read :=
  Message.reads order ++ [.lookup ["payload"], .convert ["payload", "start"] getUInt64,
    .lookup ["payload"], .convert ["payload", "count"] getUInt32,
    .lookup ["payload"], .convert ["payload", "lastHash"] getString]

def DisconnectionMessage.reads (order : ArgumentOrder) : List Read := Message.reads order ++ []

def BlockchainErrorMessageResponse.reads (order : ArgumentOrder) : List Read :=
  Message.reads order ++ [.lookup ["payload"], .convert ["payload", "error"] getString,
    .lookup ["payload"], .convert ["payload", "blockHash"] getString,
    .lookup ["payload"], .convert ["payload", "messageId"] getString]

/-- The key bytes of the string in a value. -/
def keyOfJson (E : Env) (w : Json) : Except Exn Bytes := do
  E.crypto.stringToKey (← w.getString)

/-- The session key with the owner of the public key in a value. -/
def sessionKeyOfJson (E : Env) (privateKey : String) (w : Json) : Except Exn Bytes := do
  TextMessage.createSessionKey E privateKey (← w.getString)

def SecretMessage.reads (E : Env) (order : ArgumentOrder) : List Read :=
  Message.reads order ++ [.convert ["signature"] (keyOfJson E), .convert ["blockHash"] getString]

/-- The cipher is looked up after the session key was made from the key of the sender. -/
def TextMessage.reads (E : Env) (privateKey : String) (order : ArgumentOrder) : List Read :=
  SecretMessage.reads E order ++ [.convert ["from", "public_key"] (sessionKeyOfJson E privateKey),
    .lookup ["payload"], .convert ["payload", "message"] getString]

/-! ## The decoders of the requests -/

variable {β : Type} {j : Json} {rs : List Read} {order : ArgumentOrder}

theorem defined_payload {α : Type} {key : String} {get : Json → Except Exn α}
    {f : α → Except Exn β} (hget : ∀ w, Defined (get w))
    (hrest : ∀ a, Defined (f a) ↔ Safe j rs) :
    Defined (j.field "payload" >>= fun p => p.field key >>= fun w => get w >>= f) ↔
      Safe j (.lookup ["payload"] :: .convert ["payload", key] get :: rs) := by
  have hroot : follow [] j = .ok j := rfl
  refine defined_lookup hroot fun p hp => ?_
  exact defined_convert hget (follow_concat hroot hp) fun _ a _ _ => hrest a

/-- The tag that the dispatcher saw is the one that the constructor checks. -/
theorem expectType_of_tag {m : Message} {type : Json} {t : MessageType}
    (hm : Message.ofJson j order = .ok m) (htype : j.field "type" = .ok type)
    (ht : type.isString t.toString = true) : m.expectType t = .ok () := by
  rcases Message.fields_of_ofJson hm with ⟨_, _, _, _, tag, htag, hof⟩
  rw [htag] at htype
  rw [← Except.ok.inj htype] at ht
  have hsame : tag = t.toString := by simpa [isString] using ht
  have htypes : m.type = t := by simpa [hsame, eq_comm] using hof
  exact if_pos htypes

theorem defined_connection {type : Json} (htype : j.field "type" = .ok type)
    (ht : type.isString MessageType.connect.toString = true) :
    Defined (ConnectionMessage.ofJson j order) ↔ Safe j (ConnectionMessage.reads order) := by
  refine defined_message fun m hm => ?_
  rw [expectType_of_tag hm htype ht]
  exact defined_payload defined_getString fun _ => defined_pure _

theorem defined_peerList {type : Json} (htype : j.field "type" = .ok type)
    (ht : type.isString MessageType.peerList.toString = true) :
    Defined (PeerListMessage.ofJson j order) ↔ Safe j (PeerListMessage.reads order) := by
  refine defined_message fun m hm => ?_
  rw [expectType_of_tag hm htype ht]
  refine defined_payload defined_getUInt32 fun _ => ?_
  exact defined_payload defined_getUInt32 fun _ => defined_pure _

theorem defined_blockRange {type : Json} (htype : j.field "type" = .ok type)
    (ht : type.isString MessageType.blockRangeRequest.toString = true) :
    Defined (BlockRangeMessage.ofJson j order) ↔ Safe j (BlockRangeMessage.reads order) := by
  refine defined_message fun m hm => ?_
  rw [expectType_of_tag hm htype ht]
  refine defined_payload defined_getUInt64 fun _ => ?_
  refine defined_payload defined_getUInt32 fun _ => ?_
  exact defined_payload defined_getString fun _ => defined_pure _

theorem defined_disconnection {type : Json} (htype : j.field "type" = .ok type)
    (ht : type.isString MessageType.disconnect.toString = true) :
    Defined (DisconnectionMessage.ofJson j order) ↔ Safe j (DisconnectionMessage.reads order) := by
  refine defined_message fun m hm => ?_
  rw [expectType_of_tag hm htype ht]
  exact defined_pure _

theorem defined_blockchainError {type : Json} (htype : j.field "type" = .ok type)
    (ht : type.isString MessageType.blockchainErrorResponse.toString = true) :
    Defined (BlockchainErrorMessageResponse.ofJson j order) ↔
      Safe j (BlockchainErrorMessageResponse.reads order) := by
  refine defined_message fun m hm => ?_
  rw [expectType_of_tag hm htype ht]
  refine defined_payload defined_getString fun _ => ?_
  refine defined_payload defined_getString fun _ => ?_
  exact defined_payload defined_getString fun _ => defined_pure _

theorem defined_stringToKey {E : Env} (hcrypto : E.crypto.ThrowsStd) (s : String) :
    Defined (E.crypto.stringToKey s) :=
  (hcrypto.stringToKey s).mono fun _ => Exn.IsStd.not_absentKey

theorem defined_createSessionKey {E : Env} (hcrypto : E.crypto.ThrowsStd) (privateKey s : String) :
    Defined (TextMessage.createSessionKey E privateKey s) :=
  (defined_stringToKey hcrypto privateKey).bind fun a _ =>
    (defined_stringToKey hcrypto s).bind fun b _ =>
      (hcrypto.createSessionKey a b).mono fun _ => Exn.IsStd.not_absentKey

theorem defined_secret {E : Env} (hcrypto : E.crypto.ThrowsStd)
    {f : SecretMessage → Except Exn β}
    (hrest : ∀ base, Message.ofJson j order = .ok base.toMessage →
      (Defined (f base) ↔ Safe j rs)) :
    Defined (SecretMessage.ofJson E j order >>= f) ↔
      Safe j (SecretMessage.reads E order ++ rs) := by
  have hbind : (SecretMessage.ofJson E j order >>= f) = Message.ofJson j order >>= fun base =>
      j.field "signature" >>= fun w => keyOfJson E w >>= fun signature =>
      j.field "blockHash" >>= fun w => w.getString >>= fun blockHash =>
        f { toMessage := base, signature, blockHash } := by
    simp only [SecretMessage.ofJson, keyOfJson, bind_assoc, pure_bind]
  have hkey : ∀ w, Defined (keyOfJson E w) := fun w =>
    (defined_getString w).bind fun s _ => defined_stringToKey hcrypto s
  have hroot : follow [] j = .ok j := rfl
  rw [hbind, SecretMessage.reads, List.append_assoc]
  refine defined_message fun m hm => ?_
  refine defined_convert hkey hroot fun _ signature _ _ => ?_
  exact defined_convert defined_getString hroot fun _ blockHash _ _ => hrest _ hm

/-- The key of the sender is where the session key is made from. -/
theorem follow_publicKey {m : Message} (hm : Message.ofJson j order = .ok m) :
    follow ["from", "public_key"] j = .ok (.string m.fromPeer.publicKey) := by
  rcases Message.fields_of_ofJson hm with ⟨_, ⟨jFrom, hfrom, hp⟩, _⟩
  rcases UserPeer.fields_of_ofJson hp with ⟨_, _, hkey⟩
  have hroot : follow [] j = .ok j := rfl
  exact follow_concat (follow_concat hroot hfrom) hkey

theorem defined_decrypt {E : Env} (hcrypto : E.crypto.ThrowsStd) {base : SecretMessage}
    {privateKey : String} {type : Json} (hm : Message.ofJson j order = .ok base.toMessage)
    (htype : j.field "type" = .ok type)
    (ht : type.isString MessageType.textMessage.toString = true) :
    Defined (TextMessage.decrypt E base j privateKey false) ↔
      Safe j [.convert ["from", "public_key"] (sessionKeyOfJson E privateKey),
        .lookup ["payload"], .convert ["payload", "message"] getString] := by
  have hsender := follow_publicKey hm
  have hunfold : TextMessage.decrypt E base j privateKey false =
      TextMessage.createSessionKey E privateKey base.fromPeer.publicKey >>= fun sessionKey =>
      j.field "payload" >>= fun p => p.field "message" >>= fun w => w.getString >>= fun s =>
      E.crypto.stringToKey s >>= fun cipher => E.crypto.decrypt cipher sessionKey >>= fun plain =>
      E.crypto.stringToKey base.fromPeer.publicKey >>= fun publicKeyBytes =>
        if E.crypto.verify plain base.signature publicKeyBytes then pure plain
        else .error (.std "Invalid signature") := by
    rw [TextMessage.decrypt, expectType_of_tag hm htype ht]
    rfl
  rw [hunfold]
  refine defined_step ?_ ?_ fun sessionKey _ => ?_
  · refine iff_of_true (defined_createSessionKey hcrypto _ _) ((defined_follow _ _).1 ?_)
    exact hsender ▸ onlyThrows_ok _
  · simp [Taken, Read.convert, hsender, sessionKeyOfJson, bind, Except.bind]
  · refine defined_payload defined_getString fun s => iff_of_true ?_ trivial
    -- nothing is looked up any more
    refine (defined_stringToKey hcrypto s).bind fun cipher _ =>
      ((hcrypto.decrypt cipher sessionKey).mono fun _ => Exn.IsStd.not_absentKey).bind
        fun plain _ =>
      (defined_stringToKey hcrypto _).bind fun publicKeyBytes _ => ?_
    split_ifs
    · exact onlyThrows_pure plain
    · exact onlyThrows_error.2 id

theorem defined_text {E : Env} (hcrypto : E.crypto.ThrowsStd) {privateKey : String} {type : Json}
    (htype : j.field "type" = .ok type)
    (ht : type.isString MessageType.textMessage.toString = true) :
    Defined (TextMessage.ofJson E j privateKey false false order) ↔
      Safe j (TextMessage.reads E privateKey order) := by
  refine defined_secret hcrypto fun base hm => ?_
  rw [← defined_decrypt hcrypto hm htype ht]
  -- the `catch` block lets an undefined access through and nothing else
  rcases TextMessage.decrypt E base j privateKey false with e | plain
  · cases e with
    | absentKey key => simp [onlyThrows_error, Exn.IsAbsentKey]
    | json what => simp [onlyThrows_error, Exn.IsAbsentKey]
    | std what => simp [onlyThrows_error, Exn.IsAbsentKey]
  · exact iff_of_true (onlyThrows_pure _) (onlyThrows_ok _)

end Messaging

/-! ## Every value that is received -/

namespace Chat.ChatService

open Peer Messaging Blockchain BlockchainService Chat AtomicProg Network Request

/-- The reads that follow the type tag. -/
def readsOfType (E : Env) (privateKey : String) (order : ArgumentOrder) (type : Json) :
    List Read :=
  if type.isString MessageType.connect.toString then ConnectionMessage.reads order
  else if type.isString MessageType.textMessage.toString then TextMessage.reads E privateKey order
  else if type.isString MessageType.peerList.toString then PeerListMessage.reads order
  else if type.isString MessageType.blockRangeRequest.toString then BlockRangeMessage.reads order
  else if type.isString MessageType.disconnect.toString then DisconnectionMessage.reads order
  else if type.isString MessageType.blockchainErrorResponse.toString then
    BlockchainErrorMessageResponse.reads order
  else []

/-- The reads of `handleIncomingMessage`. -/
def requestReads (E : Env) (privateKey : String) (order : ArgumentOrder) (j : Json) : List Read :=
  .lookup ["type"] :: match j.field "type" with
    | .ok type => readsOfType E privateKey order type
    | .error _ => []

/-- The reads on a value that `TCPServer` received. -/
def reads (E : Env) (privateKey : String) (order : ArgumentOrder) (j : Json) : List Read :=
  if j.contains "previousHash" && j.contains "payloadHash" then Block.reads
  else requestReads E privateKey order j

variable (order : ArgumentOrder)

theorem defined_decode {E : Env} (hcrypto : E.crypto.ThrowsStd) (privateKey : String) (j : Json) :
    Defined (decode (decodeText E privateKey · order) j order) ↔
      Safe j (requestReads E privateKey order j) := by
  have hroot : follow [] j = .ok j := rfl
  refine defined_lookup hroot fun type htype => ?_
  simp only [htype]
  rw [readsOfType]
  split_ifs with h₁ h₂ h₃ h₄ h₅ h₆
  · exact onlyThrows_bind_pure.trans (defined_connection htype h₁)
  · exact onlyThrows_bind_pure.trans (defined_text hcrypto htype h₂)
  · exact onlyThrows_bind_pure.trans (defined_peerList htype h₃)
  · exact onlyThrows_bind_pure.trans (defined_blockRange htype h₄)
  · exact onlyThrows_bind_pure.trans (defined_disconnection htype h₅)
  · exact onlyThrows_bind_pure.trans (defined_blockchainError htype h₆)
  · exact defined_pure _

/-- The error path looks before it reads. -/
theorem defined_handleIncomingErrorMessage (n : Node) (tick : Tick) (j : Json) (error : String) :
    Defined (handleIncomingErrorMessage n tick j error order) := by
  -- `contains` is the guard the source puts in front of each `[]`
  have hfield : ∀ {w : Json} {key : String}, w.contains key = true → ∃ v, w.field key = .ok v := by
    intro w key h
    cases w with
    | object kvs =>
        rcases hlookup : kvs.lookup key with _ | v
        · simp [Json.contains, hlookup] at h
        · exact ⟨v, by simp [Json.field, hlookup]⟩
    | _ => cases h
  have hliteral : Defined (pure (errorLiteral "Invalid request") : Except Exn Json) :=
    onlyThrows_pure _
  rw [handleIncomingErrorMessage]
  split_ifs with hfrom
  · rcases hfield hfrom with ⟨jFrom, hjFrom⟩
    simp only [hjFrom, bind, Except.bind]
    split_ifs with hkeys
    · simp only [Bool.and_eq_true] at hkeys
      rcases hfield hkeys.1.1 with ⟨host, hhost⟩
      rcases hfield hkeys.1.2 with ⟨port, hport⟩
      rcases hfield hkeys.2 with ⟨key, hkey⟩
      -- the keys are there, so only a conversion can throw, and it throws json
      have hbase : Defined (UserPeer.hostOfJson jFrom order) := by
        cases order with
        | hostFirst =>
            rw [UserPeer.hostOfJson, hhost, hport]
            exact (defined_getString host).bind fun _ _ => (defined_getUInt16 port).bind fun _ _ =>
              onlyThrows_pure _
        | portFirst =>
            rw [UserPeer.hostOfJson, hport, hhost]
            exact (defined_getUInt16 port).bind fun _ _ => (defined_getString host).bind fun _ _ =>
              onlyThrows_pure _
      have hpeer : Defined (UserPeer.ofJson jFrom order) := by
        rw [UserPeer.ofJson, hkey]
        exact hbase.bind fun _ _ => (defined_getString key).bind fun _ _ => onlyThrows_pure _
      exact hpeer.bind fun p _ => onlyThrows_pure _
    · exact hliteral
  · exact hliteral

/-- Handling the value makes no undefined access, and what is refused is answered with an error. -/
def HandledDefined (E : Env) (n : Node) (visit : Visit) (order : ArgumentOrder) (j : Json) : Prop :=
  if j.contains "previousHash" && j.contains "payloadHash" then
    Defined (Block.ofJson j) ∧ ∀ e, Block.ofJson j = .error e →
      ∃ response, (TCPServer.serve E n visit j order).2 = some response ∧
        response.field "type" = .ok (.string MessageType.blockchainErrorResponse.toString)
  else
    Defined (dispatchIncoming E n visit.tick j order) ∧
      (∀ what, Defined (handleIncomingErrorMessage n visit.tick j what order)) ∧
      ∀ e, dispatchIncoming E n visit.tick j order = .error e →
        ∃ response, (TCPServer.serve E n visit j order).2 = some response ∧
          response.field "type" = .ok (.string MessageType.errorResponse.toString)

/-- What `handleIncomingMessage` does not dispatch is answered with an error. -/
theorem error_of_dispatch {E : Env} {n : Node} {tick : Tick} {j : Json} {e : Exn}
    (h : dispatchIncoming E n tick j order = .error e) :
    ∃ response, (handleIncomingMessage E n tick j order).2 = .ok response ∧
      response.field "type" = .ok (.string MessageType.errorResponse.toString) := by
  cases e with
  | absentKey key =>
      rw [handleIncomingMessage, h]
      exact ⟨_, rfl, rfl⟩
  | json what =>
      rw [handleIncomingMessage, h]
      exact ⟨_, rfl, rfl⟩
  -- the error answer reads the sender again, which the decoder already did
  | std what =>
      have hdecode : decode (decodeText E n.config.privateKey · order) j order =
          .error (.std what) := by
        rw [dispatchIncoming_eq] at h
        cases hd : decode (decodeText E n.config.privateKey · order) j order with
        | error e => simpa [hd, Except.map] using h
        | ok r => simp [hd, Except.map] at h
      rcases handleIncomingErrorMessage_eq n tick
        (senderRead_of_decode (fun _ => senderRead_of_decodeText) hdecode) what with ⟨p, herror⟩
      refine ⟨_, ?_, handleIncomingErrorMessage_type herror⟩
      rw [handleIncomingMessage, h]
      exact herror

/-- No undefined access is reached exactly where every key is there, up to the first value that is
refused. -/
theorem handled_defined_iff {E : Env} (hcrypto : E.crypto.ThrowsStd) (n : Node) (visit : Visit)
    (j : Json) :
    HandledDefined E n visit order j ↔ Safe j (reads E n.config.privateKey order j) := by
  rw [HandledDefined, reads]
  split_ifs with hkind
  · -- a block: every read belongs to `Block.ofJson`, which is inside a catch
    rw [← defined_blockOfJson]
    refine and_iff_left fun e he => ⟨refusal n.config.me visit.tick e.what "-1", ?_, rfl⟩
    simp [TCPServer.serve_of_block n visit hkind order, onIncomingBlock, he]
  · -- a message: the handlers read nothing more of the Json than the decoder
    have hmessage := TCPServer.serve_of_message (E := E) n visit (Bool.eq_false_iff.2 hkind) order
    have hdispatch : Defined (dispatchIncoming E n visit.tick j order) ↔
        Defined (decode (decodeText E n.config.privateKey · order) j order) := by
      rw [dispatchIncoming_eq]
      cases decode (decodeText E n.config.privateKey · order) j order with
      | ok r => exact iff_of_true (onlyThrows_ok _) (onlyThrows_ok _)
      | error e => simp [Except.map, onlyThrows_error]
    rw [hdispatch, defined_decode order hcrypto]
    refine and_iff_left
      ⟨fun what => defined_handleIncomingErrorMessage order n visit.tick j what, ?_⟩
    intro e he
    rcases error_of_dispatch order he with ⟨response, hresponse, htype⟩
    exact ⟨response, by rw [hmessage, hresponse]; rfl, htype⟩

/-- A connection as another node writes it. -/
def connection : ConnectionMessage :=
  .create (FirstBlock.tick "1") FirstBlock.rivalConfig.me FirstBlock.config.me "0"

/-- A connection whose sender has a number for a host, and no port. -/
def connectionWithoutPort : Json :=
  .object [("type", .string "CONNECT"), ("id", .string "1"),
    ("from", .object [("host", .unsigned 5), ("public_key", .string "k")])]

def asked : Node := SmallNet.node FirstBlock.config [] KeyedTable.Table.empty

theorem safe_connection (order : ArgumentOrder) :
    Safe connection.serialize
      (reads testEnv asked.config.privateKey order connection.serialize) := by
  have hkind : reads testEnv asked.config.privateKey order connection.serialize =
      requestReads testEnv asked.config.privateKey order connection.serialize := rfl
  rw [hkind, ← defined_decode order XORCrypto.throwsStd, decode_connection rfl]
  exact onlyThrows_ok _

/-- A full message is handled whatever the compiler does.  The other one is refused at its host by
one that looks there first, and makes one that starts with the port look for what is not there. -/
theorem handled_defined_orders :
    (HandledDefined testEnv asked SmallNet.visit .hostFirst connection.serialize ∧
        HandledDefined testEnv asked SmallNet.visit .portFirst connection.serialize) ∧
      HandledDefined testEnv asked SmallNet.visit .hostFirst connectionWithoutPort ∧
      ¬ HandledDefined testEnv asked SmallNet.visit .portFirst connectionWithoutPort := by
  refine ⟨⟨(handled_defined_iff .hostFirst XORCrypto.throwsStd _ _ _).2 (safe_connection _),
    (handled_defined_iff .portFirst XORCrypto.throwsStd _ _ _).2 (safe_connection _)⟩, ?_, ?_⟩
  · refine (handled_defined_iff .hostFirst XORCrypto.throwsStd _ _ _).2 ?_
    refine ⟨⟨_, rfl, trivial⟩, fun _ => ⟨⟨_, rfl, trivial⟩, fun _ =>
      ⟨⟨_, rfl, trivial⟩, fun _ => ?_⟩⟩⟩
    refine ⟨⟨_, rfl, _, rfl, trivial⟩, ?_⟩
    -- a number is no string
    rintro ⟨v, hv, s, hs⟩
    cases hv
    cases hs
  · intro h
    have hdispatch : dispatchIncoming testEnv asked SmallNet.visit.tick connectionWithoutPort
        .portFirst = .error (.absentKey "port") := rfl
    exact h.1 _ hdispatch trivial

/-- The text message without a sender from the tests. -/
theorem missing_sender_undefined :
    ¬ HandledDefined testEnv asked SmallNet.visit .hostFirst
        (.object [("type", .string "TEXT_MESSAGE"), ("id", .string "1")]) ∧
      ¬ HandledDefined testEnv asked SmallNet.visit .portFirst
        (.object [("type", .string "TEXT_MESSAGE"), ("id", .string "1")]) := by
  have hdispatch : ∀ order, dispatchIncoming testEnv asked SmallNet.visit.tick
      (.object [("type", .string "TEXT_MESSAGE"), ("id", .string "1")]) order =
        .error (.absentKey "from") := fun _ => rfl
  exact ⟨fun h => h.1 _ (hdispatch _) trivial, fun h => h.1 _ (hdispatch _) trivial⟩

end Chat.ChatService
end DChat
