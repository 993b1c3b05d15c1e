import DChat.Agreement

/-!
# Delivery — what a committed send says about the recipient

The sender stores the message and its block whatever the recipient answered.  Exactly when the
recipient got the whole text, could decode it and had room for its id does a committed send mean
that the message was delivered.
-/

namespace DChat
namespace Network

open Utils Crypto Peer Messaging Blockchain Chat KeyedTable

variable {E : Env}

namespace TCPClient

/-- The store has a message with this id, this sender and this text, as its owner reads it. -/
def Holds (E : Env) (privateKey : String) (t : MessageTable) (id fromPublicKey : String)
    (text : Bytes) : Prop :=
  ∃ r ∈ t.data, r.messageId = .bind id ∧
    ∃ m, TextMessage.ofJson E r.messageJson privateKey false false = .ok m ∧
      m.id = id ∧ m.fromPeer.publicKey = fromPublicKey ∧ m.message = text

/-- After an insertion the store has what it had, and the new row if the id was new. -/
theorem holds_insert {privateKey id fromPublicKey : String} {t : MessageTable} {row : MessageRow}
    {text : Bytes} :
    Holds E privateKey (t.insert row).1 id fromPublicKey text ↔
      Holds E privateKey t id fromPublicKey text ∨ (t.Fresh row ∧ row.messageId = .bind id ∧
        ∃ m, TextMessage.ofJson E row.messageJson privateKey false false = .ok m ∧
          m.id = id ∧ m.fromPeer.publicKey = fromPublicKey ∧ m.message = text) := by
  -- a row whose id is taken is not stored
  by_cases hfresh : t.Fresh row
  · rw [Holds, Table.data_insert_of_fresh hfresh]
    constructor
    · rintro ⟨r, hr, hheld⟩
      rcases List.mem_append.1 hr with hold | hnew
      · exact Or.inl ⟨r, hold, hheld⟩
      · rw [List.mem_singleton.1 hnew] at hheld
        exact Or.inr ⟨hfresh, hheld⟩
    · rintro (⟨r, hr, hheld⟩ | ⟨_, hheld⟩)
      · exact ⟨r, List.mem_append_left _ hr, hheld⟩
      · exact ⟨row, List.mem_append_right _ (List.mem_singleton.2 rfl), hheld⟩
  · rw [Table.insert_of_not_fresh hfresh]
    constructor
    · exact Or.inl
    · rintro (hheld | ⟨hno, _⟩)
      · exact hheld
      · exact absurd hno hfresh

/-- A recipient that decodes the message sees its id and sender. -/
theorem decoded_storedRow {out : Outside} {message : TextMessage} {sender : Node} {block : Block}
    {jMessage : Json} (privateKey : String)
    (hprepare : prepare E out sender message = .ok (block, jMessage)) (m : TextMessage)
    (hm : TextMessage.ofJson E jMessage privateKey false false = .ok m) :
    m.id = message.id ∧ m.fromPeer.publicKey = message.fromPeer.publicKey := by
  rcases prepare_eq_ok.1 hprepare with ⟨_, hjson, _⟩
  rcases TextMessage.serialize_eq_ok hjson with ⟨_, _, _, _, _, _, _, _, rfl⟩
  rcases TextMessage.fields_of_ofJson hm with ⟨hfields, _⟩
  rw [hfields]
  exact ⟨rfl, rfl⟩

/-- A send that ends with the block stored has delivered its message if and only if the recipient
got the whole text and decoded it, and either read the text that was sent under a new id, or
had the message already. -/
theorem committed_delivered_iff {out : Outside} {own : UserHost} {message : TextMessage}
    {net : Nodes} {sender r : Node} {block : Block} {jMessage : Json} {answer : Option Json}
    (htype : message.type = .textMessage) (hown : net own = some sender)
    (hto : net message.toPeer.toUserHost = some r)
    (hprepare : prepare E out sender message = .ok (block, jMessage))
    (hstored : (sendSecretMessage E out own message net).2 = .stored block answer) :
    ((∃ a, answer = some a ∧ ChatService.IsTextResponse a) ∧
        ∃ r', (sendSecretMessage E out own message net).1 message.toPeer.toUserHost = some r' ∧
          Holds E r'.config.privateKey r'.messages message.id message.fromPeer.publicKey
            message.message) ↔
      jMessage.dumpLen ≤ bufferSize - 1 ∧
        ∃ m, TextMessage.ofJson E jMessage r.config.privateKey false false = .ok m ∧
          ((m.message = message.message ∧ ∀ x ∈ r.messages.data, x.messageId ≠ .bind message.id) ∨
            Holds E r.config.privateKey r.messages message.id message.fromPeer.publicKey
              message.message) := by
  rcases stored_spec htype hstored with ⟨sender', jMessage', hown', hprepare', hanswer, hmoved⟩
  rcases Option.some.inj (hown.symm.trans hown') with rfl
  rcases Except.ok.inj (hprepare.symm.trans hprepare') with ⟨rfl, rfl⟩
  rcases hmoved.of_some hto with ⟨r', hr', hsent⟩
  have hkey : r'.config = r.config := by rw [hsent.same]
  have hrow := decoded_storedRow (r.config.privateKey) hprepare
  rw [hanswer]
  constructor
  · rintro ⟨⟨r₁, hr₁, htakes⟩, r₂, hr₂, hheld⟩
    rcases Option.some.inj (hto.symm.trans hr₁) with rfl
    rcases Option.some.inj (hr'.symm.trans hr₂) with rfl
    rw [hkey, hsent.stores (Or.inr ⟨rfl, htakes⟩), holds_insert] at hheld
    rcases htakes with ⟨hlen, m, hm⟩
    refine ⟨hlen, m, hm, ?_⟩
    -- the message was there before, or the new row holds it
    rcases hheld with hold | ⟨hfresh, _, m', hm', _, _, htext⟩
    · exact Or.inr hold
    · rcases Except.ok.inj (hm.symm.trans hm') with rfl
      exact Or.inl ⟨htext, hfresh⟩
  · rintro ⟨hlen, m, hm, hhas⟩
    have htakes : Takes E r jMessage := ⟨hlen, m, hm⟩
    refine ⟨⟨r, hto, htakes⟩, r', hr', ?_⟩
    rw [hkey, hsent.stores (Or.inr ⟨rfl, htakes⟩), holds_insert]
    rcases hhas with ⟨htext, hfresh⟩ | hold
    · rcases hrow m hm with ⟨hid, hfrom⟩
      exact Or.inr ⟨hfresh, rfl, m, hm, hid, hfrom, htext⟩
    · exact Or.inl hold

end TCPClient

namespace SmallNet

open BlockchainService TCPClient

/-- A text under the right key is delivered. -/
theorem committed_delivered_iff_pair :
    ∃ r', (sendSecretMessage testEnv outside FirstBlock.config.me.toUserHost
        (send [104, 105]).message pair).1 (send [104, 105]).message.toPeer.toUserHost = some r' ∧
      Holds testEnv r'.config.privateKey r'.messages (send [104, 105]).message.id
        (send [104, 105]).message.fromPeer.publicKey (send [104, 105]).message.message := by
  rcases stored_send [104, 105] (by decide) with
    ⟨block, jMessage, answer, hprepare, hlen, hstored, _⟩
  rcases TextMessage.ofJson_serialize XORCrypto.signatureLaws XORCrypto.sessionLaws
    FirstBlock.keyPairMatches FirstBlock.rival_keyPairMatches
    (m := (send [104, 105]).message.setBlockHash block.hash) rfl rfl rfl
    (prepare_eq_ok.1 hprepare).2.1 with ⟨sig, hread⟩
  have hsmall : jMessage.dumpLen ≤ bufferSize - 1 := by
    rw [hlen]
    decide
  have hto : pair (send [104, 105]).message.toPeer.toUserHost =
      some (node FirstBlock.rivalConfig [FirstBlock.config.me] Table.empty) := pair_rivalConfig
  have htype : (send [104, 105]).message.type = .textMessage := rfl
  have hiff := committed_delivered_iff htype pair_config hto hprepare hstored
  have hfresh : ∀ x ∈
      (node FirstBlock.rivalConfig [FirstBlock.config.me] Table.empty).messages.data,
      x.messageId ≠ .bind (send [104, 105]).message.id := by
    intro x hx
    cases hx
  exact (hiff.2 ⟨hsmall, _, (hread false).1, Or.inl ⟨rfl, hfresh⟩⟩).2

/-- The recipient under the keys it had before it got new ones. -/
def oldConfig : Config :=
  { FirstBlock.rivalConfig with
    publicKey := testEnv.crypto.keyToString (testEnv.crypto.generateKeyPair 11).publicKey
    privateKey := testEnv.crypto.keyToString (testEnv.crypto.generateKeyPair 11).privateKey }

/-- The sender still knows the recipient under the old key. -/
def staleSend : Send := { send [104, 105] with recipient := oldConfig }

/-- The recipient cannot decode a text for its old key, and the sender commits it all the same. -/
theorem undelivered_message_committed :
    ∃ answer sender' r',
      (sendSecretMessage testEnv outside FirstBlock.config.me.toUserHost staleSend.message pair).2 =
        .stored FirstBlock.block answer ∧
      (sendSecretMessage testEnv outside FirstBlock.config.me.toUserHost staleSend.message pair).1
        FirstBlock.config.me.toUserHost = some sender' ∧
      ChainDB.loadAllBlocks sender'.chain = [FirstBlock.block] ∧
      (∃ row ∈ sender'.messages.data, row.messageId = .bind staleSend.message.id ∧
        row.blockHash = .bind FirstBlock.block.hash) ∧
      (¬ ∃ a, answer = some a ∧ ChatService.IsTextResponse a) ∧
      (sendSecretMessage testEnv outside FirstBlock.config.me.toUserHost staleSend.message pair).1
        staleSend.message.toPeer.toUserHost = some r' ∧ r'.messages.data = [] := by
  rcases Send.prepared XORCrypto.signatureLaws XORCrypto.sessionLaws (s := staleSend)
    FirstBlock.keyPairMatches (⟨_, ⟨11, rfl⟩, rfl, rfl⟩ : oldConfig.KeyPairMatches testEnv)
    (n := node FirstBlock.config [FirstBlock.rivalConfig.me] Table.empty) rfl with
    ⟨block, jMessage, hsign, hjson, hprepared, _⟩
  have hblock : signBlock testEnv FirstBlock.config.privateKey 0
      (unsignedBlock testEnv staleSend.message Block.default) = .ok FirstBlock.block :=
    signBlock_messageTo oldConfig.publicKey
  rcases Except.ok.inj (hsign.symm.trans hblock) with rfl
  have hkey : Json.stringLen oldConfig.publicKey = 66 := (Json.stringLen_toHex _).trans (by decide)
  have hfits : staleSend.Fits testEnv := by
    intro data j hj
    rw [dumpLen_messageTo hkey (testEnv.stringLen_sha256 data) hj]
    decide
  have hprepare : prepare testEnv outside (node FirstBlock.config [FirstBlock.rivalConfig.me]
      Table.empty) staleSend.message = .ok (FirstBlock.block, jMessage) := hprepared hfits
  have hmillis : staleSend.message.timestamp.toNat = 1700000000000 :=
    toNat_getTimestamp FirstBlock.now
  have hto : pair staleSend.message.toPeer.toUserHost =
      some (node FirstBlock.rivalConfig [FirstBlock.config.me] Table.empty) := pair_rivalConfig
  rcases agrees_pair.store XORCrypto.signatureLaws XORCrypto.compactLaws distinct_members
    List.mem_cons_self FirstBlock.keyPairMatches rfl rfl
    (by rw [hmillis]; decide) (fun _ _ => hmillis.trans_le (Nat.le_add_right _ 300000)) pair_config
    hto hprepare (Block.collisionFree_singleton testEnv FirstBlock.block) with
    ⟨⟨answer, hstored⟩, hagree⟩
  rcases stored_spec rfl hstored with ⟨sender, jMessage', hown, hprepare', hanswer, hmoved⟩
  rcases Option.some.inj (pair_config.symm.trans hown) with rfl
  rcases Except.ok.inj (hprepare.symm.trans hprepare') with ⟨_, rfl⟩
  -- the recipient's new key gives another session key
  have hrefused : ∀ m, TextMessage.ofJson testEnv jMessage FirstBlock.rivalConfig.privateKey false
      false ≠ .ok m := by
    have hdecoded : (((staleSend.message.setBlockHash FirstBlock.block.hash).serialize testEnv
        FirstBlock.config.privateKey outside.draws).toOption.bind fun j =>
          (TextMessage.ofJson testEnv j FirstBlock.rivalConfig.privateKey false
            false).toOption).isNone = true := by
      decide +kernel
    have hsent : (staleSend.message.setBlockHash FirstBlock.block.hash).serialize testEnv
        FirstBlock.config.privateKey outside.draws = .ok jMessage := hjson
    intro m hm
    have hread : (((staleSend.message.setBlockHash FirstBlock.block.hash).serialize testEnv
        FirstBlock.config.privateKey outside.draws).toOption.bind fun j =>
          (TextMessage.ofJson testEnv j FirstBlock.rivalConfig.privateKey false
            false).toOption) = some m := by
      rw [hsent]
      exact congrArg Except.toOption hm
    rw [hread] at hdecoded
    cases hdecoded
  have hno : ¬ Takes testEnv (node FirstBlock.rivalConfig [FirstBlock.config.me] Table.empty)
      jMessage := fun h => h.2.elim hrefused
  rcases hmoved.of_some pair_config with ⟨sender', hsender', hsent⟩
  rcases hmoved.of_some hto with ⟨r', hr', hleft⟩
  rcases hagree _ List.mem_cons_self with ⟨n, hn, _, _, hload, _⟩
  rcases Option.some.inj (hsender'.symm.trans hn) with rfl
  refine ⟨answer, sender', r', hstored, hsender', hload, ?_, ?_, hr', ?_⟩
  · refine ⟨storedRow staleSend.message FirstBlock.block jMessage, ?_, rfl, rfl⟩
    have hfresh : (Table.empty : MessageTable).Fresh
        (storedRow staleSend.message FirstBlock.block jMessage) := by
      intro x hx
      cases hx
    have hrows := hsent.stores (Or.inl rfl)
    rw [hrows]
    exact (Table.data_insert_of_fresh hfresh).symm ▸ List.mem_singleton.2 rfl
  · rw [hanswer]
    rintro ⟨r, hr, htakes⟩
    rcases Option.some.inj (hto.symm.trans hr) with rfl
    exact hno htakes
  · rw [hleft.leaves]
    · rfl
    · rintro (hself | ⟨_, htakes⟩)
      · exact config_ne_rival hself.symm
      · exact hno htakes

end SmallNet

end Network
end DChat
