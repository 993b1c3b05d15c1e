import DChat.Agreement

/-!
# Rollback — what is left of a send whose block was not stored

The message goes away at both ends: at the sender's at once, at the recipient's when the report
arrives.  The block goes away nowhere: the peers that took it before another one refused keep it,
and nobody tells them.
-/

namespace DChat
namespace Network

open Utils Crypto Peer Messaging Blockchain BlockchainService Chat KeyedTable AtomicProg PartyMap
open TCPClient

variable {E : Env}

theorem hasBlock_of_mem {t : BlockTable} {block : Block} (h : BlockRow.ofBlock block ∈ t.data) :
    ChainDB.hasBlock t block.hash = true :=
  ChainDB.hasBlock_iff.2 ⟨(BlockRow.ofBlock block).toBlock, List.mem_map_of_mem h, rfl⟩

/-- A row of the block does not count among the others, whether it was new or not. -/
theorem othersRows_insert (t : MessageTable) (message : TextMessage) (block : Block)
    (jMessage : Json) : othersRows (t.insert (storedRow message block jMessage)).1 block.hash =
      othersRows t block.hash := by
  have h := MessageDB.data_remove_insert t (message.setBlockHash block.hash) jMessage block.hash
  rw [MessageDB.data_removeMessageByBlockHash, MessageDB.data_removeMessageByBlockHash] at h
  exact h

/-- What a failed send leaves at one node when it ends.  The recipient may still have the row of the
block. -/
structure Restored (own recipient : UserHost) (reached : List UserHost) (block : Block)
    (h : UserHost) (n n' : Node) : Prop where
  chain_iff : ChainDB.hasBlock n'.chain block.hash = true ↔
    ChainDB.hasBlock n.chain block.hash = true ∨ h ∈ reached
  chain_eq : h ∉ reached → n'.chain = n.chain
  removes : h = own → n'.messages.data = othersRows n.messages block.hash
  others_eq : othersRows n'.messages block.hash = othersRows n.messages block.hash
  messages_eq : h ≠ own → h ≠ recipient → n'.messages = n.messages

theorem Restored.of_sent {own recipient : UserHost} {jMessage : Json} {message : TextMessage}
    {block : Block} {reached : List UserHost} {h : UserHost} {n n' n'' : Node}
    (hvalid : ValidBlocks E (ChainDB.loadAllBlocks n.chain))
    (hsent : Sent E own recipient jMessage (storedRow message block jMessage) block reached h n n')
    (hback : RolledBack own block.hash h n' n'') :
    Restored own recipient reached block h n n'' := by
  have hchain : n''.chain = n'.chain := by rw [hback.same]
  -- the row of the send is the only one that may be new
  have hrows : othersRows n'.messages block.hash = othersRows n.messages block.hash := by
    by_cases hstores : h = own ∨ (h = recipient ∧ Takes E n jMessage)
    · rw [hsent.stores hstores, othersRows_insert]
    · rw [hsent.leaves hstores]
  refine ⟨?_, fun hno => ?_, fun hself => ?_, ?_, fun hself hto => ?_⟩
  · rw [hchain]
    by_cases hreached : h ∈ reached
    · simp [hreached, hasBlock_of_mem (hsent.takes hreached hvalid)]
    · simp [hreached, hsent.keeps hreached]
  · rw [hchain, hsent.keeps hno]
  · rw [hback.removes hself, hrows]
  · by_cases hself : h = own
    · rw [othersRows, hback.removes hself, ← hrows, othersRows, List.filter_filter]
      simp
    · rw [hback.leaves hself, hrows]
  · have hstores : ¬ (h = own ∨ (h = recipient ∧ Takes E n jMessage)) := by
      rintro (heq | ⟨heq, _⟩)
      · exact hself heq
      · exact hto heq
    rw [hback.leaves hself, hsent.leaves hstores]

/-- After a send that ends with a rollback, the chains that have the block are those that had it
and those of the peers before the one that refused it, or of all of them when the own chain did not
take it.  The sender has no row of the block, the recipient has none once it has handled the error
report, in whatever state that finds the nodes, and nothing else changes. -/
theorem failed_send_rolled_back {out : Outside} {own : UserHost} {message : TextMessage}
    {net : Nodes} {block : Block} {answer : Option Json} (htype : message.type = .textMessage)
    (hvalid : ∀ h n, net h = some n → validateLocalChain E n.chain = .ok true)
    (hwhole : (errorMessage out message block).serialize.dumpLen ≤ bufferSize - 1)
    (hend : (sendSecretMessage E out own message net).2 = .rolledBack block answer) :
    ∃ sender jMessage reached rest offered, net own = some sender ∧
      prepare E out sender message = .ok (block, jMessage) ∧ sender.peers = reached ++ rest ∧
      TakenBy E out block reached (deliver E out own message block jMessage net).1 offered ∧
      Stopped E out own block offered rest ∧
      Moved (Restored own message.toPeer.toUserHost (reached.map UserPeer.toUserHost) block) net
        (sendSecretMessage E out own message net).1 ∧
      ∀ later, Moved (RolledBack message.toPeer.toUserHost block.hash) later
        (deliverReport E out message block later) := by
  rcases rolledBack_spec htype hend with
    ⟨sender, jMessage, reached, rest, offered, mid, hown, hprepare, hpeers, htaken, hstopped,
      hmoved, hnet⟩
  refine ⟨sender, jMessage, reached, rest, offered, hown, hprepare, hpeers, htaken, hstopped, ?_,
    fun later => deliverReport_moved out message block later hwhole⟩
  rw [hnet]
  -- the validity of the chains is about the nodes before the send
  have hsent := hmoved.mono fun h n n' hn hsent =>
    And.intro (validateLocalChain_eq_true.1 (hvalid h n hn)) hsent
  refine hsent.trans ?_ (rollback_moved own message block mid)
  rintro h n n' n'' ⟨hblocks, hsent⟩ hback
  exact Restored.of_sent hblocks hsent hback

/-! ## A fork

A sender with the peers `third` and `rival`.  All three have the same first block, and over it
`rival` has a block that the others never got. -/

namespace SmallNet

def thirdConfig : Config where
  host := "127.0.0.1"
  port := 8003
  publicKey := testEnv.crypto.keyToString (testEnv.crypto.generateKeyPair 11).publicKey
  privateKey := testEnv.crypto.keyToString (testEnv.crypto.generateKeyPair 11).privateKey

def rivalTable : BlockTable := (ChainDB.insertBlock FirstBlock.table FirstBlock.rival).1

theorem loadAllBlocks_rivalTable :
    ChainDB.loadAllBlocks rivalTable = [FirstBlock.block, FirstBlock.rival] := by
  have hstored : (ChainDB.insertBlock FirstBlock.table FirstBlock.rival).2 = true := by
    rw [ChainDB.insertBlock_eq_true, FirstBlock.loadAllBlocks_table]
    decide +kernel
  rw [rivalTable, ChainDB.loadAllBlocks_insertBlock hstored,
    BlockRow.toBlock_ofBlock FirstBlock.storable_rival, FirstBlock.loadAllBlocks_table]
  rfl

theorem valid_rivalTable : validateLocalChain testEnv rivalTable = .ok true := by
  rw [validateLocalChain_eq_true, loadAllBlocks_rivalTable]
  exact (ValidBlocks.nil.concat FirstBlock.blockOf_block.authentic rfl).concat
    FirstBlock.blockOf_rival.authentic rfl

def forkNodes : List Node :=
  [node FirstBlock.config [thirdConfig.me, FirstBlock.rivalConfig.me] FirstBlock.table,
    node thirdConfig [] FirstBlock.table, node FirstBlock.rivalConfig [] rivalTable]

theorem valid_forkNodes : ∀ h n, net forkNodes h = some n →
    validateLocalChain testEnv n.chain = .ok true := by
  intro h n hn
  have hmem : n ∈ forkNodes := List.mem_of_find?_eq_some hn
  simp only [forkNodes, List.mem_cons, List.not_mem_nil, or_false] at hmem
  rcases hmem with rfl | rfl | rfl
  · exact FirstBlock.valid_table
  · exact FirstBlock.valid_table
  · exact valid_rivalTable

/-- What the sender sends, to the peer that will refuse the block. -/
def forkMessage : TextMessage := messageTo FirstBlock.rivalConfig.publicKey [97]

theorem third_ne_config : thirdConfig.me.toUserHost ≠ FirstBlock.config.me.toUserHost := by
  decide

theorem third_ne_rival : thirdConfig.me.toUserHost ≠ FirstBlock.rivalConfig.me.toUserHost := by
  decide

theorem net_forkNodes_config : net forkNodes FirstBlock.config.me.toUserHost =
    some (node FirstBlock.config [thirdConfig.me, FirstBlock.rivalConfig.me] FirstBlock.table) :=
  net_self _ _

theorem net_forkNodes_third : net forkNodes thirdConfig.me.toUserHost =
    some (node thirdConfig [] FirstBlock.table) :=
  (net_of_ne third_ne_config.symm _).trans (net_self _ _)

theorem net_forkNodes_rival : net forkNodes FirstBlock.rivalConfig.me.toUserHost =
    some (node FirstBlock.rivalConfig [] rivalTable) :=
  (net_of_ne config_ne_rival _).trans ((net_of_ne third_ne_rival _).trans (net_self _ _))

theorem acceptable_child :
    Acceptable testEnv FirstBlock.now FirstBlock.table FirstBlock.child := by
  refine ⟨FirstBlock.blockOf_child.authentic, by decide +kernel, Or.inl ?_, ?_⟩
  · rw [FirstBlock.tipHash_table]
    rfl
  · rw [FirstBlock.loadAllBlocks_table]
    decide +kernel

theorem not_acceptable_child :
    ¬ Acceptable testEnv FirstBlock.now rivalTable FirstBlock.child := by
  have htip : tipHash rivalTable = FirstBlock.rival.hash := by
    rw [tipHash, loadAllBlocks_rivalTable]
    rfl
  intro h
  have hcut : cString FirstBlock.child.previousHash = FirstBlock.rival.hash := by
    rcases h.namesTip with hprev | ⟨hprev, _⟩
    · rw [htip] at hprev
      exact absurd hprev (by decide +kernel)
    · rw [← htip]
      exact hprev
  exact absurd hcut (by decide +kernel)

theorem errorMessage_fork : (errorMessage outside forkMessage FirstBlock.child).serialize.dumpLen ≤
    bufferSize - 1 := by
  decide +kernel

theorem stringLen_childHash : Json.stringLen FirstBlock.child.hash = 66 := by
  rw [← FirstBlock.blockOf_child.authentic.hash_eq]
  exact testEnv.stringLen_sha256 _

/-- The send ends with a rollback, and `third` has the block. -/
theorem fork_send : ∃ answer third',
    (sendSecretMessage testEnv outside FirstBlock.config.me.toUserHost forkMessage
      (net forkNodes)).2 = .rolledBack FirstBlock.child answer ∧
    (sendSecretMessage testEnv outside FirstBlock.config.me.toUserHost forkMessage
      (net forkNodes)).1 thirdConfig.me.toUserHost = some third' ∧
    ChainDB.loadAllBlocks third'.chain = [FirstBlock.block, FirstBlock.child] := by
  rcases TextMessage.serialize_ok XORCrypto.signatureLaws XORCrypto.sessionLaws
    FirstBlock.keyPairMatches FirstBlock.rival_keyPairMatches
    (m := forkMessage.setBlockHash FirstBlock.child.hash) rfl outside.draws with ⟨jMessage, hjson⟩
  have hsign : signBlock testEnv FirstBlock.config.privateKey outside.blockSign
      (unsignedBlock testEnv forkMessage ((ChainDB.findTip FirstBlock.table).getD Block.default)) =
        .ok FirstBlock.child := by
    rw [FirstBlock.findTip_table]
    exact signBlock_messageTo_child _
  have hprepare : prepare testEnv outside (node FirstBlock.config
      [thirdConfig.me, FirstBlock.rivalConfig.me] FirstBlock.table) forkMessage =
        .ok (FirstBlock.child, jMessage) := by
    refine prepare_eq_ok.2 ⟨hsign, hjson, ?_⟩
    rw [dumpLen_messageTo stringLen_rivalKey stringLen_childHash hjson]
    decide
  have hdeliver := deliver_moved FirstBlock.config.me.toUserHost (net forkNodes) rfl
    (prepare_eq_ok.1 hprepare).2.1
  rcases hdeliver.of_some net_forkNodes_config with ⟨a, ha, hasame⟩
  rcases hdeliver.of_some net_forkNodes_third with ⟨b, hb, hbsame⟩
  rcases hdeliver.of_some net_forkNodes_rival with ⟨c, hc, hcsame⟩
  have hpeers : a.peers = [thirdConfig.me, FirstBlock.rivalConfig.me] := by rw [hasame.same]; rfl
  have hbchain : b.chain = FirstBlock.table := by rw [hbsame.same]; rfl
  have hcchain : c.chain = rivalTable := by rw [hcsame.same]; rfl
  have hauthor : forkMessage.fromPeer.publicKey = FirstBlock.config.publicKey := rfl
  have hlen : FirstBlock.child.toJson.dumpLen ≤ bufferSize - 1 :=
    dumpLen_blockOf XORCrypto.compactLaws FirstBlock.keyPairMatches XORCrypto.signatureLaws
      hauthor (validateLocalChain_eq_true.1 FirstBlock.valid_table) hsign
  -- `third` takes the block
  rcases sendCallback_cases (E := testEnv) outside FirstBlock.child thirdConfig.me hb with
    ⟨_, htakes⟩ | ⟨hno, _⟩
  swap
  · exact absurd ⟨hlen, hbchain ▸ acceptable_child⟩ hno
  -- and `rival` refuses it
  have hc' : modify thirdConfig.me.toUserHost
      (fun n => { n with chain := (ChainDB.insertBlock n.chain FirstBlock.child).1 })
      (deliver testEnv outside FirstBlock.config.me.toUserHost forkMessage FirstBlock.child jMessage
        (net forkNodes)).1 FirstBlock.rivalConfig.me.toUserHost = some c := by
    rw [modify_of_ne third_ne_rival.symm, hc]
  rcases sendCallback_cases (E := testEnv) outside FirstBlock.child FirstBlock.rivalConfig.me hc'
    with ⟨⟨_, hacc⟩, _⟩ | ⟨_, hrefuses⟩
  · exact absurd (hcchain ▸ hacc) not_acceptable_child
  have hown : modify thirdConfig.me.toUserHost
      (fun n => { n with chain := (ChainDB.insertBlock n.chain FirstBlock.child).1 })
      (deliver testEnv outside FirstBlock.config.me.toUserHost forkMessage FirstBlock.child jMessage
        (net forkNodes)).1 FirstBlock.config.me.toUserHost = some a := by
    rw [modify_of_ne third_ne_config.symm, ha]
  have hstore : (storeAndBroadcastBlock testEnv outside FirstBlock.config.me.toUserHost
      FirstBlock.child (deliver testEnv outside FirstBlock.config.me.toUserHost forkMessage
        FirstBlock.child jMessage (net forkNodes)).1).1 = false ∧
      (storeAndBroadcastBlock testEnv outside FirstBlock.config.me.toUserHost FirstBlock.child
        (deliver testEnv outside FirstBlock.config.me.toUserHost forkMessage FirstBlock.child
          jMessage (net forkNodes)).1).2 thirdConfig.me.toUserHost =
        some { b with chain := (ChainDB.insertBlock b.chain FirstBlock.child).1 } := by
    simp only [storeAndBroadcastBlock, ha, Option.map_some, Option.getD_some, hpeers, broadcast,
      htakes, hrefuses, hown]
    refine ⟨rfl, ?_⟩
    rw [modify_of_ne third_ne_config, modify_self, hb]
    rfl
  rcases sendSecretMessage_rolledBack net_forkNodes_config hprepare net_forkNodes_rival hstore.1
    with ⟨hnet, hend⟩
  rcases (rollback_moved FirstBlock.config.me.toUserHost forkMessage FirstBlock.child _).of_some
    hstore.2 with ⟨third', hthird', hback⟩
  refine ⟨_, third', hend, ?_, ?_⟩
  · rw [hnet]
    exact hthird'
  · have hchain : third'.chain = (ChainDB.insertBlock FirstBlock.table FirstBlock.child).1 := by
      rw [hback.same, ← hbchain]
    rw [hchain]
    exact FirstBlock.loadAllBlocks_longerTable

/-- The recipient took the message.  When the sender has finished, the report is only on its way. -/
theorem fork_recipient : ∃ recipient row,
    (sendSecretMessage testEnv outside FirstBlock.config.me.toUserHost forkMessage
      (net forkNodes)).1 forkMessage.toPeer.toUserHost = some recipient ∧
    row ∈ recipient.messages.data ∧ row.blockHash = .bind FirstBlock.child.hash := by
  rcases fork_send with ⟨answer, _, hend, _⟩
  rcases rolledBack_spec rfl hend with
    ⟨sender, jMessage, _, _, _, mid, hown, hprepare, _, _, _, hmoved, hnet⟩
  rcases Option.some.inj (hown.symm.trans net_forkNodes_config) with rfl
  rcases prepare_eq_ok.1 hprepare with ⟨_, hjson, _⟩
  have htakes : Takes testEnv (node FirstBlock.rivalConfig [] rivalTable) jMessage := by
    constructor
    · rw [dumpLen_messageTo stringLen_rivalKey stringLen_childHash hjson]
      decide
    · rcases TextMessage.ofJson_serialize XORCrypto.signatureLaws XORCrypto.sessionLaws
        FirstBlock.keyPairMatches FirstBlock.rival_keyPairMatches rfl rfl rfl hjson with
        ⟨sig, hread⟩
      exact ⟨_, (hread false).1⟩
  rcases hmoved.of_some net_forkNodes_rival with ⟨n, hn, hsent⟩
  rcases (rollback_moved FirstBlock.config.me.toUserHost forkMessage FirstBlock.child mid).of_some
    hn with ⟨recipient, hrecipient, hback⟩
  refine ⟨recipient, storedRow forkMessage FirstBlock.child jMessage, ?_, ?_, rfl⟩
  · rw [hnet]
    exact hrecipient
  · -- the rollback of the sender leaves the others alone
    rw [hback.leaves config_ne_rival.symm, hsent.stores (Or.inr ⟨rfl, htakes⟩),
      Table.data_insert_of_fresh fun _ hmem => absurd hmem List.not_mem_nil]
    exact List.mem_append_right _ List.mem_cons_self

/-- The block of a failed send stays with a peer that did not have it.  The recipient still has the
message when the sender has finished. -/
theorem accepted_block_kept : ∃ answer before after recipient row,
    (∀ h n, net forkNodes h = some n → validateLocalChain testEnv n.chain = .ok true) ∧
    (sendSecretMessage testEnv outside FirstBlock.config.me.toUserHost forkMessage
      (net forkNodes)).2 = .rolledBack FirstBlock.child answer ∧
    net forkNodes thirdConfig.me.toUserHost = some before ∧
    (sendSecretMessage testEnv outside FirstBlock.config.me.toUserHost forkMessage
      (net forkNodes)).1 thirdConfig.me.toUserHost = some after ∧
    FirstBlock.child ∉ ChainDB.loadAllBlocks before.chain ∧
    FirstBlock.child ∈ ChainDB.loadAllBlocks after.chain ∧
    (sendSecretMessage testEnv outside FirstBlock.config.me.toUserHost forkMessage
      (net forkNodes)).1 forkMessage.toPeer.toUserHost = some recipient ∧
    row ∈ recipient.messages.data ∧ row.blockHash = .bind FirstBlock.child.hash := by
  rcases fork_send with ⟨answer, third', hend, hthird, hload⟩
  rcases fork_recipient with ⟨recipient, row, hkept⟩
  refine ⟨answer, _, third', recipient, row, valid_forkNodes, hend, net_forkNodes_third, hthird,
    ?_, ?_, hkept⟩
  · have hold : ChainDB.loadAllBlocks (node thirdConfig [] FirstBlock.table).chain =
        [FirstBlock.block] := FirstBlock.loadAllBlocks_table
    rw [hold]
    decide +kernel
  · rw [hload]
    exact List.mem_cons_of_mem _ List.mem_cons_self

/-- That send, part by part: `rest` starts with the peer that refused. -/
theorem failed_send_rolled_back_fork :
    ∃ sender jMessage reached rest offered,
      net forkNodes FirstBlock.config.me.toUserHost = some sender ∧
      prepare testEnv outside sender forkMessage = .ok (FirstBlock.child, jMessage) ∧
      sender.peers = reached ++ rest ∧
      TakenBy testEnv outside FirstBlock.child reached (deliver testEnv outside
        FirstBlock.config.me.toUserHost forkMessage FirstBlock.child jMessage
          (net forkNodes)).1 offered ∧
      Stopped testEnv outside FirstBlock.config.me.toUserHost FirstBlock.child offered rest ∧
      Moved (Restored FirstBlock.config.me.toUserHost forkMessage.toPeer.toUserHost
        (reached.map UserPeer.toUserHost) FirstBlock.child) (net forkNodes)
        (sendSecretMessage testEnv outside FirstBlock.config.me.toUserHost forkMessage
          (net forkNodes)).1 ∧
      ∀ later, Moved (RolledBack forkMessage.toPeer.toUserHost FirstBlock.child.hash) later
        (deliverReport testEnv outside forkMessage FirstBlock.child later) := by
  rcases fork_send with ⟨answer, _, hend, _⟩
  exact failed_send_rolled_back rfl valid_forkNodes errorMessage_fork hend

end SmallNet

end Network
end DChat
