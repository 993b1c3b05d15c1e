import DChat.HonestSend

/-!
# Agreement — all nodes of an honest network hold the same chain

Every node knows every other one, all start with one valid chain, and sends run one at a time.
Each send whose text fits in a message makes every chain grow by its block, and one whose text does
not fit is refused before anything is sent.  So the nodes agree after every send.
-/

namespace DChat
namespace Network

open Utils Crypto Peer Messaging Blockchain BlockchainService Chat AtomicProg PartyMap TCPClient

variable {E : Env}

namespace TCPClient

/-- When all peers and the sender itself can take the block, all of them do. -/
theorem storeAndBroadcastBlock_all (out : Outside) {own : UserHost} {block : Block} {net : Nodes}
    {sender : Node} (hown : net own = some sender)
    (hlen : block.toJson.dumpLen ≤ bufferSize - 1)
    (hdistinct : (own :: sender.peers.map UserPeer.toUserHost).Nodup)
    (hacceptable : ∀ p ∈ sender.peers, ∃ n, net p.toUserHost = some n ∧
      Acceptable E (out.blockVisit p).checked n.chain block)
    (hinsert : (ChainDB.insertBlock sender.chain block).2 = true) :
    (storeAndBroadcastBlock E out own block net).1 = true ∧
      ∀ h, (storeAndBroadcastBlock E out own block net).2 h =
        if h ∈ own :: sender.peers.map UserPeer.toUserHost then
          (net h).map fun n => { n with chain := (ChainDB.insertBlock n.chain block).1 }
        else net h := by
  rw [List.nodup_cons] at hdistinct
  rcases broadcast_all (E := E) out hlen hdistinct.2 hacceptable with ⟨hall, hnodes⟩
  rcases hbroadcast : broadcast (sendCallback E out block.toJson) sender.peers net with ⟨sent, net'⟩
  rw [hbroadcast] at hall hnodes
  dsimp only at hall hnodes
  rcases hall with rfl
  -- the broadcast did not touch the sender
  have hown' : net' own = some sender := by rw [hnodes, if_neg hdistinct.1, hown]
  have hstep : storeAndBroadcastBlock E out own block net =
      ((ChainDB.insertBlock sender.chain block).2,
        modify own (fun n => { n with chain := (ChainDB.insertBlock sender.chain block).1 })
          net') := by
    simp only [storeAndBroadcastBlock, hown, Option.map_some, Option.getD_some, hbroadcast, hown']
    rfl
  rw [hstep]
  refine ⟨hinsert, fun h => ?_⟩
  by_cases hself : h = own
  · subst hself
    simp [hown', hown]
  · simp [hself, hnodes]

end TCPClient

/-! ## The network -/

/-- The members hold one chain, it is valid, and each knows exactly the others. -/
def Agrees (E : Env) (members : List Config) (chain : List Block) (net : Nodes) : Prop :=
  ∀ cfg ∈ members, ∃ n, net cfg.me.toUserHost = some n ∧ n.config = cfg ∧
    n.peers.Perm ((members.erase cfg).map Config.me) ∧
    ChainDB.loadAllBlocks n.chain = chain ∧ validateLocalChain E n.chain = .ok true

/-- A text that one member sends to a member, and what the send finds. -/
structure Send where
  sender : Config
  recipient : Config
  tick : Tick
  text : Bytes
  out : Outside

namespace Send

/-- `TextMessage::create(from, to, text)`. -/
def message (s : Send) : TextMessage :=
  TextMessage.create s.tick s.sender.me s.recipient.me s.text

def run (E : Env) (s : Send) (net : Nodes) : Nodes × Outcome :=
  sendSecretMessage E s.out s.sender.me.toUserHost s.message net

/-- The JSON of the text passes the size check of `sendSecretMessage`, whatever the block hash in it
is. -/
def Fits (E : Env) (s : Send) : Prop :=
  ∀ data j, (s.message.setBlockHash (E.sha256 data)).serialize E s.sender.privateKey s.out.draws =
    .ok j → j.dumpLen ≤ bufferSize

/-- No clock is more than five minutes behind the sender's. -/
def InTime (members : List Config) (s : Send) : Prop :=
  ∀ cfg ∈ members, s.tick.now.millis ≤ (s.out.blockVisit cfg.me).checked.millis + 300000

/-- A text that fits is sent and its block stored; one that does not fit is refused. -/
structure EndsWell (E : Env) (s : Send) (outcome : Outcome) : Prop where
  stored : s.Fits E → ∃ block answer, outcome = .stored block answer
  refused : ¬ s.Fits E → outcome = .thrown (.std "Message is too big")

/-- Hashes have one length, so a text that does not fit with one does not fit with any. -/
theorem lt_dumpLen_of_not_fits {s : Send} (h : ¬ s.Fits E) {data : Bytes} {j : Json}
    (hj : (s.message.setBlockHash (E.sha256 data)).serialize E s.sender.privateKey s.out.draws =
      .ok j) : bufferSize < j.dumpLen := by
  simp only [Fits, not_forall, Nat.not_le] at h
  rcases h with ⟨data', j', hj', hbig⟩
  rcases TextMessage.serialize_eq_ok hj with
    ⟨key, cipher, priv, sig, hkey, hcipher, hpriv, hsig, rfl⟩
  rcases TextMessage.serialize_eq_ok hj' with
    ⟨key', cipher', priv', sig', hkey', hcipher', hpriv', hsig', rfl⟩
  -- only the hash differs
  rcases Except.ok.inj (hkey.symm.trans hkey') with rfl
  rcases Except.ok.inj (hcipher.symm.trans hcipher') with rfl
  rcases Except.ok.inj (hpriv.symm.trans hpriv') with rfl
  rcases Except.ok.inj (hsig.symm.trans hsig') with rfl
  rw [TextMessage.dumpLen_envelope rfl] at hbig ⊢
  simpa only [TextMessage.setBlockHash_toMessage, TextMessage.setBlockHash_blockHash,
    Env.stringLen_sha256] using hbig

end Send

/-- The block a send made, stored or not. -/
def TCPClient.Outcome.block? : Outcome → Option Block
  | .stored block _ => some block
  | .rolledBack block _ => some block
  | _ => none

/-- The only block that a send can make is the one over the tip of its sender. -/
theorem Send.block?_subset {s : Send} {net : Nodes} {n : Node} {block : Block}
    (hn : net s.sender.me.toUserHost = some n)
    (hsign : signBlock E n.config.privateKey s.out.blockSign
      (unsignedBlock E s.message ((ChainDB.findTip n.chain).getD Block.default)) = .ok block) :
    (s.run E net).2.block?.toList ⊆ [block] := by
  have hmade : ∀ {sender made jMessage}, net s.sender.me.toUserHost = some sender →
      prepare E s.out sender s.message = .ok (made, jMessage) → made = block := by
    intro sender made jMessage hown hprepare
    obtain rfl := Option.some.inj (hn.symm.trans hown)
    exact Except.ok.inj ((prepare_eq_ok.1 hprepare).1.symm.trans hsign)
  rcases sendSecretMessage_cases (E := E) s.out s.sender.me.toUserHost s.message net with
    ⟨-, hun | ⟨e, hthrown⟩⟩ |
      ⟨sender, made, jMessage, hown, hprepare, ⟨-, -, hstored⟩ | ⟨-, -, hback⟩⟩
  · have hend : (s.run E net).2 = .unreachable := hun
    rw [hend]
    exact List.nil_subset _
  · have hend : (s.run E net).2 = .thrown e := hthrown
    rw [hend]
    exact List.nil_subset _
  · have hend : (s.run E net).2 = .stored made _ := hstored
    rw [hend, hmade hown hprepare]
    exact fun _ hmem => hmem
  · have hend : (s.run E net).2 = .rolledBack made _ := hback
    rw [hend, hmade hown hprepare]
    exact fun _ hmem => hmem

/-- Sends one after the other. -/
def runSends (E : Env) : List Send → Nodes → Nodes × List Outcome
  | [], net => (net, [])
  | s :: sends, net =>
      let (net, outcome) := s.run E net
      let (net, outcomes) := runSends E sends net
      (net, outcome :: outcomes)

/-- The blocks that were made. -/
def madeBlocks (outcomes : List Outcome) : List Block := outcomes.filterMap Outcome.block?

section Members

variable {members : List Config} {chain : List Block} {net : Nodes}

theorem Agrees.of_same {net' : Nodes} (h : Agrees E members chain net)
    (hmoved : Moved (fun _ n n' => SameButMessages n n') net net') :
    Agrees E members chain net' := by
  intro cfg hcfg
  rcases h cfg hcfg with ⟨n, hn, hconfig, hpeers, hload, hvalid⟩
  rcases hmoved.of_some hn with ⟨n', hn', hsame⟩
  rw [hsame] at hn'
  exact ⟨_, hn', hconfig, hpeers, hload, hvalid⟩

/-- The peers of a member are at different addresses, and not at its own. -/
theorem Agrees.distinct (hdistinct : (members.map fun cfg => cfg.me.toUserHost).Nodup)
    {cfg : Config} (hcfg : cfg ∈ members) {peers : List UserPeer}
    (hpeers : peers.Perm ((members.erase cfg).map Config.me)) :
    (cfg.me.toUserHost :: peers.map UserPeer.toUserHost).Nodup := by
  have hperm : (cfg.me.toUserHost :: peers.map UserPeer.toUserHost).Perm
      (members.map fun cfg => cfg.me.toUserHost) := by
    have hmembers := (List.perm_cons_erase hcfg).map fun cfg => cfg.me.toUserHost
    have hothers := hpeers.map UserPeer.toUserHost
    rw [List.map_map] at hothers
    exact (hothers.cons _).trans hmembers.symm
  exact hperm.nodup_iff.2 hdistinct

/-- A member is the sender or one of its peers. -/
theorem Agrees.reached {cfg sender : Config} (hcfg : cfg ∈ members) {peers : List UserPeer}
    (hpeers : peers.Perm ((members.erase sender).map Config.me)) :
    cfg.me.toUserHost ∈ sender.me.toUserHost :: peers.map UserPeer.toUserHost := by
  by_cases hself : cfg = sender
  · rw [hself]
    exact List.mem_cons_self
  · have hother : cfg.me ∈ peers :=
      hpeers.mem_iff.2 (List.mem_map_of_mem ((List.mem_erase_of_ne hself).2 hcfg))
    exact List.mem_cons_of_mem _ (List.mem_map_of_mem hother)

/-- When every node took the block, they agree on the longer chain. -/
theorem Agrees.extend {net' : Nodes} {block : Block} {hosts : List UserHost}
    (h : Agrees E members chain net) (hnext : ValidBlocks E (chain ++ [block]))
    (hstorable : block.Storable) (hS : E.CollisionFree (Block.canonicals (chain ++ [block])))
    (hhosts : ∀ cfg ∈ members, cfg.me.toUserHost ∈ hosts)
    (hnodes : ∀ h, net' h = if h ∈ hosts then
      (net h).map fun n => { n with chain := (ChainDB.insertBlock n.chain block).1 }
      else net h) : Agrees E members (chain ++ [block]) net' := by
  intro cfg hcfg
  rcases h cfg hcfg with ⟨n, hn, hconfig, hpeers, hload, _⟩
  rw [← hload] at hnext hS
  rcases insertBlock_continues hnext hstorable (hnext.nodup_hash hS) with ⟨_, hload'⟩
  refine ⟨{ n with chain := (ChainDB.insertBlock n.chain block).1 }, ?_, hconfig, hpeers, ?_, ?_⟩
  · rw [hnodes, if_pos (hhosts cfg hcfg), hn]
    rfl
  · rw [hload', hload]
  · rw [validateLocalChain_eq_true, hload']
    exact hnext

/-- What an honest sender has in hand when the size is checked. -/
theorem Send.prepared (laws : E.crypto.SignatureLaws) (session : E.crypto.SessionLaws) {s : Send}
    (hsender : s.sender.KeyPairMatches E) (hrecipient : s.recipient.KeyPairMatches E) {n : Node}
    (hconfig : n.config = s.sender) :
    ∃ block jMessage,
      signBlock E n.config.privateKey s.out.blockSign
        (unsignedBlock E s.message ((ChainDB.findTip n.chain).getD Block.default)) = .ok block ∧
      (s.message.setBlockHash block.hash).serialize E n.config.privateKey s.out.draws =
        .ok jMessage ∧
      (s.Fits E → prepare E s.out n s.message = .ok (block, jMessage)) ∧
      (¬ s.Fits E → prepare E s.out n s.message = .error (.std "Message is too big")) := by
  have hauthor : s.message.fromPeer.publicKey = s.sender.publicKey := rfl
  rcases signBlock_ok laws hsender s.out.blockSign hauthor
    ((ChainDB.findTip n.chain).getD Block.default) with ⟨block, hsign, hof⟩
  rcases TextMessage.serialize_ok laws session hsender hrecipient
    (m := s.message.setBlockHash block.hash) rfl s.out.draws with ⟨jMessage, hjson⟩
  -- whether the JSON fits is said with the hash that the block must have
  have hdata := hjson
  rw [← hof.authentic.hash_eq] at hdata
  rw [← hconfig] at hsign hjson
  have hprepare := prepare_of_made hsign hjson
  refine ⟨block, jMessage, hsign, hjson, fun hfits => ?_, fun hno => ?_⟩
  · rw [hprepare, if_neg (Nat.not_lt.2 (hfits _ _ hdata))]
  · rw [hprepare, if_pos (Send.lt_dumpLen_of_not_fits hno hdata)]

/-- A text that does not fit is refused before anything is sent. -/
theorem refused_send (laws : E.crypto.SignatureLaws) (session : E.crypto.SessionLaws)
    (hkeys : ∀ cfg ∈ members, cfg.KeyPairMatches E) (hagree : Agrees E members chain net)
    {s : Send} (hsender : s.sender ∈ members) (hrecipient : s.recipient ∈ members)
    (hno : ¬ s.Fits E) : s.run E net = (net, .thrown (.std "Message is too big")) := by
  rcases hagree s.sender hsender with ⟨sender, hown, hconfig, _⟩
  rcases Send.prepared laws session (hkeys _ hsender) (hkeys _ hrecipient) hconfig with
    ⟨_, _, _, _, _, hrefused⟩
  simp only [Send.run, sendSecretMessage, hown, hrefused hno]

/-- Once the message of a member is prepared, its block is stored by everybody, whoever the
recipient is and whatever it does with the message. -/
theorem Agrees.store (laws : E.crypto.SignatureLaws) (compact : E.crypto.CompactLaws)
    (hdistinct : (members.map fun cfg => cfg.me.toUserHost).Nodup)
    (hagree : Agrees E members chain net) {cfg : Config} (hcfg : cfg ∈ members)
    (hkeys : cfg.KeyPairMatches E) {out : Outside} {message : TextMessage} {sender r : Node}
    {block : Block} {jMessage : Json} (htype : message.type = .textMessage)
    (hauthor : message.fromPeer.publicKey = cfg.publicKey)
    (hrange : message.timestamp.toNat < 2 ^ 63)
    (htime : ∀ peer ∈ members,
      message.timestamp.toNat ≤ (out.blockVisit peer.me).checked.millis + 300000)
    (hown : net cfg.me.toUserHost = some sender) (hto : net message.toPeer.toUserHost = some r)
    (hprepare : prepare E out sender message = .ok (block, jMessage))
    (hS : E.CollisionFree (Block.canonicals (chain ++ [block]))) :
    (∃ answer, (sendSecretMessage E out cfg.me.toUserHost message net).2 = .stored block answer) ∧
      Agrees E members (chain ++ [block])
        (sendSecretMessage E out cfg.me.toUserHost message net).1 := by
  rcases hagree cfg hcfg with ⟨n, hn, hconfig, _, hload, hvalid⟩
  rcases Option.some.inj (hown.symm.trans hn) with rfl
  rcases prepare_eq_ok.1 hprepare with ⟨hsign, hjson, _⟩
  have hblocks := validateLocalChain_eq_true.1 hvalid
  rw [hconfig] at hsign
  have hof := blockOf_of_signBlock laws hkeys hauthor hsign
  -- the block continues the common chain, for every member
  have hnext : ValidBlocks E (chain ++ [block]) := by
    rw [← hload]
    exact hblocks.concat hof.authentic (hof.previousHash.trans (findTip_hash _))
  have hstorable : block.Storable :=
    hof.storable ((findTip_hash sender.chain).symm ▸ hblocks.noNul_tip) hrange
  have hdeliver := deliver_moved cfg.me.toUserHost net htype hjson
  have hagree' := hagree.of_same (hdeliver.mono fun _ _ _ _ h => h.same)
  rcases hagree' cfg hcfg with ⟨sender', hown', _, hpeers', hload', _⟩
  have hpeersTake : ∀ p ∈ sender'.peers, ∃ n, (deliver E out cfg.me.toUserHost message block
      jMessage net).1 p.toUserHost = some n ∧
      Acceptable E (out.blockVisit p).checked n.chain block := by
    intro p hp
    rcases List.mem_map.1 (hpeers'.mem_iff.1 hp) with ⟨peer, hpeer, rfl⟩
    have hmember := List.mem_of_mem_erase hpeer
    rcases hagree' peer hmember with ⟨n, hn, _, _, hload, _⟩
    rw [← hload] at hnext hS
    refine ⟨n, hn, acceptable_of_continues hnext hS ?_⟩
    rw [hof.timestamp]
    exact htime peer hmember
  have hinsert : (ChainDB.insertBlock sender'.chain block).2 = true := by
    rw [← hload'] at hnext hS
    exact (insertBlock_continues hnext hstorable (hnext.nodup_hash hS)).1
  rcases storeAndBroadcastBlock_all (E := E) out hown'
    (dumpLen_blockOf compact hkeys laws hauthor hblocks hsign)
    (Agrees.distinct hdistinct hcfg hpeers') hpeersTake hinsert with ⟨hstored, hnodes⟩
  rcases sendSecretMessage_stored hown hprepare hto hstored with ⟨hnet, houtcome⟩
  refine ⟨⟨_, houtcome⟩, ?_⟩
  rw [hnet]
  exact hagree'.extend hnext hstorable hS (fun cfg hcfg => Agrees.reached hcfg hpeers') hnodes

/-- One send: a block is made, and when no digests collide everybody stores it. -/
theorem honest_send (laws : E.crypto.SignatureLaws) (session : E.crypto.SessionLaws)
    (compact : E.crypto.CompactLaws)
    (hdistinct : (members.map fun cfg => cfg.me.toUserHost).Nodup)
    (hkeys : ∀ cfg ∈ members, cfg.KeyPairMatches E) (hagree : Agrees E members chain net)
    {s : Send} (hsender : s.sender ∈ members) (hrecipient : s.recipient ∈ members)
    (hfits : s.Fits E) (htime : s.InTime members) :
    ∃ block, (s.run E net).2.block? = some block ∧
      (E.CollisionFree (Block.canonicals (chain ++ [block])) →
        (∃ answer, (s.run E net).2 = .stored block answer) ∧
          Agrees E members (chain ++ [block]) (s.run E net).1) := by
  rcases hagree s.sender hsender with ⟨sender, hown, hconfig, _⟩
  rcases hagree s.recipient hrecipient with ⟨r, hto, _⟩
  rcases Send.prepared laws session (hkeys _ hsender) (hkeys _ hrecipient) hconfig with
    ⟨block, jMessage, _, _, hprepared, _⟩
  have hprepare := hprepared hfits
  refine ⟨block, ?_, ?_⟩
  · -- either way a block was made
    cases hstored : (storeAndBroadcastBlock E s.out s.sender.me.toUserHost block
      (deliver E s.out s.sender.me.toUserHost s.message block jMessage net).1).1 with
    | true => rw [Send.run, (sendSecretMessage_stored hown hprepare hto hstored).2]; rfl
    | false => rw [Send.run, (sendSecretMessage_rolledBack hown hprepare hto hstored).2]; rfl
  · intro hS
    have hmillis : s.message.timestamp.toNat = s.tick.now.millis := toNat_getTimestamp s.tick.now
    have hnow := getTimestamp_lt s.tick.now
    rw [toNat_getTimestamp] at hnow
    refine hagree.store laws compact hdistinct hsender (hkeys _ hsender) rfl rfl ?_ ?_ hown hto
      hprepare hS
    · rw [hmillis]
      omega
    · rw [hmillis]
      exact htime

/-- The first send, and then the others. -/
theorem madeBlocks_runSends (s : Send) (sends : List Send) (net : Nodes) :
    madeBlocks (runSends E (s :: sends) net).2 =
      (s.run E net).2.block?.toList ++ madeBlocks (runSends E sends (s.run E net).1).2 := by
  cases hblock : (s.run E net).2.block? <;> simp [madeBlocks, runSends, hblock]

/-- Any sequence of sends of any texts: each block is stored by everybody, and after each send the
members hold one valid chain, longer by the block of the send if its text was not refused. -/
theorem honest_network_agrees (laws : E.crypto.SignatureLaws) (session : E.crypto.SessionLaws)
    (compact : E.crypto.CompactLaws)
    (hdistinct : (members.map fun cfg => cfg.me.toUserHost).Nodup)
    (hkeys : ∀ cfg ∈ members, cfg.KeyPairMatches E) (hagree : Agrees E members chain net)
    {sends : List Send} (hmembers : ∀ s ∈ sends, s.sender ∈ members ∧ s.recipient ∈ members)
    (htime : ∀ s ∈ sends, s.InTime members)
    (hS : E.CollisionFree (Block.canonicals (chain ++ madeBlocks (runSends E sends net).2))) :
    List.Forall₂ (Send.EndsWell E) sends (runSends E sends net).2 ∧
      ∀ k ≤ sends.length, Agrees E members
        (chain ++ madeBlocks (runSends E (sends.take k) net).2)
        (runSends E (sends.take k) net).1 := by
  -- the agreement is the invariant, with the chain as it grows
  induction sends generalizing chain net with
  | nil =>
      refine ⟨.nil, ?_⟩
      intro k hk
      simpa [runSends, madeBlocks] using hagree
  | cons s sends ih =>
      rw [List.forall_mem_cons] at hmembers htime
      rw [madeBlocks_runSends, ← List.append_assoc] at hS
      have hfirst : s.EndsWell E (s.run E net).2 ∧
          Agrees E members (chain ++ (s.run E net).2.block?.toList) (s.run E net).1 := by
        by_cases hfits : s.Fits E
        · rcases honest_send laws session compact hdistinct hkeys hagree hmembers.1.1 hmembers.1.2
            hfits htime.1 with ⟨block, hblock, hsend⟩
          rw [hblock] at hS ⊢
          have hfree : E.CollisionFree (Block.canonicals (chain ++ [block])) :=
            hS.mono (Block.canonicals_mono fun b hb => List.mem_append_left _ hb)
          rcases hsend hfree with ⟨⟨answer, hstored⟩, hagree'⟩
          exact ⟨⟨fun _ => ⟨block, answer, hstored⟩, fun hno => absurd hfits hno⟩, hagree'⟩
        · -- a text that does not fit stops the send before anything happens
          rw [refused_send laws session hkeys hagree hmembers.1.1 hmembers.1.2 hfits]
          refine ⟨⟨fun h => absurd h hfits, fun _ => rfl⟩, ?_⟩
          simpa [Outcome.block?] using hagree
      rcases ih hfirst.2 hmembers.2 htime.2 hS with ⟨hrest, hafter⟩
      refine ⟨.cons hfirst.1 hrest, ?_⟩
      intro k hk
      cases k with
      | zero => simpa [runSends, madeBlocks] using hagree
      | succ k =>
          have hnext := hafter k (Nat.le_of_succ_le_succ hk)
          rw [List.append_assoc, ← madeBlocks_runSends] at hnext
          exact hnext

end Members

/-! ## Two nodes without blocks -/

namespace SmallNet

open KeyedTable

def members : List Config := [FirstBlock.config, FirstBlock.rivalConfig]

/-- Each knows the other one. -/
def pair : Nodes := net [node FirstBlock.config [FirstBlock.rivalConfig.me] Table.empty,
  node FirstBlock.rivalConfig [FirstBlock.config.me] Table.empty]

def send (text : Bytes) : Send where
  sender := FirstBlock.config
  recipient := FirstBlock.rivalConfig
  tick := FirstBlock.tick "m1"
  text := text
  out := outside

theorem distinct_members : (members.map fun cfg => cfg.me.toUserHost).Nodup := by
  decide +kernel

theorem keyPairMatches_members : ∀ cfg ∈ members, cfg.KeyPairMatches testEnv := by
  intro cfg hcfg
  rcases List.mem_pair.1 hcfg with rfl | rfl
  · exact FirstBlock.keyPairMatches
  · exact FirstBlock.rival_keyPairMatches

theorem pair_config : pair FirstBlock.config.me.toUserHost =
    some (node FirstBlock.config [FirstBlock.rivalConfig.me] Table.empty) := net_self _ _

theorem pair_rivalConfig : pair FirstBlock.rivalConfig.me.toUserHost =
    some (node FirstBlock.rivalConfig [FirstBlock.config.me] Table.empty) :=
  (net_of_ne config_ne_rival _).trans (net_self _ _)

theorem agrees_pair : Agrees testEnv members [] pair := by
  have hvalid : validateLocalChain testEnv Table.empty = .ok true :=
    validateLocalChain_eq_true.2 ValidBlocks.nil
  intro cfg hcfg
  rcases List.mem_pair.1 hcfg with rfl | rfl
  · refine ⟨_, pair_config, rfl, ?_, rfl, hvalid⟩
    decide +kernel
  · refine ⟨_, pair_rivalConfig, rfl, ?_, rfl, hvalid⟩
    decide +kernel

theorem inTime_send (text : Bytes) : (send text).InTime members := by
  intro cfg _
  exact Nat.le_add_right _ _

theorem stringLen_rivalKey : Json.stringLen FirstBlock.rivalConfig.publicKey = 66 :=
  (Json.stringLen_toHex _).trans (by decide)

/-- With these keys 16144 bytes of text fit. -/
theorem fits_send {text : Bytes} : (send text).Fits testEnv ↔ text.length ≤ 16144 := by
  have hlen : ∀ data j, ((send text).message.setBlockHash (testEnv.sha256 data)).serialize testEnv
      FirstBlock.config.privateKey outside.draws = .ok j → j.dumpLen = 2 * text.length + 480 :=
    fun data j hj => dumpLen_messageTo stringLen_rivalKey (testEnv.stringLen_sha256 data) hj
  constructor
  · intro hfits
    rcases TextMessage.serialize_ok XORCrypto.signatureLaws XORCrypto.sessionLaws
      FirstBlock.keyPairMatches FirstBlock.rival_keyPairMatches
      (m := (send text).message.setBlockHash (testEnv.sha256 [])) rfl outside.draws with ⟨j, hj⟩
    have hsmall := hfits [] j hj
    rw [hlen [] j hj, bufferSize] at hsmall
    omega
  · intro hsmall data j hj
    rw [hlen data j hj, bufferSize]
    omega

/-- An answer, by a clock that is a little behind. -/
def reply : Send where
  sender := FirstBlock.rivalConfig
  recipient := FirstBlock.config
  tick := { uuid := "m2", now := ⟨1699999999999, by decide⟩ }
  text := [98]
  out := outside

/-- The block of the answer. -/
def replyBlock : Block where
  hash := "94977fd07a03dadfb8c61292419c14ec3b73ad32429b8e398998fe49738de34c"
  previousHash := "9528acc67248a755bdb20a8d90ac1e2abb496a5eaf7872a0784cf551c612296f"
  payloadHash := "3e23e8160039594a33894f6564e1b1348bbd7a0088d42c4acb73eeaed59c009d"
  authorPublicKey := "0900000000000000000000000000000000000000000000000000000000000000"
  signature := "7e207d693669366b6965326e623b373c550c075e5c050e020a54510d510e050d"
  timestamp := 1699999999999

theorem signBlock_reply : signBlock testEnv FirstBlock.rivalConfig.privateKey reply.out.blockSign
    (unsignedBlock testEnv reply.message FirstBlock.block) = .ok replyBlock := by
  decide +kernel

/-- A text and the answer to it. -/
def exchange : List Send := [send [104, 105], reply]

theorem exchange_members : ∀ s ∈ exchange, s.sender ∈ members ∧ s.recipient ∈ members := by
  have hrival := List.mem_cons_of_mem FirstBlock.config
    (List.mem_cons_self (a := FirstBlock.rivalConfig) (l := []))
  intro s hs
  rcases List.mem_pair.1 hs with rfl | rfl
  · exact ⟨List.mem_cons_self, hrival⟩
  · exact ⟨hrival, List.mem_cons_self⟩

theorem inTime_exchange : ∀ s ∈ exchange, s.InTime members := by
  intro s hs
  rcases List.mem_pair.1 hs with rfl | rfl
  · exact inTime_send _
  · intro cfg _
    show (1699999999999 : Nat) ≤ 1700000000000 + 300000
    omega

/-- The two blocks that are made. -/
theorem madeBlocks_exchange : madeBlocks (runSends testEnv exchange pair).2 ⊆
    [FirstBlock.block, replyBlock] := by
  have hfirst : ((send [104, 105]).run testEnv pair).2.block?.toList ⊆ [FirstBlock.block] :=
    Send.block?_subset pair_config (signBlock_messageTo _)
  rcases honest_send XORCrypto.signatureLaws XORCrypto.sessionLaws XORCrypto.compactLaws
    distinct_members keyPairMatches_members agrees_pair (s := send [104, 105]) List.mem_cons_self
    (List.mem_cons_of_mem _ List.mem_cons_self) (fits_send.2 (by decide)) (inTime_send _) with
    ⟨block, hblock, hsend⟩
  have hmade : block = FirstBlock.block := by
    rw [hblock] at hfirst
    exact List.mem_singleton.1 (hfirst (List.mem_singleton_self block))
  rcases hsend (Block.collisionFree_singleton testEnv block) with ⟨-, hagree⟩
  rw [hmade] at hagree
  -- the answer goes over the block of the text
  rcases hagree FirstBlock.rivalConfig (List.mem_cons_of_mem _ List.mem_cons_self) with
    ⟨n, hn, hconfig, -, hload, -⟩
  have htip : ChainDB.findTip n.chain = some FirstBlock.block := by
    rw [ChainDB.findTip_eq, hload]
    rfl
  have hsecond : (reply.run testEnv ((send [104, 105]).run testEnv pair).1).2.block?.toList ⊆
      [replyBlock] := by
    have hown : reply.sender.me.toUserHost = FirstBlock.rivalConfig.me.toUserHost := rfl
    rw [← hown] at hn
    refine Send.block?_subset (s := reply) hn ?_
    rw [hconfig, htip]
    exact signBlock_reply
  have hnone : madeBlocks (runSends testEnv []
      (reply.run testEnv ((send [104, 105]).run testEnv pair).1).1).2 = [] := rfl
  rw [exchange, madeBlocks_runSends, madeBlocks_runSends, hnone, List.append_nil]
  intro b hb
  rcases List.mem_append.1 hb with hb | hb
  · exact List.mem_cons.2 (Or.inl (List.mem_singleton.1 (hfirst hb)))
  · exact List.mem_cons_of_mem _ (hsecond hb)

theorem collisionFree_exchange : testEnv.CollisionFree
    (Block.canonicals ([] ++ madeBlocks (runSends testEnv exchange pair).2)) := by
  have hauthentic : Authentic testEnv replyBlock :=
    (blockOf_of_signBlock XORCrypto.signatureLaws FirstBlock.rival_keyPairMatches rfl
      signBlock_reply).authentic
  have hboth : testEnv.CollisionFree (Block.canonicals [FirstBlock.block, replyBlock]) := by
    refine collisionFree_of_nodup (fun b hb => ?_) (by decide)
    rcases List.mem_pair.1 hb with rfl | rfl
    · exact FirstBlock.blockOf_block.authentic
    · exact hauthentic
  rw [List.nil_append]
  exact hboth.mono (Block.canonicals_mono madeBlocks_exchange)

/-- Two members agree on the block of the text, and then on that of the answer over it. -/
theorem honest_network_agrees_exchange :
    List.Forall₂ (Send.EndsWell testEnv) exchange (runSends testEnv exchange pair).2 ∧
      ∀ k ≤ 2, Agrees testEnv members
        ([] ++ madeBlocks (runSends testEnv (exchange.take k) pair).2)
        (runSends testEnv (exchange.take k) pair).1 :=
  honest_network_agrees XORCrypto.signatureLaws XORCrypto.sessionLaws XORCrypto.compactLaws
    distinct_members keyPairMatches_members agrees_pair exchange_members inTime_exchange
    collisionFree_exchange

/-- A longer text is refused, and both chains stay empty. -/
theorem big_text_refused :
    Agrees testEnv members [] pair ∧
      (Send.run testEnv (send (List.replicate 16145 104)) pair).2 =
        .thrown (.std "Message is too big") ∧
      Agrees testEnv members [] (Send.run testEnv (send (List.replicate 16145 104)) pair).1 := by
  have hno : ¬ (send (List.replicate 16145 104)).Fits testEnv := by
    rw [fits_send, List.length_replicate]
    decide
  have hrefused := refused_send XORCrypto.signatureLaws XORCrypto.sessionLaws
    keyPairMatches_members agrees_pair List.mem_cons_self
    (List.mem_cons_of_mem _ List.mem_cons_self) hno
  rw [hrefused]
  exact ⟨agrees_pair, rfl, agrees_pair⟩

/-- A text that fits, from the preparation to the end of the send. -/
theorem stored_send (text : Bytes) (hlen : text.length ≤ 16144) :
    ∃ block jMessage answer,
      prepare testEnv outside (node FirstBlock.config [FirstBlock.rivalConfig.me] Table.empty)
        (send text).message = .ok (block, jMessage) ∧
      jMessage.dumpLen = 2 * text.length + 480 ∧
      (sendSecretMessage testEnv outside FirstBlock.config.me.toUserHost
        (send text).message pair).2 =
        .stored block answer ∧
      Agrees testEnv members [block] (sendSecretMessage testEnv outside
        FirstBlock.config.me.toUserHost (send text).message pair).1 := by
  rcases Send.prepared XORCrypto.signatureLaws XORCrypto.sessionLaws
    (s := send text) FirstBlock.keyPairMatches FirstBlock.rival_keyPairMatches
    (n := node FirstBlock.config [FirstBlock.rivalConfig.me] Table.empty) rfl with
    ⟨block, jMessage, hsign, hjson, hprepared, _⟩
  have hprepare : prepare testEnv outside (node FirstBlock.config [FirstBlock.rivalConfig.me]
      Table.empty) (send text).message = .ok (block, jMessage) := hprepared (fits_send.2 hlen)
  have hauthor : (send text).message.fromPeer.publicKey = FirstBlock.config.publicKey := rfl
  have hof := blockOf_of_signBlock XORCrypto.signatureLaws FirstBlock.keyPairMatches hauthor hsign
  have hhash : Json.stringLen block.hash = 66 := by
    rw [← hof.authentic.hash_eq]
    exact testEnv.stringLen_sha256 _
  have hmillis : (send text).message.timestamp.toNat = 1700000000000 :=
    toNat_getTimestamp FirstBlock.now
  rcases agrees_pair.store XORCrypto.signatureLaws XORCrypto.compactLaws distinct_members
    List.mem_cons_self FirstBlock.keyPairMatches rfl rfl (by rw [hmillis]; decide)
    (fun _ _ => hmillis.trans_le (Nat.le_add_right _ 300000)) pair_config pair_rivalConfig hprepare
    (Block.collisionFree_singleton testEnv block) with ⟨⟨answer, hstored⟩, hagree⟩
  exact ⟨block, jMessage, answer, hprepare, dumpLen_messageTo stringLen_rivalKey hhash hjson,
    hstored, hagree⟩

end SmallNet

end Network
end DChat
