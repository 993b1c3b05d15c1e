import DChat.Splits
import DChat.Commitment

/-!
# Halting — one refused block stops everybody

A send stores its block at one peer after the other and in the own chain last, and nobody takes a
block back.  So when some peer refuses a block that another one has taken already, the author is the
only one who could ever have made it, and does not have it.  The two chains never come together
again, and whoever lists both of them gets no block stored: in a network in which every node knows
every other one, nobody does.  Only a start, which asks for the missing blocks, ends that.
-/

namespace DChat
namespace Network
namespace Halting

open Utils Crypto Peer Messaging Blockchain BlockchainService Chat PartyMap TCPClient
open LinkedChain

variable {E : Env}

/-! ## Made blocks -/

/-- A block as the owner of the configuration makes it. -/
structure MadeBy (E : Env) (cfg : Config) (b : Block) : Prop where
  authentic : Authentic E b
  storable : b.Storable
  author : b.authorPublicKey = cfg.publicKey
  bars_previous : Block.bars b.previousHash = 0
  bars_payload : Block.bars b.payloadHash = 0

theorem bars_eq_zero {s : String} (h : '|' ∉ s.toList) : Block.bars s = 0 :=
  List.count_eq_zero_of_not_mem h

theorem bar_not_mem_tip {blocks : List Block} (h : ValidBlocks E blocks) :
    '|' ∉ (tip Block.hash "0" blocks).toList := by
  by_cases hne : blocks = []
  · rw [hne]
    decide
  · obtain ⟨b, hb, hhash⟩ := tip_mem Block.hash "0" hne
    rw [← hhash]
    exact (h.authentic b hb).bar_not_mem_hash

/-- What `createBlockFromMessage` makes of a text message of the owner. -/
theorem madeBy_of_signBlock (laws : E.crypto.SignatureLaws) {cfg : Config}
    (hkeys : cfg.KeyPairMatches E) {rnd : Rand} {message : TextMessage} {t : BlockTable}
    {block : Block} (hvalid : ValidBlocks E (ChainDB.loadAllBlocks t))
    (hauthor : message.fromPeer.publicKey = cfg.publicKey)
    (hrange : message.timestamp.toNat < 2 ^ 63)
    (hsign : signBlock E cfg.privateKey rnd
      (unsignedBlock E message ((ChainDB.findTip t).getD Block.default)) = .ok block) :
    MadeBy E cfg block ∧ block.previousHash = tipHash t := by
  have hof := blockOf_of_signBlock laws hkeys hauthor hsign
  have hprevious : block.previousHash = tipHash t := hof.previousHash.trans (findTip_hash t)
  have hnul : NoNul ((ChainDB.findTip t).getD Block.default).hash :=
    (findTip_hash t).symm ▸ hvalid.noNul_tip
  refine ⟨⟨hof.authentic, hof.storable hnul hrange, hof.authorPublicKey.trans hauthor, ?_, ?_⟩,
    hprevious⟩
  · rw [hprevious]
    exact bars_eq_zero (bar_not_mem_tip hvalid)
  · rw [hof.payloadHash]
    refine bars_eq_zero fun hmem => ?_
    exact absurd (mem_toHex hmem) (by decide)

/-- Without collisions the hash says who made the block. -/
theorem MadeBy.publicKey_eq {S : Set Bytes} (hS : E.CollisionFree S) {cfg cfg' : Config}
    {a b : Block} (ha : MadeBy E cfg a) (hb : MadeBy E cfg' b) (haS : a.canonicalBytes ∈ S)
    (hbS : b.canonicalBytes ∈ S) (hhash : a.hash = b.hash) : cfg.publicKey = cfg'.publicKey := by
  have hstring := ha.authentic.toStringForHash_eq hS hb.authentic haS hbS hhash
  have hfields := (Block.fields_eq_iff hstring).2
    ⟨ha.bars_previous.trans hb.bars_previous.symm, ha.bars_payload.trans hb.bars_payload.symm⟩
  rw [← ha.author, ← hb.author]
  exact hfields.2.2.1

/-! ## What a send that is not stored does -/

/-- The chain is as it was, or the node is one of the peers and took the block from the sender. -/
structure Passed (E : Env) (block : Block) (peers : List UserHost) (h : UserHost) (n n' : Node) :
    Prop where
  same : n' = { n with messages := n'.messages, chatPeers := n'.chatPeers, chain := n'.chain }
  chain : n'.chain = n.chain ∨
    h ∈ peers ∧ (∃ now, Acceptable E now n.chain block) ∧
      n'.chain = (ChainDB.insertBlock n.chain block).1

namespace Passed

variable {block : Block} {peers : List UserHost} {h : UserHost} {n n' n'' : Node}

theorem of_chain (hsame : n' = { n with messages := n'.messages, chatPeers := n'.chatPeers })
    : Passed E block peers h n n' := by
  have hchain : n'.chain = n.chain := by rw [hsame]
  refine ⟨?_, Or.inl hchain⟩
  rw [hchain]
  exact hsame

theorem refl (block : Block) (peers : List UserHost) (h : UserHost) (n : Node) :
    Passed E block peers h n n := of_chain rfl

/-- A block that was inserted is not acceptable again. -/
theorem trans (h₁ : Passed E block peers h n n') (h₂ : Passed E block peers h n' n'') :
    Passed E block peers h n n'' := by
  refine ⟨by rw [h₂.same, h₁.same], ?_⟩
  rcases h₁.chain with hsame | ⟨hmem, hyes, hinsert⟩
  · have hlater := h₂.chain
    rwa [hsame] at hlater
  · rcases h₂.chain with hsame | ⟨-, ⟨now, hagain⟩, hinsert'⟩
    · exact Or.inr ⟨hmem, hyes, hsame.trans hinsert⟩
    · cases hstored : (ChainDB.insertBlock n.chain block).2 with
      | true =>
          have hrow := List.mem_map_of_mem (f := BlockRow.toBlock)
            (hinsert ▸ ofBlock_mem_of_insertBlock hstored)
          exact absurd rfl (hagain.fresh _ hrow)
      | false =>
          have hleft := ChainDB.insertBlock_of_false hstored
          rw [hinsert, hleft] at hinsert'
          exact Or.inr ⟨hmem, hyes, hinsert'⟩

theorem mono {more : List UserHost} (hsub : peers ⊆ more) (h₁ : Passed E block peers h n n') :
    Passed E block more h n n' :=
  ⟨h₁.same, h₁.chain.imp_right fun ⟨hmem, hrest⟩ => ⟨hsub hmem, hrest⟩⟩

theorem moved_trans {net net' net'' : Nodes} (h₁ : Moved (Passed E block peers) net net')
    (h₂ : Moved (Passed E block peers) net' net'') : Moved (Passed E block peers) net net'' :=
  Moved.trans (fun _ _ _ _ => Passed.trans) h₁ h₂

end Passed

section Send

variable (out : Outside) (own : UserHost) {message : TextMessage} {block : Block} (net : Nodes)

theorem broadcast_passed (peers : List UserPeer) :
    Moved (Passed E block (peers.map UserPeer.toUserHost)) net
      (broadcast (sendCallback E out block.toJson) peers net).2 := by
  induction peers generalizing net with
  | nil => exact Moved.refl (Passed.refl block _) net
  | cons peer peers ih =>
      have hsub : peers.map UserPeer.toUserHost ⊆ (peer :: peers).map UserPeer.toUserHost :=
        fun _ hmem => List.mem_cons_of_mem _ hmem
      have hrest : ∀ net, Moved (Passed E block ((peer :: peers).map UserPeer.toUserHost)) net
          (broadcast (sendCallback E out block.toJson) peers net).2 := fun net =>
        (ih net).mono fun _ _ _ _ hpassed => hpassed.mono hsub
      rw [broadcast]
      cases hn : net peer.toUserHost with
      | none =>
          have hcall : sendCallback E out block.toJson peer net = (.ok true, net) := by
            simp only [sendCallback, hn]
          rw [hcall]
          exact hrest net
      | some n =>
          rcases sendCallback_cases (E := E) out block peer hn with
            ⟨⟨-, hyes⟩, hcall⟩ | ⟨-, hcall⟩
          · rw [hcall]
            refine Passed.moved_trans (Moved.modify ?_ ?_) (hrest _)
            · intro n' hn'
              rcases Option.some.inj (hn.symm.trans hn') with rfl
              exact ⟨rfl, Or.inr ⟨List.mem_cons_self .., ⟨_, hyes⟩, rfl⟩⟩
            · exact fun h n _ => Passed.refl block _ h n
          · rw [hcall]
            exact Moved.refl (Passed.refl block _) net

/-- The removal of the rows touches messages only. -/
theorem rollback_passed (peers : List UserHost) :
    Moved (Passed E block peers) net (rollback own message block net) :=
  (rollback_moved own message block net).mono
    fun _ _ _ _ hback => Passed.of_chain (by rw [hback.same])

/-- And so does the report of it, whether it arrives or not. -/
theorem deliverReport_passed (reported : Block) (peers : List UserHost) :
    Moved (Passed E block peers) net (deliverReport E out message reported net) := by
  by_cases hwhole : (errorMessage out message reported).serialize.dumpLen ≤ bufferSize - 1
  · exact (deliverReport_moved out message reported net hwhole).mono
      fun _ _ _ _ hback => Passed.of_chain (by rw [hback.same])
  · simp only [deliverReport, request, received, hwhole, if_false]
    exact Moved.refl (Passed.refl block peers) net

theorem storeAndBroadcastBlock_passed {sender : Node} (hown : net own = some sender)
    (hfalse : (storeAndBroadcastBlock E out own block net).1 = false) :
    Moved (Passed E block (sender.peers.map UserPeer.toUserHost)) net
      (storeAndBroadcastBlock E out own block net).2 := by
  have hpassed : Moved (Passed E block (sender.peers.map UserPeer.toUserHost)) net
      (broadcast (sendCallback E out block.toJson) sender.peers net).2 :=
    broadcast_passed out net sender.peers
  rw [storeAndBroadcastBlock, hown, Option.map_some, Option.getD_some] at hfalse ⊢
  rcases hloop : broadcast (sendCallback E out block.toJson) sender.peers net with ⟨sent, net'⟩
  rw [hloop] at hpassed hfalse
  dsimp only at hpassed hfalse ⊢
  cases hown' : net' own with
  | none => exact hpassed
  | some n =>
      rw [hown'] at hfalse
      dsimp only at hfalse ⊢
      -- the own insertion was not tried, or did nothing
      have hkept : ((storeBlock sent block).run ChainOp.exec n.chain).2 = n.chain := by
        cases sent with
        | false => rfl
        | true => exact ChainDB.insertBlock_of_false hfalse
      refine Passed.moved_trans hpassed (Moved.modify ?_ ?_)
      · intro n' hn'
        rcases Option.some.inj (hown'.symm.trans hn') with rfl
        rw [hkept]
        exact Passed.refl block _ own n
      · exact fun h n _ => Passed.refl block _ h n

/-- How a send gets to its rollback. -/
theorem rolledBack_eq {answer : Option Json}
    (hend : (sendSecretMessage E out own message net).2 = .rolledBack block answer) :
    ∃ sender jMessage, net own = some sender ∧
      prepare E out sender message = .ok (block, jMessage) ∧
      (storeAndBroadcastBlock E out own block
        (deliver E out own message block jMessage net).1).1 = false ∧
      (sendSecretMessage E out own message net).1 = rollback own message block
        (storeAndBroadcastBlock E out own block
          (deliver E out own message block jMessage net).1).2 := by
  rcases sendSecretMessage_cases (E := E) out own message net with
    ⟨-, hother | ⟨e, hother⟩⟩ | ⟨sender, made, jMessage, hown, hprepare,
      ⟨-, -, hother⟩ | ⟨hfalse, hnet, hother⟩⟩
  · cases hend.symm.trans hother
  · cases hend.symm.trans hother
  · cases hend.symm.trans hother
  · rcases Outcome.rolledBack.inj (hend.symm.trans hother) with ⟨rfl, -⟩
    exact ⟨sender, jMessage, hown, hprepare, hfalse, hnet⟩

/-- After a rollback a chain has grown only by the block, and only at a peer of the sender. -/
theorem rolledBack_passed {sender : Node} {answer : Option Json} (hown : net own = some sender)
    (htype : message.type = .textMessage)
    (hend : (sendSecretMessage E out own message net).2 = .rolledBack block answer) :
    (∃ jMessage, prepare E out sender message = .ok (block, jMessage)) ∧
      Moved (Passed E block (sender.peers.map UserPeer.toUserHost)) net
        (sendSecretMessage E out own message net).1 := by
  obtain ⟨sender', jMessage, hown', hprepare, hfalse, hnet⟩ := rolledBack_eq out own net hend
  obtain rfl := Option.some.inj (hown'.symm.trans hown)
  refine ⟨⟨jMessage, hprepare⟩, ?_⟩
  have hdeliver := deliver_moved own net htype (prepare_eq_ok.1 hprepare).2.1
  obtain ⟨sender₁, hown₁, hsame₁⟩ := hdeliver.of_some hown
  have hpeers : sender₁.peers = sender'.peers := by rw [hsame₁.same]
  have hsent := storeAndBroadcastBlock_passed out own _ hown₁ hfalse
  rw [hpeers] at hsent
  rw [hnet]
  have hfirst : Moved (Passed E block (sender'.peers.map UserPeer.toUserHost)) net _ :=
    hdeliver.mono fun _ _ _ _ hd => Passed.of_chain hd.same
  have hsecond : Moved (Passed E block (sender'.peers.map UserPeer.toUserHost)) net _ :=
    Passed.moved_trans hfirst hsent
  exact Passed.moved_trans hsecond (rollback_passed own _ _)

/-- The first peer keeps the block when it finds it acceptable, whatever the others do. -/
theorem first_peer_keeps {sender n : Node} {peer : UserPeer} {peers : List UserPeer}
    {answer : Option Json} (hown : net own = some sender) (hpeers : sender.peers = peer :: peers)
    (htype : message.type = .textMessage) (hn : net peer.toUserHost = some n)
    (hvalid : ValidBlocks E (ChainDB.loadAllBlocks n.chain))
    (hlen : block.toJson.dumpLen ≤ bufferSize - 1)
    (hyes : Acceptable E (out.blockVisit peer).checked n.chain block)
    (hend : (sendSecretMessage E out own message net).2 = .rolledBack block answer) :
    ∀ n' ∈ (sendSecretMessage E out own message net).1 peer.toUserHost,
      ChainDB.hasBlock n'.chain block.hash = true := by
  obtain ⟨sender', jMessage, hown', hprepare, -, hnet⟩ := rolledBack_eq out own net hend
  obtain rfl := Option.some.inj (hown.symm.trans hown')
  have hdeliver := deliver_moved own net htype (prepare_eq_ok.1 hprepare).2.1
  obtain ⟨sender₁, hown₁, hsame₁⟩ := hdeliver.of_some hown
  obtain ⟨n₁, hn₁, hsame⟩ := hdeliver.of_some hn
  have hpeers₁ : sender₁.peers = peer :: peers := by rw [hsame₁.same, ← hpeers]
  have hchain₁ : n₁.chain = n.chain := by rw [hsame.same]
  rcases sendCallback_cases (E := E) out block peer hn₁ with ⟨-, hcall⟩ | ⟨hno, -⟩
  swap
  · exact absurd ⟨hlen, hchain₁ ▸ hyes⟩ hno
  -- from there on the chain of the peer only grows
  have hgrow : Splits.AllGrow (modify peer.toUserHost
      (fun n => { n with chain := (ChainDB.insertBlock n.chain block).1 })
      (deliver E out own message block jMessage net).1)
      (sendSecretMessage E out own message net).1 := by
    rw [hnet]
    refine Splits.AllGrow.trans ?_ (Splits.rollback_grows own message block _)
    have hlist : (((deliver E out own message block jMessage net).1 own).map Node.peers).getD [] =
        peer :: peers := by rw [hown₁, Option.map_some, Option.getD_some, hpeers₁]
    rw [Splits.storeAndBroadcastBlock_snd out own block _ hlist, broadcast, hcall]
    exact (Splits.broadcast_grows out _ block.toJson peers).trans
      (Splits.AllGrow.modify fun n _ => ⟨rfl, Splits.storeBlock_grows block _ n.chain⟩)
  intro n' hn'
  have hmid : modify peer.toUserHost
      (fun n => { n with chain := (ChainDB.insertBlock n.chain block).1 })
      (deliver E out own message block jMessage net).1 peer.toUserHost =
        some { n₁ with chain := (ChainDB.insertBlock n₁.chain block).1 } := by
    rw [modify_self, hn₁, Option.map_some]
  obtain ⟨n'', hn'', hlater⟩ := hgrow.of_some hmid
  obtain rfl := Option.some.inj (hn'.symm.trans hn'')
  have hrow := ofBlock_mem_of_insertBlock (hyes.insertBlock hvalid)
  rw [← hchain₁] at hrow
  exact hasBlock_of_mem (hlater.chain.subset hrow)

end Send

/-! ## Sends and reports -/

/-- What may happen in the network: somebody sends a text, or the error report of some send
arrives. -/
inductive Event
  | send (s : Send)
  | report (out : Outside) (message : TextMessage) (block : Block)

namespace Event

def run (E : Env) : Event → Nodes → Nodes × Option Outcome
  | send s, net => ((s.run E net).1, some (s.run E net).2)
  | report out message block, net => (deliverReport E out message block net, none)

/-- A text is sent by a member. -/
def By (members : List Config) : Event → Prop
  | send s => s.sender ∈ members
  | report .. => True

end Event

/-- The events one after the other, with the ends of the sends among them. -/
def runEvents (E : Env) : List Event → Nodes → Nodes × List Outcome
  | [], net => (net, [])
  | e :: events, net =>
      let (net, outcome) := e.run E net
      let (net, outcomes) := runEvents E events net
      (net, outcome.toList ++ outcomes)

theorem madeBlocks_append (first later : List Outcome) :
    madeBlocks (first ++ later) = madeBlocks first ++ madeBlocks later := List.filterMap_append

theorem madeBlocks_some (outcome : Outcome) :
    madeBlocks (some outcome).toList = outcome.block?.toList := by
  cases hblock : outcome.block? <;> simp [madeBlocks, hblock]

theorem madeBlocks_send (s : Send) (net : Nodes) :
    madeBlocks ((Event.send s).run E net).2.toList = (s.run E net).2.block?.toList :=
  madeBlocks_some _

/-! ## A full mesh -/

/-- A member that runs: it knows every other one, does not list itself, and its chain is valid. -/
structure MeshNode (E : Env) (members : List Config) (cfg : Config) (n : Node) : Prop where
  config : n.config = cfg
  knows : ∀ other ∈ members, other ≠ cfg → other.me ∈ n.peers
  others : ∀ p ∈ n.peers, p.toUserHost ≠ cfg.me.toUserHost
  valid : ValidBlocks E (ChainDB.loadAllBlocks n.chain)

/-- Every member runs and knows all others, and they have different keys. -/
structure Mesh (E : Env) (members : List Config) (net : Nodes) : Prop where
  keys : ∀ cfg ∈ members, cfg.KeyPairMatches E
  distinct : ∀ a ∈ members, ∀ b ∈ members, a.publicKey = b.publicKey → a = b
  node : ∀ cfg ∈ members, ∃ n, net cfg.me.toUserHost = some n ∧ MeshNode E members cfg n

/-- The chains of the members are hashed from `S`. -/
def HashedFrom (S : Set Bytes) (members : List Config) (net : Nodes) : Prop :=
  ∀ cfg ∈ members, ∀ n, net cfg.me.toUserHost = some n →
    Block.canonicals (ChainDB.loadAllBlocks n.chain) ⊆ S

/-- Whether the chain has a block under the hash. -/
def Has (t : BlockTable) (hash : String) : Prop := ∃ c ∈ ChainDB.loadAllBlocks t, c.hash = hash

/-- What a refused block leaves behind: a member has it, and the one that made it has not. -/
structure Halted (E : Env) (S : Set Bytes) (members : List Config) (author taker : Config)
    (b : Block) (net : Nodes) : Prop where
  mesh : Mesh E members net
  hashed : HashedFrom S members net
  author_mem : author ∈ members
  taker_mem : taker ∈ members
  made : MadeBy E author b
  hashed_made : b.canonicalBytes ∈ S
  lacks : ∀ n, net author.me.toUserHost = some n → ¬ Has n.chain b.hash
  keeps : ∀ n, net taker.me.toUserHost = some n → Has n.chain b.hash

section Steps

variable {members : List Config} {net net' : Nodes} {S : Set Bytes} {block : Block}
  {peers : List UserHost}

theorem Mesh.node_of_some (hmesh : Mesh E members net) {cfg : Config} (hcfg : cfg ∈ members)
    {n : Node} (hn : net cfg.me.toUserHost = some n) : MeshNode E members cfg n := by
  obtain ⟨m, hm, hnode⟩ := hmesh.node cfg hcfg
  rcases Option.some.inj (hn.symm.trans hm) with rfl
  exact hnode

/-- An acceptable block continues the chain, when it is inserted at all. -/
theorem Passed.load {h : UserHost} {n n' : Node} (hstorable : block.Storable)
    (hvalid : ValidBlocks E (ChainDB.loadAllBlocks n.chain))
    (hpassed : Passed E block peers h n n') :
    ValidBlocks E (ChainDB.loadAllBlocks n'.chain) ∧
      (ChainDB.loadAllBlocks n'.chain = ChainDB.loadAllBlocks n.chain ∨
        h ∈ peers ∧
          ChainDB.loadAllBlocks n'.chain = ChainDB.loadAllBlocks n.chain ++ [block]) := by
  rcases hpassed.chain with hsame | ⟨hmem, ⟨now, hyes⟩, hinsert⟩
  · rw [hsame]
    exact ⟨hvalid, Or.inl rfl⟩
  · have hload : ChainDB.loadAllBlocks n'.chain = ChainDB.loadAllBlocks n.chain ++ [block] := by
      rw [hinsert, ChainDB.loadAllBlocks_insertBlock (hyes.insertBlock hvalid),
        BlockRow.toBlock_ofBlock hstorable]
    refine ⟨?_, Or.inr ⟨hmem, hload⟩⟩
    have hnames : block.previousHash = tip Block.hash "0" (ChainDB.loadAllBlocks n.chain) := by
      rcases hyes.namesTip with hnames | ⟨hnames, -⟩
      · exact hnames
      · rwa [cString_of_noNul hstorable.previousHash] at hnames
    rw [hload]
    exact hvalid.concat hyes.authentic hnames

theorem Mesh.of_passed (hmesh : Mesh E members net) (hstorable : block.Storable)
    (hpassed : Moved (Passed E block peers) net net') : Mesh E members net' where
  keys := hmesh.keys
  distinct := hmesh.distinct
  node := by
    intro cfg hcfg
    obtain ⟨n, hn, hnode⟩ := hmesh.node cfg hcfg
    obtain ⟨n', hn', hp⟩ := hpassed.of_some hn
    have hconfig : n'.config = n.config := by rw [hp.same]
    have hpeers : n'.peers = n.peers := by rw [hp.same]
    refine ⟨n', hn', hconfig.trans hnode.config, ?_, ?_, (hp.load hstorable hnode.valid).1⟩
    · rw [hpeers]
      exact hnode.knows
    · rw [hpeers]
      exact hnode.others

theorem HashedFrom.of_passed (hhashed : HashedFrom S members net) (hmesh : Mesh E members net)
    (hstorable : block.Storable) (hblock : block.canonicalBytes ∈ S)
    (hpassed : Moved (Passed E block peers) net net') : HashedFrom S members net' := by
  intro cfg hcfg n' hn'
  obtain ⟨n, hn, hp⟩ := hpassed.exists_of_some hn'
  have hnode := hmesh.node_of_some hcfg hn
  have hold := hhashed cfg hcfg n hn
  rcases (hp.load hstorable hnode.valid).2 with hsame | ⟨-, hmore⟩
  · rw [hsame]
    exact hold
  · rw [hmore]
    rintro x ⟨b, hb, rfl⟩
    rcases List.mem_append.1 hb with hb | hb
    · exact hold ⟨b, hb, rfl⟩
    · rw [List.mem_singleton.1 hb]
      exact hblock

variable {author taker : Config} {b : Block}

/-- Nobody else makes the block again, and its author does not send itself anything. -/
theorem Halted.of_passed (hS : E.CollisionFree S)
    (hhalted : Halted E S members author taker b net) {cfg : Config} (hcfg : cfg ∈ members)
    (hmade : MadeBy E cfg block) (hblock : block.canonicalBytes ∈ S)
    (hself : cfg.me.toUserHost ∉ peers) (hpassed : Moved (Passed E block peers) net net') :
    Halted E S members author taker b net' where
  mesh := hhalted.mesh.of_passed hmade.storable hpassed
  hashed := hhalted.hashed.of_passed hhalted.mesh hmade.storable hblock hpassed
  author_mem := hhalted.author_mem
  taker_mem := hhalted.taker_mem
  made := hhalted.made
  hashed_made := hhalted.hashed_made
  lacks := by
    rintro n' hn' ⟨c, hc, hhash⟩
    obtain ⟨n, hn, hp⟩ := hpassed.exists_of_some hn'
    have hnode := hhalted.mesh.node_of_some hhalted.author_mem hn
    rcases (hp.load hmade.storable hnode.valid).2 with hsame | ⟨hmem, hmore⟩
    · exact hhalted.lacks n hn ⟨c, hsame ▸ hc, hhash⟩
    · rw [hmore] at hc
      rcases List.mem_append.1 hc with hc | hc
      · exact hhalted.lacks n hn ⟨c, hc, hhash⟩
      · -- the block that was taken has the hash of the lost one, so the author made it
        rw [List.mem_singleton.1 hc] at hhash
        have hkey := MadeBy.publicKey_eq hS hmade hhalted.made hblock hhalted.hashed_made hhash
        rw [hhalted.mesh.distinct cfg hcfg author hhalted.author_mem hkey] at hself
        exact hself hmem
  keeps := by
    intro n' hn'
    obtain ⟨n, hn, hp⟩ := hpassed.exists_of_some hn'
    have hnode := hhalted.mesh.node_of_some hhalted.taker_mem hn
    obtain ⟨c, hc, hhash⟩ := hhalted.keeps n hn
    rcases (hp.load hmade.storable hnode.valid).2 with hsame | ⟨-, hmore⟩
    · exact ⟨c, hsame ▸ hc, hhash⟩
    · exact ⟨c, hmore ▸ List.mem_append_left _ hc, hhash⟩

/-- The author and the one that has the block end in different tips. -/
theorem Halted.tip_ne (hS : E.CollisionFree S) (hhalted : Halted E S members author taker b net)
    {a t : Node} (ha : net author.me.toUserHost = some a) (ht : net taker.me.toUserHost = some t) :
    tipHash a.chain ≠ tipHash t.chain := by
  intro htip
  have hfree : E.CollisionFree (Block.canonicals
      (ChainDB.loadAllBlocks t.chain ++ ChainDB.loadAllBlocks a.chain)) := by
    refine hS.mono ?_
    rintro x ⟨c, hc, rfl⟩
    rcases List.mem_append.1 hc with hc | hc
    · exact hhalted.hashed taker hhalted.taker_mem t ht ⟨c, hc, rfl⟩
    · exact hhalted.hashed author hhalted.author_mem a ha ⟨c, hc, rfl⟩
  have hmap := (hhalted.mesh.node_of_some hhalted.taker_mem ht).valid.map_eq_of_tip_eq
    (hhalted.mesh.node_of_some hhalted.author_mem ha).valid hfree htip.symm
  -- so the author would have the block as well
  obtain ⟨c, hc, hhash⟩ := hhalted.keeps t ht
  have hmem := List.mem_map_of_mem
    (f := fun b : Block => (b.hash, b.previousHash, b.toStringForHash)) hc
  rw [hmap] at hmem
  obtain ⟨d, hd, hfields⟩ := List.mem_map.1 hmem
  exact hhalted.lacks a ha ⟨d, hd, (congrArg Prod.fst hfields).trans hhash⟩

/-- One of the two has another tip than the sender, and the sender lists it. -/
theorem Halted.not_stored (hS : E.CollisionFree S)
    (hhalted : Halted E S members author taker b net) {s : Send} (hsender : s.sender ∈ members)
    (block : Block) (answer : Option Json) : (s.run E net).2 ≠ .stored block answer := by
  obtain ⟨n, hn, hnode⟩ := hhalted.mesh.node s.sender hsender
  have hrefused : ∀ cfg ∈ members, ∀ m, net cfg.me.toUserHost = some m →
      tipHash n.chain ≠ tipHash m.chain → (s.run E net).2 ≠ .stored block answer := by
    intro cfg hcfg m hm hne
    have hother : cfg ≠ s.sender := by
      rintro rfl
      rcases Option.some.inj (hn.symm.trans hm) with rfl
      exact hne rfl
    exact Splits.not_stored_of_tip_ne hn (hnode.knows cfg hcfg hother) hm hnode.valid.noNul_tip hne
      rfl block answer
  obtain ⟨a, ha, -⟩ := hhalted.mesh.node author hhalted.author_mem
  obtain ⟨t, ht, -⟩ := hhalted.mesh.node taker hhalted.taker_mem
  by_cases htip : tipHash n.chain = tipHash a.chain
  · exact hrefused taker hhalted.taker_mem t ht (htip ▸ hhalted.tip_ne hS ha ht)
  · exact hrefused author hhalted.author_mem a ha htip

/-- A send that is not stored changes nothing, or passes on a block that the sender has made. -/
theorem run_cases (laws : E.crypto.SignatureLaws) (hmesh : Mesh E members net) {s : Send}
    (hsender : s.sender ∈ members)
    (hno : ∀ block answer, (s.run E net).2 ≠ .stored block answer) :
    (s.run E net).1 = net ∧ (s.run E net).2.block? = none ∨
      ∃ block answer sender, (s.run E net).2 = .rolledBack block answer ∧
        net s.sender.me.toUserHost = some sender ∧ MadeBy E s.sender block ∧
        block.previousHash = tipHash sender.chain ∧
        s.sender.me.toUserHost ∉ sender.peers.map UserPeer.toUserHost ∧
        Moved (Passed E block (sender.peers.map UserPeer.toUserHost)) net (s.run E net).1 := by
  obtain ⟨n, hn, hnode⟩ := hmesh.node s.sender hsender
  rcases sendSecretMessage_cases (E := E) s.out s.sender.me.toUserHost s.message net with
    ⟨hsame, hend⟩ | ⟨-, block, jMessage, -, -, ⟨-, -, hstored⟩ | ⟨-, -, hback⟩⟩
  · refine Or.inl ⟨hsame, ?_⟩
    rcases hend with hun | ⟨e, hthrown⟩
    · rw [Send.run, hun]
      rfl
    · rw [Send.run, hthrown]
      rfl
  · exact absurd hstored (hno _ _)
  · obtain ⟨⟨jMessage, hprepare⟩, hpassed⟩ := rolledBack_passed s.out _ net hn rfl hback
    obtain ⟨hsign, -⟩ := prepare_eq_ok.1 hprepare
    rw [hnode.config] at hsign
    have hrange : s.message.timestamp.toNat < 2 ^ 63 :=
      (getTimestamp_lt s.tick.now).trans_le (Nat.div_le_self _ _)
    obtain ⟨hmade, hprevious⟩ := madeBy_of_signBlock laws (hmesh.keys _ hsender) hnode.valid rfl
      hrange hsign
    refine Or.inr ⟨block, _, n, hback, hn, hmade, hprevious, fun hmem => ?_, hpassed⟩
    obtain ⟨p, hp, hhost⟩ := List.mem_map.1 hmem
    exact hnode.others p hp hhost

theorem Halted.step (laws : E.crypto.SignatureLaws) (hS : E.CollisionFree S)
    (hhalted : Halted E S members author taker b net) {e : Event} (hby : e.By members)
    (hmade : Block.canonicals (madeBlocks (e.run E net).2.toList) ⊆ S) :
    Halted E S members author taker b (e.run E net).1 := by
  cases e with
  | report out message reported =>
      -- whatever block it is about, no chain changes
      simp only [Event.run]
      exact hhalted.of_passed hS hhalted.author_mem hhalted.made hhalted.hashed_made
        List.not_mem_nil (deliverReport_passed out net reported [])
  | send s =>
      rw [madeBlocks_send] at hmade
      rcases run_cases laws hhalted.mesh hby (hhalted.not_stored hS hby) with
        ⟨hsame, -⟩ | ⟨block, answer, sender, hend, -, hby, -, hself, hpassed⟩
      · rw [Event.run, hsame]
        exact hhalted
      · rw [hend] at hmade
        have hblock : block.canonicalBytes ∈ S := hmade ⟨block, List.mem_singleton_self _, rfl⟩
        exact hhalted.of_passed hS ‹s.sender ∈ members› hby hblock hself hpassed

/-- No send of a member is stored any more. -/
theorem Halted.run (laws : E.crypto.SignatureLaws) (hS : E.CollisionFree S)
    (hhalted : Halted E S members author taker b net) {events : List Event}
    (hby : ∀ e ∈ events, e.By members)
    (hmade : Block.canonicals (madeBlocks (runEvents E events net).2) ⊆ S) :
    (∀ outcome ∈ (runEvents E events net).2, ∀ block answer, outcome ≠ .stored block answer) ∧
      Halted E S members author taker b (runEvents E events net).1 := by
  induction events generalizing net with
  | nil => exact ⟨fun _ hmem => absurd hmem List.not_mem_nil, hhalted⟩
  | cons e events ih =>
      rw [List.forall_mem_cons] at hby
      rw [runEvents, madeBlocks_append] at hmade
      have hstep := hhalted.step laws hS hby.1
        (Set.Subset.trans (Block.canonicals_mono (List.subset_append_left _ _)) hmade)
      obtain ⟨hrest, hafter⟩ := ih hstep hby.2
        (Set.Subset.trans (Block.canonicals_mono (List.subset_append_right _ _)) hmade)
      refine ⟨?_, hafter⟩
      intro outcome hmem
      rcases List.mem_append.1 hmem with hmem | hmem
      · cases e with
        | report out message reported => cases hmem
        | send s =>
            obtain rfl := List.mem_singleton.1 hmem
            exact hhalted.not_stored hS hby.1
      · exact hrest outcome hmem

/-- A block that was refused somewhere is not in the chain of the one that made it. -/
theorem halted_of_rolledBack (laws : E.crypto.SignatureLaws) (hS : E.CollisionFree S)
    (hmesh : Mesh E members net) (hhashed : HashedFrom S members net) {s : Send}
    (hsender : s.sender ∈ members) {answer : Option Json}
    (hend : (s.run E net).2 = .rolledBack block answer) (hblock : block.canonicalBytes ∈ S)
    (htaker : taker ∈ members)
    (htook : ∀ n, (s.run E net).1 taker.me.toUserHost = some n → Has n.chain block.hash) :
    Halted E S members s.sender taker block (s.run E net).1 := by
  have hno : ∀ block answer, (s.run E net).2 ≠ .stored block answer := by
    intro b answer hstored
    rw [hend] at hstored
    cases hstored
  rcases run_cases laws hmesh hsender hno with
    ⟨-, hnone⟩ | ⟨made, answer', sender, hend', hown, hby, hprevious, hself, hpassed⟩
  · rw [hend] at hnone
    cases hnone
  rw [hend] at hend'
  cases hend'
  refine ⟨hmesh.of_passed hby.storable hpassed,
    hhashed.of_passed hmesh hby.storable hblock hpassed, hsender, htaker, hby, hblock, ?_, htook⟩
  rintro n' hn' ⟨c, hc, hhash⟩
  obtain ⟨n, hn, hp⟩ := hpassed.exists_of_some hn'
  rcases Option.some.inj (hn.symm.trans hown) with rfl
  have hnode := hmesh.node_of_some hsender hown
  have hsame : ChainDB.loadAllBlocks n'.chain = ChainDB.loadAllBlocks n.chain :=
    (hp.load hby.storable hnode.valid).2.resolve_right fun hmore => hself hmore.1
  -- the block would come after its own tip
  have hnext : ValidBlocks E (ChainDB.loadAllBlocks n.chain ++ [block]) :=
    hnode.valid.concat hby.authentic hprevious
  have hfree : E.CollisionFree
      (Block.canonicals (ChainDB.loadAllBlocks n.chain ++ [block])) := by
    refine hS.mono ?_
    rintro x ⟨d, hd, rfl⟩
    rcases List.mem_append.1 hd with hd | hd
    · exact hhashed s.sender hsender n hown ⟨d, hd, rfl⟩
    · rw [List.mem_singleton.1 hd]
      exact hblock
  have hnodup := hnext.nodup_hash hfree
  rw [List.map_append, List.nodup_append'] at hnodup
  exact hnodup.2.2 (List.mem_map_of_mem (hsame ▸ hc)) (by simp [hhash])

theorem has_iff {t : BlockTable} (h : Authentic E block) :
    Has t block.hash ↔ ChainDB.hasBlock t block.hash = true := by
  rw [ChainDB.hasBlock_iff, cString_of_noNul h.noNul_hash, Has]

/-- Once a block of a member was refused by one node and taken by another member, no member of a
full mesh gets a block stored any more, whatever anybody sends and whenever the error reports
arrive, and the author never has the block. -/
theorem refused_send_halts (laws : E.crypto.SignatureLaws) (hS : E.CollisionFree S)
    (hmesh : Mesh E members net) (hhashed : HashedFrom S members net) {s : Send}
    (hsender : s.sender ∈ members) {answer : Option Json}
    (hend : (s.run E net).2 = .rolledBack block answer) (htaker : taker ∈ members)
    (htook : ∀ n ∈ (s.run E net).1 taker.me.toUserHost, ChainDB.hasBlock n.chain block.hash = true)
    {events : List Event} (hby : ∀ e ∈ events, e.By members)
    (hmade : Block.canonicals (madeBlocks (runEvents E (.send s :: events) net).2) ⊆ S) :
    (∀ outcome ∈ (runEvents E (.send s :: events) net).2,
        ∀ block answer, outcome ≠ .stored block answer) ∧
      ∀ n ∈ (runEvents E (.send s :: events) net).1 s.sender.me.toUserHost,
        ChainDB.hasBlock n.chain block.hash = false := by
  have hno : ∀ block answer, (s.run E net).2 ≠ .stored block answer := by
    intro b answer hstored
    rw [hend] at hstored
    cases hstored
  rw [runEvents, madeBlocks_append, madeBlocks_send, hend] at hmade
  have hblock : block.canonicalBytes ∈ S := hmade ⟨block, List.mem_cons_self .., rfl⟩
  -- the sender signed the block before it was refused
  have hauthentic : Authentic E block := by
    rcases run_cases laws hmesh hsender hno with ⟨-, hnone⟩ | ⟨made, _, _, hend', _, hby, _⟩
    · rw [hend] at hnone
      cases hnone
    · rw [hend] at hend'
      cases hend'
      exact hby.authentic
  -- from here on nothing but the invariant is used
  have hhalted := halted_of_rolledBack laws hS hmesh hhashed hsender hend hblock htaker
    fun n hn => (has_iff hauthentic).2 (htook n hn)
  obtain ⟨hnever, hafter⟩ := hhalted.run laws hS hby
    (Set.Subset.trans (Block.canonicals_mono (List.subset_append_right _ _)) hmade)
  refine ⟨?_, fun n hn => ?_⟩
  · intro outcome hmem
    rcases List.mem_cons.1 hmem with rfl | hmem
    · exact hno
    · exact hnever outcome hmem
  · exact Bool.eq_false_iff.2 fun hhas => hafter.lacks n hn ((has_iff hauthentic).2 hhas)

end Steps

/-! ## A mesh of three -/

namespace Refused

open SmallNet

def members : List Config := [FirstBlock.config, thirdConfig, FirstBlock.rivalConfig]

/-- The last one has a block that the others never got. -/
def nodes : List Node :=
  [node FirstBlock.config [thirdConfig.me, FirstBlock.rivalConfig.me] FirstBlock.table,
    node thirdConfig [FirstBlock.config.me, FirstBlock.rivalConfig.me] FirstBlock.table,
    node FirstBlock.rivalConfig [FirstBlock.config.me, thirdConfig.me] rivalTable]

theorem net_config : net nodes FirstBlock.config.me.toUserHost = some (node FirstBlock.config
    [thirdConfig.me, FirstBlock.rivalConfig.me] FirstBlock.table) := net_self _ _

theorem net_third : net nodes thirdConfig.me.toUserHost = some (node thirdConfig
    [FirstBlock.config.me, FirstBlock.rivalConfig.me] FirstBlock.table) :=
  (net_of_ne third_ne_config.symm _).trans (net_self _ _)

theorem net_rival : net nodes FirstBlock.rivalConfig.me.toUserHost = some (node
    FirstBlock.rivalConfig [FirstBlock.config.me, thirdConfig.me] rivalTable) :=
  (net_of_ne config_ne_rival _).trans ((net_of_ne third_ne_rival _).trans (net_self _ _))

theorem third_keyPairMatches : thirdConfig.KeyPairMatches testEnv :=
  ⟨testEnv.crypto.generateKeyPair 11, ⟨11, rfl⟩, rfl, rfl⟩

theorem mesh : Mesh testEnv members (net nodes) where
  keys := by
    simp only [members, List.forall_mem_cons, List.not_mem_nil, false_implies, implies_true,
      and_true]
    exact ⟨FirstBlock.keyPairMatches, third_keyPairMatches, FirstBlock.rival_keyPairMatches⟩
  distinct := by decide +kernel
  node := by
    have hvalid := validateLocalChain_eq_true.1 FirstBlock.valid_table
    simp only [members, List.forall_mem_cons, List.not_mem_nil, false_implies, implies_true,
      and_true]
    exact ⟨⟨_, net_config, rfl, by decide +kernel, by decide +kernel, hvalid⟩,
      ⟨_, net_third, rfl, by decide +kernel, by decide +kernel, hvalid⟩,
      ⟨_, net_rival, rfl, by decide +kernel, by decide +kernel,
        validateLocalChain_eq_true.1 valid_rivalTable⟩⟩

def blocks : List Block := [FirstBlock.block, FirstBlock.child, FirstBlock.rival]

theorem hashedFrom : HashedFrom (Block.canonicals blocks) members (net nodes) := by
  have htable : Block.canonicals (ChainDB.loadAllBlocks FirstBlock.table) ⊆
      Block.canonicals blocks := by
    rw [FirstBlock.loadAllBlocks_table]
    exact Block.canonicals_mono (by simp [blocks])
  have hrival : Block.canonicals (ChainDB.loadAllBlocks rivalTable) ⊆ Block.canonicals blocks := by
    rw [loadAllBlocks_rivalTable]
    exact Block.canonicals_mono (by simp [blocks])
  intro cfg hcfg n hn
  simp only [members, List.mem_cons, List.not_mem_nil, or_false] at hcfg
  rcases hcfg with rfl | rfl | rfl
  · obtain rfl := Option.some.inj (net_config.symm.trans hn)
    exact htable
  · obtain rfl := Option.some.inj (net_third.symm.trans hn)
    exact htable
  · obtain rfl := Option.some.inj (net_rival.symm.trans hn)
    exact hrival

/-- What the sender makes over its chain, whenever it sends this text. -/
theorem signBlock_send : signBlock testEnv FirstBlock.config.privateKey outside.blockSign
    (unsignedBlock testEnv (send [97]).message
      ((ChainDB.findTip FirstBlock.table).getD Block.default)) = .ok FirstBlock.child := by
  rw [FirstBlock.findTip_table]
  exact signBlock_messageTo_child _

theorem block?_send {net : Nodes} {n : Node} (hn : net FirstBlock.config.me.toUserHost = some n)
    (hconfig : n.config = FirstBlock.config) (hchain : n.chain = FirstBlock.table) :
    ((send [97]).run testEnv net).2.block?.toList ⊆ [FirstBlock.child] := by
  refine Send.block?_subset hn ?_
  rw [hconfig, hchain]
  exact signBlock_send

theorem tip_ne : tipHash FirstBlock.table ≠ tipHash rivalTable := by
  rw [FirstBlock.tipHash_table, tipHash, loadAllBlocks_rivalTable]
  decide

/-- The last one refuses the block. -/
theorem first_send : ∃ answer,
    ((send [97]).run testEnv (net nodes)).2 = .rolledBack FirstBlock.child answer := by
  obtain ⟨block, jMessage, hsign, -, hprepared, -⟩ := Send.prepared XORCrypto.signatureLaws
    XORCrypto.sessionLaws (s := send [97]) FirstBlock.keyPairMatches FirstBlock.rival_keyPairMatches
    (n := node FirstBlock.config [thirdConfig.me, FirstBlock.rivalConfig.me] FirstBlock.table) rfl
  obtain rfl := Except.ok.inj (signBlock_send.symm.trans hsign)
  have hprepare := hprepared (fits_send.2 (by decide))
  cases hstore : (storeAndBroadcastBlock testEnv outside FirstBlock.config.me.toUserHost
    FirstBlock.child (deliver testEnv outside FirstBlock.config.me.toUserHost (send [97]).message
      FirstBlock.child jMessage (net nodes)).1).1 with
  | true =>
      have hstored := (sendSecretMessage_stored net_config hprepare net_rival hstore).2
      exact absurd hstored (Splits.not_stored_of_tip_ne net_config
        (List.mem_cons_of_mem _ (List.mem_singleton_self _)) net_rival
        (validateLocalChain_eq_true.1 FirstBlock.valid_table).noNul_tip tip_ne rfl _ _)
  | false => exact ⟨_, (sendSecretMessage_rolledBack net_config hprepare net_rival hstore).2⟩

end Refused

open SmallNet Refused in
/-- The report of the first send arrives, and then the sender tries again, in vain. -/
theorem refused_send_halts_three :
    (∀ outcome ∈ (runEvents testEnv [.send (send [97]),
        .report outside (send [97]).message FirstBlock.child, .send (send [97])] (net nodes)).2,
        ∀ block answer, outcome ≠ .stored block answer) ∧
      ∀ n ∈ (runEvents testEnv [.send (send [97]),
          .report outside (send [97]).message FirstBlock.child, .send (send [97])] (net nodes)).1
        (send [97]).sender.me.toUserHost,
        ChainDB.hasBlock n.chain FirstBlock.child.hash = false := by
  obtain ⟨answer, hend⟩ := first_send
  have hvalid := validateLocalChain_eq_true.1 FirstBlock.valid_table
  have hlen : FirstBlock.child.toJson.dumpLen ≤ bufferSize - 1 :=
    dumpLen_blockOf XORCrypto.compactLaws FirstBlock.keyPairMatches XORCrypto.signatureLaws
      rfl hvalid signBlock_send
  have hrun : (send [97]).run testEnv (net nodes) = sendSecretMessage testEnv outside
      FirstBlock.config.me.toUserHost (send [97]).message (net nodes) := rfl
  have htook := first_peer_keeps outside FirstBlock.config.me.toUserHost (net nodes) net_config rfl
    rfl net_third hvalid hlen acceptable_child hend
  rw [← hrun] at htook
  -- the sender is as it was, but for its messages
  have hfirst := (rolledBack_passed outside FirstBlock.config.me.toUserHost (net nodes)
    net_config rfl hend).2
  have hreport : Moved (Passed testEnv FirstBlock.child ([thirdConfig.me,
      FirstBlock.rivalConfig.me].map UserPeer.toUserHost)) _ (deliverReport testEnv outside
        (send [97]).message FirstBlock.child ((send [97]).run testEnv (net nodes)).1) :=
    deliverReport_passed outside _ FirstBlock.child _
  obtain ⟨n, hn, hpassed⟩ := (Passed.moved_trans hfirst hreport).of_some net_config
  have hconfig : n.config = FirstBlock.config := by rw [hpassed.same]; rfl
  have hself : FirstBlock.config.me.toUserHost ∉
      [thirdConfig.me, FirstBlock.rivalConfig.me].map UserPeer.toUserHost := by
    decide +kernel
  have hchain : n.chain = FirstBlock.table :=
    hpassed.chain.resolve_right fun hmore => hself hmore.1
  refine refused_send_halts XORCrypto.signatureLaws Splits.Parted.collisionFree_three mesh
    hashedFrom List.mem_cons_self hend (List.mem_cons_of_mem _ List.mem_cons_self) htook ?_ ?_
  · simp only [List.forall_mem_cons, Event.By, List.not_mem_nil, false_implies, implies_true,
      and_true, true_and]
    exact List.mem_cons_self
  · refine Block.canonicals_mono ?_
    have hmade : ∀ net, madeBlocks (runEvents testEnv [.send (send [97]), .report outside
        (send [97]).message FirstBlock.child, .send (send [97])] net).2 =
          ((send [97]).run testEnv net).2.block?.toList ++ ((send [97]).run testEnv (deliverReport
            testEnv outside (send [97]).message FirstBlock.child
              ((send [97]).run testEnv net).1)).2.block?.toList := by
      intro net
      simp only [runEvents, madeBlocks_append, madeBlocks_some, Event.run]
      exact congrArg _ (List.append_nil _)
    rw [hmade]
    refine List.append_subset.2 ⟨?_, ?_⟩
    · exact List.Subset.trans (block?_send net_config rfl rfl) (by simp)
    · exact List.Subset.trans (block?_send hn hconfig hchain) (by simp)

end Halting
end Network
end DChat
