import DChat.ReadBack
import DChat.ChatHistory
import DChat.Transport
import Mathlib.Data.List.Permutation

/-!
# Conversation — what the members of a network read in their chats

In a network in which everybody knows everybody, each text that fits gives both ends a row and every
chain a block.  So `/chat` shows at each end the texts that the two have sent to each other, in the
order of their times and without a mark.  The exception is a text whose JSON fills the buffer to the
last byte: its sender keeps it, its recipient never has it.
-/

namespace DChat
namespace Network
namespace Conversation

open Utils Crypto Peer Messaging Blockchain BlockchainService Chat KeyedTable PartyMap TCPClient
open ChatApplication (Entry chatWith findPublicKey hostPortText handleChatCommand)

variable {E : Env}

/-! ## Chat peers -/

/-- The row of a peer. -/
def peerRow (p : UserPeer) : PeerRow where
  host := .bind p.host
  port := p.port
  publicKey := .bind p.publicKey

/-- A peer is added under its key, unless there is a row with this key. -/
theorem data_addPeer (t : PeerTable) (p : UserPeer) :
    (PeerDB.addPeer t p).data =
      if t.data.any fun r => r.publicKey = .bind p.publicKey then t.data
      else t.data ++ [peerRow p] := by
  by_cases hany : (t.data.any fun r => r.publicKey = .bind p.publicKey) = true
  · rw [PeerDB.addPeer, if_pos hany, if_pos hany]
  · rw [PeerDB.addPeer, if_neg hany, if_neg hany]
    refine Table.data_insert_of_fresh fun r hr heq => hany ?_
    exact List.any_eq_true.2 ⟨r, hr, decide_eq_true heq⟩

/-- Which ends of a message add the other one to their chat peers. -/
structure Meets (E : Env) (own : UserHost) (message : TextMessage) (jMessage : Json)
    (h : UserHost) (n n' : Node) : Prop where
  sender : h = own → n'.chatPeers = PeerDB.addPeer n.chatPeers message.toPeer
  recipient : h ≠ own → h = message.toPeer.toUserHost ∧ Takes E n jMessage →
    n'.chatPeers = PeerDB.addPeer n.chatPeers message.fromPeer
  others : h ≠ own → ¬ (h = message.toPeer.toUserHost ∧ Takes E n jMessage) →
    n'.chatPeers = n.chatPeers

section Deliver

variable {out : Outside} {own : UserHost} {message : TextMessage} {block : Block}
  {jMessage : Json} {sender : Node} (net : Nodes)

/-- A node that takes a text adds its sender. -/
theorem request_chatPeers (htype : message.type = .textMessage)
    (hjson : (message.setBlockHash block.hash).serialize E sender.config.privateKey out.draws =
      .ok jMessage) (host : UserHost) (visit : Visit) :
    Moved (fun h n n' =>
        (h = host ∧ Takes E n jMessage →
          n'.chatPeers = PeerDB.addPeer n.chatPeers message.fromPeer) ∧
        (¬ (h = host ∧ Takes E n jMessage) → n' = n))
      net (request E net host visit jMessage).1 := by
  by_cases hlen : jMessage.dumpLen ≤ bufferSize - 1
  · simp only [request, received, hlen, if_true]
    apply Moved.modify
    · intro n _
      rcases TextMessage.serialize_eq_ok hjson with ⟨key, cipher, priv, sig, _, _, _, _, rfl⟩
      rcases TCPServer.serve_envelope (E := E) n visit
        (m := (message.setBlockHash block.hash).toSecretMessage) htype with
        ⟨m', hdecode, hnode, -⟩ | ⟨e, hdecode, hnode, -⟩
      · have htakes : Takes E n _ := ⟨hlen, m', hdecode⟩
        refine ⟨fun _ => ?_, fun hno => absurd ⟨rfl, htakes⟩ hno⟩
        have hfields := (TextMessage.fields_of_ofJson hdecode).1
        rw [hnode]
        exact congrArg (PeerDB.addPeer n.chatPeers) (congrArg Message.fromPeer hfields)
      · refine ⟨?_, fun _ => hnode⟩
        rintro ⟨-, -, m', hdecode'⟩
        rw [hdecode] at hdecode'
        cases hdecode'
    · intro h n hne
      exact ⟨fun hself => absurd hself.1 hne, fun _ => rfl⟩
  · simp only [request, received, hlen, if_false]
    exact Moved.refl (fun h n => ⟨fun htakes => absurd htakes.2.1 hlen, fun _ => rfl⟩) net

theorem deliver_meets (htype : message.type = .textMessage)
    (hjson : (message.setBlockHash block.hash).serialize E sender.config.privateKey out.draws =
      .ok jMessage) (hne : message.toPeer.toUserHost ≠ own) :
    Moved (Meets E own message jMessage) net
      (deliver E out own message block jMessage net).1 := by
  have hrequest := request_chatPeers net htype hjson message.toPeer.toUserHost out.textVisit
  have hown : Moved (fun h n n' =>
      (h = own → n'.chatPeers = PeerDB.addPeer n.chatPeers message.toPeer) ∧ (h ≠ own → n' = n))
      (request E net message.toPeer.toUserHost out.textVisit jMessage).1
      (deliver E out own message block jMessage net).1 := by
    rw [deliver_eq net htype hjson]
    apply Moved.modify
    · exact fun n _ => ⟨fun _ => rfl, fun hno => absurd rfl hno⟩
    · exact fun h n hno => ⟨fun heq => absurd heq hno, fun _ => rfl⟩
  refine hrequest.trans ?_ hown
  rintro h n n' n'' ⟨htakes, hleft⟩ ⟨hself, hother⟩
  refine ⟨fun heq => ?_, fun hno hmet => ?_, fun hno hnot => ?_⟩
  · rw [hself heq, hleft fun hmet => hne (hmet.1.symm.trans heq)]
  · rw [hother hno, htakes hmet]
  · rw [hother hno, hleft hnot]

/-- The offers of the block leave the chat peers alone. -/
theorem stored_meets {answer : Option Json} (htype : message.type = .textMessage)
    (hne : message.toPeer.toUserHost ≠ own) (hown : net own = some sender)
    (hprepare : prepare E out sender message = .ok (block, jMessage))
    (hend : (sendSecretMessage E out own message net).2 = .stored block answer) :
    Moved (Meets E own message jMessage) net (sendSecretMessage E out own message net).1 := by
  have hjson := (prepare_eq_ok.1 hprepare).2.1
  have hdeliver : Moved (Meets E own message jMessage) net
      (deliver E out own message block jMessage net).1 := deliver_meets net htype hjson hne
  rcases sendSecretMessage_cases (E := E) out own message net with
    ⟨-, hother | ⟨e, hother⟩⟩ | ⟨sender', block', jMessage', hown', hprepare',
      ⟨htrue, hnet, hother⟩ | ⟨-, -, hother⟩⟩
  · cases hend.symm.trans hother
  · cases hend.symm.trans hother
  · obtain rfl := Option.some.inj (hown.symm.trans hown')
    obtain ⟨rfl, rfl⟩ := Prod.mk.inj (Except.ok.inj (hprepare.symm.trans hprepare'))
    obtain ⟨sender₁, hown₁, -⟩ := hdeliver.of_some hown
    obtain ⟨reached, rest, _, -, -, hoffer, -⟩ :=
      storeAndBroadcastBlock_spec (E := E) out block hown₁
    rw [hnet]
    refine hdeliver.trans ?_ (hoffer htrue).2
    intro h n n' n'' hmeets hoffered
    have hpeers : n''.chatPeers = n'.chatPeers := by rw [hoffered.same]
    exact ⟨fun heq => hpeers.trans (hmeets.sender heq),
      fun hno hmet => hpeers.trans (hmeets.recipient hno hmet),
      fun hno hnot => hpeers.trans (hmeets.others hno hnot)⟩
  · cases hend.symm.trans hother

end Deliver

/-! ## What is kept of a send -/

theorem serialize_setBlockHash {m : TextMessage} {hash privateKey : String}
    {draws : TextMessage.Draws} {j : Json} (hash' : String) (htype : m.type = .textMessage)
    (hlen : Json.stringLen hash = Json.stringLen hash')
    (hj : (m.setBlockHash hash).serialize E privateKey draws = .ok j) :
    ∃ j', (m.setBlockHash hash').serialize E privateKey draws = .ok j' ∧
      j'.dumpLen = j.dumpLen := by
  rcases TextMessage.serialize_eq_ok hj with
    ⟨key, cipher, priv, sig, hkey, hcipher, hpriv, hsig, rfl⟩
  refine ⟨TextMessage.envelope (m.setBlockHash hash').toSecretMessage
    (E.crypto.keyToString cipher) (E.crypto.keyToString sig), ?_, ?_⟩
  · simp only [TextMessage.serialize, TextMessage.setBlockHash_toMessage,
      TextMessage.setBlockHash_message] at hkey hcipher hsig ⊢
    simp only [hkey, hcipher, hpriv, hsig, bind, Except.bind, pure, Except.pure]
  · have htypes : ∀ h, (m.setBlockHash h).type = .textMessage := fun _ => htype
    rw [TextMessage.dumpLen_envelope (htypes hash'), TextMessage.dumpLen_envelope (htypes hash)]
    simp only [TextMessage.setBlockHash_toMessage, TextMessage.setBlockHash_blockHash, hlen]

/-- How long the JSON of a send is.  Whatever hash is in it has the same length. -/
def size (E : Env) (s : Send) : Nat :=
  match (s.message.setBlockHash (E.sha256 [])).serialize E s.sender.privateKey s.out.draws with
  | .ok j => j.dumpLen
  | .error _ => 0

theorem size_eq {s : Send} {data : Bytes} {j : Json}
    (hj : (s.message.setBlockHash (E.sha256 data)).serialize E s.sender.privateKey s.out.draws =
      .ok j) : size E s = j.dumpLen := by
  obtain ⟨j', hj', hlen⟩ := serialize_setBlockHash (E.sha256 []) rfl
    ((E.stringLen_sha256 data).trans (E.stringLen_sha256 []).symm) hj
  rw [size, hj']
  exact hlen

/-- The text stays with its sender, and with its recipient when the whole JSON arrives there. -/
def KeptBy (E : Env) (cfg : Config) (s : Send) : Prop :=
  s.sender = cfg ∨ s.recipient = cfg ∧ size E s ≤ bufferSize - 1

instance (E : Env) (cfg : Config) (s : Send) : Decidable (KeptBy E cfg s) :=
  inferInstanceAs (Decidable (_ ∨ _))

/-- The other end of a send. -/
def other (cfg : Config) (s : Send) : Config := if s.sender = cfg then s.recipient else s.sender

/-- A send with the block and the JSON that were made. -/
structure Record where
  send : Send
  block : Block
  jMessage : Json

/-- The row of both ends. -/
def Record.row (r : Record) : MessageRow := storedRow r.send.message r.block r.jMessage

/-- What is known of a record once the block was stored. -/
structure Sound (E : Env) (members : List Config) (chain : List Block) (r : Record) : Prop where
  sender : r.send.sender ∈ members
  recipient : r.send.recipient ∈ members
  ne : r.send.recipient ≠ r.send.sender
  made : ∃ tip, BlockOf E r.send.message tip r.block
  chained : r.block ∈ chain
  json : (r.send.message.setBlockHash r.block.hash).serialize E r.send.sender.privateKey
    r.send.out.draws = .ok r.jMessage

/-- Every member has the rows of the sends that it keeps, in their order, and the other ends of
these as its chat peers. -/
structure Logged (E : Env) (members : List Config) (chain : List Block) (log : List Record)
    (net : Nodes) : Prop where
  sound : ∀ r ∈ log, Sound E members chain r
  rows : ∀ cfg ∈ members, ∀ n, net cfg.me.toUserHost = some n →
    n.messages.data = (log.filter fun r => KeptBy E cfg r.send).map Record.row
  peers : ∀ cfg ∈ members, ∀ n, net cfg.me.toUserHost = some n → ∀ row,
    row ∈ n.chatPeers.data ↔
      ∃ r ∈ log, KeptBy E cfg r.send ∧ row = peerRow (other cfg r.send).me

/-- Members are told apart by their addresses and by their keys, which are generated. -/
structure Distinct (E : Env) (members : List Config) : Prop where
  hosts : (members.map fun cfg => cfg.me.toUserHost).Nodup
  keys : ∀ cfg ∈ members, cfg.KeyPairMatches E
  publicKeys : ∀ a ∈ members, ∀ b ∈ members, a.publicKey = b.publicKey → a = b

namespace Distinct

variable {members : List Config} (h : Distinct E members)

include h in
theorem host_inj {a b : Config} (ha : a ∈ members) (hb : b ∈ members)
    (heq : a.me.toUserHost = b.me.toUserHost) : a = b :=
  List.inj_on_of_nodup_map h.hosts ha hb heq

include h in
theorem key_inj (laws : E.crypto.SignatureLaws) {a b : Config} (ha : a ∈ members)
    (hb : b ∈ members) (heq : DbText.bind a.publicKey = .bind b.publicKey) : a = b := by
  by_contra hne
  exact bind_publicKey_ne laws (h.keys a ha) (h.keys b hb)
    (fun hkey => hne (h.publicKeys a ha b hb hkey)) heq

end Distinct

section Step

variable {members : List Config} {chain : List Block} {log : List Record} {net : Nodes}

/-- The ends that store the row, and that add the other one, are those that keep the send. -/
theorem keptBy_iff (laws : E.crypto.SignatureLaws) (session : E.crypto.SessionLaws)
    (hdistinct : Distinct E members) {s : Send} (hsender : s.sender ∈ members)
    (hrecipient : s.recipient ∈ members) {cfg : Config} (hcfg : cfg ∈ members) {n : Node}
    (hconfig : n.config = cfg) {data : Bytes} {jMessage : Json}
    (hjson : (s.message.setBlockHash (E.sha256 data)).serialize E s.sender.privateKey s.out.draws =
      .ok jMessage) :
    (cfg.me.toUserHost = s.sender.me.toUserHost ∨
      cfg.me.toUserHost = s.recipient.me.toUserHost ∧ Takes E n jMessage) ↔ KeptBy E cfg s := by
  constructor
  · rintro (hself | ⟨hself, htakes⟩)
    · exact Or.inl (hdistinct.host_inj hsender hcfg hself.symm)
    · exact Or.inr ⟨hdistinct.host_inj hrecipient hcfg hself.symm, size_eq hjson ▸ htakes.1⟩
  · rintro (rfl | ⟨rfl, hsmall⟩)
    · exact Or.inl rfl
    · obtain ⟨sig, hread⟩ := TextMessage.ofJson_serialize laws session (hdistinct.keys _ hsender)
        (hdistinct.keys _ hrecipient)
        (m := s.message.setBlockHash (E.sha256 data)) rfl rfl rfl hjson
      have hdecode := (hread false).1
      rw [← hconfig] at hdecode
      exact Or.inr ⟨rfl, size_eq hjson ▸ hsmall, _, hdecode⟩

theorem mem_addPeer (laws : E.crypto.SignatureLaws) (hdistinct : Distinct E members)
    {t : PeerTable} (ht : ∀ row ∈ t.data, ∃ cfg ∈ members, row = peerRow cfg.me) {cfg : Config}
    (hcfg : cfg ∈ members) {row : PeerRow} :
    row ∈ (PeerDB.addPeer t cfg.me).data ↔ row ∈ t.data ∨ row = peerRow cfg.me := by
  rw [data_addPeer]
  split
  · rename_i hany
    obtain ⟨r, hr, hkey⟩ := List.any_eq_true.1 hany
    obtain ⟨c, hc, rfl⟩ := ht r hr
    have hsame := hdistinct.key_inj laws hc hcfg (of_decide_eq_true hkey)
    rw [hsame] at hr
    exact ⟨Or.inl, fun h => h.elim id fun heq => heq ▸ hr⟩
  · rw [List.mem_append, List.mem_singleton]

theorem Sound.other_mem {r : Record} (h : Sound E members chain r) (cfg : Config) :
    other cfg r.send ∈ members := by
  rw [other]
  split
  · exact h.recipient
  · exact h.sender

/-- The rows of a member after one more send. -/
theorem Logged.rows_concat (hlogged : Logged E members chain log net) {cfg : Config}
    (hcfg : cfg ∈ members) {n n' : Node} (hn : net cfg.me.toUserHost = some n) {r : Record}
    (hfresh : ∀ r' ∈ log, DbText.bind r'.send.tick.uuid ≠ .bind r.send.tick.uuid)
    (hstores : KeptBy E cfg r.send → n'.messages = (n.messages.insert r.row).1)
    (hleaves : ¬ KeptBy E cfg r.send → n'.messages = n.messages) :
    n'.messages.data = ((log ++ [r]).filter fun r => KeptBy E cfg r.send).map Record.row := by
  have hold := hlogged.rows cfg hcfg n hn
  rw [List.filter_append, List.map_append, ← hold]
  by_cases hkeeps : KeptBy E cfg r.send
  · rw [hstores hkeeps, Table.data_insert_of_fresh]
    · simp [hkeeps]
    · -- the ids of the rows are those of the sends before
      intro row hrow
      rw [hold] at hrow
      obtain ⟨r', hr', rfl⟩ := List.mem_map.1 hrow
      exact hfresh r' (List.mem_of_mem_filter hr')
  · rw [hleaves hkeeps]
    simp [hkeeps]

/-- The chat peers of a member after one more send. -/
theorem Logged.peers_concat (laws : E.crypto.SignatureLaws) (hdistinct : Distinct E members)
    (hlogged : Logged E members chain log net) {cfg : Config} (hcfg : cfg ∈ members) {n n' : Node}
    (hn : net cfg.me.toUserHost = some n) {r : Record} (hother : other cfg r.send ∈ members)
    (hadds : KeptBy E cfg r.send →
      n'.chatPeers = PeerDB.addPeer n.chatPeers (other cfg r.send).me)
    (hleaves : ¬ KeptBy E cfg r.send → n'.chatPeers = n.chatPeers) (row : PeerRow) :
    row ∈ n'.chatPeers.data ↔
      ∃ r' ∈ log ++ [r], KeptBy E cfg r'.send ∧ row = peerRow (other cfg r'.send).me := by
  have hold := hlogged.peers cfg hcfg n hn
  have hrows : ∀ row ∈ n.chatPeers.data, ∃ c ∈ members, row = peerRow c.me := by
    intro row hrow
    obtain ⟨r', hr', -, rfl⟩ := (hold row).1 hrow
    exact ⟨_, (hlogged.sound r' hr').other_mem cfg, rfl⟩
  by_cases hkeeps : KeptBy E cfg r.send
  · rw [hadds hkeeps, mem_addPeer laws hdistinct hrows hother, hold row]
    simp only [List.mem_append, List.mem_singleton, or_and_right, exists_or, exists_eq_left,
      hkeeps, true_and]
  · rw [hleaves hkeeps, hold row]
    simp only [List.mem_append, List.mem_singleton, or_and_right, exists_or, exists_eq_left,
      hkeeps, false_and, or_false]

/-- The end that keeps a send adds the other one. -/
theorem Meets.kept (hdistinct : Distinct E members) {s : Send} (hsender : s.sender ∈ members)
    {cfg : Config} (hcfg : cfg ∈ members) {jMessage : Json} {n n' : Node}
    (hmeet : Meets E s.sender.me.toUserHost s.message jMessage cfg.me.toUserHost n n')
    (hkept : (cfg.me.toUserHost = s.sender.me.toUserHost ∨
      cfg.me.toUserHost = s.recipient.me.toUserHost ∧ Takes E n jMessage) ↔ KeptBy E cfg s) :
    (KeptBy E cfg s → n'.chatPeers = PeerDB.addPeer n.chatPeers (other cfg s).me) ∧
      (¬ KeptBy E cfg s → n'.chatPeers = n.chatPeers) := by
  by_cases hself : s.sender = cfg
  · subst hself
    refine ⟨fun _ => ?_, fun hno => absurd (Or.inl rfl) hno⟩
    rw [other, if_pos rfl]
    exact hmeet.sender rfl
  · have hhost : cfg.me.toUserHost ≠ s.sender.me.toUserHost := fun heq =>
      hself (hdistinct.host_inj hcfg hsender heq).symm
    rw [other, if_neg hself]
    exact ⟨fun hkeeps => hmeet.recipient hhost ((hkept.2 hkeeps).resolve_left hhost),
      fun hno => hmeet.others hhost fun hstores => hno (hkept.1 (Or.inr hstores))⟩

/-- A send whose block is stored adds one record. -/
theorem Logged.send (laws : E.crypto.SignatureLaws) (session : E.crypto.SessionLaws)
    (hdistinct : Distinct E members) (hlogged : Logged E members chain log net)
    (hagree : Agrees E members chain net) {s : Send} (hsender : s.sender ∈ members)
    (hrecipient : s.recipient ∈ members) (hne : s.recipient ≠ s.sender)
    (hfresh : ∀ r ∈ log, DbText.bind r.send.tick.uuid ≠ .bind s.tick.uuid) {block : Block}
    {answer : Option Json} (hend : (s.run E net).2 = .stored block answer) :
    ∃ r, r.send = s ∧ Logged E members (chain ++ [block]) (log ++ [r]) (s.run E net).1 := by
  obtain ⟨sender, jMessage, hown, hprepare, -, hmoved⟩ := stored_spec rfl hend
  obtain ⟨m, hm, hconfig, -⟩ := hagree s.sender hsender
  obtain rfl := Option.some.inj (hown.symm.trans hm)
  obtain ⟨hsign, hjson, -⟩ := prepare_eq_ok.1 hprepare
  -- a message to oneself would meet one node twice
  have hapart : s.message.toPeer.toUserHost ≠ s.sender.me.toUserHost := fun heq =>
    hne (hdistinct.host_inj hrecipient hsender heq)
  have hmeets := stored_meets net rfl hapart hown hprepare hend
  rw [hconfig] at hsign hjson
  have hof := blockOf_of_signBlock laws (hdistinct.keys _ hsender) rfl hsign
  have hhash : E.sha256 block.canonicalBytes = block.hash := hof.authentic.hash_eq
  have hkept : ∀ cfg ∈ members, ∀ n, net cfg.me.toUserHost = some n →
      ((cfg.me.toUserHost = s.sender.me.toUserHost ∨
        cfg.me.toUserHost = s.recipient.me.toUserHost ∧ Takes E n jMessage) ↔
          KeptBy E cfg s) := by
    intro cfg hcfg n hn
    obtain ⟨m, hm, hconfig', -⟩ := hagree cfg hcfg
    obtain rfl := Option.some.inj (hn.symm.trans hm)
    exact keptBy_iff laws session hdistinct hsender hrecipient hcfg hconfig'
      (hhash.symm ▸ hjson)
  -- the new record, and then the tables of a node with it
  have hnew : Sound E members (chain ++ [block]) ⟨s, block, jMessage⟩ :=
    ⟨hsender, hrecipient, hne, ⟨_, hof⟩,
      List.mem_append_right _ (List.mem_singleton_self _), hjson⟩
  refine ⟨⟨s, block, jMessage⟩, rfl, ?_, ?_, ?_⟩
  · intro r hr
    rcases List.mem_append.1 hr with hr | hr
    · have hold := hlogged.sound r hr
      exact { hold with chained := List.mem_append_left _ hold.chained }
    · rw [List.mem_singleton.1 hr]
      exact hnew
  · intro cfg hcfg n' hn'
    obtain ⟨n, hn, hsent⟩ := hmoved.exists_of_some hn'
    have hkeeps := hkept cfg hcfg n hn
    exact hlogged.rows_concat hcfg hn hfresh (fun h => hsent.stores (hkeeps.2 h))
      fun hno => hsent.leaves fun h => hno (hkeeps.1 h)
  · intro cfg hcfg n' hn'
    obtain ⟨n, hn, hmeet⟩ := hmeets.exists_of_some hn'
    obtain ⟨hadds, hleaves⟩ := hmeet.kept hdistinct hsender hcfg (hkept cfg hcfg n hn)
    exact hlogged.peers_concat laws hdistinct hcfg hn (hnew.other_mem cfg) hadds hleaves

end Step

/-! ## Whole runs -/

section Run

variable {members : List Config} {chain : List Block} {log : List Record} {net : Nodes}

theorem fits_iff (laws : E.crypto.SignatureLaws) (session : E.crypto.SessionLaws)
    (hdistinct : Distinct E members) {s : Send} (hsender : s.sender ∈ members)
    (hrecipient : s.recipient ∈ members) : s.Fits E ↔ size E s ≤ bufferSize := by
  constructor
  · intro hfits
    obtain ⟨j, hj⟩ := TextMessage.serialize_ok laws session (hdistinct.keys _ hsender)
      (hdistinct.keys _ hrecipient) (m := s.message.setBlockHash (E.sha256 [])) rfl s.out.draws
    rw [size_eq hj]
    exact hfits [] j hj
  · intro hsmall data j hj
    rw [← size_eq hj]
    exact hsmall

/-- A text that fits leaves a record, and everybody goes on agreeing. -/
theorem Logged.step (laws : E.crypto.SignatureLaws) (session : E.crypto.SessionLaws)
    (compact : E.crypto.CompactLaws) (hdistinct : Distinct E members)
    (hlogged : Logged E members chain log net) (hagree : Agrees E members chain net) {s : Send}
    (hsender : s.sender ∈ members) (hrecipient : s.recipient ∈ members)
    (hne : s.recipient ≠ s.sender) (htime : s.InTime members)
    (hfresh : ∀ r ∈ log, DbText.bind r.send.tick.uuid ≠ .bind s.tick.uuid)
    (hS : E.CollisionFree (Block.canonicals (chain ++ (s.run E net).2.block?.toList))) :
    ∃ more, more.map Record.send = [s].filter (fun s => size E s ≤ bufferSize) ∧
      Logged E members (chain ++ (s.run E net).2.block?.toList) (log ++ more) (s.run E net).1 ∧
      Agrees E members (chain ++ (s.run E net).2.block?.toList) (s.run E net).1 := by
  by_cases hfits : s.Fits E
  · obtain ⟨block, hblock, hsend⟩ := honest_send laws session compact hdistinct.hosts
      hdistinct.keys hagree hsender hrecipient hfits htime
    rw [hblock, Option.toList_some] at hS ⊢
    obtain ⟨⟨answer, hend⟩, hagree'⟩ := hsend hS
    obtain ⟨r, rfl, hlogged'⟩ := hlogged.send laws session hdistinct hagree hsender hrecipient
      hne hfresh hend
    refine ⟨[r], ?_, hlogged', hagree'⟩
    rw [List.filter_cons_of_pos
      (by simpa using (fits_iff laws session hdistinct hsender hrecipient).1 hfits)]
    rfl
  · -- nothing is sent
    have hrefused := refused_send laws session hdistinct.keys hagree hsender hrecipient hfits
    have hnet : (s.run E net).1 = net := by rw [hrefused]
    have hblock : (s.run E net).2.block?.toList = [] := by
      rw [hrefused]
      rfl
    rw [hblock, List.append_nil, hnet]
    refine ⟨[], ?_, ?_, hagree⟩
    · rw [List.filter_cons_of_neg
        (by simpa using fun h => hfits ((fits_iff laws session hdistinct hsender hrecipient).2 h))]
      rfl
    · rw [List.append_nil]
      exact hlogged

/-- So does every text in turn. -/
theorem Logged.run (laws : E.crypto.SignatureLaws) (session : E.crypto.SessionLaws)
    (compact : E.crypto.CompactLaws) (hdistinct : Distinct E members)
    (hlogged : Logged E members chain log net) (hagree : Agrees E members chain net)
    {sends : List Send} (hmembers : ∀ s ∈ sends, s.sender ∈ members ∧ s.recipient ∈ members ∧
      s.recipient ≠ s.sender) (htime : ∀ s ∈ sends, s.InTime members)
    (hids : (log.map (fun r => DbText.bind r.send.tick.uuid) ++
      sends.map fun s => DbText.bind s.tick.uuid).Nodup)
    (hS : E.CollisionFree (Block.canonicals (chain ++ madeBlocks (runSends E sends net).2))) :
    ∃ more, more.map Record.send = sends.filter (fun s => size E s ≤ bufferSize) ∧
      Logged E members (chain ++ madeBlocks (runSends E sends net).2) (log ++ more)
        (runSends E sends net).1 ∧
      Agrees E members (chain ++ madeBlocks (runSends E sends net).2) (runSends E sends net).1 := by
  induction sends generalizing chain log net with
  | nil =>
      refine ⟨[], rfl, ?_, ?_⟩
      · simpa [runSends, madeBlocks] using hlogged
      · simpa [runSends, madeBlocks] using hagree
  | cons s sends ih =>
      rw [List.forall_mem_cons] at hmembers htime
      obtain ⟨⟨hsender, hrecipient, hne⟩, hrest⟩ := hmembers
      rw [madeBlocks_runSends, ← List.append_assoc] at hS ⊢
      have hfresh : ∀ r ∈ log, DbText.bind r.send.tick.uuid ≠ .bind s.tick.uuid := by
        intro r hr heq
        rw [List.map_cons, List.nodup_append'] at hids
        exact hids.2.2 (List.mem_map_of_mem hr) (heq ▸ List.mem_cons_self)
      obtain ⟨more, hmore, hlogged', hagree'⟩ := hlogged.step laws session compact hdistinct
        hagree hsender hrecipient hne htime.1 hfresh
        (hS.mono (Block.canonicals_mono fun b hb => List.mem_append_left _ hb))
      -- the id of this text moves from the sends to the log
      have hids' : ((log ++ more).map (fun r => DbText.bind r.send.tick.uuid) ++
          sends.map fun s => DbText.bind s.tick.uuid).Nodup := by
        have hpart : ((more.map Record.send).map fun s => DbText.bind s.tick.uuid).Sublist
            [DbText.bind s.tick.uuid] := hmore ▸ List.filter_sublist.map _
        rw [List.map_map] at hpart
        rw [List.map_append, List.append_assoc]
        exact hids.sublist (List.Sublist.append_left (hpart.append_right _) _)
      obtain ⟨later, hlater, hlogged'', hagree''⟩ := ih hlogged' hagree' hrest htime.2 hids' hS
      refine ⟨more ++ later, ?_, ?_, hagree''⟩
      · rw [List.map_append, hmore, hlater, ← List.filter_append]
        rfl
      · rw [List.append_assoc log more] at hlogged''
        exact hlogged''

end Run

/-! ## Reading a chat -/

/-- The message that is read from the row of a record. -/
structure ReadAs (r : Record) (m : TextMessage) : Prop where
  base : m.toMessage = r.send.message.toMessage
  blockHash : m.blockHash = r.block.hash
  text : m.message = r.send.text

/-- The line of a send in the chat of a member. -/
def entryOf (cfg : Config) (s : Send) : Entry where
  timestamp := getTimestamp s.tick.now
  own := s.sender = cfg
  message := s.text
  invalid := false

/-- The texts of the chat that one member has with another. -/
def ShownTo (E : Env) (a b : Config) (s : Send) : Prop :=
  s.sender = a ∧ s.recipient = b ∧ size E s ≤ bufferSize ∨
    s.sender = b ∧ s.recipient = a ∧ size E s ≤ bufferSize - 1

instance (E : Env) (a b : Config) (s : Send) : Decidable (ShownTo E a b s) :=
  inferInstanceAs (Decidable (_ ∨ _))

theorem exists_of_mem_right {α β : Type} {R : α → β → Prop} {l : List α} {l' : List β}
    (h : List.Forall₂ R l l') : ∀ y ∈ l', ∃ x ∈ l, R x y := by
  induction h with
  | nil => exact fun _ hy => absurd hy List.not_mem_nil
  | cons hR _ ih =>
      intro y hy
      rcases List.mem_cons.1 hy with rfl | hy
      · exact ⟨_, List.mem_cons_self, hR⟩
      · obtain ⟨x, hx, hxy⟩ := ih y hy
        exact ⟨x, List.mem_cons_of_mem _ hx, hxy⟩

theorem forall₂_filterMap {α β : Type} {f : α → Option β} {R : α → β → Prop} {l : List α}
    (h : ∀ x ∈ l, ∃ y, f x = some y ∧ R x y) : List.Forall₂ R l (l.filterMap f) := by
  induction l with
  | nil => exact .nil
  | cons x l ih =>
      rw [List.forall_mem_cons] at h
      obtain ⟨⟨y, hy, hR⟩, hrest⟩ := h
      rw [List.filterMap_cons_some hy]
      exact .cons hR (ih hrest)

/-- Two separate parts of a list, and both of them together. -/
theorem filter_append_filter_perm {α : Type} {p q : α → Bool} {l : List α}
    (h : ∀ x ∈ l, p x = true → q x = false) :
    (l.filter p ++ l.filter q).Perm (l.filter fun x => p x || q x) := by
  have hsplit := List.filter_append_perm p (l.filter fun x => p x || q x)
  have hp : (l.filter fun x => p x || q x).filter p = l.filter p := by
    rw [List.filter_filter]
    exact List.filter_congr fun x _ => by cases p x <;> rfl
  have hq : (l.filter fun x => p x || q x).filter (fun x => !p x) = l.filter q := by
    rw [List.filter_filter]
    refine List.filter_congr fun x hx => ?_
    cases hpx : p x with
    | true => simp [h x hx hpx]
    | false => simp
  rwa [hp, hq] at hsplit

section Read

variable {members : List Config} {chain : List Block} {log : List Record} {net : Nodes}
  {r : Record}

theorem Sound.read (laws : E.crypto.SignatureLaws) (session : E.crypto.SessionLaws)
    (hdistinct : Distinct E members) (h : Sound E members chain r) :
    ∃ m, ReadAs r m ∧
      MessageDB.readRow E r.send.recipient.privateKey false r.row = some m ∧
      MessageDB.readRow E r.send.sender.privateKey true r.row = some m := by
  obtain ⟨sig, hread⟩ := TextMessage.ofJson_serialize laws session (hdistinct.keys _ h.sender)
    (hdistinct.keys _ h.recipient) (m := r.send.message.setBlockHash r.block.hash) rfl rfl rfl
    h.json
  refine ⟨{ r.send.message.setBlockHash r.block.hash with signature := sig }, ⟨rfl, rfl, rfl⟩, ?_,
    ?_⟩
  · exact MessageDB.readRow_eq_some.2 (hread true).1
  · exact MessageDB.readRow_eq_some.2 (hread true).2

/-- The rows from one member to another. -/
theorem Logged.selectChat (laws : E.crypto.SignatureLaws) (hdistinct : Distinct E members)
    (hlogged : Logged E members chain log net) {cfg recipient sender : Config}
    (hcfg : cfg ∈ members) (hrecipient : recipient ∈ members) (hsender : sender ∈ members)
    {n : Node} (hn : net cfg.me.toUserHost = some n) :
    MessageDB.selectChat n.messages recipient.publicKey sender.publicKey =
      (log.filter fun r => KeptBy E cfg r.send ∧ r.send.recipient = recipient ∧
        r.send.sender = sender).map Record.row := by
  rw [MessageDB.selectChat, hlogged.rows cfg hcfg n hn, List.filter_map, List.filter_filter]
  congr 1
  refine List.filter_congr fun r hr => ?_
  have hsound := hlogged.sound r hr
  have hkeyTo : r.row.toPublicKey = .bind recipient.publicKey ↔
      r.send.recipient = recipient :=
    ⟨fun h => hdistinct.key_inj laws hsound.recipient hrecipient h, fun h => h ▸ rfl⟩
  have hkeyFrom : r.row.fromPublicKey = .bind sender.publicKey ↔ r.send.sender = sender :=
    ⟨fun h => hdistinct.key_inj laws hsound.sender hsender h, fun h => h ▸ rfl⟩
  simp only [Function.comp_apply, hkeyTo, hkeyFrom, Bool.decide_and, Bool.and_comm]

/-- The block of the record is in the chain of everybody, so the check trusts what is read. -/
theorem Logged.isInvalid (hlogged : Logged E members chain log net)
    (hagree : Agrees E members chain net) {cfg : Config} (hcfg : cfg ∈ members) {n : Node}
    (hn : net cfg.me.toUserHost = some n) (hr : r ∈ log) (hkept : KeptBy E cfg r.send)
    {m : TextMessage} (hm : ReadAs r m) :
    MessageService.isInvalid E n.messages n.chain m = .ok false := by
  obtain ⟨n', hn', -, -, hload, -⟩ := hagree cfg hcfg
  obtain rfl := Option.some.inj (hn.symm.trans hn')
  have hsound := hlogged.sound r hr
  obtain ⟨tip, hof⟩ := hsound.made
  have hrow : r.row ∈ n.messages.data := by
    rw [hlogged.rows cfg hcfg n hn]
    exact List.mem_map_of_mem (List.mem_filter.2 ⟨hr, decide_eq_true hkept⟩)
  exact isInvalid_of_row hof (hload.symm ▸ hsound.chained) hrow
    (congrArg (fun b : Message => DbText.bind b.id) hm.base.symm) rfl hm.blockHash
    (congrArg Message.fromPeer hm.base) (congrArg Message.timestamp hm.base) hm.text

theorem findInvalidChatMessageIDs_of_valid {t : MessageTable} {table : BlockTable}
    {messages : List TextMessage}
    (h : ∀ m ∈ messages, MessageService.isInvalid E t table m = .ok false) :
    MessageService.findInvalidChatMessageIDs E t table messages = ([], none) := by
  induction messages with
  | nil => rfl
  | cons m messages ih =>
      rw [List.forall_mem_cons] at h
      simp only [MessageService.findInvalidChatMessageIDs, h.1, ih h.2, Bool.false_eq_true,
        if_false]

/-- The records of a chat, those that came in first. -/
def chatRecords (E : Env) (a b : Config) (log : List Record) : List Record :=
  (log.filter fun r => KeptBy E a r.send ∧ r.send.recipient = a ∧ r.send.sender = b) ++
    log.filter fun r => KeptBy E a r.send ∧ r.send.recipient = b ∧ r.send.sender = a

/-- What `findChatMessages` reads, in the order of time, is what the records hold. -/
theorem Logged.findChatMessages (laws : E.crypto.SignatureLaws) (session : E.crypto.SessionLaws)
    (hdistinct : Distinct E members) (hlogged : Logged E members chain log net)
    (hagree : Agrees E members chain net) {a b : Config} (ha : a ∈ members) (hb : b ∈ members)
    {n : Node} (hn : net a.me.toUserHost = some n) :
    ∃ messages, List.Forall₂ ReadAs (chatRecords E a b log) messages ∧
      (MessageService.findChatMessages E n.config.privateKey n.messages n.config.publicKey
        b.publicKey).Perm messages := by
  obtain ⟨n', hn', hconfig, -⟩ := hagree a ha
  obtain rfl := Option.some.inj (hn.symm.trans hn')
  rw [hconfig]
  refine ⟨_, ?_, List.mergeSort_perm _ _⟩
  rw [hlogged.selectChat laws hdistinct ha ha hb hn, hlogged.selectChat laws hdistinct ha hb ha hn,
    List.filterMap_map, List.filterMap_map]
  refine List.rel_append (forall₂_filterMap fun r hr => ?_) (forall₂_filterMap fun r hr => ?_)
  · obtain ⟨hmem, hends⟩ := List.mem_filter.1 hr
    obtain ⟨-, hrecipient, -⟩ := of_decide_eq_true hends
    obtain ⟨m, hm, hread, -⟩ := (hlogged.sound r hmem).read laws session hdistinct
    rw [hrecipient] at hread
    exact ⟨m, hread, hm⟩
  · obtain ⟨hmem, hends⟩ := List.mem_filter.1 hr
    obtain ⟨-, -, hsender⟩ := of_decide_eq_true hends
    obtain ⟨m, hm, -, hread⟩ := (hlogged.sound r hmem).read laws session hdistinct
    rw [hsender] at hread
    exact ⟨m, hread, hm⟩

/-- The line of a message that was read from a record. -/
theorem entry_eq (hdistinct : Distinct E members) (h : Sound E members chain r) {a : Config}
    (ha : a ∈ members) {m : TextMessage} (hm : ReadAs r m) :
    ChatApplication.entry a.publicKey [] m = entryOf a r.send := by
  have hfrom : m.fromPeer.publicKey = r.send.sender.publicKey :=
    congrArg (fun b : Message => b.fromPeer.publicKey) hm.base
  have htime : m.timestamp = getTimestamp r.send.tick.now := congrArg Message.timestamp hm.base
  have hown : r.send.sender.publicKey = a.publicKey ↔ r.send.sender = a :=
    ⟨hdistinct.publicKeys _ h.sender _ ha, congrArg Config.publicKey⟩
  simp only [ChatApplication.entry, entryOf, hfrom, htime, hm.text, hown, List.not_mem_nil,
    decide_false]

theorem map_entry_eq (hdistinct : Distinct E members) {a : Config} (ha : a ∈ members)
    {records : List Record} (hsound : ∀ r ∈ records, Sound E members chain r)
    {messages : List TextMessage} (h : List.Forall₂ ReadAs records messages) :
    messages.map (ChatApplication.entry a.publicKey []) =
      records.map fun r => entryOf a r.send := by
  induction h with
  | nil => rfl
  | cons hm _ ih =>
      rw [List.forall_mem_cons] at hsound
      rw [List.map_cons, List.map_cons, entry_eq hdistinct hsound.1 ha hm, ih hsound.2]

/-! ### The command -/

/-- The member can be named in a command, and its key is not taken for a missing one. -/
structure Addressable (cfg : Config) : Prop where
  noNul : NoNul cfg.host
  typable : ChatApplication.Typable (bytesOf cfg.host)
  key : cfg.publicKey ≠ ""

theorem mem_chatRecords {a b : Config} (hne : a ≠ b) :
    r ∈ chatRecords E a b log ↔ r ∈ log ∧ KeptBy E a r.send ∧ other a r.send = b := by
  simp only [chatRecords, List.mem_append, List.mem_filter, decide_eq_true_eq, other]
  constructor
  · rintro (⟨hr, hkept, -, hsender⟩ | ⟨hr, hkept, hrecipient, hsender⟩)
    · exact ⟨hr, hkept, by rw [if_neg fun h => hne (h.symm.trans hsender), hsender]⟩
    · exact ⟨hr, hkept, by rw [if_pos hsender, hrecipient]⟩
  · rintro ⟨hr, hkept, hother⟩
    by_cases hsender : r.send.sender = a
    · rw [if_pos hsender] at hother
      exact Or.inr ⟨hr, hkept, hother, hsender⟩
    · rw [if_neg hsender] at hother
      exact Or.inl ⟨hr, hkept, (hkept.resolve_left hsender).1, hother⟩

/-- The address of a member finds its key as soon as there is a record. -/
theorem Logged.findPublicKey (hdistinct : Distinct E members)
    (haddress : ∀ cfg ∈ members, Addressable cfg) (laws : E.crypto.SignatureLaws)
    (hlogged : Logged E members chain log net) {a b : Config} (ha : a ∈ members) (hb : b ∈ members)
    (hne : a ≠ b) {n : Node} (hn : net a.me.toUserHost = some n) :
    findPublicKey n.chatPeers (bytesOf b.host) b.port =
      if chatRecords E a b log = [] then none else some b.publicKey := by
  have hbytes : cBytes (bytesOf b.host) = bytesOf b.host :=
    cBytes_of_zero_notMem (Json.zero_notMem_bytesOf (haddress b hb).noNul)
  have hhost : ∀ cfg ∈ members, (peerRow cfg.me).host.text = cfg.host := fun cfg hcfg =>
    cString_of_noNul (haddress cfg hcfg).noNul
  have hkey : (peerRow b.me).publicKey.text = b.publicKey :=
    cString_of_noNul (noNul_publicKey laws (hdistinct.keys b hb))
  -- only the row of the member has its address
  have hrow : ∀ row ∈ n.chatPeers.data, bytesOf row.host.text = bytesOf b.host → row.port = b.port →
      row = peerRow b.me ∧ chatRecords E a b log ≠ [] := by
    intro row hmem hrowHost hrowPort
    obtain ⟨r, hr, hkept, rfl⟩ := (hlogged.peers a ha n hn row).1 hmem
    have hsound := hlogged.sound r hr
    have hother : other a r.send ∈ members := by
      rw [other]
      split <;> first | exact hsound.recipient | exact hsound.sender
    rw [hhost _ hother] at hrowHost
    have hsame : other a r.send = b := hdistinct.host_inj hother hb (by
      simp only [Config.me, UserHost.mk.injEq]
      exact ⟨bytesOf_injective hrowHost, hrowPort⟩)
    rw [hsame]
    exact ⟨rfl, List.ne_nil_of_mem ((mem_chatRecords hne).2 ⟨hr, hkept, hsame⟩)⟩
  rw [ChatApplication.findPublicKey, hbytes]
  cases hfind : n.chatPeers.data.find? fun row =>
    bytesOf row.host.text = bytesOf b.host ∧ row.port = b.port with
  | some row =>
      have hfound := List.find?_some hfind
      obtain ⟨hrowHost, hrowPort⟩ := of_decide_eq_true hfound
      obtain ⟨rfl, hrecords⟩ := hrow row (List.mem_of_find?_eq_some hfind) hrowHost hrowPort
      simp only [hkey, (haddress b hb).key, hrecords, if_false]
  | none =>
      have hnil : chatRecords E a b log = [] := by
        by_contra hrecords
        obtain ⟨r, hr⟩ := List.exists_mem_of_ne_nil _ hrecords
        obtain ⟨hmem, hkept, hother⟩ := (mem_chatRecords hne).1 hr
        have hlisted := (hlogged.peers a ha n hn _).2 ⟨r, hmem, hkept, rfl⟩
        rw [hother] at hlisted
        refine List.find?_eq_none.1 hfind _ hlisted (decide_eq_true ⟨?_, rfl⟩)
        rw [hhost b hb]
      rw [if_pos hnil]

/-- The chat of one member with another, as its records tell. -/
theorem Logged.chatWith (laws : E.crypto.SignatureLaws) (session : E.crypto.SessionLaws)
    (hdistinct : Distinct E members) (haddress : ∀ cfg ∈ members, Addressable cfg)
    (hlogged : Logged E members chain log net) (hagree : Agrees E members chain net)
    {a b : Config} (ha : a ∈ members) (hb : b ∈ members) (hne : a ≠ b) {n : Node}
    (hn : net a.me.toUserHost = some n) :
    (chatRecords E a b log = [] →
        chatWith E n (bytesOf b.host) b.port = .noPeer (bytesOf b.host) b.port) ∧
      (chatRecords E a b log ≠ [] → ∃ entries,
        chatWith E n (bytesOf b.host) b.port = .history (bytesOf b.host) b.port [] entries ∧
          entries.Perm ((chatRecords E a b log).map fun r => entryOf a r.send) ∧
          entries.Pairwise fun e e' => e.timestamp ≤ e'.timestamp) := by
  have hfind := hlogged.findPublicKey hdistinct haddress laws ha hb hne hn
  refine ⟨fun hnil => ?_, fun hrecords => ?_⟩
  · rw [if_pos hnil] at hfind
    rw [ChatApplication.chatWith, hfind]
  · rw [if_neg hrecords] at hfind
    obtain ⟨messages, hread, hperm⟩ :=
      hlogged.findChatMessages laws session hdistinct hagree ha hb hn
    obtain ⟨n', hn', hconfig, -⟩ := hagree a ha
    obtain rfl := Option.some.inj (hn.symm.trans hn')
    -- every message that is read belongs to a record, so the chain vouches for it
    have hvalid : ∀ m ∈ MessageService.findChatMessages E n.config.privateKey n.messages
        n.config.publicKey b.publicKey,
        MessageService.isInvalid E n.messages n.chain m = .ok false := by
      intro m hm
      obtain ⟨r, hr, hreads⟩ := exists_of_mem_right hread m (hperm.mem_iff.1 hm)
      obtain ⟨hmem, hkept, -⟩ := (mem_chatRecords hne).1 hr
      exact hlogged.isInvalid hagree ha hn hmem hkept hreads
    have hsorted := ChatApplication.findChatMessages_sorted E n.config.privateKey n.messages
      n.config.publicKey b.publicKey
    have hcheck := findInvalidChatMessageIDs_of_valid hvalid
    -- and there is one, because there is a record
    have hne' : MessageService.findChatMessages E n.config.privateKey n.messages
        n.config.publicKey b.publicKey ≠ [] := by
      intro hnil
      rw [hnil, List.nil_perm] at hperm
      rw [hperm, List.forall₂_nil_right_iff] at hread
      exact hrecords hread
    refine ⟨(MessageService.findChatMessages E n.config.privateKey n.messages n.config.publicKey
      b.publicKey).map (ChatApplication.entry n.config.publicKey []), ?_, ?_, ?_⟩
    · simp only [ChatApplication.chatWith, hfind, hne', if_false, hcheck]
    · have hsound : ∀ r ∈ chatRecords E a b log, Sound E members chain r := fun r hr =>
        hlogged.sound r ((mem_chatRecords hne).1 hr).1
      refine (hperm.map _).trans ?_
      rw [hconfig, map_entry_eq hdistinct ha hsound hread]
    · exact List.pairwise_map.2 hsorted

end Read

/-! ## The chats of a network -/

section Chats

variable {members : List Config} {chain : List Block} {net : Nodes} {sends : List Send}

/-- The records of a chat are the sends that it shows. -/
theorem chatRecords_perm {a b : Config} (hne : a ≠ b) {log : List Record}
    (hlog : log.map Record.send = sends.filter (fun s => size E s ≤ bufferSize)) :
    ((chatRecords E a b log).map Record.send).Perm (sends.filter (ShownTo E a b)) := by
  have hmap : ∀ p : Send → Bool, (log.filter fun r => p r.send).map Record.send =
      (sends.filter fun s => size E s ≤ bufferSize).filter p := fun p => by
    rw [← hlog, List.filter_map]
    rfl
  rw [chatRecords, List.map_append,
    hmap fun s => KeptBy E a s ∧ s.recipient = a ∧ s.sender = b,
    hmap fun s => KeptBy E a s ∧ s.recipient = b ∧ s.sender = a]
  refine (filter_append_filter_perm fun s _ hs => ?_).trans ?_
  · have hends := of_decide_eq_true hs
    exact decide_eq_false fun h => hne (hends.2.1.symm.trans h.2.1)
  · rw [List.filter_filter]
    refine List.Perm.of_eq (List.filter_congr fun s _ => ?_)
    rw [Bool.eq_iff_iff]
    simp only [Bool.and_eq_true, Bool.or_eq_true, decide_eq_true_eq]
    rw [KeptBy, ShownTo, bufferSize]
    constructor
    · rintro ⟨⟨hkept, hrecipient, hsender⟩ | ⟨-, hrecipient, hsender⟩, hsmall⟩
      · have hroom := hkept.resolve_left fun h => hne (h.symm.trans hsender)
        exact Or.inr ⟨hsender, hrecipient, hroom.2⟩
      · exact Or.inl ⟨hsender, hrecipient, hsmall⟩
    · rintro (⟨hsender, hrecipient, hsmall⟩ | ⟨hsender, hrecipient, hsmall⟩)
      · exact ⟨Or.inr ⟨Or.inl hsender, hrecipient, hsender⟩, hsmall⟩
      · exact ⟨Or.inl ⟨Or.inr ⟨hrecipient, hsmall⟩, hrecipient, hsender⟩, by omega⟩

/-- Nobody has messages or chat peers yet. -/
def Quiet (members : List Config) (net : Nodes) : Prop :=
  ∀ cfg ∈ members, ∀ n, net cfg.me.toUserHost = some n →
    n.messages.data = [] ∧ n.chatPeers.data = []

theorem Logged.of_quiet (h : Quiet members net) : Logged E members chain [] net where
  sound := fun _ hr => absurd hr List.not_mem_nil
  rows := fun cfg hcfg n hn => (h cfg hcfg n hn).1
  peers := by
    intro cfg hcfg n hn row
    rw [(h cfg hcfg n hn).2]
    simp

/-- Whatever the members of a network send each other: `/chat`, with the address of a member as it
is printed, shows exactly the texts between the two, in the order of time and without a mark. -/
theorem chats_show_conversations (laws : E.crypto.SignatureLaws) (session : E.crypto.SessionLaws)
    (compact : E.crypto.CompactLaws) (hdistinct : Distinct E members)
    (haddress : ∀ cfg ∈ members, Addressable cfg) (hagree : Agrees E members chain net)
    (hquiet : Quiet members net) (hmembers : ∀ s ∈ sends, s.sender ∈ members ∧
      s.recipient ∈ members ∧ s.recipient ≠ s.sender) (htime : ∀ s ∈ sends, s.InTime members)
    (hids : (sends.map fun s => DbText.bind s.tick.uuid).Nodup)
    (hS : E.CollisionFree (Block.canonicals (chain ++ madeBlocks (runSends E sends net).2)))
    {a b : Config} (ha : a ∈ members) (hb : b ∈ members) (hne : a ≠ b) {n : Node}
    (hn : (runSends E sends net).1 a.me.toUserHost = some n) {before after : Bytes}
    (hbefore : ∀ c ∈ before, ChatApplication.isBlank c = true)
    (hafter : ∀ c ∈ after, ChatApplication.isBlank c = true) :
    (sends.filter (ShownTo E a b) = [] →
        handleChatCommand E n (before ++ hostPortText (bytesOf b.host) b.port ++ after) =
          .noPeer (bytesOf b.host) b.port) ∧
      (sends.filter (ShownTo E a b) ≠ [] → ∃ entries,
        handleChatCommand E n (before ++ hostPortText (bytesOf b.host) b.port ++ after) =
            .history (bytesOf b.host) b.port [] entries ∧
          entries.Perm ((sends.filter (ShownTo E a b)).map (entryOf a)) ∧
          entries.Pairwise fun e e' => e.timestamp ≤ e'.timestamp) := by
  obtain ⟨log, hlog, hlogged, hagree'⟩ := (Logged.of_quiet hquiet).run laws session compact
    hdistinct hagree hmembers htime (by simpa using hids) hS
  have hperm := chatRecords_perm hne hlog
  -- the records of the chat are the texts that are shown
  have hnil : sends.filter (ShownTo E a b) = [] ↔ chatRecords E a b log = [] := by
    rw [← List.map_eq_nil_iff (f := Record.send)]
    exact ⟨fun h => List.perm_nil.1 (h ▸ hperm), fun h => List.nil_perm.1 (h ▸ hperm)⟩
  obtain ⟨hnone, hsome⟩ := hlogged.chatWith laws session hdistinct haddress hagree' ha hb hne hn
  rw [ChatApplication.handleChatCommand_typed (haddress b hb).typable b.port hbefore hafter]
  refine ⟨fun h => hnone (hnil.1 h), fun h => ?_⟩
  obtain ⟨entries, hentries, hshown, hsorted⟩ := hsome fun hrecords => h (hnil.2 hrecords)
  refine ⟨entries, hentries, hshown.trans ?_, hsorted⟩
  have hmapped := hperm.map (entryOf a)
  rwa [List.map_map] at hmapped

/-! ### Both ends -/

/-- The lines that a command has found. -/
def shownEntries : ChatApplication.ChatResult → List Entry
  | .history _ _ _ entries => entries
  | _ => []

/-- The line as the other end has it. -/
def mirrored (e : Entry) : Entry := { e with own := !e.own }

/-- What is typed after `/chat`. -/
def address (cfg : Config) : Bytes := bytesOf " " ++ hostPortText (bytesOf cfg.host) cfg.port

theorem handleChatCommand_address {cfg : Config} (h : Addressable cfg) (n : Node) :
    handleChatCommand E n (address cfg) = chatWith E n (bytesOf cfg.host) cfg.port := by
  have hblank : ∀ c ∈ bytesOf " ", ChatApplication.isBlank c = true :=
    List.all_eq_true.1 (by decide)
  have hnothing : ∀ c ∈ ([] : Bytes), ChatApplication.isBlank c = true := by simp
  have htyped := ChatApplication.handleChatCommand_typed (E := E) h.typable cfg.port hblank
    hnothing n
  rwa [List.append_nil] at htyped

theorem Logged.shownEntries_perm (laws : E.crypto.SignatureLaws) (session : E.crypto.SessionLaws)
    (hdistinct : Distinct E members) (haddress : ∀ cfg ∈ members, Addressable cfg)
    {log : List Record} (hlogged : Logged E members chain log net)
    (hagree : Agrees E members chain net)
    (hlog : log.map Record.send = sends.filter (fun s => size E s ≤ bufferSize)) {a b : Config}
    (ha : a ∈ members) (hb : b ∈ members) (hne : a ≠ b) {n : Node}
    (hn : net a.me.toUserHost = some n) :
    (shownEntries (handleChatCommand E n (address b))).Perm
      ((sends.filter (ShownTo E a b)).map (entryOf a)) := by
  have hperm := (chatRecords_perm (E := E) hne hlog).map (entryOf a)
  rw [List.map_map] at hperm
  obtain ⟨hnone, hsome⟩ := hlogged.chatWith laws session hdistinct haddress hagree ha hb hne hn
  rw [handleChatCommand_address (haddress b hb)]
  by_cases hnil : chatRecords E a b log = []
  · rw [hnone hnil]
    rwa [hnil] at hperm
  · obtain ⟨entries, hentries, hshown, -⟩ := hsome hnil
    rw [hentries]
    exact hshown.trans hperm

/-- The sends between two ends. -/
def Between (a b : Config) (s : Send) : Prop :=
  s.sender = a ∧ s.recipient = b ∨ s.sender = b ∧ s.recipient = a

theorem ShownTo.between {a b : Config} {s : Send} (h : ShownTo E a b s) : Between a b s :=
  h.imp (fun h => ⟨h.1, h.2.1⟩) fun h => ⟨h.1, h.2.1⟩

theorem mirrored_entryOf {a b : Config} (hne : a ≠ b) {s : Send} (h : Between a b s) :
    mirrored (entryOf a s) = entryOf b s := by
  rcases h with ⟨hsender, -⟩ | ⟨hsender, -⟩
  · simp [mirrored, entryOf, hsender, hne]
  · simp [mirrored, entryOf, hsender, hne.symm]

theorem shownTo_comm {a b : Config} {s : Send} (h : Between a b s → size E s ≠ bufferSize) :
    ShownTo E a b s ↔ ShownTo E b a s := by
  have hroom : Between a b s → (size E s ≤ bufferSize ↔ size E s ≤ bufferSize - 1) := by
    intro hbetween
    have hsize := h hbetween
    rw [bufferSize] at hsize ⊢
    omega
  constructor
  · rintro (⟨hsender, hrecipient, hsmall⟩ | ⟨hsender, hrecipient, hsmall⟩)
    · exact Or.inr ⟨hsender, hrecipient, (hroom (Or.inl ⟨hsender, hrecipient⟩)).1 hsmall⟩
    · exact Or.inl ⟨hsender, hrecipient, (hroom (Or.inr ⟨hsender, hrecipient⟩)).2 hsmall⟩
  · rintro (⟨hsender, hrecipient, hsmall⟩ | ⟨hsender, hrecipient, hsmall⟩)
    · exact Or.inr ⟨hsender, hrecipient, (hroom (Or.inr ⟨hsender, hrecipient⟩)).1 hsmall⟩
    · exact Or.inl ⟨hsender, hrecipient, (hroom (Or.inl ⟨hsender, hrecipient⟩)).2 hsmall⟩

/-- As many of the sends of one end on both sides mean that none of them filled the buffer. -/
theorem ne_bufferSize_of_length {a b : Config} (hne : a ≠ b)
    (h : ((sends.filter (ShownTo E a b)).filter fun s => s.sender = a).length =
      ((sends.filter (ShownTo E b a)).filter fun s => s.sender = a).length) :
    ∀ s ∈ sends, s.sender = a → s.recipient = b → size E s ≠ bufferSize := by
  intro s hs hsender hrecipient hsize
  have hsub : ((sends.filter (ShownTo E b a)).filter fun s => s.sender = a).Sublist
      ((sends.filter (ShownTo E a b)).filter fun s => s.sender = a) := by
    rw [List.filter_filter, List.filter_filter]
    refine List.monotone_filter_right sends fun s hs => ?_
    simp only [Bool.and_eq_true, decide_eq_true_eq] at hs ⊢
    obtain ⟨hsender, ⟨hsender', -⟩ | ⟨-, hrecipient, hsmall⟩⟩ := hs
    · exact absurd (hsender.symm.trans hsender') hne
    · exact ⟨hsender, Or.inl ⟨hsender, hrecipient, by omega⟩⟩
  have hmem : s ∈ (sends.filter (ShownTo E a b)).filter fun s => s.sender = a := by
    simp only [List.mem_filter, decide_eq_true_eq]
    exact ⟨⟨hs, Or.inl ⟨hsender, hrecipient, hsize.le⟩⟩, hsender⟩
  rw [← hsub.eq_of_length h.symm] at hmem
  simp only [List.mem_filter, decide_eq_true_eq] at hmem
  rcases hmem.1.2 with ⟨hsender', -⟩ | ⟨-, -, hsmall⟩
  · exact hne (hsender.symm.trans hsender')
  · rw [hsize, bufferSize] at hsmall
    omega

/-- Both ends of a chat show the same texts, each as its own or as the other's, if and only if
none between them filled the buffer. -/
theorem both_ends_agree_iff (laws : E.crypto.SignatureLaws) (session : E.crypto.SessionLaws)
    (compact : E.crypto.CompactLaws) (hdistinct : Distinct E members)
    (haddress : ∀ cfg ∈ members, Addressable cfg) (hagree : Agrees E members chain net)
    (hquiet : Quiet members net) (hmembers : ∀ s ∈ sends, s.sender ∈ members ∧
      s.recipient ∈ members ∧ s.recipient ≠ s.sender) (htime : ∀ s ∈ sends, s.InTime members)
    (hids : (sends.map fun s => DbText.bind s.tick.uuid).Nodup)
    (hS : E.CollisionFree (Block.canonicals (chain ++ madeBlocks (runSends E sends net).2)))
    {a b : Config} (ha : a ∈ members) (hb : b ∈ members) (hne : a ≠ b) {n m : Node}
    (hn : (runSends E sends net).1 a.me.toUserHost = some n)
    (hm : (runSends E sends net).1 b.me.toUserHost = some m) :
    ((shownEntries (handleChatCommand E n (address b))).map mirrored).Perm
        (shownEntries (handleChatCommand E m (address a))) ↔
      ∀ s ∈ sends, Between a b s → size E s ≠ bufferSize := by
  obtain ⟨log, hlog, hlogged, hagree'⟩ := (Logged.of_quiet hquiet).run laws session compact
    hdistinct hagree hmembers htime (by simpa using hids) hS
  have hA := (hlogged.shownEntries_perm laws session hdistinct haddress hagree' hlog ha hb hne
    hn).map mirrored
  have hB := hlogged.shownEntries_perm laws session hdistinct haddress hagree' hlog hb ha hne.symm
    hm
  have hmirror : ((sends.filter (ShownTo E a b)).map (entryOf a)).map mirrored =
      (sends.filter (ShownTo E a b)).map (entryOf b) := by
    rw [List.map_map]
    refine List.map_congr_left fun s hs => ?_
    exact mirrored_entryOf hne (of_decide_eq_true (List.mem_filter.1 hs).2).between
  rw [hmirror] at hA
  constructor
  · intro hsame
    have hperm := hA.symm.trans (hsame.trans hB)
    have hlength : ∀ own : Bool,
        ((sends.filter (ShownTo E a b)).filter fun s => (entryOf b s).own = own).length =
          ((sends.filter (ShownTo E b a)).filter fun s => (entryOf b s).own = own).length := by
      intro own
      have hcount := (hperm.filter fun e => e.own = own).length_eq
      rwa [List.filter_map, List.filter_map, List.length_map, List.length_map] at hcount
    -- among these, what is not from one end is from the other
    have hends : ∀ {l : List Send}, (∀ s ∈ l, Between a b s) →
        (l.filter fun s => (entryOf b s).own = false) = l.filter fun s => s.sender = a := by
      intro l hl
      refine List.filter_congr fun s hs => decide_eq_decide.2 ?_
      rcases hl s hs with ⟨hsender, -⟩ | ⟨hsender, -⟩
      · simp [entryOf, hsender, hne]
      · simp [entryOf, hsender, hne.symm]
    have hself : ∀ l : List Send,
        (l.filter fun s => (entryOf b s).own = true) = l.filter fun s => s.sender = b :=
      fun l => List.filter_congr fun s _ => decide_eq_decide.2 (by simp [entryOf])
    have hfirst := hlength false
    rw [hends fun s hs => (of_decide_eq_true (List.mem_filter.1 hs).2).between,
      hends fun s hs => (of_decide_eq_true (List.mem_filter.1 hs).2).between.symm] at hfirst
    have hsecond := hlength true
    rw [hself, hself] at hsecond
    rintro s hs (⟨hsender, hrecipient⟩ | ⟨hsender, hrecipient⟩)
    · exact ne_bufferSize_of_length hne hfirst s hs hsender hrecipient
    · exact ne_bufferSize_of_length hne.symm hsecond.symm s hs hsender hrecipient
  · intro hsizes
    have hfilter : sends.filter (ShownTo E a b) = sends.filter (ShownTo E b a) :=
      List.filter_congr fun s hs => decide_eq_decide.2 (shownTo_comm (hsizes s hs))
    rw [hfilter] at hA
    exact hA.trans hB.symm

end Chats

/-! ## A chat of two -/

namespace Pair

open SmallNet

theorem distinct : Distinct testEnv members where
  hosts := distinct_members
  keys := keyPairMatches_members
  publicKeys := by decide +kernel

theorem addressable : ∀ cfg ∈ members, Addressable cfg := by
  have htypable := ChatApplication.TwoMessages.typable
  intro cfg hcfg
  rcases List.mem_pair.1 hcfg with rfl | rfl
  · exact ⟨by decide, htypable, by decide +kernel⟩
  · exact ⟨by decide, htypable, by decide +kernel⟩

theorem quiet : Quiet members pair := by
  intro cfg hcfg n hn
  rcases List.mem_pair.1 hcfg with rfl | rfl
  · obtain rfl := Option.some.inj (pair_config.symm.trans hn)
    exact ⟨rfl, rfl⟩
  · obtain rfl := Option.some.inj (pair_rivalConfig.symm.trans hn)
    exact ⟨rfl, rfl⟩

theorem rival_mem : FirstBlock.rivalConfig ∈ members :=
  List.mem_cons_of_mem _ List.mem_cons_self

theorem apart : ∀ s ∈ exchange, s.sender ∈ members ∧ s.recipient ∈ members ∧
    s.recipient ≠ s.sender := by
  intro s hs
  refine ⟨(exchange_members s hs).1, (exchange_members s hs).2, ?_⟩
  rcases List.mem_pair.1 hs with rfl | rfl <;> decide +kernel

theorem ids_nodup : (exchange.map fun s => DbText.bind s.tick.uuid).Nodup := by
  decide

/-- With these keys the JSON has 480 bytes and two for each one of the text. -/
theorem size_send (text : Bytes) : size testEnv (send text) = 2 * text.length + 480 := by
  obtain ⟨j, hj⟩ := TextMessage.serialize_ok XORCrypto.signatureLaws XORCrypto.sessionLaws
    FirstBlock.keyPairMatches FirstBlock.rival_keyPairMatches
    (m := (send text).message.setBlockHash (testEnv.sha256 [])) rfl outside.draws
  rw [size_eq hj]
  exact dumpLen_messageTo stringLen_rivalKey (testEnv.stringLen_sha256 []) hj

theorem size_reply : size testEnv reply < bufferSize := by
  decide +kernel

theorem shown : exchange.filter (ShownTo testEnv FirstBlock.config FirstBlock.rivalConfig) =
    exchange := by
  refine List.filter_eq_self.2 fun s hs => ?_
  rcases List.mem_pair.1 hs with rfl | rfl
  · exact decide_eq_true (Or.inl ⟨rfl, rfl, by rw [size_send]; decide⟩)
  · exact decide_eq_true (Or.inr ⟨rfl, rfl, Nat.le_sub_one_of_lt size_reply⟩)

/-- A text that fills the buffer. -/
def full : List Send := [send (List.replicate 16144 104)]

theorem full_apart : ∀ s ∈ full, s.sender ∈ members ∧ s.recipient ∈ members ∧
    s.recipient ≠ s.sender := by
  intro s hs
  rw [List.mem_singleton.1 hs]
  exact ⟨List.mem_cons_self, rival_mem, by decide +kernel⟩

theorem inTime_full : ∀ s ∈ full, s.InTime members := by
  intro s hs
  rw [List.mem_singleton.1 hs]
  exact inTime_send _

theorem collisionFree_full : testEnv.CollisionFree
    (Block.canonicals ([] ++ madeBlocks (runSends testEnv full pair).2)) := by
  have hrest : madeBlocks (runSends testEnv []
      (Send.run testEnv (send (List.replicate 16144 104)) pair).1).2 = [] := rfl
  rw [full, madeBlocks_runSends, List.nil_append, hrest, List.append_nil]
  cases (Send.run testEnv (send (List.replicate 16144 104)) pair).2.block? with
  | none =>
      rintro x ⟨b, hb, -⟩
      cases hb
  | some block => exact Block.collisionFree_singleton testEnv block

/-- Nobody stops running by a send. -/
theorem exists_node {sends : List Send} (hmembers : ∀ s ∈ sends, s.sender ∈ members ∧
      s.recipient ∈ members ∧ s.recipient ≠ s.sender) (htime : ∀ s ∈ sends, s.InTime members)
    (hids : (sends.map fun s => DbText.bind s.tick.uuid).Nodup)
    (hS : testEnv.CollisionFree
      (Block.canonicals ([] ++ madeBlocks (runSends testEnv sends pair).2)))
    {cfg : Config} (hcfg : cfg ∈ members) :
    ∃ n, (runSends testEnv sends pair).1 cfg.me.toUserHost = some n := by
  obtain ⟨-, -, -, hagree⟩ := (Logged.of_quiet quiet).run XORCrypto.signatureLaws
    XORCrypto.sessionLaws XORCrypto.compactLaws distinct agrees_pair hmembers htime
    (by simpa using hids) hS
  obtain ⟨n, hn, -⟩ := hagree cfg hcfg
  exact ⟨n, hn⟩

end Pair

open SmallNet in
/-- The answer was made a moment earlier, by its clock, so it stands above the text. -/
theorem chats_show_conversations_exchange : ∃ n,
    (runSends testEnv exchange pair).1 FirstBlock.config.me.toUserHost = some n ∧
    handleChatCommand testEnv n (bytesOf " 127.0.0.1:8002  ") =
      .history (bytesOf "127.0.0.1") 8002 []
        [{ timestamp := 1699999999999, own := false, message := [98], invalid := false },
          { timestamp := 1700000000000, own := true, message := [104, 105],
            invalid := false }] := by
  obtain ⟨n, hn⟩ := Pair.exists_node Pair.apart inTime_exchange Pair.ids_nodup
    collisionFree_exchange List.mem_cons_self
  have hblank : ∀ c ∈ bytesOf " ", ChatApplication.isBlank c = true :=
    List.all_eq_true.1 (by decide)
  have hblanks : ∀ c ∈ bytesOf "  ", ChatApplication.isBlank c = true :=
    List.all_eq_true.1 (by decide)
  obtain ⟨-, hsome⟩ := chats_show_conversations XORCrypto.signatureLaws XORCrypto.sessionLaws
    XORCrypto.compactLaws Pair.distinct Pair.addressable agrees_pair Pair.quiet Pair.apart
    inTime_exchange Pair.ids_nodup collisionFree_exchange List.mem_cons_self Pair.rival_mem
    (by decide +kernel) hn hblank hblanks
  rw [Pair.shown] at hsome
  obtain ⟨entries, hentries, hperm, hsorted⟩ := hsome (by simp [exchange])
  have hlines : exchange.map (entryOf FirstBlock.config) =
      [{ timestamp := 1700000000000, own := true, message := [104, 105], invalid := false },
        { timestamp := 1699999999999, own := false, message := [98], invalid := false }] := by
    decide +kernel
  have htyped : bytesOf " 127.0.0.1:8002  " = bytesOf " " ++ hostPortText
      (bytesOf FirstBlock.rivalConfig.host) FirstBlock.rivalConfig.port ++ bytesOf "  " := by
    decide +kernel
  refine ⟨n, hn, ?_⟩
  rw [htyped, hentries]
  rw [hlines] at hperm
  -- of the two orders only one is sorted
  rcases List.perm_pair.1 hperm with rfl | rfl
  · revert hsorted
    decide
  · rfl

open SmallNet in
/-- Both ends show the two texts, but a text that fills the buffer is shown by one of them only. -/
theorem both_ends_agree_exchange :
    (∃ n m, (runSends testEnv exchange pair).1 FirstBlock.config.me.toUserHost = some n ∧
      (runSends testEnv exchange pair).1 FirstBlock.rivalConfig.me.toUserHost = some m ∧
      ((shownEntries (handleChatCommand testEnv n (address FirstBlock.rivalConfig))).map
        mirrored).Perm (shownEntries (handleChatCommand testEnv m (address FirstBlock.config)))) ∧
    ∃ n m, (runSends testEnv Pair.full pair).1 FirstBlock.config.me.toUserHost = some n ∧
      (runSends testEnv Pair.full pair).1 FirstBlock.rivalConfig.me.toUserHost = some m ∧
      ¬ ((shownEntries (handleChatCommand testEnv n (address FirstBlock.rivalConfig))).map
        mirrored).Perm
          (shownEntries (handleChatCommand testEnv m (address FirstBlock.config))) := by
  have hne : FirstBlock.config ≠ FirstBlock.rivalConfig := by decide +kernel
  constructor
  · have hnode : ∀ cfg ∈ members, ∃ n,
        (runSends testEnv exchange pair).1 cfg.me.toUserHost = some n := fun _ =>
      Pair.exists_node Pair.apart inTime_exchange Pair.ids_nodup collisionFree_exchange
    obtain ⟨n, hn⟩ := hnode FirstBlock.config List.mem_cons_self
    obtain ⟨m, hm⟩ := hnode FirstBlock.rivalConfig Pair.rival_mem
    refine ⟨n, m, hn, hm, (both_ends_agree_iff XORCrypto.signatureLaws XORCrypto.sessionLaws
      XORCrypto.compactLaws Pair.distinct Pair.addressable agrees_pair Pair.quiet Pair.apart
      inTime_exchange Pair.ids_nodup collisionFree_exchange List.mem_cons_self Pair.rival_mem hne hn
      hm).2 ?_⟩
    rintro s hs -
    rcases List.mem_pair.1 hs with rfl | rfl
    · rw [Pair.size_send]
      decide
    · exact Nat.ne_of_lt Pair.size_reply
  · have hnode : ∀ cfg ∈ members, ∃ n,
        (runSends testEnv Pair.full pair).1 cfg.me.toUserHost = some n := fun _ =>
      Pair.exists_node Pair.full_apart Pair.inTime_full (List.nodup_singleton _)
        Pair.collisionFree_full
    obtain ⟨n, hn⟩ := hnode FirstBlock.config List.mem_cons_self
    obtain ⟨m, hm⟩ := hnode FirstBlock.rivalConfig Pair.rival_mem
    refine ⟨n, m, hn, hm, fun hsame => ?_⟩
    have hsizes := (both_ends_agree_iff XORCrypto.signatureLaws XORCrypto.sessionLaws
      XORCrypto.compactLaws Pair.distinct Pair.addressable agrees_pair Pair.quiet Pair.full_apart
      Pair.inTime_full (List.nodup_singleton _) Pair.collisionFree_full List.mem_cons_self
      Pair.rival_mem hne hn hm).1 hsame
    refine hsizes _ (List.mem_singleton_self _) (Or.inl ⟨rfl, rfl⟩) ?_
    rw [Pair.size_send, List.length_replicate]
    rfl

end Conversation
end Network
end DChat
