import DChat.Membership
import DChat.History
import DChat.Rollback

/-!
# Splits — two chains that have parted stay apart

Whatever reaches a node, and whatever it does itself, its chain only ever grows at the end.  So two
chains that differ at one position differ there for good, through any requests, sends, starts and
stops of anybody.  On valid chains that means that they have no block in common from there on, and
that neither of the two nodes stores a block of its own while it lists the other one and this one
runs: each would have to name two tips.
-/

namespace DChat
namespace Network
namespace Splits

open Utils Crypto Peer Messaging Blockchain BlockchainService Chat PartyMap TCPClient
open LinkedChain Relation
open Startup (State Moment)
open DChat.Network.Membership (World reboot connectToAllPeers disconnect)

/-! ## What may happen -/

variable (E : Env)

/-- Anything that may happen: a text from anywhere that reaches a node, as a request or as an
answer, a send of any message by any node, and a party that starts, leaves or vanishes. -/
inductive Step : World → World → Prop
  | request {w : World} (host : UserHost) (visit : Visit) (jData : Json) :
      Step w { w with net := (request E w.net host visit jData).1 }
  | answer {w : World} (host : UserHost) (response : Option Json) :
      Step w { w with
        net := modify host (fun n => ChatService.handleOutgoingMessage n response) w.net }
  | send {w : World} (out : Outside) (own : UserHost) (message : TextMessage) :
      Step w { w with net := (sendSecretMessage E out own message w.net).1 }
  /-- `init`, of a party whose configuration is the one of its address. -/
  | start {w : World} {cfg : Config} {out : Startup.Outside} {fuel : Nat} {result : Startup.Result}
      (moments : UserPeer → Moment) : w.net cfg.me.toUserHost = none →
      (w.stopped cfg.me.toUserHost).config = cfg →
      Startup.init E out fuel (w.starting cfg) = some result →
      Step w (w.join (connectToAllPeers E moments result.state))
  | leave {w : World} {host : UserHost} {n : Node} (moments : UserPeer → Moment) :
      w.net host = some n →
      Step w (w.stop
        (disconnect E moments { net := Function.update w.net host none, client := n }).net host
        (disconnect E moments { net := Function.update w.net host none, client := n }).client)
  | vanish {w : World} {host : UserHost} {n : Node} : w.net host = some n →
      Step w (w.stop (Function.update w.net host none) host n)

/-- The party at an address, whether it runs or not. -/
def party (w : World) (host : UserHost) : Node := (w.net host).getD (w.stopped host)

/-- The chain of the party at an address. -/
def blocks (w : World) (host : UserHost) : List Block :=
  ChainDB.loadAllBlocks (party w host).chain

variable {E}

/-! ## Chains only grow -/

/-- The configuration stays, and rows are only appended to the chain. -/
structure Grows (n n' : Node) : Prop where
  config : n'.config = n.config
  chain : n.chain.data <+: n'.chain.data

theorem Grows.refl (n : Node) : Grows n n := ⟨rfl, List.prefix_rfl⟩

theorem Grows.trans {n n' n'' : Node} (h : Grows n n') (h' : Grows n' n'') : Grows n n'' :=
  ⟨h'.config.trans h.config, h.chain.trans h'.chain⟩

theorem Grows.of_eq {n n' : Node} (hconfig : n'.config = n.config) (hchain : n'.chain = n.chain) :
    Grows n n' := ⟨hconfig, hchain ▸ List.prefix_rfl⟩

/-- Every node of the network grows. -/
abbrev AllGrow (net net' : Nodes) : Prop := Moved (fun _ => Grows) net net'

theorem AllGrow.refl (net : Nodes) : AllGrow net net := Moved.refl (fun _ n => Grows.refl n) net

theorem AllGrow.trans {net net' net'' : Nodes} (h : AllGrow net net') (h' : AllGrow net' net'') :
    AllGrow net net'' := Moved.trans (fun _ _ _ _ hn hn' => hn.trans hn') h h'

theorem AllGrow.modify {net : Nodes} {host : UserHost} {f : Node → Node}
    (hf : ∀ n, net host = some n → Grows n (f n)) : AllGrow net (modify host f net) :=
  Moved.modify hf fun _ n _ => Grows.refl n

theorem serve_grows (n : Node) (visit : Visit) (jData : Json) :
    Grows n (TCPServer.serve E n visit jData).1 := by
  cases hkind : jData.contains "previousHash" && jData.contains "payloadHash" with
  | true =>
      rw [TCPServer.serve_of_block n visit hkind]
      exact ⟨rfl, onIncomingBlock_grows n.config.me visit.checked visit.tick n.chain jData⟩
  | false =>
      rw [TCPServer.serve_of_message n visit hkind, Request.handleIncomingMessage_eq]
      cases Request.decode (Request.decodeText E n.config.privateKey) jData with
      | ok request =>
          refine Grows.of_eq (Request.config_handle request n visit.tick jData) ?_
          cases request <;> rfl
      | error e => cases e <;> exact Grows.refl n

/-- No response touches the chain. -/
theorem handleOutgoing_grows (n : Node) (response : Option Json) :
    Grows n (ChatService.handleOutgoingMessage n response) := by
  cases response with
  | none => exact Grows.refl n
  | some jData =>
      refine Grows.of_eq (Request.config_handleOutgoingMessage n jData) ?_
      rw [ChatService.handleOutgoingMessage]
      cases hdispatch : ChatService.dispatchOutgoing n jData with
      | error e => rfl
      | ok n' =>
          rcases Request.dispatchOutgoing_cases hdispatch with
            rfl | ⟨m, rfl⟩ | ⟨m, rfl⟩ | ⟨m, rfl⟩ | ⟨m, rfl⟩ <;> rfl

theorem request_grows (net : Nodes) (host : UserHost) (visit : Visit) (jData : Json) :
    AllGrow net (request E net host visit jData).1 := by
  rw [request]
  cases received jData with
  | none => exact AllGrow.refl net
  | some j => exact AllGrow.modify fun n _ => serve_grows n visit j

/-! ### Sends -/

section Sends

variable (out : Outside) (own : UserHost) (message : TextMessage) (block : Block) (net : Nodes)

theorem sendCallback_grows (raw : Json) (peer : UserPeer) :
    AllGrow net (sendCallback E out raw peer net).2 := by
  have hgrows := request_grows (E := E) net peer.toUserHost (out.blockVisit peer) raw
  rw [sendCallback]
  cases net peer.toUserHost with
  | none => exact AllGrow.refl net
  | some n =>
      rcases hrequest : request E net peer.toUserHost (out.blockVisit peer) raw with ⟨net', answer⟩
      rw [hrequest] at hgrows
      dsimp only
      cases answer.bind received <;> exact hgrows

theorem broadcast_grows (raw : Json) (peers : List UserPeer) :
    AllGrow net (broadcast (sendCallback E out raw) peers net).2 := by
  induction peers generalizing net with
  | nil => exact AllGrow.refl net
  | cons peer peers ih =>
      have hgrows := sendCallback_grows (E := E) out net raw peer
      rw [broadcast]
      rcases hcall : sendCallback E out raw peer net with ⟨answer, net'⟩
      rw [hcall] at hgrows
      rcases answer with e | _ | _
      · exact hgrows
      · exact hgrows
      · exact hgrows.trans (ih net')

theorem deliver_grows (jMessage : Json) :
    AllGrow net (deliver E out own message block jMessage net).1 :=
  (request_grows net message.toPeer.toUserHost out.textVisit jMessage).trans
    (AllGrow.modify fun n _ => (handleOutgoing_grows n _).trans (Grows.of_eq rfl rfl))

theorem storeBlock_grows (sent : Bool) (t : BlockTable) :
    t.data <+: ((storeBlock sent block).run ChainOp.exec t).2.data := by
  cases sent with
  | false => exact List.prefix_rfl
  | true => exact ChainDB.data_prefix_insertBlock t block

/-- After the loop over the peers only the own chain is touched. -/
theorem storeAndBroadcastBlock_snd {peers : List UserPeer}
    (hpeers : ((net own).map Node.peers).getD [] = peers) :
    (storeAndBroadcastBlock E out own block net).2 =
      modify own (fun n => { n with chain := ((storeBlock
        (broadcast (sendCallback E out block.toJson) peers net).1 block).run
          ChainOp.exec n.chain).2 })
        (broadcast (sendCallback E out block.toJson) peers net).2 := by
  rw [storeAndBroadcastBlock, hpeers]
  rcases broadcast (sendCallback E out block.toJson) peers net with ⟨sent, net'⟩
  dsimp only
  cases hown : net' own with
  | none =>
      change net' = modify own _ net'
      refine (modify_eq_self fun n hn => ?_).symm
      rw [hown] at hn
      cases hn
  | some n =>
      refine modify_congr fun n' hn' => ?_
      rcases Option.some.inj (hown.symm.trans hn') with rfl
      rfl

theorem storeAndBroadcastBlock_grows :
    AllGrow net (storeAndBroadcastBlock E out own block net).2 := by
  rw [storeAndBroadcastBlock_snd out own block net rfl]
  exact (broadcast_grows out net block.toJson _).trans
    (AllGrow.modify fun n _ => ⟨rfl, storeBlock_grows block _ n.chain⟩)

theorem rollback_grows : AllGrow net (rollback own message block net) := by
  rw [rollback]
  exact AllGrow.modify fun n _ => Grows.of_eq rfl rfl

theorem sendSecretMessage_grows :
    AllGrow net (sendSecretMessage E out own message net).1 := by
  rcases sendSecretMessage_cases (E := E) out own message net with
    ⟨hsame, -⟩ | ⟨sender, block, jMessage, -, -, ⟨-, hstored, -⟩ | ⟨-, hback, -⟩⟩
  · rw [hsame]
    exact AllGrow.refl net
  · rw [hstored]
    exact (deliver_grows out own message block net jMessage).trans
      (storeAndBroadcastBlock_grows out own block _)
  · rw [hback]
    exact ((deliver_grows out own message block net jMessage).trans
      (storeAndBroadcastBlock_grows out own block _)).trans (rollback_grows own message block _)

end Sends

/-! ### Starts -/

/-- The one that starts and those that it calls grow. -/
structure StateGrows (s s' : State) : Prop where
  client : Grows s.client s'.client
  net : AllGrow s.net s'.net

theorem StateGrows.refl (s : State) : StateGrows s s := ⟨Grows.refl _, AllGrow.refl _⟩

theorem StateGrows.trans {s s' s'' : State} (h : StateGrows s s') (h' : StateGrows s' s'') :
    StateGrows s s'' := ⟨h.client.trans h'.client, h.net.trans h'.net⟩

theorem sendMessage_grows {server client server' client' : Node} {visit : Visit} {j : Json}
    (h : sendMessage E server client visit j = .ok (server', client')) :
    Grows server server' ∧ Grows client client' := by
  rw [sendMessage] at h
  cases hcheck : checkSize j with
  | error e =>
      rw [hcheck] at h
      cases h
  | ok =>
      rw [hcheck] at h
      cases hreceived : received j with
      | none =>
          rw [hreceived] at h
          cases h
          exact ⟨Grows.refl _, Grows.refl _⟩
      | some jMessage =>
          rw [hreceived] at h
          cases h
          exact ⟨serve_grows server visit jMessage, handleOutgoing_grows _ _⟩

theorem send_grows (s : State) (c : Startup.Call) : StateGrows s (Startup.send E s c) := by
  rcases Startup.send_cases (E := E) s c with
    ⟨thrown, hsend⟩ | ⟨server, server', client', hserver, hsent, hsend⟩
  · rw [hsend]
    exact ⟨Grows.refl _, AllGrow.refl _⟩
  · rw [hsend]
    have hgrows := sendMessage_grows hsent
    exact ⟨hgrows.2, Moved.update hserver hgrows.1 fun _ n _ => Grows.refl n⟩

theorem sendAll_grows (s : State) (calls : List Startup.Call) :
    StateGrows s (Startup.sendAll E s calls) := by
  induction calls generalizing s with
  | nil => exact StateGrows.refl s
  | cons c calls ih => exact (send_grows s c).trans (ih (Startup.send E s c))

theorem insertNewBlocks_grows (t : BlockTable) (new : List Block) :
    t.data <+: (insertNewBlocks t new).1.data := by
  induction new generalizing t with
  | nil => exact List.prefix_rfl
  | cons b new ih => exact (ChainDB.data_prefix_insertBlock t b).trans (ih _)

theorem insertReceived_grows (s : State) : StateGrows s (Startup.insertReceived E s) := by
  rw [Startup.insertReceived]
  split
  · exact ⟨⟨rfl, insertNewBlocks_grows _ _⟩, AllGrow.refl _⟩
  · exact StateGrows.refl s

theorem init_grows {out : Startup.Outside} {fuel : Nat} {s : State} {result : Startup.Result}
    (h : Startup.init E out fuel s = some result) : StateGrows s result.state := by
  cases hpeers : (Startup.sendAll E s (out.hosts.map (Startup.connectCall s.client.config.me
      (tipHash s.client.chain)))).client.peers with
  | nil =>
      simp only [Startup.init, hpeers] at h
      cases h
      exact (sendAll_grows s _).trans (insertReceived_grows _)
  | cons peer others =>
      obtain ⟨_, -, -, hstate⟩ := Membership.init_eq_some h hpeers
      rw [hstate]
      exact (sendAll_grows s _).trans (insertReceived_grows _)

/-! ### Any step -/

theorem grows_of_net {w : World} {net : Nodes} (h : AllGrow w.net net) (host : UserHost) :
    Grows (party w host) (party { w with net } host) := by
  cases hn : w.net host with
  | none => simp only [party, hn, h.eq_none_iff.2 hn, Option.getD_none, Grows.refl]
  | some n =>
      obtain ⟨n', hn', hgrows⟩ := h.of_some hn
      simpa only [party, hn, hn', Option.getD_some] using hgrows

/-- A party that leaves is the same afterwards, and the others grow. -/
theorem grows_of_stop {w : World} {host : UserHost} {n n' : Node} (hn : w.net host = some n)
    {net : Nodes} (h : AllGrow (Function.update w.net host none) net) (hself : Grows n n')
    (other : UserHost) : Grows (party w other) (party (w.stop net host n') other) := by
  by_cases hother : other = host
  · subst hother
    have hgone : net other = none := h.eq_none_iff.2 (Function.update_self ..)
    simpa only [party, World.stop, hn, hgone, Function.update_self, Option.getD_some,
      Option.getD_none] using hself
  · have hgrows := grows_of_net (w := ⟨Function.update w.net host none, w.stopped⟩) h other
    simpa only [party, World.stop, Function.update_of_ne hother] using hgrows

theorem Step.grows {w w' : World} (h : Step E w w') (host : UserHost) :
    Grows (party w host) (party w' host) := by
  cases h with
  | request host' visit jData => exact grows_of_net (request_grows w.net host' visit jData) host
  | answer host' response =>
      exact grows_of_net (AllGrow.modify fun n _ => handleOutgoing_grows n response) host
  | send out own message => exact grows_of_net (sendSecretMessage_grows out own message w.net) host
  | @start cfg out fuel result moments hoff hconfig hinit =>
      have hall : StateGrows (w.starting cfg) (connectToAllPeers E moments result.state) :=
        (init_grows hinit).trans (sendAll_grows result.state _)
      have hclient : (connectToAllPeers E moments result.state).client.config = cfg :=
        hall.client.config.trans hconfig
      by_cases hhost : host = cfg.me.toUserHost
      · subst hhost
        have hself : Grows (w.stopped cfg.me.toUserHost)
            (connectToAllPeers E moments result.state).client :=
          ⟨hall.client.config, hall.client.chain⟩
        simpa only [party, World.join, hclient, hoff, Function.update_self, Option.getD_some,
          Option.getD_none] using hself
      · have hgrows := grows_of_net (w := w) hall.net host
        simpa only [party, World.join, hclient, Function.update_of_ne hhost] using hgrows
  | @leave stopping n moments hn =>
      have hall : StateGrows { net := Function.update w.net stopping none, client := n }
          (disconnect E moments { net := Function.update w.net stopping none, client := n }) :=
        sendAll_grows _ _
      exact grows_of_stop hn hall.net hall.client host
  | vanish hn => exact grows_of_stop hn (AllGrow.refl _) (Grows.refl _) host

theorem grows_of_run {w w' : World} (h : ReflTransGen (Step E) w w') (host : UserHost) :
    Grows (party w host) (party w' host) := by
  induction h with
  | refl => exact Grows.refl _
  | tail _ hstep ih => exact ih.trans (hstep.grows host)

/-! ## Chains that have parted -/

/-- Both chains have a block at the position, and these are different ones. -/
def SplitAt (i : Nat) (A B : List Block) : Prop :=
  ∃ a b, A[i]? = some a ∧ B[i]? = some b ∧ a.hash ≠ b.hash

theorem getElem?_of_prefix {i : Nat} {a : Block} {A A' : List Block} (h : A <+: A')
    (ha : A[i]? = some a) : A'[i]? = some a := by
  obtain ⟨rest, rfl⟩ := h
  rw [List.getElem?_append_left (List.getElem?_eq_some_iff.1 ha).1]
  exact ha

/-- Nothing that is appended later brings them together. -/
theorem SplitAt.mono {i : Nat} {A A' B B' : List Block} (h : SplitAt i A B) (hA : A <+: A')
    (hB : B <+: B') : SplitAt i A' B' := by
  obtain ⟨a, b, ha, hb, hne⟩ := h
  exact ⟨a, b, getElem?_of_prefix hA ha, getElem?_of_prefix hB hb, hne⟩

section Valid

variable {i : Nat} {A B : List Block}

/-- The last hash commits to the whole chain, so the tips are different too. -/
theorem SplitAt.tip_ne (h : SplitAt i A B) (hA : ValidBlocks E A) (hB : ValidBlocks E B)
    (hS : E.CollisionFree (Block.canonicals (A ++ B))) :
    tip Block.hash "0" A ≠ tip Block.hash "0" B := by
  obtain ⟨a, b, ha, hb, hne⟩ := h
  intro htip
  have hmap := congrArg (fun l => l[i]?) (hA.map_eq_of_tip_eq hB hS htip)
  simp only [List.getElem?_map, ha, hb, Option.map_some, Option.some.injEq, Prod.mk.injEq] at hmap
  exact hne hmap.1

theorem tip_take {k : Nat} {x : Block} (hx : A[k]? = some x) :
    tip Block.hash "0" (A.take (k + 1)) = x.hash := by
  rw [List.take_add_one, hx, Option.toList_some, tip_concat]

/-- From the split on no block of one chain is in the other one. -/
theorem SplitAt.hash_ne (h : SplitAt i A B) (hA : ValidBlocks E A) (hB : ValidBlocks E B)
    (hS : E.CollisionFree (Block.canonicals (A ++ B))) :
    ∀ x ∈ A.drop i, ∀ y ∈ B, x.hash ≠ y.hash := by
  intro x hx y hy hxy
  obtain ⟨j, hj⟩ := List.mem_iff_getElem?.1 hx
  rw [List.getElem?_drop] at hj
  obtain ⟨k, hk⟩ := List.mem_iff_getElem?.1 hy
  -- the two chains up to these blocks end in one hash
  have htake : ∀ b ∈ A.take (i + j + 1) ++ B.take (k + 1), b ∈ A ++ B := by
    intro b hb
    rcases List.mem_append.1 hb with hb | hb
    · exact List.mem_append_left _ (List.mem_of_mem_take hb)
    · exact List.mem_append_right _ (List.mem_of_mem_take hb)
  have hmap := (hA.of_prefix (List.take_prefix _ _)).map_eq_of_tip_eq
    (hB.of_prefix (List.take_prefix _ _)) (hS.mono (Block.canonicals_mono htake))
    (by rw [tip_take hj, tip_take hk, hxy])
  have hlength := congrArg List.length hmap
  have hlenA := (List.getElem?_eq_some_iff.1 hj).1
  have hlenB := (List.getElem?_eq_some_iff.1 hk).1
  simp only [List.length_map, List.length_take] at hlength
  -- so the split lies behind them
  obtain ⟨a, b, ha, hb, hne⟩ := h
  have hat := congrArg (fun l => l[i]?) hmap
  simp only [List.getElem?_map, List.getElem?_take_of_lt (show i < i + j + 1 by omega),
    List.getElem?_take_of_lt (show i < k + 1 by omega), ha, hb, Option.map_some,
    Option.some.injEq, Prod.mk.injEq] at hat
  exact hne hat.1

end Valid

/-! ## Sends across the split -/

section Refused

variable {out : Outside} {own : UserHost} {message : TextMessage} {block : Block} {net : Nodes}

/-- One node that does not find the block acceptable ends the loop over the peers. -/
theorem broadcast_refused {n : Node} {peer : UserPeer}
    (hno : ∀ now, ¬ Acceptable E now n.chain block) {peers : List UserPeer} (hpeer : peer ∈ peers)
    (hn : net peer.toUserHost = some n) :
    (broadcast (sendCallback E out block.toJson) peers net).1 = false := by
  induction peers generalizing net with
  | nil => cases hpeer
  | cons p peers ih =>
      have hlater : p.toUserHost ≠ peer.toUserHost → peer ∈ peers := fun hne =>
        (List.mem_cons.1 hpeer).resolve_left fun heq => hne (congrArg _ heq.symm)
      cases hp : net p.toUserHost with
      | none =>
          have hcall : sendCallback E out block.toJson p net = (.ok true, net) := by
            simp only [sendCallback, hp]
          rw [broadcast, hcall]
          refine ih (hlater fun heq => ?_) hn
          rw [heq, hn] at hp
          cases hp
      | some m =>
          rcases sendCallback_cases (E := E) out block p hp with
            ⟨⟨-, hyes⟩, hcall⟩ | ⟨-, hcall⟩
          · have hne : p.toUserHost ≠ peer.toUserHost := by
              intro heq
              rw [heq, hn] at hp
              exact hno _ (Option.some.inj hp ▸ hyes)
            rw [broadcast, hcall]
            refine ih (hlater hne) ?_
            rw [modify_of_ne hne.symm]
            exact hn
          · rw [broadcast, hcall]

theorem storeAndBroadcastBlock_refused {sender n : Node} {peer : UserPeer}
    (hown : net own = some sender) (hpeer : peer ∈ sender.peers)
    (hn : net peer.toUserHost = some n) (hno : ∀ now, ¬ Acceptable E now n.chain block) :
    (storeAndBroadcastBlock E out own block net).1 = false := by
  have hrefused : (broadcast (sendCallback E out block.toJson) sender.peers net).1 = false :=
    broadcast_refused hno hpeer hn
  rw [storeAndBroadcastBlock, hown, Option.map_some, Option.getD_some]
  rcases hloop : broadcast (sendCallback E out block.toJson) sender.peers net with ⟨sent, net'⟩
  rw [hloop] at hrefused
  dsimp only at hrefused ⊢
  cases net' own with
  | none => rfl
  | some n' => rw [hrefused]; rfl

/-- A node that lists a running one with another tip does not get a block of its own stored. -/
theorem not_stored_of_tip_ne {sender n : Node} {peer : UserPeer} (hown : net own = some sender)
    (hpeer : peer ∈ sender.peers) (hn : net peer.toUserHost = some n)
    (hnul : NoNul (tipHash sender.chain)) (hne : tipHash sender.chain ≠ tipHash n.chain)
    (htype : message.type = .textMessage) (block : Block) (answer : Option Json) :
    (sendSecretMessage E out own message net).2 ≠ .stored block answer := by
  intro hend
  rcases sendSecretMessage_cases (E := E) out own message net with
    ⟨-, hun | ⟨e, hthrown⟩⟩ | ⟨sender', made, jMessage, hown', hprepare, hcases⟩
  · rw [hun] at hend
    cases hend
  · rw [hthrown] at hend
    cases hend
  · rcases Option.some.inj (hown.symm.trans hown') with rfl
    obtain ⟨hsign, hjson, -⟩ := prepare_eq_ok.1 hprepare
    have hdeliver := deliver_moved own net htype hjson
    obtain ⟨sender₁, hown₁, hsame₁⟩ := hdeliver.of_some hown
    obtain ⟨n₁, hn₁, hsame⟩ := hdeliver.of_some hn
    have hpeers : sender₁.peers = sender.peers := by rw [hsame₁.same]
    have hchain : n₁.chain = n.chain := by rw [hsame.same]
    have hprevious : made.previousHash = tipHash sender.chain :=
      (signBlock_fields hsign).1.trans (findTip_hash sender.chain)
    -- the block names the tip of the sender, whatever the clock of the peer says
    have hno : ∀ now, ¬ Acceptable E now n₁.chain made := by
      intro now hyes
      rw [hchain] at hyes
      rcases hyes.namesTip with hnames | ⟨hnames, -⟩
      · exact hne (hprevious.symm.trans hnames)
      · rw [hprevious, cString_of_noNul hnul] at hnames
        exact hne hnames
    have hfalse : (storeAndBroadcastBlock E out own made
        (deliver E out own message made jMessage net).1).1 = false :=
      storeAndBroadcastBlock_refused hown₁ (hpeers ▸ hpeer) hn₁ hno
    rcases hcases with ⟨htrue, -⟩ | ⟨-, -, hback⟩
    · rw [hfalse] at htrue
      cases htrue
    · rw [hback] at hend
      cases hend

end Refused

theorem SplitAt.of_run {w w' : World} (hrun : ReflTransGen (Step E) w w') {a b : UserHost} {i : Nat}
    (h : SplitAt i (blocks w a) (blocks w b)) : SplitAt i (blocks w' a) (blocks w' b) :=
  h.mono (ChainDB.loadAllBlocks_prefix (grows_of_run hrun a).chain)
    (ChainDB.loadAllBlocks_prefix (grows_of_run hrun b).chain)

/-- Two chains that have parted stay apart in every run.  As long as both are valid they have no
block in common from there on, and while the nodes run and one lists the other, it stores no block
of its own. -/
theorem splits_are_final {w w' : World} (hrun : ReflTransGen (Step E) w w') {a b : UserHost}
    {i : Nat} (hsplit : SplitAt i (blocks w a) (blocks w b))
    (hvalidA : validateLocalChain E (party w' a).chain = .ok true)
    (hvalidB : validateLocalChain E (party w' b).chain = .ok true)
    (hS : E.CollisionFree (Block.canonicals (blocks w' a ++ blocks w' b))) :
    SplitAt i (blocks w' a) (blocks w' b) ∧
      (∀ x ∈ (blocks w' a).drop i, ∀ y ∈ blocks w' b, x.hash ≠ y.hash) ∧
      ∀ {sender peer}, w'.net a = some sender → peer ∈ sender.peers → peer.toUserHost = b →
        (w'.net b).isSome → ∀ out {message : TextMessage}, message.type = .textMessage →
          ∀ block answer, (sendSecretMessage E out a message w'.net).2 ≠ .stored block answer := by
  have hstill := hsplit.of_run hrun
  have hA : ValidBlocks E (blocks w' a) := validateLocalChain_eq_true.1 hvalidA
  have hB : ValidBlocks E (blocks w' b) := validateLocalChain_eq_true.1 hvalidB
  refine ⟨hstill, hstill.hash_ne hA hB hS, ?_⟩
  rintro sender peer hown hpeer rfl hsome out message htype block answer
  obtain ⟨n, hn⟩ := Option.isSome_iff_exists.1 hsome
  have htip := hstill.tip_ne hA hB hS
  have hpartyA : party w' a = sender := by rw [party, hown, Option.getD_some]
  have hpartyB : party w' peer.toUserHost = n := by rw [party, hn, Option.getD_some]
  simp only [blocks, hpartyA, hpartyB] at htip hA
  exact not_stored_of_tip_ne hown hpeer hn hA.noNul_tip htip htype block answer

/-! ## Two nodes that have parted -/

namespace Parted

open SmallNet

/-- After a first block that both have, each has a block of its own. -/
def nodes : List Node :=
  [node FirstBlock.config [FirstBlock.rivalConfig.me] FirstBlock.longerTable,
    node FirstBlock.rivalConfig [] rivalTable, node thirdConfig [] FirstBlock.table]

def world : World where
  net := net nodes
  stopped _ := node thirdConfig [] FirstBlock.table

/-- The third one is gone. -/
def two : World :=
  world.stop (Function.update world.net thirdConfig.me.toUserHost none)
    thirdConfig.me.toUserHost (node thirdConfig [] FirstBlock.table)

theorem net_config : net nodes FirstBlock.config.me.toUserHost =
    some (node FirstBlock.config [FirstBlock.rivalConfig.me] FirstBlock.longerTable) := net_self _ _

theorem net_rival : net nodes FirstBlock.rivalConfig.me.toUserHost =
    some (node FirstBlock.rivalConfig [] rivalTable) :=
  (net_of_ne config_ne_rival _).trans (net_self _ _)

theorem net_third : net nodes thirdConfig.me.toUserHost =
    some (node thirdConfig [] FirstBlock.table) :=
  (net_of_ne third_ne_config.symm _).trans
    ((net_of_ne third_ne_rival.symm _).trans (net_self _ _))

theorem two_config : two.net FirstBlock.config.me.toUserHost =
    some (node FirstBlock.config [FirstBlock.rivalConfig.me] FirstBlock.longerTable) :=
  (Function.update_of_ne third_ne_config.symm none (net nodes)).trans net_config

theorem two_rival : two.net FirstBlock.rivalConfig.me.toUserHost =
    some (node FirstBlock.rivalConfig [] rivalTable) :=
  (Function.update_of_ne third_ne_rival.symm none (net nodes)).trans net_rival

theorem blocks_config {w : World} (h : w.net FirstBlock.config.me.toUserHost =
    some (node FirstBlock.config [FirstBlock.rivalConfig.me] FirstBlock.longerTable)) :
    blocks w FirstBlock.config.me.toUserHost = [FirstBlock.block, FirstBlock.child] := by
  rw [blocks, party, h]
  exact FirstBlock.loadAllBlocks_longerTable

theorem blocks_rival {w : World} (h : w.net FirstBlock.rivalConfig.me.toUserHost =
    some (node FirstBlock.rivalConfig [] rivalTable)) :
    blocks w FirstBlock.rivalConfig.me.toUserHost = [FirstBlock.block, FirstBlock.rival] := by
  rw [blocks, party, h]
  exact loadAllBlocks_rivalTable

theorem collisionFree_three : testEnv.CollisionFree
    (Block.canonicals [FirstBlock.block, FirstBlock.child, FirstBlock.rival]) := by
  refine collisionFree_of_nodup (fun b hb => ?_) (by decide +kernel)
  simp only [List.mem_cons, List.not_mem_nil, or_false] at hb
  rcases hb with rfl | rfl | rfl
  · exact FirstBlock.blockOf_block.authentic
  · exact FirstBlock.blockOf_child.authentic
  · exact FirstBlock.blockOf_rival.authentic

theorem collisionFree : testEnv.CollisionFree (Block.canonicals
    ([FirstBlock.block, FirstBlock.child] ++ [FirstBlock.block, FirstBlock.rival])) :=
  collisionFree_three.mono (Block.canonicals_mono (by simp))

end Parted

open SmallNet Parted in
/-- Nothing that the first one sends to the other is stored, whatever it is. -/
theorem splits_are_final_parted :
    SplitAt 1 (blocks two FirstBlock.config.me.toUserHost)
        (blocks two FirstBlock.rivalConfig.me.toUserHost) ∧
      (∀ x ∈ (blocks two FirstBlock.config.me.toUserHost).drop 1,
        ∀ y ∈ blocks two FirstBlock.rivalConfig.me.toUserHost, x.hash ≠ y.hash) ∧
      ∀ out text block answer, (sendSecretMessage testEnv out FirstBlock.config.me.toUserHost
        (messageTo FirstBlock.rivalConfig.publicKey text) two.net).2 ≠ .stored block answer := by
  have hrun : ReflTransGen (Step testEnv) world two := ReflTransGen.single (Step.vanish net_third)
  have hsplit : SplitAt 1 (blocks world FirstBlock.config.me.toUserHost)
      (blocks world FirstBlock.rivalConfig.me.toUserHost) := by
    rw [blocks_config net_config, blocks_rival net_rival]
    exact ⟨_, _, rfl, rfl, by decide⟩
  have hvalidA : validateLocalChain testEnv
      (party two FirstBlock.config.me.toUserHost).chain = .ok true := by
    rw [validateLocalChain_eq_true]
    change ValidBlocks testEnv (blocks two FirstBlock.config.me.toUserHost)
    rw [blocks_config two_config]
    exact (ValidBlocks.nil.concat FirstBlock.blockOf_block.authentic rfl).concat
      FirstBlock.blockOf_child.authentic rfl
  have hvalidB : validateLocalChain testEnv
      (party two FirstBlock.rivalConfig.me.toUserHost).chain = .ok true := by
    rw [party, two_rival]
    exact valid_rivalTable
  obtain ⟨hstill, hapart, hnever⟩ := splits_are_final hrun hsplit hvalidA hvalidB
    (by rw [blocks_config two_config, blocks_rival two_rival]; exact collisionFree)
  refine ⟨hstill, hapart, fun out text => ?_⟩
  exact hnever two_config (List.mem_singleton_self _) rfl (by rw [two_rival]; rfl) out rfl

end Splits
end Network
end DChat
