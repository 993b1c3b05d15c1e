import DChat.Exchange

/-!
# Discovery — how nodes come to know each other

A node learns of others in three ways: from a CONNECT request, from the answer to its own CONNECT,
and from the answer to a PEER_LIST request.  Requests are handled at once, answers whenever they
arrive, so the answers that are on their way are part of the state.

The address in an answer to CONNECT is the one that was dialed.  When that is not the address of
the configuration, others know the node under a second triple, and the filter of PEER_LIST, which
compares whole triples, does not keep this one from the node itself.
-/

namespace DChat
namespace Network
namespace Discovery

open Utils Crypto Peer Messaging Blockchain Chat Request

/-! ## Requests and answers between many nodes -/

/-- The requests that are about peers. -/
inductive PeerRequest
  | connect (recipient : UserPeer) (lastHash : String)
  | disconnect (recipient : UserPeer)
  | peerList (recipient : UserPeer) (start count : UInt32)

namespace PeerRequest

/-- The text that a client with the peer `me` sends. -/
def json (me : UserPeer) (tick : Tick) : PeerRequest → Json
  | connect recipient lastHash => (ConnectionMessage.create tick me recipient lastHash).serialize
  | disconnect recipient => (Message.create tick .disconnect me recipient).basicSerialization
  | peerList recipient start count =>
      (PeerListMessage.create tick me recipient start count).serialize

/-- What the server decodes it to. -/
def decoded (me : UserPeer) (tick : Tick) : PeerRequest → Request
  | connect recipient lastHash => .connect (ConnectionMessage.create tick me recipient lastHash)
  | disconnect recipient => .disconnect (Message.create tick .disconnect me recipient)
  | peerList recipient start count =>
      .peerList (PeerListMessage.create tick me recipient start count)

theorem decode_json (E : Env) (privateKey : String) (me : UserPeer) (sent : Tick)
    (request : PeerRequest) :
    decode (decodeText E privateKey) (request.json me sent) = .ok (request.decoded me sent) := by
  cases request with
  | connect recipient lastHash =>
    exact decode_connection (m := .create sent me recipient lastHash) rfl
  | disconnect recipient =>
      exact decode_disconnection (m := .create sent .disconnect me recipient) rfl
  | peerList recipient start count =>
      exact decode_peerList (m := .create sent me recipient start count) rfl

theorem serve_json (E : Env) (n : Node) (visit : Visit) (me : UserPeer) (sent : Tick)
    (request : PeerRequest) :
    TCPServer.serve E n visit (request.json me sent) =
      (((request.decoded me sent).handle n visit.tick (request.json me sent)).1,
        some ((request.decoded me sent).handle n visit.tick (request.json me sent)).2) := by
  have hmessage : ((request.json me sent).contains "previousHash" &&
      (request.json me sent).contains "payloadHash") = false := by
    cases request <;> rfl
  exact TCPServer.serve_of_decode visit hmessage (decode_json E _ me sent request)

theorem handleIncomingMessage_json (E : Env) (n : Node) (me : UserPeer) (sent answered : Tick)
    (request : PeerRequest) :
    ChatService.handleIncomingMessage E n answered (request.json me sent) =
      (((request.decoded me sent).handle n answered (request.json me sent)).1,
        .ok ((request.decoded me sent).handle n answered (request.json me sent)).2) := by
  rw [handleIncomingMessage_eq, decode_json]
  rfl

end PeerRequest

variable {ι : Type} [DecidableEq ι]

/-- Some nodes, and the answers that have not been read yet, each with the node that asked. -/
structure State (ι : Type) where
  nodes : ι → Node
  answers : List (ι × Json)

/-- A request that one node makes and another one handles, or an answer that is read. -/
inductive Action (ι : Type)
  | ask (client server : ι) (other : client ≠ server) (request : PeerRequest)
      (sent answered : Tick)
  | read (position : Nat)

def step (E : Env) (s : State ι) : Action ι → State ι
  | .ask client server _ request sent answered =>
      let (server', result) := ChatService.handleIncomingMessage E (s.nodes server) answered
        (request.json (s.nodes client).config.me sent)
      { nodes := Function.update s.nodes server server'
        answers := s.answers ++ result.toOption.toList.map fun answer => (client, answer) }
  | .read position =>
      match s.answers[position]? with
      | none => s
      | some (client, answer) =>
          { nodes := Function.update s.nodes client
              (ChatService.handleOutgoingMessage (s.nodes client) (some answer))
            answers := s.answers.eraseIdx position }

def run (E : Env) (s : State ι) (actions : List (Action ι)) : State ι := actions.foldl (step E) s

/-- Whoever is asked for peers knows the client, if at all, by the triple of its configuration. -/
def KnownAsConfigured (s : State ι) : Action ι → Prop
  | .ask client server _ (.peerList _ _ _) _ _ =>
      ∀ p ∈ (s.nodes server).peers, p.publicKey = (s.nodes client).config.publicKey →
        p = (s.nodes client).config.me
  | _ => True

/-- The condition at every action of a run. -/
def RunKnown (E : Env) (s : State ι) : List (Action ι) → Prop
  | [] => True
  | a :: actions => KnownAsConfigured s a ∧ RunKnown E (step E s a) actions

/-! ## No node becomes its own peer -/

/-- No peer has the node's own key. -/
def NoOwnKey (n : Node) : Prop := ∀ p ∈ n.peers, p.publicKey ≠ n.config.publicKey

/-- A node with the key may read the answer. -/
def Harmless (publicKey : String) (answer : Json) : Prop :=
  ∀ n, n.config.publicKey = publicKey → NoOwnKey n →
    NoOwnKey (ChatService.handleOutgoingMessage n (some answer))

structure Inv (key : ι → String) (s : State ι) : Prop where
  keys : ∀ i, (s.nodes i).config.publicKey = key i
  peers : ∀ i, NoOwnKey (s.nodes i)
  answers : ∀ x ∈ s.answers, Harmless (key x.1) x.2

theorem NoOwnKey.addPeer {n : Node} (h : NoOwnKey n) {p : UserPeer}
    (hp : p.publicKey ≠ n.config.publicKey) :
    NoOwnKey { n with peers := PeerService.addPeer n.peers p } := by
  intro q hq
  rcases PeerService.mem_addPeer.1 hq with hold | rfl
  · exact h q hold
  · exact hp

theorem NoOwnKey.addPeers {n : Node} (h : NoOwnKey n) {peers : List UserPeer}
    (hpeers : ∀ p ∈ peers, p.publicKey ≠ n.config.publicKey) :
    NoOwnKey { n with peers := peers.foldl PeerService.addPeer n.peers } := by
  induction peers generalizing n with
  | nil => exact h
  | cons p ps ih =>
      have hfirst := h.addPeer (hpeers p List.mem_cons_self)
      exact ih hfirst fun q hq => hpeers q (List.mem_cons_of_mem _ hq)

theorem NoOwnKey.removePeer {n : Node} (h : NoOwnKey n) (p : UserPeer) :
    NoOwnKey { n with peers := PeerService.removePeer n.peers p } :=
  fun q hq => h q (List.mem_of_mem_erase hq)

/-- The server after a request, and its answer. -/
theorem inv_handle {client server : Node}
    (hother : client.config.publicKey ≠ server.config.publicKey) (hserver : NoOwnKey server)
    {request : PeerRequest}
    (hknown : ∀ recipient start count, request = .peerList recipient start count →
      ∀ p ∈ server.peers, p.publicKey = client.config.publicKey → p = client.config.me)
    (sent answered : Tick) (j : Json) :
    NoOwnKey ((request.decoded client.config.me sent).handle server answered j).1 ∧
      Harmless client.config.publicKey
        ((request.decoded client.config.me sent).handle server answered j).2 := by
  cases request with
  | connect recipient lastHash =>
      refine ⟨hserver.addPeer (p := client.config.me) hother, ?_⟩
      intro n hkey hn
      let message := ConnectionMessage.create sent client.config.me recipient lastHash
      let answer := ConnectionMessageResponse.create answered
        (ChatService.answering server message.toMessage) client.config.me
        (UInt32.ofNat (PeerService.addPeer server.peers client.config.me).length)
        (ChainDB.countBlocksAfterHash server.chain lastHash)
      have hread : ChatService.handleOutgoingMessage n (some answer.serialize) =
          ChatService.handleOutgoingConnectionMessage n answer :=
        handleOutgoingMessage_of_dispatch (dispatchOutgoing_connectResponse n rfl)
      -- the answer carries the key of the server
      have hsender : answer.fromPeer.publicKey ≠ n.config.publicKey := by
        rw [hkey]
        exact hother.symm
      have hpeers : NoOwnKey (ChatService.handleOutgoingConnectionMessage n answer) :=
        hn.addPeer hsender
      exact hread ▸ hpeers
  | disconnect recipient =>
      refine ⟨hserver.removePeer client.config.me, ?_⟩
      intro n _ hn
      let answer := Message.create answered .disconnectResponse recipient client.config.me
      have hread : ChatService.handleOutgoingMessage n (some answer.basicSerialization) = n :=
        handleOutgoingMessage_of_dispatch (dispatchOutgoing_basicSerialization n (Or.inr rfl))
      exact hread ▸ hn
  | peerList recipient start count =>
      refine ⟨hserver, ?_⟩
      intro n hkey hn
      let peers := ((server.peers.take (start + count).toNat).drop start.toNat).filter
        (· ≠ client.config.me)
      let answer := PeerListMessageResponse.create answered recipient client.config.me peers
      have hread : ChatService.handleOutgoingMessage n (some answer.serialize) =
          ChatService.handleOutgoingPeerListMessage n answer :=
        handleOutgoingMessage_of_dispatch (dispatchOutgoing_peerListResponse n rfl)
      -- the only triple with the client's key is filtered out
      have hothers : ∀ p ∈ peers, p.publicKey ≠ n.config.publicKey := by
        intro p hp hown
        rcases List.mem_filter.1 hp with ⟨hslice, hne⟩
        have hlisted : p ∈ server.peers := List.mem_of_mem_take (List.mem_of_mem_drop hslice)
        have hsame := hknown recipient start count rfl p hlisted (hown.trans hkey)
        simp [hsame] at hne
      have hpeers : NoOwnKey (ChatService.handleOutgoingPeerListMessage n answer) :=
        hn.addPeers hothers
      exact hread ▸ hpeers

/-- One node changes, and the answers are harmless. -/
theorem Inv.update {key : ι → String} {s : State ι} (h : Inv key s) {i : ι} {n : Node}
    (hkey : n.config.publicKey = key i) (hn : NoOwnKey n) {answers : List (ι × Json)}
    (hanswers : ∀ x ∈ answers, Harmless (key x.1) x.2) :
    Inv key { nodes := Function.update s.nodes i n, answers } where
  keys j := by
    by_cases hj : j = i
    · subst hj
      simpa using hkey
    · simpa [hj] using h.keys j
  peers j := by
    by_cases hj : j = i
    · subst hj
      simpa using hn
    · simpa [hj] using h.peers j
  answers := hanswers

theorem Inv.step {E : Env} {key : ι → String} (hkeys : Function.Injective key) {s : State ι}
    (h : Inv key s) {a : Action ι} (ha : KnownAsConfigured s a) : Inv key (step E s a) := by
  cases a with
  | ask client server other request sent answered =>
      have hother : (s.nodes client).config.publicKey ≠ (s.nodes server).config.publicKey := by
        rw [h.keys, h.keys]
        exact fun heq => other (hkeys heq)
      have hknown : ∀ recipient start count, request = .peerList recipient start count →
          ∀ p ∈ (s.nodes server).peers, p.publicKey = (s.nodes client).config.publicKey →
            p = (s.nodes client).config.me := by
        rintro recipient start count rfl
        exact ha
      -- the request leaves no own key at the server, and its answer brings none to the client
      rcases inv_handle hother (h.peers server) hknown sent answered
        (request.json (s.nodes client).config.me sent) with ⟨hserver, hanswer⟩
      simp only [Discovery.step, PeerRequest.handleIncomingMessage_json, Except.toOption,
        Option.toList_some, List.map_cons, List.map_nil]
      refine h.update ?_ hserver ?_
      · rw [config_handle]
        exact h.keys server
      · intro x hx
        rcases List.mem_append.1 hx with hold | hnew
        · exact h.answers x hold
        · rw [List.mem_singleton.1 hnew]
          exact h.keys client ▸ hanswer
  | read position =>
      cases hat : s.answers[position]? with
      | none => simpa only [Discovery.step, hat] using h
      | some x =>
          -- an answer is read at any later time: it is harmless to every state
          have hharmless := h.answers x (List.mem_of_getElem? hat)
          simp only [Discovery.step, hat]
          refine h.update ?_ (hharmless _ (h.keys x.1) (h.peers x.1)) ?_
          · rw [config_handleOutgoingMessage]
            exact h.keys x.1
          · exact fun y hy => h.answers y (List.mem_of_mem_eraseIdx hy)

theorem Inv.run {E : Env} {key : ι → String} (hkeys : Function.Injective key) {s : State ι}
    (h : Inv key s) {actions : List (Action ι)} (hrun : RunKnown E s actions) :
    Inv key (run E s actions) := by
  induction actions generalizing s with
  | nil => exact h
  | cons a as ih => exact ih (h.step hkeys hrun.1) hrun.2

/-- When every node that is asked for peers knows the asker by its configured triple only, no node
has its own key among its peers, after any requests and answers in any order. -/
theorem never_own_peer (E : Env) {s : State ι}
    (hkeys : Function.Injective fun i => (s.nodes i).config.publicKey)
    (hpeers : ∀ i, NoOwnKey (s.nodes i)) (hanswers : s.answers = []) {actions : List (Action ι)}
    (hrun : RunKnown E s actions) : ∀ i, NoOwnKey ((run E s actions).nodes i) := by
  have hstart : Inv (fun i => (s.nodes i).config.publicKey) s :=
    ⟨fun _ => rfl, hpeers, by simp [hanswers]⟩
  exact (hstart.run hkeys hrun).peers

/-! ## A node with two addresses -/

/-- Two nodes that have just started. -/
def couple : State Bool where
  nodes i := SmallNet.node
    { host := "10.0.0.1", port := if i then 8001 else 8002
      publicKey := if i then "x" else "z", privateKey := "" } [] KeyedTable.Table.empty
  answers := []

def clock : Tick := ⟨"1", BlockchainService.FirstBlock.now⟩

/-- The address under which the second node dials the first one. -/
def secondAddress : UserPeer := { host := "127.0.0.1", port := 8001, publicKey := "x" }

/-- The second node connects, and the first one asks it for peers. -/
def introduction (recipient : UserPeer) : List (Action Bool) :=
  [.ask false true (by decide) (.connect recipient "0") clock clock, .read 0,
    .ask true false (by decide) (.peerList (couple.nodes false).config.me 0 12) clock clock,
    .read 0]

/-- Dialed under its own address, a node is not told of itself. -/
theorem never_own_peer_couple :
    NoOwnKey ((run testEnv couple (introduction (couple.nodes true).config.me)).nodes true) := by
  have hkeys : Function.Injective fun i => (couple.nodes i).config.publicKey := by
    intro i j h
    revert i j
    decide
  have hpeers : ∀ i, NoOwnKey (couple.nodes i) := fun i p hp => absurd hp List.not_mem_nil
  have hrun : RunKnown testEnv couple (introduction (couple.nodes true).config.me) := by
    refine ⟨trivial, trivial, ?_, trivial, trivial⟩
    have hall : ∀ p ∈ ((run testEnv couple ((introduction (couple.nodes true).config.me).take
        2)).nodes false).peers, p = (couple.nodes true).config.me := by
      decide +kernel
    exact fun p hp _ => hall p hp
  exact never_own_peer testEnv hkeys hpeers rfl hrun true

/-- Dialed under another address, it gets this one from the node that dialed. -/
theorem own_peer_by_alias :
    ¬ ∀ i, NoOwnKey ((run testEnv couple (introduction secondAddress)).nodes i) := by
  intro h
  have hmem :
      secondAddress ∈ ((run testEnv couple (introduction secondAddress)).nodes true).peers := by
    decide +kernel
  exact h true secondAddress hmem rfl

end Discovery
end Network
end DChat
