import DChat.Transport
import DChat.Replay

/-!
# ServerLoop — the threads that listen

`startAsync` makes a thread and goes on.  The thread calls `listen`, raises the flag and then takes
one connection after the other, with a look at the flag before each.  `stop` only lowers the flag.
Nothing wakes a thread that waits in `accept`, and a thread that has not listened yet raises the
flag again.  So what a stopped server still takes depends on where its threads stood, and this
module counts it.
-/

namespace DChat
namespace Network
namespace ServerLoop

open Utils Crypto Chat Relation
open Blockchain.BlockchainService (FirstBlock.config)

/-! ## The loop -/

/-- Where a thread stands in `listenMessages`. -/
inductive Phase
  /-- `listen` is not called yet. -/
  | spawned
  /-- At the head of the loop. -/
  | looking
  /-- In `accept`, or in `recv`. -/
  | accepting
  /-- In `onMessage`, with the buffer. -/
  | handling (visit : Visit) (buffer : Bytes)
  | ended

/-- What the threads share, with all calls of the handler and what they sent back. -/
structure Shared where
  isListening : Bool
  node : Node
  handled : List (Visit × Bytes)
  answers : List (Option Json)
  /-- An exception has left a thread, which ends the process. -/
  aborted : Bool

structure Server where
  shared : Shared
  threads : List Phase

/-- A server that is bound to its port. -/
def opened (n : Node) : Server where
  shared := { isListening := false, node := n, handled := [], answers := [], aborted := false }
  threads := []

/-- `SocketServer::startAsync`. -/
def startAsync (s : Server) : Server × Bool :=
  if s.shared.isListening = false then
    ({ s with threads := s.threads ++ [.spawned] }, true)
  else
    (s, false)

/-- `SocketServer::stop`; the thread is detached, so there is nothing to join. -/
def stop (s : Server) : Server := { s with shared := { s.shared with isListening := false } }

variable (E : Env) (parse : Bytes → Option Json)

/-- The handler of `TCPServer::start` on the bytes of a buffer. -/
def onMessage (n : Node) (visit : Visit) (buffer : Bytes) : Node × Option Json :=
  match parse buffer with
  | some jData => TCPServer.serve E n visit jData
  | none => (n, none)

/-- One message after the other. -/
def onMessages (n : Node) : List (Visit × Bytes) → Node × List (Option Json)
  | [] => (n, [])
  | (visit, buffer) :: rest =>
      let (n', answer) := onMessage E parse n visit buffer
      let (n'', answers) := onMessages n' rest
      (n'', answer :: answers)

/-- One step of a thread.  The handler lets no exception out, so only `listen` can end the
process. -/
inductive Turn : Shared → Phase → Shared → Phase → Prop
  | listen (s : Shared) : Turn s .spawned { s with isListening := true } .looking
  | listenFails (s : Shared) : Turn s .spawned { s with aborted := true } .ended
  | look {s : Shared} : s.isListening = true → Turn s .looking s .accepting
  | leave {s : Shared} : s.isListening = false → Turn s .looking s .ended
  /-- `accept` fails, or nothing comes over the connection. -/
  | refuse (s : Shared) : Turn s .accepting s .looking
  | receive {s : Shared} {sent buffer : Bytes} (visit : Visit) :
      SocketServer.receive sent = some buffer →
      Turn s .accepting { s with handled := s.handled ++ [(visit, buffer)] }
        (.handling visit buffer)
  | answer (s : Shared) (visit : Visit) (buffer : Bytes) :
      Turn s (.handling visit buffer)
        { s with
          node := (onMessage E parse s.node visit buffer).1
          answers := s.answers ++ [(onMessage E parse s.node visit buffer).2] } .looking

/-- Any thread takes its turn, or `stop` is called once more. -/
inductive Step : Server → Server → Prop
  | turn {s s' : Shared} {p p' : Phase} (before after : List Phase) : s.aborted = false →
      Turn E parse s p s' p' → Step ⟨s, before ++ p :: after⟩ ⟨s', before ++ p' :: after⟩
  | stop (s : Server) : Step s (stop s)

/-! ## What a stopped server still takes -/

def Phase.isAccepting : Phase → Bool
  | .accepting => true
  | _ => false

/-- The threads that wait for a connection. -/
def waiting (s : Server) : Nat := s.threads.countP Phase.isAccepting

variable {E parse} {s s' : Server}

theorem waiting_turn (sh : Shared) (before after : List Phase) (p : Phase) :
    waiting ⟨sh, before ++ p :: after⟩ =
      before.countP Phase.isAccepting + after.countP Phase.isAccepting + p.isAccepting.toNat := by
  rw [waiting, List.countP_append, List.countP_cons, ← Nat.add_assoc, Bool.toNat, Bool.cond_eq_ite]

/-- Nobody raises the flag any more. -/
structure Quiet (s : Server) : Prop where
  lowered : s.shared.isListening = false
  listening : .spawned ∉ s.threads

/-- A connection that is taken is one thread less that waits. -/
theorem Quiet.step (h : Quiet s) (hstep : Step E parse s s') :
    Quiet s' ∧ s'.shared.handled.length + waiting s' ≤ s.shared.handled.length + waiting s := by
  cases hstep with
  | stop => exact ⟨⟨rfl, h.listening⟩, le_refl _⟩
  | @turn sh sh' p p' before after _ hturn =>
      obtain ⟨hlowered, hlistening⟩ := h
      have hlisted : ∀ q : Phase, q ≠ .spawned → .spawned ∉ before ++ q :: after := by
        intro q hq hmem
        rcases List.mem_append.1 hmem with hmem | hmem
        · exact hlistening (List.mem_append_left _ hmem)
        · rcases List.mem_cons.1 hmem with heq | hmem
          · exact hq heq.symm
          · exact hlistening (List.mem_append_right _ (List.mem_cons_of_mem _ hmem))
      simp only [waiting_turn]
      cases hturn with
      | listen => exact absurd (List.mem_append_right _ List.mem_cons_self) hlistening
      | listenFails => exact absurd (List.mem_append_right _ List.mem_cons_self) hlistening
      | look hraised => exact absurd (hlowered.symm.trans hraised) (by simp)
      | leave => exact ⟨⟨hlowered, hlisted _ (by simp)⟩, le_refl _⟩
      | refuse =>
          refine ⟨⟨hlowered, hlisted _ (by simp)⟩, ?_⟩
          simp only [Phase.isAccepting, Bool.toNat_true, Bool.toNat_false]
          omega
      | receive visit hsome =>
          refine ⟨⟨hlowered, hlisted _ (by simp)⟩, ?_⟩
          simp only [Phase.isAccepting, Bool.toNat_true, Bool.toNat_false, List.length_append,
            List.length_singleton]
          omega
      | answer => exact ⟨⟨hlowered, hlisted _ (by simp)⟩, le_refl _⟩

theorem Quiet.run (h : Quiet s) (hrun : ReflTransGen (Step E parse) s s') :
    s'.shared.handled.length + waiting s' ≤ s.shared.handled.length + waiting s := by
  suffices hboth : Quiet s' ∧
      s'.shared.handled.length + waiting s' ≤ s.shared.handled.length + waiting s from hboth.2
  induction hrun with
  | refl => exact ⟨h, le_refl _⟩
  | tail _ hstep ih =>
      obtain ⟨hquiet, hle⟩ := ih.1.step hstep
      exact ⟨hquiet, hle.trans ih.2⟩

/-- A connection that sends one byte. -/
theorem exists_receive : ∃ sent buffer : Bytes, SocketServer.receive sent = some buffer :=
  ⟨[0], [0], rfl⟩

theorem exists_visit : Nonempty Visit :=
  ⟨{ checked := ⟨0, by decide⟩, tick := { uuid := "", now := ⟨0, by decide⟩ } }⟩

/-- All that wait can be connected to. -/
theorem exists_run_waiting {k : Nat} (hrun : s.shared.aborted = false) (hk : k ≤ waiting s) :
    ∃ s', ReflTransGen (Step E parse) s s' ∧
      s'.shared.handled.length = s.shared.handled.length + k := by
  induction k generalizing s with
  | zero => exact ⟨s, .refl, rfl⟩
  | succ k ih =>
      obtain ⟨p, hp, hwaits⟩ := List.countP_pos_iff.1 (Nat.lt_of_lt_of_le k.succ_pos hk)
      cases p with
      | accepting =>
          obtain ⟨sh, threads⟩ := s
          obtain ⟨before, after, rfl⟩ := List.append_of_mem hp
          obtain ⟨sent, buffer, hreceive⟩ := exists_receive
          obtain ⟨visit⟩ := exists_visit
          have hstep : Step E parse _ _ := .turn before after hrun (.receive visit hreceive)
          have hrest : k ≤ waiting ⟨{ sh with handled := sh.handled ++ [(visit, buffer)] },
              before ++ .handling visit buffer :: after⟩ := by
            rw [waiting_turn] at hk ⊢
            simp only [Phase.isAccepting, Bool.toNat_true, Bool.toNat_false] at hk ⊢
            omega
          obtain ⟨s', hlater, hlen⟩ := ih (by exact hrun) hrest
          refine ⟨s', .head hstep hlater, ?_⟩
          rw [hlen, List.length_append, List.length_singleton, Nat.add_assoc, Nat.add_comm 1]
      | spawned => cases hwaits
      | looking => cases hwaits
      | handling => cases hwaits
      | ended => cases hwaits

/-- A thread that finds the flag raised takes as many connections as come. -/
theorem exists_run_looking (k : Nat) {c : Shared} {before after : List Phase}
    (hrun : c.aborted = false) (hraised : c.isListening = true) :
    ∃ s', ReflTransGen (Step E parse) ⟨c, before ++ .looking :: after⟩ s' ∧
      s'.shared.handled.length = c.handled.length + k := by
  induction k generalizing c with
  | zero => exact ⟨_, .refl, rfl⟩
  | succ k ih =>
      obtain ⟨sent, buffer, hreceive⟩ := exists_receive
      obtain ⟨visit⟩ := exists_visit
      have hlook : Step E parse ⟨c, before ++ .looking :: after⟩
          ⟨c, before ++ .accepting :: after⟩ := .turn before after hrun (.look hraised)
      have hconnect : Step E parse _ _ := .turn before after hrun (.receive visit hreceive)
      have hanswer : Step E parse _ _ := .turn before after (by exact hrun)
        (.answer { c with handled := c.handled ++ [(visit, buffer)] } visit buffer)
      obtain ⟨s', hlater, hlen⟩ := ih
        (c := { c with
          node := (onMessage E parse c.node visit buffer).1
          handled := c.handled ++ [(visit, buffer)]
          answers := c.answers ++ [(onMessage E parse c.node visit buffer).2] }) hrun hraised
      refine ⟨s', .head hlook (.head hconnect (.head hanswer hlater)), ?_⟩
      rw [hlen, List.length_append, List.length_singleton, Nat.add_assoc, Nat.add_comm 1]

/-- What a stopped server may still take, until it is started again: one connection for each thread
that waits for one, and any number when a thread has not called `listen` yet. -/
theorem handled_after_stop_iff (E : Env) (parse : Bytes → Option Json) {s : Server}
    (hrun : s.shared.aborted = false) (k : Nat) :
    (∃ s', ReflTransGen (Step E parse) (stop s) s' ∧
        s'.shared.handled.length = s.shared.handled.length + k) ↔
      k ≤ waiting s ∨ .spawned ∈ s.threads := by
  constructor
  · rintro ⟨s', hlater, hlen⟩
    by_cases hspawned : .spawned ∈ s.threads
    · exact Or.inr hspawned
    · have hquiet : Quiet (stop s) := ⟨rfl, hspawned⟩
      have hle : s'.shared.handled.length + waiting s' ≤ s.shared.handled.length + waiting s :=
        hquiet.run hlater
      exact Or.inl (by omega)
  · rintro (hk | hspawned)
    · exact exists_run_waiting (s := stop s) hrun hk
    · obtain ⟨before, after, hthreads⟩ := List.append_of_mem hspawned
      have hlisten : Step E parse (stop s)
          ⟨{ s.shared with isListening := true }, before ++ .looking :: after⟩ := by
        rw [stop, hthreads]
        exact .turn before after hrun (.listen _)
      have htakes : ∃ s', ReflTransGen (Step E parse)
          ⟨{ s.shared with isListening := true }, before ++ .looking :: after⟩ s' ∧
            s'.shared.handled.length = s.shared.handled.length + k :=
        exists_run_looking k hrun rfl
      obtain ⟨s', hlater, hlen⟩ := htakes
      exact ⟨s', .head hlisten hlater, hlen⟩

namespace Waiting

/-- A server whose only thread waits for a connection. -/
def server : Server where
  shared := { isListening := true, node := SmallNet.node FirstBlock.config [] .empty, handled := []
              answers := [], aborted := false }
  threads := [.accepting]

end Waiting

/-- A thread that waits takes one more connection, and no second one. -/
theorem handled_after_stop_waiting :
    (∃ s', ReflTransGen (Step testEnv fun _ => none) (stop Waiting.server) s' ∧
        s'.shared.handled.length = 1) ∧
      ¬ ∃ s', ReflTransGen (Step testEnv fun _ => none) (stop Waiting.server) s' ∧
        s'.shared.handled.length = 2 := by
  refine ⟨(handled_after_stop_iff testEnv _ (s := Waiting.server) rfl 1).2 (Or.inl (le_refl 1)),
    fun htwo => ?_⟩
  rcases (handled_after_stop_iff testEnv _ (s := Waiting.server) rfl 2).1 htwo with hle | hspawned
  · exact absurd hle (by decide)
  · simp [Waiting.server] at hspawned

/-! ## A server that is started once -/

/-- The buffers that parse. -/
def requests (parse : Bytes → Option Json) (messages : List (Visit × Bytes)) :
    List (Visit × Json) :=
  messages.filterMap fun x => (parse x.2).map fun jData => (x.1, jData)

theorem onMessages_fst (n : Node) (messages : List (Visit × Bytes)) :
    (onMessages E parse n messages).1 = TCPServer.serveAll E n (requests parse messages) := by
  induction messages generalizing n with
  | nil => rfl
  | cons x messages ih =>
      obtain ⟨visit, buffer⟩ := x
      rw [onMessages, requests, List.filterMap_cons]
      dsimp only
      rw [ih]
      cases hparse : parse buffer with
      | none => simp [onMessage, hparse, requests]
      | some jData => simp [onMessage, hparse, requests, TCPServer.serveAll_cons]

theorem onMessages_concat (n : Node) (messages : List (Visit × Bytes)) (visit : Visit)
    (buffer : Bytes) :
    onMessages E parse n (messages ++ [(visit, buffer)]) =
      ((onMessage E parse (onMessages E parse n messages).1 visit buffer).1,
        (onMessages E parse n messages).2 ++
          [(onMessage E parse (onMessages E parse n messages).1 visit buffer).2]) := by
  induction messages generalizing n with
  | nil => rfl
  | cons x messages ih =>
      obtain ⟨visit', buffer'⟩ := x
      rw [List.cons_append, onMessages, onMessages]
      dsimp only
      rw [ih, List.cons_append]

/-- What the thread has in hand. -/
def Phase.inHand : Phase → List (Visit × Bytes)
  | .handling visit buffer => [(visit, buffer)]
  | _ => []

/-- One thread, which has answered all that the handler was called with but what it has in hand. -/
structure InTurn (E : Env) (parse : Bytes → Option Json) (n : Node)
    (answered : List (Visit × Bytes)) (p : Phase) (s : Server) : Prop where
  threads : s.threads = [p]
  handled : s.shared.handled = answered ++ p.inHand
  node : s.shared.node = (onMessages E parse n answered).1
  answers : s.shared.answers = (onMessages E parse n answered).2

theorem InTurn.step {n : Node} {answered : List (Visit × Bytes)} {p : Phase}
    (h : InTurn E parse n answered p s) (hstep : Step E parse s s') :
    ∃ answered' p', InTurn E parse n answered' p' s' := by
  cases hstep with
  | stop => exact ⟨answered, p, h.threads, h.handled, h.node, h.answers⟩
  | @turn sh sh' q q' before after _ hturn =>
      obtain ⟨hthreads, hhandled, hnode, hanswers⟩ := h
      obtain ⟨rfl, rfl, rfl⟩ : before = [] ∧ q = p ∧ after = [] := by
        simpa [List.append_eq_singleton_iff] using hthreads
      dsimp only at hhandled hnode hanswers
      cases hturn with
      | receive visit hreceive =>
          refine ⟨answered, _, rfl, ?_, hnode, hanswers⟩
          simp [hhandled, Phase.inHand]
      | answer visit buffer =>
          refine ⟨answered ++ [(visit, buffer)], _, rfl, ?_, ?_, ?_⟩
          · exact hhandled.trans (List.append_nil _).symm
          · rw [onMessages_concat, ← hnode]
          · rw [onMessages_concat, ← hnode, ← hanswers]
      | listen => exact ⟨answered, _, rfl, hhandled, hnode, hanswers⟩
      | listenFails => exact ⟨answered, _, rfl, hhandled, hnode, hanswers⟩
      | look => exact ⟨answered, _, rfl, hhandled, hnode, hanswers⟩
      | leave => exact ⟨answered, _, rfl, hhandled, hnode, hanswers⟩
      | refuse => exact ⟨answered, _, rfl, hhandled, hnode, hanswers⟩

/-- A server that is started once handles its requests one after the other, whenever it is stopped:
the node is what they make of it in their order, and only the last may still be without an
answer. -/
theorem handled_in_turn (E : Env) (parse : Bytes → Option Json) (n : Node) {s : Server}
    (hrun : ReflTransGen (Step E parse) (startAsync (opened n)).1 s) :
    ∃ answered inHand, s.shared.handled = answered ++ inHand ∧ inHand.length ≤ 1 ∧
      s.shared.node = TCPServer.serveAll E n (requests parse answered) ∧
      s.shared.answers = (onMessages E parse n answered).2 := by
  have hinTurn : ∃ answered p, InTurn E parse n answered p s := by
    induction hrun with
    | refl => exact ⟨[], .spawned, rfl, rfl, rfl, rfl⟩
    | tail _ hstep ih =>
        obtain ⟨answered, p, h⟩ := ih
        exact h.step hstep
  obtain ⟨answered, p, h⟩ := hinTurn
  refine ⟨answered, p.inHand, h.handled, ?_, h.node.trans (onMessages_fst n answered), h.answers⟩
  cases p with
  | handling => exact le_refl _
  | _ => exact Nat.zero_le _

namespace Waiting

/-- `{` alone is no JSON. -/
def messages : List (Visit × Bytes) := [(SmallNet.visit, [123])]

theorem receive_brace : SocketServer.receive [123] = some [123] := rfl

/-- A node that has taken the message and not answered it. -/
theorem run (n : Node) : ReflTransGen (Step testEnv fun _ => none) (startAsync (opened n)).1
    ⟨{ isListening := true, node := n, handled := messages, answers := [], aborted := false },
      [.handling SmallNet.visit [123]]⟩ := by
  have hlisten : Step testEnv (fun _ => none) (startAsync (opened n)).1
      ⟨{ (opened n).shared with isListening := true }, [.looking]⟩ :=
    .turn [] [] rfl (.listen _)
  have hlook : Step testEnv (fun _ => none)
      ⟨{ (opened n).shared with isListening := true }, [.looking]⟩
      ⟨{ (opened n).shared with isListening := true }, [.accepting]⟩ := .turn [] [] rfl (.look rfl)
  exact ((ReflTransGen.single hlisten).tail hlook).tail
    (.turn [] [] rfl (.receive SmallNet.visit receive_brace))

end Waiting

/-- The message in hand is not among the answered ones. -/
theorem handled_in_turn_waiting : ∃ answered inHand, Waiting.messages = answered ++ inHand ∧
    inHand.length ≤ 1 ∧ SmallNet.node FirstBlock.config [] .empty = TCPServer.serveAll testEnv
      (SmallNet.node FirstBlock.config [] .empty) (requests (fun _ => none) answered) ∧
    [] = (onMessages testEnv (fun _ => none) (SmallNet.node FirstBlock.config [] .empty)
      answered).2 :=
  handled_in_turn testEnv _ _ (Waiting.run _)

end ServerLoop
end Network
end DChat
