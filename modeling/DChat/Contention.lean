import DChat.HonestSend
import DChat.SiblingCheck
import DChat.Library.Flags

/-!
# Contention — sends of several nodes at once

Each node has an input thread that sends and a server thread that takes in blocks, and nothing
orders the sends of different nodes.  Here any number of sends and requests of a whole network are
under way, stopped between any two statements on any of the databases.  Of a send this covers what
happens to chains: the block is made over the tip, each peer is offered it in turn, and at last
the sender stores it; the text itself goes to another table.

A send leaves a child of its parent block at every peer that takes the block, and only then looks
for a child at home (`Library/Flags.lean`).  So two nodes that know each other never both store a
block of their own over one parent, however their sends meet.

The `SELECT` of the own `insertBlock` carries the peers that were reached, which the statement does
not look at; `exec` records the statement when it finds nothing.
-/

namespace DChat
namespace Network
namespace Contention

open Utils Crypto Peer Messaging Chat Blockchain BlockchainService KeyedTable AtomicProg Flags

/-! ## Statements of a network -/

/-- The chains at their addresses, and the claims that were made, the latest first. -/
structure Chains where
  table : UserHost → BlockTable
  claims : List (Claim UserHost DbText)

/-- A statement on the blocks of one node. -/
inductive NetCall
  | findTip (host : UserHost)
  | findBlockByHash (host : UserHost) (hash : String)
  | hasBlock (host : UserHost) (hash : String)
  | insertion (host : UserHost) (statement : SiblingCheck.Statement)
  /-- The `SELECT` of the sender's own insertion. -/
  | claim (host : UserHost) (reached : List UserHost) (previousHash : String)

def NetCall.Res : NetCall → Type
  | .findTip _ => Option Block
  | .findBlockByHash _ _ => Option Block
  | .hasBlock _ _ => Bool
  | .insertion _ statement => statement.Res
  | .claim _ _ _ => Bool

def NetCall.exec : (op : NetCall) → Chains → op.Res × Chains
  | .findTip host, s => (ChainDB.findTip (s.table host), s)
  | .findBlockByHash host hash, s => (ChainDB.findBlockByHash (s.table host) hash, s)
  | .hasBlock host hash, s => (ChainDB.hasBlock (s.table host) hash, s)
  | .insertion host statement, s =>
      let (answer, table) := statement.exec (s.table host)
      (answer, { s with table := Function.update s.table host table })
  | .claim host reached previousHash, s =>
      if ChainDB.selectChild (s.table host) previousHash then
        (true, s)
      else
        (false, { s with claims := ⟨host, .bind previousHash, reached⟩ :: s.claims })

/-- A program over the chains of a network. -/
abbrev NetProg := Prog NetCall NetCall.Res

/-- A statement of `insertBlock` at one node. -/
def insertion (host : UserHost) (statement : SiblingCheck.Statement) : NetProg statement.Res :=
  .call (.insertion host statement) .done

/-- The statements of a `ChainDB` method at one node. -/
def statements (host : UserHost) : (op : ChainOp) → NetProg op.Res
  | .findTip => .call (.findTip host) .done
  | .findBlockByHash hash => .call (.findBlockByHash host hash) .done
  | .hasBlock hash => .call (.hasBlock host hash) .done
  | .insertBlock b => (SiblingCheck.insertBlock b).lift (insertion host)

/-- What one node does on its chain. -/
def atHost {α : Type} (host : UserHost) (p : ChainProg α) : NetProg α := p.lift (statements host)

/-! ## Sends and requests -/

/-- What a sender finds at the address of a peer: nobody, or a node and its clocks. -/
abbrev Found := UserPeer → Option (UserPeer × Visit)

/-- The addresses that answered. -/
def reached (found : Found) (peers : List UserPeer) : List UserHost :=
  (peers.filter fun p => (found p).isSome).map UserPeer.toUserHost

variable (E : Env)

/-- The callback of `sendSecretMessage`. -/
def sendCallback (found : Found) (raw : Json) (peer : UserPeer) : NetProg Bool :=
  match found peer, received raw with
  | none, _ => .done true
  | some _, none => .done false
  | some (me, visit), some jData => do
      let response ← atHost peer.toUserHost (onIncomingBlock E me visit.checked visit.tick jData)
      match received response with
      | none => return false
      | some jResponse =>
          return !(jResponse.contains "type" && ((jResponse.field "type").toOption.getD
            .null).isString MessageType.blockchainErrorResponse.toString)

/-- The loop of `storeAndBroadcastBlock`. -/
def broadcast (found : Found) (raw : Json) : List UserPeer → NetProg Bool
  | [] => .done true
  | p :: peers => do
      if ← sendCallback E found raw p then broadcast found raw peers else return false

/-- `db->selectPrepared` of the sender's own insertion. -/
def claim (own : UserHost) (reached : List UserHost) (previousHash : String) : NetProg Bool :=
  .call (.claim own reached previousHash) .done

/-- `db->executePrepared`. -/
def insertRow (host : UserHost) (block : Block) : NetProg Bool := insertion host (.insertRow block)

/-- `chainRepo->insertBlock` of the sender. -/
def insertOwn (own : UserHost) (reached : List UserHost) (block : Block) : NetProg Bool :=
  if block.previousHash ≠ "0" then do
    let found ← claim own reached block.previousHash
    if found then return false else insertRow own block
  else
    insertRow own block

/-- `storeAndBroadcastBlock`. -/
def storeAndBroadcastBlock (own : UserHost) (found : Found) (peers : List UserPeer)
    (block : Block) : NetProg Bool := do
  if ← broadcast E found block.toJson peers then
    insertOwn own (reached found peers) block
  else
    return false

/-- What a thread ends with. -/
inductive Outcome
  /-- No block could be made. -/
  | thrown (e : Exn)
  /-- What `storeAndBroadcastBlock` returned. -/
  | sent (own : UserHost) (reached : List UserHost) (block : Block) (stored : Bool)
  | answered (response : Json)

/-- The part of `sendSecretMessage` that works on chains. -/
def send (cfg : Config) (rnd : Rand) (message : TextMessage) (found : Found)
    (peers : List UserPeer) : NetProg Outcome := do
  match ← atHost cfg.me.toUserHost (createBlockFromMessage E cfg.privateKey rnd message) with
  | .error e => return .thrown e
  | .ok block =>
      let stored ← storeAndBroadcastBlock E cfg.me.toUserHost found peers block
      return .sent cfg.me.toUserHost (reached found peers) block stored

/-- A block from outside. -/
def receive (host : UserHost) (me : UserPeer) (visit : Visit) (jData : Json) : NetProg Outcome := do
  let response ← atHost host (onIncomingBlock E me visit.checked visit.tick jData)
  return .answered response

/-- The threads that may start: sends of any node to any peers, and blocks from anywhere. -/
inductive Starts : Unit → NetProg Outcome → Prop
  | send (cfg : Config) (rnd : Rand) (message : TextMessage) (found : Found)
      (peers : List UserPeer) : Starts () (send E cfg rnd message found peers)
  | receive (host : UserHost) (me : UserPeer) (visit : Visit) (jData : Json) :
      Starts () (receive E host me visit jData)

/-- Only blocks that are hashed from `S` are inserted. -/
def InsertsFrom (S : Set Bytes) : Chains → Unit → NetCall → Prop
  | _, _, .insertion _ (.insertRow b) => b.canonicalBytes ∈ S
  | _, _, _ => True

def networkSystem (S : Set Bytes) : System NetCall NetCall.Res Chains Unit Outcome where
  exec := NetCall.exec
  note _ _ _ := ()
  spawn := Starts E
  allowed := InsertsFrom S

/-! ## What every thread relies on -/

/-- The row is that of a block under its own digest, hashed from `S`, whose parent is kept
without the separator. -/
def RowOf (S : Set Bytes) (r : BlockRow) : Prop :=
  ∃ b : Block, r.hash = .bind b.hash ∧ r.previousHash = .bind b.previousHash ∧
    b.hash = E.sha256 b.canonicalBytes ∧ b.canonicalBytes ∈ S ∧
    '|' ∉ (cString b.previousHash).toList

/-- The host stores a child of this parent. -/
def HasChild (s : Chains) (host : UserHost) (parent : DbText) : Prop :=
  ∃ r ∈ (s.table host).data, r.previousHash = parent

/-- Chains and claims only grow. -/
structure Moves (s s' : Chains) : Prop where
  grows : ∀ host, (s.table host).data <+: (s'.table host).data
  keeps : s.claims ⊆ s'.claims

/-- Every chain is made of hashed blocks, and no claim was made against the child of another. -/
structure Inv (S : Set Bytes) (s : Chains) : Prop where
  rows : ∀ host, ∀ r ∈ (s.table host).data, RowOf E S r
  flags : Flags.Inv (HasChild s) s.claims

def networkRely (S : Set Bytes) : Rely Chains where
  inv := Inv E S
  moves := Moves
  moves_refl _ := ⟨fun _ => List.prefix_rfl, fun _ h => h⟩
  moves_trans h h' := ⟨fun host => (h.grows host).trans (h'.grows host),
    fun _ hc => h'.keeps (h.keeps hc)⟩

variable {E} {S : Set Bytes}

theorem HasChild.mono {s s' : Chains} {host : UserHost} {parent : DbText} (hm : Moves s s')
    (h : HasChild s host parent) : HasChild s' host parent := by
  obtain ⟨r, hr, hpar⟩ := h
  exact ⟨r, (hm.grows host).subset hr, hpar⟩

/-- Without collisions a row determines the parent of the block that was hashed. -/
theorem RowOf.previousHash_eq (hS : E.CollisionFree S) {r : BlockRow} (hr : RowOf E S r)
    {b : Block} (hhash : b.hash = E.sha256 b.canonicalBytes) (hb : b.canonicalBytes ∈ S)
    (hbar : '|' ∉ (cString b.previousHash).toList) (h : r.hash = .bind b.hash) :
    r.previousHash = .bind b.previousHash := by
  obtain ⟨c, hc, hpar, hchash, hcS, hcbar⟩ := hr
  have hsame : c.hash = b.hash := by
    have htext := congrArg DbText.text (hc.symm.trans h)
    rwa [DbText.text_bind, DbText.text_bind, hchash, hhash, cString_of_noNul (E.noNul_sha256 _),
      cString_of_noNul (E.noNul_sha256 _), ← hchash, ← hhash] at htext
  have hcanonical : c.canonicalBytes = b.canonicalBytes :=
    hS hcS hb (hchash.symm.trans (hsame.trans hhash))
  rw [hpar]
  exact Block.bind_previousHash_eq_of_canonical hcbar hbar (bytesOf_injective hcanonical)

/-- The hash of a row is a digest, without the separator. -/
theorem RowOf.bar_not_mem {r : BlockRow} (hr : RowOf E S r) : '|' ∉ r.hash.text.toList := by
  obtain ⟨b, hb, -, hhash, -, -⟩ := hr
  rw [hb, DbText.text_bind, hhash, cString_of_noNul (E.noNul_sha256 _)]
  exact fun hmem => absurd (mem_toHex hmem) (by decide)

/-- Neither has the hash that a node finds at its tip. -/
theorem bar_not_mem_tip {t : BlockTable} (h : ∀ r ∈ t.data, RowOf E S r) :
    '|' ∉ ((ChainDB.findTip t).getD Block.default).hash.toList := by
  cases htip : t.data.getLast? with
  | none =>
      simp only [ChainDB.findTip, htip, Option.map_none, Option.getD_none]
      decide
  | some r =>
      have hr : RowOf E S r := h r (List.mem_of_getLast? htip)
      simpa [ChainDB.findTip, htip] using hr.bar_not_mem

theorem bar_not_mem_cString {s : String} (h : '|' ∉ s.toList) : '|' ∉ (cString s).toList := by
  rw [cString, String.toList_ofList]
  exact fun hmem => h ((List.takeWhile_sublist _).subset hmem)

/-! ## One statement at a time -/

section Statements

variable {α : Type} {post : Chains → Unit → α → Prop} {s : Chains} {host : UserHost}

theorem secure_findTip {f : Block → NetProg α}
    (h : ∀ s', Moves s s' → Inv E S s' → Secure (networkSystem E S) (networkRely E S) post s' ()
      (f ((ChainDB.findTip (s'.table host)).getD Block.default))) :
    Secure (networkSystem E S) (networkRely E S) post s ()
      (atHost host ChainProg.findTip >>= f) :=
  Secure.read (fun _ => rfl) h

theorem secure_findBlockByHash {hash : String} {f : Option Block → NetProg α}
    (h : ∀ s', Moves s s' → Inv E S s' → Secure (networkSystem E S) (networkRely E S) post s' ()
      (f (ChainDB.findBlockByHash (s'.table host) hash))) :
    Secure (networkSystem E S) (networkRely E S) post s ()
      (atHost host (ChainProg.findBlockByHash hash) >>= f) :=
  Secure.read (fun _ => rfl) h

theorem secure_hasBlock {hash : String} {f : Bool → NetProg α}
    (h : ∀ s', Moves s s' → Inv E S s' → Secure (networkSystem E S) (networkRely E S) post s' ()
      (f (ChainDB.hasBlock (s'.table host) hash))) :
    Secure (networkSystem E S) (networkRely E S) post s ()
      (atHost host (ChainProg.hasBlock hash) >>= f) :=
  Secure.read (fun _ => rfl) h

/-- A block that was hashed: what its insertion needs. -/
structure Insertable (E : Env) (block : Block) : Prop where
  hashed : block.hash = E.sha256 block.canonicalBytes
  bar_not_mem : '|' ∉ (cString block.previousHash).toList

/-- The table of one host grows by an insertion, and nothing else changes. -/
theorem insertRow_spec (host : UserHost) {s : Chains} {block : Block} (hinv : Inv E S s)
    (hblock : Insertable E block) (hS : block.canonicalBytes ∈ S) :
    Inv E S { s with
        table := Function.update s.table host (ChainDB.insertRow (s.table host) block).1 } ∧
      Moves s { s with
        table := Function.update s.table host (ChainDB.insertRow (s.table host) block).1 } := by
  have hmoves : Moves s { s with
      table := Function.update s.table host (ChainDB.insertRow (s.table host) block).1 } := by
    refine ⟨fun other => ?_, fun _ h => h⟩
    by_cases hother : other = host
    · subst hother
      simpa [ChainDB.insertRow] using Table.data_prefix_insert _ _
    · simp [Function.update_of_ne hother]
  refine ⟨⟨fun other r hr => ?_, ?_⟩, hmoves⟩
  · by_cases hother : other = host
    · subst hother
      dsimp only at hr
      rw [Function.update_self] at hr
      rcases Table.data_insert (s.table other) (BlockRow.ofBlock block) with happ | hsame
      · rw [ChainDB.insertRow, happ] at hr
        rcases List.mem_append.1 hr with hold | hnew
        · exact hinv.rows other r hold
        · rw [List.mem_singleton.1 hnew]
          exact ⟨block, rfl, rfl, hblock.hashed, hS, hblock.bar_not_mem⟩
      · rw [ChainDB.insertRow, hsame] at hr
        exact hinv.rows other r hr
    · dsimp only at hr
      rw [Function.update_of_ne hother] at hr
      exact hinv.rows other r hr
  · exact hinv.flags.mono fun i k h => h.mono hmoves

/-- After the `INSERT`, whatever it answered, the host stores a child of the parent. -/
theorem hasChild_insertRow (hS : E.CollisionFree S) {s : Chains} {block : Block}
    (hinv : Inv E S s) (hblock : Insertable E block) (hmem : block.canonicalBytes ∈ S) :
    HasChild { s with
        table := Function.update s.table host (ChainDB.insertRow (s.table host) block).1 }
      host (.bind block.previousHash) := by
  obtain ⟨r, hr, hkey⟩ := Table.exists_key_insert (s.table host) (BlockRow.ofBlock block)
  have hr' : r ∈ (Function.update s.table host
      (ChainDB.insertRow (s.table host) block).1 host).data := by
    rw [Function.update_self]
    exact hr
  have hrow : RowOf E S r := (insertRow_spec host hinv hblock hmem).1.rows host r hr'
  exact ⟨r, hr', hrow.previousHash_eq hS hblock.hashed hmem hblock.bar_not_mem hkey⟩

theorem secure_insertRow (hS : E.CollisionFree S) {block : Block}
    (hblock : Insertable E block) {s : Chains} :
    Secure (networkSystem E S) (networkRely E S)
      (fun s' _ (_ : Bool) => HasChild s' host (.bind block.previousHash)) s ()
      (insertRow host block) := by
  intro s' hm hinv hmem
  obtain ⟨hinv', hmoves⟩ := insertRow_spec host hinv hblock hmem
  refine ⟨hinv', hmoves, fun s'' hm'' _ => ?_⟩
  exact (hasChild_insertRow hS hinv hblock hmem).mono hm''

/-- `insertBlock` of a node leaves a child of the parent, its own or an earlier one. -/
theorem secure_insertBlock (hS : E.CollisionFree S) {block : Block}
    (hblock : Insertable E block) {s : Chains} :
    Secure (networkSystem E S) (networkRely E S)
      (fun s' _ _ => HasChild s' host (.bind block.previousHash)) s ()
      (atHost host (ChainProg.insertBlock block)) := by
  have hstatements : Secure (networkSystem E S) (networkRely E S)
      (fun s' _ (_ : Bool) => HasChild s' host (.bind block.previousHash)) s ()
      ((SiblingCheck.insertBlock block).lift (insertion host)) := by
    by_cases hroot : block.previousHash = "0"
    · rw [SiblingCheck.insertBlock, if_neg (not_not.2 hroot)]
      exact secure_insertRow hS hblock
    · rw [SiblingCheck.insertBlock, if_pos hroot]
      refine Secure.read (fun s => ?_) fun s' hm hinv => ?_
      · simp [networkSystem, NetCall.exec, SiblingCheck.Statement.exec]
      · cases hfound : ChainDB.selectChild (s'.table host) block.previousHash with
        | true =>
            obtain ⟨r, hr, hpar⟩ := List.any_eq_true.1 hfound
            have hchild : HasChild s' host (.bind block.previousHash) :=
              ⟨r, hr, of_decide_eq_true hpar⟩
            simp only [networkSystem, NetCall.exec, SiblingCheck.Statement.exec, hfound]
            exact fun s'' hm' _ => hchild.mono hm'
        | false =>
            simp only [networkSystem, NetCall.exec, SiblingCheck.Statement.exec, hfound]
            exact secure_insertRow hS hblock
  change Secure (networkSystem E S) (networkRely E S) _ s ()
    ((SiblingCheck.insertBlock block).lift (insertion host) >>= .done)
  refine hstatements.bind fun s' _ stored _ _ h => ?_
  intro s'' hm _
  exact h.mono hm

end Statements

/-! ## The threads -/

/-- A block that passes the checks against the chain has a parent without the separator. -/
theorem secure_validateLink {s : Chains} {host : UserHost} {block : Block} :
    Secure (networkSystem E S) (networkRely E S)
      (fun _ _ verdict => verdict = none → '|' ∉ (cString block.previousHash).toList)
      s () (atHost host (validateLink block)) := by
  have hduplicate : ∀ s' : Chains, '|' ∉ (cString block.previousHash).toList →
      Secure (networkSystem E S) (networkRely E S)
        (fun _ _ verdict => verdict = none → '|' ∉ (cString block.previousHash).toList)
        s' () (atHost host (refuseDuplicate block)) := by
    intro s' hbar
    rw [atHost, refuseDuplicate, Prog.lift_bind]
    refine secure_hasBlock fun _ _ _ => ?_
    split <;> exact fun _ _ _ _ => hbar
  rw [atHost, validateLink, Prog.lift_bind]
  refine secure_findTip fun s₁ _ hinv₁ => ?_
  have htip := bar_not_mem_tip (hinv₁.rows host)
  by_cases hprev : block.previousHash = ((ChainDB.findTip (s₁.table host)).getD Block.default).hash
  · rw [if_pos hprev]
    exact hduplicate s₁ (bar_not_mem_cString (hprev ▸ htip))
  · rw [if_neg hprev, Prog.lift_bind]
    refine secure_findBlockByHash fun s₂ _ hinv₂ => ?_
    cases hfind : ChainDB.findBlockByHash (s₂.table host) block.previousHash with
    | none => exact fun _ _ _ h => absurd h (by simp)
    | some prevBlock =>
        obtain ⟨r, hr, hblock⟩ := Option.map_eq_some_iff.1 hfind
        have hhash : r.hash = .bind block.previousHash := by simpa using List.find?_some hr
        have hbar : '|' ∉ (cString block.previousHash).toList := by
          have htext := (hinv₂.rows host r (List.mem_of_find?_eq_some hr)).bar_not_mem
          rwa [hhash] at htext
        dsimp only
        split
        · exact fun _ _ _ h => absurd h (by simp)
        · exact hduplicate s₂ hbar

/-- Before anything is read from the chain, a request is refused or found to be authentic and
timely. -/
theorem onIncomingBlock_eq (me : UserPeer) (now : ClockReading) (tick : Tick) (jData : Json) :
    (∃ error hash, onIncomingBlock E me now tick jData = .done (refusal me tick error hash)) ∨
    ∃ block, Block.ofJson jData = .ok block ∧ Authentic E block ∧
      onIncomingBlock E me now tick jData = (validateLink block >>= fun verdict =>
        match verdict with
        | some error => .done (refusal me tick error block.hash)
        | none => do
            let _stored ← ChainProg.insertBlock block
            return .object []) := by
  cases hblock : Block.ofJson jData with
  | error e => exact Or.inl ⟨_, _, by simp [onIncomingBlock, hblock]; rfl⟩
  | ok block =>
      cases hsingle : validateSingleBlock E block with
      | error e =>
          exact Or.inl ⟨_, _, by
            simp [onIncomingBlock, validateIncomingBlock, hblock, hsingle]; rfl⟩
      | ok single =>
          cases single with
          | some error =>
              exact Or.inl ⟨_, _, by
                simp [onIncomingBlock, validateIncomingBlock, hblock, hsingle]; rfl⟩
          | none =>
              by_cases htime : getTimestamp now + 300000 < block.timestamp
              · exact Or.inl ⟨_, _, by
                  simp [onIncomingBlock, validateIncomingBlock, hblock, hsingle, htime]; rfl⟩
              · refine Or.inr ⟨block, rfl, hsingle, ?_⟩
                simp only [onIncomingBlock, validateIncomingBlock, hblock, hsingle, if_neg htime,
                  Prog.bind_assoc, Prog.pure_def, Prog.done_bind]
                congr 1
                funext verdict
                cases verdict <;> rfl

/-- A node that does not refuse a block stores a child of the block's parent from then on. -/
theorem secure_onIncomingBlock (hS : E.CollisionFree S) {s : Chains} {host : UserHost}
    (me : UserPeer) (now : ClockReading) (tick : Tick) (jData : Json) :
    Secure (networkSystem E S) (networkRely E S)
      (fun s' _ response => (∃ error hash, response = refusal me tick error hash) ∨
        ∃ block, Block.ofJson jData = .ok block ∧ HasChild s' host (.bind block.previousHash))
      s () (atHost host (onIncomingBlock E me now tick jData)) := by
  rcases onIncomingBlock_eq (E := E) me now tick jData with
    ⟨error, hash, heq⟩ | ⟨block, hblock, hsingle, heq⟩
  · rw [heq]
    exact fun _ _ _ => Or.inl ⟨error, hash, rfl⟩
  · rw [heq, atHost, Prog.lift_bind]
    refine secure_validateLink.bind fun s₁ _ verdict _ _ hverdict => ?_
    cases verdict with
    | some error => exact fun _ _ _ => Or.inl ⟨error, block.hash, rfl⟩
    | none =>
        have hinsertable : Insertable E block := ⟨hsingle.hash_eq.symm, hverdict rfl⟩
        dsimp only
        rw [Prog.lift_bind]
        refine (secure_insertBlock hS hinsertable).bind fun s₂ _ stored _ _ hchild => ?_
        intro s₃ hm _
        exact Or.inr ⟨block, hblock, hchild.mono hm⟩

/-- The sender tells a refusal by its type. -/
theorem refusal_type (me : UserPeer) (tick : Tick) (error hash : String) :
    ((refusal me tick error hash).contains "type" &&
      (((refusal me tick error hash).field "type").toOption.getD .null).isString
        MessageType.blockchainErrorResponse.toString) = true := rfl

/-- When the callback says that the peer took the block, the peer stores a child of its parent
or cannot be reached. -/
theorem secure_sendCallback (hS : E.CollisionFree S) {s : Chains} (found : Found)
    (block : Block) (peer : UserPeer) :
    Secure (networkSystem E S) (networkRely E S)
      (fun s' _ taken => taken = true → (found peer).isSome →
        HasChild s' peer.toUserHost (.bind block.previousHash))
      s () (sendCallback E found block.toJson peer) := by
  rw [sendCallback]
  cases hfound : found peer with
  | none => exact fun _ _ _ _ h => absurd h (by simp)
  | some node =>
      cases hraw : received block.toJson with
      | none => exact fun _ _ _ h => absurd h (by simp)
      | some jData =>
          obtain ⟨-, hdata⟩ := received_eq_some.1 hraw
          refine (secure_onIncomingBlock hS node.1 node.2.checked node.2.tick jData).bind
            fun s₁ _ response _ _ hresponse => ?_
          cases hreceived : received response with
          | none => exact fun _ _ _ h => absurd h (by simp)
          | some jResponse =>
              obtain ⟨-, hsame⟩ := received_eq_some.1 hreceived
              intro s₂ hm _ htaken _
              rcases hresponse with ⟨error, hash, hrefusal⟩ | ⟨b, hb, hchild⟩
              · rw [← hsame, hrefusal, refusal_type] at htaken
                cases htaken
              · rw [← hdata, Block.ofJson_toJson] at hb
                cases hb
                exact hchild.mono hm

/-- After the loop went through, every peer that was reached stores a child of the parent. -/
theorem secure_broadcast (hS : E.CollisionFree S) {s : Chains} (found : Found) (block : Block)
    (peers : List UserPeer) :
    Secure (networkSystem E S) (networkRely E S)
      (fun s' _ sent => sent = true → ∀ host ∈ reached found peers,
        HasChild s' host (.bind block.previousHash))
      s () (broadcast E found block.toJson peers) := by
  induction peers generalizing s with
  | nil => exact fun _ _ _ _ => by simp [reached]
  | cons peer peers ih =>
      rw [broadcast]
      refine (secure_sendCallback hS found block peer).bind fun s₁ _ taken _ _ htaken => ?_
      cases taken with
      | false => exact fun _ _ _ h => absurd h (by simp)
      | true =>
          refine ih.imp fun s₂ _ sent hm _ hpeers hsent host hhost => ?_
          rw [reached, List.filter_cons] at hhost
          split at hhost
          · rcases List.mem_cons.1 hhost with rfl | hrest
            · exact (htaken rfl ‹_›).mono hm
            · exact hpeers hsent host hrest
          · exact hpeers hsent host hhost

/-- The own insertion makes its claim when nothing is found, after every peer was marked. -/
theorem secure_insertOwn (hS : E.CollisionFree S) {s : Chains} {own : UserHost}
    {hosts : List UserHost} {block : Block} (hblock : Insertable E block)
    (hmarks : ∀ host ∈ hosts, HasChild s host (.bind block.previousHash)) :
    Secure (networkSystem E S) (networkRely E S)
      (fun s' _ stored => stored = true → block.previousHash ≠ "0" →
        ⟨own, .bind block.previousHash, hosts⟩ ∈ s'.claims)
      s () (insertOwn own hosts block) := by
  rw [insertOwn]
  split
  · intro s₁ hm hinv _
    cases hfound : ChainDB.selectChild (s₁.table own) block.previousHash with
    | true =>
        simp only [networkSystem, NetCall.exec, hfound, if_true]
        exact ⟨hinv, (networkRely E S).moves_refl s₁, fun _ _ _ h => absurd h (by simp)⟩
    | false =>
        simp only [networkSystem, NetCall.exec, hfound, if_false, Bool.false_eq_true]
        have hfree : ¬ HasChild s₁ own (.bind block.previousHash) := by
          rintro ⟨r, hr, hpar⟩
          rw [ChainDB.selectChild, List.any_eq_false] at hfound
          exact hfound r hr (decide_eq_true hpar)
        have hclaim : Inv E S { s₁ with
            claims := ⟨own, .bind block.previousHash, hosts⟩ :: s₁.claims } :=
          ⟨hinv.rows, hinv.flags.claim (fun host hhost => (hmarks host hhost).mono hm) hfree⟩
        refine ⟨hclaim, ⟨fun _ => List.prefix_rfl, fun _ h => List.mem_cons_of_mem _ h⟩, ?_⟩
        refine (secure_insertRow hS hblock).imp fun s₂ _ _ hm' _ _ _ _ => ?_
        exact hm'.keeps (List.mem_cons_self ..)
  · rename_i hroot
    exact (secure_insertRow hS hblock).imp fun _ _ _ _ _ _ _ hne => absurd hne hroot

/-- A stored block has its claim, unless it is a first block. -/
def Claimed (s : Chains) : Outcome → Prop
  | .sent own hosts block true =>
      block.previousHash ≠ "0" → ⟨own, .bind block.previousHash, hosts⟩ ∈ s.claims
  | _ => True

theorem secure_send (hS : E.CollisionFree S) {s : Chains} (cfg : Config) (rnd : Rand)
    (message : TextMessage) (found : Found) (peers : List UserPeer) :
    Secure (networkSystem E S) (networkRely E S) (fun s' _ outcome => Claimed s' outcome)
      s () (send E cfg rnd message found peers) := by
  rw [send, atHost, createBlockFromMessage, Prog.lift_bind, Prog.bind_assoc]
  refine secure_findTip fun s₁ _ hinv₁ => ?_
  simp only [Prog.pure_def, Prog.lift_done, Prog.done_bind]
  cases hsign : signBlock E cfg.privateKey rnd (unsignedBlock E message
      ((ChainDB.findTip (s₁.table cfg.me.toUserHost)).getD Block.default)) with
  | error e => exact fun _ _ _ => trivial
  | ok block =>
      obtain ⟨hprev, hhash⟩ := signBlock_fields hsign
      have hbar : '|' ∉ block.previousHash.toList :=
        hprev ▸ bar_not_mem_tip (hinv₁.rows cfg.me.toUserHost)
      have hblock : Insertable E block := ⟨hhash, bar_not_mem_cString hbar⟩
      dsimp only
      rw [storeAndBroadcastBlock, Prog.bind_assoc]
      refine (secure_broadcast hS found block peers).bind fun s₂ _ sent _ _ hsent => ?_
      cases sent with
      | false => exact fun _ _ _ => trivial
      | true =>
          refine (secure_insertOwn hS hblock (hsent rfl)).bind fun s₃ _ stored _ _ hstored => ?_
          intro s₄ hm _
          cases stored with
          | false => trivial
          | true => exact fun hne => hm.keeps (hstored rfl hne)

theorem secure_starts (hS : E.CollisionFree S) {s : Chains} {p : NetProg Outcome}
    (h : Starts E () p) :
    Secure (networkSystem E S) (networkRely E S) (fun s' _ outcome => Claimed s' outcome)
      s () p := by
  cases h with
  | send cfg rnd message found peers => exact secure_send hS cfg rnd message found peers
  | receive host me visit jData =>
      refine (secure_onIncomingBlock hS me visit.checked visit.tick jData).bind
        fun s₁ _ response _ _ _ => ?_
      exact fun _ _ _ => trivial

/-! ## Commits -/

/-- The rows of a valid chain. -/
theorem rowOf_of_valid {t : BlockTable} (hvalid : validateLocalChain E t = .ok true)
    (hfrom : Block.canonicals (ChainDB.loadAllBlocks t) ⊆ S) : ∀ r ∈ t.data, RowOf E S r := by
  intro r hr
  have hmem : r.toBlock ∈ ChainDB.loadAllBlocks t := List.mem_map_of_mem hr
  have hblocks := validateLocalChain_eq_true.1 hvalid
  refine ⟨r.toBlock, ?_, ?_, ((hblocks.authentic _ hmem).hash_eq).symm,
    hfrom ⟨r.toBlock, hmem, rfl⟩, ?_⟩
  · exact DbText.eq_bind_iff.2 (cString_of_noNul r.hash.noNul).symm
  · exact DbText.eq_bind_iff.2 (cString_of_noNul r.previousHash.noNul).symm
  · exact bar_not_mem_cString (hblocks.bar_not_mem_previousHash _ hmem)

/-- However the sends and requests of a network meet: of two nodes that each reached the other,
both have stored a block of their own over one parent only when these are first blocks. -/
theorem commits_never_conflict (hS : E.CollisionFree S) {chains : UserHost → BlockTable}
    (hvalid : ∀ host, validateLocalChain E (chains host) = .ok true)
    (hfrom : ∀ host, Block.canonicals (ChainDB.loadAllBlocks (chains host)) ⊆ S)
    {c : Pool NetCall NetCall.Res Chains Unit Outcome}
    (hrun : Reaches (networkSystem E S) ⟨⟨chains, []⟩, [], []⟩ c)
    {a b : UserHost} {reachedByA reachedByB : List UserHost} {blockA blockB : Block}
    (ha : ((), .sent a reachedByA blockA true) ∈ c.finished)
    (hb : ((), .sent b reachedByB blockB true) ∈ c.finished)
    (hne : a ≠ b) (hab : b ∈ reachedByA) (hba : a ∈ reachedByB) :
    blockA.previousHash = "0" ∨ blockA.previousHash ≠ blockB.previousHash := by
  have hinit : (networkRely E S).inv ⟨chains, []⟩ :=
    ⟨fun host => rowOf_of_valid (hvalid host) (hfrom host), Flags.Inv.nil _⟩
  have hholds := ((Holds.initial hinit).reachable (fun _ h => secure_starts hS h) hrun).1
  by_cases hroot : blockA.previousHash = "0"
  · exact Or.inl hroot
  · refine Or.inr fun hsame => ?_
    have hclaimA := hholds.finished _ ha c.shared ((networkRely E S).moves_refl _) hholds.shared
      hroot
    have hclaimB := hholds.finished _ hb c.shared ((networkRely E S).moves_refl _) hholds.shared
      (hsame ▸ hroot)
    exact hholds.shared.flags.exclusive hclaimA hclaimB hne hba hab (congrArg DbText.bind hsame)

/-! ## A send alone -/

/-- The chains, with another one at the host. -/
def Chains.put (host : UserHost) (s : Chains) (table : BlockTable) : Chains :=
  { s with table := Function.update s.table host table }

/-- Run alone, a program over one chain works on the chain of its node. -/
theorem run_atHost {α : Type} (host : UserHost) (p : ChainProg α) (s : Chains) :
    (atHost host p).run NetCall.exec s = ((p.run ChainOp.exec (s.table host)).1,
      Chains.put host s (p.run ChainOp.exec (s.table host)).2) := by
  have hview : ∀ (s : Chains) x, (Chains.put host s x).table host = x :=
    fun s x => Function.update_self ..
  have hput : ∀ (s : Chains) x y,
      Chains.put host (Chains.put host s x) y = Chains.put host s y := by
    simp [Chains.put]
  have hself : ∀ s : Chains, Chains.put host s (s.table host) = s := by
    simp [Chains.put]
  refine Prog.run_lift hview hput hself (fun op s => ?_) p s
  cases op with
  | findTip => exact congrArg (Prod.mk _) (hself s).symm
  | findBlockByHash hash => exact congrArg (Prod.mk _) (hself s).symm
  | hasBlock hash => exact congrArg (Prod.mk _) (hself s).symm
  | insertBlock b =>
      have hstatement : ∀ (statement : SiblingCheck.Statement) (s : Chains),
          (insertion host statement).run NetCall.exec s = ((statement.exec (s.table host)).1,
            Chains.put host s (statement.exec (s.table host)).2) := fun _ _ => rfl
      refine (Prog.run_lift hview hput hself hstatement _ s).trans ?_
      exact congrArg (fun r : Bool × BlockTable => (r.1, Chains.put host s r.2))
        (SiblingCheck.insertBlock_run b (s.table host))

/-- The chains are those of the nodes that are found. -/
structure Mirrors (out : TCPClient.Outside) (found : Found) (s : Chains) (net : Nodes) : Prop where
  table : ∀ {host n}, net host = some n → s.table host = n.chain
  found : ∀ peer, found peer =
    (net peer.toUserHost).map fun n => (n.config.me, out.blockVisit peer)

theorem Mirrors.modify {out : TCPClient.Outside} {found : Found} {s : Chains} {net : Nodes}
    (h : Mirrors out found s net) (host : UserHost) (table : BlockTable) :
    Mirrors out found (Chains.put host s table)
      (PartyMap.modify host (fun n => { n with chain := table }) net) where
  table {other n} hn := by
    by_cases hother : other = host
    · subst hother
      rw [PartyMap.modify_self] at hn
      obtain ⟨m, -, rfl⟩ := Option.map_eq_some_iff.1 hn
      exact Function.update_self ..
    · rw [PartyMap.modify_of_ne hother] at hn
      exact (Function.update_of_ne hother ..).trans (h.table hn)
  found peer := by
    rw [h.found]
    by_cases hpeer : peer.toUserHost = host
    · rw [← hpeer, PartyMap.modify_self, Option.map_map]
      rfl
    · rw [PartyMap.modify_of_ne hpeer]

/-- The callback does to the chains what it does to the nodes. -/
theorem sendCallback_run {out : TCPClient.Outside} {found : Found} {s : Chains} {net : Nodes}
    (h : Mirrors out found s net) (block : Block) (peer : UserPeer) :
    (TCPClient.sendCallback E out block.toJson peer net).1 =
        .ok ((sendCallback E found block.toJson peer).run NetCall.exec s).1 ∧
      Mirrors out found ((sendCallback E found block.toJson peer).run NetCall.exec s).2
        (TCPClient.sendCallback E out block.toJson peer net).2 := by
  rw [TCPClient.sendCallback, sendCallback]
  cases hnet : net peer.toUserHost with
  | none =>
      have hfound : found peer = none := by rw [h.found, hnet]; rfl
      rw [hfound]
      exact ⟨rfl, h⟩
  | some n =>
      have hfound : found peer = some (n.config.me, out.blockVisit peer) := by
        rw [h.found, hnet]; rfl
      rw [hfound]
      cases hraw : received block.toJson with
      | none =>
          simp only [request, hraw]
          exact ⟨rfl, h⟩
      | some jData =>
          obtain ⟨-, rfl⟩ := received_eq_some.1 hraw
          have hserve : ∀ m : Node, TCPServer.serve E m (out.blockVisit peer) block.toJson = _ :=
            fun m => TCPServer.serve_of_block m _ rfl
          -- a single node is served, so its table may be named in front
          have hvisit : PartyMap.modify peer.toUserHost (fun m => { m with
                chain := ((onIncomingBlock E m.config.me (out.blockVisit peer).checked
                  (out.blockVisit peer).tick block.toJson).run ChainOp.exec m.chain).2 }) net =
              PartyMap.modify peer.toUserHost (fun m => { m with
                chain := ((onIncomingBlock E n.config.me (out.blockVisit peer).checked
                  (out.blockVisit peer).tick block.toJson).run ChainOp.exec
                    (s.table peer.toUserHost)).2 }) net := by
            refine PartyMap.modify_congr fun m hm => ?_
            cases hnet.symm.trans hm
            rw [h.table hnet]
          simp only [request, hraw, hserve, hnet, Option.bind_some, Prog.run_bind, run_atHost,
            hvisit, h.table hnet]
          have hmirrors := h.modify peer.toUserHost ((onIncomingBlock E n.config.me
            (out.blockVisit peer).checked (out.blockVisit peer).tick block.toJson).run
              ChainOp.exec n.chain).2
          -- what the peer answers decides the verdict only
          cases received ((onIncomingBlock E n.config.me (out.blockVisit peer).checked
              (out.blockVisit peer).tick block.toJson).run ChainOp.exec n.chain).1 with
          | none => exact ⟨rfl, hmirrors⟩
          | some jResponse => exact ⟨rfl, hmirrors⟩

theorem broadcast_run {out : TCPClient.Outside} {found : Found} {s : Chains} {net : Nodes}
    (h : Mirrors out found s net) (block : Block) (peers : List UserPeer) :
    (BlockchainService.broadcast (TCPClient.sendCallback E out block.toJson) peers net).1 =
        ((broadcast E found block.toJson peers).run NetCall.exec s).1 ∧
      Mirrors out found ((broadcast E found block.toJson peers).run NetCall.exec s).2
        (BlockchainService.broadcast (TCPClient.sendCallback E out block.toJson) peers net).2 := by
  induction peers generalizing s net with
  | nil => exact ⟨rfl, h⟩
  | cons peer peers ih =>
      obtain ⟨hresult, hmirrors⟩ := sendCallback_run (E := E) h block peer
      rw [BlockchainService.broadcast, broadcast, Prog.run_bind]
      rcases hcall : TCPClient.sendCallback E out block.toJson peer net with ⟨result, net'⟩
      rw [hcall] at hresult hmirrors
      dsimp only at hresult hmirrors
      subst hresult
      cases htaken : ((sendCallback E found block.toJson peer).run NetCall.exec s).1 with
      | false => exact ⟨rfl, hmirrors⟩
      | true => exact ih hmirrors

theorem insertOwn_run (own : UserHost) (hosts : List UserHost) (block : Block) (s : Chains) :
    ((insertOwn own hosts block).run NetCall.exec s).1 =
        (ChainDB.insertBlock (s.table own) block).2 ∧
      ((insertOwn own hosts block).run NetCall.exec s).2.table =
        Function.update s.table own (ChainDB.insertBlock (s.table own) block).1 := by
  have hinsert : ∀ s : Chains, (insertRow own block).run NetCall.exec s =
      ((ChainDB.insertRow (s.table own) block).2,
        Chains.put own s (ChainDB.insertRow (s.table own) block).1) := fun _ => rfl
  have hclaim : ∀ f : Bool → NetProg Bool,
      (claim own hosts block.previousHash >>= f).run NetCall.exec s =
        (f (NetCall.exec (.claim own hosts block.previousHash) s).1).run NetCall.exec
          (NetCall.exec (.claim own hosts block.previousHash) s).2 := fun _ => rfl
  by_cases hroot : block.previousHash = "0"
  · simp [insertOwn, ChainDB.insertBlock, hroot, hinsert, Chains.put]
  · cases hfound : ChainDB.selectChild (s.table own) block.previousHash <;>
      simp [insertOwn, ChainDB.insertBlock, hroot, hclaim, NetCall.exec, hfound, hinsert,
        Chains.put]

/-- Run alone, `storeAndBroadcastBlock` answers what the nodes answer, and leaves their chains. -/
theorem storeAndBroadcastBlock_run {out : TCPClient.Outside} {found : Found} {s : Chains}
    {net : Nodes} (h : Mirrors out found s net) {own : UserHost} {n : Node}
    (hown : net own = some n) (block : Block) :
    (TCPClient.storeAndBroadcastBlock E out own block net).1 =
        ((storeAndBroadcastBlock E own found n.peers block).run NetCall.exec s).1 ∧
      Mirrors out found ((storeAndBroadcastBlock E own found n.peers block).run NetCall.exec s).2
        (TCPClient.storeAndBroadcastBlock E out own block net).2 := by
  obtain ⟨hsent, hmirrors⟩ := broadcast_run (E := E) h block n.peers
  simp only [TCPClient.storeAndBroadcastBlock, storeAndBroadcastBlock, hown, Prog.run_bind,
    Option.map_some, Option.getD_some]
  rcases hbroadcast : BlockchainService.broadcast (TCPClient.sendCallback E out block.toJson)
    n.peers net with ⟨sent, net'⟩
  rw [hbroadcast] at hsent hmirrors
  dsimp only at hsent hmirrors
  -- the peers that were asked go on running, and so does the sender
  obtain ⟨n', hn'⟩ : ∃ n', net' own = some n' := by
    have hfound := hmirrors.found { own with publicKey := "" }
    rw [h.found, hown] at hfound
    exact Option.isSome_iff_exists.1 (by simpa using (congrArg Option.isSome hfound).symm)
  dsimp only
  rw [hn', ← hsent]
  generalize ((broadcast E found block.toJson n.peers).run NetCall.exec s).2 = s' at hmirrors
  have htable := hmirrors.table hn'
  cases sent with
  | false =>
      -- a refusal leaves the own table as it is
      have hsame : Chains.put own s' n'.chain = s' := by simp [Chains.put, ← htable]
      refine ⟨rfl, ?_⟩
      have hmodified := hmirrors.modify own n'.chain
      rw [hsame] at hmodified
      exact hmodified
  | true =>
      obtain ⟨hstored, hgrown⟩ := insertOwn_run own (reached found n.peers) block s'
      rw [htable] at hstored hgrown
      refine ⟨hstored.symm, ?_⟩
      have hmodified := hmirrors.modify own (ChainDB.insertBlock n'.chain block).1
      exact ⟨fun hn => (congrFun hgrown _).trans (hmodified.table hn), hmodified.found⟩

/-! ## Two sends over one parent -/

/-- The call inserts this block, if it inserts any. -/
def InsertsOnly (block : Block) : NetCall → Prop
  | .insertion _ (.insertRow b) => b = block
  | _ => True

/-- The checks against the chain only read it. -/
theorem only_validateLink (block : Block) :
    (validateLink block).Only fun op => ∀ b, op ≠ .insertBlock b := by
  have hfindTip : ChainProg.findTip.Only fun op => ∀ b, op ≠ .insertBlock b :=
    ⟨by simp, fun _ => trivial⟩
  have hfindBlock : (ChainProg.findBlockByHash block.previousHash).Only fun op =>
      ∀ b, op ≠ .insertBlock b := ⟨by simp, fun _ => trivial⟩
  have hhasBlock : (ChainProg.hasBlock block.hash).Only fun op => ∀ b, op ≠ .insertBlock b :=
    ⟨by simp, fun _ => trivial⟩
  have hduplicate : (refuseDuplicate block).Only fun op => ∀ b, op ≠ .insertBlock b :=
    hhasBlock.bind fun found => by cases found <;> trivial
  refine hfindTip.bind fun tip => ?_
  split
  · exact hduplicate
  · refine hfindBlock.bind fun prevBlock => ?_
    cases prevBlock with
    | none => trivial
    | some prevBlock =>
        dsimp only
        split
        · trivial
        · exact hduplicate

theorem only_onIncomingBlock (host : UserHost) (me : UserPeer) (now : ClockReading) (tick : Tick)
    (block : Block) :
    (atHost host (onIncomingBlock E me now tick block.toJson)).Only (InsertsOnly block) := by
  have hchain : (onIncomingBlock E me now tick block.toJson).Only fun op =>
      ∀ b, op = .insertBlock b → b = block := by
    -- a refused block is not inserted; another one is that of the JSON
    rcases onIncomingBlock_eq (E := E) me now tick block.toJson with
      ⟨error, hash, heq⟩ | ⟨b, hb, -, heq⟩
    · rw [heq]
      trivial
    · rw [Block.ofJson_toJson] at hb
      cases hb
      rw [heq]
      have hreads : (validateLink block).Only fun op => ∀ b, op = .insertBlock b → b = block :=
        (only_validateLink block).imp fun op h b hop => absurd hop (h b)
      refine hreads.bind fun verdict => ?_
      cases verdict with
      | some error => trivial
      | none => exact ⟨fun b hb => (ChainOp.insertBlock.inj hb).symm, fun _ => trivial⟩
  refine hchain.lift fun op hop => ?_
  cases op with
  | findTip => exact ⟨trivial, fun _ => trivial⟩
  | findBlockByHash hash => exact ⟨trivial, fun _ => trivial⟩
  | hasBlock hash => exact ⟨trivial, fun _ => trivial⟩
  | insertBlock b =>
      cases hop b rfl
      -- the one operation that inserts, statement by statement
      have hstatements : (SiblingCheck.insertBlock block).Only fun statement =>
          InsertsOnly block (.insertion host statement) := by
        rw [SiblingCheck.insertBlock]
        split
        · refine ⟨trivial, fun (found : Bool) => ?_⟩
          cases found
          · exact ⟨rfl, fun _ => trivial⟩
          · trivial
        · exact ⟨rfl, fun _ => trivial⟩
      exact hstatements.lift fun statement h => ⟨h, fun _ => trivial⟩

theorem only_storeAndBroadcastBlock (own : UserHost) (found : Found) (peers : List UserPeer)
    (block : Block) :
    (storeAndBroadcastBlock E own found peers block).Only (InsertsOnly block) := by
  have hbroadcast : (broadcast E found block.toJson peers).Only (InsertsOnly block) := by
    induction peers with
    | nil => trivial
    | cons peer peers ih =>
        have hcallback : (sendCallback E found block.toJson peer).Only (InsertsOnly block) := by
          rw [sendCallback]
          cases found peer with
          | none => trivial
          | some node =>
              cases hraw : received block.toJson with
              | none => trivial
              | some jData =>
                  obtain ⟨-, rfl⟩ := received_eq_some.1 hraw
                  refine (only_onIncomingBlock _ _ _ _ block).bind fun response => ?_
                  cases received response <;> trivial
        refine hcallback.bind fun taken => ?_
        cases taken
        · trivial
        · exact ih
  refine hbroadcast.bind fun sent => ?_
  cases sent
  · trivial
  · have hinsert : (insertRow own block).Only (InsertsOnly block) := ⟨rfl, fun _ => trivial⟩
    have hown : (insertOwn own (reached found peers) block).Only (InsertsOnly block) := by
      rw [insertOwn]
      split
      · refine ⟨trivial, fun (found : Bool) => ?_⟩
        cases found
        · exact hinsert
        · trivial
      · exact hinsert
    exact hown

variable (E) in
/-- What is left of a send when its block is made. -/
def afterSigning (own : UserHost) (found : Found) (peers : List UserPeer) (block : Block) :
    NetProg Outcome := do
  let stored ← storeAndBroadcastBlock E own found peers block
  return .sent own (reached found peers) block stored

/-- A send starts, and makes its block over the tip that it reads. -/
theorem reaches_signed {s : Chains} (ts : List (Unit × NetProg Outcome))
    (fs : List (Unit × Outcome)) {cfg : Config} {rnd : Rand} {message : TextMessage}
    (found : Found) (peers : List UserPeer) {block : Block}
    (hsign : signBlock E cfg.privateKey rnd (unsignedBlock E message
      ((ChainDB.findTip (s.table cfg.me.toUserHost)).getD Block.default)) = .ok block) :
    Reaches (networkSystem E S) ⟨s, ts, fs⟩
      ⟨s, ((), afterSigning E cfg.me.toUserHost found peers block) :: ts, fs⟩ := by
  refine .head (.spawn (.send cfg rnd message found peers)) (.head (.call (l := []) trivial) ?_)
  change Reaches _ ⟨s, ((), match signBlock E cfg.privateKey rnd (unsignedBlock E message
    ((ChainDB.findTip (s.table cfg.me.toUserHost)).getD Block.default)) with
    | .error e => .done (.thrown e)
    | .ok block => afterSigning E cfg.me.toUserHost found peers block) :: ts, fs⟩ _
  rw [hsign]
  exact .refl

/-- From there it may run to its end before anybody else moves. -/
theorem reaches_sent {s : Chains} (ts : List (Unit × NetProg Outcome)) (fs : List (Unit × Outcome))
    (own : UserHost) (found : Found) (peers : List UserPeer) {block : Block}
    (hS : block.canonicalBytes ∈ S) :
    Reaches (networkSystem E S) ⟨s, ((), afterSigning E own found peers block) :: ts, fs⟩
      ⟨((storeAndBroadcastBlock E own found peers block).run NetCall.exec s).2, ts,
        ((), .sent own (reached found peers) block
          ((storeAndBroadcastBlock E own found peers block).run NetCall.exec s).1) :: fs⟩ := by
  have honly : (afterSigning E own found peers block).Only (InsertsOnly block) :=
    (only_storeAndBroadcastBlock _ _ _ _).bind fun _ => trivial
  have hallowed : ∀ s t op, InsertsOnly block op → (networkSystem E S).allowed s t op := by
    intro s t op hop
    cases op with
    | insertion host statement =>
        cases statement with
        | selectChild p => trivial
        | insertRow b => exact hop ▸ hS
    | _ => trivial
  obtain ⟨_, hrest⟩ := reaches_alone (S := networkSystem E S) (s := s) (t := ())
    (Permitted.of_only hallowed honly) ts fs
  rw [afterSigning, Prog.run_bind] at hrest
  exact hrest

/-- One peer that finds the block acceptable. -/
theorem storeAndBroadcastBlock_acceptable {s : Chains} {own : UserHost} {found : Found}
    {peer me : UserPeer} {visit : Visit} {block : Block} (hfound : found peer = some (me, visit))
    (hlen : block.toJson.dumpLen ≤ bufferSize - 1)
    (hacc : Acceptable E visit.checked (s.table peer.toUserHost) block)
    (hne : own ≠ peer.toUserHost)
    (hstored : (ChainDB.insertBlock (s.table own) block).2 = true) :
    ((storeAndBroadcastBlock E own found [peer] block).run NetCall.exec s).1 = true ∧
      ((storeAndBroadcastBlock E own found [peer] block).run NetCall.exec s).2.table =
        Function.update (Function.update s.table peer.toUserHost
            (ChainDB.insertBlock (s.table peer.toUserHost) block).1)
          own (ChainDB.insertBlock (s.table own) block).1 := by
  have hraw : received block.toJson = some block.toJson := received_eq_some.2 ⟨hlen, rfl⟩
  have htaken : (onIncomingBlock E me visit.checked visit.tick block.toJson).run ChainOp.exec
      (s.table peer.toUserHost) =
        (.object [], (ChainDB.insertBlock (s.table peer.toUserHost) block).1) := by
    rcases onIncomingBlock_cases me visit.checked visit.tick (s.table peer.toUserHost)
      (Block.ofJson_toJson block) with ⟨-, h⟩ | ⟨hno, -⟩
    · exact h
    · exact absurd hacc hno
  have hbroadcast : (broadcast E found block.toJson [peer]).run NetCall.exec s =
      (true, Chains.put peer.toUserHost s
        (ChainDB.insertBlock (s.table peer.toUserHost) block).1) := by
    have hempty : received (.object []) = some (.object []) :=
      received_eq_some.2 ⟨by decide, rfl⟩
    simp only [broadcast, sendCallback, hfound, hraw, Prog.run_bind, run_atHost, htaken]
    rw [hempty]
    rfl
  rw [storeAndBroadcastBlock, Prog.run_bind, hbroadcast]
  obtain ⟨hown, htable⟩ := insertOwn_run own (reached found [peer]) block
    (Chains.put peer.toUserHost s (ChainDB.insertBlock (s.table peer.toUserHost) block).1)
  have hsame : (Chains.put peer.toUserHost s
      (ChainDB.insertBlock (s.table peer.toUserHost) block).1).table own = s.table own :=
    Function.update_of_ne hne ..
  rw [hsame] at hown htable
  exact ⟨hown.trans hstored, htable⟩

namespace Exchanged

open FirstBlock

/-- Both parties are found by everybody. -/
def found : Found := fun peer => some (peer, SmallNet.visit)

def blocks : Set Bytes := Block.canonicals [block, child, rival]

theorem collisionFree : testEnv.CollisionFree blocks := by
  refine collisionFree_of_nodup (fun b hb => ?_) (by decide)
  simp only [List.mem_cons, List.not_mem_nil, or_false] at hb
  rcases hb with rfl | rfl | rfl
  · exact blockOf_block.authentic
  · exact blockOf_child.authentic
  · exact blockOf_rival.authentic

/-- The chains after the first send. -/
def after : Chains :=
  ((storeAndBroadcastBlock testEnv config.me.toUserHost found [rivalConfig.me] block).run
    NetCall.exec ⟨fun _ => Table.empty, []⟩).2

theorem first_send :
    ((storeAndBroadcastBlock testEnv config.me.toUserHost found [rivalConfig.me] block).run
      NetCall.exec ⟨fun _ => Table.empty, []⟩).1 = true ∧
    after.table config.me.toUserHost = table ∧ after.table rivalConfig.me.toUserHost = table := by
  have hacc : Acceptable testEnv SmallNet.visit.checked Table.empty block := {
    authentic := blockOf_block.authentic
    timely := by decide
    namesTip := Or.inl rfl
    fresh := by simp [ChainDB.loadAllBlocks] }
  have hstored : (ChainDB.insertBlock Table.empty block).2 = true := by
    simp [ChainDB.insertBlock_eq_true, ChainDB.loadAllBlocks]
  have hfound : found rivalConfig.me = some (rivalConfig.me, SmallNet.visit) := rfl
  obtain ⟨htrue, htable⟩ := storeAndBroadcastBlock_acceptable
    (s := ⟨fun _ => Table.empty, []⟩) hfound (by decide +kernel) hacc SmallNet.config_ne_rival
    hstored
  refine ⟨htrue, ?_, ?_⟩
  · rw [after, htable, Function.update_self]
    rfl
  · rw [after, htable, Function.update_of_ne SmallNet.config_ne_rival.symm, Function.update_self]
    rfl

theorem second_send :
    ((storeAndBroadcastBlock testEnv rivalConfig.me.toUserHost found [config.me] rival).run
      NetCall.exec after).1 = true := by
  obtain ⟨-, hown, hrival⟩ := first_send
  have hacc : Acceptable testEnv SmallNet.visit.checked table rival := {
    authentic := blockOf_rival.authentic
    timely := by decide
    namesTip := Or.inl (blockOf_rival.previousHash.trans tipHash_table.symm)
    fresh := by
      intro c hc hhash
      exact absurd (ChainDB.hasBlock_iff.2 ⟨c, hc, hhash⟩) (by simp [hasBlock_rival]) }
  have hstored : (ChainDB.insertBlock table rival).2 = true :=
    hacc.insertBlock (validateLocalChain_eq_true.1 valid_table)
  have hfound : found config.me = some (config.me, SmallNet.visit) := rfl
  refine (storeAndBroadcastBlock_acceptable hfound (by decide +kernel) ?_
    SmallNet.config_ne_rival.symm ?_).1
  · rw [hown]
    exact hacc
  · rw [hrival]
    exact hstored

/-- The first block is sent.  Then both ends make a block over it, before either has sent its own;
the second one sends first. -/
theorem reaches_exchanged : ∃ (c : Pool NetCall NetCall.Res Chains Unit Outcome) (stored : Bool),
    Reaches (networkSystem testEnv blocks) ⟨⟨fun _ => Table.empty, []⟩, [], []⟩ c ∧
      ((), .sent config.me.toUserHost [rivalConfig.me.toUserHost] block true) ∈ c.finished ∧
      ((), .sent rivalConfig.me.toUserHost [config.me.toUserHost] rival true) ∈ c.finished ∧
      ((), .sent config.me.toUserHost [rivalConfig.me.toUserHost] child stored) ∈ c.finished := by
  obtain ⟨hfirst, hown, hrival⟩ := first_send
  have hmem : ∀ b ∈ [block, child, rival], b.canonicalBytes ∈ blocks := fun b hb => ⟨b, hb, rfl⟩
  have hblock := (reaches_signed (E := testEnv) (S := blocks) (s := ⟨fun _ => Table.empty, []⟩)
    [] [] found [rivalConfig.me] signBlock_block).trans
      (reaches_sent [] [] _ _ _ (hmem block (by simp)))
  rw [hfirst] at hblock
  have hsignChild : signBlock testEnv config.privateKey 0 (unsignedBlock testEnv
      (TextMessage.create (tick "m2") config.me rivalConfig.me [97])
        ((ChainDB.findTip (after.table config.me.toUserHost)).getD Block.default)) =
          .ok child := by
    rw [hown, findTip_table]
    exact signBlock_child
  have hsignRival : signBlock testEnv rivalConfig.privateKey 0 (unsignedBlock testEnv
      (TextMessage.create (tick "m3") rivalConfig.me config.me [98])
        ((ChainDB.findTip (after.table rivalConfig.me.toUserHost)).getD Block.default)) =
          .ok rival := by
    rw [hrival, findTip_table]
    exact signBlock_rival
  -- now two sends are under way with a block over the same parent
  have hboth := (reaches_signed (E := testEnv) (S := blocks) []
    [((), .sent config.me.toUserHost [rivalConfig.me.toUserHost] block true)] found
    [rivalConfig.me] hsignChild).trans (reaches_signed _ _ found [config.me] hsignRival)
  have hends := (reaches_sent (E := testEnv) (S := blocks) (s := after)
    [((), afterSigning testEnv config.me.toUserHost found [rivalConfig.me] child)]
    [((), .sent config.me.toUserHost [rivalConfig.me.toUserHost] block true)]
    rivalConfig.me.toUserHost found [config.me] (hmem rival (by simp))).trans
      (reaches_sent [] _ _ _ _ (hmem child (by simp)))
  rw [second_send] at hends
  exact ⟨_, _, (hblock.trans hboth).trans hends,
    List.mem_cons_of_mem _ (List.mem_cons_of_mem _ (List.mem_cons_self ..)),
    List.mem_cons_of_mem _ (List.mem_cons_self ..), List.mem_cons_self ..⟩

end Exchanged

/-- Two sends over one parent meet, and the block of one of them is not stored. -/
theorem commits_never_conflict_exchanged :
    ∃ c : Pool NetCall NetCall.Res Chains Unit Outcome,
      Reaches (networkSystem testEnv Exchanged.blocks) ⟨⟨fun _ => Table.empty, []⟩, [], []⟩ c ∧
      ((), .sent FirstBlock.rivalConfig.me.toUserHost [FirstBlock.config.me.toUserHost]
        FirstBlock.rival true) ∈ c.finished ∧
      ((), .sent FirstBlock.config.me.toUserHost [FirstBlock.rivalConfig.me.toUserHost]
        FirstBlock.child false) ∈ c.finished ∧
      (FirstBlock.rival.previousHash = "0" ∨
        FirstBlock.rival.previousHash ≠ FirstBlock.block.previousHash) := by
  obtain ⟨c, stored, hrun, hblock, hrival, hchild⟩ := Exchanged.reaches_exchanged
  have hparents : ∀ {b}, ((), .sent FirstBlock.config.me.toUserHost
      [FirstBlock.rivalConfig.me.toUserHost] b true) ∈ c.finished →
        FirstBlock.rival.previousHash = "0" ∨ FirstBlock.rival.previousHash ≠ b.previousHash :=
    fun hb => commits_never_conflict Exchanged.collisionFree (fun _ => rfl)
      (by rintro _ _ ⟨b, hb, _⟩; cases hb) hrun hrival hb SmallNet.config_ne_rival.symm
      (List.mem_singleton_self _) (List.mem_singleton_self _)
  refine ⟨c, hrun, hrival, ?_, hparents hblock⟩
  cases stored with
  | false => exact hchild
  | true =>
      -- the parents are the same
      rcases hparents hchild with hroot | hother
      · exact absurd hroot (by decide)
      · exact absurd rfl hother

end Contention
end Network
end DChat
