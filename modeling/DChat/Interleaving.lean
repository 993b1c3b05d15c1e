import DChat.ChainValidity

/-!
# Interleaving — one chain, two threads

The server thread takes in blocks while the input thread sends messages, and both work on one
chain through atomic `ChainDB` calls.  `nodeSystem` lets any number of sends and incoming blocks
be under way at once, stopped between any two of their calls.

Along every run the table only grows.  The rest rests on what a thread has seen when it read
the tip:

* a block whose parent is stored, and that finds no sibling when it is inserted, extends the
  tip, so a valid chain stays valid;
* the last row has no child, so a block that extends the tip is only refused when a sibling was
  stored after the tip was read.
-/

namespace DChat
namespace Blockchain
namespace Interleaving

open Utils Crypto Peer Messaging KeyedTable AtomicProg LinkedChain BlockchainService

/-! ## The threads -/

/-- Whose call it is: the input thread's, or the server thread's while it handles a request.
For the latter, `seen` is the number of rows at its last `findTip`. -/
inductive Caller
  | input
  | server (jData : Json) (seen : Nat)

/-- What a thread ends with. -/
inductive Outcome
  | sent (stored : Except Exn Bool)
  | answered (response : Json)

/-- The auxiliary update of the caller. -/
def note : Caller → ChainOp → BlockTable → Caller
  | .server jData _, .findTip, t => .server jData t.data.length
  | who, _, _ => who

@[simp] theorem note_input (op : ChainOp) (t : BlockTable) : note .input op t = .input := rfl

theorem note_findTip (jData : Json) (seen : Nat) (t : BlockTable) :
    note (.server jData seen) .findTip t = .server jData t.data.length := rfl

variable (E : Env) (cfg : Config)

/-- The calls of one `sendSecretMessage`: the block is created, offered to the peers, and stored
when they all took it. -/
def localSend (rnd : Rand) (message : TextMessage) (sent : Bool) : ChainProg Outcome := do
  match ← createBlockFromMessage E cfg.privateKey rnd message with
  | .error e => return .sent (.error e)
  | .ok block =>
      let stored ← storeBlock sent block
      return .sent (.ok stored)

/-- The calls of one request that carries a block. -/
def incoming (now : ClockReading) (tick : Tick) (jData : Json) : ChainProg Outcome := do
  let response ← onIncomingBlock E cfg.me now tick jData
  return .answered response

/-- The threads that may start: sends of the node's own messages, and requests that are
`accepted`. -/
inductive Starts (accepted : Json → Prop) : Caller → ChainProg Outcome → Prop
  | send (tick : Tick) (toPeer : UserPeer) (text : Bytes) (rnd : Rand) (sent : Bool) :
      Starts accepted .input (localSend E cfg rnd (TextMessage.create tick cfg.me toPeer text) sent)
  | receive (now : ClockReading) (tick : Tick) (jData : Json) : accepted jData →
      Starts accepted (.server jData 0) (incoming E cfg now tick jData)

/-- The node as a system of threads. -/
def nodeSystem (accepted : Json → Prop) (allowed : BlockTable → Caller → ChainOp → Prop) :
    System ChainOp ChainOp.Res BlockTable Caller Outcome where
  exec := ChainOp.exec
  note := note
  spawn := Starts E cfg accepted
  allowed := allowed

variable {E cfg} {accepted : Json → Prop} {allowed : BlockTable → Caller → ChainOp → Prop}
  {R : Rely BlockTable} {β : Type}

/-! ## One call at a time -/

section Calls

variable {post : BlockTable → Caller → β → Prop} {s : BlockTable} {who : Caller}

theorem secure_findTip {f : Block → ChainProg β}
    (h : ∀ s', R.moves s s' → R.inv s' → Secure (nodeSystem E cfg accepted allowed) R post s'
      (note who .findTip s') (f ((ChainDB.findTip s').getD Block.default))) :
    Secure (nodeSystem E cfg accepted allowed) R post s who (ChainProg.findTip >>= f) :=
  Secure.read (fun _ => rfl) h

theorem secure_findBlockByHash {hash : String} {f : Option Block → ChainProg β}
    (h : ∀ s', R.moves s s' → R.inv s' → Secure (nodeSystem E cfg accepted allowed) R post s'
      who (f (ChainDB.findBlockByHash s' hash))) :
    Secure (nodeSystem E cfg accepted allowed) R post s who
      (ChainProg.findBlockByHash hash >>= f) := by
  refine Secure.read (fun _ => rfl) fun s' hm hinv => ?_
  cases who <;> exact h s' hm hinv

theorem secure_hasBlock {hash : String} {f : Bool → ChainProg β}
    (h : ∀ s', R.moves s s' → R.inv s' → Secure (nodeSystem E cfg accepted allowed) R post s'
      who (f (ChainDB.hasBlock s' hash))) :
    Secure (nodeSystem E cfg accepted allowed) R post s who (ChainProg.hasBlock hash >>= f) := by
  refine Secure.read (fun _ => rfl) fun s' hm hinv => ?_
  cases who <;> exact h s' hm hinv

theorem secure_insertBlock {block : Block} {f : Bool → ChainProg β}
    (h : ∀ s', R.moves s s' → R.inv s' → allowed s' who (.insertBlock block) →
      R.inv (ChainDB.insertBlock s' block).1 ∧ R.moves s' (ChainDB.insertBlock s' block).1 ∧
        Secure (nodeSystem E cfg accepted allowed) R post (ChainDB.insertBlock s' block).1 who
          (f (ChainDB.insertBlock s' block).2)) :
    Secure (nodeSystem E cfg accepted allowed) R post s who
      (ChainProg.insertBlock block >>= f) := by
  intro s' hm hinv hok
  cases who <;> exact h s' hm hinv hok

end Calls

/-! ## What a thread has seen of the chain -/

/-- The parent of the block was the tip of the earlier chain `t`: as it stands, or, for a parent
that the database cuts at a NUL, by its stored form. -/
def NamesTip (t later : BlockTable) (block : Block) : Prop :=
  block.previousHash = tipHash t ∨
    cString block.previousHash = tipHash t ∧ ∃ c ∈ ChainDB.loadAllBlocks later, c.hash = tipHash t

/-- What a thread knows once its block has passed `validateIncomingBlock`. -/
def Validated (R : Rely BlockTable) (jData : Json) (block : Block) (s : BlockTable)
    (who : Caller) : Prop :=
  ∃ s₁ s₂, R.inv s₁ ∧ R.moves s₁ s₂ ∧ R.moves s₂ s ∧ who = .server jData s₁.data.length ∧
    NamesTip s₁ s₂ block

theorem secure_refuseDuplicate {s₁ s₂ : BlockTable} {jData : Json} {block : Block}
    (hinv : R.inv s₁) (hm : R.moves s₁ s₂) (hnames : NamesTip s₁ s₂ block) :
    Secure (nodeSystem E cfg accepted allowed) R
      (fun s who r => r = none → Validated R jData block s who)
      s₂ (.server jData s₁.data.length) (refuseDuplicate block) := by
  refine secure_hasBlock fun s₃ hm₃ _ => ?_
  have hdone : ∀ r : Option String, Secure (nodeSystem E cfg accepted allowed) R
      (fun s who r => r = none → Validated R jData block s who)
      s₃ (.server jData s₁.data.length) (.done r) := fun r s₄ hm₄ _ _ =>
    ⟨s₁, s₂, hinv, hm, R.moves_trans hm₃ hm₄, rfl, hnames⟩
  cases ChainDB.hasBlock s₃ block.hash with
  | true => exact hdone _
  | false => exact hdone _

/-- A block that passes the checks against the chain names the tip its thread has seen. -/
theorem secure_validateLink {t : BlockTable} {jData : Json} {seen : Nat} {block : Block} :
    Secure (nodeSystem E cfg accepted allowed) R
      (fun s who r => r = none → Validated R jData block s who)
      t (.server jData seen) (validateLink block) := by
  -- the tip is read in one table and the parent looked up in a later one
  refine secure_findTip fun s₁ _ hinv₁ => ?_
  rw [findTip_hash, note_findTip]
  by_cases hprev : block.previousHash = tipHash s₁
  · rw [if_pos hprev]
    exact secure_refuseDuplicate hinv₁ (R.moves_refl _) (Or.inl hprev)
  · rw [if_neg hprev]
    refine secure_findBlockByHash fun s₂ hm₂ _ => ?_
    -- a refusal promises nothing, so every error closes the same way
    have hrefused : ∀ error : String, Secure (nodeSystem E cfg accepted allowed) R
        (fun s who r => r = none → Validated R jData block s who)
        s₂ (.server jData s₁.data.length) (.done (some error)) :=
      fun error _ _ _ h => absurd h (by simp)
    cases hfind : ChainDB.findBlockByHash s₂ block.previousHash with
    | none => exact hrefused _
    | some prevBlock =>
        obtain ⟨hmem, hhash⟩ := ChainDB.findBlockByHash_some hfind
        -- the source's fork test: the parent's own hash against the tip just read
        by_cases hfork : prevBlock.hash = tipHash s₁
        · have hnames : NamesTip s₁ s₂ block :=
            Or.inr ⟨hhash.symm.trans hfork, prevBlock, hmem, hfork⟩
          simpa [hfork] using secure_refuseDuplicate hinv₁ hm₂ hnames
        · simpa [hfork] using hrefused _

/-- The calls made for an authentic and timely block. -/
theorem incoming_eq {now : ClockReading} {tick : Tick} {jData : Json} {block : Block}
    (hblock : Block.ofJson jData = .ok block) (hsingle : Authentic E block)
    (htime : ¬ getTimestamp now + 300000 < block.timestamp) :
    incoming E cfg now tick jData = (validateLink block >>= fun r =>
      match r with
      | some error => .done (.answered (refusal cfg.me tick error block.hash))
      | none => do
          let _stored ← ChainProg.insertBlock block
          return .answered (.object [])) := by
  rw [Authentic] at hsingle
  simp only [incoming, onIncomingBlock, validateIncomingBlock, hblock, hsingle, htime, if_false,
    Prog.bind_assoc, Prog.pure_def, Prog.done_bind]
  congr 1
  funext r
  cases r <;> rfl

/-- How a request with a block stays secure: a refusal satisfies `post`, and so does the
insertion of an authentic, timely and validated block. -/
theorem secure_incoming {post : BlockTable → Caller → Outcome → Prop} {t : BlockTable}
    {now : ClockReading} {tick : Tick} {jData : Json} {seen : Nat}
    (hrefused : ∀ s who j, j ≠ .object [] → post s who (.answered j))
    (hstore : ∀ block s who, Block.ofJson jData = .ok block → Authentic E block →
      ¬ getTimestamp now + 300000 < block.timestamp → R.inv s → Validated R jData block s who →
      Secure (nodeSystem E cfg accepted allowed) R post s who
        (do let _stored ← ChainProg.insertBlock block; return .answered (.object []))) :
    Secure (nodeSystem E cfg accepted allowed) R post t (.server jData seen)
      (incoming E cfg now tick jData) := by
  have hrefusal : ∀ s who error hash, Secure (nodeSystem E cfg accepted allowed) R post s who
      (.done (.answered (refusal cfg.me tick error hash)) : ChainProg Outcome) :=
    fun s who error hash s' _ _ => hrefused s' who _ (refusal_ne_empty _ _ _ _)
  -- the three checks that read no table come first and refuse alike
  cases hblock : Block.ofJson jData with
  | error e => simpa [incoming, onIncomingBlock, hblock] using hrefusal _ _ _ _
  | ok block =>
      cases hsingle : validateSingleBlock E block with
      | error e =>
          simpa [incoming, onIncomingBlock, validateIncomingBlock, hblock, hsingle] using
            hrefusal _ _ _ _
      | ok single =>
          cases single with
          | some error =>
              simpa [incoming, onIncomingBlock, validateIncomingBlock, hblock, hsingle] using
                hrefusal _ _ _ _
          | none =>
              by_cases htime : getTimestamp now + 300000 < block.timestamp
              · simpa [incoming, onIncomingBlock, validateIncomingBlock, hblock, hsingle, htime]
                  using hrefusal _ _ _ _
              · -- from here on the table is read, and another thread may have moved it
                rw [incoming_eq hblock hsingle htime]
                refine secure_validateLink.bind fun s who r _ hinv hvalidated => ?_
                cases r with
                | some error => exact hrefusal _ _ _ _
                | none => exact hstore block s who hblock hsingle htime hinv (hvalidated rfl)

/-- How a send stays secure: its result satisfies `post`, whatever it is, and so does the
insertion of the block that was made over the tip it has seen. -/
theorem secure_localSend {post : BlockTable → Caller → Outcome → Prop} {t : BlockTable}
    {rnd : Rand} {message : TextMessage} {sent : Bool} (hpost : ∀ s r, post s .input (.sent r))
    (hstore : ∀ s block, R.inv s → signBlock E cfg.privateKey rnd
        (unsignedBlock E message ((ChainDB.findTip s).getD Block.default)) = .ok block →
      Secure (nodeSystem E cfg accepted allowed) R post s .input
        (do let stored ← ChainProg.insertBlock block; return .sent (.ok stored))) :
    Secure (nodeSystem E cfg accepted allowed) R post t .input
      (localSend E cfg rnd message sent) := by
  rw [localSend, createBlockFromMessage, Prog.bind_assoc]
  refine secure_findTip fun s _ hinv => ?_
  simp only [Prog.pure_def, Prog.done_bind, note_input]
  cases hsign : signBlock E cfg.privateKey rnd
      (unsignedBlock E message ((ChainDB.findTip s).getD Block.default)) with
  | error e => exact fun s' _ _ => hpost s' _
  | ok block =>
      cases sent with
      | false => exact fun s' _ _ => hpost s' _
      | true => exact hstore s block hinv hsign

/-! ## Runs, call by call -/

section Runs

variable {t : BlockTable} {who : Caller} {ts : List (Caller × ChainProg Outcome)}
  {fs : List (Caller × Outcome)}

theorem step_findTip {f : Block → ChainProg Outcome} (hok : allowed t who .findTip) :
    Step (nodeSystem E cfg accepted allowed) ⟨t, (who, ChainProg.findTip >>= f) :: ts, fs⟩
      ⟨t, (note who .findTip t, f ((ChainDB.findTip t).getD Block.default)) :: ts, fs⟩ :=
  .call (l := []) hok

theorem step_hasBlock {hash : String} {f : Bool → ChainProg Outcome}
    (hok : allowed t who (.hasBlock hash)) :
    Step (nodeSystem E cfg accepted allowed) ⟨t, (who, ChainProg.hasBlock hash >>= f) :: ts, fs⟩
      ⟨t, (who, f (ChainDB.hasBlock t hash)) :: ts, fs⟩ := by
  cases who <;> exact .call (l := []) hok

theorem step_insertBlock {block : Block} {f : Bool → ChainProg Outcome}
    (hok : allowed t who (.insertBlock block)) :
    Step (nodeSystem E cfg accepted allowed)
      ⟨t, (who, ChainProg.insertBlock block >>= f) :: ts, fs⟩
      ⟨(ChainDB.insertBlock t block).1,
        (who, f (ChainDB.insertBlock t block).2) :: ts, fs⟩ := by
  cases who <;> exact .call (l := []) hok

theorem step_finish {r : Outcome} :
    Step (nodeSystem E cfg accepted allowed) ⟨t, (who, .done r) :: ts, fs⟩
      ⟨t, ts, (who, r) :: fs⟩ :=
  .finish (l := [])

/-- A request with a fresh block over the tip runs up to its insertion. -/
theorem reaches_validated (now : ClockReading) (tick : Tick) {jData : Json} {block : Block}
    (hacc : accepted jData) (hblock : Block.ofJson jData = .ok block)
    (hauth : Authentic E block) (htime : ¬ getTimestamp now + 300000 < block.timestamp)
    (htip : block.previousHash = tipHash t) (hfresh : ChainDB.hasBlock t block.hash = false)
    (hread : ∀ who op, (∀ b, op ≠ .insertBlock b) → allowed t who op) :
    Reaches (nodeSystem E cfg accepted allowed) ⟨t, ts, fs⟩
      ⟨t, (.server jData t.data.length, do
        let _stored ← ChainProg.insertBlock block
        return .answered (.object [])) :: ts, fs⟩ := by
  refine .head (.spawn (.receive now tick jData hacc)) ?_
  rw [incoming_eq hblock hauth htime, validateLink, Prog.bind_assoc]
  refine .head (step_findTip (hread _ _ (by simp))) ?_
  rw [findTip_hash, if_pos htip, note_findTip, refuseDuplicate, Prog.bind_assoc]
  refine .head (step_hasBlock (hread _ _ (by simp))) ?_
  rw [hfresh]
  exact .refl

/-- A send whose peers all take the block runs to its end. -/
theorem reaches_sent {tick : Tick} {toPeer : UserPeer} {text : Bytes} {rnd : Rand}
    {block : Block} (hsign : signBlock E cfg.privateKey rnd (unsignedBlock E
      (TextMessage.create tick cfg.me toPeer text) ((ChainDB.findTip t).getD Block.default)) =
        .ok block) (hok : ∀ op, allowed t .input op) :
    Reaches (nodeSystem E cfg accepted allowed) ⟨t, ts, fs⟩
      ⟨(ChainDB.insertBlock t block).1, ts,
        (.input, .sent (.ok (ChainDB.insertBlock t block).2)) :: fs⟩ := by
  refine .head (.spawn (.send tick toPeer text rnd true)) ?_
  rw [localSend, createBlockFromMessage, Prog.bind_assoc]
  refine .head (step_findTip (hok _)) ?_
  simp only [Prog.pure_def, Prog.done_bind, hsign, note_input, storeBlock, if_true]
  exact .head (step_insertBlock (hok _)) (.single step_finish)

/-- The insertion and the answer. -/
theorem reaches_answered {block : Block} (hok : allowed t who (.insertBlock block)) :
    Reaches (nodeSystem E cfg accepted allowed)
      ⟨t, (who, do
        let _stored ← ChainProg.insertBlock block
        return .answered (.object [])) :: ts, fs⟩
      ⟨(ChainDB.insertBlock t block).1, ts, (who, .answered (.object [])) :: fs⟩ :=
  .head (step_insertBlock hok) (.single step_finish)

end Runs

/-! The node of the author of the first block stores its own second block, and a peer has sent
a rival one.  When the rival is validated before the node's own block is stored, its insertion
comes too late. -/

namespace Race

open FirstBlock

/-- The rival block is validated on the chain of the first block. -/
theorem reaches_validated_rival (hacc : accepted rival.toJson)
    (hread : ∀ who op, (∀ b, op ≠ .insertBlock b) → allowed table who op) :
    Reaches (nodeSystem testEnv config accepted allowed) ⟨table, [], []⟩
      ⟨table, [(.server rival.toJson table.data.length, do
        let _stored ← ChainProg.insertBlock rival
        return .answered (.object []))], []⟩ := by
  have htip : rival.previousHash = tipHash table :=
    blockOf_rival.previousHash.trans tipHash_table.symm
  exact reaches_validated now (tick "e1") hacc (Block.ofJson_toJson _) blockOf_rival.authentic
    (by decide) htip hasBlock_rival hread

theorem signBlock_child_table : signBlock testEnv config.privateKey 0 (unsignedBlock testEnv
    (TextMessage.create (tick "m2") config.me rivalConfig.me [97])
      ((ChainDB.findTip table).getD Block.default)) = .ok child := by
  rw [findTip_table]
  exact signBlock_child

/-- The chain after both insertions. -/
def after : BlockTable :=
  (ChainDB.insertBlock (ChainDB.insertBlock table child).1 rival).1

/-- Both blocks are handled to the end, the node's own in between. -/
theorem reaches_both (hacc : accepted rival.toJson) :
    Reaches (nodeSystem testEnv config accepted fun _ _ _ => True) ⟨table, [], []⟩
      ⟨after, [],
        [(.server rival.toJson table.data.length, .answered (.object [])),
          (.input, .sent (.ok (ChainDB.insertBlock table child).2))]⟩ :=
  ((reaches_validated_rival hacc fun _ _ _ => trivial).trans
    (reaches_sent signBlock_child_table fun _ => trivial)).trans (reaches_answered trivial)

end Race

/-! ## Chains stay valid -/

/-- The chain is valid and not empty, and only grows. -/
def validRely (E : Env) : Rely BlockTable where
  inv t := ValidBlocks E (ChainDB.loadAllBlocks t) ∧ ChainDB.loadAllBlocks t ≠ []
  moves t t' := t.data <+: t'.data
  moves_refl := ChainDB.grows_refl
  moves_trans := @ChainDB.grows_trans

/-- The string fields of the block in the request, if it has one, are free of NUL. -/
def NulFree (jData : Json) : Prop :=
  ∀ block, Block.ofJson jData = .ok block → NoNul block.previousHash ∧ NoNul block.payloadHash ∧
    NoNul block.authorPublicKey ∧ NoNul block.signature

/-- The insertion of a block whose parent was stored at some time. -/
theorem secure_insert_valid {post : BlockTable → Caller → Outcome → Prop} {s : BlockTable}
    {who : Caller} {block : Block} {f : Bool → Outcome} (hpost : ∀ s who r, post s who r)
    (hauth : Authentic E block) (hstorable : block.Storable)
    (hparent : ∃ c ∈ ChainDB.loadAllBlocks s, c.hash = block.previousHash) :
    Secure (nodeSystem E cfg accepted allowed) (validRely E) post s who
      (ChainProg.insertBlock block >>= fun stored => .done (f stored)) := by
  refine secure_insertBlock fun s' hm hinv _ => ?_
  obtain ⟨c, hc, hpar⟩ := hparent
  have hc' : c ∈ ChainDB.loadAllBlocks s' := (ChainDB.loadAllBlocks_prefix hm).subset hc
  have hgrow := ChainDB.data_prefix_insertBlock s' block
  have hne : ChainDB.loadAllBlocks (ChainDB.insertBlock s' block).1 ≠ [] :=
    List.ne_nil_of_mem ((ChainDB.loadAllBlocks_prefix hgrow).subset hc')
  exact ⟨⟨hinv.1.insertBlock hauth hstorable ⟨c, hc', hpar⟩, hne⟩, hgrow,
    fun _ _ _ => hpost _ _ _⟩

/-- In a chain that is valid and not empty, the tip is the hash of a stored block. -/
theorem validRely.tip_stored {t : BlockTable} (h : (validRely E).inv t) :
    ∃ c ∈ ChainDB.loadAllBlocks t, c.hash = tipHash t := tip_mem _ _ h.2

theorem secure_starts_valid (laws : E.crypto.SignatureLaws) (hkeys : cfg.KeyPairMatches E)
    {s : BlockTable} {who : Caller} {p : ChainProg Outcome} (h : Starts E cfg NulFree who p) :
    Secure (nodeSystem E cfg NulFree allowed) (validRely E) (fun _ _ _ => True) s who p := by
  cases h with
  | send tick toPeer text rnd sent =>
      refine secure_localSend (fun _ _ => trivial) ?_
      intro s' block hinv hsign
      have hauthor : (TextMessage.create tick cfg.me toPeer text).fromPeer.publicKey =
          cfg.publicKey := rfl
      have hof := blockOf_of_signBlock laws hkeys hauthor hsign
      have htip : block.previousHash = tipHash s' := hof.previousHash.trans (findTip_hash s')
      have hnul : NoNul ((ChainDB.findTip s').getD Block.default).hash :=
        (findTip_hash s').symm ▸ hinv.1.noNul_tip
      have hstorable : block.Storable := by
        have htime := getTimestamp_lt tick.now
        exact hof.storable hnul (show (getTimestamp tick.now).toNat < 2 ^ 63 by omega)
      exact secure_insert_valid (fun _ _ _ => trivial) hof.authentic hstorable
        (htip ▸ validRely.tip_stored hinv)
  | receive now tick jData hnul =>
      refine secure_incoming (fun _ _ _ _ => trivial) ?_
      intro block s' who' hblock hauth htime _ ⟨s₁, s₂, hinv₁, hm₁, hm₂, _, hnames⟩
      obtain ⟨hprev, hpayload, hauthor, hsig⟩ := hnul block hblock
      have hstorable : block.Storable := by
        refine ⟨hauth.noNul_hash, hprev, hpayload, hauthor, hsig, ?_⟩
        have hclock := now.representable
        rw [UInt64.lt_iff_toNat_lt, toNat_getTimestamp_add] at htime
        omega
      -- without a NUL there is only one way to name the tip
      have htip : block.previousHash = tipHash s₁ := by
        rcases hnames with h | ⟨h, _⟩
        · exact h
        · rwa [cString_of_noNul hprev] at h
      obtain ⟨c, hc, hhash⟩ := validRely.tip_stored hinv₁
      have hgrow := ChainDB.loadAllBlocks_prefix (hm₁.trans hm₂)
      exact secure_insert_valid (fun _ _ _ => trivial) hauth hstorable
        ⟨c, hgrow.subset hc, hhash.trans htip.symm⟩

/-- From a valid chain that is not empty, every interleaving of sends and incoming blocks keeps
the chain valid, its hashes unique, and what was stored in place. -/
theorem chain_stays_valid (laws : E.crypto.SignatureLaws) (hkeys : cfg.KeyPairMatches E)
    {t : BlockTable} (hne : ChainDB.loadAllBlocks t ≠ [])
    (hvalid : validateLocalChain E t = .ok true)
    {c : Pool ChainOp ChainOp.Res BlockTable Caller Outcome}
    (hrun : Reaches (nodeSystem E cfg NulFree fun _ _ _ => True) ⟨t, [], []⟩ c) :
    validateLocalChain E c.shared = .ok true ∧
      ((ChainDB.loadAllBlocks c.shared).map Block.hash).Nodup ∧
      ChainDB.loadAllBlocks t <+: ChainDB.loadAllBlocks c.shared := by
  have hinit : (validRely E).inv t := ⟨validateLocalChain_eq_true.1 hvalid, hne⟩
  obtain ⟨hholds, hmoves⟩ :=
    (Holds.initial hinit).reachable (fun _ h => secure_starts_valid laws hkeys h) hrun
  exact ⟨validateLocalChain_eq_true.2 hholds.shared.1, ChainDB.hashes_nodup _,
    ChainDB.loadAllBlocks_prefix hmoves⟩

theorem chain_stays_valid_race : validateLocalChain testEnv Race.after = .ok true := by
  have hne : ChainDB.loadAllBlocks FirstBlock.table ≠ [] := by
    simp [FirstBlock.loadAllBlocks_table]
  have hnul : NulFree FirstBlock.rival.toJson := by
    intro block hblock
    have hrival := Except.ok.inj ((Block.ofJson_toJson _).symm.trans hblock)
    rw [← hrival]
    have hrival := FirstBlock.storable_rival
    exact ⟨hrival.previousHash, hrival.payloadHash, hrival.authorPublicKey, hrival.signature⟩
  have hrun := chain_stays_valid XORCrypto.signatureLaws FirstBlock.keyPairMatches hne
    FirstBlock.valid_table (Race.reaches_both hnul)
  have hvalid := hrun.1
  dsimp only at hvalid
  exact hvalid

/-! ## Acknowledged blocks -/

/-- Every block was stored under the marker or under a stored block, and no stored hash is cut
by the database or equal to the marker. -/
def groundedRely : Rely BlockTable where
  inv t := Grounded Block.hash Block.previousHash "0" (ChainDB.loadAllBlocks t) ∧
    ∀ c ∈ ChainDB.loadAllBlocks t, NoNul c.hash ∧ c.hash ≠ "0"
  moves t t' := t.data <+: t'.data
  moves_refl := ChainDB.grows_refl
  moves_trans := @ChainDB.grows_trans

namespace groundedRely

/-- The tip is the marker of an empty chain or the hash of a stored block. -/
theorem tip_cases {t : BlockTable} :
    ChainDB.loadAllBlocks t = [] ∧ tipHash t = "0" ∨
      ChainDB.loadAllBlocks t ≠ [] ∧ ∃ c ∈ ChainDB.loadAllBlocks t, c.hash = tipHash t := by
  by_cases hne : ChainDB.loadAllBlocks t = []
  · exact Or.inl ⟨hne, by rw [tipHash, hne, tip_nil]⟩
  · exact Or.inr ⟨hne, tip_mem _ _ hne⟩

theorem cString_tip {t : BlockTable} (h : groundedRely.inv t) :
    cString (tipHash t) = tipHash t := by
  rcases tip_cases (t := t) with ⟨_, htip⟩ | ⟨_, c, hc, htip⟩
  · rw [htip]
    decide
  · rw [← htip]
    exact cString_of_noNul (h.2 c hc).1

theorem insertBlock {t : BlockTable} {block : Block} (h : groundedRely.inv t)
    (hhash : block.hash = E.sha256 block.canonicalBytes)
    (hparent : cString block.previousHash = "0" ∨
      ∃ c ∈ ChainDB.loadAllBlocks t, c.hash = cString block.previousHash) :
    groundedRely.inv (ChainDB.insertBlock t block).1 := by
  cases hstored : (ChainDB.insertBlock t block).2 with
  | false =>
      rw [ChainDB.insertBlock_of_false hstored]
      exact h
  | true =>
      have hload := ChainDB.loadAllBlocks_insertBlock hstored
      refine ⟨hload ▸ h.1.concat hparent, fun c hc => ?_⟩
      rcases List.mem_append.1 (hload ▸ hc) with hold | hnew
      · exact h.2 c hold
      · obtain rfl := List.mem_singleton.1 hnew
        -- the stored row is read back through SQLite, which keeps a hash without NUL
        have hrow : (BlockRow.ofBlock block).toBlock.hash = E.sha256 block.canonicalBytes := by
          rw [BlockRow.toBlock_hash, BlockRow.ofBlock_hash, hhash, DbText.text_bind,
            cString_of_noNul (E.noNul_sha256 _)]
        rw [hrow]
        exact ⟨E.noNul_sha256 _, E.sha256_ne_zero _⟩

/-- A block that names the tip of an earlier chain has its parent in the present one. -/
theorem parent_stored {s₁ s₂ s : BlockTable} {block : Block} (h₁ : groundedRely.inv s₁)
    (hm₁ : s₁.data <+: s₂.data) (hm₂ : s₂.data <+: s.data) (hnames : NamesTip s₁ s₂ block) :
    cString block.previousHash = "0" ∨
      ∃ c ∈ ChainDB.loadAllBlocks s, c.hash = cString block.previousHash := by
  rcases hnames with hprev | ⟨hprev, c, hc, hhash⟩
  · rw [hprev, cString_tip h₁]
    rcases tip_cases (t := s₁) with ⟨_, htip⟩ | ⟨_, c, hc, htip⟩
    · exact Or.inl htip
    · exact Or.inr ⟨c, (ChainDB.loadAllBlocks_prefix (hm₁.trans hm₂)).subset hc, htip⟩
  · rw [hprev]
    exact Or.inr ⟨c, (ChainDB.loadAllBlocks_prefix hm₂).subset hc, hhash⟩

/-- The rows a thread has seen hold no child of the tip they end in. -/
theorem childless {s₁ s₂ : BlockTable} {block : Block} (h₁ : groundedRely.inv s₁)
    (hnames : NamesTip s₁ s₂ block) :
    ∀ c ∈ ChainDB.loadAllBlocks s₁, c.previousHash ≠ cString block.previousHash := by
  have hroot : ∀ c ∈ ChainDB.loadAllBlocks s₁, c.hash ≠ "0" := fun c hc => (h₁.2 c hc).2
  rcases tip_cases (t := s₁) with ⟨hempty, htip⟩ | ⟨hstored, _⟩
  · -- an empty chain has no tip to name, and nothing to be a child
    simp [hempty]
  · have hprev : cString block.previousHash = tipHash s₁ := by
      rcases hnames with hprev | ⟨hprev, _⟩
      · rw [hprev, cString_tip h₁]
      · exact hprev
    rw [hprev]
    exact h₁.1.parent_ne_tip (ChainDB.hashes_nodup s₁) hroot hstored

end groundedRely

/-- No sibling of the block was stored since the calling server thread read the tip, or the
block itself was stored meanwhile; first blocks have no siblings to fear. -/
def NoSiblingSince (s : BlockTable) : Caller → ChainOp → Prop
  | .server _ seen, .insertBlock block =>
      ChainDB.hasBlock s block.hash = true ∨ block.previousHash = "0" ∨
        ∀ r ∈ s.data.drop seen, r.previousHash ≠ .bind block.previousHash
  | _, _ => True

/-- An answer `{}` to a block means that its hash is in the chain. -/
def Truthful (s : BlockTable) (who : Caller) (r : Outcome) : Prop :=
  ∀ jData seen block, who = .server jData seen → r = .answered (.object []) →
    Block.ofJson jData = .ok block → ChainDB.hasBlock s block.hash = true

/-- Exactly when no sibling came in between, the insertion leaves the block in the chain. -/
theorem hasBlock_iff_noSiblingSince {s₁ s : BlockTable} {jData : Json} {block : Block}
    (hm : s₁.data <+: s.data)
    (hchildless : ∀ c ∈ ChainDB.loadAllBlocks s₁,
      c.previousHash ≠ cString block.previousHash) :
    ChainDB.hasBlock (ChainDB.insertBlock s block).1 block.hash = true ↔
      NoSiblingSince s (.server jData s₁.data.length) (.insertBlock block) := by
  rw [ChainDB.hasBlock_insertBlock, NoSiblingSince]
  -- `rest` is what others stored between the reading of the tip and the insert
  obtain ⟨rest, hrest⟩ := hm
  have hdrop : s.data.drop s₁.data.length = rest := by rw [← hrest, List.drop_left]
  have hload : ChainDB.loadAllBlocks s = ChainDB.loadAllBlocks s₁ ++ rest.map BlockRow.toBlock := by
    rw [ChainDB.loadAllBlocks, ← hrest, List.map_append, ChainDB.loadAllBlocks]
  rw [hdrop, hload]
  -- the blocks already there are known childless, so only `rest` can object
  have hsplit : (∀ c ∈ ChainDB.loadAllBlocks s₁ ++ rest.map BlockRow.toBlock,
      c.previousHash ≠ cString block.previousHash) ↔
        ∀ r ∈ rest, r.previousHash ≠ .bind block.previousHash := by
    constructor
    · intro h r hr
      have hblock := h r.toBlock (List.mem_append_right _ (List.mem_map_of_mem hr))
      exact fun heq => hblock (DbText.eq_bind_iff.1 heq)
    · intro h c hc
      rcases List.mem_append.1 hc with hmem | hmem
      · exact hchildless c hmem
      · obtain ⟨r, hr, rfl⟩ := List.mem_map.1 hmem
        exact fun heq => h r hr (DbText.eq_bind_iff.2 heq)
  rw [hsplit]

theorem secure_starts_truthful {s : BlockTable} {who : Caller} {p : ChainProg Outcome}
    (h : Starts E cfg accepted who p) :
    Secure (nodeSystem E cfg accepted NoSiblingSince) groundedRely Truthful s who p := by
  cases h with
  | send tick toPeer text rnd sent =>
      -- a send answers nobody
      have hsent : ∀ s r, Truthful s .input (.sent r) := fun _ _ _ _ _ h => by cases h
      refine secure_localSend hsent ?_
      intro s₁ block hinv₁ hsign
      obtain ⟨hprev, hhash⟩ := signBlock_fields hsign
      have hnames : NamesTip s₁ s₁ block := Or.inl (hprev.trans (findTip_hash s₁))
      refine secure_insertBlock fun s' hm hinv _ => ?_
      have hparent := groundedRely.parent_stored hinv₁ List.prefix_rfl hm hnames
      exact ⟨groundedRely.insertBlock hinv hhash hparent, ChainDB.data_prefix_insertBlock _ _,
        fun s'' _ _ => hsent s'' _⟩
  | receive now tick jData _ =>
      refine secure_incoming ?_ ?_
      · intro s' who' j hj _ _ _ _ hanswer _
        exact absurd (Outcome.answered.inj hanswer) hj
      · intro block s' who' hblock hauth _ _ ⟨s₁, s₂, hinv₁, hm₁, hm₂, hwho, hnames⟩
        subst hwho
        refine secure_insertBlock fun s'' hm hinv hallowed => ?_
        have hm₂' : s₂.data <+: s''.data := List.IsPrefix.trans hm₂ hm
        have hparent := groundedRely.parent_stored hinv₁ hm₁ hm₂' hnames
        have hhas : ChainDB.hasBlock (ChainDB.insertBlock s'' block).1 block.hash = true :=
          (hasBlock_iff_noSiblingSince (List.IsPrefix.trans hm₁ hm₂')
            (groundedRely.childless hinv₁ hnames)).2 hallowed
        refine ⟨groundedRely.insertBlock hinv hauth.hash_eq.symm hparent,
          ChainDB.data_prefix_insertBlock _ _, ?_⟩
        intro s₃ hm₃ _ jData' seen' block' hwho _ hblock'
        obtain ⟨rfl, _⟩ := Caller.server.inj hwho
        obtain rfl : block = block' := Except.ok.inj (hblock.symm.trans hblock')
        obtain ⟨c, hc, hch⟩ := ChainDB.hasBlock_iff.1 hhas
        exact ChainDB.hasBlock_iff.2 ⟨c, (ChainDB.loadAllBlocks_prefix hm₃).subset hc, hch⟩

/-- Started on a valid chain, and as long as no sibling of a validated block comes in before its
insertion, every acknowledged block is in the chain from the acknowledgement on. -/
theorem acknowledged_block_stored {t : BlockTable} (hvalid : validateLocalChain E t = .ok true)
    {c : Pool ChainOp ChainOp.Res BlockTable Caller Outcome}
    (hrun : Reaches (nodeSystem E cfg (fun _ => True) NoSiblingSince) ⟨t, [], []⟩ c)
    {jData : Json} {seen : Nat} {block : Block}
    (hanswer : (Caller.server jData seen, Outcome.answered (.object [])) ∈ c.finished)
    (hblock : Block.ofJson jData = .ok block) :
    ChainDB.hasBlock c.shared block.hash = true := by
  have hblocks := validateLocalChain_eq_true.1 hvalid
  have hinit : groundedRely.inv t :=
    ⟨hblocks.linked.grounded, fun b hb =>
      ⟨(hblocks.authentic b hb).noNul_hash, (hblocks.authentic b hb).hash_ne_zero⟩⟩
  obtain ⟨hholds, _⟩ :=
    (Holds.initial hinit).reachable (fun _ h => secure_starts_truthful h) hrun
  exact hholds.finished _ hanswer _ (groundedRely.moves_refl _) hholds.shared jData seen block
    rfl rfl hblock

theorem acknowledged_block_stored_rival :
    ChainDB.hasBlock (ChainDB.insertBlock FirstBlock.table FirstBlock.rival).1
      FirstBlock.rival.hash = true := by
  have hread : ∀ who op, (∀ b, op ≠ .insertBlock b) → NoSiblingSince FirstBlock.table who op := by
    intro who op hop
    cases who <;> cases op <;> first | trivial | exact absurd rfl (hop _)
  -- nothing was stored since the tip was read
  have hinsert : NoSiblingSince FirstBlock.table
      (.server FirstBlock.rival.toJson FirstBlock.table.data.length)
      (.insertBlock FirstBlock.rival) :=
    Or.inr (Or.inr (by simp))
  exact acknowledged_block_stored FirstBlock.valid_table
    ((Race.reaches_validated_rival trivial hread).trans (reaches_answered hinsert))
    (List.mem_singleton.2 rfl) (Block.ofJson_toJson _)

/-- The peer's block is acknowledged and not in the chain. -/
theorem acknowledged_block_lost :
    validateLocalChain testEnv FirstBlock.table = .ok true ∧
      ∃ c seen, Reaches (nodeSystem testEnv FirstBlock.config (fun _ => True) fun _ _ _ => True)
          ⟨FirstBlock.table, [], []⟩ c ∧
        (Caller.server FirstBlock.rival.toJson seen, Outcome.answered (.object [])) ∈ c.finished ∧
        Block.ofJson FirstBlock.rival.toJson = .ok FirstBlock.rival ∧
        ChainDB.hasBlock c.shared FirstBlock.rival.hash = false :=
  ⟨FirstBlock.valid_table, _, _, Race.reaches_both trivial, List.mem_cons_self,
    Block.ofJson_toJson _, by decide +kernel⟩

end Interleaving
end Blockchain
end DChat
