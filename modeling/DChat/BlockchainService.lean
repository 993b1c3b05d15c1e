import DChat.ChainDB
import DChat.TextMessage

/-!
# BlockchainService — creating, validating and taking in blocks

The checks are functions into `Except Exn (Option String)`: `none` is the answer `true`, an
error text the answer `false`, and an exception comes from a key that does not decode.

What touches the chain more than once is a `ChainProg`, so that one definition serves both the
service run alone and the service interleaved with the other thread.
-/

namespace DChat
namespace Blockchain

open Utils Crypto Peer Messaging AtomicProg

namespace ChainProg

/-- `chainRepo->findTip(tip)` with a tip that starts as `Block()`. -/
def findTip : ChainProg Block := .call .findTip fun tip => .done (Option.getD tip Block.default)

/-- `chainRepo->findBlockByHash`. -/
def findBlockByHash (hash : String) : ChainProg (Option Block) :=
  .call (.findBlockByHash hash) .done

/-- `chainRepo->hasBlock`. -/
def hasBlock (hash : String) : ChainProg Bool := .call (.hasBlock hash) .done

/-- `chainRepo->insertBlock`. -/
def insertBlock (block : Block) : ChainProg Bool := .call (.insertBlock block) .done

variable {α : Type} (t : BlockTable)

@[simp] theorem run_findTip (f : Block → ChainProg α) :
    (findTip >>= f).run ChainOp.exec t =
      (f ((ChainDB.findTip t).getD Block.default)).run ChainOp.exec t := rfl

@[simp] theorem run_findBlockByHash (hash : String) (f : Option Block → ChainProg α) :
    (findBlockByHash hash >>= f).run ChainOp.exec t =
      (f (ChainDB.findBlockByHash t hash)).run ChainOp.exec t := rfl

@[simp] theorem run_hasBlock (hash : String) (f : Bool → ChainProg α) :
    (hasBlock hash >>= f).run ChainOp.exec t =
      (f (ChainDB.hasBlock t hash)).run ChainOp.exec t := rfl

@[simp] theorem run_insertBlock (block : Block) (f : Bool → ChainProg α) :
    (insertBlock block >>= f).run ChainOp.exec t =
      (f (ChainDB.insertBlock t block).2).run ChainOp.exec (ChainDB.insertBlock t block).1 := rfl

end ChainProg

namespace BlockchainService

variable (E : Env)

/-! ## Checks on one block -/

/-- `BlockchainService::verifyBlockSignature`. -/
def verifyBlockSignature (block : Block) : Except Exn Bool := do
  let sig ← E.crypto.stringToKey block.signature
  let pub ← E.crypto.stringToKey block.authorPublicKey
  return E.crypto.verify block.canonicalBytes sig pub

/-- `BlockchainService::validateSingleBlock`. -/
def validateSingleBlock (block : Block) : Except Exn (Option String) := do
  if ← verifyBlockSignature E block then
    let tempBlock := Block.computeHash E { block with hash := "" }
    if tempBlock.hash = block.hash then
      return none
    else
      return some ("Block hash mismatch: computed=" ++ tempBlock.hash ++ ", stored=" ++ block.hash)
  else
    return some "Invalid block signature"

/-- `BlockchainService::compareBlockWithMessage`.  The error quotes the text of the message, so
it is not UTF-8 in general. -/
def compareBlockWithMessage (block : Block) (message : TextMessage) :
    Except Exn (Option Bytes) := do
  if block.authorPublicKey ≠ message.fromPeer.publicKey then
    return some (bytesOf ("Author public key mismatch: block=" ++ block.authorPublicKey ++
      ", message=" ++ message.fromPeer.publicKey))
  if block.timestamp ≠ message.timestamp then
    return some (bytesOf ("Timestamp mismatch: block=" ++ toString block.timestamp.toNat ++
      ", message=" ++ toString message.timestamp.toNat))
  let computedPayloadHash := E.sha256 (cBytes message.message)
  if computedPayloadHash ≠ block.payloadHash then
    return some (bytesOf ("Payload hash mismatch: block=" ++ block.payloadHash ++ ", computed=" ++
      computedPayloadHash ++ ", content='") ++ message.message ++ bytesOf "'")
  if ← verifyBlockSignature E block then
    return none
  else
    return some (bytesOf "Block signature verification failed")

/-- The block is signed by its author and its hash is the digest of its canonical string. -/
def Authentic (block : Block) : Prop := validateSingleBlock E block = .ok none

/-! ## Creating and storing -/

/-- The fields of `createBlockFromMessage` that need no key. -/
def unsignedBlock (message : TextMessage) (tip : Block) : Block :=
  { Block.default with
    previousHash := tip.hash
    payloadHash := E.sha256 (cBytes message.message)
    authorPublicKey := message.fromPeer.publicKey
    timestamp := message.timestamp }

/-- Only the text, the author and the time of the message enter the block. -/
theorem unsignedBlock_eq {message : TextMessage} {text : Bytes} {author : String} {time : UInt64}
    (htext : message.message = text) (hauthor : message.fromPeer.publicKey = author)
    (htime : message.timestamp = time) (tip : Block) :
    unsignedBlock E message tip = { Block.default with
      previousHash := tip.hash
      payloadHash := E.sha256 (cBytes text)
      authorPublicKey := author
      timestamp := time } := by
  rw [unsignedBlock, htext, hauthor, htime]

/-- The rest of `createBlockFromMessage`: sign, then hash. -/
def signBlock (privateKey : String) (rnd : Rand) (block : Block) : Except Exn Block := do
  let priv ← E.crypto.stringToKey privateKey
  let sign ← E.crypto.sign rnd block.canonicalBytes priv
  return Block.computeHash E { block with signature := E.crypto.keyToString sign }

/-- `BlockchainService::createBlockFromMessage`. -/
def createBlockFromMessage (privateKey : String) (rnd : Rand) (message : TextMessage) :
    ChainProg (Except Exn Block) := do
  let tip ← ChainProg.findTip
  return signBlock E privateKey rnd (unsignedBlock E message tip)

/-- The loop of `storeAndBroadcastBlock` over the peers.  The callback works on whatever state
lies outside this node; the loop ends at the first peer for which it says no or throws. -/
def broadcast {σ : Type} (sendCallback : UserPeer → σ → Except Exn Bool × σ) :
    List UserPeer → σ → Bool × σ
  | [], s => (true, s)
  | p :: peers, s =>
      match sendCallback p s with
      | (.ok true, s') => broadcast sendCallback peers s'
      | (_, s') => (false, s')

/-- The end of `storeAndBroadcastBlock`, after a loop that went through or did not. -/
def storeBlock (sent : Bool) (block : Block) : ChainProg Bool :=
  if sent then ChainProg.insertBlock block else .done false

/-! ## Incoming blocks -/

/-- The last check of `validateIncomingBlock`. -/
def refuseDuplicate (block : Block) : ChainProg (Option String) := do
  if ← ChainProg.hasBlock block.hash then
    return some "Block already exists in local chain"
  else
    return none

/-- The checks of `validateIncomingBlock` against the chain. -/
def validateLink (block : Block) : ChainProg (Option String) := do
  let tip ← ChainProg.findTip
  if block.previousHash = tip.hash then
    refuseDuplicate block
  else
    match ← ChainProg.findBlockByHash block.previousHash with
    | none => return some "Previous block not found in local chain"
    | some prevBlock =>
        if prevBlock.hash ≠ tip.hash then
          return some "Block extends non-tip block (fork detected)"
        else
          refuseDuplicate block

/-- `BlockchainService::validateIncomingBlock`. -/
def validateIncomingBlock (now : ClockReading) (block : Block) :
    ChainProg (Except Exn (Option String)) :=
  match validateSingleBlock E block with
  | .error e => .done (.error e)
  | .ok (some error) => .done (.ok (some error))
  | .ok none =>
      -- this time + 5 minutes
      if getTimestamp now + 300000 < block.timestamp then
        .done (.ok (some "Block timestamp is too far in the future"))
      else do
        return .ok (← validateLink block)

/-- The response of `onIncomingBlock` to a block it does not take. -/
def refusal (me : UserPeer) (tick : Tick) (error blockHash : String) : Json :=
  (BlockchainErrorMessageResponse.create tick me error blockHash "-1").serialize

theorem refusal_ne_empty (me : UserPeer) (tick : Tick) (error blockHash : String) :
    refusal me tick error blockHash ≠ .object [] := by
  simp [refusal, BlockchainErrorMessageResponse.serialize, Message.basicSerialization, Json.set,
    Json.assign]

/-- `BlockchainService::onIncomingBlock`.  The clock is read once by the validation and once
more by the error response.  A key that is looked up and absent is undefined in the source; here it
ends like a json exception, and what is said about answers leaves it out. -/
def onIncomingBlock (me : UserPeer) (now : ClockReading) (tick : Tick) (jData : Json) :
    ChainProg Json :=
  match Block.ofJson jData with
  | .error e => .done (refusal me tick e.what "-1")
  | .ok block => do
      match ← validateIncomingBlock E now block with
      | .error e => return refusal me tick e.what "-1"
      | .ok (some error) => return refusal me tick error block.hash
      | .ok none =>
          let _stored ← ChainProg.insertBlock block
          return .object []

/-! ## Whole chains and batches -/

/-- The loop of `validateLocalChain`. -/
def validateChainFrom (prevHash : String) (isValid : Bool) : List Block → Except Exn Bool
  | [] => return isValid
  | block :: blocks => do
      if block.previousHash ≠ prevHash then
        validateChainFrom block.hash false blocks
      else
        match ← validateSingleBlock E block with
        | some _ => validateChainFrom block.hash false blocks
        | none => validateChainFrom block.hash isValid blocks

/-- `BlockchainService::validateLocalChain`. -/
def validateLocalChain (t : BlockTable) : Except Exn Bool :=
  let blocks := ChainDB.loadAllBlocks t
  if blocks.isEmpty then return true else validateChainFrom E "0" true blocks

/-- The first loop of `validateNewBlocks`. -/
def sequenceLinked : List Block → Bool
  | a :: b :: rest => b.previousHash = a.hash && sequenceLinked (b :: rest)
  | _ => true

/-- The tip check of `validateNewBlocks`, made only when there is a tip. -/
def extendsTip (t : BlockTable) (first : Block) : Bool :=
  match ChainDB.findTip t with
  | none => true
  | some tip =>
      if first.previousHash = tip.hash then
        true
      else
        match ChainDB.findBlockByHash t first.previousHash with
        | none => false
        | some prevBlock => prevBlock.hash = tip.hash

/-- The second loop of `validateNewBlocks`. -/
def allSingleValid : List Block → Except Exn Bool
  | [] => return true
  | block :: blocks => do
      match ← validateSingleBlock E block with
      | some _ => return false
      | none => allSingleValid blocks

/-- `BlockchainService::validateNewBlocks`. -/
def validateNewBlocks (t : BlockTable) (newBlocks : List Block) : Except Exn Bool :=
  match newBlocks with
  | [] => return true
  | first :: _ =>
      if !sequenceLinked newBlocks then return false
      else if !extendsTip t first then return false
      else allSingleValid E newBlocks

/-- The loop of `ChatApplication::init` over `getNewBlocks()`. -/
def insertNewBlocks (t : BlockTable) : List Block → BlockTable × List Bool
  | [] => (t, [])
  | block :: blocks =>
      let (t', stored) := ChainDB.insertBlock t block
      let (t'', rest) := insertNewBlocks t' blocks
      (t'', stored :: rest)

end BlockchainService

end Blockchain
end DChat
