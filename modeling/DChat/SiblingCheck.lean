import DChat.ChainDB

/-!
# SiblingCheck — `insertBlock`, statement by statement

`ChainDB::insertBlock` is a SELECT for a sibling and an INSERT, each atomic under the mutex of
`DBFile`, with nothing that holds the two together.  Here the statements of several calls take
turns.

A row that is stored between the two statements of a call goes unseen, and a block under the
marker `"0"` makes no SELECT at all, so a stored sibling goes unseen from the start.  These are
the only ways to a fork: a run without them keeps every parent unique.
-/

namespace DChat
namespace Blockchain
namespace SiblingCheck

open Utils KeyedTable AtomicProg

/-! ## The statements -/

/-- The statements of `insertBlock`. -/
inductive Statement
  | selectChild (previousHash : String)
  | insertRow (b : Block)

/-- What a statement answers: a sibling was found, the row was stored. -/
def Statement.Res : Statement → Type
  | .selectChild _ => Bool
  | .insertRow _ => Bool

def Statement.exec : (op : Statement) → BlockTable → op.Res × BlockTable
  | .selectChild p, t => (ChainDB.selectChild t p, t)
  | .insertRow b, t => ((ChainDB.insertRow t b).2, (ChainDB.insertRow t b).1)

abbrev StatementProg := Prog Statement Statement.Res

/-- `db->selectPrepared`. -/
def selectChild (previousHash : String) : StatementProg Bool :=
  .call (.selectChild previousHash) .done

/-- `db->executePrepared`. -/
def insertRow (b : Block) : StatementProg Bool := .call (.insertRow b) .done

/-- `ChainDB::insertBlock`. -/
def insertBlock (b : Block) : StatementProg Bool :=
  if b.previousHash ≠ "0" then do
    let found ← selectChild b.previousHash
    if found then return false else insertRow b
  else
    insertRow b

/-- Run alone, the statements are the atomic `insertBlock`. -/
theorem insertBlock_run (b : Block) (t : BlockTable) :
    (insertBlock b).run Statement.exec t =
      ((ChainDB.insertBlock t b).2, (ChainDB.insertBlock t b).1) := by
  have hinsert : (insertRow b).run Statement.exec t =
      ((ChainDB.insertRow t b).2, (ChainDB.insertRow t b).1) := rfl
  by_cases hroot : b.previousHash = "0"
  · simp [insertBlock, ChainDB.insertBlock, hroot, hinsert]
  · have hselect : ∀ f : Bool → StatementProg Bool,
        (selectChild b.previousHash >>= f).run Statement.exec t =
          (f (ChainDB.selectChild t b.previousHash)).run Statement.exec t := fun f => rfl
    rw [insertBlock, if_pos hroot, hselect]
    cases hfound : ChainDB.selectChild t b.previousHash <;>
      simp [ChainDB.insertBlock, hroot, hfound, hinsert]

/-! ## Calls that take turns -/

/-- A call of `insertBlock`; `seen` is the number of rows its SELECT has looked at. -/
structure Call where
  block : Block
  seen : Nat

/-- The auxiliary update of a call. -/
def note (call : Call) : Statement → BlockTable → Call
  | .selectChild _, t => { call with seen := t.data.length }
  | .insertRow _, _ => call

/-- Any number of calls with any blocks. -/
inductive Starts : Call → StatementProg Bool → Prop
  | insertBlock (b : Block) : Starts { block := b, seen := 0 } (insertBlock b)

/-- The store as a system of calls. -/
def storeSystem (allowed : BlockTable → Call → Statement → Prop) :
    System Statement Statement.Res BlockTable Call Bool where
  exec := Statement.exec
  note := note
  spawn := Starts
  allowed := allowed

/-- No two rows have one parent. -/
def NoFork (t : BlockTable) : Prop := (t.data.map BlockRow.previousHash).Nodup

/-- The INSERT finds its hash stored already, or none of the rows that its SELECT did not look
at is a sibling. -/
def SiblingsSeen (t : BlockTable) (call : Call) : Statement → Prop
  | .selectChild _ => True
  | .insertRow b => ¬ t.Fresh (BlockRow.ofBlock b) ∨
      ∀ r ∈ t.data.drop call.seen, r.previousHash ≠ .bind b.previousHash

/-- An INSERT keeps a store without forks exactly when its hash is taken or its parent is not. -/
theorem noFork_insertRow_iff {t : BlockTable} {b : Block} (h : NoFork t) :
    NoFork (ChainDB.insertRow t b).1 ↔
      ¬ t.Fresh (BlockRow.ofBlock b) ∨ ∀ r ∈ t.data, r.previousHash ≠ .bind b.previousHash := by
  by_cases hfresh : t.Fresh (BlockRow.ofBlock b)
  · rw [NoFork, ChainDB.insertRow, Table.data_insert_of_fresh hfresh, List.map_append,
      List.nodup_append']
    have hsingle : ([BlockRow.ofBlock b].map BlockRow.previousHash).Nodup := List.nodup_singleton _
    constructor
    · rintro ⟨_, _, hdisj⟩
      exact Or.inr fun r hr heq => hdisj (List.mem_map_of_mem hr) (by simp [heq])
    · rintro (htaken | hall)
      · exact absurd hfresh htaken
      · refine ⟨h, hsingle, fun p hp hb => ?_⟩
        obtain ⟨r, hr, rfl⟩ := List.mem_map.1 hp
        exact hall r hr (by simpa using hb)
  · rw [ChainDB.insertRow, Table.insert_of_not_fresh hfresh]
    simp [h, hfresh]

/-- The rows that the call's SELECT has looked at hold no sibling. -/
def Cleared (t : BlockTable) (call : Call) (b : Block) : Prop :=
  ∀ r ∈ t.data.take call.seen, r.previousHash ≠ .bind b.previousHash

/-- At the INSERT of a call whose SELECT found nothing, the condition is exact. -/
theorem siblingsSeen_iff {t : BlockTable} {call : Call} {b : Block} (h : NoFork t)
    (hcleared : Cleared t call b) :
    NoFork (ChainDB.insertRow t b).1 ↔ SiblingsSeen t call (.insertRow b) := by
  rw [noFork_insertRow_iff h, SiblingsSeen]
  have hsplit : (∀ r ∈ t.data, r.previousHash ≠ .bind b.previousHash) ↔
      ∀ r ∈ t.data.drop call.seen, r.previousHash ≠ .bind b.previousHash := by
    constructor
    · exact fun hall r hr => hall r (List.mem_of_mem_drop hr)
    · intro hrest r hr
      rw [← List.take_append_drop call.seen t.data] at hr
      rcases List.mem_append.1 hr with hseen | hunseen
      · exact hcleared r hseen
      · exact hrest r hunseen
  rw [hsplit]

/-- The store has no fork, and only grows. -/
def noForkRely : Rely BlockTable where
  inv := NoFork
  moves t t' := t.data <+: t'.data
  moves_refl := ChainDB.grows_refl
  moves_trans := @ChainDB.grows_trans

/-- What a SELECT has cleared stays cleared. -/
theorem Cleared.mono {t t' : BlockTable} {call : Call} {b : Block} (h : Cleared t call b)
    (hlen : call.seen ≤ t.data.length) (hm : t.data <+: t'.data) : Cleared t' call b := by
  obtain ⟨rest, hrest⟩ := hm
  rw [Cleared, ← hrest, List.take_append_of_le_length hlen]
  exact h

theorem secure_insertRow {t : BlockTable} {call : Call} {b : Block} (hcleared : Cleared t call b)
    (hlen : call.seen ≤ t.data.length) :
    Secure (storeSystem SiblingsSeen) noForkRely (fun _ _ _ => True) t call (insertRow b) := by
  intro t' hm hinv hallowed
  refine ⟨(siblingsSeen_iff hinv (hcleared.mono hlen hm)).2 hallowed, ?_, fun _ _ _ => trivial⟩
  exact Table.data_prefix_insert _ _

theorem secure_starts {t : BlockTable} {call : Call} {p : StatementProg Bool}
    (h : Starts call p) :
    Secure (storeSystem SiblingsSeen) noForkRely (fun _ _ _ => True) t call p := by
  cases h with
  | insertBlock b =>
      by_cases hroot : b.previousHash = "0"
      · -- no SELECT: nothing is cleared
        rw [insertBlock, if_neg (not_not.2 hroot)]
        exact secure_insertRow (by simp [Cleared]) (Nat.zero_le _)
      · rw [insertBlock, if_pos hroot]
        refine Secure.read (fun _ => rfl) fun t' _ _ => ?_
        cases hfound : ChainDB.selectChild t' b.previousHash with
        | true =>
            simp only [storeSystem, Statement.exec, hfound]
            exact fun _ _ _ => trivial
        | false =>
            have hcleared : ∀ r ∈ t'.data, r.previousHash ≠ .bind b.previousHash := by
              simpa [ChainDB.selectChild] using hfound
            simp only [storeSystem, Statement.exec, hfound]
            exact secure_insertRow (fun r hr => hcleared r (List.mem_of_mem_take hr)) le_rfl

/-- A store that starts empty never holds a fork, as long as no INSERT follows a sibling that
its call has not looked at. -/
theorem store_never_forks {c : Pool Statement Statement.Res BlockTable Call Bool}
    (hrun : Reaches (storeSystem SiblingsSeen) ⟨Table.empty, [], []⟩ c) : NoFork c.shared := by
  have hinit : noForkRely.inv Table.empty := List.nodup_nil
  exact ((Holds.initial hinit).reachable (fun _ h => secure_starts h) hrun).1.shared

/-! ## Runs of two calls -/

section Runs

variable {allowed : BlockTable → Call → Statement → Prop} {t : BlockTable}
  {fs : List (Call × Bool)} {b : Block}

/-- A call under the marker, run to its end. -/
theorem reaches_root (hroot : b.previousHash = "0")
    (hok : allowed t { block := b, seen := 0 } (.insertRow b)) :
    Reaches (storeSystem allowed) ⟨t, [], fs⟩
      ⟨(ChainDB.insertRow t b).1, [],
        ({ block := b, seen := 0 }, (ChainDB.insertRow t b).2) :: fs⟩ := by
  refine .head (.spawn (.insertBlock b)) ?_
  rw [insertBlock, if_neg (not_not.2 hroot)]
  exact .head (.call (l := []) hok) (.single (.finish (l := [])))

/-- A call under another parent without a child, run to its end. -/
theorem reaches_child (hne : b.previousHash ≠ "0")
    (hfound : ChainDB.selectChild t b.previousHash = false)
    (hselect : allowed t { block := b, seen := 0 } (.selectChild b.previousHash))
    (hok : allowed t { block := b, seen := t.data.length } (.insertRow b)) :
    Reaches (storeSystem allowed) ⟨t, [], fs⟩
      ⟨(ChainDB.insertRow t b).1, [],
        ({ block := b, seen := t.data.length }, (ChainDB.insertRow t b).2) :: fs⟩ := by
  refine .head (.spawn (.insertBlock b)) ?_
  rw [insertBlock, if_pos hne]
  refine .head (.call (l := []) hselect) ?_
  simp only [storeSystem, Statement.exec, hfound]
  exact .head (.call (l := []) hok) (.single (.finish (l := [])))

end Runs

/-- A block of a first message. -/
def firstBlock : Block := { Block.default with hash := "a1" }

/-- The block of another first message. -/
def otherFirstBlock : Block := { Block.default with hash := "b2" }

/-- A block over the first one. -/
def childBlock : Block := { Block.default with hash := "c3", previousHash := "a1" }

/-- The store after one INSERT, and after two. -/
def firstTable : BlockTable := (ChainDB.insertRow Table.empty firstBlock).1

def chainTable : BlockTable := (ChainDB.insertRow firstTable childBlock).1

def forkTable : BlockTable := (ChainDB.insertRow firstTable otherFirstBlock).1

/-- The first call runs to its end. -/
theorem reaches_first {allowed : BlockTable → Call → Statement → Prop}
    (hok : allowed Table.empty { block := firstBlock, seen := 0 } (.insertRow firstBlock)) :
    Reaches (storeSystem allowed) ⟨Table.empty, [], []⟩
      ⟨firstTable, [],
        [({ block := firstBlock, seen := 0 }, (ChainDB.insertRow Table.empty firstBlock).2)]⟩ :=
  reaches_root rfl hok

theorem store_never_forks_child : NoFork chainTable := by
  have hchild : Reaches (storeSystem SiblingsSeen)
      ⟨firstTable, [],
        [({ block := firstBlock, seen := 0 }, (ChainDB.insertRow Table.empty firstBlock).2)]⟩
      ⟨chainTable, [],
        [({ block := childBlock, seen := firstTable.data.length },
            (ChainDB.insertRow firstTable childBlock).2),
          ({ block := firstBlock, seen := 0 },
            (ChainDB.insertRow Table.empty firstBlock).2)]⟩ :=
    reaches_child (by decide) (by decide +kernel) trivial (Or.inr (by simp))
  have hnofork := store_never_forks ((reaches_first (Or.inr (by simp))).trans hchild)
  dsimp only at hnofork
  exact hnofork

/-- Two first messages on an empty chain: both blocks are stored under the marker. -/
theorem two_first_blocks :
    ∃ c, Reaches (storeSystem fun _ _ _ => True) ⟨Table.empty, [], []⟩ c ∧ ¬ NoFork c.shared := by
  have hother : Reaches (storeSystem fun _ _ _ => True)
      ⟨firstTable, [],
        [({ block := firstBlock, seen := 0 }, (ChainDB.insertRow Table.empty firstBlock).2)]⟩
      ⟨forkTable, [],
        [({ block := otherFirstBlock, seen := 0 },
            (ChainDB.insertRow firstTable otherFirstBlock).2),
          ({ block := firstBlock, seen := 0 },
            (ChainDB.insertRow Table.empty firstBlock).2)]⟩ :=
    reaches_root rfl trivial
  have hparents : forkTable.data.map BlockRow.previousHash = [.bind "0", .bind "0"] := by
    decide +kernel
  have hfork : ¬ NoFork forkTable := by
    rw [NoFork, hparents]
    decide
  exact ⟨_, (reaches_first trivial).trans hother, hfork⟩

end SiblingCheck
end Blockchain
end DChat
