import DChat.MessageService
import DChat.ChainValidity

/-!
# Removal — what `removeMessageByBlockHashOrId` removes and reports

The two deletes are joined by `||` on the success of the first statement, and a `DELETE` that
matches nothing succeeds.  So the second one, which compares the row id with the message id, is
never run, and the call answers `true` whatever it did.
-/

namespace DChat
namespace Messaging
namespace MessageService

open Utils KeyedTable Blockchain

/-- Some stored message names the block. -/
def NamesBlock (t : MessageTable) (blockHash : String) : Prop :=
  ∃ r ∈ t.data, r.blockHash = .bind blockHash

/-- The rows that a removal is about: those of the block, or without any the one with the id. -/
def Targeted (t : MessageTable) (blockHash messageId : String) (r : MessageRow) : Prop :=
  r.blockHash = .bind blockHash ∨ (¬ NamesBlock t blockHash ∧ r.messageId = .bind messageId)

/-- The messages of the block are gone, or without any the message with the id is, the others are
what they were, and the answer says whether anything was removed. -/
structure RemovesAndReports (t : MessageTable) (blockHash messageId : String) : Prop where
  byBlock : ∀ r ∈ (removeMessageByBlockHashOrId t blockHash messageId).1.data,
    r.blockHash ≠ .bind blockHash
  byId : ¬ NamesBlock t blockHash →
    ∀ r ∈ (removeMessageByBlockHashOrId t blockHash messageId).1.data,
      r.messageId ≠ .bind messageId
  nothingNew : ∀ x ∈ (removeMessageByBlockHashOrId t blockHash messageId).1.rows, x ∈ t.rows
  others : ∀ x ∈ t.rows, ¬ Targeted t blockHash messageId x.2 →
    x ∈ (removeMessageByBlockHashOrId t blockHash messageId).1.rows
  reports : (removeMessageByBlockHashOrId t blockHash messageId).2 = true ↔
    ∃ x ∈ t.rows, x ∉ (removeMessageByBlockHashOrId t blockHash messageId).1.rows

/-- What is left: the rows of other blocks. -/
theorem mem_rows_removed {t : MessageTable} {blockHash messageId : String} {x : Nat × MessageRow} :
    x ∈ (removeMessageByBlockHashOrId t blockHash messageId).1.rows ↔
      x ∈ t.rows ∧ x.2.blockHash ≠ .bind blockHash := by
  rw [removeMessageByBlockHashOrId_eq]
  simp [MessageDB.removeMessageByBlockHash, Table.deleteWhere]

/-- The removal does what it should if and only if some message names the block. -/
theorem removes_and_reports_iff (t : MessageTable) (blockHash messageId : String) :
    RemovesAndReports t blockHash messageId ↔ NamesBlock t blockHash := by
  constructor
  · intro h
    -- the answer is true whatever happened, so the report asks for a row that is gone
    rcases h.reports.1 rfl with ⟨x, hx, hgone⟩
    have hnamed : x.2.blockHash = .bind blockHash := by
      by_contra hother
      exact hgone (mem_rows_removed.2 ⟨hx, hother⟩)
    exact ⟨x.2, List.mem_map_of_mem hx, hnamed⟩
  · intro h
    refine ⟨?_, fun hnone => absurd h hnone, ?_, ?_, ?_⟩
    · intro r hr
      rcases List.mem_map.1 hr with ⟨x, hx, rfl⟩
      exact (mem_rows_removed.1 hx).2
    · intro x hx
      exact (mem_rows_removed.1 hx).1
    · intro x hx hother
      exact mem_rows_removed.2 ⟨hx, fun hnamed => hother (Or.inl hnamed)⟩
    · refine iff_of_true rfl ?_
      rcases h with ⟨r, hr, hnamed⟩
      rcases List.mem_map.1 hr with ⟨x, hx, rfl⟩
      exact ⟨x, hx, fun hleft => (mem_rows_removed.1 hleft).2 hnamed⟩

/-- The report of an error for a block of which nothing is stored: the message stays, and the answer
is `true`. -/
theorem unmatched_removal_reported :
    ¬ RemovesAndReports
      (Table.empty.insert (.ofMessage BlockchainService.FirstBlock.message .null "other")).1
      "missing" "m1" := by
  intro h
  rcases h.reports.1 rfl with ⟨x, hx, hgone⟩
  have hrow : x = (1, .ofMessage BlockchainService.FirstBlock.message .null "other") := by
    simpa [Table.insert, Table.empty] using hx
  refine hgone (mem_rows_removed.2 ⟨hx, ?_⟩)
  rw [hrow]
  decide

end MessageService
end Messaging
end DChat
