import DChat.Utils
import DChat.Library.Locking
import Mathlib.Data.List.Induction

/-!
# DBFile — the database wrapper and its mutex

Every method of `DBFile` holds the mutex of the wrapper while it runs.  The four operations want to
open a closed database first, and call the public `open` for it, which locks the mutex again.

What SQLite answers is given with each call; the statements themselves do not matter here, and the
callbacks of the program never call the wrapper.
-/

namespace DChat
namespace DBFile

open Locking

/-- What SQLite answers during one call: result codes with their error texts, the rows of a query,
and whether a statement ends with `SQLITE_DONE`. -/
structure Sqlite where
  opened : Except String Unit
  executed : Except (Option String) Unit
  prepared : Except String Unit
  rows : List (List (Option String))
  done : Bool

/-- A call on the wrapper; the value is whether `db` is set. -/
abbrev Method (α : Type) := Locking.Call Bool Exn α

/-- A callback for the rows of a query, which may throw. -/
abbrev Callback := List String → Except Exn Unit

/-- `DBFile::open`. -/
def «open» (sqlite : Sqlite) : Method Unit := lockGuard do
  if ← readValue then
    return
  match sqlite.opened with
  | .ok () => writeValue true
  | .error msg =>
      writeValue false
      throw (.thrown (.std ("DBFile: failed to open database: " ++ msg)))

/-- `DBFile::close`. -/
def close : Method Unit := lockGuard do
  if ← readValue then
    writeValue false

/-- `if (!db) open();` -/
def ensureOpen (sqlite : Sqlite) : Method Unit := do
  if ← readValue then
    return
  else
    «open» sqlite

/-- How the four operations begin: the mutex is locked, then a closed database is opened. -/
def operation {α : Type} (sqlite : Sqlite) (rest : Method α) : Method α := lockGuard do
  ensureOpen sqlite
  rest

/-- `DBFile::exec`. -/
def exec (sqlite : Sqlite) : Method Unit := operation sqlite do
  liftExcept (sqlite.executed.mapError fun errMsg =>
    Exn.std ("DBFile exec failed: " ++ errMsg.getD "unknown error"))

/-- The loop over the rows of a query; a NULL column is an empty string. -/
def stepRows (sqlite : Sqlite) (callback : Callback) : Method Unit :=
  sqlite.rows.forM fun row => liftExcept (callback (row.map fun text => text.getD ""))

/-- `DBFile::select`. -/
def select (sqlite : Sqlite) (callback : Callback) : Method Unit := operation sqlite do
  liftExcept (sqlite.prepared.mapError fun err => Exn.std ("DBFile select prepare failed: " ++ err))
  stepRows sqlite callback

/-- `DBFile::selectPrepared`. -/
def selectPrepared (sqlite : Sqlite) (callback : Callback) : Method Unit := operation sqlite do
  liftExcept (sqlite.prepared.mapError fun err =>
    Exn.std ("DBFile selectPrepared prepare failed: " ++ err))
  stepRows sqlite callback

/-- `DBFile::executePrepared`; a statement that cannot be prepared is answered with `false`. -/
def executePrepared (sqlite : Sqlite) : Method Bool := operation sqlite do
  match sqlite.prepared with
  | .ok () => return sqlite.done
  | .error _ => return false

/-! ## Runs -/

inductive Call
  | «open» (sqlite : Sqlite)
  | close
  | exec (sqlite : Sqlite)
  | select (sqlite : Sqlite) (callback : Callback)
  | selectPrepared (sqlite : Sqlite) (callback : Callback)
  | executePrepared (sqlite : Sqlite)

/-- The four operations, which need the database, with what SQLite answers to them. -/
def Call.operation? : Call → Option Sqlite
  | .open _ => none
  | .close => none
  | .exec sqlite => some sqlite
  | .select sqlite _ => some sqlite
  | .selectPrepared sqlite _ => some sqlite
  | .executePrepared sqlite => some sqlite

def Call.run : Call → Method Unit
  | .open sqlite => DBFile.open sqlite
  | .close => DBFile.close
  | .exec sqlite => DBFile.exec sqlite
  | .select sqlite callback => DBFile.select sqlite callback
  | .selectPrepared sqlite callback => DBFile.selectPrepared sqlite callback
  | .executePrepared sqlite => do let _ ← DBFile.executePrepared sqlite

/-- A wrapper as it is constructed. -/
def initial : Guarded Bool := { value := false, held := false }

/-- What a run leaves behind; what the calls throw is caught by their callers. -/
def run (calls : List Call) : Guarded Bool :=
  calls.foldl (fun s call => Result.left (call.run s)) initial

/-- Whether the database is open after a call, by the calls alone. -/
def openAfter (isOpen : Bool) : Call → Bool
  | .open sqlite => isOpen || sqlite.opened.isOk
  | .close => false
  | _ => isOpen

/-- The last `open` that succeeded was not followed by a `close`. -/
def opened (calls : List Call) : Bool := calls.foldl openAfter false

/-- The call does not get stuck, and an operation leaves the database open if SQLite can open it. -/
structure Served (s : Guarded Bool) (call : Call) : Prop where
  unlocked : Ends (fun _ => True) (call.run s)
  reopened : ∀ sqlite, call.operation? = some sqlite → sqlite.opened = .ok () →
    (Result.left (call.run s)).value = true

/-- Nothing happens if the database is open. -/
theorem ensureOpen_of_open (sqlite : Sqlite) {s : Guarded Bool} (h : s.value = true) :
    ensureOpen sqlite s = .ok () s := by
  rcases s with ⟨value, held⟩
  cases h
  rfl

theorem ensureOpen_eq_open (sqlite : Sqlite) {s : Guarded Bool} (h : s.value = false) :
    ensureOpen sqlite s = DBFile.open sqlite s := by
  rcases s with ⟨value, held⟩
  cases h
  rfl

/-- Inside a guarded scope a closed database cannot be opened. -/
theorem ensureOpen_of_closed (sqlite : Sqlite) {s : Guarded Bool} (h : s.value = false)
    (hheld : s.held = true) : ensureOpen sqlite s = .error .selfLocked s := by
  rw [ensureOpen_eq_open sqlite h]
  exact lockGuard_of_held _ hheld

/-- On an open database an operation does what it is there for. -/
theorem ends_operation {α : Type} {sqlite : Sqlite} {rest : Method α}
    (hrest : ∀ s, Ends (fun s' => s' = s) (rest s)) :
    Ends (fun s' => s' = ⟨true, false⟩) (operation sqlite rest ⟨true, false⟩) := by
  refine ends_lockGuard rfl ?_
  -- the mutex is held here, so it matters that `open` is not called
  have hopen : Ends (fun s' => s' = ⟨true, true⟩) (ensureOpen sqlite ⟨true, true⟩) := by
    rw [ensureOpen_of_open sqlite rfl]
    rfl
  refine Ends.bind hopen ?_ ?_
  · rintro s' rfl
    rfl
  · rintro _ s' rfl
    exact (hrest _).mono fun s' h => h ▸ rfl

/-- On a closed one it waits for the mutex that it holds itself. -/
theorem operation_stuck {α : Type} (sqlite : Sqlite) (rest : Method α) :
    operation sqlite rest ⟨false, false⟩ = .error .selfLocked ⟨false, true⟩ := by
  have hstuck : (do ensureOpen sqlite; rest : Method α) ⟨false, true⟩ =
      .error .selfLocked ⟨false, true⟩ := by
    change EStateM.bind (ensureOpen sqlite) (fun _ => rest) ⟨false, true⟩ = _
    rw [EStateM.bind, ensureOpen_of_closed sqlite rfl rfl]
  rw [operation, lockGuard, if_neg Bool.false_ne_true, hstuck]

theorem ends_stepRows (sqlite : Sqlite) (callback : Callback) (s : Guarded Bool) :
    Ends (fun s' => s' = s) (stepRows sqlite callback s) := by
  refine ends_forM ?_ _ rfl
  rintro row s' rfl
  exact ends_liftExcept _ rfl

/-- The rows of a prepared query, or its error, leave the wrapper as it is. -/
theorem ends_query (sqlite : Sqlite) (callback : Callback) (x : Except Exn Unit)
    (s : Guarded Bool) :
    Ends (fun s' => s' = s) ((do liftExcept x; stepRows sqlite callback : Method Unit) s) := by
  have hprepared : Ends (fun s' => s' = s) ((liftExcept x : Method Unit) s) := ends_liftExcept x rfl
  refine Ends.bind hprepared (fun _ h => h) ?_
  rintro _ s' rfl
  exact ends_stepRows sqlite callback s'

theorem ends_open (sqlite : Sqlite) (isOpen : Bool) :
    Ends (fun s' => s' = ⟨isOpen || sqlite.opened.isOk, false⟩)
      (DBFile.open sqlite ⟨isOpen, false⟩) := by
  refine ends_lockGuard rfl ?_
  rcases sqlite with ⟨opened, _, _, _, _⟩
  cases isOpen with
  | true => rfl
  | false => cases opened <;> rfl

theorem ends_close (isOpen : Bool) :
    Ends (fun s' => s' = ⟨false, false⟩) (close ⟨isOpen, false⟩) := by
  refine ends_lockGuard rfl ?_
  cases isOpen <;> rfl

/-- One call: it does not get stuck unless it is an operation on a closed database. -/
theorem ends_run {isOpen : Bool} {call : Call}
    (h : call.operation?.isSome → isOpen = true) :
    Ends (fun s' => s' = ⟨openAfter isOpen call, false⟩) (call.run ⟨isOpen, false⟩) := by
  cases call with
  | «open» sqlite => exact ends_open sqlite isOpen
  | close => exact ends_close isOpen
  | exec sqlite =>
      obtain rfl := h rfl
      exact ends_operation fun s => ends_liftExcept _ rfl
  | select sqlite callback =>
      obtain rfl := h rfl
      exact ends_operation fun s => ends_query sqlite callback _ s
  | selectPrepared sqlite callback =>
      obtain rfl := h rfl
      exact ends_operation fun s => ends_query sqlite callback _ s
  | executePrepared sqlite =>
      obtain rfl := h rfl
      have hoperation : Ends (fun s' => s' = ⟨true, false⟩)
          (executePrepared sqlite ⟨true, false⟩) := by
        refine ends_operation fun s => ?_
        cases sqlite.prepared <;> exact ends_pure _ rfl
      exact Ends.bind hoperation (fun _ h => h) fun _ _ h => h

/-- An operation on a closed database gets stuck. -/
theorem run_stuck {call : Call} (h : call.operation?.isSome) :
    call.run ⟨false, false⟩ = .error .selfLocked ⟨false, true⟩ := by
  cases call with
  | «open» sqlite => cases h
  | close => cases h
  | exec sqlite => rw [Call.run, exec, operation_stuck]
  | select sqlite callback => rw [Call.run, select, operation_stuck]
  | selectPrepared sqlite callback => rw [Call.run, selectPrepared, operation_stuck]
  | executePrepared sqlite =>
      have hstuck : executePrepared sqlite ⟨false, false⟩ = .error .selfLocked ⟨false, true⟩ :=
        operation_stuck sqlite _
      change EStateM.bind (executePrepared sqlite) (fun _ => pure ()) ⟨false, false⟩ = _
      rw [EStateM.bind, hstuck]

/-- With the mutex free, a call is served if and only if it is no operation on a closed database. -/
theorem served_iff {isOpen : Bool} {call : Call} :
    Served ⟨isOpen, false⟩ call ↔ (call.operation?.isSome → isOpen = true) := by
  constructor
  · intro h hoperation
    by_contra hclosed
    rw [Bool.not_eq_true] at hclosed
    have hunlocked := h.unlocked
    rw [hclosed, run_stuck hoperation] at hunlocked
    exact hunlocked
  · intro h
    have hends := ends_run h
    refine ⟨hends.mono fun _ _ => trivial, ?_⟩
    intro sqlite hoperation _
    rw [hends.left]
    have hopen : isOpen = true := h (by rw [hoperation]; rfl)
    cases call with
    | «open» sqlite' => cases hoperation
    | close => cases hoperation
    | _ => exact hopen

theorem run_concat (calls : List Call) (call : Call) :
    run (calls ++ [call]) = Result.left (call.run (run calls)) := by
  rw [run, List.foldl_append, List.foldl_cons, List.foldl_nil, run]

theorem opened_concat (calls : List Call) (call : Call) :
    opened (calls ++ [call]) = openAfter (opened calls) call := by
  rw [opened, List.foldl_append, List.foldl_cons, List.foldl_nil, opened]

/-- Each operation finds the database open. -/
def AlwaysOpen : List Call → Prop :=
  Along fun earlier call => call.operation?.isSome → opened earlier = true

/-- The wrapper serves each call. -/
def AlwaysServed : List Call → Prop := Along fun earlier call => Served (run earlier) call

/-- While no operation finds the database closed, the mutex is free between the calls and the state
is what the calls say. -/
theorem run_eq {calls : List Call} (h : AlwaysOpen calls) : run calls = ⟨opened calls, false⟩ := by
  induction calls using List.reverseRecOn with
  | nil => rfl
  | append_singleton calls call ih =>
      rcases along_concat.1 h with ⟨hearlier, hlast⟩
      rw [run_concat, opened_concat, ih hearlier]
      exact (ends_run hlast).left

/-- The wrapper serves a run of calls if and only if each operation comes while the database is
open: the reopening of a closed one never succeeds. -/
theorem never_locked_out_iff (calls : List Call) : AlwaysServed calls ↔ AlwaysOpen calls := by
  -- from the end: the state before the last call is known once the earlier ones were served
  induction calls using List.reverseRecOn with
  | nil => exact iff_of_true along_nil along_nil
  | append_singleton calls call ih =>
      rw [AlwaysServed, AlwaysOpen, along_concat, along_concat]
      constructor
      · rintro ⟨hearlier, hlast⟩
        have hopen := ih.1 hearlier
        rw [run_eq hopen, served_iff] at hlast
        exact ⟨hopen, hlast⟩
      · rintro ⟨hearlier, hlast⟩
        refine ⟨ih.2 hearlier, ?_⟩
        rw [run_eq hearlier, served_iff]
        exact hlast

/-- SQLite has no complaints. -/
def fine : Sqlite where
  opened := .ok ()
  executed := .ok ()
  prepared := .ok ()
  rows := []
  done := true

/-- What a late request does after `shutdown` closed the database. -/
theorem late_query_locked_out :
    ¬ AlwaysServed [.open fine, .close, .selectPrepared fine fun _ => .ok ()] := by
  intro h
  have hserved := h [.open fine, .close] (.selectPrepared fine fun _ => .ok ()) (List.prefix_refl _)
  exact hserved.unlocked

end DBFile
end DChat
