import DChat.ConsoleUI
import DChat.Library.LineEditor

/-!
# EditorSession — what the line editor is for

For its user the editor is a line with a cursor: keys put a character there, take one away, move the
cursor, go back to an entered line or enter the line.  The positions and the second copy of the
line in `ConsoleUI` are a way to keep this.  The history is the last hundred of the entered
lines, without immediate repetitions, and the handler gets every entered line, once and in
order.
-/

namespace DChat
namespace ConsoleUI

open LineEditor

/-! ## The keys -/

/-- The arrows, Home, End and Delete. -/
def extendedKeyOf : Int → Option (Key UInt8)
  | 72 => some .up
  | 80 => some .down
  | 75 => some (.edit .left)
  | 77 => some (.edit .right)
  | 71 => some (.edit .home)
  | 79 => some (.edit .toEnd)
  | 83 => some (.edit .delete)
  | _ => none

/-- What a key means. -/
def keyOf (event : KeyEvent) : Option (Key UInt8) :=
  if event.ch = 13 ∨ event.ch = 10 then
    some .enter
  else if event.ch = 0 ∨ event.ch = 224 then
    event.extended.bind extendedKeyOf
  else
    let ch := UInt8.ofInt event.ch
    if ch = 8 ∨ ch = 127 then some (.edit .backspace)
    else if 32 ≤ ch ∧ ch ≤ 126 then some (.edit (.type ch))
    else none

/-- The line that the pass gives to the handler of `startInputLoop`. -/
def handled (e : Editor) (event : KeyEvent) : List Bytes :=
  if (event.ch = 13 ∨ event.ch = 10) ∧ e.input ≠ [] then [e.input] else []

/-- The lines that the handler gets. -/
def handledLines (e : Editor) : List KeyEvent → List Bytes
  | [] => []
  | event :: events =>
      handled e event ++
        match handleEvent e event with
        | some e' => handledLines e' events
        | none => []

/-- The members of the editor say what the session is. -/
structure Keeping (e : Editor) (s : Session UInt8) : Prop where
  input : e.input = s.line.text
  /-- what `restoreInputLine` prints again -/
  draft : e.currentInput = s.line.text
  cursor : e.cursorPosition = s.line.before.length
  history : e.commandHistory = remembered maxHistorySize s.entered
  index : e.historyIndex + s.back = e.commandHistory.length

/-- The characters that can be typed. -/
def Printable (line : Bytes) : Prop := ∀ c ∈ line, 32 ≤ c ∧ c ≤ 126

/-- The step of a pass that may mean nothing. -/
def advance (s : Session UInt8) : Option (Key UInt8) → Session UInt8
  | some key => s.step maxHistorySize key
  | none => s

/-! ## The line -/

variable {e : Editor} {s : Session UInt8}

theorem keeping_start : Keeping start Session.start where
  input := rfl
  draft := rfl
  cursor := rfl
  history := rfl
  index := rfl

/-- Another line, and nothing else. -/
theorem Keeping.edit (h : Keeping e s) {line : Line UInt8} {input currentInput : Bytes}
    {cursorPosition : Nat} (hinput : input = line.text) (hdraft : currentInput = line.text)
    (hcursor : cursorPosition = line.before.length) :
    Keeping { e with input, currentInput, cursorPosition } { s with line } where
  input := hinput
  draft := hdraft
  cursor := hcursor
  history := h.history
  index := h.index

theorem insert_at_cursor (l : Line UInt8) (ch : UInt8) :
    insert l.text l.before.length ch = some (l.edit (.type ch)).text := by
  rw [insert, if_pos (by rw [Line.text, List.length_append]; omega), Line.text, List.take_left,
    List.drop_left, Line.text, Line.edit, List.append_assoc, List.singleton_append]

theorem erase_before_cursor {l : Line UInt8} (h : l.before ≠ []) :
    erase l.text (l.before.length - 1) = some (l.edit .backspace).text := by
  have hpos : 0 < l.before.length := List.length_pos_of_ne_nil h
  rw [erase, if_pos (by rw [Line.text, List.length_append]; omega), Line.text,
    List.take_append_of_le_length (by omega), ← List.dropLast_eq_take,
    Nat.sub_add_cancel hpos, List.drop_left]
  rfl

theorem erase_at_cursor (l : Line UInt8) :
    erase l.text l.before.length = some (l.edit .delete).text := by
  rw [erase, if_pos (by rw [Line.text, List.length_append]; omega), Line.text, List.take_left,
    ← List.drop_drop, List.drop_left, List.drop_one]
  rfl

/-- Backspace and the characters. -/
theorem Keeping.handleKeyPress (h : Keeping e s) (ch : UInt8) :
    ∃ e', ConsoleUI.handleKeyPress e ch = some e' ∧
      Keeping e' (advance s (if ch = 8 ∨ ch = 127 then some (.edit .backspace)
        else if 32 ≤ ch ∧ ch ≤ 126 then some (.edit (.type ch)) else none)) := by
  rw [ConsoleUI.handleKeyPress]
  split_ifs with hback hinside hprint
  · have hne : s.line.before ≠ [] := by
      intro hnil
      have hcursor := hinside.2
      rw [h.cursor, hnil] at hcursor
      exact absurd hcursor (by decide)
    rw [h.input, h.cursor, erase_before_cursor hne]
    refine ⟨_, rfl, h.edit rfl rfl ?_⟩
    rw [Line.edit, List.length_dropLast]
  · -- there is nothing before the cursor
    have hnil : s.line.before = [] := by
      by_contra hne
      refine hinside ⟨?_, ?_⟩
      · rw [h.input, Line.text]
        exact List.append_ne_nil_of_left_ne_nil hne _
      · rw [h.cursor]
        exact List.length_pos_of_ne_nil hne
    refine ⟨e, rfl, ?_⟩
    have hsame : s.line.edit .backspace = s.line := by
      rw [Line.edit, hnil, List.dropLast_nil, ← hnil]
    rw [advance, Session.step, hsame]
    exact h
  · rw [h.input, h.cursor, insert_at_cursor]
    refine ⟨_, rfl, h.edit rfl rfl ?_⟩
    rw [Line.edit, List.length_append, List.length_singleton]
  · exact ⟨e, rfl, h⟩

/-! ## The history -/

theorem Keeping.length_le (h : Keeping e s) :
    s.back ≤ (remembered maxHistorySize s.entered).length := by
  have hindex := h.index
  rw [h.history] at hindex
  omega

/-- The entry at an index is the one that lies so far back. -/
theorem Keeping.showEntry (h : Keeping e s) {back : Nat} (hpos : 0 < back)
    (hback : back ≤ (remembered maxHistorySize s.entered).length) :
    ∃ e', ConsoleUI.showEntry e (e.commandHistory.length - back) = some e' ∧
      Keeping e' { s with line := recalled maxHistorySize s.entered back, back } := by
  rw [← h.history] at hback
  have hlt : e.commandHistory.length - back < e.commandHistory.length := by omega
  have hentry := List.getElem?_eq_getElem hlt
  have hline : recalled maxHistorySize s.entered back =
      Line.ofText e.commandHistory[e.commandHistory.length - back] := by
    have hreverse : (remembered maxHistorySize s.entered).reverse[back - 1]? =
        some e.commandHistory[e.commandHistory.length - back] := by
      rw [← h.history, List.getElem?_reverse (by omega), ← hentry]
      congr 1
      omega
    rw [recalled, hreverse]
    rfl
  rw [ConsoleUI.showEntry, hentry]
  refine ⟨_, rfl, ?_⟩
  constructor
  · rw [hline, Line.text, Line.ofText, List.append_nil]
  · rw [hline, Line.text, Line.ofText, List.append_nil]
  · rw [hline, Line.ofText]
  · exact h.history
  · dsimp only
    omega

theorem Keeping.navigateHistoryUp (h : Keeping e s) :
    ∃ e', ConsoleUI.navigateHistoryUp e = some e' ∧ Keeping e' (s.step maxHistorySize .up) := by
  have hindex := h.index
  rw [ConsoleUI.navigateHistoryUp, Session.step, ← h.history]
  split_ifs with hempty hback hpos hback hback
  · rw [hempty] at hback
    exact absurd hback (by simp)
  · exact ⟨e, rfl, h⟩
  · have hentry := h.showEntry (Nat.succ_pos s.back) (by rw [← h.history]; omega)
    have heq : e.historyIndex - 1 = e.commandHistory.length - (s.back + 1) := by omega
    rw [heq]
    exact hentry
  · omega
  · omega
  · exact ⟨e, rfl, h⟩

theorem Keeping.navigateHistoryDown (h : Keeping e s) :
    ∃ e', ConsoleUI.navigateHistoryDown e = some e' ∧ Keeping e' (s.step maxHistorySize .down) := by
  have hindex := h.index
  rw [ConsoleUI.navigateHistoryDown, Session.step]
  by_cases hzero : s.back = 0
  · -- the new line is the last one
    rw [if_pos hzero]
    split_ifs with hempty hlt
    · exact ⟨e, rfl, h⟩
    · omega
    · omega
    · exact ⟨e, rfl, h⟩
  · have hne : e.commandHistory ≠ [] := by
      intro hnil
      rw [hnil, List.length_nil] at hindex
      omega
    rw [if_neg hne, if_neg hzero, if_pos (by omega)]
    by_cases hone : s.back = 1
    · rw [if_pos hone, if_pos (by omega)]
      refine ⟨_, rfl, ?_⟩
      constructor
      · rfl
      · rfl
      · rfl
      · exact h.history
      · dsimp only
        omega
    · rw [if_neg hone, if_neg (by omega)]
      have hbefore : s.back - 1 ≤ (remembered maxHistorySize s.entered).length := by
        have hle := h.length_le
        omega
      have hentry := h.showEntry (by omega) hbefore
      have heq : e.historyIndex + 1 = e.commandHistory.length - (s.back - 1) := by omega
      rw [heq]
      exact hentry

theorem Keeping.handleExtendedKey (h : Keeping e s) (extendedCode : Int) :
    ∃ e', ConsoleUI.handleExtendedKey e extendedCode = some e' ∧
      Keeping e' (advance s (extendedKeyOf extendedCode)) := by
  unfold ConsoleUI.handleExtendedKey
  have hcursor : e.cursorPosition < e.input.length ↔ s.line.after ≠ [] := by
    rw [h.input, h.cursor, Line.text, List.length_append, Nat.lt_add_right_iff_pos,
      List.length_pos_iff]
  split
  · exact h.navigateHistoryUp
  · exact h.navigateHistoryDown
  · have hmoved := h.edit (h.input.trans s.line.text_edit_left.symm)
      (h.draft.trans s.line.text_edit_left.symm) s.line.length_edit_left.symm
    rw [← h.cursor] at hmoved
    refine ⟨_, rfl, ?_⟩
    split_ifs with hpos
    · exact hmoved
    · -- the cursor is at the beginning
      have hzero : e.cursorPosition - 1 = e.cursorPosition := by omega
      rwa [hzero] at hmoved
  -- the arrow to the right, which stops at the end of the line
  · have hmoved := h.edit (h.input.trans s.line.text_edit_right.symm)
      (h.draft.trans s.line.text_edit_right.symm) s.line.length_edit_right.symm
    rw [← h.cursor] at hmoved
    refine ⟨_, rfl, ?_⟩
    by_cases hafter : s.line.after = []
    · rw [if_pos hafter] at hmoved
      rw [if_neg fun hlt => hcursor.1 hlt hafter]
      exact hmoved
    · rw [if_neg hafter] at hmoved
      rw [if_pos (hcursor.2 hafter)]
      exact hmoved
  -- home and end
  · refine ⟨_, rfl, h.edit ?_ ?_ rfl⟩
    · rw [h.input]
      rfl
    · rw [h.draft]
      rfl
  · refine ⟨_, rfl, h.edit ?_ ?_ ?_⟩
    · rw [h.input, Line.edit, Line.text, Line.text, List.append_nil]
    · rw [h.draft, Line.edit, Line.text, Line.text, List.append_nil]
    · rw [h.input, Line.edit]
  · by_cases hafter : s.line.after = []
    · rw [if_neg fun hlt => hcursor.1 hlt hafter]
      have hsame : s.line.edit .delete = s.line := by
        rw [Line.edit, hafter, List.tail_nil, ← hafter]
      have hstep : s.step maxHistorySize (.edit .delete) = s := by rw [Session.step, hsame]
      refine ⟨e, rfl, ?_⟩
      change Keeping e (s.step maxHistorySize (.edit .delete))
      rwa [hstep]
    · rw [if_pos (hcursor.2 hafter), h.input, h.cursor, erase_at_cursor]
      exact ⟨_, rfl, h.edit rfl rfl rfl⟩
  -- no other code does anything
  · have hnone : extendedKeyOf extendedCode = none := by
      unfold extendedKeyOf
      split <;> first | contradiction | rfl
    rw [hnone]
    exact ⟨e, rfl, h⟩

/-! ## Enter -/

theorem Keeping.addToHistory (h : Keeping e s) {command : Bytes} (hne : command ≠ []) :
    (ConsoleUI.addToHistory e command).commandHistory =
      remembered maxHistorySize (s.entered ++ [command]) := by
  rw [remembered_concat (by decide), ← h.history, ConsoleUI.addToHistory, if_neg hne]
  dsimp only
  split_ifs <;> rfl

theorem Keeping.handleEnter (h : Keeping e s) (running : Bool) :
    Keeping (ConsoleUI.handleEnter e running) (s.step maxHistorySize .enter) := by
  have hentered : Keeping (ConsoleUI.handleEnter e false) (s.step maxHistorySize .enter) := by
    rw [Session.step, ← h.input]
    by_cases hempty : e.input = []
    · rw [show ConsoleUI.handleEnter e false = e by simp [ConsoleUI.handleEnter, hempty],
        if_pos hempty]
      exact h
    · rw [if_neg hempty]
      simp only [ConsoleUI.handleEnter, hempty, if_false]
      exact ⟨rfl, rfl, rfl, h.addToHistory hempty, rfl⟩
  cases running with
  | false => exact hentered
  | true =>
      -- the cursor of an empty line is set once more
      have hcursor : (ConsoleUI.handleEnter e true).cursorPosition =
          (s.step maxHistorySize .enter).line.before.length := by
        rw [Session.step]
        split_ifs with hempty
        · rw [Line.text, List.append_eq_nil_iff] at hempty
          rw [hempty.1]
          rfl
        · rfl
      exact ⟨hentered.input, hentered.draft, hcursor, hentered.history, hentered.index⟩

/-! ## Any keys -/

theorem extendedKeyOf_ne_enter (extendedCode : Int) : extendedKeyOf extendedCode ≠ some .enter := by
  unfold extendedKeyOf
  split <;> simp

/-- Only Enter gives a line to the handler. -/
theorem entered_advance (s : Session UInt8) {key : Option (Key UInt8)} (h : key ≠ some .enter) :
    (advance s key).entered = s.entered := by
  cases key with
  | none => rfl
  | some key => exact entered_step s fun heq => h (congrArg some heq)

/-- One pass of the loop. -/
theorem Keeping.handleEvent (h : Keeping e s) (event : KeyEvent) :
    ∃ e', ConsoleUI.handleEvent e event = some e' ∧ Keeping e' (advance s (keyOf event)) ∧
      (advance s (keyOf event)).entered = s.entered ++ handled e event := by
  rw [ConsoleUI.handleEvent, keyOf, handled]
  by_cases henter : event.ch = 13 ∨ event.ch = 10
  · rw [if_pos henter, if_pos henter]
    refine ⟨_, rfl, h.handleEnter event.running, ?_⟩
    rw [advance, Session.step, ← h.input]
    by_cases hempty : e.input = []
    · rw [if_pos hempty, if_neg fun hboth => hboth.2 hempty, List.append_nil]
    · rw [if_neg hempty, if_pos ⟨henter, hempty⟩]
  · have hothers : (if (event.ch = 13 ∨ event.ch = 10) ∧ e.input ≠ [] then [e.input] else []) =
        ([] : List Bytes) := if_neg fun hboth => henter hboth.1
    rw [if_neg henter, if_neg henter, hothers, List.append_nil]
    by_cases hextended : event.ch = 0 ∨ event.ch = 224
    · have hcodes : event.ch = 0 ∨ event.ch = 0xE0 ∨ event.ch = 224 :=
        hextended.imp_right Or.inr
      rw [if_pos hextended, if_pos hcodes]
      cases event.extended with
      | none => exact ⟨e, rfl, h, rfl⟩
      | some extendedCode =>
          obtain ⟨e', hevent, hkeeping⟩ := h.handleExtendedKey extendedCode
          exact ⟨e', hevent, hkeeping, entered_advance s (extendedKeyOf_ne_enter extendedCode)⟩
    · have hcodes : ¬ (event.ch = 0 ∨ event.ch = 0xE0 ∨ event.ch = 224) := by
        rintro (hzero | hcode | hcode)
        · exact hextended (Or.inl hzero)
        · exact hextended (Or.inr hcode)
        · exact hextended (Or.inr hcode)
      rw [if_neg hextended, if_neg hcodes]
      obtain ⟨e', hevent, hkeeping⟩ := h.handleKeyPress (UInt8.ofInt event.ch)
      refine ⟨e', hevent, hkeeping, entered_advance s ?_⟩
      dsimp only
      split_ifs <;> simp

/-- Nothing is typed that cannot be printed. -/
theorem printable_of_keyOf {event : KeyEvent} {c : UInt8}
    (h : keyOf event = some (.edit (.type c))) :
    32 ≤ c ∧ c ≤ 126 := by
  rw [keyOf] at h
  dsimp only at h
  split_ifs at h with henter hextended hback hprint
  · simp at h
  · have hcode : ∀ extendedCode, extendedKeyOf extendedCode ≠ some (.edit (.type c)) := by
      intro extendedCode
      unfold extendedKeyOf
      split <;> simp
    obtain ⟨extendedCode, -, hkey⟩ := Option.bind_eq_some_iff.1 h
    exact absurd hkey (hcode extendedCode)
  · simp at h
  · have hc : UInt8.ofInt event.ch = c := by simpa using h
    exact hc ▸ hprint

theorem keeping_inputLoop (h : Keeping e s) (events : List KeyEvent) :
    ∃ e', inputLoop e events = some e' ∧
      Keeping e' ((events.filterMap keyOf).foldl (Session.step maxHistorySize) s) ∧
      ((events.filterMap keyOf).foldl (Session.step maxHistorySize) s).entered =
        s.entered ++ handledLines e events := by
  induction events generalizing e s with
  | nil => exact ⟨e, rfl, h, (List.append_nil _).symm⟩
  | cons event events ih =>
      obtain ⟨e', hevent, hkeeping, hentered⟩ := h.handleEvent event
      obtain ⟨e'', hloop, hkeeping', hentered'⟩ := ih hkeeping
      have hfold : ((event :: events).filterMap keyOf).foldl (Session.step maxHistorySize) s =
          (events.filterMap keyOf).foldl (Session.step maxHistorySize)
            (advance s (keyOf event)) := by
        cases hkey : keyOf event <;> simp [hkey, advance]
      rw [hfold, handledLines, hevent, ← List.append_assoc, ← hentered]
      refine ⟨e'', ?_, hkeeping', hentered'⟩
      rw [inputLoop, List.foldlM_cons, hevent]
      exact hloop

/-- Whatever is typed, the editor says what the session of the keys is, and the handler gets the
lines that were entered, none of them empty and all of them printable. -/
theorem editor_keeps_session (events : List KeyEvent) :
    ∃ e, inputLoop start events = some e ∧
      Keeping e (Session.run maxHistorySize (events.filterMap keyOf)) ∧
      handledLines start events =
        (Session.run maxHistorySize (events.filterMap keyOf)).entered ∧
      ∀ line ∈ handledLines start events, line ≠ [] ∧ Printable line := by
  obtain ⟨e, hloop, hkeeping, hentered⟩ := keeping_inputLoop keeping_start events
  have hstart : (Session.start : Session UInt8).All fun c => 32 ≤ c ∧ c ≤ 126 :=
    ⟨fun c hc => absurd hc List.not_mem_nil, fun line hline => absurd hline List.not_mem_nil⟩
  have hall := Session.All.foldl maxHistorySize (events.filterMap keyOf) hstart fun c hc => by
      obtain ⟨event, -, hkey⟩ := List.mem_filterMap.1 hc
      exact printable_of_keyOf hkey
  have hlines : handledLines start events =
      (Session.run maxHistorySize (events.filterMap keyOf)).entered := hentered.symm
  refine ⟨e, hloop, hkeeping, hlines, fun line hline => ?_⟩
  exact hall.entered line (hlines ▸ hline)

end ConsoleUI
end DChat
