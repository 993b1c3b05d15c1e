import DChat.Utils
import Mathlib.Data.List.Chain

/-!
# ConsoleUI — the line editor of the console

The thread that `startInputLoop` starts reads one key after the other.  The line is kept twice, in
the variable `input` of the thread and in the member `currentInput`, next to the position of the
cursor, the entered lines and a position among them.

A function is `none` where an insertion, an erasure or an access to the history would be out of
bounds.  What is drawn on the screen is left out.
-/

namespace DChat
namespace ConsoleUI

/-! ## Strings and vectors -/

/-- `s.insert(pos, 1, ch)`. -/
def insert (s : Bytes) (pos : Nat) (ch : UInt8) : Option Bytes :=
  if pos ≤ s.length then some (s.take pos ++ ch :: s.drop pos) else none

/-- `s.erase(pos, 1)`. -/
def erase (s : Bytes) (pos : Nat) : Option Bytes :=
  if pos ≤ s.length then some (s.take pos ++ s.drop (pos + 1)) else none

/-! ## The editor -/

/-- The members that the keys change, and the variable `input` of the thread. -/
structure Editor where
  input : Bytes
  currentInput : Bytes
  commandHistory : List Bytes
  historyIndex : Nat
  cursorPosition : Nat
  deriving DecidableEq, Repr

/-- `MAX_HISTORY_SIZE`. -/
def maxHistorySize : Nat := 100

/-- The beginning of `startInputLoop`, after the constructor. -/
def start : Editor :=
  { input := [], currentInput := [], commandHistory := [], historyIndex := 0, cursorPosition := 0 }

/-- `ConsoleUI::addToHistory`. -/
def addToHistory (e : Editor) (command : Bytes) : Editor :=
  if command = [] then
    e
  else if e.commandHistory.getLast? = some command then
    e
  else
    let pushed := e.commandHistory ++ [command]
    let commandHistory := if maxHistorySize < pushed.length then pushed.tail else pushed
    { e with commandHistory, historyIndex := commandHistory.length }

/-- The line becomes an entered one. -/
def showEntry (e : Editor) (index : Nat) : Option Editor :=
  match e.commandHistory[index]? with
  | some entry => some
      { e with input := entry, currentInput := entry, historyIndex := index,
               cursorPosition := entry.length }
  | none => none

/-- `ConsoleUI::navigateHistoryUp`. -/
def navigateHistoryUp (e : Editor) : Option Editor :=
  if e.commandHistory = [] then
    some e
  else if 0 < e.historyIndex then
    showEntry e (e.historyIndex - 1)
  else
    some e

/-- `ConsoleUI::navigateHistoryDown`. -/
def navigateHistoryDown (e : Editor) : Option Editor :=
  if e.commandHistory = [] then
    some e
  else if e.historyIndex < e.commandHistory.length then
    if e.historyIndex + 1 ≥ e.commandHistory.length then
      some { e with input := [], currentInput := [], historyIndex := e.historyIndex + 1,
                    cursorPosition := 0 }
    else
      showEntry e (e.historyIndex + 1)
  else
    some e

/-- `ConsoleUI::handleKeyPress`; a `char` above 127 is negative there, so it is no ASCII. -/
def handleKeyPress (e : Editor) (ch : UInt8) : Option Editor :=
  if ch = 8 ∨ ch = 127 then
    if e.input ≠ [] ∧ 0 < e.cursorPosition then
      match erase e.input (e.cursorPosition - 1) with
      | some input => some
          { e with input, currentInput := input, cursorPosition := e.cursorPosition - 1 }
      | none => none
    else
      some e
  else if 32 ≤ ch ∧ ch ≤ 126 then
    match insert e.input e.cursorPosition ch with
    | some input => some
        { e with input, currentInput := input, cursorPosition := e.cursorPosition + 1 }
    | none => none
  else
    some e

/-- `ConsoleUI::handleExtendedKey`. -/
def handleExtendedKey (e : Editor) (extendedCode : Int) : Option Editor :=
  match extendedCode with
  | 72 => navigateHistoryUp e
  | 80 => navigateHistoryDown e
  | 75 => some (if 0 < e.cursorPosition then
      { e with cursorPosition := e.cursorPosition - 1 } else e)
  | 77 => some (if e.cursorPosition < e.input.length then
      { e with cursorPosition := e.cursorPosition + 1 } else e)
  | 71 => some { e with cursorPosition := 0 }
  | 79 => some { e with cursorPosition := e.input.length }
  | 83 =>
      if e.cursorPosition < e.input.length then
        match erase e.input e.cursorPosition with
        | some input => some { e with input, currentInput := input }
        | none => none
      else
        some e
  | _ => some e

/-- A pass of the loop in which a key was hit: what `_getch` gave, what a second `_getch` gives if
`_kbhit` says that there is more, and whether the loop is still `running` after the handler of the
line. -/
structure KeyEvent where
  ch : Int
  extended : Option Int
  running : Bool

/-- The branch for Enter; the handler of the line touches none of the members. -/
def handleEnter (e : Editor) (running : Bool) : Editor :=
  let entered :=
    if e.input = [] then
      e
    else
      let added := addToHistory e e.input
      { added with input := [], currentInput := [], cursorPosition := 0,
                   historyIndex := added.commandHistory.length }
  if running then { entered with cursorPosition := 0 } else entered

/-- One pass of the loop of `startInputLoop`. -/
def handleEvent (e : Editor) (event : KeyEvent) : Option Editor :=
  if event.ch = 13 ∨ event.ch = 10 then
    some (handleEnter e event.running)
  else if event.ch = 0 ∨ event.ch = 0xE0 ∨ event.ch = 224 then
    match event.extended with
    | some extendedCode => handleExtendedKey e extendedCode
    | none => some e
  else
    handleKeyPress e (UInt8.ofInt event.ch)

/-- The passes of the loop. -/
def inputLoop (e : Editor) (events : List KeyEvent) : Option Editor := events.foldlM handleEvent e

/-! ## What holds between the keys -/

/-- The history holds at most a hundred lines, none of them empty, no two neighbours equal. -/
structure HistorySound (history : List Bytes) : Prop where
  size : history.length ≤ maxHistorySize
  nonempty : ∀ entry ∈ history, entry ≠ []
  distinct : history.IsChain (· ≠ ·)

structure Sound (e : Editor) : Prop where
  cursor : e.cursorPosition ≤ e.input.length
  index : e.historyIndex ≤ e.commandHistory.length
  current : e.currentInput = e.input
  history : HistorySound e.commandHistory

theorem sound_start : Sound start where
  cursor := Nat.le_refl _
  index := Nat.le_refl _
  current := rfl
  history := ⟨Nat.zero_le _, by simp [start], List.IsChain.nil⟩

/-- A step stays in bounds and keeps the editor sound. -/
def Keeps (step : Option Editor) : Prop := ∃ e', step = some e' ∧ Sound e'

theorem keeps_some {e : Editor} (h : Sound e) : Keeps (some e) := ⟨e, rfl, h⟩

/-! ## The history -/

theorem HistorySound.push {history : List Bytes} {command : Bytes} (h : HistorySound history)
    (hne : command ≠ []) (hlast : history.getLast? ≠ some command) :
    HistorySound (if maxHistorySize < (history ++ [command]).length then
      (history ++ [command]).tail else history ++ [command]) := by
  have hnonempty : ∀ entry ∈ history ++ [command], entry ≠ [] := by
    intro entry hentry
    rcases List.mem_append.1 hentry with hold | hnew
    · exact h.nonempty entry hold
    · exact List.mem_singleton.1 hnew ▸ hne
  have hdistinct : (history ++ [command]).IsChain (· ≠ ·) := by
    refine List.isChain_append.2 ⟨h.distinct, List.isChain_singleton _, ?_⟩
    -- only the old last entry meets the new one
    intro x hx y hy
    have hxlast : history.getLast? = some x := hx
    rw [List.head?_singleton, Option.mem_some_iff] at hy
    rintro rfl
    exact hlast (hy ▸ hxlast)
  have hlength : (history ++ [command]).length = history.length + 1 := by simp
  split_ifs with hfull
  · -- the oldest line makes room
    refine ⟨?_, fun entry hentry => hnonempty entry (List.mem_of_mem_tail hentry),
      hdistinct.tail⟩
    have hsize := h.size
    rw [List.length_tail, hlength]
    omega
  · exact ⟨Nat.le_of_not_lt hfull, hnonempty, hdistinct⟩

theorem addToHistory_history {e : Editor} {command : Bytes} (h : HistorySound e.commandHistory) :
    HistorySound (addToHistory e command).commandHistory := by
  rw [addToHistory]
  split_ifs with hempty hlast
  · exact h
  · exact h
  · exact h.push hempty hlast

theorem keeps_showEntry {e : Editor} (h : Sound e) {index : Nat}
    (hindex : index < e.commandHistory.length) : Keeps (showEntry e index) := by
  have hentry : e.commandHistory[index]? = some e.commandHistory[index] :=
    List.getElem?_eq_getElem hindex
  refine ⟨_, by rw [showEntry, hentry], ?_⟩
  exact ⟨Nat.le_refl _, Nat.le_of_lt hindex, rfl, h.history⟩

theorem keeps_navigateHistoryUp {e : Editor} (h : Sound e) : Keeps (navigateHistoryUp e) := by
  rw [navigateHistoryUp]
  have hindex := h.index
  split_ifs with hempty hpos
  · exact keeps_some h
  · exact keeps_showEntry h (by omega)
  · exact keeps_some h

theorem keeps_navigateHistoryDown {e : Editor} (h : Sound e) : Keeps (navigateHistoryDown e) := by
  rw [navigateHistoryDown]
  split_ifs with hempty hlt hend
  · exact keeps_some h
  · -- below the newest line there is an empty one
    exact keeps_some ⟨Nat.le_refl _, hlt, rfl, h.history⟩
  · exact keeps_showEntry h (Nat.lt_of_not_le hend)
  · exact keeps_some h

/-! ## The line -/

theorem insert_eq {s : Bytes} {pos : Nat} (h : pos ≤ s.length) (ch : UInt8) :
    ∃ t, insert s pos ch = some t ∧ t.length = s.length + 1 := by
  refine ⟨_, if_pos h, ?_⟩
  rw [List.length_append, List.length_take, List.length_cons, List.length_drop]
  omega

theorem erase_eq {s : Bytes} {pos : Nat} (h : pos < s.length) :
    ∃ t, erase s pos = some t ∧ t.length + 1 = s.length := by
  refine ⟨_, if_pos (Nat.le_of_lt h), ?_⟩
  rw [List.length_append, List.length_take, List.length_drop]
  omega

theorem keeps_handleKeyPress {e : Editor} (h : Sound e) (ch : UInt8) :
    Keeps (handleKeyPress e ch) := by
  have hcursor := h.cursor
  rw [handleKeyPress]
  split_ifs with hback hinside hprint
  · have hlast : e.cursorPosition - 1 < e.input.length := by omega
    rcases erase_eq hlast with ⟨input, herase, hlength⟩
    rw [herase]
    exact keeps_some ⟨by show e.cursorPosition - 1 ≤ input.length; omega, h.index, rfl, h.history⟩
  · exact keeps_some h
  · rcases insert_eq hcursor ch with ⟨input, hinsert, hlength⟩
    rw [hinsert]
    exact keeps_some ⟨by show e.cursorPosition + 1 ≤ input.length; omega, h.index, rfl, h.history⟩
  · exact keeps_some h

theorem keeps_handleExtendedKey {e : Editor} (h : Sound e) (extendedCode : Int) :
    Keeps (handleExtendedKey e extendedCode) := by
  have hcursor := h.cursor
  unfold handleExtendedKey
  split
  · exact keeps_navigateHistoryUp h
  · exact keeps_navigateHistoryDown h
  · split_ifs
    · exact keeps_some ⟨by show e.cursorPosition - 1 ≤ e.input.length; omega, h.index, h.current,
        h.history⟩
    · exact keeps_some h
  · split_ifs with hlt
    · exact keeps_some ⟨hlt, h.index, h.current, h.history⟩
    · exact keeps_some h
  · exact keeps_some ⟨Nat.zero_le _, h.index, h.current, h.history⟩
  · exact keeps_some ⟨Nat.le_refl _, h.index, h.current, h.history⟩
  · split_ifs with hlt
    · rcases erase_eq hlt with ⟨input, herase, hlength⟩
      rw [herase]
      exact keeps_some ⟨by show e.cursorPosition ≤ input.length; omega, h.index, rfl, h.history⟩
    · exact keeps_some h
  · exact keeps_some h

/-! ## Keys -/

theorem sound_handleEnter {e : Editor} (h : Sound e) (running : Bool) :
    Sound (handleEnter e running) := by
  have hentered : Sound (handleEnter e false) := by
    by_cases hempty : e.input = []
    · rw [show handleEnter e false = e by simp [handleEnter, hempty]]
      exact h
    · simp only [handleEnter, hempty, if_false]
      exact ⟨Nat.le_refl _, Nat.le_refl _, rfl, addToHistory_history h.history⟩
  cases running with
  | false => exact hentered
  | true => exact ⟨Nat.zero_le _, hentered.index, hentered.current, hentered.history⟩

/-- One key. -/
theorem keeps_handleEvent {e : Editor} (h : Sound e) (event : KeyEvent) :
    Keeps (handleEvent e event) := by
  rw [handleEvent]
  split_ifs
  · exact keeps_some (sound_handleEnter h event.running)
  · cases event.extended with
    | some extendedCode => exact keeps_handleExtendedKey h extendedCode
    | none => exact keeps_some h
  · exact keeps_handleKeyPress h _

theorem keeps_inputLoop {e : Editor} (h : Sound e) (events : List KeyEvent) :
    Keeps (inputLoop e events) := by
  induction events generalizing e with
  | nil => exact keeps_some h
  | cons event events ih =>
      rcases keeps_handleEvent h event with ⟨e', hevent, hsound⟩
      have hloop : inputLoop e (event :: events) = inputLoop e' events := by
        rw [inputLoop, List.foldlM_cons, hevent]
        rfl
      rw [hloop]
      exact ih hsound

/-- Whatever is typed, nothing is out of bounds, and after the last key so far the editor is
sound. -/
theorem editor_stays_sound (events : List KeyEvent) :
    ∃ e, inputLoop start events = some e ∧ Sound e :=
  keeps_inputLoop sound_start events

end ConsoleUI
end DChat
