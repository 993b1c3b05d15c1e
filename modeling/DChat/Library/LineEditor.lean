import Mathlib.Data.List.Destutter
import Mathlib.Data.List.DropRight

/-!
# LineEditor — a line with a cursor, and the lines that were entered

A line is what stands before the cursor and what stands behind it.  A session keeps the line that is
typed and all the lines that were entered.  Of these the newest ones can be recalled, up to a number
and without immediate repetitions.
-/

namespace LineEditor

variable {α : Type}

/-! ## Lines -/

/-- A line, cut at the cursor. -/
structure Line (α : Type) where
  before : List α
  after : List α

namespace Line

def text (l : Line α) : List α := l.before ++ l.after

def empty : Line α := ⟨[], []⟩

/-- The cursor stands at the end. -/
def ofText (text : List α) : Line α := ⟨text, []⟩

end Line

inductive Edit (α : Type)
  | type (a : α)
  | backspace
  | delete
  | left
  | right
  | home
  | toEnd

def Line.edit (l : Line α) : Edit α → Line α
  | .type a => ⟨l.before ++ [a], l.after⟩
  | .backspace => ⟨l.before.dropLast, l.after⟩
  | .delete => ⟨l.before, l.after.tail⟩
  | .left =>
      match l.before.getLast? with
      | some a => ⟨l.before.dropLast, a :: l.after⟩
      | none => l
  | .right =>
      match l.after with
      | a :: after => ⟨l.before ++ [a], after⟩
      | [] => l
  | .home => ⟨[], l.text⟩
  | .toEnd => ⟨l.text, []⟩

namespace Line

/-- Moving the cursor keeps the text. -/
theorem text_edit_left (l : Line α) : (l.edit .left).text = l.text := by
  rcases List.eq_nil_or_concat l.before with hnil | ⟨before, a, hbefore⟩
  · simp [edit, hnil]
  · simp [edit, text, hbefore]

theorem length_edit_left (l : Line α) : (l.edit .left).before.length = l.before.length - 1 := by
  rcases List.eq_nil_or_concat l.before with hnil | ⟨before, a, hbefore⟩
  · simp [edit, hnil]
  · simp [edit, hbefore]

theorem text_edit_right (l : Line α) : (l.edit .right).text = l.text := by
  cases hafter : l.after <;> simp [edit, text, hafter]

theorem length_edit_right (l : Line α) : (l.edit .right).before.length =
    if l.after = [] then l.before.length else l.before.length + 1 := by
  cases hafter : l.after <;> simp [edit, hafter]

end Line

/-! ## Sessions -/

section Sessions

variable [DecidableEq α]

/-- What can be recalled of the entered lines. -/
def remembered (size : Nat) (entered : List (List α)) : List (List α) :=
  (entered.destutter (· ≠ ·)).rtake size

/-- The line that is typed, the lines that were entered, and how many of them the line lies back. -/
structure Session (α : Type) where
  line : Line α
  entered : List (List α)
  back : Nat

def Session.start : Session α := ⟨Line.empty, [], 0⟩

inductive Key (α : Type)
  | edit (e : Edit α)
  | up
  | down
  | enter

/-- The line that lies `back` lines back, with the cursor at its end. -/
def recalled (size : Nat) (entered : List (List α)) (back : Nat) : Line α :=
  Line.ofText (((remembered size entered).reverse[back - 1]?).getD [])

def Session.step (size : Nat) (s : Session α) : Key α → Session α
  | .edit e => { s with line := s.line.edit e }
  | .up =>
      if s.back < (remembered size s.entered).length then
        { s with line := recalled size s.entered (s.back + 1), back := s.back + 1 }
      else
        s
  | .down =>
      if s.back = 0 then
        s
      else if s.back = 1 then
        { s with line := Line.empty, back := 0 }
      else
        { s with line := recalled size s.entered (s.back - 1), back := s.back - 1 }
  | .enter =>
      if s.line.text = [] then
        s
      else
        { line := Line.empty, entered := s.entered ++ [s.line.text], back := 0 }

def Session.run (size : Nat) (keys : List (Key α)) : Session α := keys.foldl (step size) start

/-- Only Enter adds to the entered lines. -/
theorem entered_step {size : Nat} (s : Session α) {key : Key α} (h : key ≠ .enter) :
    (s.step size key).entered = s.entered := by
  cases key with
  | edit e => rfl
  | up =>
      rw [Session.step]
      split_ifs <;> rfl
  | down =>
      rw [Session.step]
      split_ifs <;> rfl
  | enter => exact absurd rfl h

/-! ## What can be recalled -/

theorem destutter'_concat {β : Type} {R : β → β → Prop} [DecidableRel R] (a b : β) (l : List β) :
    (l ++ [b]).destutter' R a =
      if ∀ last ∈ (l.destutter' R a).getLast?, R last b then l.destutter' R a ++ [b]
      else l.destutter' R a := by
  induction l generalizing a with
  | nil => simp [List.destutter'_singleton]
  | cons c l ih =>
      by_cases hR : R a c
      · rw [List.cons_append, List.destutter'_cons_pos _ hR, List.destutter'_cons_pos _ hR, ih]
        have hlast : (a :: l.destutter' R c).getLast? = (l.destutter' R c).getLast? := by
          rw [List.getLast?_cons]
          cases h : (l.destutter' R c).getLast? with
          | none => exact absurd (List.getLast?_eq_none_iff.1 h) (List.destutter'_ne_nil _ _)
          | some last => rfl
        rw [hlast]
        split_ifs <;> rfl
      · rw [List.cons_append, List.destutter'_cons_neg _ hR, List.destutter'_cons_neg _ hR, ih]

/-- A line is added unless the newest one is the same. -/
theorem destutter_concat {β : Type} [DecidableEq β] (l : List β) (b : β) :
    (l ++ [b]).destutter (· ≠ ·) =
      if (l.destutter (· ≠ ·)).getLast? = some b then l.destutter (· ≠ ·)
      else l.destutter (· ≠ ·) ++ [b] := by
  cases l with
  | nil => simp
  | cons a l =>
      rw [List.cons_append, List.destutter_cons', List.destutter_cons', destutter'_concat]
      cases hlast : (l.destutter' (· ≠ ·) a).getLast? with
      | none => exact absurd (List.getLast?_eq_none_iff.1 hlast) (List.destutter'_ne_nil _ _)
      | some last =>
          by_cases heq : last = b <;> simp [heq]

theorem getLast?_rtake {β : Type} {n : Nat} (hn : 0 < n) (l : List β) :
    (l.rtake n).getLast? = l.getLast? := by
  rw [List.rtake_eq_reverse_take_reverse, List.getLast?_reverse, List.head?_take, if_neg (by omega),
    List.head?_reverse]

/-- The last `n` of one more element: the oldest one makes room. -/
theorem rtake_concat {β : Type} {n : Nat} (hn : 0 < n) (l : List β) (b : β) :
    (l ++ [b]).rtake n = if n < (l.rtake n ++ [b]).length then (l.rtake n ++ [b]).tail
      else l.rtake n ++ [b] := by
  have hlength : (l.rtake n ++ [b]).length = l.length - (l.length - n) + 1 := by
    rw [List.length_append, List.rtake, List.length_drop, List.length_singleton]
  have hone : (l ++ [b]).rtake n = l.drop (l.length + 1 - n) ++ [b] := by
    rw [List.rtake, List.length_append, List.length_singleton,
      List.drop_append_of_le_length (by omega)]
  rw [hlength, hone, List.rtake]
  split_ifs with hfull
  · have hne : l.drop (l.length - n) ≠ [] := by
      rw [Ne, List.drop_eq_nil_iff]
      omega
    rw [List.tail_append_of_ne_nil hne, List.tail_drop]
    congr 2
    omega
  · congr 2
    omega

/-- What one more line changes. -/
theorem remembered_concat {size : Nat} (hsize : 0 < size) (entered : List (List α))
    (line : List α) :
    remembered size (entered ++ [line]) =
      if (remembered size entered).getLast? = some line then remembered size entered
      else if size < (remembered size entered ++ [line]).length then
        (remembered size entered ++ [line]).tail
      else remembered size entered ++ [line] := by
  rw [remembered, remembered, destutter_concat, getLast?_rtake hsize]
  split_ifs with hlast hfull
  · rfl
  · rw [rtake_concat hsize, if_pos hfull]
  · rw [rtake_concat hsize, if_neg hfull]

theorem mem_of_mem_remembered {size : Nat} {entered : List (List α)} {line : List α}
    (h : line ∈ remembered size entered) : line ∈ entered :=
  (List.destutter_sublist _ _).subset (List.mem_of_mem_drop h)

/-! ## What was typed -/

/-- All characters satisfy `p`, and no entered line is empty. -/
structure Session.All (p : α → Prop) (s : Session α) : Prop where
  line : ∀ a ∈ s.line.text, p a
  entered : ∀ line ∈ s.entered, line ≠ [] ∧ ∀ a ∈ line, p a

omit [DecidableEq α] in
/-- An edit brings no character but the one that is typed. -/
theorem Line.mem_text_edit {l : Line α} {e : Edit α} {a : α} (h : a ∈ (l.edit e).text) :
    a ∈ l.text ∨ e = .type a := by
  cases e with
  | type b =>
      rw [Line.edit, Line.text, List.mem_append, List.mem_append, List.mem_singleton] at h
      rw [Line.text, List.mem_append]
      rcases h with (h | rfl) | h
      · exact Or.inl (Or.inl h)
      · exact Or.inr rfl
      · exact Or.inl (Or.inr h)
  | backspace =>
      rw [Line.edit, Line.text, List.mem_append] at h
      exact Or.inl
        (List.mem_append.2 (h.imp_left fun hmem => (List.dropLast_sublist _).subset hmem))
  | delete =>
      rw [Line.edit, Line.text, List.mem_append] at h
      exact Or.inl (List.mem_append.2 (h.imp_right List.mem_of_mem_tail))
  | left => exact Or.inl (l.text_edit_left ▸ h)
  | right => exact Or.inl (l.text_edit_right ▸ h)
  | home => exact Or.inl (by simpa [Line.edit, Line.text] using h)
  | toEnd => exact Or.inl (by simpa [Line.edit, Line.text] using h)

theorem mem_text_recalled {size : Nat} {entered : List (List α)} {back : Nat} {a : α}
    (h : a ∈ (recalled size entered back).text) : ∃ line ∈ entered, a ∈ line := by
  rw [recalled, Line.ofText, Line.text, List.append_nil] at h
  cases hline : (remembered size entered).reverse[back - 1]? with
  | none =>
      rw [hline] at h
      cases h
  | some line =>
      rw [hline] at h
      have hmem := List.mem_reverse.1 (List.mem_of_getElem? hline)
      exact ⟨line, mem_of_mem_remembered hmem, h⟩

theorem Session.All.step {size : Nat} {p : α → Prop} {s : Session α} (h : s.All p) {key : Key α}
    (htyped : ∀ a, key = .edit (.type a) → p a) : (s.step size key).All p := by
  have hrecalled : ∀ back, ∀ a ∈ (recalled size s.entered back).text, p a := by
    intro back a ha
    obtain ⟨line, hline, hmem⟩ := mem_text_recalled ha
    exact (h.entered line hline).2 a hmem
  have hempty : ∀ a ∈ (Line.empty : Line α).text, p a := fun a ha => absurd ha List.not_mem_nil
  cases key with
  | edit e =>
      refine ⟨fun a ha => ?_, h.entered⟩
      rcases Line.mem_text_edit ha with hold | rfl
      · exact h.line a hold
      · exact htyped a rfl
  | up =>
      rw [Session.step]
      split_ifs
      · exact ⟨hrecalled _, h.entered⟩
      · exact h
  | down =>
      rw [Session.step]
      split_ifs
      · exact h
      · exact ⟨hempty, h.entered⟩
      · exact ⟨hrecalled _, h.entered⟩
  | enter =>
      rw [Session.step]
      split_ifs with hnil
      · exact h
      · refine ⟨hempty, fun line hline => ?_⟩
        rcases List.mem_append.1 hline with hold | hnew
        · exact h.entered line hold
        · rw [List.mem_singleton.1 hnew]
          exact ⟨hnil, h.line⟩

/-- Any keys. -/
theorem Session.All.foldl (size : Nat) (keys : List (Key α)) {p : α → Prop} {s : Session α}
    (h : s.All p) (htyped : ∀ a, Key.edit (.type a) ∈ keys → p a) :
    (keys.foldl (Session.step size) s).All p := by
  induction keys generalizing s with
  | nil => exact h
  | cons key keys ih =>
      exact ih (h.step fun a heq => htyped a (heq ▸ List.mem_cons_self ..))
        fun a ha => htyped a (List.mem_cons_of_mem _ ha)

end Sessions

end LineEditor
