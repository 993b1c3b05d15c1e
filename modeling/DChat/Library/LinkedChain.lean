import Mathlib.Data.List.Nodup
import Mathlib.Data.List.Infix

/-!
# LinkedChain — sequences of records linked through their predecessor

A record has an identifier `ident b` and names its predecessor by `parent b`.
`LinkedFrom p l` says that `l` is one unbroken chain that starts at the marker `p`.

The lemmas come in three groups:

* how linking and the tip behave when a chain is extended at its end;
* which records have children: every record but the last one has a child, so an
  identifier without a child is the tip, and the last record stored never has one;
* what the tip commits to: when equal identifiers force equal parents, equal tips force
  equal histories, and no identifier repeats.
-/

namespace LinkedChain

variable {α H β : Type} (ident parent : α → H)

/-- `l` is a chain of records whose first parent is `p`. -/
def LinkedFrom (p : H) : List α → Prop
  | [] => True
  | b :: bs => parent b = p ∧ LinkedFrom (ident b) bs

/-- The identifier a next record has to name: the last one, or the marker `p`. -/
def tip (p : H) (l : List α) : H :=
  (l.getLast?.map ident).getD p

variable {ident parent}

/-! ## Extending a chain at its end -/

@[simp] theorem linkedFrom_nil (p : H) : LinkedFrom ident parent p [] := trivial

@[simp] theorem linkedFrom_cons {p : H} {b : α} {bs : List α} :
    LinkedFrom ident parent p (b :: bs) ↔
      parent b = p ∧ LinkedFrom ident parent (ident b) bs := Iff.rfl

@[simp] theorem tip_nil (p : H) : tip ident p [] = p := rfl

@[simp] theorem tip_cons (p : H) (b : α) (bs : List α) :
    tip ident p (b :: bs) = tip ident (ident b) bs := by
  cases bs with
  | nil => rfl
  | cons c cs =>
      simp [tip, List.getLast?_cons]

@[simp] theorem tip_concat (p : H) (l : List α) (b : α) :
    tip ident p (l ++ [b]) = ident b := by
  simp [tip]

theorem linkedFrom_append {p : H} {l m : List α} :
    LinkedFrom ident parent p (l ++ m) ↔
      LinkedFrom ident parent p l ∧ LinkedFrom ident parent (tip ident p l) m := by
  induction l generalizing p with
  | nil => simp
  | cons b bs ih => simp [ih, and_assoc]

theorem linkedFrom_concat {p : H} {l : List α} {b : α} :
    LinkedFrom ident parent p (l ++ [b]) ↔
      LinkedFrom ident parent p l ∧ parent b = tip ident p l := by
  simp [linkedFrom_append]

theorem LinkedFrom.of_prefix {p : H} {l m : List α}
    (h : LinkedFrom ident parent p m) (hl : l <+: m) : LinkedFrom ident parent p l := by
  obtain ⟨r, rfl⟩ := hl
  exact (linkedFrom_append.1 h).1

variable (ident) in
/-- The tip of a non-empty chain is the identifier of one of its records. -/
theorem tip_mem {l : List α} (p : H) (hl : l ≠ []) : ∃ b ∈ l, ident b = tip ident p l := by
  refine ⟨l.getLast hl, List.getLast_mem hl, ?_⟩
  simp [tip, List.getLast?_eq_some_getLast hl]

/-! ## Children -/

/-- Every record of a chain is the tip or has a child in the chain. -/
theorem tip_or_child {p : H} {l : List α} (h : LinkedFrom ident parent p l) {c : α}
    (hc : c ∈ l) : ident c = tip ident p l ∨ ∃ b ∈ l, parent b = ident c := by
  induction l generalizing p with
  | nil => cases hc
  | cons b bs ih =>
      obtain ⟨_, htail⟩ := linkedFrom_cons.1 h
      rcases List.mem_cons.1 hc with rfl | hmem
      · cases bs with
        | nil => exact Or.inl rfl
        | cons d ds =>
            have hd : parent d = ident c := htail.1
            exact Or.inr ⟨d, by simp, hd⟩
      · rcases ih htail hmem with htip | ⟨d, hd, hpar⟩
        · exact Or.inl (by simpa using htip)
        · exact Or.inr ⟨d, List.mem_cons_of_mem _ hd, hpar⟩

/-- An identifier of the chain that no record names as its parent is the tip. -/
theorem eq_tip_of_childless {p h : H} {l : List α} (hl : LinkedFrom ident parent p l)
    (hmem : ∃ c ∈ l, ident c = h) (hchild : ∀ b ∈ l, parent b ≠ h) : h = tip ident p l := by
  obtain ⟨c, hc, rfl⟩ := hmem
  rcases tip_or_child hl hc with htip | ⟨b, hb, hpar⟩
  · exact htip
  · exact absurd hpar (hchild b hb)

/-! ## Trees

Records stored one after the other, each under the marker or under a record stored before it.
A chain is one such list; a tree with forks is another. -/

variable (ident parent) in
/-- Every record of the list names the marker `p` or an earlier record. -/
inductive Grounded (p : H) : List α → Prop
  | nil : Grounded p []
  | concat {l : List α} {b : α} : Grounded p l →
      (parent b = p ∨ ∃ c ∈ l, ident c = parent b) → Grounded p (l ++ [b])

theorem LinkedFrom.grounded {p : H} {l : List α} (h : LinkedFrom ident parent p l) :
    Grounded ident parent p l := by
  induction l using List.reverseRecOn with
  | nil => exact .nil
  | append_singleton l b ih =>
      obtain ⟨hl, hb⟩ := linkedFrom_concat.1 h
      refine .concat (ih hl) ?_
      by_cases hne : l = []
      · exact Or.inl (by simpa [hne] using hb)
      · obtain ⟨c, hc, htip⟩ := tip_mem ident p hne
        exact Or.inr ⟨c, hc, htip.trans hb.symm⟩

theorem Grounded.parent_eq_or_mem {p : H} {l : List α} (h : Grounded ident parent p l) {b : α}
    (hb : b ∈ l) : parent b = p ∨ ∃ c ∈ l, ident c = parent b := by
  induction h with
  | nil => cases hb
  | @concat l d _ hd ih =>
      have hmem : parent b = p ∨ ∃ c ∈ l, ident c = parent b := by
        rcases List.mem_append.1 hb with hold | hnew
        · exact ih hold
        · rw [List.mem_singleton.1 hnew]
          exact hd
      rcases hmem with hroot | ⟨c, hc, hpar⟩
      · exact Or.inl hroot
      · exact Or.inr ⟨c, List.mem_append_left _ hc, hpar⟩

/-- With distinct identifiers and a marker that is none of them, the last record has no
child. -/
theorem Grounded.parent_ne_tip {p : H} {l : List α} (h : Grounded ident parent p l)
    (hnodup : (l.map ident).Nodup) (hroot : ∀ b ∈ l, ident b ≠ p) (hl : l ≠ []) :
    ∀ b ∈ l, parent b ≠ tip ident p l := by
  cases h with
  | nil => exact absurd rfl hl
  | @concat l d hl' hd =>
      have hfresh : ∀ c ∈ l, ident c ≠ ident d := by
        intro c hc heq
        rw [List.map_append, List.nodup_append'] at hnodup
        exact hnodup.2.2 (List.mem_map.2 ⟨c, hc, rfl⟩) (by simp [heq])
      intro b hb
      have hpar : parent b = p ∨ ∃ c ∈ l, ident c = parent b := by
        rcases List.mem_append.1 hb with hold | hnew
        · exact hl'.parent_eq_or_mem hold
        · rw [List.mem_singleton.1 hnew]
          exact hd
      rw [tip_concat]
      rcases hpar with hmark | ⟨c, hc, hpar⟩
      · exact fun heq => hroot d (by simp) (heq.symm.trans hmark)
      · exact fun heq => hfresh c hc (hpar.trans heq)

/-! ## What the tip commits to -/

/-- Equal tips of two chains force equal values of every `f` that the identifier determines. -/
theorem map_eq_of_tip_eq (f : α → β) {p : H} {A B : List α}
    (hA : LinkedFrom ident parent p A) (hB : LinkedFrom ident parent p B)
    (hrootA : ∀ a ∈ A, ident a ≠ p) (hrootB : ∀ b ∈ B, ident b ≠ p)
    (hparent : ∀ a ∈ A, ∀ b ∈ B, ident a = ident b → parent a = parent b)
    (hf : ∀ a ∈ A, ∀ b ∈ B, ident a = ident b → f a = f b)
    (htip : tip ident p A = tip ident p B) : A.map f = B.map f := by
  induction A using List.reverseRecOn generalizing B with
  | nil =>
      -- the other chain's tip would be the marker
      by_cases hne : B = []
      · simp [hne]
      · obtain ⟨b, hb, hbtip⟩ := tip_mem ident p hne
        exact absurd (hbtip.trans htip.symm) (hrootB b hb)
  | append_singleton A a ih =>
      obtain ⟨hA', ha⟩ := linkedFrom_concat.1 hA
      rcases List.eq_nil_or_concat B with rfl | ⟨B, b, rfl⟩
      · exact absurd (by simpa using htip) (hrootA a (by simp))
      · simp only [List.concat_eq_append] at hB hrootB hparent hf htip ⊢
        obtain ⟨hB', hb⟩ := linkedFrom_concat.1 hB
        have hident : ident a = ident b := by simpa using htip
        have htips : tip ident p A = tip ident p B := by
          rw [← ha, ← hb]
          exact hparent a (by simp) b (by simp) hident
        have hrest : A.map f = B.map f :=
          ih hA' hB' (fun x hx => hrootA x (by simp [hx])) (fun x hx => hrootB x (by simp [hx]))
            (fun x hx y hy => hparent x (by simp [hx]) y (by simp [hy]))
            (fun x hx y hy => hf x (by simp [hx]) y (by simp [hy])) htips
        have hlast : f a = f b := hf a (by simp) b (by simp) hident
        simp [hrest, hlast]

/-- When equal identifiers force equal parents, no identifier of a chain repeats. -/
theorem nodup_ident {p : H} {l : List α} (h : LinkedFrom ident parent p l)
    (hroot : ∀ b ∈ l, ident b ≠ p)
    (hparent : ∀ a ∈ l, ∀ b ∈ l, ident a = ident b → parent a = parent b) :
    (l.map ident).Nodup := by
  rw [List.nodup_iff_injective_getElem]
  -- two positions with one identifier are the tips of two prefixes of the chain
  have htake : ∀ i (hi : i < l.length), tip ident p (l.take (i + 1)) = ident l[i] := by
    intro i hi
    rw [List.take_succ_eq_append_getElem hi, tip_concat]
  intro i j hij
  have hi : i.1 < l.length := by simpa using i.2
  have hj : j.1 < l.length := by simpa using j.2
  have hident : ident l[i.1] = ident l[j.1] := by simpa using hij
  have hmap : (l.take (i.1 + 1)).map ident = (l.take (j.1 + 1)).map ident := by
    refine map_eq_of_tip_eq ident (h.of_prefix (List.take_prefix _ _))
      (h.of_prefix (List.take_prefix _ _)) ?_ ?_ ?_ (fun _ _ _ _ he => he) ?_
    · exact fun a ha => hroot a (List.mem_of_mem_take ha)
    · exact fun b hb => hroot b (List.mem_of_mem_take hb)
    · exact fun a ha b hb => hparent a (List.mem_of_mem_take ha) b (List.mem_of_mem_take hb)
    · rw [htake _ hi, htake _ hj, hident]
  have hlen := congrArg List.length hmap
  simp only [List.length_map, List.length_take] at hlen
  exact Fin.ext (by omega)

end LinkedChain
