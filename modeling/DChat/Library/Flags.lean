import Mathlib.Data.List.Pairwise

/-!
# Flags — mark the others, then look at yourself

Parties compete for keys.  Whoever wants a key leaves a mark for it at others, then looks for a
mark at itself, and claims the key only if there is none.  Marks are never removed.  Of two
parties that mark each other, the one that looks later finds the mark of the other one: they
never both claim a key.

The marks are a predicate of the state here, not a record of their own, so that anything that only
grows can serve for them.
-/

namespace Flags

variable {ι κ : Type}

/-- A key, who claimed it, and where the mark was left before. -/
structure Claim (ι κ : Type) where
  owner : ι
  key : κ
  reached : List ι
  deriving DecidableEq, Repr

/-- Every claim has its marks, and no claim was made against the mark of an earlier one; the
latest claim stands first. -/
structure Inv (marked : ι → κ → Prop) (claims : List (Claim ι κ)) : Prop where
  marks : ∀ c ∈ claims, ∀ i ∈ c.reached, marked i c.key
  respected : claims.Pairwise fun later earlier =>
    later.key = earlier.key → later.owner ∉ earlier.reached

namespace Inv

variable {marked marked' : ι → κ → Prop} {claims : List (Claim ι κ)}

theorem nil (marked : ι → κ → Prop) : Inv marked [] where
  marks := by simp
  respected := List.Pairwise.nil

/-- Marks may be added at any time. -/
theorem mono (h : Inv marked claims) (hmarked : ∀ i k, marked i k → marked' i k) :
    Inv marked' claims where
  marks c hc i hi := hmarked i c.key (h.marks c hc i hi)
  respected := h.respected

/-- A claim after the marks, without a mark at home. -/
theorem claim (h : Inv marked claims) {c : Claim ι κ} (hmarks : ∀ i ∈ c.reached, marked i c.key)
    (hfree : ¬ marked c.owner c.key) : Inv marked (c :: claims) where
  marks := List.forall_mem_cons.2 ⟨hmarks, h.marks⟩
  respected := by
    refine List.pairwise_cons.2 ⟨?_, h.respected⟩
    intro earlier hearlier hkey howner
    exact hfree (hkey ▸ h.marks earlier hearlier _ howner)

/-- Two parties that marked each other have not claimed one key. -/
theorem exclusive (h : Inv marked claims) {c d : Claim ι κ} (hc : c ∈ claims) (hd : d ∈ claims)
    (hne : c.owner ≠ d.owner) (hcd : c.owner ∈ d.reached) (hdc : d.owner ∈ c.reached) :
    c.key ≠ d.key := by
  intro hkey
  -- one of the two came later, and would have found the mark of the other
  have hsome : c ≠ d →
      (c.key = d.key → c.owner ∉ d.reached) ∨ (d.key = c.key → d.owner ∉ c.reached) := by
    refine List.Pairwise.forall_of_forall_of_flip (l := claims) (R := fun x y => x ≠ y →
      (x.key = y.key → x.owner ∉ y.reached) ∨ (y.key = x.key → y.owner ∉ x.reached))
      (fun x _ hx => absurd rfl hx) ?_ ?_ hc hd
    · exact h.respected.imp fun hlater _ => Or.inl hlater
    · exact h.respected.imp fun hlater _ => Or.inr hlater
  rcases hsome fun heq => hne (congrArg Claim.owner heq) with hlater | hlater
  · exact hlater hkey hcd
  · exact hlater hkey.symm hdc

end Inv

end Flags
