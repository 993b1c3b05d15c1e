import Mathlib.Data.List.Basic
import Mathlib.Data.List.Nodup

/-!
# Paging — reading a list page by page

Pages of `k` elements start at `0`, `k`, `2k` and so on.  Put together they are the list up to the
end of the last page.

A list may grow at its end and lose elements between two pages.  An element is shown in one of them
as long as it stays `Ahead`; it falls behind only from the very start of the next page.
-/

namespace Paging

variable {α : Type}

/-- Up to `k` elements from position `s` on. -/
def page (k : Nat) (l : List α) (s : Nat) : List α := (l.drop s).take k

/-- The first positions of `m` pages. -/
def starts (k m : Nat) : List Nat := (List.range m).map (k * ·)

/-- The number of pages that `count` elements take. -/
def pages (k count : Nat) : Nat := (count + k - 1) / k

theorem pages_spec {k : Nat} (count : Nat) (hk : 0 < k) :
    count ≤ k * pages k count ∧ (pages k count = 0 ∨ k * (pages k count - 1) < count) := by
  have hdiv : k * pages k count + (count + k - 1) % k = count + k - 1 := Nat.div_add_mod _ _
  have hmod : (count + k - 1) % k < k := Nat.mod_lt _ hk
  refine ⟨by omega, ?_⟩
  rcases Nat.eq_zero_or_pos (pages k count) with hzero | hpos
  · exact Or.inl hzero
  · have hlast : k * (pages k count - 1) + k = k * pages k count := by
      rw [← Nat.mul_succ, Nat.succ_eq_add_one, Nat.sub_add_cancel hpos]
    exact Or.inr (by omega)

theorem lt_of_mem_starts {k count s : Nat} (hk : 0 < k) (hs : s ∈ starts k (pages k count)) :
    s < count := by
  rcases List.mem_map.1 hs with ⟨i, hi, rfl⟩
  have hi' := List.mem_range.1 hi
  rcases (pages_spec count hk).2 with hzero | hlast
  · omega
  · exact Nat.lt_of_le_of_lt (Nat.mul_le_mul_left k (Nat.le_sub_one_of_lt hi')) hlast

theorem mul_pages_lt {k : Nat} (count : Nat) (hk : 0 < k) : k * pages k count < count + k := by
  have hdiv : k * pages k count + (count + k - 1) % k = count + k - 1 := Nat.div_add_mod _ _
  omega

/-- Whole pages fit below a multiple of their size. -/
theorem mul_pages_le {k count bound : Nat} (hk : 0 < k) (hdvd : k ∣ bound) (hle : count ≤ bound) :
    k * pages k count ≤ bound := by
  rcases hdvd with ⟨m, rfl⟩
  refine Nat.mul_le_mul_left k (Nat.lt_succ_iff.1 ?_)
  rw [pages, Nat.div_lt_iff_lt_mul hk, Nat.succ_mul, Nat.mul_comm m]
  omega

theorem pages_le {k : Nat} (count : Nat) (hk : 0 < k) : pages k count ≤ count := by
  rcases (pages_spec count hk).2 with hzero | hlast
  · omega
  · have hmul := Nat.le_mul_of_pos_left (pages k count - 1) hk
    omega

/-- Each page ends before the next one starts. -/
theorem starts_pairwise (k m : Nat) : (starts k m).Pairwise fun a b => a + k ≤ b := by
  rw [starts, List.pairwise_map]
  refine List.pairwise_lt_range.imp ?_
  intro i j hij
  rw [← Nat.mul_succ]
  exact Nat.mul_le_mul_left k hij

/-- Every position in front of the end of the last page is on a page. -/
theorem exists_start {k m i : Nat} (hi : i < k * m) : ∃ s ∈ starts k m, s ≤ i ∧ i < s + k := by
  have hk : 0 < k := Nat.pos_of_mul_pos_right (Nat.zero_lt_of_lt hi)
  refine ⟨k * (i / k), List.mem_map_of_mem (List.mem_range.2 (Nat.div_lt_of_lt_mul hi)),
    Nat.mul_div_le i k, ?_⟩
  rw [← Nat.mul_succ]
  exact Nat.lt_mul_div_succ i hk

theorem flatMap_page (k m : Nat) (l : List α) :
    (starts k m).flatMap (page k l) = l.take (k * m) := by
  induction m with
  | zero => simp [starts]
  | succ m ih =>
      calc (starts k (m + 1)).flatMap (page k l)
          = (starts k m).flatMap (page k l) ++ page k l (k * m) := by
            simp [starts, List.range_succ]
        _ = l.take (k * m) ++ (l.drop (k * m)).take k := by rw [ih, page]
        _ = l.take (k * (m + 1)) := by rw [Nat.mul_succ, List.take_add]

/-- The elements at the positions from `start` up to `stop`. -/
def window (l : List α) (start stop : Nat) : List α :=
  (l.zipIdx.filter fun x => start ≤ x.2 ∧ x.2 < stop).map Prod.fst

theorem window_eq (l : List α) (start stop : Nat) :
    window l start stop = (l.take stop).drop start := by
  -- the positions are counted from any number on
  have hfrom : ∀ k, ((l.zipIdx k).filter fun x => start ≤ x.2 ∧ x.2 < stop).map Prod.fst =
      (l.take (stop - k)).drop (start - k) := by
    induction l with
    | nil => simp
    | cons x xs ih =>
        intro k
        rw [List.zipIdx_cons]
        rcases Nat.lt_or_ge k stop with hbefore | hend
        · have hstop : stop - k = stop - (k + 1) + 1 := by omega
          rw [hstop, List.take_succ_cons]
          rcases Nat.lt_or_ge k start with hskip | hin
          · have hstart : start - k = start - (k + 1) + 1 := by omega
            rw [hstart, List.drop_succ_cons, List.filter_cons_of_neg (by simp; omega), ih]
          · have hstart : start - k = 0 := by omega
            have hstart' : start - (k + 1) = 0 := by omega
            rw [List.filter_cons_of_pos (by simp [hin, hbefore]), List.map_cons, ih, hstart,
              hstart', List.drop_zero, List.drop_zero]
        · have hstop : stop - k = 0 := by omega
          have hstop' : stop - (k + 1) = 0 := by omega
          rw [List.filter_cons_of_neg (by simp; omega), ih, hstop, hstop', List.take_zero,
            List.take_zero, List.drop_nil, List.drop_nil]
  exact hfrom 0

/-! ## Pages that start too early -/

theorem length_flatMap_full {k m : Nat} {f : Nat → List α}
    (hfull : ∀ s ∈ starts k m, (f s).length = k) : ((starts k m).flatMap f).length = k * m := by
  calc ((starts k m).flatMap f).length
      = ((starts k m).map fun s => (f s).length).sum := List.length_flatMap
    _ = ((starts k m).map fun _ => k).sum := by rw [List.map_congr_left hfull]
    _ = k * m := by
        rw [List.map_const', List.sum_replicate_nat, starts, List.length_map, List.length_range,
          Nat.mul_comm]

/-- Pages that start too early, at `c s` in place of `s`, give the list if and only if the last of
them starts where it should. -/
theorem flatMap_shifted_iff {k : Nat} (hk : 0 < k) {l : List α} (hnodup : l.Nodup) {c : Nat → Nat}
    (hzero : c 0 = 0) (hstep : ∀ s d, c (s + d) ≤ c s + d) :
    (starts k (pages k l.length)).flatMap (fun s => page k l (c s)) = l ↔
      c (k * (pages k l.length - 1)) = k * (pages k l.length - 1) := by
  have hle : ∀ s, c s ≤ s := by
    intro s
    simpa [hzero] using hstep 0 s
  rcases pages_spec l.length hk with ⟨hreach, hlast⟩
  have hall : (starts k (pages k l.length)).flatMap (page k l) = l := by
    rw [flatMap_page, List.take_of_length_le hreach]
  rcases Nat.eq_zero_or_pos (pages k l.length) with hnone | hsome
  · have hempty : l = [] := List.eq_nil_of_length_eq_zero (by rw [hnone] at hreach; omega)
    rw [hnone, starts, List.range_zero]
    exact iff_of_true hempty.symm hzero
  · obtain ⟨n, hn⟩ := Nat.exists_eq_succ_of_ne_zero (Nat.ne_of_gt hsome)
    have hmore : k * n < l.length := by
      rcases hlast with hnil | hlt
      · omega
      · simpa [hn] using hlt
    rw [hn, Nat.succ_eq_add_one, Nat.add_sub_cancel]
    rw [hn] at hall
    have hsplit : ∀ f : Nat → List α,
        (starts k (n + 1)).flatMap f = (starts k n).flatMap f ++ f (k * n) := by
      intro f
      simp [starts, List.range_succ]
    constructor
    · intro h
      -- every page in front of the last is full
      have hfull : ((starts k n).flatMap fun s => page k l (c s)).length = k * n := by
        have hpage : ∀ s ∈ starts k n, (page k l (c s)).length = k := by
          intro s hs
          rcases List.mem_map.1 hs with ⟨i, hi, rfl⟩
          have hbefore : k * i + k ≤ k * n := by
            rw [← Nat.mul_succ]
            exact Nat.mul_le_mul_left k (List.mem_range.1 hi)
          have hpos := hle (k * i)
          rw [page, List.length_take, List.length_drop]
          omega
        exact length_flatMap_full hpage
      have hlength : ((starts k n).flatMap (page k l)).length = k * n := by
        rw [flatMap_page, List.length_take, Nat.min_eq_left (Nat.le_of_lt hmore)]
      have hpages := h.trans hall.symm
      rw [hsplit, hsplit] at hpages
      have hend := (List.append_inj hpages (hfull.trans hlength.symm)).2
      -- so the last page starts with the element at its place, which no other place has
      have hplace : c (k * n) < l.length := Nat.lt_of_le_of_lt (hle _) hmore
      have hhead := congrArg List.head? hend
      simp only [page, List.head?_take, Nat.ne_of_gt hk, if_false, List.head?_drop,
        List.getElem?_eq_getElem hplace, List.getElem?_eq_getElem hmore, Option.some.injEq] at hhead
      exact (List.Nodup.getElem_inj_iff hnodup).1 hhead
    · intro h
      refine Eq.trans (List.flatMap_congr ?_) hall
      intro s hs
      rcases List.mem_map.1 hs with ⟨i, hi, rfl⟩
      have hbefore : k * i ≤ k * n :=
        Nat.mul_le_mul_left k (Nat.le_of_lt_succ (List.mem_range.1 hi))
      have hrest := hstep (k * i) (k * n - k * i)
      rw [Nat.add_sub_cancel' hbefore, h] at hrest
      have hthis := hle (k * i)
      have heq : c (k * i) = k * i := by omega
      rw [heq]

/-! ## A list that changes between the pages -/

/-- The element is at a position that pages from `s` on will show, below `count`. -/
def Ahead (l : List α) (s count : Nat) (p : α) : Prop := p ∈ (l.drop s).take (count - s)

variable {l : List α} {s count : Nat} {p : α}

theorem ahead_zero (hp : p ∈ l) (hcount : l.length ≤ count) : Ahead l 0 count p := by
  have htake : (l.drop 0).take (count - 0) = l := by
    simpa using List.take_of_length_le hcount
  rw [Ahead, htake]
  exact hp

theorem not_ahead (h : count ≤ s) : ¬ Ahead l s count p := by
  simp [Ahead, Nat.sub_eq_zero_of_le h]

/-- What is appended comes after everything that is ahead. -/
theorem Ahead.append (h : Ahead l s count p) (x : α) : Ahead (l ++ [x]) s count p := by
  rw [Ahead, List.drop_append, List.take_append]
  exact List.mem_append_left _ h

theorem mem_take_erase [DecidableEq α] {m : Nat} {q : α} (hpq : p ≠ q) (h : p ∈ l.take m) :
    p ∈ (l.erase q).take m := by
  induction l generalizing m with
  | nil => simp at h
  | cons x xs ih =>
      cases m with
      | zero => simp at h
      | succ m =>
          rw [List.take_succ_cons] at h
          by_cases hx : x = q
          · -- everything moves one place forward
            rcases List.mem_cons.1 h with heq | htail
            · exact absurd (heq.trans hx) hpq
            · rw [hx, List.erase_cons_head]
              exact List.take_subset_take_left xs (Nat.le_succ m) htail
          · rw [List.erase_cons_tail (by simpa using hx), List.take_succ_cons]
            rcases List.mem_cons.1 h with heq | htail
            · exact heq ▸ List.mem_cons_self
            · exact List.mem_cons_of_mem _ (ih htail)

/-- What is lost only moves the rest forward.  The element falls behind when it stands at the very
start and something in front of it goes. -/
theorem Ahead.erase [DecidableEq α] {q : α} (h : Ahead l s count p) (hpq : p ≠ q)
    (hfront : q ∈ l.take s → l[s]? ≠ some p) : Ahead (l.erase q) s count p := by
  have hlen : s ≤ l.length := by
    by_contra hlong
    have hnil : l.drop s = [] := List.drop_eq_nil_of_le (by omega)
    simp [Ahead, hnil] at h
  have htake : (l.take s).length = s := List.length_take_of_le hlen
  by_cases hq : q ∈ l.take s
  · -- the pages lose the first of what was ahead, which is another element
    have hsplit : l.erase q = (l.take s).erase q ++ l.drop s := by
      calc l.erase q = (l.take s ++ l.drop s).erase q := by rw [List.take_append_drop]
        _ = (l.take s).erase q ++ l.drop s := List.erase_append_left _ hq
    have hpos : 0 < s := htake ▸ List.length_pos_of_mem hq
    have herase : ((l.take s).erase q).length + 1 = s := by
      rw [List.length_erase_of_mem hq, htake, Nat.sub_add_cancel hpos]
    have hdrop : (l.erase q).drop s = (l.drop s).drop 1 := by
      calc (l.erase q).drop s
          = ((l.take s).erase q ++ l.drop s).drop (((l.take s).erase q).length + 1) := by
            rw [hsplit, herase]
        _ = (l.drop s).drop 1 := by rw [← List.drop_drop, List.drop_left]
    rw [Ahead, hdrop]
    rw [Ahead] at h
    have hhead : (l.drop s).head? ≠ some p := by
      rw [List.head?_drop]
      exact hfront hq
    -- it is not at the head, so it is still among the next ones
    cases hrest : l.drop s with
    | nil => simp [hrest] at h
    | cons x xs =>
        rw [hrest] at h hhead
        cases hcount : count - s with
        | zero => simp [hcount] at h
        | succ m =>
            rw [hcount, List.take_succ_cons] at h
            rcases List.mem_cons.1 h with rfl | htail
            · simp at hhead
            · exact List.take_subset_take_left xs (Nat.le_succ m) htail
  · have hsplit : l.erase q = l.take s ++ (l.drop s).erase q := by
      calc l.erase q = (l.take s ++ l.drop s).erase q := by rw [List.take_append_drop]
        _ = l.take s ++ (l.drop s).erase q := List.erase_append_right _ hq
    have hdrop : (l.erase q).drop s = (l.drop s).erase q := by
      rw [hsplit, List.drop_left' htake]
    rw [Ahead, hdrop]
    exact mem_take_erase hpq h

/-- The next page shows the element, or it is still ahead. -/
theorem Ahead.page {k : Nat} (h : Ahead l s count p) :
    p ∈ Paging.page k l s ∨ Ahead l (s + k) count p := by
  rcases Nat.le_total (count - s) k with hlast | hmore
  · exact Or.inl (List.take_subset_take_left _ hlast h)
  · have hsplit : (l.drop s).take (count - s) =
        Paging.page k l s ++ (l.drop (s + k)).take (count - (s + k)) := by
      calc (l.drop s).take (count - s)
          = (l.drop s).take (k + (count - (s + k))) := by congr 1; omega
        _ = (l.drop s).take k ++ ((l.drop s).drop k).take (count - (s + k)) := List.take_add
        _ = Paging.page k l s ++ (l.drop (s + k)).take (count - (s + k)) := by
            rw [List.drop_drop, Paging.page]
    rw [Ahead, hsplit] at h
    exact List.mem_append.1 h

end Paging
