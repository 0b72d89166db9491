import SoroSense.Lib.Timeline

/-!
# `Lib.Leading` — the first `k` records in an order

`Leading f k full ans`: `ans` is a choice of the `k` records of `full` that come first by the key `f`, or all
of them where there are fewer. Among records of one key any may be chosen.

* `leading_hidden_iff` — sorting and cutting a list from which records are `hidden` still leads the whole,
  exactly when each of them has `k` of the others in front of it;
* `Leading.mem_of_short` — an answer that is not full misses nothing.
-/

namespace Timeline

variable {α ι : Type} [LinearOrder ι] {f : α → ι} {k : ℕ} {l full hidden ans : List α}

/-- The first `k` records by the key `f`. -/
structure Leading (f : α → ι) (k : ℕ) (full ans : List α) : Prop where
  sorted : ans.Pairwise fun a b => f a ≤ f b
  length : ans.length = min k full.length
  ahead  : ∃ rest, full.Perm (ans ++ rest) ∧ ∀ x ∈ ans, ∀ y ∈ rest, f x ≤ f y

theorem perm_sortOn (l : List α) : (sortOn f l).Perm l := List.perm_insertionSort _ l

theorem length_sortOn (l : List α) : (sortOn f l).length = l.length := (perm_sortOn l).length_eq

/-- What is cut off a sorted list comes after what is kept. -/
theorem take_le_drop {x y : α} (hx : x ∈ (sortOn f l).take k) (hy : y ∈ (sortOn f l).drop k) : f x ≤ f y := by
  have hsorted := pairwise_sortOn (f := f) l
  rw [← List.take_append_drop k (sortOn f l)] at hsorted
  exact (List.pairwise_append.mp hsorted).2.2 x hx y hy

theorem pairwise_take (l : List α) (k : ℕ) : ((sortOn f l).take k).Pairwise fun a b => f a ≤ f b :=
  (pairwise_sortOn l).sublist (List.take_sublist _ _)

/-- An answer that is not full misses nothing. -/
theorem Leading.mem_of_short (h : Leading f k full ans) (hshort : ans.length < k) {x : α} (hx : x ∈ full) :
    x ∈ ans := by
  obtain ⟨rest, hperm, _⟩ := h.ahead
  have hlen := hperm.length_eq
  have hans := h.length
  rw [List.length_append] at hlen
  have hnil : rest = [] := List.eq_nil_of_length_eq_zero (by omega)
  rw [hnil, List.append_nil] at hperm
  exact hperm.mem_iff.mp hx

/-- The records of a list that come no later than `d`. -/
def upToKey (f : α → ι) (d : α) (l : List α) : List α := l.filter fun x => f x ≤ f d

/-- If all of the first `k` come no later than `d`, so do at least as many records. -/
theorem length_take_le {d : α} (h : ∀ x ∈ (sortOn f l).take k, f x ≤ f d) :
    ((sortOn f l).take k).length ≤ (upToKey f d l).length := by
  have hall : ((sortOn f l).take k).filter (fun x => f x ≤ f d) = (sortOn f l).take k :=
    List.filter_eq_self.mpr fun x hx => decide_eq_true (h x hx)
  have hsub := (List.take_sublist k (sortOn f l)).filter fun x => f x ≤ f d
  rw [hall] at hsub
  exact le_trans hsub.length_le (le_of_eq ((perm_sortOn l).filter _).length_eq)

/-- If one of the first `k` comes later than `d`, fewer than `k` records do not. -/
theorem length_upToKey_lt {d x : α} (hx : x ∈ (sortOn f l).take k) (h : f d < f x) :
    (upToKey f d l).length < k := by
  have hdrop : ((sortOn f l).drop k).filter (fun y => f y ≤ f d) = [] := by
    apply List.filter_eq_nil_iff.mpr
    intro y hy
    rw [decide_eq_true_eq, not_le]
    exact lt_of_lt_of_le h (take_le_drop hx hy)
  have hless : (((sortOn f l).take k).filter fun y => f y ≤ f d).length < ((sortOn f l).take k).length :=
    List.length_filter_lt_length_iff_exists.mpr ⟨x, hx, by simpa using h⟩
  have hlen : (upToKey f d l).length = ((sortOn f l).filter fun y => f y ≤ f d).length :=
    ((perm_sortOn l).filter _).length_eq.symm
  rw [hlen, ← List.take_append_drop k (sortOn f l), List.filter_append, hdrop, List.append_nil]
  exact lt_of_lt_of_le hless (List.length_take_le k _)

/-- **Hidden records may be missing exactly when each has `k` others in front of it.** -/
theorem leading_hidden_iff :
    Leading f k (l ++ hidden) ((sortOn f l).take k) ↔ ∀ d ∈ hidden, k ≤ (upToKey f d l).length := by
  constructor
  · intro h d hd
    -- with a hidden record about, the answer is full
    have hpos := List.length_pos_of_mem hd
    have hlen := h.length
    rw [List.length_take, length_sortOn, List.length_append] at hlen
    have hfull : ((sortOn f l).take k).length = k := by
      rw [List.length_take, length_sortOn]
      omega
    obtain ⟨rest, hperm, hahead⟩ := h.ahead
    have hsplit : (l ++ hidden).Perm ((sortOn f l).take k ++ ((sortOn f l).drop k ++ hidden)) := by
      rw [← List.append_assoc, List.take_append_drop]
      exact (perm_sortOn l).symm.append_right hidden
    have hrest : rest.Perm ((sortOn f l).drop k ++ hidden) :=
      (List.perm_append_left_iff _).mp (hperm.symm.trans hsplit)
    have hmem : d ∈ rest := hrest.mem_iff.mpr (List.mem_append_right _ hd)
    have hle := length_take_le fun x hx => hahead x hx d hmem
    rwa [hfull] at hle
  · intro h
    have hle : ∀ x ∈ (sortOn f l).take k, ∀ d ∈ hidden, f x ≤ f d := by
      intro x hx d hd
      by_contra hlt
      exact absurd (h d hd) (not_le.mpr (length_upToKey_lt hx (not_le.mp hlt)))
    refine ⟨pairwise_take l k, ?_, (sortOn f l).drop k ++ hidden, ?_, ?_⟩
    · rw [List.length_take, length_sortOn, List.length_append]
      cases hidden with
      | nil => rfl
      | cons d hidden =>
          have hk := h d List.mem_cons_self
          have hl : (upToKey f d l).length ≤ l.length := List.length_filter_le _ _
          omega
    · rw [← List.append_assoc, List.take_append_drop]
      exact (perm_sortOn l).symm.append_right hidden
    · intro x hx y hy
      rcases List.mem_append.mp hy with hy | hy
      · exact take_le_drop hx hy
      · exact hle x hx y hy

end Timeline
