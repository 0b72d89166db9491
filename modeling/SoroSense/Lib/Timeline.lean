import Mathlib.Data.List.Sort
import Mathlib.Data.List.Dedup
import Mathlib.Order.MinMax

/-!
# `Lib.Timeline` — stable sorting, distinct sample points, running maxima

What a chart is made of, over any linear order.

* `sortOn f` — a stable sort by a key; `filter_sortOn` says that selecting and sorting commute, so the
  order of the selected records does not depend on the others;
* `distinct` — the distinct points of a list in ascending order, a function of its set of members;
* `peaks` — the running maximum of a line, and its last point.
-/

namespace Timeline

section Sorting

variable {α ι : Type} [LinearOrder ι] {f : α → ι}

/-- A stable sort by the key `f`, ascending. -/
def sortOn (f : α → ι) (l : List α) : List α := l.insertionSort fun a b => f a ≤ f b

theorem mem_sortOn {l : List α} {a : α} : a ∈ sortOn f l ↔ a ∈ l := List.mem_insertionSort _

theorem pairwise_sortOn (l : List α) : (sortOn f l).Pairwise fun a b => f a ≤ f b := by
  have htotal : Std.Total (fun a b : α => f a ≤ f b) := ⟨fun a b => le_total (f a) (f b)⟩
  have htrans : IsTrans α (fun a b => f a ≤ f b) := ⟨fun _ _ _ h h' => le_trans h h'⟩
  exact List.pairwise_insertionSort _ l

/-- A list in ascending order is left as it is. -/
theorem sortOn_eq_self {l : List α} (h : l.Pairwise fun a b => f a ≤ f b) : sortOn f l = l :=
  h.insertionSort_eq

/-- Selecting from an ordered list into which a record was inserted. -/
theorem filter_orderedInsert {p : α → Bool} {a : α} {l : List α}
    (h : l.Pairwise fun a b => f a ≤ f b) :
    (l.orderedInsert (fun a b => f a ≤ f b) a).filter p
      = if p a = true then (l.filter p).orderedInsert (fun a b => f a ≤ f b) a else l.filter p := by
  induction l with
  | nil => by_cases ha : p a = true <;> simp [ha]
  | cons b l ih =>
      obtain ⟨hb, hl⟩ := List.pairwise_cons.mp h
      by_cases hab : f a ≤ f b
      · rw [List.orderedInsert_cons_of_le (fun a b => f a ≤ f b) l hab]
        by_cases ha : p a = true
        · rw [List.filter_cons_of_pos ha, if_pos ha]
          -- everything selected from `b :: l` is at least `f b`, so `a` is inserted in front
          have hfront : ∀ x ∈ (b :: l).filter p, f a ≤ f x := by
            intro x hx
            rcases List.mem_cons.mp (List.mem_filter.mp hx).1 with rfl | hx
            · exact hab
            · exact le_trans hab (hb x hx)
          cases hsel : (b :: l).filter p with
          | nil => rfl
          | cons x xs =>
              rw [hsel] at hfront
              exact (List.orderedInsert_cons_of_le (fun a b => f a ≤ f b) xs (hfront x List.mem_cons_self)).symm
        · rw [List.filter_cons_of_neg ha, if_neg ha]
      · rw [List.orderedInsert_of_not_le (fun a b => f a ≤ f b) l hab]
        by_cases hpb : p b = true
        · rw [List.filter_cons_of_pos hpb, List.filter_cons_of_pos hpb, ih hl]
          split
          · exact (List.orderedInsert_of_not_le (fun a b => f a ≤ f b) _ hab).symm
          · rfl
        · rw [List.filter_cons_of_neg hpb, List.filter_cons_of_neg hpb, ih hl]

/-- **Selecting and sorting commute.** -/
theorem filter_sortOn {p : α → Bool} (l : List α) : (sortOn f l).filter p = sortOn f (l.filter p) := by
  induction l with
  | nil => rfl
  | cons a l ih =>
      show ((sortOn f l).orderedInsert (fun a b => f a ≤ f b) a).filter p = _
      rw [filter_orderedInsert (pairwise_sortOn l), ih]
      by_cases ha : p a = true
      · rw [if_pos ha, List.filter_cons_of_pos ha]
        rfl
      · rw [if_neg ha, List.filter_cons_of_neg ha]

theorem orderedInsert_concat {a e : α} (h : f a ≤ f e) (l : List α) :
    (l ++ [e]).orderedInsert (fun a b => f a ≤ f b) a = l.orderedInsert (fun a b => f a ≤ f b) a ++ [e] := by
  induction l with
  | nil => exact List.orderedInsert_cons_of_le (fun a b => f a ≤ f b) [] h
  | cons b l ih =>
      by_cases hab : f a ≤ f b
      · rw [List.cons_append, List.orderedInsert_cons_of_le (fun a b => f a ≤ f b) _ hab,
          List.orderedInsert_cons_of_le (fun a b => f a ≤ f b) _ hab]
        rfl
      · rw [List.cons_append, List.orderedInsert_of_not_le (fun a b => f a ≤ f b) _ hab,
          List.orderedInsert_of_not_le (fun a b => f a ≤ f b) _ hab, ih]
        rfl

/-- A record that comes last stays last. -/
theorem sortOn_concat {e : α} {l : List α} (h : ∀ a ∈ l, f a ≤ f e) : sortOn f (l ++ [e]) = sortOn f l ++ [e] := by
  induction l with
  | nil => rfl
  | cons a l ih =>
      show (sortOn f (l ++ [e])).orderedInsert (fun a b => f a ≤ f b) a = _
      rw [ih fun b hb => h b (List.mem_cons_of_mem a hb), orderedInsert_concat (h a List.mem_cons_self)]
      rfl

/-- **The order of records with distinct keys does not depend on the order they came in.** -/
theorem sortOn_perm {l l' : List α} (h : l.Perm l') (hnd : (l.map f).Nodup) : sortOn f l = sortOn f l' := by
  have hperm : (sortOn f l).Perm (sortOn f l') :=
    (List.perm_insertionSort _ l).trans (h.trans (List.perm_insertionSort _ l').symm)
  refine List.Perm.eq_of_pairwise ?_ (pairwise_sortOn l) (pairwise_sortOn l') hperm
  intro a b ha hb hab hba
  have hkey : f a = f b := le_antisymm hab hba
  exact List.inj_on_of_nodup_map hnd (mem_sortOn.mp ha) (h.mem_iff.mpr (mem_sortOn.mp hb)) hkey

end Sorting

section Points

variable {ι : Type} [LinearOrder ι]

/-- The distinct members of a list, ascending. -/
def distinct (l : List ι) : List ι := sortOn id l.dedup

/-- The sample points depend on the members only. -/
theorem distinct_congr {l l' : List ι} (h : ∀ t, t ∈ l ↔ t ∈ l') : distinct l = distinct l' := by
  have hperm : l.dedup.Perm l'.dedup := by
    apply (List.perm_ext_iff_of_nodup l.nodup_dedup l'.nodup_dedup).mpr
    intro t
    rw [List.mem_dedup, List.mem_dedup]
    exact h t
  have hsorted : (distinct l).Pairwise (· ≤ ·) := pairwise_sortOn (f := id) l.dedup
  have hsorted' : (distinct l').Pairwise (· ≤ ·) := pairwise_sortOn (f := id) l'.dedup
  apply List.Perm.eq_of_pairwise (fun a b _ _ => le_antisymm) hsorted hsorted'
  exact (List.perm_insertionSort _ _).trans (hperm.trans (List.perm_insertionSort _ _).symm)

theorem mem_distinct {l : List ι} {t : ι} : t ∈ distinct l ↔ t ∈ l := by
  unfold distinct
  rw [mem_sortOn, List.mem_dedup]

/-- The sample points ascend strictly. -/
theorem pairwise_distinct (l : List ι) : (distinct l).Pairwise (· < ·) := by
  have hsorted : (distinct l).Pairwise (· ≤ ·) := pairwise_sortOn (f := id) l.dedup
  have hnodup : (distinct l).Nodup := (List.perm_insertionSort _ _).nodup_iff.mpr l.nodup_dedup
  exact (hsorted.and hnodup).imp fun h => lt_of_le_of_ne h.1 h.2

/-! ## Running maxima -/

/-- The running maximum of a line, from a floor. -/
def peaks (floor : ι) : List ι → List ι
  | []      => []
  | x :: xs => max floor x :: peaks (max floor x) xs

/-- The running maximum never falls, from its floor on. -/
theorem pairwise_peaks (floor : ι) (xs : List ι) :
    (peaks floor xs).Pairwise (· ≤ ·) ∧ ∀ x ∈ peaks floor xs, floor ≤ x := by
  induction xs generalizing floor with
  | nil => exact ⟨.nil, fun x hx => absurd hx (by simp [peaks])⟩
  | cons x xs ih =>
      obtain ⟨hsorted, hfloor⟩ := ih (max floor x)
      refine ⟨List.pairwise_cons.mpr ⟨hfloor, hsorted⟩, ?_⟩
      intro y hy
      rcases List.mem_cons.mp hy with rfl | hy
      · exact le_max_left _ _
      · exact le_trans (le_max_left _ _) (hfloor y hy)

end Points

end Timeline
