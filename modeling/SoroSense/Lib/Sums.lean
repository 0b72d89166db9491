import Mathlib.Algebra.BigOperators.Ring.Finset
import Mathlib.Algebra.Order.BigOperators.Group.Finset
import Mathlib.Tactic.Ring

/-!
# `Lib.Sums` — ledgers with a total

Sums over the entries of a ledger, and what one changed entry does to them.

* `SumsTo f t` — the finitely supported ledger `f` adds up to `t`; kept by changing one entry and the
  total together (`SumsTo.update`), and bounding every partial sum of a non-negative ledger
  (`SumsTo.finset_sum_le`).
* `sum_map_add_ite` — the list form, for duplicate-free lists of entries;
* `sum_map_eraseIdx` / `sum_map_set` — the list form, for one place of a list.
-/

namespace Sums

variable {ι M : Type}

/-! ## Finitely supported ledgers -/

/-- The entries of `f` outside some finite set vanish, and those inside add up to `t`. -/
def SumsTo [AddCommMonoid M] (f : ι → M) (t : M) : Prop :=
  ∃ S : Finset ι, (∀ i, i ∉ S → f i = 0) ∧ ∑ i ∈ S, f i = t

theorem SumsTo.zero [AddCommMonoid M] : SumsTo (fun _ : ι => (0 : M)) 0 :=
  ⟨∅, fun _ _ => rfl, rfl⟩

/-- The sum over any finite set, after one entry changed. -/
theorem sum_update [DecidableEq ι] [AddCommGroup M] (S : Finset ι) (f : ι → M) (a : ι) (d : M) :
    ∑ i ∈ S, Function.update f a (f a + d) i = ∑ i ∈ S, f i + if a ∈ S then d else 0 := by
  have h : ∀ i, Function.update f a (f a + d) i = f i + if i = a then d else 0 := by
    intro i
    by_cases hi : i = a
    · subst hi; simp
    · simp [hi]
  rw [Finset.sum_congr rfl (fun i _ => h i), Finset.sum_add_distrib, Finset.sum_ite_eq']

/-- **Changing one entry and the total by the same amount keeps the ledger balanced.** -/
theorem SumsTo.update [DecidableEq ι] [AddCommGroup M] {f : ι → M} {t : M} (h : SumsTo f t) (a : ι)
    (d : M) : SumsTo (Function.update f a (f a + d)) (t + d) := by
  obtain ⟨S, h₀, hs⟩ := h
  refine ⟨insert a S, ?_, ?_⟩
  · intro i hi
    have hia : i ≠ a := fun he => hi (he ▸ Finset.mem_insert_self a S)
    rw [Function.update_of_ne hia]
    exact h₀ i (fun hm => hi (Finset.mem_insert_of_mem hm))
  · rw [sum_update, if_pos (Finset.mem_insert_self a S), ← hs]
    congr 1
    by_cases ha : a ∈ S
    · rw [Finset.insert_eq_of_mem ha]
    · rw [Finset.sum_insert ha, h₀ a ha, zero_add]

/-- Every partial sum of a non-negative ledger is at most its total. -/
theorem SumsTo.finset_sum_le [DecidableEq ι] [AddCommGroup M] [PartialOrder M] [IsOrderedAddMonoid M]
    {f : ι → M} {t : M} (h : SumsTo f t) (hf : ∀ i, 0 ≤ f i) (T : Finset ι) : ∑ i ∈ T, f i ≤ t := by
  obtain ⟨S, h₀, hs⟩ := h
  have hT : ∑ i ∈ T, f i = ∑ i ∈ T ∩ S, f i := by
    refine (Finset.sum_subset Finset.inter_subset_left ?_).symm
    intro i hi hni
    exact h₀ i (fun hm => hni (Finset.mem_inter.mpr ⟨hi, hm⟩))
  rw [hT, ← hs]
  exact Finset.sum_le_sum_of_subset_of_nonneg Finset.inter_subset_right (fun i _ _ => hf i)

/-- The total of a non-negative ledger is non-negative. -/
theorem SumsTo.nonneg [DecidableEq ι] [AddCommGroup M] [PartialOrder M] [IsOrderedAddMonoid M]
    {f : ι → M} {t : M} (h : SumsTo f t) (hf : ∀ i, 0 ≤ f i) : 0 ≤ t := by
  have := h.finset_sum_le hf ∅
  rwa [Finset.sum_empty] at this

/-- One entry of a non-negative ledger is at most its total. -/
theorem SumsTo.entry_le [DecidableEq ι] [AddCommGroup M] [PartialOrder M] [IsOrderedAddMonoid M]
    {f : ι → M} {t : M} (h : SumsTo f t) (hf : ∀ i, 0 ≤ f i) (a : ι) : f a ≤ t := by
  have := h.finset_sum_le hf {a}
  rwa [Finset.sum_singleton] at this

/-! ## Lists of entries -/

/-- The sum over a duplicate-free list, after one entry changed by `d`. -/
theorem sum_map_add_ite [DecidableEq ι] [AddCommMonoid M] (f : ι → M) (a : ι) (d : M) :
    ∀ {l : List ι}, l.Nodup →
      (l.map fun i => f i + if i = a then d else 0).sum = (l.map f).sum + if a ∈ l then d else 0 := by
  intro l
  induction l with
  | nil => intro _; simp
  | cons b l ih =>
      intro hnd
      obtain ⟨hb, hl⟩ := List.nodup_cons.mp hnd
      rw [List.map_cons, List.sum_cons, ih hl, List.map_cons, List.sum_cons]
      by_cases hba : b = a
      · subst hba
        rw [if_pos rfl, if_neg hb, if_pos List.mem_cons_self, add_zero, add_right_comm]
      · have hmem : a ∈ b :: l ↔ a ∈ l := by
          rw [List.mem_cons]
          exact ⟨fun h => h.elim (fun he => absurd he.symm hba) id, Or.inr⟩
        simp only [if_neg hba, add_zero, hmem, add_assoc]

/-- A sum of differences. -/
theorem sum_map_sub [AddCommGroup M] (f g : ι → M) (l : List ι) :
    (l.map fun i => f i - g i).sum = (l.map f).sum - (l.map g).sum := by
  induction l with
  | nil => simp
  | cons i l ih =>
      simp only [List.map_cons, List.sum_cons, ih]
      exact (add_sub_add_comm _ _ _ _).symm

theorem sum_map_nonneg (f : ι → Int) : ∀ (l : List ι), (∀ i ∈ l, 0 ≤ f i) → 0 ≤ (l.map f).sum := by
  intro l hl
  refine List.sum_nonneg ?_
  intro x hx
  obtain ⟨i, hi, rfl⟩ := List.mem_map.mp hx
  exact hl i hi

/-- The sum without one place. -/
theorem sum_map_eraseIdx [AddCommMonoid M] (f : ι → M) {l : List ι} {i : ℕ} {a : ι} (h : l[i]? = some a) :
    f a + ((l.eraseIdx i).map f).sum = (l.map f).sum := by
  induction l generalizing i with
  | nil => exact absurd h (by simp)
  | cons b l ih =>
      cases i with
      | zero =>
          obtain rfl := Option.some.inj h
          rfl
      | succ i =>
          show f a + (f b + ((l.eraseIdx i).map f).sum) = f b + (l.map f).sum
          rw [add_left_comm, ih h]

/-- The sum after one place changed. -/
theorem sum_map_set [AddCommMonoid M] (f : ι → M) {l : List ι} {i : ℕ} {a : ι} (h : l[i]? = some a) (b : ι) :
    f a + ((l.set i b).map f).sum = f b + (l.map f).sum := by
  induction l generalizing i with
  | nil => exact absurd h (by simp)
  | cons c l ih =>
      cases i with
      | zero =>
          obtain rfl := Option.some.inj h
          exact add_left_comm _ _ _
      | succ i =>
          show f a + (f c + ((l.set i b).map f).sum) = f b + (f c + (l.map f).sum)
          rw [add_left_comm, ih h, add_left_comm]

end Sums
