import Mathlib.Algebra.Order.Group.Defs
import Mathlib.Algebra.BigOperators.Group.List.Basic
import Mathlib.Algebra.Order.BigOperators.Group.List
import Mathlib.Algebra.Order.Monoid.Unbundled.MinMax
import Mathlib.Tactic.Abel

/-!
# `Lib.Drain` — meeting a demand from a list of sources, in order

`takes b l d` is the plan of a greedy drain: walk the sources `l`, take from each the smaller of what it
holds (`b`) and what is still needed, stop once nothing is. Sources that hold nothing are skipped.

* `sum_takes` — the plan meets the demand, or empties every source;
* `mem_takes` / `mem_takes_iff` — which sources the plan visits, and what it takes from each, read off
  the sums over the sources before it;
* `takes_fst_sublist` / `takes_dropLast` — no source is visited twice, the order is the list's, and every
  visited source but the last is emptied.
-/

namespace Drain

variable {ι M : Type} [AddCommGroup M] [LinearOrder M]

/-- The plan of draining the sources `l`, holding `b`, for a demand `d`. -/
def takes (b : ι → M) : List ι → M → List (ι × M)
  | [], _ => []
  | i :: l, d =>
      if d ≤ 0 then []
      else if b i ≤ 0 then takes b l d
      else (i, min (b i) d) :: takes b l (d - min (b i) d)

/-- What a plan takes in total. -/
def total (plan : List (ι × M)) : M := (plan.map Prod.snd).sum

omit [LinearOrder M] in
@[simp] theorem total_nil : total ([] : List (ι × M)) = 0 := rfl

omit [LinearOrder M] in
@[simp] theorem total_cons (i : ι) (a : M) (plan : List (ι × M)) :
    total ((i, a) :: plan) = a + total plan := by
  simp [total]

/-- What a plan takes from one source. -/
def taken [DecidableEq ι] (plan : List (ι × M)) (i : ι) : M :=
  (plan.map fun x => if x.1 = i then x.2 else 0).sum

variable {b : ι → M} {l : List ι} {d : M}

theorem takes_of_nonpos (h : d ≤ 0) : takes b l d = [] := by
  cases l with
  | nil => rfl
  | cons i l => simp [takes, h]

theorem takes_cons_skip {i : ι} (h : b i ≤ 0) : takes b (i :: l) d = takes b l d := by
  by_cases hd : d ≤ 0
  · rw [takes_of_nonpos hd, takes_of_nonpos hd]
  · simp [takes, h, hd]

theorem takes_cons {i : ι} (hd : 0 < d) (hb : 0 < b i) :
    takes b (i :: l) d = (i, min (b i) d) :: takes b l (d - min (b i) d) := by
  simp [takes, not_le.mpr hd, not_le.mpr hb]

/-- The three ways the first source of a non-empty list is dealt with. -/
theorem takes_cases (b : ι → M) (i : ι) (l : List ι) (d : M) :
    (d ≤ 0 ∧ takes b (i :: l) d = []) ∨
    (0 < d ∧ b i ≤ 0 ∧ takes b (i :: l) d = takes b l d) ∨
    (0 < d ∧ 0 < b i ∧ takes b (i :: l) d = (i, min (b i) d) :: takes b l (d - min (b i) d)) := by
  rcases le_or_gt d 0 with hd | hd
  · exact Or.inl ⟨hd, takes_of_nonpos hd⟩
  · rcases le_or_gt (b i) 0 with hb | hb
    · exact Or.inr (Or.inl ⟨hd, hb, takes_cons_skip hb⟩)
    · exact Or.inr (Or.inr ⟨hd, hb, takes_cons hd hb⟩)

/-! ## Visits -/

/-- A visited source is listed, and what is taken is positive and held there. -/
theorem mem_takes {i : ι} {a : M} : ∀ {l : List ι} {d : M}, (i, a) ∈ takes b l d →
    i ∈ l ∧ 0 < a ∧ a ≤ b i := by
  intro l
  induction l with
  | nil => intro d h; exact absurd h (by simp [takes])
  | cons j l ih =>
      intro d h
      rcases takes_cases b j l d with ⟨_, he⟩ | ⟨_, _, he⟩ | ⟨hd, hb, he⟩
      · rw [he] at h; exact absurd h (by simp)
      · rw [he] at h
        obtain ⟨hi, ha, hle⟩ := ih h
        exact ⟨List.mem_cons_of_mem _ hi, ha, hle⟩
      · rw [he] at h
        rcases List.mem_cons.mp h with heq | h
        · obtain ⟨rfl, rfl⟩ := Prod.mk.inj heq
          exact ⟨List.mem_cons_self, lt_min hb hd, min_le_left _ _⟩
        · obtain ⟨hi, ha, hle⟩ := ih h
          exact ⟨List.mem_cons_of_mem _ hi, ha, hle⟩

/-- The plan visits listed sources in list order, each at most once per listing. -/
theorem takes_fst_sublist (b : ι → M) : ∀ (l : List ι) (d : M),
    ((takes b l d).map Prod.fst).Sublist l := by
  intro l
  induction l with
  | nil => intro d; exact List.Sublist.slnil
  | cons j l ih =>
      intro d
      rcases takes_cases b j l d with ⟨_, he⟩ | ⟨_, _, he⟩ | ⟨_, _, he⟩
      · rw [he]; exact List.nil_sublist _
      · rw [he]; exact (ih d).cons j
      · rw [he]; exact (ih _).cons_cons j

theorem takes_fst_nodup (h : l.Nodup) : ((takes b l d).map Prod.fst).Nodup :=
  (takes_fst_sublist b l d).nodup h

/-- The plan depends on the holdings of the listed sources only. -/
theorem takes_congr {b' : ι → M} : ∀ {l : List ι} {d : M}, (∀ i ∈ l, b' i = b i) →
    takes b' l d = takes b l d := by
  intro l
  induction l with
  | nil => intro d _; rfl
  | cons j l ih =>
      intro d h
      have hj := h j List.mem_cons_self
      have hl : ∀ d, takes b' l d = takes b l d := fun d =>
        ih (fun i hi => h i (List.mem_cons_of_mem _ hi))
      unfold takes
      rw [hj, hl, hl]

/-- **Every visited source but the last is emptied**: a further visit means that demand was left. -/
theorem takes_dropLast : ∀ {l : List ι} {d : M}, ∀ x ∈ (takes b l d).dropLast, x.2 = b x.1 := by
  intro l
  induction l with
  | nil => intro d x hx; exact absurd hx (by simp [takes])
  | cons j l ih =>
      intro d x hx
      rcases takes_cases b j l d with ⟨_, he⟩ | ⟨_, _, he⟩ | ⟨_, _, he⟩
      · rw [he] at hx; exact absurd hx (by simp)
      · rw [he] at hx; exact ih x hx
      · rw [he] at hx
        by_cases hl : takes b l (d - min (b j) d) = []
        · rw [hl] at hx; exact absurd hx (by simp)
        · rw [List.dropLast_cons_of_ne_nil hl] at hx
          rcases List.mem_cons.mp hx with rfl | hx
          · rcases le_total (b j) d with hle | hle
            · exact min_eq_left hle
            · -- had the demand been met here, nothing would have been visited after
              rw [min_eq_right hle, sub_self] at hl
              exact absurd (takes_of_nonpos (le_refl _)) hl
          · exact ih x hx

omit [LinearOrder M] in
/-- A plan takes nothing from a source it does not visit. -/
theorem taken_of_not_mem [DecidableEq ι] {plan : List (ι × M)} {i : ι} (h : i ∉ plan.map Prod.fst) :
    taken plan i = 0 := by
  refine List.sum_eq_zero (fun x hx => ?_)
  obtain ⟨y, hy, rfl⟩ := List.mem_map.mp hx
  exact if_neg (fun he => h (List.mem_map.mpr ⟨y, hy, he⟩))

omit [LinearOrder M] in
/-- What a plan without repetitions takes from a source it visits. -/
theorem taken_of_mem [DecidableEq ι] {plan : List (ι × M)} {i : ι} {a : M}
    (hnd : (plan.map Prod.fst).Nodup) (h : (i, a) ∈ plan) : taken plan i = a := by
  induction plan with
  | nil => exact absurd h (by simp)
  | cons x plan ih =>
      obtain ⟨hx, hnd⟩ := List.nodup_cons.mp hnd
      have hcons : taken (x :: plan) i = (if x.1 = i then x.2 else 0) + taken plan i := by
        simp [taken]
      rw [hcons]
      rcases List.mem_cons.mp h with rfl | h
      · rw [if_pos rfl, taken_of_not_mem hx, add_zero]
      · have hne : x.1 ≠ i := fun he => hx (he ▸ List.mem_map.mpr ⟨_, h, rfl⟩)
        rw [if_neg hne, ih hnd h, zero_add]

/-! ## Totals -/

variable [IsOrderedAddMonoid M]

/-- **The plan meets the demand, or empties every source.** -/
theorem sum_takes : ∀ {l : List ι} {d : M}, (∀ i ∈ l, 0 ≤ b i) → 0 ≤ d →
    total (takes b l d) = min d (l.map b).sum := by
  intro l
  induction l with
  | nil => intro d _ hd; simp [takes, hd]
  | cons j l ih =>
      intro d hl hd
      have hj := hl j List.mem_cons_self
      have hl' : ∀ i ∈ l, 0 ≤ b i := fun i hi => hl i (List.mem_cons_of_mem _ hi)
      have hs : 0 ≤ (l.map b).sum := List.sum_nonneg (by
        intro x hx
        obtain ⟨i, hi, rfl⟩ := List.mem_map.mp hx
        exact hl' i hi)
      rw [List.map_cons, List.sum_cons]
      rcases takes_cases b j l d with ⟨hd', he⟩ | ⟨_, hb, he⟩ | ⟨_, _, he⟩
      · have hd0 : d = 0 := le_antisymm hd' hd
        rw [he, total_nil, hd0, min_eq_left (add_nonneg hj hs)]
      · rw [he, ih hl' hd, le_antisymm hb hj, zero_add]
      · rw [he, total_cons, ih hl' (sub_nonneg.mpr (min_le_right _ _)), ← min_add_add_left,
          add_sub_cancel]
        rcases le_total (b j) d with hle | hle
        · rw [min_eq_left hle]
        · rw [min_eq_right hle, min_eq_left (le_add_of_nonneg_right hs),
            min_eq_left (le_trans hle (le_add_of_nonneg_right hs))]

/-- A source is reached in `j :: l` if it is `j`, or if it is reached in `l` after `j` was drained. -/
theorem reached_cons_iff {i j : ι} {a : M} :
    (∃ l₁ l₂, j :: l = l₁ ++ i :: l₂ ∧ 0 < b i ∧ (l₁.map b).sum < d ∧
        a = min (b i) (d - (l₁.map b).sum)) ↔
      (i = j ∧ 0 < b i ∧ 0 < d ∧ a = min (b i) d) ∨
      ∃ l₁ l₂, l = l₁ ++ i :: l₂ ∧ 0 < b i ∧ (l₁.map b).sum < d - b j ∧
        a = min (b i) (d - b j - (l₁.map b).sum) := by
  constructor
  · rintro ⟨l₁, l₂, he, hbi, hlt, ha⟩
    cases l₁ with
    | nil =>
        obtain ⟨rfl, rfl⟩ := List.cons.inj he
        exact Or.inl ⟨rfl, hbi, by simpa using hlt, by simpa using ha⟩
    | cons k l₁ =>
        obtain ⟨rfl, rfl⟩ := List.cons.inj he
        rw [List.map_cons, List.sum_cons] at hlt ha
        exact Or.inr ⟨l₁, l₂, rfl, hbi, lt_sub_iff_add_lt'.mpr hlt, by rw [sub_sub]; exact ha⟩
  · rintro (⟨rfl, hbi, hd, ha⟩ | ⟨l₁, l₂, rfl, hbi, hlt, ha⟩)
    · exact ⟨[], l, rfl, hbi, by simpa using hd, by simpa using ha⟩
    · refine ⟨j :: l₁, l₂, rfl, hbi, ?_, ?_⟩
      · rw [List.map_cons, List.sum_cons]; exact lt_sub_iff_add_lt'.mp hlt
      · rw [List.map_cons, List.sum_cons, ← sub_sub]; exact ha

/-- Nothing is reached once the demand is met. -/
theorem not_reached {i : ι} (hl : ∀ k ∈ l, 0 ≤ b k) {l₁ l₂ : List ι} (hs : l = l₁ ++ i :: l₂) (hd : d ≤ 0) :
    ¬ (l₁.map b).sum < d := by
  subst hs
  have hpre : 0 ≤ (l₁.map b).sum := by
    refine List.sum_nonneg (fun x hx => ?_)
    obtain ⟨k, hk, rfl⟩ := List.mem_map.mp hx
    exact hl k (List.mem_append_left _ hk)
  exact not_lt.mpr (le_trans hd hpre)

/-- **Which sources are visited**: exactly the non-empty ones reached before the demand is met, and the
    smaller of what they hold and what is still needed is taken. -/
theorem mem_takes_iff {i : ι} {a : M} : ∀ {l : List ι} {d : M}, (∀ j ∈ l, 0 ≤ b j) →
    ((i, a) ∈ takes b l d ↔
      ∃ l₁ l₂, l = l₁ ++ i :: l₂ ∧ 0 < b i ∧ (l₁.map b).sum < d ∧ a = min (b i) (d - (l₁.map b).sum)) := by
  intro l
  induction l with
  | nil => intro d _; simp [takes]
  | cons j l ih =>
      intro d hl
      have hj := hl j List.mem_cons_self
      have hl' : ∀ k ∈ l, 0 ≤ b k := fun k hk => hl k (List.mem_cons_of_mem _ hk)
      rw [reached_cons_iff]
      rcases takes_cases b j l d with ⟨hd, he⟩ | ⟨hd, hb, he⟩ | ⟨hd, hb, he⟩
      · rw [he]
        constructor
        · intro h; exact absurd h (by simp)
        · rintro (⟨_, _, hd', _⟩ | ⟨l₁, l₂, hs, _, hlt, _⟩)
          · exact absurd hd' (not_lt.mpr hd)
          · exact absurd hlt (not_reached hl' hs (sub_nonpos.mpr (le_trans hd hj)))
      · have hb0 : b j = 0 := le_antisymm hb hj
        rw [he, ih hl', hb0]
        simp only [sub_zero]
        constructor
        · exact Or.inr
        · rintro (⟨rfl, hbi, _, _⟩ | h)
          · exact absurd hbi (not_lt.mpr hb)
          · exact h
      · rw [he, List.mem_cons, Prod.mk.injEq, ih hl']
        rcases le_total (b j) d with hle | hle
        · rw [min_eq_left hle]
          constructor
          · rintro (⟨rfl, rfl⟩ | h)
            · exact Or.inl ⟨rfl, hb, hd, (min_eq_left hle).symm⟩
            · exact Or.inr h
          · rintro (⟨rfl, _, _, rfl⟩ | h)
            · exact Or.inl ⟨rfl, min_eq_left hle⟩
            · exact Or.inr h
        · -- the demand is met here: nothing after `j` is visited
          rw [min_eq_right hle, sub_self]
          constructor
          · rintro (⟨rfl, rfl⟩ | ⟨l₁, l₂, hs, _, hlt, _⟩)
            · exact Or.inl ⟨rfl, hb, hd, (min_eq_right hle).symm⟩
            · exact absurd hlt (not_reached hl' hs (le_refl _))
          · rintro (⟨rfl, _, _, rfl⟩ | ⟨l₁, l₂, hs, _, hlt, _⟩)
            · exact Or.inl ⟨rfl, min_eq_right hle⟩
            · exact absurd hlt (not_reached hl' hs (sub_nonpos.mpr hle))

end Drain
