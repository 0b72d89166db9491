import SoroSense.YieldPool.Spec
import SoroSense.Lib.Compounding
import Mathlib.Algebra.Order.BigOperators.Group.List

/-!
# `Properties.Touches` — what re-basing a position costs

Every supply and every payout realises the position's interest into its principal, rounded down, and captures
the index anew (`touched_of_supply`, `touched_of_withdraw`). A position re-based often therefore rounds often,
and earns interest on the interest realised.

`touched_balance_bounds` weighs the two over any schedule of rates: a touch costs at most one base unit
against the position left alone, and gains nothing on compound interest.
-/

namespace SoroSense
namespace YieldPool

open Fallible Compounding

/-! ## Positions under a schedule of rates -/

/-- The rates in force one after the other, each with the seconds it applied. -/
abbrev Schedule := List (Nat × Nat)

/-- The index at the end of a schedule. -/
def advanceAlong (index : Int) (schedule : Schedule) : Except Panic Int :=
  schedule.foldlM (fun index period => advanceIndex index period.1 period.2) index

/-- What a schedule adds to the index. -/
def Schedule.growth (schedule : Schedule) : Int :=
  (schedule.map fun period : Nat × Nat => (period.1 * period.2 : Int)).sum

/-- A touch with no net flow: the position re-based at its current value. -/
def Position.touch (pos : Position) (index : Int) : Except Panic Position := do
  let realized ← valueAt pos.principal pos.entryIndex index
  .ok { principal := realized, entryIndex := index }

/-- The balance after a schedule and, touched before each, further ones. -/
def balanceAfter (pos : Position) (schedule : Schedule) : List Schedule → Except Panic Int
  | [] => do
      let index ← advanceAlong pos.entryIndex schedule
      valueAt pos.principal pos.entryIndex index
  | next :: rest => do
      let index ← advanceAlong pos.entryIndex schedule
      let pos ← pos.touch index
      balanceAfter pos next rest

/-! ## The calls touch -/

section Calls

variable {s s' : State} {now : Nat} {who self : Address} {amount : Int} {auth : Auth} {pos : Position}

/-- A position that prices is touched to its exact value. -/
theorem touch_of_priced (h : s.WF now) (hnow : now ≤ u64Max) (hp : s.position who = some pos)
    (hpr : s.Priced now who) :
    pos.touch (s.indexAt now) = .ok ⟨s.value now who, s.indexAt now⟩ := by
  have hread : valueAt pos.principal pos.entryIndex (s.indexAt now) = .ok (s.value now who) := by
    unfold State.Priced at hpr
    rw [← valueOf_rolled h hnow] at hpr
    simpa only [valueOf, State.rolled, hp] using hpr
  unfold Position.touch
  rw [hread]
  rfl

/-- **A supply touches the position and adds its amount.** -/
theorem touched_of_supply (h : s.WF now) (hnow : now ≤ u64Max) (hp : s.position who = some pos)
    (hs : supply auth now s who amount = .ok s') :
    ∃ pos', pos.touch (s.indexAt now) = .ok pos' ∧
      s'.position who = some { pos' with principal := pos'.principal + amount } := by
  obtain ⟨_, _, hpr, _, _, rfl⟩ := (supply_eq_ok h hnow).mp hs
  exact ⟨_, touch_of_priced h hnow hp hpr, State.setPosition_self⟩

/-- **A payout touches the position and takes its amount out.** -/
theorem touched_of_withdraw (h : s.WF now) (hnow : now ≤ u64Max) (hp : s.position who = some pos)
    {tokens tokens' : Tokens} (hw : withdraw auth now self s tokens who amount = .ok (s', tokens')) :
    ∃ pos', pos.touch (s.indexAt now) = .ok pos' ∧
      s'.position who = some { pos' with principal := pos'.principal - amount } := by
  obtain ⟨_, _, hpr, _, _, rfl, _⟩ := (withdraw_eq_ok h hnow).mp hw
  exact ⟨_, touch_of_priced h hnow hp hpr, State.setPosition_self⟩

end Calls

/-! ## One schedule -/

variable {index P entry v : Int} {schedule : Schedule} {touches : List Schedule}

theorem growth_cons (period : Nat × Nat) :
    Schedule.growth (period :: schedule) = (period.1 * period.2 : Int) + schedule.growth := by
  simp only [Schedule.growth, List.map_cons, List.sum_cons]

theorem growth_nonneg (schedule : Schedule) : 0 ≤ schedule.growth := by
  apply List.sum_nonneg
  intro g hg
  obtain ⟨period, _, rfl⟩ := List.mem_map.mp hg
  exact mul_nonneg (Int.natCast_nonneg _) (Int.natCast_nonneg _)

theorem advanceAlong_cons (period : Nat × Nat) :
    advanceAlong index (period :: schedule)
      = advanceIndex index period.1 period.2 >>= fun index => advanceAlong index schedule := List.foldlM_cons

theorem advanceAlong_eq_ok {j : Int} (h : advanceAlong index schedule = .ok j) : j = index + schedule.growth := by
  induction schedule generalizing index with
  | nil =>
      rw [← pure_eq_ok.mp h]
      exact (add_zero index).symm
  | cons period schedule ih =>
      rw [advanceAlong_cons] at h
      obtain ⟨i, hi, hrest⟩ := bind_eq_ok.mp h
      simp only [advanceIndex, bind_eq_ok, I128.expect_eq_ok] at hi
      obtain ⟨_, ⟨_, rfl⟩, _, rfl⟩ := hi
      rw [ih hrest, growth_cons, add_assoc]

/-- An index whose end is an `i128` gets there. -/
theorem advanceAlong_of_fits (h₀ : 0 ≤ index) (hf : I128.Fits (index + schedule.growth)) :
    advanceAlong index schedule = .ok (index + schedule.growth) := by
  induction schedule generalizing index with
  | nil => exact congrArg Except.ok (add_zero index).symm
  | cons period schedule ih =>
      have hd : (0 : Int) ≤ period.1 * period.2 := mul_nonneg (Int.natCast_nonneg _) (Int.natCast_nonneg _)
      have hg : 0 ≤ Schedule.growth schedule := growth_nonneg schedule
      rw [growth_cons, ← add_assoc] at hf
      have hstep : advanceIndex index period.1 period.2 = .ok (index + period.1 * period.2) := by
        simp only [advanceIndex, bind_eq_ok, I128.expect_eq_ok]
        exact ⟨_, ⟨hf.of_nonneg hd (by omega), rfl⟩, hf.of_nonneg (by omega) (by omega), rfl⟩
      rw [advanceAlong_cons, hstep, bind_eq_ok]
      refine ⟨_, rfl, ?_⟩
      rw [growth_cons, ← add_assoc]
      exact ih (add_nonneg h₀ hd) hf

/-- Over a positive principal the exact value is the principal and its interest, rounded down. -/
theorem exactValue_eq_grow (entry : Int) {g : Int} (hP : 0 < P) (hg : 0 ≤ g) :
    exactValue P entry (entry + g) = grow bpsYear P g := by
  unfold exactValue grow
  rw [if_neg (not_le.mpr hP), add_sub_cancel_left, Int.tdiv_eq_ediv_of_nonneg (mul_nonneg (le_of_lt hP) hg)]

/-! ## Any number of touches -/

/-- **The balance after touches is interest credited piece by piece.** -/
theorem balanceAfter_eq_ok (hP : 0 < P) (h : balanceAfter ⟨P, entry⟩ schedule touches = .ok v) :
    v = compound bpsYear P ((schedule :: touches).map Schedule.growth) := by
  induction touches generalizing P entry schedule with
  | nil =>
      obtain ⟨index, hi, hv⟩ := bind_eq_ok.mp h
      rw [valueAt_eq_ok hv, advanceAlong_eq_ok hi]
      exact exactValue_eq_grow entry hP (growth_nonneg schedule)
  | cons next rest ih =>
      obtain ⟨index, hi, h⟩ := bind_eq_ok.mp h
      obtain ⟨pos, ht, h⟩ := bind_eq_ok.mp h
      obtain ⟨realized, hv, hpos⟩ := bind_eq_ok.mp ht
      obtain rfl := ok_eq_ok.mp hpos
      have hr : realized = grow bpsYear P schedule.growth := by
        rw [valueAt_eq_ok hv, advanceAlong_eq_ok hi]
        exact exactValue_eq_grow entry hP (growth_nonneg schedule)
      have hpos : 0 < realized := by
        rw [hr]
        exact lt_of_lt_of_le hP (le_grow bpsYear_pos (le_of_lt hP) (growth_nonneg schedule))
      rw [ih hpos h, hr]
      rfl

/-- One valuation returns when its result times the divisor is an `i128`. -/
theorem valueAt_of_grow_fits {g : Int} (hP : 0 < P) (hg : 0 ≤ g)
    (hf : bpsYear * grow bpsYear P g ≤ I128.maxVal) :
    valueAt P entry (entry + g) = .ok (grow bpsYear P g) := by
  have hprod : P * g < bpsYear * grow bpsYear P g := mul_lt_mul_grow bpsYear_pos hP
  have hval : 0 ≤ grow bpsYear P g := le_trans (le_of_lt hP) (le_grow bpsYear_pos (le_of_lt hP) hg)
  have hdiv : grow bpsYear P g ≤ bpsYear * grow bpsYear P g :=
    le_mul_of_one_le_left hval (by decide)
  have hgrow : g ≤ P * g := le_mul_of_one_le_left hg hP
  have htop : I128.Fits I128.maxVal := ⟨by decide, le_refl _⟩
  rw [← exactValue_eq_grow entry hP hg] at hval hdiv ⊢
  apply valueAt_of_fits
  · rw [add_sub_cancel_left]
    exact htop.of_nonneg hg (by omega)
  · rw [add_sub_cancel_left]
    exact htop.of_nonneg (mul_nonneg (le_of_lt hP) hg) (by omega)
  · exact htop.of_nonneg hval (by rw [exactValue_eq_grow entry hP hg] at hdiv ⊢; omega)

/-- The touches go through while the balance times the divisor is an `i128`. -/
theorem balanceAfter_of_fits (hP : 0 < P) (h₀ : 0 ≤ entry)
    (hi : entry + ((schedule :: touches).map Schedule.growth).sum ≤ I128.maxVal)
    (hv : bpsYear * compound bpsYear P ((schedule :: touches).map Schedule.growth) ≤ I128.maxVal) :
    ∃ v, balanceAfter ⟨P, entry⟩ schedule touches = .ok v := by
  have htop : I128.Fits I128.maxVal := ⟨by decide, le_refl _⟩
  induction touches generalizing P entry schedule with
  | nil =>
      have hg : 0 ≤ schedule.growth := growth_nonneg schedule
      rw [List.map_singleton, List.sum_singleton] at hi
      have hindex : advanceAlong entry schedule = .ok (entry + schedule.growth) :=
        advanceAlong_of_fits h₀ (htop.of_nonneg (add_nonneg h₀ hg) hi)
      exact ⟨_, bind_eq_ok.mpr ⟨_, hindex, valueAt_of_grow_fits hP hg hv⟩⟩
  | cons next rest ih =>
      have hg : 0 ≤ schedule.growth := growth_nonneg schedule
      have hgs : ∀ g ∈ (next :: rest).map Schedule.growth, 0 ≤ g := by
        intro g hmem
        obtain ⟨s, _, rfl⟩ := List.mem_map.mp hmem
        exact growth_nonneg s
      have hsum : 0 ≤ ((next :: rest).map Schedule.growth).sum := List.sum_nonneg hgs
      rw [List.map_cons, List.sum_cons, ← add_assoc] at hi
      rw [List.map_cons, compound_cons] at hv
      have hpos : 0 < grow bpsYear P schedule.growth :=
        lt_of_lt_of_le hP (le_grow bpsYear_pos (le_of_lt hP) hg)
      -- the balance only grows from here, so what fits at the end fits now
      have hnow : bpsYear * grow bpsYear P schedule.growth ≤ I128.maxVal :=
        le_trans (mul_le_mul_of_nonneg_left (le_compound bpsYear_pos (le_of_lt hpos) hgs)
          (le_of_lt bpsYear_pos)) hv
      have hindex : advanceAlong entry schedule = .ok (entry + schedule.growth) :=
        advanceAlong_of_fits h₀ (htop.of_nonneg (add_nonneg h₀ hg) (by omega))
      obtain ⟨v, hrest⟩ := ih hpos (add_nonneg h₀ hg) hi hv
      refine ⟨v, bind_eq_ok.mpr ⟨_, hindex, bind_eq_ok.mpr ⟨_, ?_, hrest⟩⟩⟩
      exact bind_eq_ok.mpr ⟨_, valueAt_of_grow_fits hP hg hnow, rfl⟩

/-- **A touch is neither a material loss nor a free gain.** Over every schedule of rates, a position of
    principal `P` touched `k` times ends at most `k` units below the simple interest on `P`, rounded down, and
    never above compound interest; untouched, it ends exactly at that simple interest. It does end somewhere
    whenever the index and compound interest, times the divisor, are `i128` values. -/
theorem touched_balance_bounds (hP : 0 < P) (schedule : Schedule) (touches : List Schedule) :
    (∀ v, balanceAfter ⟨P, entry⟩ schedule touches = .ok v →
      ⌊(P : ℚ) + P * (((schedule :: touches).map Schedule.growth).sum : Int) / bpsYear⌋ - touches.length ≤ v ∧
      (v : ℚ) ≤ P * ((schedule :: touches).map fun s : Schedule => 1 + (s.growth : ℚ) / bpsYear).prod ∧
      (touches = [] → v = ⌊(P : ℚ) + P * (schedule.growth : Int) / bpsYear⌋)) ∧
    (0 ≤ entry → entry + ((schedule :: touches).map Schedule.growth).sum ≤ I128.maxVal →
      (bpsYear : ℚ) * (P * ((schedule :: touches).map fun s : Schedule => 1 + (s.growth : ℚ) / bpsYear).prod)
        ≤ I128.maxVal →
      ∃ v, balanceAfter ⟨P, entry⟩ schedule touches = .ok v) := by
  have hgs : ∀ g ∈ touches.map Schedule.growth, 0 ≤ g := by
    intro g hmem
    obtain ⟨s, _, rfl⟩ := List.mem_map.mp hmem
    exact growth_nonneg s
  have hall : ∀ g ∈ (schedule :: touches).map Schedule.growth, 0 ≤ g :=
    List.forall_mem_cons.mpr ⟨growth_nonneg schedule, hgs⟩
  have hideal : ideal bpsYear ((schedule :: touches).map Schedule.growth)
      = ((schedule :: touches).map fun s : Schedule => 1 + (s.growth : ℚ) / bpsYear).prod := by
    unfold ideal
    rw [List.map_map]
    rfl
  have htop := compound_le (p := P) bpsYear_pos hall
  rw [hideal] at htop
  constructor
  · intro v hv
    obtain rfl := balanceAfter_eq_ok hP hv
    refine ⟨?_, htop, ?_⟩
    · have hlow := sub_length_le_compound bpsYear_pos (le_of_lt hP) (growth_nonneg schedule) hgs
      rw [List.length_map] at hlow
      rw [floor_eq_grow bpsYear_pos, List.map_cons, List.sum_cons]
      exact hlow
    · rintro rfl
      rw [floor_eq_grow bpsYear_pos]
      rfl
  · intro h₀ hi hfit
    apply balanceAfter_of_fits hP h₀ hi
    have hq : ((bpsYear * compound bpsYear P ((schedule :: touches).map Schedule.growth) : Int) : ℚ)
        ≤ I128.maxVal := by
      push_cast
      have hB : (0 : ℚ) ≤ bpsYear := by exact_mod_cast le_of_lt bpsYear_pos
      exact le_trans (mul_le_mul_of_nonneg_left htop hB) hfit
    exact_mod_cast hq

/-- 1000 units at ten percent for a year, then at the top rate for two, touched before each: 1100, 12100 and
    133100, where one touch less would end at 1100 and 23100. -/
theorem touched_balance_bounds_threeYears :
    ∃ v, balanceAfter ⟨1000, 0⟩ [(1000, 31536000)] [[(100000, 31536000)], [(100000, 31536000)]] = .ok v ∧
      ⌊(1000 : ℚ) + 1000 * ((6338736000000 : Int) : ℚ) / bpsYear⌋ - 2 ≤ v :=
  have hv : balanceAfter ⟨1000, 0⟩ [(1000, 31536000)] [[(100000, 31536000)], [(100000, 31536000)]]
      = .ok 133100 := by decide +kernel
  ⟨133100, hv, ((touched_balance_bounds (by decide) _ _).1 _ hv).1⟩

end YieldPool
end SoroSense
