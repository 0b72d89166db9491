import Mathlib.Algebra.Order.BigOperators.GroupWithZero.List
import Mathlib.Data.List.Induction
import Mathlib.Data.Rat.Floor
import Mathlib.Tactic.FieldSimp
import Mathlib.Tactic.Linarith
import Mathlib.Tactic.Ring

/-!
# `Lib.Compounding` — interest credited in pieces, in whole units

A stake of `p` units earns `g` parts in `B` of itself, rounded down (`grow`). Crediting the interest piece by
piece (`compound`) loses part of a unit at each piece, and earns interest on interest in between.

* `sub_length_le_compound` — against simple interest on the first stake, credited once, at most one unit a
  further piece is lost: what a piece earns on the interest already credited is never negative;
* `abs_grow_add_sub_lt` — what a further piece adds to a stake;
* `compound_le` — against compound interest without rounding (`ideal`), nothing is gained.
-/

namespace Compounding

/-- `p` after interest of `g` parts in `B`, rounded down. -/
def grow (B p g : Int) : Int := p + p * g / B

/-- `p` after interest credited piece by piece. -/
def compound (B p : Int) (gs : List Int) : Int := gs.foldl (grow B) p

/-- The factor of compound interest without rounding. -/
def ideal (B : Int) (gs : List Int) : ℚ := (gs.map fun g : Int => 1 + (g : ℚ) / B).prod

variable {B p g h : Int} {gs : List Int}

/-! ## One piece -/

theorem le_grow (hB : 0 < B) (hp : 0 ≤ p) (hg : 0 ≤ g) : p ≤ grow B p g := by
  have hpart : 0 ≤ p * g / B := Int.ediv_nonneg (mul_nonneg hp hg) (le_of_lt hB)
  unfold grow
  omega

/-- A whole number plus a rounded quotient is the rounded sum. -/
theorem floor_eq_grow (hB : 0 < B) : ⌊(p : ℚ) + p * g / B⌋ = grow B p g := by
  have hq : (0 : ℚ) < B := by exact_mod_cast hB
  have hlow : p * g / B * B ≤ p * g := Int.ediv_mul_le _ (ne_of_gt hB)
  have hhigh : p * g < (p * g / B + 1) * B := Int.lt_ediv_add_one_mul_self _ hB
  unfold grow
  rw [Int.floor_intCast_add]
  congr 1
  refine Int.floor_eq_iff.mpr ⟨?_, ?_⟩
  · rw [le_div_iff₀ hq]
    exact_mod_cast hlow
  · rw [div_lt_iff₀ hq]
    exact_mod_cast hhigh

theorem grow_le (hB : 0 < B) : (grow B p g : ℚ) ≤ p * (1 + (g : ℚ) / B) := by
  have hfloor : ((⌊(p : ℚ) + p * g / B⌋ : Int) : ℚ) ≤ (p : ℚ) + p * g / B := Int.floor_le _
  rw [floor_eq_grow hB] at hfloor
  calc (grow B p g : ℚ) ≤ (p : ℚ) + p * g / B := hfloor
    _ = p * (1 + (g : ℚ) / B) := by ring

/-- Cutting a piece in two loses at most one unit. -/
theorem grow_add_le (hB : 0 < B) : grow B p (g + h) ≤ grow B p g + p * h / B + 1 := by
  have hg : p * g < (p * g / B + 1) * B := Int.lt_ediv_add_one_mul_self _ hB
  have hh : p * h < (p * h / B + 1) * B := Int.lt_ediv_add_one_mul_self _ hB
  have hsum : p * (g + h) < (p * g / B + p * h / B + 2) * B := by
    calc p * (g + h) = p * g + p * h := mul_add p g h
      _ < (p * g / B + 1) * B + (p * h / B + 1) * B := add_lt_add hg hh
      _ = (p * g / B + p * h / B + 2) * B := by ring
  have hdiv : p * (g + h) / B < p * g / B + p * h / B + 2 := Int.ediv_lt_of_lt_mul hB hsum
  unfold grow
  omega

/-- **A further piece adds its interest**, to within one unit. -/
theorem abs_grow_add_sub_lt (hB : 0 < B) :
    |((grow B p (g + h) - grow B p g : Int) : ℚ) - (p : ℚ) * h / B| < 1 := by
  have hBq : (0 : ℚ) < B := by exact_mod_cast hB
  have hlow₀ := Int.ediv_mul_le (p * g) (ne_of_gt hB)
  have hhigh₀ := Int.lt_ediv_add_one_mul_self (p * g) hB
  have hlow₁ := Int.ediv_mul_le (p * (g + h)) (ne_of_gt hB)
  have hhigh₁ := Int.lt_ediv_add_one_mul_self (p * (g + h)) hB
  have hsum : p * (g + h) = p * g + p * h := mul_add p g h
  have hdiff : grow B p (g + h) - grow B p g = p * (g + h) / B - p * g / B := by
    unfold grow
    ring
  have hlow : (-B : ℚ) < ((grow B p (g + h) - grow B p g : Int) : ℚ) * B - p * h := by
    rw [hdiff]
    exact_mod_cast (by linarith : -B < (p * (g + h) / B - p * g / B) * B - p * h)
  have hhigh : ((grow B p (g + h) - grow B p g : Int) : ℚ) * B - p * h < B := by
    rw [hdiff]
    exact_mod_cast (by linarith : (p * (g + h) / B - p * g / B) * B - p * h < B)
  have hbelow : (p : ℚ) * h / B < ((grow B p (g + h) - grow B p g : Int) : ℚ) + 1 := by
    rw [div_lt_iff₀ hBq]
    linarith
  have habove : ((grow B p (g + h) - grow B p g : Int) : ℚ) - 1 < (p : ℚ) * h / B := by
    rw [lt_div_iff₀ hBq]
    linarith
  rw [abs_lt]
  constructor
  · linarith
  · linarith

/-- What a positive stake earned tells how large the product was. -/
theorem mul_lt_mul_grow (hB : 0 < B) (hp : 0 < p) : p * g < B * grow B p g := by
  have hhigh : p * g < (p * g / B + 1) * B := Int.lt_ediv_add_one_mul_self _ hB
  have hone : p * g / B + 1 ≤ grow B p g := by
    unfold grow
    omega
  calc p * g < (p * g / B + 1) * B := hhigh
    _ ≤ grow B p g * B := mul_le_mul_of_nonneg_right hone (le_of_lt hB)
    _ = B * grow B p g := mul_comm _ _

/-! ## Piece by piece -/

theorem compound_cons : compound B p (g :: gs) = compound B (grow B p g) gs := rfl

theorem compound_concat (gs : List Int) (g : Int) : compound B p (gs ++ [g]) = grow B (compound B p gs) g := by
  unfold compound
  rw [List.foldl_append]
  rfl

theorem le_compound (hB : 0 < B) (hp : 0 ≤ p) (hg : ∀ g ∈ gs, 0 ≤ g) : p ≤ compound B p gs := by
  induction gs generalizing p with
  | nil => exact le_refl _
  | cons g gs ih =>
      have hstep : p ≤ grow B p g := le_grow hB hp (hg g List.mem_cons_self)
      have hrest := ih (le_trans hp hstep) (fun g' hg' => hg g' (List.mem_cons_of_mem g hg'))
      exact le_trans hstep hrest

/-- **A further piece loses at most one unit against simple interest.** -/
theorem sub_length_le_compound (hB : 0 < B) (hp : 0 ≤ p) (hg : 0 ≤ g) (hgs : ∀ g ∈ gs, 0 ≤ g) :
    grow B p (g + gs.sum) - gs.length ≤ compound B p (g :: gs) := by
  induction gs using List.reverseRecOn with
  | nil => simp [compound]
  | append_singleton gs h ih =>
      have hprev : ∀ g ∈ gs, 0 ≤ g := fun g' hg' => hgs g' (List.mem_append_left [h] hg')
      have hh : 0 ≤ h := hgs h (List.mem_append_right gs List.mem_cons_self)
      have hcut : grow B p (g + gs.sum + h) ≤ grow B p (g + gs.sum) + p * h / B + 1 := grow_add_le hB
      -- the last piece is earned on no less than the first stake
      have hstake : p ≤ compound B p (g :: gs) := by
        refine le_compound hB hp ?_
        exact List.forall_mem_cons.mpr ⟨hg, hprev⟩
      have hearned : p * h / B ≤ compound B p (g :: gs) * h / B :=
        Int.ediv_le_ediv hB (mul_le_mul_of_nonneg_right hstake hh)
      have hlast : compound B p (g :: (gs ++ [h]))
          = compound B p (g :: gs) + compound B p (g :: gs) * h / B := compound_concat (g :: gs) h
      have hrest := ih hprev
      rw [hlast, List.sum_append, List.sum_singleton, List.length_append, List.length_singleton, ← add_assoc]
      push_cast
      omega

theorem ideal_cons : ideal B (g :: gs) = (1 + (g : ℚ) / B) * ideal B gs := List.prod_cons

theorem ideal_nonneg (hB : 0 < B) (hg : ∀ g ∈ gs, 0 ≤ g) : 0 ≤ ideal B gs := by
  apply List.prod_nonneg
  intro r hr
  obtain ⟨g, hmem, rfl⟩ := List.mem_map.mp hr
  have hq : (0 : ℚ) < B := by exact_mod_cast hB
  have hg₀ : (0 : ℚ) ≤ g := by exact_mod_cast hg g hmem
  exact add_nonneg zero_le_one (div_nonneg hg₀ (le_of_lt hq))

/-- **Rounding down gains nothing on compound interest.** -/
theorem compound_le (hB : 0 < B) (hg : ∀ g ∈ gs, 0 ≤ g) : (compound B p gs : ℚ) ≤ p * ideal B gs := by
  induction gs generalizing p with
  | nil => simp [compound, ideal]
  | cons g gs ih =>
      have hrest : ∀ g ∈ gs, 0 ≤ g := fun g' hg' => hg g' (List.mem_cons_of_mem g hg')
      calc (compound B p (g :: gs) : ℚ) ≤ grow B p g * ideal B gs := ih hrest
        _ ≤ p * (1 + (g : ℚ) / B) * ideal B gs :=
            mul_le_mul_of_nonneg_right (grow_le hB) (ideal_nonneg hB hrest)
        _ = p * ideal B (g :: gs) := by rw [ideal_cons, mul_assoc]

end Compounding
