import Mathlib.Algebra.Order.Group.MinMax
import Mathlib.Algebra.Order.Ring.Int
import Mathlib.Data.Int.Order.Lemmas
import Mathlib.Data.Rat.Floor
import Mathlib.Tactic.FieldSimp
import Mathlib.Tactic.Linarith
import Mathlib.Tactic.Ring

/-!
# `Lib.AverageCost` — the cost behind a position, in whole units

A position of `S` units bought for `k` in all. Selling `s` of them takes out the part `k * s / S` of the
cost, rounded down; `left` is what stays behind. It never leaves the range from nothing to `k`, nothing stays
behind a position that was sold out, and the same sale out of a larger position that cost no less leaves no
less behind. Against the exact pro-rata cost it is at least as much, and less than one unit more.

Against a price that never falls, what a position has cost above its value (`overpaid`) is what roundings have
cost: a purchase rounded down to whole units adds at most the price of one (`overpaid_buy`), a sale rounded down
to whole money at most one (`overpaid_sell`).
-/

namespace AverageCost

/-- What a sale of `s` out of `S` units leaves of the cost `k`. -/
def left (k s S : Int) : Int := k - (k * s).tdiv S

variable {k k' s S S' : Int}

theorem left_eq (hk : 0 ≤ k) (hs : 0 < s) : left k s S = k - k * s / S := by
  unfold left
  rw [Int.tdiv_eq_ediv_of_nonneg (mul_nonneg hk (le_of_lt hs))]

theorem left_nonneg (hk : 0 ≤ k) (hs : 0 < s) (hle : s ≤ S) : 0 ≤ left k s S := by
  have hS : 0 < S := lt_of_lt_of_le hs hle
  have hpart : k * s / S ≤ k := Int.ediv_le_of_le_mul hS (mul_le_mul_of_nonneg_left hle hk)
  rw [left_eq hk hs]
  exact sub_nonneg.mpr hpart

theorem left_le (hk : 0 ≤ k) (hs : 0 < s) (hle : s ≤ S) : left k s S ≤ k := by
  have hS : 0 < S := lt_of_lt_of_le hs hle
  have hpart : 0 ≤ k * s / S := Int.ediv_nonneg (mul_nonneg hk (le_of_lt hs)) (le_of_lt hS)
  rw [left_eq hk hs]
  exact sub_le_self k hpart

/-- Nothing stays behind a position that was sold out. -/
theorem left_all (hk : 0 ≤ k) (hs : 0 < s) : left k s s = 0 := by
  rw [left_eq hk hs, Int.mul_ediv_cancel k (ne_of_gt hs), sub_self]

/-- **A larger position that cost no less keeps no less.** -/
theorem left_le_left (hk : 0 ≤ k) (hcost : k ≤ k') (hs : 0 < s) (hle : s ≤ S) (hunits : S ≤ S') :
    left k s S ≤ left k' s S' := by
  have hS : 0 < S := lt_of_lt_of_le hs hle
  have hS' : 0 < S' := lt_of_lt_of_le hS hunits
  have hks : 0 ≤ k * s := mul_nonneg hk (le_of_lt hs)
  rw [left_eq hk hs, left_eq (le_trans hk hcost) hs]
  -- of the smaller cost, the larger position gives up no more
  have hsmall : k * s / S' ≤ k * s / S := by
    apply Int.le_ediv_of_mul_le hS
    calc k * s / S' * S ≤ k * s / S' * S' :=
          mul_le_mul_of_nonneg_left hunits (Int.ediv_nonneg hks (le_of_lt hS'))
      _ ≤ k * s := Int.ediv_mul_le _ (ne_of_gt hS')
  -- and of the rest of the larger cost, at most all of it
  have hrest : k' * s / S' ≤ k * s / S' + (k' - k) := by
    rw [← Int.add_mul_ediv_right _ _ (ne_of_gt hS')]
    apply Int.ediv_le_ediv hS'
    calc k' * s = k * s + (k' - k) * s := by ring
      _ ≤ k * s + (k' - k) * S' :=
          add_le_add (le_refl _) (mul_le_mul_of_nonneg_left (le_trans hle hunits) (sub_nonneg.mpr hcost))
  omega

/-! ## Against the exact cost -/

/-- The part of the cost behind the units not sold. -/
theorem exact_le_left (hk : 0 ≤ k) (hs : 0 < s) (hle : s ≤ S) : (k : ℚ) * (1 - s / S) ≤ left k s S := by
  have hS : 0 < S := lt_of_lt_of_le hs hle
  have hq : (0 : ℚ) < S := by exact_mod_cast hS
  have hfloor : ((k * s / S : Int) : ℚ) ≤ (k : ℚ) * s / S := by
    rw [le_div_iff₀ hq]
    exact_mod_cast Int.ediv_mul_le (k * s) (ne_of_gt hS)
  rw [left_eq hk hs]
  push_cast
  have hexact : (k : ℚ) * (1 - s / S) = k - k * s / S := by ring
  linarith

theorem left_lt_exact_add_one (hk : 0 ≤ k) (hs : 0 < s) (hle : s ≤ S) :
    (left k s S : ℚ) < k * (1 - s / S) + 1 := by
  have hS : 0 < S := lt_of_lt_of_le hs hle
  have hq : (0 : ℚ) < S := by exact_mod_cast hS
  have hfloor : (k : ℚ) * s / S < ((k * s / S : Int) : ℚ) + 1 := by
    rw [div_lt_iff₀ hq]
    exact_mod_cast Int.lt_ediv_add_one_mul_self (k * s) hS
  rw [left_eq hk hs]
  push_cast
  have hexact : (k : ℚ) * (1 - s / S) = k - k * s / S := by ring
  linarith

/-! ## Against a price that never falls -/

/-- What `S` units that cost `k` have cost above their value at price `p`. -/
def overpaid (k S : Int) (p : ℚ) : ℚ := max 0 (k - S * p)

variable {a m paid : Int} {p p' : ℚ}

theorem overpaid_nonneg (k S : Int) (p : ℚ) : 0 ≤ overpaid k S p := le_max_left _ _

theorem cost_le (k S : Int) (p : ℚ) : (k : ℚ) ≤ S * p + overpaid k S p := by
  have := le_max_right 0 ((k : ℚ) - S * p)
  unfold overpaid
  linarith

theorem overpaid_le_iff {r : ℚ} (hr : 0 ≤ r) : overpaid k S p ≤ r ↔ (k : ℚ) ≤ S * p + r := by
  unfold overpaid
  rw [max_le_iff, sub_le_iff_le_add']
  exact and_iff_right hr

/-- A risen price takes some of it back. -/
theorem overpaid_mono (hS : 0 ≤ S) (hp : p ≤ p') : overpaid k S p' ≤ overpaid k S p := by
  have hq : (0 : ℚ) ≤ S := by exact_mod_cast hS
  have hvalue : (S : ℚ) * p ≤ S * p' := mul_le_mul_of_nonneg_left hp hq
  exact max_le_max_left 0 (sub_le_sub_left hvalue _)

/-- **A purchase adds at most the price of one unit.** -/
theorem overpaid_buy (hS : 0 ≤ S) (hm : 0 ≤ m) (hp₀ : 0 ≤ p) (hp : p ≤ p') (ha : (a : ℚ) ≤ (m + 1) * p) :
    overpaid (k + a) (S + m) p' ≤ overpaid k S p + p := by
  have hq : (0 : ℚ) ≤ (S : ℚ) + m := by exact_mod_cast add_nonneg hS hm
  have hvalue : ((S : ℚ) + m) * p ≤ (S + m) * p' := mul_le_mul_of_nonneg_left hp hq
  have hcost := cost_le k S p
  rw [overpaid_le_iff (add_nonneg (overpaid_nonneg k S p) hp₀)]
  push_cast
  linarith

/-- What a sale takes out of the cost is at most its value, but for what was overpaid. -/
theorem sold_le (hk : 0 ≤ k) (hs : 0 < s) (hle : s ≤ S) : (k : ℚ) - left k s S ≤ s * p + overpaid k S p := by
  have hS : 0 < S := lt_of_lt_of_le hs hle
  have hq : (0 : ℚ) < S := by exact_mod_cast hS
  have hpart₀ : (0 : ℚ) ≤ s / S := div_nonneg (by exact_mod_cast le_of_lt hs) (le_of_lt hq)
  have hpart₁ : (s : ℚ) / S ≤ 1 := (div_le_one hq).mpr (by exact_mod_cast hle)
  have hexact := exact_le_left hk hs hle
  have hover := overpaid_nonneg k S p
  calc (k : ℚ) - left k s S ≤ s / S * k := by linarith
    _ ≤ s / S * (S * p + overpaid k S p) := mul_le_mul_of_nonneg_left (cost_le k S p) hpart₀
    _ = s * p + s / S * overpaid k S p := by field_simp
    _ ≤ s * p + overpaid k S p := by
        have := mul_le_mul_of_nonneg_right hpart₁ hover
        linarith

/-- **A sale adds at most one.** -/
theorem overpaid_sell (hk : 0 ≤ k) (hs : 0 < s) (hle : s ≤ S) (hp : p ≤ p') :
    overpaid (left k s S) (S - s) p' ≤ overpaid k S p + 1 := by
  have hS : 0 < S := lt_of_lt_of_le hs hle
  have hq : (0 : ℚ) < S := by exact_mod_cast hS
  have hkept : (0 : ℚ) ≤ 1 - s / S := by
    rw [sub_nonneg, div_le_one hq]
    exact_mod_cast hle
  have hpart : (0 : ℚ) ≤ s / S := div_nonneg (by exact_mod_cast le_of_lt hs) (le_of_lt hq)
  have hover := overpaid_nonneg k S p
  have hrest : (k : ℚ) * (1 - s / S) ≤ (S - s) * p + overpaid k S p := by
    calc (k : ℚ) * (1 - s / S) ≤ (S * p + overpaid k S p) * (1 - s / S) :=
          mul_le_mul_of_nonneg_right (cost_le k S p) hkept
      _ = (S - s) * p + (overpaid k S p - s / S * overpaid k S p) := by field_simp
      _ ≤ (S - s) * p + overpaid k S p := by
          have := mul_nonneg hpart hover
          linarith
  have hvalue : ((S : ℚ) - s) * p ≤ (S - s) * p' :=
    mul_le_mul_of_nonneg_left hp (by exact_mod_cast sub_nonneg.mpr hle)
  have hleft := left_lt_exact_add_one hk hs hle
  rw [overpaid_le_iff (add_nonneg hover zero_le_one)]
  push_cast
  linarith

/-- **What a sale realises as a loss, it takes out of what was overpaid**, but for one. -/
theorem overpaid_add_sold_le (hk : 0 ≤ k) (hs : 0 < s) (hle : s ≤ S) (hp : p ≤ p') (hpaid : (s : ℚ) * p ≤ paid + 1) :
    overpaid (left k s S) (S - s) p' + (k - left k s S - paid) ≤ overpaid k S p + 1 := by
  have hvalue : ((S : ℚ) - s) * p ≤ (S - s) * p' :=
    mul_le_mul_of_nonneg_left hp (by exact_mod_cast sub_nonneg.mpr hle)
  have hsold := sold_le (p := p) hk hs hle
  have hcost := cost_le k S p
  rw [← le_sub_iff_add_le, overpaid]
  apply max_le
  · linarith
  · push_cast
    linarith

end AverageCost
