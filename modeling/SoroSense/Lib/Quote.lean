import Mathlib.Data.Int.Basic
import Mathlib.Algebra.Order.Ring.Int
import Mathlib.Algebra.Order.Ring.Rat
import Mathlib.Tactic.Linarith
import Mathlib.Tactic.Ring

/-!
# `Lib.Quote` — a rate and its rounded price

`units` of something are together worth `value`. What `s` of them are worth is exact up to one rounding; a
price for `scale` of them is rounded before anything is multiplied by it, so valuing by the price rounds
twice, and buying by the price divides by what was rounded.

* `quoted_le_worth` / `worth_le_quoted` — the price never values a holding above its worth, and falls short
  by one unit and one more for every `scale` units held;
* `dear_iff` — what an amount buys at the price is neither more than `owned` nor worth more than the amount,
  exactly when the price is dear enough; `dear_iff_covers` says it by what the rounding of the price loses,
  for two numbers of units only;
* `le_worth_bought` — it is worth the amount but for the price of one unit and a rounding;
* `dear_of_lossless` / `dear_of_owned_lt` — a price that loses nothing is always dear enough, and so is any
  price for fewer than `scale` units owned;
* `worth_issued_iff` — the first units issued for an amount are worth it exactly when it buys whole units.
-/

/-- A rate: `units` are worth `value`, and the price is quoted for `scale` of them. -/
structure Quote where
  value     : ℤ
  units     : ℤ
  scale     : ℤ
  value_pos : 0 < value
  units_pos : 0 < units
  scale_pos : 0 < scale

namespace Quote

variable (q : Quote) {s k a owned : ℤ}

/-- What `scale` units are worth, rounded down. -/
def price : ℤ := q.scale * q.value / q.units

/-- What the rounding of the price loses. -/
def loss : ℤ := q.scale * q.value % q.units

/-- What `s` units are worth, rounded down. -/
def worth (s : ℤ) : ℤ := s * q.value / q.units

/-- What `s` units are worth by the price, rounded down. -/
def quoted (s : ℤ) : ℤ := s * q.price / q.scale

/-- The units that `a` buys at the price, rounded down. -/
def bought (a : ℤ) : ℤ := a * q.scale / q.price

/-- The price is dear enough for the amount: as many units as are not owned, or are worth more than the
    amount, cost more than it. -/
def Dear (owned a : ℤ) : Prop := ∀ k, owned < k ∨ a < q.worth k → a * q.scale < k * q.price

/-- What `k` units are worth beyond the amount covers what their price loses. -/
def Covers (k a : ℤ) : Prop := k * q.loss < q.scale * (k * q.value - a * q.units)

/-- The fewest units that are worth more than `a`. -/
def fewest (a : ℤ) : ℤ := ((a + 1) * q.units + q.value - 1) / q.value

/-! ## Each rounding -/

theorem price_mul_le : q.price * q.units ≤ q.scale * q.value :=
  Int.ediv_mul_le _ (ne_of_gt q.units_pos)

theorem lt_price_succ_mul : q.scale * q.value < (q.price + 1) * q.units :=
  Int.lt_ediv_add_one_mul_self _ q.units_pos

theorem loss_lt_units : q.loss < q.units := Int.emod_lt_of_pos _ q.units_pos

/-- The price is the rate but for its loss. -/
theorem price_mul_add_loss : q.price * q.units + q.loss = q.scale * q.value := by
  unfold price loss
  rw [mul_comm]
  exact Int.mul_ediv_add_emod _ _

/-- `k` units cost more than the amount exactly when they cover their loss. -/
theorem lt_cost_iff : a * q.scale < k * q.price ↔ q.Covers k a := by
  have hprice := q.price_mul_add_loss
  have hcost : k * q.price * q.units + k * q.loss = q.scale * (k * q.value) := by
    calc k * q.price * q.units + k * q.loss = k * (q.price * q.units + q.loss) := by ring
      _ = q.scale * (k * q.value) := by rw [hprice]; ring
  have hamount : q.scale * (a * q.units) = a * q.scale * q.units := by ring
  unfold Covers
  rw [mul_sub, ← hcost, hamount, ← mul_lt_mul_iff_left₀ q.units_pos]
  constructor
  · intro h
    linarith
  · intro h
    linarith

theorem worth_mul_le (s : ℤ) : q.worth s * q.units ≤ s * q.value :=
  Int.ediv_mul_le _ (ne_of_gt q.units_pos)

theorem lt_worth_succ_mul (s : ℤ) : s * q.value < (q.worth s + 1) * q.units :=
  Int.lt_ediv_add_one_mul_self _ q.units_pos

theorem le_worth_iff : a ≤ q.worth s ↔ a * q.units ≤ s * q.value :=
  Int.le_ediv_iff_mul_le q.units_pos

/-- So many units, and no fewer, are worth more. -/
theorem fewest_le_iff : q.fewest a ≤ k ↔ a < q.worth k := by
  have hvalue := q.value_pos
  have hworth : a < q.worth k ↔ (a + 1) * q.units ≤ k * q.value := q.le_worth_iff (a := a + 1)
  have hexpand : (k + 1) * q.value = k * q.value + q.value := by ring
  rw [hworth]
  unfold fewest
  rw [← Int.lt_add_one_iff, Int.ediv_lt_iff_lt_mul hvalue, hexpand]
  constructor
  · intro h
    omega
  · intro h
    omega

theorem worth_mono (h : s ≤ k) : q.worth s ≤ q.worth k :=
  Int.ediv_le_ediv q.units_pos (mul_le_mul_of_nonneg_right h (le_of_lt q.value_pos))

theorem quoted_mul_le (s : ℤ) : q.quoted s * q.scale ≤ s * q.price :=
  Int.ediv_mul_le _ (ne_of_gt q.scale_pos)

theorem lt_quoted_succ_mul (s : ℤ) : s * q.price < (q.quoted s + 1) * q.scale :=
  Int.lt_ediv_add_one_mul_self _ q.scale_pos

/-- At or above par a unit of `scale` has a price. -/
theorem scale_le_price (h : q.units ≤ q.value) : q.scale ≤ q.price := by
  apply (Int.le_ediv_iff_mul_le q.units_pos).mpr
  exact mul_le_mul_of_nonneg_left h (le_of_lt q.scale_pos)

theorem price_pos (h : q.units ≤ q.value) : 0 < q.price := lt_of_lt_of_le q.scale_pos (q.scale_le_price h)

/-! ## Valuing by the price -/

/-- **The price never values a holding above its worth.** -/
theorem quoted_le_worth (hs : 0 ≤ s) : q.quoted s ≤ q.worth s := by
  apply q.le_worth_iff.mpr
  -- cleared of the scale, the two roundings are the two bounds
  have hprice : s * (q.price * q.units) ≤ s * (q.scale * q.value) :=
    mul_le_mul_of_nonneg_left q.price_mul_le hs
  have hquoted : q.quoted s * q.scale * q.units ≤ s * q.price * q.units :=
    mul_le_mul_of_nonneg_right (q.quoted_mul_le s) (le_of_lt q.units_pos)
  have hscaled : q.quoted s * q.units * q.scale ≤ s * q.value * q.scale := by
    calc q.quoted s * q.units * q.scale = q.quoted s * q.scale * q.units := by ring
      _ ≤ s * q.price * q.units := hquoted
      _ = s * (q.price * q.units) := by ring
      _ ≤ s * (q.scale * q.value) := hprice
      _ = s * q.value * q.scale := by ring
  exact le_of_mul_le_mul_right hscaled q.scale_pos

/-- **It falls short by little**: one unit, and one more for every `scale` units held. -/
theorem worth_le_quoted (hs : 0 ≤ s) : q.worth s ≤ q.quoted s + s / q.scale + 1 := by
  have hrest : s < (s / q.scale + 1) * q.scale := Int.lt_ediv_add_one_mul_self _ q.scale_pos
  have hquoted := q.lt_quoted_succ_mul s
  have hprice : s * (q.scale * q.value) ≤ s * ((q.price + 1) * q.units) :=
    mul_le_mul_of_nonneg_left (le_of_lt q.lt_price_succ_mul) hs
  have hsum : s * (q.price + 1) < (q.quoted s + s / q.scale + 2) * q.scale := by
    calc s * (q.price + 1) = s * q.price + s := by ring
      _ < (q.quoted s + 1) * q.scale + (s / q.scale + 1) * q.scale := add_lt_add hquoted hrest
      _ = (q.quoted s + s / q.scale + 2) * q.scale := by ring
  have hscaled : q.worth s * q.units * q.scale < (q.quoted s + s / q.scale + 2) * q.units * q.scale := by
    calc q.worth s * q.units * q.scale ≤ s * q.value * q.scale :=
          mul_le_mul_of_nonneg_right (q.worth_mul_le s) (le_of_lt q.scale_pos)
      _ = s * (q.scale * q.value) := by ring
      _ ≤ s * ((q.price + 1) * q.units) := hprice
      _ = s * (q.price + 1) * q.units := by ring
      _ < (q.quoted s + s / q.scale + 2) * q.scale * q.units := mul_lt_mul_of_pos_right hsum q.units_pos
      _ = (q.quoted s + s / q.scale + 2) * q.units * q.scale := by ring
  have hlt := lt_of_mul_lt_mul_right hscaled (le_of_lt q.scale_pos)
  have hless := lt_of_mul_lt_mul_right hlt (le_of_lt q.units_pos)
  omega

/-! ## Buying at the price -/

variable {q}

theorem bought_mul_le (hp : 0 < q.price) (a : ℤ) : q.bought a * q.price ≤ a * q.scale :=
  Int.ediv_mul_le _ (ne_of_gt hp)

theorem lt_bought_succ_mul (hp : 0 < q.price) (a : ℤ) : a * q.scale < (q.bought a + 1) * q.price :=
  Int.lt_ediv_add_one_mul_self _ hp

/-- **Dear enough, exactly.** -/
theorem dear_iff (hp : 0 < q.price) :
    q.Dear owned a ↔ q.bought a ≤ owned ∧ q.worth (q.bought a) ≤ a := by
  constructor
  · intro h
    have hbought := bought_mul_le hp a
    constructor
    · by_contra hmore
      exact absurd (h _ (.inl (not_le.mp hmore))) (not_lt.mpr hbought)
    · by_contra hmore
      exact absurd (h _ (.inr (not_le.mp hmore))) (not_lt.mpr hbought)
  · rintro ⟨howned, hworth⟩ k hk
    -- such a number of units is more than the amount buys
    have hlt : q.bought a < k := by
      rcases hk with hk | hk
      · omega
      · by_contra hle
        have hmono := q.worth_mono (not_lt.mp hle)
        omega
    exact lt_of_lt_of_le (lt_bought_succ_mul hp a) (mul_le_mul_of_nonneg_right hlt (le_of_lt hp))

/-- **It is enough that two numbers of units cover their loss**: one more than is owned, and the fewest that
    are worth more than the amount. -/
theorem dear_iff_covers (hp : 0 < q.price) :
    q.Dear owned a ↔ q.Covers (owned + 1) a ∧ q.Covers (q.fewest a) a := by
  rw [← lt_cost_iff, ← lt_cost_iff]
  constructor
  · intro h
    exact ⟨h _ (.inl (by omega)), h _ (.inr (q.fewest_le_iff.mp (le_refl _)))⟩
  · rintro ⟨hmore, hfewest⟩ k hk
    rcases hk with hk | hk
    · exact lt_of_lt_of_le hmore (mul_le_mul_of_nonneg_right hk (le_of_lt hp))
    · exact lt_of_lt_of_le hfewest (mul_le_mul_of_nonneg_right (q.fewest_le_iff.mpr hk) (le_of_lt hp))

/-- **What is bought is worth the amount**, but for the price of one unit and a rounding. -/
theorem le_worth_bought (hp : 0 < q.price) (hb : 0 < q.bought a) :
    (a - 1 - q.worth (q.bought a)) * q.scale < q.price := by
  have hprice : q.bought a * (q.price * q.units) ≤ q.bought a * (q.scale * q.value) :=
    mul_le_mul_of_nonneg_left q.price_mul_le (le_of_lt hb)
  have hworth : q.bought a * q.value * q.scale < (q.worth (q.bought a) + 1) * q.units * q.scale :=
    mul_lt_mul_of_pos_right (q.lt_worth_succ_mul (q.bought a)) q.scale_pos
  have hamount : a * q.scale * q.units < (q.bought a + 1) * q.price * q.units :=
    mul_lt_mul_of_pos_right (lt_bought_succ_mul hp a) q.units_pos
  have hscaled : (a - 1 - q.worth (q.bought a)) * q.scale * q.units < q.price * q.units := by
    calc (a - 1 - q.worth (q.bought a)) * q.scale * q.units
        = a * q.scale * q.units - (q.worth (q.bought a) + 1) * q.units * q.scale := by ring
      _ < (q.bought a + 1) * q.price * q.units - q.bought a * q.value * q.scale := sub_lt_sub hamount hworth
      _ = q.bought a * (q.price * q.units) - q.bought a * (q.scale * q.value) + q.price * q.units := by ring
      _ ≤ q.price * q.units := by linarith
  exact lt_of_mul_lt_mul_right hscaled (le_of_lt q.units_pos)

/-- **A price that loses nothing is always dear enough** for an amount that the units owned cover. -/
theorem dear_of_lossless (hp : 0 < q.price) (h : q.loss = 0) (ha : a ≤ q.worth owned) : q.Dear owned a := by
  have key : ∀ k, a * q.units < k * q.value → q.Covers k a := by
    intro k hk
    unfold Covers
    rw [h, mul_zero]
    exact mul_pos q.scale_pos (sub_pos.mpr hk)
  refine (dear_iff_covers hp).mpr ⟨key _ ?_, key _ ?_⟩
  · have hcover := q.le_worth_iff.mp ha
    have hvalue := q.value_pos
    calc a * q.units ≤ owned * q.value := hcover
      _ < (owned + 1) * q.value := by rw [add_mul, one_mul]; omega
  · have hcover : (a + 1) * q.units ≤ q.fewest a * q.value := q.le_worth_iff.mp (q.fewest_le_iff.mp (le_refl _))
    have hunits := q.units_pos
    calc a * q.units < (a + 1) * q.units := by rw [add_mul, one_mul]; omega
      _ ≤ q.fewest a * q.value := hcover

/-- The price loses less than a unit's worth: `k` units cost their worth but for `k` such losses. -/
theorem le_cost (hk : 0 ≤ k) : k * (q.scale * q.value) - k * (q.units - 1) ≤ k * q.price * q.units := by
  have hle : q.scale * q.value - (q.units - 1) ≤ q.price * q.units := by
    have hprice := q.price_mul_add_loss
    have hloss := q.loss_lt_units
    omega
  calc k * (q.scale * q.value) - k * (q.units - 1) = k * (q.scale * q.value - (q.units - 1)) := by ring
    _ ≤ k * (q.price * q.units) := mul_le_mul_of_nonneg_left hle hk
    _ = k * q.price * q.units := by ring

/-- Up to `scale` of them, what those losses add up to is less than `scale` units. -/
theorem losses_lt (hk : k ≤ q.scale) : k * (q.units - 1) < q.scale * q.units := by
  have hunits := q.units_pos
  calc k * (q.units - 1) ≤ q.scale * (q.units - 1) := mul_le_mul_of_nonneg_right hk (by omega)
    _ < q.scale * q.units := mul_lt_mul_of_pos_left (by omega) q.scale_pos

/-- **Fewer than `scale` units owned are always dear enough**, at or above par, for an amount they cover. -/
theorem dear_of_owned_lt (hpar : q.units ≤ q.value) (h₀ : 0 ≤ a) (hown : 0 ≤ owned) (h : owned < q.scale)
    (ha : a ≤ q.worth owned) : q.Dear owned a := by
  -- it is enough for a cost that covers the losses
  have key : ∀ k, 0 ≤ k → k ≤ q.scale → a * q.units + q.units ≤ k * q.value → a * q.scale < k * q.price := by
    intro k hk hscale hcover
    have hcost := le_cost (q := q) hk
    have hloss := losses_lt hscale
    have hscaled : (a * q.units + q.units) * q.scale ≤ k * q.value * q.scale :=
      mul_le_mul_of_nonneg_right hcover (le_of_lt q.scale_pos)
    have hlt : a * q.scale * q.units < k * q.price * q.units := by
      calc a * q.scale * q.units = (a * q.units + q.units) * q.scale - q.scale * q.units := by ring
        _ < k * q.value * q.scale - k * (q.units - 1) := by linarith
        _ = k * (q.scale * q.value) - k * (q.units - 1) := by ring
        _ ≤ k * q.price * q.units := hcost
    exact lt_of_mul_lt_mul_right hlt (le_of_lt q.units_pos)
  have hmore : a * q.scale < (owned + 1) * q.price := by
    apply key
    · omega
    · omega
    · have hcover := q.le_worth_iff.mp ha
      calc a * q.units + q.units ≤ owned * q.value + q.value := add_le_add hcover hpar
        _ = (owned + 1) * q.value := by ring
  intro k hk
  by_cases hle : owned < k
  · exact lt_of_lt_of_le hmore (mul_le_mul_of_nonneg_right hle (le_of_lt (q.price_pos hpar)))
  · have hcover : (a + 1) * q.units ≤ k * q.value := q.le_worth_iff.mp (hk.resolve_left hle)
    have hk₀ : 0 ≤ k := by
      by_contra hneg
      have hvalue : k * q.value < 0 := mul_neg_of_neg_of_pos (not_le.mp hneg) q.value_pos
      have hunits : 0 < (a + 1) * q.units := mul_pos (by omega) q.units_pos
      omega
    apply key k hk₀
    · omega
    · calc a * q.units + q.units = (a + 1) * q.units := by ring
        _ ≤ k * q.value := hcover

/-! ## Issuing units -/

/-- The units issued for `a`, rounded down. -/
def issued (a : ℤ) : ℤ := a * q.units / q.value

theorem issued_mul_le (a : ℤ) : q.issued a * q.value ≤ a * q.units := Int.ediv_mul_le _ (ne_of_gt q.value_pos)

theorem issued_nonneg (ha : 0 ≤ a) : 0 ≤ q.issued a :=
  Int.ediv_nonneg (mul_nonneg ha (le_of_lt q.units_pos)) (le_of_lt q.value_pos)

/-- The rate after `a` was paid in for what it is issued. -/
def grown (a : ℤ) (ha : 0 ≤ a) : Quote where
  value     := q.value + a
  units     := q.units + q.issued a
  scale     := q.scale
  value_pos := add_pos_of_pos_of_nonneg q.value_pos ha
  units_pos := add_pos_of_pos_of_nonneg q.units_pos (q.issued_nonneg ha)
  scale_pos := q.scale_pos

/-- **An amount that is issued whole units is worth what was paid in**, on top of whatever was held. -/
theorem worth_grown_of_dvd (ha : 0 ≤ a) (h : q.value ∣ a * q.units) :
    (q.grown a ha).worth (s + q.issued a) = q.worth s + a := by
  have hexact : q.issued a * q.value = a * q.units := Int.ediv_mul_cancel h
  have hrate : (q.value + a) * q.units = q.value * (q.units + q.issued a) := by
    calc (q.value + a) * q.units = q.value * q.units + a * q.units := by ring
      _ = q.value * (q.units + q.issued a) := by rw [← hexact]; ring
  show (s + q.issued a) * (q.value + a) / (q.units + q.issued a) = s * q.value / q.units + a
  calc (s + q.issued a) * (q.value + a) / (q.units + q.issued a)
      = (s + q.issued a) * (q.value + a) * q.units / ((q.units + q.issued a) * q.units) :=
        (Int.mul_ediv_mul_of_pos_left _ _ q.units_pos).symm
    _ = (s + q.issued a) * q.value * (q.units + q.issued a) / (q.units * (q.units + q.issued a)) := by
        rw [mul_assoc, hrate, mul_comm q.units (q.units + q.issued a)]
        congr 1
        ring
    _ = (s + q.issued a) * q.value / q.units :=
        Int.mul_ediv_mul_of_pos_left _ _ (q.grown a ha).units_pos
    _ = (s * q.value + a * q.units) / q.units := by rw [add_mul, hexact]
    _ = s * q.value / q.units + a := Int.add_mul_ediv_right _ _ (ne_of_gt q.units_pos)

/-- **The first units issued are worth the amount exactly when it buys whole units.** -/
theorem worth_issued_iff (ha : 0 ≤ a) :
    (q.grown a ha).worth (q.issued a) = a ↔ q.value ∣ a * q.units := by
  constructor
  · intro h
    have hle : a * (q.units + q.issued a) ≤ q.issued a * (q.value + a) := by
      have := (q.grown a ha).worth_mul_le (q.issued a)
      rwa [h] at this
    have hge : a * q.units ≤ q.issued a * q.value := by linarith
    exact ⟨q.issued a, by linarith [q.issued_mul_le a, mul_comm q.value (q.issued a)]⟩
  · intro h
    have hall := q.worth_grown_of_dvd (s := 0) ha h
    rw [zero_add] at hall
    rw [hall]
    show 0 * q.value / q.units + a = a
    rw [zero_mul, Int.zero_ediv, zero_add]

end Quote
