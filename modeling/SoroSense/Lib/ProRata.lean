import Mathlib.Algebra.Order.Field.Basic
import Mathlib.Algebra.BigOperators.Ring.Finset
import Mathlib.Algebra.Order.BigOperators.Group.Finset
import Mathlib.Tactic.Linarith
import Mathlib.Tactic.Ring

/-!
# `Lib.ProRata` — a pooled fund with virtual shares

A fund holds `assets` against `supply` shares, and prices a share at
`(assets + offset) / (supply + offset)`: the `offset` is a virtual stake nobody owns. Its three moves are a
deposit and a redemption, each rounded **down** to whole units, and a gain.

* `Step.price_le` — no move lowers the price;
* `one_le_price_iff` / `claim_le_assets` — at or above par, all claims together are covered;
* `Step.claim_le` — **the coalition bound**: after any move, what a set of holders can claim is at most its
  shares at the old price plus what the move left over (its `dust`), because the left-over is shared with
  the virtual stake;
* `Step.claim_ge` — the bystander's bound: its shares at the old price.

Everything is over an arbitrary ordered field and arbitrary holders.
-/

namespace ProRata

open Finset

variable {U K : Type} [Field K] [LinearOrder K] [IsStrictOrderedRing K]

/-- A fund whose shares are not oversubscribed. -/
structure Fund (U K : Type) [Field K] [LinearOrder K] where
  offset        : K
  assets        : K
  supply        : K
  shares        : U → K
  offset_pos    : 0 < offset
  assets_nonneg : 0 ≤ assets
  shares_nonneg : ∀ u, 0 ≤ shares u
  shares_le     : ∀ S : Finset U, ∑ u ∈ S, shares u ≤ supply

namespace Fund

/-- What one share is worth. -/
def price (f : Fund U K) : K := (f.assets + f.offset) / (f.supply + f.offset)

/-- The shares a set of holders owns together. -/
def held (f : Fund U K) (S : Finset U) : K := ∑ u ∈ S, f.shares u

/-- What a set of holders can claim, at the exact price. -/
def claim (f : Fund U K) (S : Finset U) : K := f.held S * f.price

variable {f g : Fund U K}

omit [IsStrictOrderedRing K] in
theorem supply_nonneg (f : Fund U K) : 0 ≤ f.supply := by
  have := f.shares_le ∅
  rwa [sum_empty] at this

theorem supply_pos (f : Fund U K) : 0 < f.supply + f.offset :=
  add_pos_of_nonneg_of_pos f.supply_nonneg f.offset_pos

theorem assets_pos (f : Fund U K) : 0 < f.assets + f.offset :=
  add_pos_of_nonneg_of_pos f.assets_nonneg f.offset_pos

theorem held_nonneg (f : Fund U K) (S : Finset U) : 0 ≤ f.held S :=
  sum_nonneg (fun u _ => f.shares_nonneg u)

omit [IsStrictOrderedRing K] in
theorem held_le (f : Fund U K) (S : Finset U) : f.held S ≤ f.supply := f.shares_le S

theorem held_le_divisor (f : Fund U K) (S : Finset U) : f.held S ≤ f.supply + f.offset :=
  le_trans (f.held_le S) (le_add_of_nonneg_right (le_of_lt f.offset_pos))

theorem price_pos (f : Fund U K) : 0 < f.price := div_pos f.assets_pos f.supply_pos

/-- The price times the divisor is the numerator. -/
theorem price_mul (f : Fund U K) : f.price * (f.supply + f.offset) = f.assets + f.offset :=
  div_mul_cancel₀ _ (ne_of_gt f.supply_pos)

/-- **At or above par** is the same as covering every share. -/
theorem one_le_price_iff : 1 ≤ f.price ↔ f.supply ≤ f.assets := by
  rw [price, one_le_div f.supply_pos, add_le_add_iff_right]

/-- Whatever the fund holds, its whole supply claims no more than the assets, once at or above par. -/
theorem supply_mul_price_le (h : f.supply ≤ f.assets) : f.supply * f.price ≤ f.assets := by
  have hpar : 1 ≤ f.price := one_le_price_iff.mpr h
  have hv : f.offset * 1 ≤ f.offset * f.price := mul_le_mul_of_nonneg_left hpar (le_of_lt f.offset_pos)
  have hm := f.price_mul
  linarith

/-- **Claims are covered**: any set of holders together claims at most the assets. -/
theorem claim_le_assets (h : f.supply ≤ f.assets) (S : Finset U) : f.claim S ≤ f.assets :=
  le_trans (mul_le_mul_of_nonneg_right (f.held_le S) (le_of_lt f.price_pos)) (supply_mul_price_le h)

/-- What one fund has beyond another's price for its shares. -/
def surplus (p : K) (g : Fund U K) : K := (g.assets + g.offset) - p * (g.supply + g.offset)

theorem price_le_of_surplus (h : 0 ≤ surplus f.price g) : f.price ≤ g.price :=
  (le_div_iff₀ g.supply_pos).mpr (sub_nonneg.mp h)

/-- The surplus lifts the price of every share, the virtual ones included. -/
theorem price_sub_mul (p : K) : (g.price - p) * (g.supply + g.offset) = surplus p g := by
  rw [sub_mul, g.price_mul]
  rfl

/-- **No set of holders gets more than the surplus** out of a price that did not fall. -/
theorem claim_le_of_surplus (h : 0 ≤ surplus f.price g) (S : Finset U) :
    g.claim S ≤ g.held S * f.price + surplus f.price g := by
  have hlift : 0 ≤ g.price - f.price := sub_nonneg.mpr (price_le_of_surplus h)
  have hshare := mul_le_mul_of_nonneg_right (g.held_le_divisor S) hlift
  calc g.claim S = g.held S * f.price + g.held S * (g.price - f.price) := by rw [claim]; ring
    _ ≤ g.held S * f.price + (g.supply + g.offset) * (g.price - f.price) := by linarith
    _ = g.held S * f.price + surplus f.price g := by rw [mul_comm (g.supply + g.offset), price_sub_mul]

/-- No set of holders loses by a price that did not fall. -/
theorem claim_ge_of_surplus (h : 0 ≤ surplus f.price g) (S : Finset U) :
    g.held S * f.price ≤ g.claim S :=
  mul_le_mul_of_nonneg_left (price_le_of_surplus h) (g.held_nonneg S)

end Fund

/-! ## Moves -/

/-- What may happen to a fund. -/
inductive Move (U K : Type) where
  | deposit (u : U) (amount minted : K)
  | redeem (u : U) (shares paid : K)
  | gain (amount : K)

namespace Move

/-- The shares a move issues to a holder (negative: burned). -/
def issued [DecidableEq U] : Move U K → U → K
  | .deposit u _ minted, x => if x = u then minted else 0
  | .redeem u shares _, x  => if x = u then -shares else 0
  | .gain _, _             => 0

/-- The shares a move issues in total. -/
def minted : Move U K → K
  | .deposit _ _ minted => minted
  | .redeem _ shares _  => -shares
  | .gain _             => 0

/-- The assets a move brings in (negative: pays out). -/
def income : Move U K → K
  | .deposit _ amount _ => amount
  | .redeem _ _ paid    => -paid
  | .gain amount        => amount

/-- What a move leaves in the fund beyond the shares it issued, at price `p`. -/
def dust (p : K) (m : Move U K) : K := m.income - m.minted * p

/-- The holder who trades in a move. -/
def trader : Move U K → Option U
  | .deposit u _ _ => some u
  | .redeem u _ _  => some u
  | .gain _        => none

/-- What a move takes out of a holder's wallet (negative: puts into it). -/
def cost [DecidableEq U] : Move U K → U → K
  | .deposit u amount _, x => if x = u then amount else 0
  | .redeem u _ paid, x    => if x = u then -paid else 0
  | .gain _, _             => 0

omit [LinearOrder K] [IsStrictOrderedRing K] in
/-- **A trade costs its trader the shares it gets, at price `p`, and the dust**; it costs and issues
    nothing to anybody else. -/
theorem cost_eq [DecidableEq U] (p : K) (m : Move U K) (x : U) :
    m.cost x = m.issued x * p + if m.trader = some x then m.dust p else 0 := by
  cases m with
  | deposit u amount minted =>
      by_cases hx : x = u
      · subst hx; simp [cost, issued, trader, dust, income, Move.minted]
      · simp [cost, issued, trader, hx, Ne.symm hx]
  | redeem u shares paid    =>
      by_cases hx : x = u
      · subst hx; simp [cost, issued, trader, dust, income, Move.minted]
      · simp [cost, issued, trader, hx, Ne.symm hx]
  | gain amount             => simp [cost, issued, trader]

omit [LinearOrder K] [IsStrictOrderedRing K] in
/-- Summed over a set: the dust is paid once, if the trader is in it. -/
theorem sum_cost [DecidableEq U] (p : K) (m : Move U K) (S : Finset U) :
    ∑ x ∈ S, m.cost x = (∑ x ∈ S, m.issued x) * p + if ∃ u ∈ S, m.trader = some u then m.dust p else 0 := by
  simp only [cost_eq p, sum_add_distrib, sum_mul]
  congr 1
  cases ht : m.trader with
  | none   => simp
  | some u => by_cases hu : u ∈ S <;> simp [hu]

/-- The roundings of a move, at price `p`: down, by less than one unit. -/
def Rounded (p : K) : Move U K → Prop
  | .deposit _ amount minted => minted * p ≤ amount ∧ amount < (minted + 1) * p
  | .redeem _ shares paid    => paid ≤ shares * p ∧ shares * p < paid + 1
  | .gain amount             => 0 ≤ amount

theorem dust_nonneg {p : K} {m : Move U K} (h : m.Rounded p) : 0 ≤ m.dust p := by
  cases m with
  | deposit u amount minted => simpa [dust, income, Move.minted] using h.1
  | redeem u shares paid    =>
      have := h.1
      simp only [dust, income, Move.minted]
      linarith
  | gain amount             => simpa [dust, income, Move.minted, Rounded] using h

/-- A deposit leaves less than the price of a share. -/
theorem dust_deposit_lt {p : K} {u : U} {amount shares : K} (h : (deposit u amount shares).Rounded p) :
    (deposit u amount shares).dust p < p := by
  have := h.2
  simp only [dust, income, minted]
  linarith

/-- A redemption leaves less than one unit. -/
theorem dust_redeem_lt {p : K} {u : U} {shares paid : K} (h : (redeem u shares paid).Rounded p) :
    (redeem u shares paid).dust p < 1 := by
  have := h.2
  simp only [dust, income, minted]
  linarith

end Move

/-- One move of a fund: the books follow the move, and it was rounded down. -/
structure Step [DecidableEq U] (f : Fund U K) (m : Move U K) (g : Fund U K) : Prop where
  offset  : g.offset = f.offset
  assets  : g.assets = f.assets + m.income
  supply  : g.supply = f.supply + m.minted
  shares  : ∀ u, g.shares u = f.shares u + m.issued u
  rounded : m.Rounded f.price

namespace Step

variable [DecidableEq U] {f g : Fund U K} {m : Move U K}

/-- What a move leaves over is exactly its dust. -/
theorem surplus_eq (h : Step f m g) : Fund.surplus f.price g = m.dust f.price := by
  have hm := f.price_mul
  rw [Fund.surplus, h.offset, h.assets, h.supply, Move.dust]
  linarith

theorem surplus_nonneg (h : Step f m g) : 0 ≤ Fund.surplus f.price g :=
  h.surplus_eq ▸ Move.dust_nonneg h.rounded

/-- **No move lowers the price.** -/
theorem price_le (h : Step f m g) : f.price ≤ g.price := Fund.price_le_of_surplus h.surplus_nonneg

omit [IsStrictOrderedRing K] in
/-- What a set of holders owns after a move. -/
theorem held_eq (h : Step f m g) (S : Finset U) : g.held S = f.held S + ∑ u ∈ S, m.issued u := by
  unfold Fund.held
  rw [← sum_add_distrib]
  exact sum_congr rfl (fun u _ => h.shares u)

/-- **The coalition bound.** -/
theorem claim_le (h : Step f m g) (S : Finset U) :
    g.claim S ≤ f.claim S + (∑ u ∈ S, m.issued u) * f.price + m.dust f.price := by
  have hc := Fund.claim_le_of_surplus h.surplus_nonneg S
  rw [h.surplus_eq, h.held_eq, add_mul] at hc
  exact hc

/-- **The bystander's bound.** -/
theorem claim_ge (h : Step f m g) (S : Finset U) :
    f.claim S + (∑ u ∈ S, m.issued u) * f.price ≤ g.claim S := by
  have hc := Fund.claim_ge_of_surplus h.surplus_nonneg S
  rw [h.held_eq, add_mul] at hc
  exact hc

/-! ### Wealth -/

/-- **No set of holders gets richer by its own trade**, and by anybody else's move by at most what that
    left over: wallets that pay for the move, together with the claim. -/
theorem wealth_le (h : Step f m g) (S : Finset U) (wallet wallet' : U → K)
    (hw : ∀ x ∈ S, wallet' x ≤ wallet x - m.cost x) :
    ∑ x ∈ S, wallet' x + g.claim S ≤ ∑ x ∈ S, wallet x + f.claim S
      + if ∃ u ∈ S, m.trader = some u then 0 else m.dust f.price := by
  have hsum : ∑ x ∈ S, wallet' x ≤ ∑ x ∈ S, wallet x - ∑ x ∈ S, m.cost x := by
    rw [← sum_sub_distrib]
    exact sum_le_sum hw
  have hc := h.claim_le S
  rw [Move.sum_cost f.price m S] at hsum
  split at hsum <;> rename_i hu <;> simp only [hu, if_true, if_false] <;> linarith

/-- **No set of holders loses by anybody else's move**, and by its own trade exactly the dust at most. -/
theorem wealth_ge (h : Step f m g) (S : Finset U) (wallet wallet' : U → K)
    (hw : ∀ x ∈ S, wallet x - m.cost x ≤ wallet' x) :
    ∑ x ∈ S, wallet x + f.claim S - (if ∃ u ∈ S, m.trader = some u then m.dust f.price else 0)
      ≤ ∑ x ∈ S, wallet' x + g.claim S := by
  have hsum : ∑ x ∈ S, wallet x - ∑ x ∈ S, m.cost x ≤ ∑ x ∈ S, wallet' x := by
    rw [← sum_sub_distrib]
    exact sum_le_sum hw
  have hc := h.claim_ge S
  rw [Move.sum_cost f.price m S] at hsum
  linarith

omit [IsStrictOrderedRing K] in
/-- Nothing gained leaves the price alone. -/
theorem price_eq_of_idle (h : Step f (.gain 0) g) : g.price = f.price := by
  rw [Fund.price, Fund.price, h.offset, h.assets, h.supply]
  simp [Move.income, Move.minted]

/-- Right after a deposit, the shares it minted are worth at most what was paid for them. -/
theorem minted_mul_price_le {u : U} {amount minted : K} (h : Step f (.deposit u amount minted) g) :
    minted * g.price ≤ amount := by
  have hm := f.price_mul
  have hr := h.rounded.1
  have hd := f.supply_pos
  rw [Fund.price, h.offset, h.assets, h.supply, ← mul_div_assoc, div_le_iff₀]
  · have hscale := mul_le_mul_of_nonneg_right hr (le_of_lt hd)
    rw [mul_assoc, hm] at hscale
    simp only [Move.income, Move.minted]
    linarith
  · rw [← h.supply, ← h.offset]
    exact g.supply_pos

end Step
end ProRata
