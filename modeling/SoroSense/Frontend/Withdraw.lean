import SoroSense.Frontend.Units
import SoroSense.Vault.Contract

/-!
# `Frontend.Withdraw` — the withdraw screens

`components/withdraw/WithdrawKeypad.tsx` and `components/desktop/WithdrawDrawer.tsx`, from the form to the
call they hand to the wallet. The user enters an amount of the stablecoin, the vault burns shares: unless the
whole balance was chosen, the amount is divided by the share price.

The reads of the client are the vault's own, in the state the screen sees. What a screen shows after the
submission is left out.
-/

namespace SoroSense.Frontend

open Fallible

/-- A bucket of `useBuckets`. -/
structure HeldBucket where
  currency : Currency
  value    : Int
deriving DecidableEq

/-- What the screen knows when a button is pressed. -/
structure WithdrawForm where
  address     : Option Address
  active      : Option HeldBucket
  amount      : Text
  maxSelected : Bool
deriving DecidableEq

/-- The call handed to the wallet, and what `recordWithdraw` books once it succeeded. -/
structure Withdrawal where
  depositor : Address
  currency  : Currency
  shares    : Int
  recorded  : Int
deriving DecidableEq

/-- What `doWithdraw` throws. -/
inductive WithdrawError where
  | amount (e : Thrown)
  | read (e : Panic)
  | divisionByZero
deriving DecidableEq

def SHARE_PRICE_SCALE : Int := 1000000000

/-- A screen's `doWithdraw`. -/
abbrev DoWithdraw := World → WithdrawForm → Except WithdrawError (Option Withdrawal)

/-- `doWithdraw`, the same text in both screens. -/
def submitted : DoWithdraw := fun w form =>
  match form.address, form.active with
  | some address, some active => do
      let enteredAmount ← (toAmount form.amount).mapError .amount
      if enteredAmount ≤ 0 then .ok none
      else do
        let shares ←
          if form.maxSelected then .ok (Vault.balanceOf w address active.currency)
          else do
            let price ← (Vault.sharePrice w active.currency).mapError .read
            failIf (price = 0) .divisionByZero
            .ok ((enteredAmount * SHARE_PRICE_SCALE).tdiv price)
        if shares ≤ 0 then .ok none
        else .ok (some ⟨address, active.currency, shares, if form.maxSelected then active.value else enteredAmount⟩)
  | _, _ => .ok none

def WithdrawKeypad.doWithdraw : DoWithdraw := submitted

def WithdrawDrawer.doWithdraw : DoWithdraw := submitted

/-- `onConfirm`: nothing runs on an amount above the bucket's value. -/
def onConfirm (doWithdraw : DoWithdraw) (idle : Bool) : DoWithdraw := fun w form => do
  let entered ← (toAmount form.amount).mapError .amount
  match form.active with
  | some active =>
      if !idle || form.address.isNone || decide (active.value < entered) || decide (entered ≤ 0) then .ok none
      else doWithdraw w form
  | none => .ok none

variable {w : World} {form : WithdrawForm} {u : Address} {active : HeldBucket} {a : Int} {x : Withdrawal}

/-- What a screen confirms has an amount within the value it shows. -/
theorem onConfirm_eq_some {doWithdraw : DoWithdraw} {idle : Bool}
    (h : onConfirm doWithdraw idle w form = .ok (some x)) :
    doWithdraw w form = .ok (some x) ∧ ∃ active a, form.active = some active ∧ toAmount form.amount = .ok a ∧
      0 < a ∧ a ≤ active.value := by
  unfold onConfirm at h
  obtain ⟨a, ha, h⟩ := bind_eq_ok.mp h
  cases hact : form.active with
  | none => rw [hact] at h; cases h
  | some active =>
      rw [hact] at h
      dsimp only at h
      by_cases hskip : (!idle || form.address.isNone || decide (active.value < a) || decide (a ≤ 0)) = true
      · rw [if_pos hskip] at h
        cases h
      · rw [if_neg hskip] at h
        simp only [Bool.or_eq_true, decide_eq_true_eq, not_or, not_lt, not_le] at hskip
        refine ⟨h, active, a, rfl, ?_, hskip.2, hskip.1.2⟩
        cases hread : toAmount form.amount with
        | error e => rw [hread] at ha; cases ha
        | ok b =>
            rw [hread] at ha
            exact congrArg _ (Except.ok.inj ha)

/-- **An entered amount is divided by the share price.** -/
theorem submitted_of_entered {c : Currency} {v p : Int} {amount : Text} (ha : toAmount amount = .ok a)
    (h₀ : 0 < a) (hp : Vault.sharePrice w c = .ok p) (hp₀ : 0 < p) :
    submitted w ⟨some u, some ⟨c, v⟩, amount, false⟩ =
      .ok (if a * SHARE_PRICE_SCALE / p ≤ 0 then none else some ⟨u, c, a * SHARE_PRICE_SCALE / p, a⟩) := by
  have hnonneg : 0 ≤ a * SHARE_PRICE_SCALE := mul_nonneg (le_of_lt h₀) (by decide)
  unfold submitted failIf
  simp only [ha, hp, Except.mapError, bind, Except.bind, if_neg (ne_of_gt hp₀), if_neg (not_le.mpr h₀),
    Int.tdiv_eq_ediv_of_nonneg hnonneg, Bool.false_eq_true, if_false]
  split
  · rfl
  · rfl

end SoroSense.Frontend
