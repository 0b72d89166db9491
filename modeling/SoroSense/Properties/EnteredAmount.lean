import SoroSense.Frontend.Withdraw
import SoroSense.Properties.Quotes
import SoroSense.Vault.Panics

/-!
# `Properties.EnteredAmount` — what an entered amount burns and pays

The withdraw screens divide the entered amount by a price that was rounded down, so the shares come out too
many rather than too few. What they are worth is always within the price of a share and one unit of the
amount from below (`Quote.le_worth_bought`); that they are owned and worth no more than the amount is a matter
of what the rounding of the price loses (`priceLoss`). It loses too little to matter for every holder of fewer
than `SHARE_PRICE_SCALE` shares; a holder of a hundred thousand units who enters all they are worth asks for
shares they do not have.
-/

namespace SoroSense

open Fallible Transition Frontend

variable {w : World} {u : Address} {c : Currency} {a v p : Int} {amount : Text}

/-- The withdrawal burns shares the user owns, so the vault does not refuse it for lack of them, and pays the
    amount, or less by at most the price of a share and one unit. -/
structure Honoured (w : World) (u : Address) (c : Currency) (a p : Int) (x : Withdrawal) : Prop where
  whose    : x.depositor = u ∧ x.currency = c
  owned    : x.shares ≤ Vault.balanceOf w u c
  accepted : ∀ auth, Vault.withdraw auth w u c x.shares ≠ .error (.vault .insufficientShares)
  payout   : ∃ paid, Vault.redeemAssets w c x.shares w.vault.config.virtualOffset = .ok paid ∧
    paid ≤ a ∧ (a : ℚ) - p / SHARE_PRICE_SCALE - 1 ≤ paid ∧
    ∀ auth w', Vault.withdraw auth w u c x.shares = .ok w' →
      w'.vault.events = w.vault.events ++ [.withdraw u c paid x.shares]

/-- A part of what can be redeemed can be redeemed. -/
theorem redeemAssets_of_le (h : w.WF) (hv : 0 < w.vault.config.virtualOffset) {shares owned : Int}
    (h₀ : 0 ≤ shares) (hle : shares ≤ owned)
    (hred : Vault.redeemAssets w c owned w.vault.config.virtualOffset = .ok v) :
    ∃ paid, Vault.redeemAssets w c shares w.vault.config.virtualOffset = .ok paid := by
  obtain ⟨hread, hfits, _⟩ := (Vault.redeemAssets_eq_ok h).mp hred
  have hnav := h.navOf_nonneg c
  have hsupply := h.supply_nonneg c
  have hvalue : 0 ≤ w.navOf c + w.vault.config.virtualOffset := by omega
  have hproduct : shares * (w.navOf c + w.vault.config.virtualOffset)
      ≤ owned * (w.navOf c + w.vault.config.virtualOffset) := mul_le_mul_of_nonneg_right hle hvalue
  obtain ⟨hpos, hlo, _⟩ := Vault.proRata_bounds (a := shares) (b := w.navOf c) (d := (w.bucket c).totalShares)
    (v := w.vault.config.virtualOffset) h₀ hvalue (by omega)
  have hwhole := Vault.proRata_bounds (a := owned) (b := w.navOf c) (d := (w.bucket c).totalShares)
    (v := w.vault.config.virtualOffset) (le_trans h₀ hle) hvalue (by omega)
  have hquotient : Vault.proRata shares (w.navOf c) (w.bucket c).totalShares w.vault.config.virtualOffset
      ≤ Vault.proRata owned (w.navOf c) (w.bucket c).totalShares w.vault.config.virtualOffset := by
    have hlt := lt_of_mul_lt_mul_right (lt_of_le_of_lt (le_trans hlo hproduct) hwhole.2.2) (by omega)
    omega
  refine ⟨_, (Vault.redeemAssets_eq_ok h).mpr ⟨hread, ⟨hfits.numerator, ?_, hfits.divisor, hfits.nonzero, ?_⟩, rfl⟩⟩
  · exact hfits.product.of_nonneg (mul_nonneg h₀ hvalue) hproduct
  · exact hfits.quotient.of_nonneg hpos hquotient

/-- What a withdrawal publishes as paid is what its shares redeem for. -/
theorem events_of_withdraw (h : w.WF) {auth : Auth} {shares paid : Int} {w' : World}
    (hred : Vault.redeemAssets w c shares w.vault.config.virtualOffset = .ok paid)
    (hx : Vault.withdraw auth w u c shares = .ok w') :
    w'.vault.events = w.vault.events ++ [.withdraw u c paid shares] := by
  obtain ⟨assets, token, g, rfl⟩ := (Vault.withdraw_eq_ok h).mp hx
  have hpaid : assets = paid := ok_unique g.redeems hred
  rw [events_redeemed h g, hpaid]

/-- The shares an entered amount comes to. -/
theorem quote_bought (h : w.WF) (hv : 0 < w.vault.config.virtualOffset) (hp : Vault.sharePrice w c = .ok p) :
    (World.quote h hv c).bought a = a * SHARE_PRICE_SCALE / p := by
  unfold Quote.bought
  rw [World.quote_price h hv hp]
  rfl

/-- **A withdrawal of an entered amount is honoured exactly when the shares are owned and worth no more.** -/
theorem honoured_iff (h : w.WF) (hv : 0 < w.vault.config.virtualOffset)
    (hpar : (w.bucket c).totalShares ≤ w.navOf c) (hp : Vault.sharePrice w c = .ok p)
    (hval : Vault.valueOf w u c = .ok v) (hb : 0 < a * SHARE_PRICE_SCALE / p) :
    Honoured w u c a p ⟨u, c, a * SHARE_PRICE_SCALE / p, a⟩ ↔
      (World.quote h hv c).Dear (Vault.balanceOf w u c) a := by
  have hprice := World.quote_price h hv hp
  have hpos := World.quote_price_pos h hv hpar
  rw [Quote.dear_iff hpos, quote_bought h hv hp]
  constructor
  · intro hx
    obtain ⟨paid, hred, hle, _⟩ := hx.payout
    refine ⟨hx.owned, ?_⟩
    rw [World.quote_worth h hv (le_of_lt hb) hred]
    exact hle
  · rintro ⟨howned, hworth⟩
    obtain ⟨paid, hred⟩ := redeemAssets_of_le h hv (le_of_lt hb) howned hval
    rw [World.quote_worth h hv (le_of_lt hb) hred] at hworth
    refine ⟨⟨rfl, rfl⟩, howned, ?_, paid, hred, hworth, ?_, fun auth w' => events_of_withdraw h hred⟩
    · intro auth hrefused
      have hmore := ((Vault.withdraw_eq_insufficientShares_iff h).mp hrefused).2.2.2
      exact absurd howned (not_le.mpr hmore)
    · -- the price of one share and a rounding
      have hbought : 0 < (World.quote h hv c).bought a := by rw [quote_bought h hv hp]; exact hb
      have hloss := Quote.le_worth_bought hpos hbought
      rw [quote_bought h hv hp, World.quote_worth h hv (le_of_lt hb) hred, hprice] at hloss
      have hcast : ((a : ℚ) - 1 - paid) * SHARE_PRICE_SCALE < p := by exact_mod_cast hloss
      have hscale : (0 : ℚ) < SHARE_PRICE_SCALE := by norm_num [SHARE_PRICE_SCALE]
      have hdiv : (a : ℚ) - 1 - paid < p / SHARE_PRICE_SCALE := (lt_div_iff₀ hscale).mpr hcast
      linarith

/-- What `share_price` loses by rounding: the remainder of its division. -/
def priceLoss (w : World) (c : Currency) : Int :=
  SHARE_PRICE_SCALE * (w.navOf c + w.vault.config.virtualOffset)
    % ((w.bucket c).totalShares + w.vault.config.virtualOffset)

/-- What `k` shares are worth beyond `a` is more than their price loses. -/
def CoversLoss (w : World) (c : Currency) (k a : Int) : Prop :=
  k * priceLoss w c < SHARE_PRICE_SCALE * (k * (w.navOf c + w.vault.config.virtualOffset)
    - a * ((w.bucket c).totalShares + w.vault.config.virtualOffset))

instance {k : Int} : Decidable (CoversLoss w c k a) := inferInstanceAs (Decidable (_ < _))

/-- The fewest shares that redeem for more than `a`. -/
def fewestSharesAbove (w : World) (c : Currency) (a : Int) : Int :=
  ((a + 1) * ((w.bucket c).totalShares + w.vault.config.virtualOffset)
    + (w.navOf c + w.vault.config.virtualOffset) - 1) / (w.navOf c + w.vault.config.virtualOffset)

/-- What a screen does with an entered amount. -/
theorem screen_of_entered {screen : DoWithdraw}
    (hscreen : screen = WithdrawKeypad.doWithdraw ∨ screen = WithdrawDrawer.doWithdraw)
    (hp : Vault.sharePrice w c = .ok p) (hpos : 0 < p) (ha : toAmount amount = .ok a) (h₀ : 0 < a) :
    screen w ⟨some u, some ⟨c, v⟩, amount, false⟩ =
      .ok (if a * SHARE_PRICE_SCALE / p ≤ 0 then none else some ⟨u, c, a * SHARE_PRICE_SCALE / p, a⟩) := by
  have heq := submitted_of_entered (u := u) (v := v) ha h₀ hp hpos
  rcases hscreen with rfl | rfl
  · exact heq
  · exact heq

/-- Whatever is submitted for an entered amount is honoured, exactly when the price is dear enough. -/
theorem honoured_all_iff {screen : DoWithdraw}
    (hscreen : screen = WithdrawKeypad.doWithdraw ∨ screen = WithdrawDrawer.doWithdraw)
    (h : w.WF) (hv : 0 < w.vault.config.virtualOffset)
    (hpar : (w.bucket c).totalShares ≤ w.navOf c) (hp : Vault.sharePrice w c = .ok p)
    (hval : Vault.valueOf w u c = .ok v) (ha : toAmount amount = .ok a) (h₀ : 0 < a) :
    (∀ x, screen w ⟨some u, some ⟨c, v⟩, amount, false⟩ = .ok (some x) → Honoured w u c a p x) ↔
      (World.quote h hv c).Dear (Vault.balanceOf w u c) a := by
  have hpos := World.quote_price_pos h hv hpar
  have hp₀ : 0 < p := World.quote_price h hv hp ▸ hpos
  rw [screen_of_entered hscreen hp hp₀ ha h₀]
  by_cases hb : 0 < a * SHARE_PRICE_SCALE / p
  · rw [if_neg (not_le.mpr hb), ← honoured_iff h hv hpar hp hval hb]
    constructor
    · intro hall
      exact hall _ rfl
    · intro hx x heq
      cases heq
      exact hx
  · -- too little for one share: nothing is submitted
    rw [if_pos (not_lt.mp hb)]
    constructor
    · intro _
      have hzero : a * SHARE_PRICE_SCALE / p = 0 := by
        have hnonneg : 0 ≤ a * SHARE_PRICE_SCALE / p :=
          Int.ediv_nonneg (mul_nonneg (le_of_lt h₀) (by decide)) (le_of_lt hp₀)
        omega
      rw [Quote.dear_iff hpos, quote_bought h hv hp, hzero]
      refine ⟨(h.bucket_wf c).shares_nonneg u, ?_⟩
      unfold Quote.worth
      rw [Int.zero_mul, Int.zero_ediv]
      exact le_of_lt h₀
    · intro _ x heq
      cases heq

/-- What the user's shares are worth covers an amount within their value. -/
theorem le_worth_of_valueOf (h : w.WF) (hv : 0 < w.vault.config.virtualOffset)
    (hval : Vault.valueOf w u c = .ok v) (hle : a ≤ v) :
    a ≤ (World.quote h hv c).worth (Vault.balanceOf w u c) := by
  have hown : 0 ≤ Vault.balanceOf w u c := (h.bucket_wf c).shares_nonneg u
  rw [World.quote_worth h hv hown hval]
  exact hle

/-- **An entered amount is honoured exactly when two numbers of shares cover what the rounding of the price
    loses**: one share more than the user owns, and the fewest shares that redeem for more than the amount.
    An amount within the user's value is, whenever the rounding loses nothing, and for every holder of fewer
    than `SHARE_PRICE_SCALE` shares. -/
theorem entered_amount_honoured_iff {screen : DoWithdraw}
    (hscreen : screen = WithdrawKeypad.doWithdraw ∨ screen = WithdrawDrawer.doWithdraw)
    (hr : Reachable Genesis Step w) (hv : 0 < w.vault.config.virtualOffset)
    (hpar : (w.bucket c).totalShares ≤ w.navOf c) (hp : Vault.sharePrice w c = .ok p)
    (hval : Vault.valueOf w u c = .ok v) (ha : toAmount amount = .ok a) (h₀ : 0 < a) :
    ((∀ x, screen w ⟨some u, some ⟨c, v⟩, amount, false⟩ = .ok (some x) → Honoured w u c a p x) ↔
      CoversLoss w c (Vault.balanceOf w u c + 1) a ∧ CoversLoss w c (fewestSharesAbove w c a) a) ∧
    (a ≤ v → priceLoss w c = 0 ∨ Vault.balanceOf w u c < SHARE_PRICE_SCALE →
      ∀ x, screen w ⟨some u, some ⟨c, v⟩, amount, false⟩ = .ok (some x) → Honoured w u c a p x) := by
  have h := reachable_wf hr
  have hpos := World.quote_price_pos h hv hpar
  have hiff := honoured_all_iff hscreen h hv hpar hp hval ha h₀
  constructor
  · rw [hiff, Quote.dear_iff_covers hpos]
    exact Iff.rfl
  · intro hle hkind
    have hcovered := le_worth_of_valueOf h hv hval hle
    apply hiff.mpr
    rcases hkind with hloss | hfew
    · exact Quote.dear_of_lossless hpos hloss hcovered
    · have hown : 0 ≤ Vault.balanceOf w u c := (h.bucket_wf c).shares_nonneg u
      exact Quote.dear_of_owned_lt (by show _ + _ ≤ _ + _; omega) (le_of_lt h₀) hown hfew hcovered

/-- A year of yield: the holder of all 1000 shares enters 524 of their 1049 base units. -/
theorem entered_amount_honoured_iff_yieldRun :
    priceLoss ((World.opening 1000 5000).after yieldRun) .usd ≠ 0 ∧
      (∀ x, WithdrawKeypad.doWithdraw ((World.opening 1000 5000).after yieldRun)
          ⟨some (.account 2), some ⟨.usd, 1049⟩, "0.0000524".toList, false⟩ = .ok (some x) →
        Honoured ((World.opening 1000 5000).after yieldRun) (.account 2) .usd 524 1049950049 x) ∧
      WithdrawKeypad.doWithdraw ((World.opening 1000 5000).after yieldRun)
          ⟨some (.account 2), some ⟨.usd, 1049⟩, "0.0000524".toList, false⟩
        = .ok (some ⟨.account 2, .usd, 499, 524⟩) := by
  refine ⟨by decide +kernel, ?_, by decide +kernel⟩
  exact (entered_amount_honoured_iff (Or.inl rfl) ((Genesis.opening (by decide)).reachable yieldRun)
    (by decide +kernel) (by decide +kernel) (by decide +kernel) (by decide +kernel) (by decide +kernel)
    (by decide)).1.mpr ⟨by decide +kernel, by decide +kernel⟩

/-- A hundred thousand units deposited, half of them at work for a year at ten percent. -/
def hoardRun : List Action :=
  setUpPool .usd (.contract 100) 1 1000 ++ joins 2 .usd 1000000000000 ++
    [.vault [1] (.allocate (.contract 1) .usd 500000000000), .advance 31536000]

/-- **Everything a large holder's shares are worth, entered to the last digit, is refused**: the screen asks
    for more shares than the holder has. -/
theorem entered_amount_refused :
    ∃ w u c p v a amount, Reachable Genesis (HomeStep fun _ => .usd) w ∧ 0 < w.vault.config.virtualOffset ∧
      (w.bucket c).totalShares ≤ w.navOf c ∧ Vault.sharePrice w c = .ok p ∧ Vault.valueOf w u c = .ok v ∧
      toAmount amount = .ok a ∧ 0 < a ∧ a ≤ v ∧
      ∃ x, WithdrawKeypad.doWithdraw w ⟨some u, some ⟨c, v⟩, amount, false⟩ = .ok (some x) ∧
        WithdrawDrawer.doWithdraw w ⟨some u, some ⟨c, v⟩, amount, false⟩ = .ok (some x) ∧
        Vault.balanceOf w u c < x.shares ∧
        Vault.withdraw (Auth.signers [2]) w u c x.shares = .error (.vault .insufficientShares) := by
  have hr : Reachable Genesis (HomeStep fun _ => .usd)
      ((World.opening 1000000000000000 1000000000000000).after hoardRun) := by
    refine (Genesis.opening (by decide)).reachable_home ?_
    simp [hoardRun, setUpPool, joins, Action.Respects, Vault.Call.Names]
  have hmore : Vault.balanceOf ((World.opening 1000000000000000 1000000000000000).after hoardRun) (.account 2) .usd
      < 1000000000951 := by decide +kernel
  refine ⟨_, .account 2, .usd, 1049999999, 1049999999999, 1049999999999, "104999.9999999".toList, hr,
    by decide +kernel, by decide +kernel, by decide +kernel, by decide +kernel, by decide +kernel, by decide,
    by decide, ⟨.account 2, .usd, 1000000000951, 1049999999999⟩, by decide +kernel, by decide +kernel, hmore, ?_⟩
  exact (Vault.withdraw_eq_insufficientShares_iff (reachable_wf (reachable_of_home hr))).mpr
    ⟨by decide, by decide +kernel, by decide, hmore⟩

end SoroSense
