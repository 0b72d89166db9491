import SoroSense.Properties.Backing

/-!
# `Properties.Liquidity` — when a withdrawal finds its liquidity

`pull_from_pools` decides what to take from a pool by what the vault's position there is **worth**, not by
what the pool can **pay**, and a pool that cannot pay aborts the whole withdrawal. So a withdrawal that
the pools together could pay succeeds exactly when every pool the greedy plan visits is liquid for its own
take (`withdraw_succeeds_iff`), and reverts otherwise, even though a later pool could have made up for it.
-/

namespace SoroSense

open Fallible Sums Transition

variable {r : Registry} {w w' : World} {c : Currency} {u token : Address} {shares assets : Int}
  {plan : List (Address × Int)} {ids : List Nat}

/-- **A withdrawal pays what it says**, out of the vault's own tokens. -/
theorem tokens_redeemed (h : w.WF)
    (g : Vault.WithdrawGuard w (Auth.signers ids) u c shares assets token) :
    (w.redeemed u c shares assets token).tokens token u = w.tokens token u + assets := by
  obtain ⟨id, rfl⟩ := Auth.account_of_signers g.signed
  rw [World.tokens_redeemed_account h g, if_pos ⟨rfl, rfl⟩]

/-- The greedy plan of a payout is liquid exactly when every pool reached before the need is met can pay
    the smaller of its position and what is still needed. -/
theorem payoutPlan_liquid_iff (h : w.WF) :
    (∀ x ∈ w.payoutPlan c assets, x.2 ≤ w.liquidity x.1) ↔
      ∀ l₁ p l₂, (w.bucket c).poolList = l₁ ++ p :: l₂ →
        (w.bucket c).totalAssets + (l₁.map w.position).sum < assets →
        min (w.position p) (assets - (w.bucket c).totalAssets - (l₁.map w.position).sum) ≤ w.liquidity p := by
  have hmem := fun p a => Drain.mem_takes_iff (b := w.position) (l := (w.bucket c).poolList)
    (d := assets - (w.bucket c).totalAssets) (i := p) (a := a) (fun q _ => h.position_nonneg q)
  constructor
  · intro hl l₁ p l₂ hsplit hlt
    by_cases hpos : 0 < w.position p
    · exact hl (p, _) ((hmem p _).mpr ⟨l₁, l₂, hsplit, hpos, by omega, rfl⟩)
    · have h₀ : 0 ≤ w.liquidity p := by
        unfold World.liquidity
        cases w.pools p with
        | none   => exact le_refl _
        | some s => exact h.tokens_nonneg _ _
      omega
  · rintro hl ⟨p, a⟩ hx
    obtain ⟨l₁, l₂, hsplit, _, hlt, rfl⟩ := (hmem p a).mp hx
    exact hl l₁ p l₂ hsplit (by omega)

/-- **A covered payout finds its guard** when every pool its plan visits is liquid for its take: the token
    was registered when the shares were minted, and the vault has what it books as idle. -/
theorem withdrawGuard_of_liquid (hr : Reachable Genesis (RegisteredStep r) w)
    (hv : 0 < w.vault.config.virtualOffset) (hp : w.vault.paused = false)
    (hs : Auth.signers ids u = true) (h₀ : 0 < shares) (hown : shares ≤ (w.bucket c).shares u)
    (hred : Vault.redeemAssets w c shares w.vault.config.virtualOffset = .ok assets)
    (hcov : assets ≤ (w.bucket c).totalAssets + ((w.bucket c).poolList.map w.position).sum)
    (hl : ∀ x ∈ w.payoutPlan c assets, x.2 ≤ w.liquidity x.1) :
    ∃ token, Vault.WithdrawGuard w (Auth.signers ids) u c shares assets token := by
  have h := reachable_wf (reachable_of_home (reachable_home_of_registered hr))
  have hb := Backing.reachable_inv hr
  obtain ⟨hread, hfits, hval⟩ := (Vault.redeemAssets_eq_ok h).mp hred
  have hn := h.navOf_nonneg c
  have ht := h.supply_nonneg c
  have hnn : 0 ≤ assets := by
    rw [← hval]
    exact (Vault.proRata_bounds (le_of_lt h₀) (by omega) (by omega)).1
  -- somebody holds shares, so the bucket's token was set when they were minted
  have hsupply : (w.bucket c).totalShares ≠ 0 := by
    have := h.shares_le c u
    omega
  obtain ⟨token, htok⟩ := Option.isSome_iff_exists.mp ((h.bucket_wf c).token_set hsupply)
  have h₁ := Vault.WF_burned h h₀ hown
  have hplan := Vault.pullPlan_burned h₁ hread.priced (hval ▸ hfits.quotient) hcov hl
  -- once everything needed is idle, the vault has the tokens to pay it
  have hfund : assets ≤ (w.liquidated u c shares assets).tokens token vaultAddress := by
    have hc := (hb.liquidated h₁ hplan).covered c
    rw [Vault.totalAssets_liquidated h hplan h₁ hcov, ← hb.token_eq c token htok] at hc
    exact le_trans (le_max_right _ _) hc
  exact ⟨token, hs, hp, h₀, hown, hred, hcov, hl, htok, hnn, hfund⟩

/-- **When a withdrawal the pools together could pay succeeds.** In every reachable unpaused state, for
    every holder and share count: if idle and the pools' payable positions cover what the shares redeem
    for, the withdrawal pays exactly that **iff** every pool the pull loop reaches before the need is met
    has the tokens for what the loop takes there. -/
theorem withdraw_succeeds_iff (hr : Reachable Genesis (RegisteredStep r) w)
    (hv : 0 < w.vault.config.virtualOffset) (hp : w.vault.paused = false)
    (hs : Auth.signers ids u = true) (h₀ : 0 < shares) (hown : shares ≤ (w.bucket c).shares u)
    (hred : Vault.redeemAssets w c shares w.vault.config.virtualOffset = .ok assets)
    (hliq : assets ≤ (w.bucket c).totalAssets
      + ((w.bucket c).poolList.map fun p => min (w.position p) (w.liquidity p)).sum) :
    (∃ w', Vault.withdraw (Auth.signers ids) w u c shares = .ok w' ∧
        ∀ token, (w.bucket c).token = some token → w'.tokens token u = w.tokens token u + assets) ↔
      ∀ l₁ p l₂, (w.bucket c).poolList = l₁ ++ p :: l₂ →
        (w.bucket c).totalAssets + (l₁.map w.position).sum < assets →
        min (w.position p) (assets - (w.bucket c).totalAssets - (l₁.map w.position).sum)
          ≤ w.liquidity p := by
  have h := reachable_wf (reachable_of_home (reachable_home_of_registered hr))
  rw [← payoutPlan_liquid_iff h]
  constructor
  · rintro ⟨w', hw, _⟩
    obtain ⟨a, token, g, _⟩ := (Vault.withdraw_eq_ok h).mp hw
    obtain rfl : assets = a := ok_unique hred g.redeems
    exact g.liquid
  · intro hl
    have hcov : assets ≤ (w.bucket c).totalAssets + ((w.bucket c).poolList.map w.position).sum := by
      have hmin : ((w.bucket c).poolList.map fun p => min (w.position p) (w.liquidity p)).sum
          ≤ ((w.bucket c).poolList.map w.position).sum := List.sum_le_sum (fun p _ => min_le_left _ _)
      omega
    obtain ⟨token, g⟩ := withdrawGuard_of_liquid hr hv hp hs h₀ hown hred hcov hl
    refine ⟨_, (Vault.withdraw_eq_ok h).mpr ⟨assets, token, g, rfl⟩, fun t ht => ?_⟩
    obtain rfl : token = t := Option.some.inj (g.token_set.symm.trans ht)
    exact tokens_redeemed h g

/-- One deposit spread over two pools, for a year at ten percent: each pool then owes more than it holds. -/
def spreadRun : List Action :=
  setUpPool .usd (.contract 100) 1 1000 ++ setUpPool .usd (.contract 100) 2 1000 ++ joins 2 .usd 1000 ++
    [.vault [1] (.allocate (.contract 1) .usd 500), .vault [1] (.allocate (.contract 2) .usd 500),
      .advance 31536000]

theorem spreadRun_registered :
    Reachable Genesis (RegisteredStep .dollars) ((World.opening 1000 5000).after spreadRun) := by
  refine (Genesis.opening (by decide)).reachable_registered ?_
  simp [spreadRun, setUpPool, joins, Action.Registered, Vault.Call.Names, Registry.dollars]

/-- 400 shares redeem for 439, which the first pool can pay: the withdrawal goes through. -/
theorem withdraw_succeeds_spreadRun :
    ∃ w', Vault.withdraw (Auth.signers [2]) ((World.opening 1000 5000).after spreadRun) (.account 2) .usd 400
        = .ok w' ∧
      ∀ token, (((World.opening 1000 5000).after spreadRun).bucket .usd).token = some token →
        w'.tokens token (.account 2)
          = ((World.opening 1000 5000).after spreadRun).tokens token (.account 2) + 439 :=
  (withdraw_succeeds_iff spreadRun_registered (by decide +kernel) (by decide +kernel) (by decide)
    (by decide) (by decide +kernel) (by decide +kernel) (by decide +kernel)).mpr
    ((payoutPlan_liquid_iff (reachable_wf (reachable_of_home
      (reachable_home_of_registered spreadRun_registered)))).mp (by decide +kernel))

/-- **Liquid together, refused all the same.** 600 shares redeem for 659; the pools can pay 500 each, but
    the loop asks the first one for its whole position of 550 and the withdrawal reverts. -/
theorem withdraw_refused_though_liquid :
    Reachable Genesis (RegisteredStep .dollars) ((World.opening 1000 5000).after spreadRun) ∧
    ((World.opening 1000 5000).after spreadRun).vault.paused = false ∧
    0 < ((World.opening 1000 5000).after spreadRun).vault.config.virtualOffset ∧
    600 ≤ (((World.opening 1000 5000).after spreadRun).bucket .usd).shares (.account 2) ∧
    Vault.redeemAssets ((World.opening 1000 5000).after spreadRun) .usd 600 1 = .ok 659 ∧
    659 ≤ (((World.opening 1000 5000).after spreadRun).bucket .usd).totalAssets
      + ((((World.opening 1000 5000).after spreadRun).bucket .usd).poolList.map fun p =>
          min (((World.opening 1000 5000).after spreadRun).position p)
            (((World.opening 1000 5000).after spreadRun).liquidity p)).sum ∧
    ¬ ∃ w', Vault.withdraw (Auth.signers [2]) ((World.opening 1000 5000).after spreadRun) (.account 2)
      .usd 600 = .ok w' := by
  refine ⟨spreadRun_registered, by decide +kernel, by decide +kernel, by decide +kernel,
    by decide +kernel, by decide +kernel, ?_⟩
  rintro ⟨w', hw⟩
  have hok : (Vault.withdraw (Auth.signers [2]) ((World.opening 1000 5000).after spreadRun) (.account 2)
      .usd 600).isOk = false := by decide +kernel
  exact isOk_eq_false_iff.mp hok w' hw

end SoroSense
