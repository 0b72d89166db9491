import SoroSense.Lib.Quote
import SoroSense.Backend.Earnings
import SoroSense.Properties.Replay

/-!
# `Properties.Quotes` — the share price as a quote

A bucket with its virtual offset is a `Quote`: `share_price` is its price, and what `redeem_assets` returns
is the worth of the shares. The backend values a holding by a price snapshot, so it rounds twice where the
vault rounds once; `Quote.quoted_le_worth` and `Quote.worth_le_quoted` say how far apart the two are.
-/

namespace SoroSense

open Fallible Transition Backend

variable {w : World} {u : Address} {c : Currency}

/-- The quote of a bucket: what it is worth and its shares, each with the virtual offset. -/
def World.quote (h : w.WF) (hv : 0 < w.vault.config.virtualOffset) (c : Currency) : Quote where
  value     := w.navOf c + w.vault.config.virtualOffset
  units     := (w.bucket c).totalShares + w.vault.config.virtualOffset
  scale     := Vault.sharePriceScale
  value_pos := add_pos_of_nonneg_of_pos (h.navOf_nonneg c) hv
  units_pos := add_pos_of_nonneg_of_pos (h.supply_nonneg c) hv
  scale_pos := by decide

namespace World

/-- `share_price` quotes the bucket. -/
theorem quote_price (h : w.WF) (hv : 0 < w.vault.config.virtualOffset) {p : Int}
    (hp : Vault.sharePrice w c = .ok p) : (quote h hv c).price = p := by
  obtain ⟨_, _, rfl⟩ := (Vault.sharePriceOf_eq_ok h).mp hp
  have hnonneg : 0 ≤ (quote h hv c).scale * (quote h hv c).value :=
    mul_nonneg (le_of_lt (quote h hv c).scale_pos) (le_of_lt (quote h hv c).value_pos)
  exact (Int.tdiv_eq_ediv_of_nonneg hnonneg).symm

/-- At or above par the price is positive. -/
theorem quote_price_pos (h : w.WF) (hv : 0 < w.vault.config.virtualOffset)
    (hpar : (w.bucket c).totalShares ≤ w.navOf c) : 0 < (quote h hv c).price := by
  apply Quote.price_pos
  show _ + _ ≤ _ + _
  omega

/-- `redeem_assets` pays what the shares are worth. -/
theorem quote_worth (h : w.WF) (hv : 0 < w.vault.config.virtualOffset) {shares assets : Int}
    (hs : 0 ≤ shares) (hr : Vault.redeemAssets w c shares w.vault.config.virtualOffset = .ok assets) :
    (quote h hv c).worth shares = assets := by
  obtain ⟨_, _, rfl⟩ := (Vault.redeemAssets_eq_ok h).mp hr
  have hnonneg : 0 ≤ shares * (quote h hv c).value := mul_nonneg hs (le_of_lt (quote h hv c).value_pos)
  exact (Int.tdiv_eq_ediv_of_nonneg hnonneg).symm

end World

/-! ## The chart -/

/-- A bucket of the chart is worth its shares at the snapshot's price. -/
theorem bucketState_valueUsd {basis : CostBasis} {price : Int} {rate : ℚ} (hs : 0 ≤ basis.shares)
    (hp : 0 ≤ price) :
    (bucketState basis price rate).valueUsd = toUsd (basis.shares * price / SHARE_PRICE_SCALE) rate := by
  unfold bucketState
  rw [Int.tdiv_eq_ediv_of_nonneg (mul_nonneg hs hp)]

variable {rt : Runtime} {raws : List RawEvent} {deps : EarningsDeps} {rates : Currency → Option ℚ} {t : Int}

/-- **The chart's value at a time** up to which it replays all events of the run: each bucket is worth the
    shares the ledger records at the snapshot's price. -/
theorem stateAt_of_carried (h : rt.Documented) (hr : Reachable Genesis Step w)
    (hraw : List.Forall₂ RawEvent.Carries raws w.vault.events)
    (hevents : upTo t deps.events = (decodeEvents rt raws).vaultEvents)
    (hprice : ∀ c ∈ deps.inUse, 0 ≤ priceAt deps.snapshots c t) :
    ∃ state, stateAt (rt.strkey u) deps rates t = .ok state ∧
      state.valueUsd = (deps.inUse.map fun c =>
        toUsd (Vault.balanceOf w u c * priceAt deps.snapshots c t / SHARE_PRICE_SCALE) ((rates c).getD 0)).sum := by
  obtain ⟨bases, hb⟩ := reconstruct_decoded h hr hraw
  unfold stateAt
  rw [hevents, hb]
  refine ⟨_, rfl, ?_⟩
  unfold UsdState.total
  rw [List.map_map]
  refine congrArg List.sum (List.map_congr_left ?_)
  intro c hc
  have hm := basisOf_mirrors h hr hraw hb u c
  show (bucketState _ _ _).valueUsd = _
  rw [bucketState_valueUsd hm.sound.shares_nonneg (hprice c hc), hm.shares]

/-- **The two ways of valuing a holding agree within the price's resolution.** In every reachable state,
    what a user's shares are worth at the share price is at most what `value_of` returns, and at least that
    less one unit and one more for every `SHARE_PRICE_SCALE` shares; and where the backend has replayed the
    events up to that state and reads the price off its snapshots, its chart shows those values. -/
theorem valuations_agree (hr : Reachable Genesis Step w) (hv : 0 < w.vault.config.virtualOffset) (u : Address) :
    (∀ c p v, Vault.sharePrice w c = .ok p → Vault.valueOf w u c = .ok v →
      Vault.balanceOf w u c * p / Vault.sharePriceScale ≤ v ∧
      v ≤ Vault.balanceOf w u c * p / Vault.sharePriceScale
        + Vault.balanceOf w u c / Vault.sharePriceScale + 1) ∧
    ∀ (rt : Runtime) (raws : List RawEvent) (deps : EarningsDeps) (rates : Currency → Option ℚ) (t : Int),
      rt.Documented → List.Forall₂ RawEvent.Carries raws w.vault.events →
      upTo t deps.events = (decodeEvents rt raws).vaultEvents →
      (∀ c ∈ deps.inUse, Vault.sharePrice w c = .ok (priceAt deps.snapshots c t)) →
      ∃ state, stateAt (rt.strkey u) deps rates t = .ok state ∧
        state.valueUsd = (deps.inUse.map fun c =>
          toUsd (Vault.balanceOf w u c * priceAt deps.snapshots c t / Vault.sharePriceScale)
            ((rates c).getD 0)).sum := by
  have h := reachable_wf hr
  constructor
  · intro c p v hp hval
    have hs : 0 ≤ Vault.balanceOf w u c := (h.bucket_wf c).shares_nonneg u
    have hprice := World.quote_price h hv hp
    have hworth := World.quote_worth h hv hs hval
    have hlo := (World.quote h hv c).quoted_le_worth hs
    have hhi := (World.quote h hv c).worth_le_quoted hs
    unfold Quote.quoted at hlo hhi
    rw [hprice, hworth] at hlo hhi
    exact ⟨hlo, hhi⟩
  · intro rt raws deps rates t hdoc hraw hevents hprice
    apply stateAt_of_carried hdoc hr hraw hevents
    intro c hc
    rw [← World.quote_price h hv (hprice c hc)]
    have hnonneg : 0 ≤ (World.quote h hv c).scale * (World.quote h hv c).value :=
      mul_nonneg (le_of_lt (World.quote h hv c).scale_pos) (le_of_lt (World.quote h hv c).value_pos)
    exact Int.ediv_nonneg hnonneg (le_of_lt (World.quote h hv c).units_pos)

/-- After a year of yield the holder of all 1000 shares has a value of 1049, by either way. -/
theorem valuations_agree_yieldRun :
    Vault.balanceOf ((World.opening 1000 5000).after yieldRun) (.account 2) .usd * 1049950049
        / Vault.sharePriceScale ≤ 1049 ∧
    1049 ≤ Vault.balanceOf ((World.opening 1000 5000).after yieldRun) (.account 2) .usd * 1049950049
        / Vault.sharePriceScale
      + Vault.balanceOf ((World.opening 1000 5000).after yieldRun) (.account 2) .usd
        / Vault.sharePriceScale + 1 :=
  (valuations_agree ((Genesis.opening (by decide)).reachable yieldRun) (by decide +kernel) (.account 2)).1
    .usd 1049950049 1049 (by decide +kernel) (by decide +kernel)

end SoroSense
