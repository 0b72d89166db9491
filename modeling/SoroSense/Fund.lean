import SoroSense.Home
import SoroSense.Lib.ProRata

/-!
# `Fund` — every bucket is a pro-rata fund

The refinement between the contract and its abstraction. A bucket is the `ProRata.Fund` whose assets are
its net asset value, whose supply is its total shares and whose virtual stake is `virtual_offset`; every
step of the system is one move of that fund (`fund_step`): a deposit, a redemption, or a gain. Allocation,
exits and everything done to flags are gains of zero.

The rounding direction of `mint_shares` and `redeem_assets` is `proRata_bounds`.
-/

namespace SoroSense

open Fallible Sums Transition

/-! ## Rounding -/

/-- **The share formulas round down, by less than one unit.** -/
theorem Vault.proRata_bounds {a b d v : Int} (ha : 0 ≤ a) (hb : 0 ≤ b + v) (hd : 0 < d + v) :
    0 ≤ proRata a b d v ∧ proRata a b d v * (d + v) ≤ a * (b + v) ∧
      a * (b + v) < (proRata a b d v + 1) * (d + v) := by
  have hm : 0 ≤ a * (b + v) := mul_nonneg ha hb
  unfold proRata
  rw [Int.tdiv_eq_ediv_of_nonneg hm]
  exact ⟨Int.ediv_nonneg hm (le_of_lt hd), Int.ediv_mul_le _ (ne_of_gt hd), Int.lt_ediv_add_one_mul_self _ hd⟩

/-- The same against the exact quotient. -/
theorem Vault.proRata_bounds_div {a b d v : Int} (ha : 0 ≤ a) (hb : 0 ≤ b + v) (hd : 0 < d + v) :
    (proRata a b d v : ℚ) ≤ a * (((b : ℚ) + v) / (d + v)) ∧
      (a : ℚ) * (((b : ℚ) + v) / (d + v)) < proRata a b d v + 1 := by
  obtain ⟨_, hlo, hhi⟩ := proRata_bounds ha hb hd
  have hd' : (0 : ℚ) < (d : ℚ) + v := by exact_mod_cast hd
  rw [← mul_div_assoc]
  constructor
  · rw [le_div_iff₀ hd']
    exact_mod_cast hlo
  · rw [div_lt_iff₀ hd']
    exact_mod_cast hhi

/-! ## The fund of a bucket -/

namespace World

variable {w w' : World} {c d : Currency} {u p token : Address} {amount minted assets shares : Int}
  {auth : Auth} {home : Address → Currency}

/-- The fund a bucket is. -/
def fund (w : World) (h : w.WF) (hv : 0 < w.vault.config.virtualOffset) (c : Currency) :
    ProRata.Fund Address ℚ where
  offset := w.vault.config.virtualOffset
  assets := w.navOf c
  supply := (w.bucket c).totalShares
  shares u := (w.bucket c).shares u
  offset_pos := by exact_mod_cast hv
  assets_nonneg := by exact_mod_cast h.navOf_nonneg c
  shares_nonneg u := by exact_mod_cast (h.bucket_wf c).shares_nonneg u
  shares_le S := by
    have := (h.bucket_wf c).shares_sum.finset_sum_le (h.bucket_wf c).shares_nonneg S
    exact_mod_cast this

/-- The exact price of a share, `(NAV + V) / (TotalShares + V)`. -/
def ratio (w : World) (c : Currency) : ℚ :=
  ((w.navOf c : ℚ) + w.vault.config.virtualOffset)
    / ((w.bucket c).totalShares + w.vault.config.virtualOffset)

theorem fund_price (h : w.WF) (hv : 0 < w.vault.config.virtualOffset) :
    (w.fund h hv c).price = w.ratio c := rfl

/-! ### What rewriting a bucket does to its value -/

theorem navOf_updateBucket_ne {f : Vault.Bucket → Vault.Bucket} (hd : d ≠ c) :
    (w.updateBucket c f).navOf d = w.navOf d :=
  navOf_congr rfl (bucket_updateBucket_ne hd) (fun _ _ => rfl)

theorem navOf_updateBucket {f : Vault.Bucket → Vault.Bucket}
    (hl : (f (w.bucket c)).poolList = (w.bucket c).poolList) :
    (w.updateBucket c f).navOf c
      = w.navOf c + ((f (w.bucket c)).totalAssets - (w.bucket c).totalAssets) := by
  unfold navOf
  rw [bucket_updateBucket_self, hl]
  show _ + ((w.bucket c).poolList.map w.position).sum = _
  ring

/-- Rewriting the records of a bucket, its money apart, keeps every value. -/
theorem navOf_recorded {f : Vault.Bucket → Vault.Bucket}
    (hl : (f (w.bucket c)).poolList = (w.bucket c).poolList)
    (ha : (f (w.bucket c)).totalAssets = (w.bucket c).totalAssets) :
    (w.updateBucket c f).navOf d = w.navOf d := by
  by_cases hd : d = c
  · subst hd
    rw [navOf_updateBucket hl, ha, sub_self, add_zero]
  · exact navOf_updateBucket_ne hd

theorem navOf_le_of_outside (o : Outside w w') : w.navOf d ≤ w'.navOf d := by
  unfold navOf
  rw [o.bucket]
  exact add_le_add (le_refl _) (List.sum_le_sum (fun p _ => o.position_le p))

/-! ### Deposits -/

theorem navOf_deposited : (w.deposited u c amount minted token).navOf d
    = w.navOf d + if d = c then amount else 0 := by
  rw [deposited, navOf_publish]
  by_cases hd : d = c
  · subst hd
    rw [navOf_updateBucket rfl, if_pos rfl]
    simp [Vault.Bucket.credited]
  · rw [navOf_updateBucket_ne hd, if_neg hd, add_zero, navOf_setTokens]

theorem bucket_deposited : (w.deposited u c amount minted token).bucket d
    = if d = c then (w.bucket c).credited u amount minted else w.bucket d := by
  rw [deposited, bucket_publish, bucket_updateBucket, bucket_setTokens, bucket_setTokens]

/-- A field of the buckets that a deposit does not write. -/
theorem bucketField_deposited {β : Type} (f : Vault.Bucket → β)
    (hf : f ((w.bucket c).credited u amount minted) = f (w.bucket c)) :
    f ((w.deposited u c amount minted token).bucket d) = f (w.bucket d) := by
  rw [bucket_deposited]
  split
  · rename_i hd; subst hd; exact hf
  · rfl

/-! ### Withdrawals -/

theorem bucket_paidOut : (w.paidOut u c shares assets token).bucket d
    = if d = c then (w.bucket c).paid assets else w.bucket d := by
  rw [paidOut, bucket_publish, bucket_setTokens, bucket_updateBucket]

/-- A field of the buckets that a payment does not write. -/
theorem bucketField_paidOut {β : Type} (f : Vault.Bucket → β)
    (hf : f ((w.bucket c).paid assets) = f (w.bucket c)) :
    f ((w.paidOut u c shares assets token).bucket d) = f (w.bucket d) := by
  rw [bucket_paidOut]
  split
  · rename_i hd; subst hd; exact hf
  · rfl

theorem bucket_redeemed_ne (h : w.WF) (g : Vault.WithdrawGuard w auth u c shares assets token)
    (hd : d ≠ c) : (w.redeemed u c shares assets token).bucket d = w.bucket d := by
  rw [redeemed, bucket_paidOut, if_neg hd, liquidated,
    Vault.bucket_pulls_ne (g.burned_wf h) (g.plan h) hd, bucket_updateBucket_ne hd]

/-- A withdrawal raises nothing in any pool. -/
theorem redeemed_le (h : w.WF) (g : Vault.WithdrawGuard w auth u c shares assets token) :
    (w.redeemed u c shares assets token).position p ≤ w.position p ∧
      ∀ d, ((w.redeemed u c shares assets token).bucket d).poolHoldings p ≤ (w.bucket d).poolHoldings p := by
  have hpulls : (w.liquidated u c shares assets).position p ≤ w.position p ∧
      ∀ d, ((w.liquidated u c shares assets).bucket d).poolHoldings p ≤ (w.bucket d).poolHoldings p := by
    refine (g.plan h).invariant (I := fun v => v.position p ≤ w.position p ∧
      ∀ d, (v.bucket d).poolHoldings p ≤ (w.bucket d).poolHoldings p) (g.burned_wf h) ⟨le_refl _, ?_⟩ ?_
    · intro d
      rw [bucketField_updateBucket (fun b => b.poolHoldings p) rfl]
    · intro v q b hv g' _ hI
      exact ⟨le_trans (position_pulled_le g') hI.1,
        fun d => le_trans (holdings_pulled_le hv g') (hI.2 d)⟩
  refine ⟨hpulls.1, fun d => ?_⟩
  rw [redeemed, bucketField_paidOut (fun b => b.poolHoldings p) rfl]
  exact hpulls.2 d

/-- Shares burned, whatever was pulled. -/
theorem books_redeemed (h : w.WF) (g : Vault.WithdrawGuard w auth u c shares assets token) :
    ((w.redeemed u c shares assets token).bucket c).shares = ((w.bucket c).burned u shares).shares ∧
      ((w.redeemed u c shares assets token).bucket c).totalShares
        = (w.bucket c).totalShares - shares := by
  rw [redeemed, bucket_paidOut, if_pos rfl]
  simp only [Vault.Bucket.paid]
  rw [liquidated, Vault.shares_pulls (g.burned_wf h) (g.plan h),
    Vault.totalShares_pulls (g.burned_wf h) (g.plan h), bucket_updateBucket_self]
  exact ⟨rfl, rfl⟩

theorem navOf_paidOut : (w.paidOut u c shares assets token).navOf d
    = w.navOf d - if d = c then assets else 0 := by
  rw [paidOut, navOf_publish, navOf_setTokens]
  by_cases hd : d = c
  · subst hd
    rw [navOf_updateBucket rfl, if_pos rfl]
    simp only [Vault.Bucket.paid]
    ring
  · rw [navOf_updateBucket_ne hd, if_neg hd, sub_zero]

theorem navOf_burned : (w.updateBucket c (·.burned u shares)).navOf d = w.navOf d := navOf_recorded rfl rfl

theorem navOf_redeemed (hi : Home.Inv home w) (h : w.WF)
    (g : Vault.WithdrawGuard w auth u c shares assets token) :
    (w.redeemed u c shares assets token).navOf d = w.navOf d - if d = c then assets else 0 := by
  rw [redeemed, navOf_paidOut, liquidated,
    Home.Inv.navOf_pulls hi.burned (g.burned_wf h) (g.plan h) hi.home_of_payoutPlan, navOf_burned]

theorem config_pulls (h : w.WF) {plan : List (Address × Int)} (hp : Vault.PullPlan w c plan) :
    (w.pulls c plan).vault.config = w.vault.config :=
  hp.const (fun v => v.vault.config) h (fun _ _ _ => rfl)

theorem config_redeemed (h : w.WF) (g : Vault.WithdrawGuard w auth u c shares assets token) :
    (w.redeemed u c shares assets token).vault.config = w.vault.config :=
  config_pulls (g.burned_wf h) (g.plan h)

/-! ### Exits -/

theorem navOf_exited (hi : Home.Inv home w) (h : w.WF) {exitId : Nat} {proposal : Vault.ExitProposal}
    (g : Vault.ExitGuard w auth u exitId c proposal token) :
    (w.exited c proposal token).navOf d = w.navOf d := by
  obtain ⟨hf, ht⟩ := hi.exit_home c proposal (Vault.pending_of_findExit g.found).1
  rw [exited, navOf_publish, navOf_recorded rfl rfl,
    (hi.pulled h g.pulls hf).navOf_supplied (h.pulled g.pulls) g.supplies ht, hi.navOf_pulled h g.pulls hf]

/-- An exit moves money between pools and touches nobody's shares. -/
theorem books_exited {proposal : Vault.ExitProposal} :
    ((w.exited c proposal token).bucket d).shares = (w.bucket d).shares ∧
      ((w.exited c proposal token).bucket d).totalShares = (w.bucket d).totalShares := by
  rw [exited, bucket_publish]
  exact ⟨(bucketField_updateBucket Vault.Bucket.shares rfl).trans
      ((bucketField_supplied Vault.Bucket.shares rfl).trans
        (bucketField_pulled Vault.Bucket.shares (fun _ => rfl))),
    (bucketField_updateBucket Vault.Bucket.totalShares rfl).trans
      ((bucketField_supplied Vault.Bucket.totalShares rfl).trans
        (bucketField_pulled Vault.Bucket.totalShares (fun _ => rfl)))⟩

/-! ## One step is one move -/

section
variable {h : w.WF} {hv : 0 < w.vault.config.virtualOffset} {h' : w'.WF}
  {hv' : 0 < w'.vault.config.virtualOffset}

/-- Untouched shares over a value that did not fall are a gain. -/
theorem fund_gain (hc : w'.vault.config = w.vault.config) (hn : w.navOf c ≤ w'.navOf c)
    (hs : (w'.bucket c).shares = (w.bucket c).shares)
    (ht : (w'.bucket c).totalShares = (w.bucket c).totalShares) :
    ProRata.Step (w.fund h hv c) (.gain (w'.navOf c - w.navOf c)) (w'.fund h' hv' c) where
  offset := by simp only [fund, hc]
  assets := by simp [fund, ProRata.Move.income]
  supply := by simp [fund, ProRata.Move.minted, ht]
  shares x := by simp [fund, ProRata.Move.issued, hs]
  rounded := by
    have : (w.navOf c : ℚ) ≤ w'.navOf c := by exact_mod_cast hn
    exact sub_nonneg.mpr this

/-- The same, for a value that stood. -/
theorem fund_kept (hc : w'.vault.config = w.vault.config) (hn : w'.navOf c = w.navOf c)
    (hs : (w'.bucket c).shares = (w.bucket c).shares)
    (ht : (w'.bucket c).totalShares = (w.bucket c).totalShares) :
    ProRata.Step (w.fund h hv c) (.gain 0) (w'.fund h' hv' c) := by
  have hg : ProRata.Step (w.fund h hv c) (.gain (w'.navOf c - w.navOf c)) (w'.fund h' hv' c) :=
    fund_gain hc (le_of_eq hn.symm) hs ht
  rwa [hn, sub_self] at hg

theorem ratio_divisor_pos (h : w.WF) (hv : 0 < w.vault.config.virtualOffset) :
    (0 : ℚ) < (w.bucket c).totalShares + w.vault.config.virtualOffset :=
  (w.fund h hv c).supply_pos

/-- **A deposit is a deposit**: the shares it mints are rounded down. -/
theorem fund_deposited (g : Vault.DepositGuard w auth u c amount minted token)
    {h' : (w.deposited u c amount minted token).WF}
    {hv' : 0 < (w.deposited u c amount minted token).vault.config.virtualOffset} :
    ProRata.Step (w.fund h hv c) (.deposit u amount minted)
      ((w.deposited u c amount minted token).fund h' hv' c) where
  offset := rfl
  assets := by
    simp only [fund, navOf_deposited, if_true, ProRata.Move.income]
    push_cast
    rfl
  supply := by
    simp only [fund, bucket_deposited, if_true, Vault.Bucket.credited, ProRata.Move.minted]
    push_cast
    rfl
  shares x := by
    simp only [fund, bucket_deposited, if_true, Vault.Bucket.credited, ProRata.Move.issued]
    by_cases hx : x = u
    · subst hx; simp
    · simp [hx]
  rounded := by
    obtain ⟨_, _, hm⟩ := (Vault.mintShares_eq_ok h).mp g.mints
    have hn := h.navOf_nonneg c
    have ht := h.supply_nonneg c
    obtain ⟨_, hlo, hhi⟩ := Vault.proRata_bounds (a := amount) (b := (w.bucket c).totalShares)
      (d := w.navOf c) (v := w.vault.config.virtualOffset) (le_of_lt g.pos) (by omega) (by omega)
    rw [hm] at hlo hhi
    have hd := ratio_divisor_pos (c := c) h hv
    have hlo' : (minted : ℚ) * (w.navOf c + w.vault.config.virtualOffset)
        ≤ amount * ((w.bucket c).totalShares + w.vault.config.virtualOffset) := by exact_mod_cast hlo
    have hhi' : (amount : ℚ) * ((w.bucket c).totalShares + w.vault.config.virtualOffset)
        < (minted + 1) * (w.navOf c + w.vault.config.virtualOffset) := by exact_mod_cast hhi
    constructor
    · rw [fund_price, ratio, ← mul_div_assoc, div_le_iff₀ hd]
      exact hlo'
    · rw [fund_price, ratio, ← mul_div_assoc, lt_div_iff₀ hd]
      exact hhi'

/-- **A withdrawal is a redemption**: what it pays is rounded down. -/
theorem fund_redeemed (hi : Home.Inv home w) (g : Vault.WithdrawGuard w auth u c shares assets token)
    {h' : (w.redeemed u c shares assets token).WF}
    {hv' : 0 < (w.redeemed u c shares assets token).vault.config.virtualOffset} :
    ProRata.Step (w.fund h hv c) (.redeem u shares assets)
      ((w.redeemed u c shares assets token).fund h' hv' c) where
  offset := by simp only [fund, config_redeemed h g]
  assets := by
    simp only [fund, navOf_redeemed hi h g, if_true, ProRata.Move.income]
    push_cast
    ring
  supply := by
    simp only [fund, (books_redeemed h g).2, ProRata.Move.minted]
    push_cast
    ring
  shares x := by
    simp only [fund, (books_redeemed h g).1, Vault.Bucket.burned, ProRata.Move.issued]
    by_cases hx : x = u
    · subst hx
      simp only [Function.update_self, if_true]
      push_cast
      ring
    · simp [hx]
  rounded := by
    obtain ⟨_, _, hm⟩ := (Vault.redeemAssets_eq_ok h).mp g.redeems
    have hn := h.navOf_nonneg c
    have ht := h.supply_nonneg c
    have hb := Vault.proRata_bounds_div (a := shares) (b := w.navOf c) (d := (w.bucket c).totalShares)
      (v := w.vault.config.virtualOffset) (le_of_lt g.pos) (by omega) (by omega)
    rw [hm] at hb
    exact hb

end

/-- A proposal moves no money. -/
theorem navOf_proposed {q : Address} : (w.proposed c p q).navOf d = w.navOf d := by
  rw [proposed, navOf_publish]
  exact navOf_recorded rfl rfl

theorem books_proposed {q : Address} :
    ((w.proposed c p q).bucket d).shares = (w.bucket d).shares ∧
      ((w.proposed c p q).bucket d).totalShares = (w.bucket d).totalShares :=
  ⟨bucketField_proposed Vault.Bucket.shares (fun _ _ => rfl),
    bucketField_proposed Vault.Bucket.totalShares (fun _ _ => rfl)⟩

end World

/-! ## The refinement -/

variable {home : Address → Currency} {w w' : World} {a : Action}

/-- No step changes the configuration. -/
theorem Step.config (h : w.WF) (hs : Step w a w') : w'.vault.config = w.vault.config := by
  have hout := (hs.effect h).outside h
  cases hs.effect h with
  | quiet _ q => exact q.config
  | redeemed g => exact World.config_redeemed h g
  | poolSupplied _ _ _ _ => exact (hout (by simp)).config
  | _ => rfl

/-- **Every home-respecting step moves every bucket's fund by one move.** -/
theorem World.fund_step (hi : Home.Inv home w) (h : w.WF) (hs : HomeStep home w a w')
    (hv : 0 < w.vault.config.virtualOffset) (h' : w'.WF) (hv' : 0 < w'.vault.config.virtualOffset)
    (c : Currency) : ∃ m, ProRata.Step (w.fund h hv c) m (w'.fund h' hv' c) := by
  obtain ⟨hst, hr⟩ := hs
  have hout := (hst.effect h).outside h
  have hkeep : Outside w w' → ∃ m, ProRata.Step (w.fund h hv c) m (w'.fund h' hv' c) := fun o =>
    ⟨_, fund_gain o.config (navOf_le_of_outside o) (by rw [o.bucket]) (by rw [o.bucket])⟩
  cases hst.effect h with
  | reverted _ => exact ⟨_, fund_kept rfl rfl rfl rfl⟩
  | quiet _ q => exact hkeep q.outside
  | tokenSet =>
      exact ⟨_, fund_kept rfl (navOf_recorded rfl rfl) (bucketField_updateBucket Vault.Bucket.shares rfl)
        (bucketField_updateBucket Vault.Bucket.totalShares rfl)⟩
  | poolConfigured =>
      exact ⟨_, fund_kept rfl (navOf_recorded rfl rfl) (bucketField_updateBucket Vault.Bucket.shares rfl)
        (bucketField_updateBucket Vault.Bucket.totalShares rfl)⟩
  | proposed =>
      exact ⟨_, fund_kept rfl (navOf_proposed) (books_proposed).1 (books_proposed).2⟩
  | @deposited _ u d amount minted token g =>
      by_cases hd : c = d
      · subst hd
        exact ⟨_, fund_deposited g⟩
      · have hb : (w.deposited u d amount minted token).bucket c = w.bucket c := by
          rw [bucket_deposited, if_neg hd]
        refine ⟨_, fund_kept rfl ?_ (by rw [hb]) (by rw [hb])⟩
        rw [navOf_deposited, if_neg hd, add_zero]
  | @redeemed _ u d shares assets token g =>
      by_cases hd : c = d
      · subst hd
        exact ⟨_, fund_redeemed hi g⟩
      · have hb := bucket_redeemed_ne h g hd
        refine ⟨_, fund_kept (config_redeemed h g) ?_ (by rw [hb]) (by rw [hb])⟩
        rw [navOf_redeemed hi h g, if_neg hd, sub_zero]
  | exited g => exact ⟨_, fund_kept rfl (navOf_exited hi h g) books_exited.1 books_exited.2⟩
  | @allocated _ p d amount token g =>
      refine ⟨_, fund_kept rfl ?_ (bucketField_supplied Vault.Bucket.shares rfl)
        (bucketField_supplied Vault.Bucket.totalShares rfl)⟩
      exact hi.navOf_supplied h g.supplies (hr p d ⟨rfl, rfl⟩)
  | @deallocated _ p d amount g =>
      refine ⟨_, fund_kept rfl ?_ (bucketField_pulled Vault.Bucket.shares (fun _ => rfl))
        (bucketField_pulled Vault.Bucket.totalShares (fun _ => rfl))⟩
      exact hi.navOf_pulled h g.pulls (hr p d ⟨rfl, rfl⟩)
  -- pools called by others, transfers, issuance, time: positions only accrue
  | _ => exact hkeep (hout (by simp))

end SoroSense
