import SoroSense.Vault.Calls

/-!
# `Vault.Panics` — what the vault's calls can stop with

The iffs of `Vault.Calls` say when a call returns. The lemmas here say, of a call that does not return,
which panic it was not: they follow the source down to its checks by the rules of `Fallible.Avoids`. `Bad`
stands for panics of two kinds only, a pool's `InsufficientBalance` and those of the arithmetic.
-/

namespace SoroSense

open Fallible

variable {Bad : Panic → Prop} {w : World} {auth : Auth} {p pool : Address} {c : Currency} {amount : Int}

/-- What the panics `Bad` may be. -/
def Bounded (Bad : Panic → Prop) : Prop := ∀ e, Bad e → e = .pool .insufficientBalance ∨ e.Arithmetic

/-- A panic of any other kind is not among them. -/
theorem Bounded.not_bad (hb : Bounded Bad) {e : Panic} (h₁ : e ≠ .pool .insufficientBalance)
    (h₂ : ¬ e.Arithmetic) : ¬ Bad e := fun hbad => (hb e hbad).elim h₁ h₂

/-! ## Pools -/

theorem PoolClient.balance_avoids {who : Address} (hn : ¬ Bad .noContract) (he : ∀ msg, ¬ Bad (.expect msg)) :
    Avoids Bad (PoolClient.balance w p who) :=
  .bind (avoids_orFail fun _ => hn) (fun _ _ => YieldPool.balance_avoids he)

theorem PoolClient.withdraw_avoids (hb : Bounded Bad) (h : w.PoolsWF)
    (hread : Avoids Bad (PoolClient.balance w p vaultAddress))
    (hcov : w.position p < amount → ¬ Bad (.pool .insufficientBalance)) :
    Avoids Bad (PoolClient.withdraw w auth p vaultAddress amount) := by
  unfold PoolClient.withdraw
  refine .bind (avoids_orFail fun _ => hb.not_bad (by simp) id) (fun s hs => ?_)
  have hs : w.pools p = some s := orFail_eq_ok.mp hs
  refine .bind ?_ (fun _ _ => avoids_ok)
  rw [World.position_of_some hs] at hcov
  refine YieldPool.withdraw_avoids hb (h.pool_wf p s hs) h.clock ?_ hcov
  simpa [PoolClient.balance, hs, orFail, bind, Except.bind] using hread

/-- **A pull stops for lack of balance, or in its arithmetic, only where the pool's read does**, as long as
    the position covers it and idle has room for it. -/
theorem Vault.withdrawFromPool_avoids (hb : Bounded Bad) (h : w.WF) (ha : 0 < amount)
    (hread : Avoids Bad (PoolClient.balance w pool vaultAddress))
    (hcov : w.position pool < amount → ¬ Bad (.pool .insufficientBalance))
    (hidle : ¬ I128.Fits ((w.bucket c).totalAssets + amount) → ¬ Bad .overflow) :
    Avoids Bad (withdrawFromPool w pool c amount) := by
  unfold withdrawFromPool
  have hbooked := (h.bucket_wf c).holdings_fits pool
  refine .bind_ok ((I128.floorSub_eq_ok hbooked (le_of_lt ha)).mpr rfl) ?_
  refine .bind (avoids_inRange hidle) (fun _ _ => ?_)
  refine .bind ?_ (fun v hv => ?_)
  · exact PoolClient.withdraw_avoids hb ⟨h.clock, h.pool_wf⟩ hread hcov
  · -- the second read returns whenever the payout does
    have hleft := PoolClient.balance_of_withdraw (by exact ⟨h.clock, h.pool_wf⟩) hv
    refine .bind_ok hleft ?_
    split
    · exact avoids_ok
    · exact avoids_ok

/-- **A deallocation the holdings check accepts is covered**, when the holdings are. -/
theorem Vault.deallocate_avoids_insufficientBalance (h : w.WF)
    (hle : (w.bucket c).poolHoldings pool ≤ w.position pool) :
    Avoids (· = .pool .insufficientBalance) (deallocate auth w pool c amount) := by
  unfold deallocate
  refine .bind (avoids_failIf fun _ => by simp) (fun _ _ => ?_)
  refine .bind (avoids_failIf fun _ => by simp) (fun _ ha => ?_)
  refine .bind (avoids_failIf fun _ => by simp) (fun _ hbooked => ?_)
  have ha : ¬ amount ≤ 0 := failIf_eq_ok.mp ha
  have hbooked : ¬ (w.bucket c).poolHoldings pool < amount := failIf_eq_ok.mp hbooked
  refine .bind ?_ (fun _ _ => avoids_ok)
  refine withdrawFromPool_avoids (fun _ he => Or.inl he) h (by omega) ?_ (fun hlt => by omega) (by simp)
  exact PoolClient.balance_avoids (by simp) (by simp)

/-! ## Withdrawals and deposits -/

variable {v : World} {u : Address} {assets shares : Int}

/-- The token contract stops a transfer for reasons of its own. -/
theorem World.transfer_avoids (hb : Bounded Bad) {token sender recipient : Address} :
    Avoids Bad (w.transfer token sender recipient amount) := by
  refine .bind ?_ (fun _ _ => avoids_ok)
  refine .bind (avoids_failIf fun _ => hb.not_bad (by simp) id) (fun _ _ => ?_)
  exact .bind (avoids_failIf fun _ => hb.not_bad (by simp) id) (fun _ _ => avoids_ok)

/-- **The loop of `pull_from_pools` stops for neither reason**, where every position it walks prices and idle
    has room for what it pulls. -/
theorem Vault.pullLoop_avoids (hb : Bounded Bad) : ∀ {l : List Address} {need : Int} {w : World}, w.WF →
    l.Nodup → (∀ p ∈ l, w.Priced p) → I128.Fits need → I128.Fits ((w.bucket c).totalAssets + need) →
    Avoids Bad (pullLoop c l need w) := by
  intro l
  induction l with
  | nil => intro need w _ _ _ _ _; exact avoids_ok
  | cons p l ih =>
      intro need w h hnd hpr hneed hroom
      obtain ⟨hp, hl⟩ := List.nodup_cons.mp hnd
      have hprp := hpr p List.mem_cons_self
      have hprl : ∀ q ∈ l, w.Priced q := fun q hq => hpr q (List.mem_cons_of_mem _ hq)
      unfold pullLoop
      split
      · exact avoids_ok
      · rename_i hpos
        have hread := PoolClient.balance_of_priced hprp
        refine .bind_ok hread ?_
        split
        · exact ih h hl hprl hneed hroom
        · -- what is taken is covered by the position and by what is still needed
          rename_i hsome
          have hassets := (h.bucket_wf c).assets_nonneg
          generalize htake : (if w.position p < need then w.position p else need) = take
          have hbounds : 0 < take ∧ take ≤ w.position p ∧ take ≤ need := by
            rw [← htake]
            split <;> omega
          obtain ⟨h₀, hcov, hle⟩ := hbounds
          refine .bind ?_ (fun v hv => ?_)
          · refine withdrawFromPool_avoids hb h h₀ (.of_eq_ok hread) (fun hlt => by omega) (fun hover => ?_)
            exact absurd (hroom.of_nonneg (by omega) (by omega)) hover
          · obtain ⟨g, rfl⟩ := (withdrawFromPool_eq_ok h).mp hv
            have hrest : I128.Fits (need - take) := hneed.of_nonneg (by omega) (by omega)
            refine .bind_ok (I128.sub_eq_ok.mpr ⟨hrest, rfl⟩) ?_
            refine ih (h.pulled g) hl (fun q hq => (priced_pulled h g).mpr (hprl q hq)) hrest ?_
            have hidle : ((w.pulled p c take).bucket c).totalAssets = (w.bucket c).totalAssets + take := by
              rw [World.bucket_pulled, if_pos rfl]
              rfl
            rw [hidle, add_assoc, add_sub_cancel]
            exact hroom

/-- Pulling the shortfall of a payout stops for neither reason. -/
theorem Vault.makeLiquid_avoids (hb : Bounded Bad) (h : w.WF) (hpr : ∀ p ∈ (w.bucket c).poolList, w.Priced p)
    (hfit : I128.Fits assets) : Avoids Bad (withdraw.makeLiquid w c assets) := by
  unfold withdraw.makeLiquid
  split
  · rename_i hlt
    have hassets : 0 ≤ idle w c := (h.bucket_wf c).assets_nonneg
    have hneed : I128.Fits (assets - idle w c) := hfit.of_nonneg (by omega) (by omega)
    refine .bind_ok (I128.sub_eq_ok.mpr ⟨hneed, rfl⟩) ?_
    refine .bind (pullLoop_avoids hb h (h.bucket_wf c).list_nodup hpr hneed ?_) (fun _ _ => ?_)
    · show I128.Fits (idle w c + _)
      rw [add_sub_cancel]
      exact hfit
    · exact .bind (avoids_failIf fun _ => hb.not_bad (by simp) id) (fun _ _ => avoids_ok)
  · exact avoids_ok

/-- It leaves the payout idle. -/
theorem Vault.totalAssets_makeLiquid (h : w.WF) (hpr : ∀ p ∈ (w.bucket c).poolList, w.Priced p)
    (hfit : I128.Fits assets) (hv : withdraw.makeLiquid w c assets = .ok v) :
    (v.bucket c).totalAssets = max (w.bucket c).totalAssets assets := by
  obtain ⟨hcov, hliq, rfl⟩ := (makeLiquid_eq_ok h hpr hfit).mp hv
  rw [totalAssets_pulls h (pullPlan_payout h hpr hfit hcov hliq)]
  exact total_payoutPlan h hcov

/-- So what is idle after the payment fits. -/
theorem Vault.idle_fits_makeLiquid (h : w.WF) (hpr : ∀ p ∈ (w.bucket c).poolList, w.Priced p)
    (h₀ : 0 ≤ assets) (hfit : I128.Fits assets) (hv : withdraw.makeLiquid w c assets = .ok v) :
    I128.Fits ((v.bucket c).totalAssets - assets) := by
  have hmax := totalAssets_makeLiquid h hpr hfit hv
  have hbefore := (h.bucket_wf c).assets_fits
  have hfits : I128.Fits ((v.bucket c).totalAssets) := by
    rw [hmax]
    rcases max_choice (w.bucket c).totalAssets assets with hm | hm
    · rw [hm]; exact hbefore
    · rw [hm]; exact hfit
  have hge : assets ≤ (v.bucket c).totalAssets := hmax ▸ le_max_right _ _
  exact hfits.of_nonneg (by omega) (by omega)

/-- **A withdrawal whose preview returns stops for neither reason.** -/
theorem Vault.withdraw_avoids (hb : Bounded Bad) (h : w.WF)
    (hred : 0 < shares → shares ≤ (w.bucket c).shares u →
      ∃ assets, redeemAssets w c shares w.vault.config.virtualOffset = .ok assets ∧ 0 ≤ assets) :
    Avoids Bad (withdraw auth w u c shares) := by
  have hvault : ∀ e : Error, ¬ Bad (.vault e) := fun e => hb.not_bad (by simp) id
  unfold withdraw
  refine .bind (avoids_failIf fun _ => hb.not_bad (by simp) id) (fun _ _ => ?_)
  refine .bind (avoids_failIf fun _ => hvault _) (fun _ _ => ?_)
  refine .bind (avoids_failIf fun _ => hvault _) (fun _ hpos => ?_)
  refine .bind (avoids_failIf fun _ => hvault _) (fun _ hown => ?_)
  have hpos : 0 < shares := not_le.mp (failIf_eq_ok.mp hpos)
  have hown : shares ≤ (w.bucket c).shares u := not_lt.mp (failIf_eq_ok.mp hown)
  obtain ⟨a, hred, hnonneg⟩ := hred hpos hown
  refine .bind_ok hred ?_
  obtain ⟨hread, hmd, hval⟩ := (redeemAssets_eq_ok h).mp hred
  have hfit : I128.Fits a := hval ▸ hmd.quotient
  -- the supply covers what is burned
  have hle := h.shares_le c u
  have hsupply := (h.bucket_wf c).supply_fits
  refine .bind_ok (I128.sub_eq_ok.mpr ⟨hsupply.of_nonneg (by omega) (by omega), rfl⟩) ?_
  refine .bind_ok (I128.sub_eq_ok.mpr ⟨hsupply.of_nonneg (by omega) (by omega), rfl⟩) ?_
  have h₁ := WF_burned h hpos hown
  have hburn : w.updateBucket c (fun b =>
      { b with shares := Function.update b.shares u ((w.bucket c).shares u - shares),
               totalShares := (w.bucket c).totalShares - shares })
      = w.updateBucket c (·.burned u shares) := rfl
  have hpr : ∀ p ∈ ((w.updateBucket c (·.burned u shares)).bucket c).poolList,
      (w.updateBucket c (·.burned u shares)).Priced p := by
    rw [World.bucket_updateBucket_self]
    exact hread.priced
  rw [hburn]
  refine .bind (makeLiquid_avoids hb h₁ hpr hfit) (fun v hv => ?_)
  -- and idle now covers what is paid
  refine .bind_ok (I128.sub_eq_ok.mpr ⟨idle_fits_makeLiquid h₁ hpr hnonneg hfit hv, rfl⟩) ?_
  refine .bind (avoids_orFail fun _ => hvault _) (fun _ _ => ?_)
  exact .bind (World.transfer_avoids hb) (fun _ _ => avoids_ok)

/-- **A deposit whose mint returns stops for neither reason**, where the books have room for it. -/
theorem Vault.deposit_avoids (hb : Bounded Bad)
    (hmint : 0 < amount → ∃ minted, mintShares w c amount w.vault.config.virtualOffset = .ok minted ∧
      I128.Fits ((w.bucket c).shares u + minted) ∧ I128.Fits ((w.bucket c).totalShares + minted) ∧
      I128.Fits ((w.bucket c).totalAssets + amount)) :
    Avoids Bad (deposit auth w u c amount) := by
  have hvault : ∀ e : Error, ¬ Bad (.vault e) := fun e => hb.not_bad (by simp) id
  unfold deposit
  refine .bind (avoids_failIf fun _ => hb.not_bad (by simp) id) (fun _ _ => ?_)
  refine .bind (avoids_failIf fun _ => hvault _) (fun _ _ => ?_)
  refine .bind (avoids_failIf fun _ => hvault _) (fun _ _ => ?_)
  refine .bind (avoids_failIf fun _ => hvault _) (fun _ hpos => ?_)
  have hpos : 0 < amount := not_le.mp (failIf_eq_ok.mp hpos)
  obtain ⟨minted, hm, howned, hsupply, hassets⟩ := hmint hpos
  refine .bind (avoids_failIf fun _ => hvault _) (fun _ _ => ?_)
  refine .bind (avoids_orFail fun _ => hvault _) (fun token _ => ?_)
  refine .bind (World.transfer_avoids hb) (fun v hv => ?_)
  -- the transfer moved tokens only: the mint reads what it read before
  obtain ⟨_, _, rfl⟩ := transfer_eq_ok.mp hv
  refine .bind_ok hm ?_
  refine .bind (avoids_failIf fun _ => hvault _) (fun _ _ => ?_)
  refine .bind_ok (I128.add_eq_ok.mpr ⟨howned, rfl⟩) ?_
  refine .bind_ok (I128.add_eq_ok.mpr ⟨hsupply, rfl⟩) ?_
  exact .bind_ok (I128.add_eq_ok.mpr ⟨hassets, rfl⟩) avoids_ok

/-! ## The reads stop in their arithmetic only -/

section
variable {a b d offset : Int}

/-- None of `Bad` is a panic of the arithmetic. -/
def Unarithmetic (Bad : Panic → Prop) : Prop := ∀ e, Bad e → ¬ e.Arithmetic

theorem Vault.mulDiv_avoids (hb : Unarithmetic Bad) : Avoids Bad (mulDiv a b d offset) := by
  have hrange : ∀ x, Avoids Bad (I128.checked x) := fun _ => avoids_inRange fun _ hbad => hb _ hbad trivial
  refine .bind (hrange _) (fun _ _ => .bind (hrange _) fun _ _ => .bind (hrange _) fun _ _ => ?_)
  exact .bind (avoids_failIf fun _ hbad => hb _ hbad trivial) (fun _ _ => hrange _)

/-- Every listed pool is deployed, so reading it stops in its arithmetic if at all. -/
theorem Vault.nav_avoids (hb : Unarithmetic Bad) (h : w.WF) : Avoids Bad (nav w c) := by
  refine avoids_foldlM (fun p hp total => ?_) _
  obtain ⟨s, hs⟩ := Option.isSome_iff_exists.mp (h.listed c p hp)
  refine .bind (.bind_ok (orFail_eq_ok.mpr hs) ?_) (fun _ _ => ?_)
  · exact YieldPool.balance_avoids fun _ hbad => hb _ hbad trivial
  · exact avoids_inRange fun _ hbad => hb _ hbad trivial

theorem Vault.mintShares_avoids (hb : Unarithmetic Bad) (h : w.WF) :
    Avoids Bad (mintShares w c amount offset) := .bind (nav_avoids hb h) fun _ _ => mulDiv_avoids hb

theorem Vault.redeemAssets_avoids (hb : Unarithmetic Bad) (h : w.WF) :
    Avoids Bad (redeemAssets w c shares offset) := .bind (nav_avoids hb h) fun _ _ => mulDiv_avoids hb

theorem Vault.sharePriceOf_avoids (hb : Unarithmetic Bad) (h : w.WF) :
    Avoids Bad (sharePriceOf w c offset) := .bind (nav_avoids hb h) fun _ _ => mulDiv_avoids hb

/-- **A deposit that passes its checks stops in its arithmetic only.** -/
theorem Vault.deposit_avoids_of_checks {token : Address} (hb : Unarithmetic Bad) (h : w.WF) (hs : auth u = true)
    (hp : w.vault.paused = false) (hc : w.vault.consent u = true) (hpos : 0 < amount)
    (hfirst : w.vault.config.minFirstDeposit ≤ amount) (htoken : (w.bucket c).token = some token)
    (hfund : amount ≤ w.tokens token u)
    (hmint : ∀ minted, mintShares w c amount w.vault.config.virtualOffset = .ok minted → 0 < minted) :
    Avoids Bad (deposit auth w u c amount) := by
  have hrange : ∀ x, Avoids Bad (I128.checked x) := fun _ => avoids_inRange fun _ hbad => hb _ hbad trivial
  unfold deposit
  refine .bind_check (by simp [hs]) (.bind_check (by simp [hp]) ?_)
  refine .bind_check (by simp [hc]) (.bind_check (by omega) (.bind_check (by omega) ?_))
  refine .bind_ok (requireToken_eq_ok.mpr htoken) ?_
  refine .bind_ok (transfer_eq_ok.mpr ⟨le_of_lt hpos, hfund, rfl⟩) ?_
  -- the transfer moved tokens only: the mint reads what it read before
  refine .bind (x := mintShares w c amount w.vault.config.virtualOffset) (mintShares_avoids hb h)
    (fun minted hm => ?_)
  refine .bind_check (not_le.mpr (hmint minted hm)) ?_
  exact .bind (hrange _) fun _ _ => .bind (hrange _) fun _ _ => .bind (hrange _) fun _ _ => avoids_ok

/-- A withdrawal whose payout cannot be computed stops as the computation did. -/
theorem Vault.withdraw_avoids_of_redeem {e : Panic} (hb : Unarithmetic Bad) (h : w.WF) (hs : auth u = true)
    (hp : w.vault.paused = false) (hpos : 0 < shares) (hown : shares ≤ (w.bucket c).shares u)
    (hred : redeemAssets w c shares w.vault.config.virtualOffset = .error e) :
    Avoids Bad (withdraw auth w u c shares) := by
  unfold withdraw
  refine .bind_check (by simp [hs]) (.bind_check (by simp [hp]) ?_)
  refine .bind_check (by omega) (.bind_check (by omega) ?_)
  exact .bind (redeemAssets_avoids hb h) (fun a ha => absurd (hred.symm.trans ha) (by simp))

end

/-! ## Errors of the vault -/

/-- The panics `Bad` are errors of the vault. -/
def OfVault (Bad : Panic → Prop) : Prop := ∀ e, Bad e → ∃ x, e = .vault x

theorem OfVault.not_bad (hb : OfVault Bad) {e : Panic} (h : ∀ x, e ≠ .vault x) : ¬ Bad e := fun hbad =>
  (hb e hbad).elim h

theorem OfVault.unarithmetic (hb : OfVault Bad) : Unarithmetic Bad := by
  intro e hbad
  obtain ⟨x, rfl⟩ := hb e hbad
  exact id

/-- A pull never stops with an error of the vault's own. -/
theorem Vault.withdrawFromPool_avoids_vault (hb : OfVault Bad) : Avoids Bad (withdrawFromPool w pool c amount) := by
  have hchecked : ∀ x, Avoids Bad (I128.checked x) := fun _ => avoids_inRange fun _ => hb.not_bad (by simp)
  unfold withdrawFromPool I128.floorSub
  refine .bind ?_ (fun _ _ => .bind (hchecked _) fun _ _ => .bind ?_ fun v _ => .bind ?_ fun left _ => ?_)
  · split
    · exact avoids_ok
    · exact hchecked _
  · refine .bind (avoids_orFail fun _ => hb.not_bad (by simp)) (fun _ _ => ?_)
    exact .bind (YieldPool.withdraw_avoids_vault hb) (fun _ _ => avoids_ok)
  · exact PoolClient.balance_avoids (hb.not_bad (by simp)) (fun _ => hb.not_bad (by simp))
  · split
    · exact avoids_ok
    · exact avoids_ok

/-- Neither do all pulls of a payout. -/
theorem Vault.pullLoop_avoids_vault (hb : OfVault Bad) {l : List Address} {need : Int} {w : World} :
    Avoids Bad (pullLoop c l need w) := by
  induction l generalizing need w with
  | nil => exact avoids_ok
  | cons p l ih =>
      unfold pullLoop
      split
      · exact avoids_ok
      · refine .bind ?_ (fun available _ => ?_)
        · exact PoolClient.balance_avoids (hb.not_bad (by simp)) (fun _ => hb.not_bad (by simp))
        · split
          · exact ih
          · refine .bind (withdrawFromPool_avoids_vault hb) (fun _ _ => ?_)
            exact .bind (avoids_inRange fun _ => hb.not_bad (by simp)) (fun _ _ => ih)

/-- **`InsufficientShares` answers exactly the withdrawals of more than is owned** that get to that check. -/
theorem Vault.withdraw_eq_insufficientShares_iff (h : w.WF) :
    withdraw auth w u c shares = .error (.vault .insufficientShares) ↔
      auth u = true ∧ w.vault.paused = false ∧ 0 < shares ∧ (w.bucket c).shares u < shares := by
  constructor
  · intro herr
    -- no other part of the call answers so
    have havoid : ¬ (auth u = true ∧ w.vault.paused = false ∧ 0 < shares ∧ (w.bucket c).shares u < shares) →
        Avoids (· = .vault .insufficientShares) (withdraw auth w u c shares) := by
      intro hno
      have hb : OfVault (· = Panic.vault .insufficientShares) := fun e he => ⟨_, he⟩
      have hchecked : ∀ x, Avoids (· = Panic.vault .insufficientShares) (I128.checked x) := fun _ =>
        avoids_inRange fun _ => hb.not_bad (by simp)
      unfold withdraw
      refine .bind (avoids_failIf fun _ => by simp) (fun _ hauth => ?_)
      refine .bind (avoids_failIf fun _ => by simp) (fun _ hlive => ?_)
      refine .bind (avoids_failIf fun _ => by simp) (fun _ hpos => ?_)
      have hauth : ¬ auth u = false := failIf_eq_ok.mp hauth
      have hlive : ¬ w.vault.paused = true := failIf_eq_ok.mp hlive
      have hpos : ¬ shares ≤ 0 := failIf_eq_ok.mp hpos
      have howned : ¬ (w.bucket c).shares u < shares := fun hlt =>
        hno ⟨by simpa using hauth, by simpa using hlive, by omega, hlt⟩
      refine .bind_check howned (.bind (redeemAssets_avoids hb.unarithmetic h) fun assets _ => ?_)
      refine .bind (hchecked _) (fun _ _ => .bind (hchecked _) fun _ _ => .bind ?_ fun v _ => ?_)
      · unfold withdraw.makeLiquid
        split
        · refine .bind (hchecked _) (fun _ _ => .bind (pullLoop_avoids_vault hb) fun _ _ => ?_)
          exact .bind (avoids_failIf fun _ => by simp) (fun _ _ => avoids_ok)
        · exact avoids_ok
      · refine .bind (hchecked _) (fun _ _ => .bind (avoids_orFail fun _ => by simp) fun _ _ => ?_)
        refine .bind (.bind ?_ fun _ _ => avoids_ok) (fun _ _ => avoids_ok)
        refine .bind (avoids_failIf fun _ => by simp) (fun _ _ => ?_)
        exact .bind (avoids_failIf fun _ => by simp) (fun _ _ => avoids_ok)
    by_contra hno
    exact havoid hno _ herr rfl
  · rintro ⟨hauth, hlive, hpos, hlt⟩
    unfold withdraw requireAuth requireNotPaused failIf
    simp [hauth, hlive, not_le.mpr hpos, hlt, bind, Except.bind]

end SoroSense
