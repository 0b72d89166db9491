import SoroSense.Vault.Pulls

/-!
# `Vault.Calls` — what each entrypoint does, once and for all

One **iff** for each entrypoint: the call returns exactly under its guard, and the world it returns is its
effect. The five that move money have a guard and an effect of their own; the others check one signature
and write one record.
-/

namespace SoroSense

open Fallible Sums

namespace Vault

/-! ## Effects -/

/-- The bucket after `depositor` paid in `amount` for `minted` shares. -/
def Bucket.credited (b : Bucket) (depositor : Address) (amount minted : Int) : Bucket :=
  { b with
    shares      := Function.update b.shares depositor (b.shares depositor + minted)
    totalShares := b.totalShares + minted
    totalAssets := b.totalAssets + amount }

/-- The bucket after `shares` of `depositor` were burned. -/
def Bucket.burned (b : Bucket) (depositor : Address) (shares : Int) : Bucket :=
  { b with
    shares      := Function.update b.shares depositor (b.shares depositor - shares)
    totalShares := b.totalShares - shares }

/-- The bucket after `assets` left its idle balance. -/
def Bucket.paid (b : Bucket) (assets : Int) : Bucket :=
  { b with totalAssets := b.totalAssets - assets }

/-- The bucket without its pending exit. -/
def Bucket.exited (b : Bucket) : Bucket := { b with pendingExit := none }

end Vault

namespace World

variable (w : World)

/-- The pulls a payout of `assets` makes before it can be paid from idle. -/
def payoutPlan (c : Currency) (assets : Int) : List (Address × Int) :=
  Drain.takes w.position (w.bucket c).poolList (assets - (w.bucket c).totalAssets)

/-- After `depositor` paid in `amount` for `minted` shares. -/
def deposited (depositor : Address) (c : Currency) (amount minted : Int) (token : Address) : World :=
  ((w.setTokens (w.tokens.move token depositor vaultAddress amount)).updateBucket c
    (·.credited depositor amount minted)).publish (.deposit depositor c amount minted)

/-- With `assets` idle for the payout: the shares burned, the shortfall pulled. -/
def liquidated (depositor : Address) (c : Currency) (shares assets : Int) : World :=
  (w.updateBucket c (·.burned depositor shares)).pulls c (w.payoutPlan c assets)

/-- After `depositor` was paid `assets` out of idle. -/
def paidOut (depositor : Address) (c : Currency) (shares assets : Int) (token : Address) : World :=
  ((w.updateBucket c (·.paid assets)).setTokens
    (w.tokens.move token vaultAddress depositor assets)).publish (.withdraw depositor c assets shares)

/-- After `depositor` redeemed `shares` for `assets`. -/
def redeemed (depositor : Address) (c : Currency) (shares assets : Int) (token : Address) : World :=
  (w.liquidated depositor c shares assets).paidOut depositor c shares assets token

/-- After `proposal` moved the whole position of its source pool into its target. -/
def exited (c : Currency) (proposal : Vault.ExitProposal) (token : Address) : World :=
  ((((w.pulled proposal.fromPool c (w.position proposal.fromPool)).supplied proposal.toPool c
    (w.position proposal.fromPool) token).updateBucket c (·.exited))).publish
      (.exitApproved c proposal.id)

/-- After a keeper proposed to leave `fromPool` for `toPool`. -/
def proposed (c : Currency) (fromPool toPool : Address) : World :=
  World.publish
    (World.updateBucket
      { w with vault := { w.vault with exitCounter := w.vault.exitCounter + 1 } } c
      fun b => { b with pendingExit := some ⟨w.vault.exitCounter + 1, c, fromPool, toPool⟩ })
    (.exitProposed c (w.vault.exitCounter + 1))

/-- After a currency's token was registered. -/
def tokenSet (c : Currency) (token : Address) : World :=
  w.updateBucket c fun b => { b with token := some token }

/-- After a currency's configured pool was recorded. -/
def poolConfigured (c : Currency) (pool : Address) : World :=
  w.updateBucket c fun b => { b with configuredPool := some pool }

end World

namespace Vault

variable {w w' : World} {auth : Auth} {c d : Currency} {p q who token : Address} {amount assets : Int}

/-! ## Guards -/

/-- Everything `deposit` checks on its way, in the source's order. -/
structure DepositGuard (w : World) (auth : Auth) (depositor : Address) (c : Currency)
    (amount minted : Int) (token : Address) : Prop where
  signed      : auth depositor = true
  unpaused    : w.vault.paused = false
  consented   : w.vault.consent depositor = true
  pos         : 0 < amount
  first       : (w.bucket c).totalShares = 0 → w.vault.config.minFirstDeposit ≤ amount
  token_set   : (w.bucket c).token = some token
  funded      : amount ≤ w.tokens token depositor
  mints       : mintShares w c amount w.vault.config.virtualOffset = .ok minted
  minted_pos  : 0 < minted
  owned_fits  : I128.Fits ((w.bucket c).shares depositor + minted)
  supply_fits : I128.Fits ((w.bucket c).totalShares + minted)
  assets_fits : I128.Fits ((w.bucket c).totalAssets + amount)

/-- Everything `withdraw` checks on its way, and what its pulls and its payment need. -/
structure WithdrawGuard (w : World) (auth : Auth) (depositor : Address) (c : Currency)
    (shares assets : Int) (token : Address) : Prop where
  signed    : auth depositor = true
  unpaused  : w.vault.paused = false
  pos       : 0 < shares
  owned     : shares ≤ (w.bucket c).shares depositor
  redeems   : redeemAssets w c shares w.vault.config.virtualOffset = .ok assets
  covered   : assets ≤ (w.bucket c).totalAssets + ((w.bucket c).poolList.map w.position).sum
  liquid    : ∀ x ∈ w.payoutPlan c assets, x.2 ≤ w.liquidity x.1
  token_set : (w.bucket c).token = some token
  nonneg    : 0 ≤ assets
  funded    : assets ≤ (w.liquidated depositor c shares assets).tokens token vaultAddress

/-- Everything `approve_exit` checks on its way, and what the two legs of the exit need. -/
structure ExitGuard (w : World) (auth : Auth) (depositor : Address) (exitId : Nat) (c : Currency)
    (proposal : ExitProposal) (token : Address) : Prop where
  signed      : auth depositor = true
  found       : findExit w exitId = some (c, proposal)
  unpaused    : w.vault.paused = false
  stakeholder : 0 < (w.bucket c).shares depositor
  frozen      : w.vault.frozen proposal.fromPool = true
  pulls       : PullGuard w proposal.fromPool c (w.position proposal.fromPool)
  supplies    : SupplyGuard (w.pulled proposal.fromPool c (w.position proposal.fromPool)) proposal.toPool c
    (w.position proposal.fromPool) token

/-- Everything `allocate` checks on its way. -/
structure AllocateGuard (w : World) (auth : Auth) (pool : Address) (c : Currency) (amount : Int)
    (token : Address) : Prop where
  signed   : auth w.vault.keeper = true
  unpaused : w.vault.paused = false
  stakes   : (w.bucket c).totalShares ≠ 0
  supplies : SupplyGuard w pool c amount token

/-- Everything `deallocate` checks on its way. -/
structure DeallocateGuard (w : World) (auth : Auth) (pool : Address) (c : Currency) (amount : Int) :
    Prop where
  signed : auth w.vault.keeper = true
  booked : amount ≤ (w.bucket c).poolHoldings pool
  pulls  : PullGuard w pool c amount

/-! ## The iffs -/

theorem requireToken_eq_ok : requireToken w c = .ok token ↔ (w.bucket c).token = some token := orFail_eq_ok

/-- **`deposit`, read both ways.** -/
theorem deposit_eq_ok :
    deposit auth w who c amount = .ok w' ↔
      ∃ minted token, DepositGuard w auth who c amount minted token ∧
        w.deposited who c amount minted token = w' := by
  have hmint : ∀ t, mintShares (w.setTokens t) c amount w.vault.config.virtualOffset
      = mintShares w c amount w.vault.config.virtualOffset := fun _ => rfl
  simp only [deposit, bind_eq_ok, requireAuth_eq_ok, requireNotPaused, failIf_eq_ok, exists_const,
    requireToken_eq_ok, transfer_eq_ok, I128.add_eq_ok, ok_eq_ok, not_le, not_lt, not_and,
    Bool.not_eq_false, Bool.not_eq_true]
  constructor
  · rintro ⟨hs, hp, hc, ha, hf, token, ht, _, ⟨_, hfund, rfl⟩, minted, hm, hmp, _, ⟨ho, rfl⟩, _,
      ⟨hsf, rfl⟩, _, ⟨haf, rfl⟩, rfl⟩
    rw [hmint] at hm
    exact ⟨minted, token, ⟨hs, hp, hc, ha, hf, ht, hfund, hm, hmp, ho, hsf, haf⟩, rfl⟩
  · rintro ⟨minted, token, g, rfl⟩
    exact ⟨g.signed, g.unpaused, g.consented, g.pos, g.first, token, g.token_set, _,
      ⟨le_of_lt g.pos, g.funded, rfl⟩, minted, (hmint _).trans g.mints, g.minted_pos, _,
      ⟨g.owned_fits, rfl⟩, _, ⟨g.supply_fits, rfl⟩, _, ⟨g.assets_fits, rfl⟩, rfl⟩

/-- **`allocate`, read both ways.** -/
theorem allocate_eq_ok (h : w.WF) :
    allocate auth w p c amount = .ok w' ↔
      ∃ token, AllocateGuard w auth p c amount token ∧
        (w.supplied p c amount token).publish (.allocated c p amount) = w' := by
  simp only [allocate, requireKeeper, bind_eq_ok, requireAuth_eq_ok, requireNotPaused, failIf_eq_ok,
    exists_const, supplyToPool_eq_ok h, ok_eq_ok, not_le, Bool.not_eq_true]
  constructor
  · rintro ⟨hs, hp, _, ht, _, ⟨token, g, rfl⟩, rfl⟩
    exact ⟨token, ⟨hs, hp, ht, g⟩, rfl⟩
  · rintro ⟨token, g, rfl⟩
    exact ⟨g.signed, g.unpaused, g.supplies.pos, g.stakes, _, ⟨token, g.supplies, rfl⟩, rfl⟩

/-- **`deallocate`, read both ways.** -/
theorem deallocate_eq_ok (h : w.WF) :
    deallocate auth w p c amount = .ok w' ↔
      DeallocateGuard w auth p c amount ∧
        (w.pulled p c amount).publish (.deallocated c p amount) = w' := by
  simp only [deallocate, requireKeeper, bind_eq_ok, requireAuth_eq_ok, failIf_eq_ok, exists_const,
    withdrawFromPool_eq_ok h, ok_eq_ok, not_le, not_lt]
  constructor
  · rintro ⟨hs, _, hb, _, ⟨g, rfl⟩, rfl⟩
    exact ⟨⟨hs, hb, g⟩, rfl⟩
  · rintro ⟨g, rfl⟩
    exact ⟨g.signed, g.pulls.pos, g.booked, _, ⟨g.pulls, rfl⟩, rfl⟩

/-- **`propose_exit`, read both ways.** -/
theorem proposeExit_eq_ok :
    proposeExit auth w c p q = .ok w' ↔
      auth w.vault.keeper = true ∧ w.vault.exitCounter + 1 ≤ u64Max ∧ w.proposed c p q = w' := by
  simp only [proposeExit, nextExitId, requireKeeper, bind_eq_ok, requireAuth_eq_ok, failIf_eq_ok,
    exists_const, ok_eq_ok, not_lt]
  constructor
  · rintro ⟨hs, _, ⟨hlt, rfl⟩, rfl⟩
    exact ⟨hs, hlt, rfl⟩
  · rintro ⟨hs, hlt, rfl⟩
    exact ⟨hs, _, ⟨hlt, rfl⟩, rfl⟩

/-! ### The setters: one signature, one record -/

theorem setPolicyConsent_eq_ok :
    setPolicyConsent auth w who = .ok w' ↔ auth who = true ∧
      (if w.vault.consent who = false then
        World.publish
          { w with vault := { w.vault with consent := Function.update w.vault.consent who true } }
          (.consentSet who)
      else w) = w' := by
  simp only [setPolicyConsent, bind_eq_ok, requireAuth_eq_ok, exists_const]
  split <;> rw [ok_eq_ok]

theorem setAutoCompound_eq_ok {enabled : Bool} :
    setAutoCompound auth w who enabled = .ok w' ↔ auth who = true ∧
      World.publish
        { w with
          vault := { w.vault with autoCompound := Function.update w.vault.autoCompound who enabled } }
        (.autoCompoundSet who enabled) = w' := by
  simp only [setAutoCompound, bind_eq_ok, requireAuth_eq_ok, exists_const, ok_eq_ok]

theorem freeze_eq_ok :
    freeze auth w p = .ok w' ↔
      auth w.vault.keeper = true ∧ (setFrozen w p true).publish (.frozen p) = w' := by
  simp only [freeze, requireKeeper, bind_eq_ok, requireAuth_eq_ok, exists_const, ok_eq_ok]

theorem unfreeze_eq_ok :
    unfreeze auth w p = .ok w' ↔
      auth w.vault.keeper = true ∧ (setFrozen w p false).publish (.unfrozen p) = w' := by
  simp only [unfreeze, requireKeeper, bind_eq_ok, requireAuth_eq_ok, exists_const, ok_eq_ok]

theorem pause_eq_ok : pause auth w = .ok w' ↔ auth w.vault.admin = true ∧ setPaused w true = w' := by
  simp only [pause, requireAdmin, bind_eq_ok, requireAuth_eq_ok, exists_const, ok_eq_ok]

theorem unpause_eq_ok : unpause auth w = .ok w' ↔ auth w.vault.admin = true ∧ setPaused w false = w' := by
  simp only [unpause, requireAdmin, bind_eq_ok, requireAuth_eq_ok, exists_const, ok_eq_ok]

theorem setToken_eq_ok :
    setToken auth w c token = .ok w' ↔ auth w.vault.admin = true ∧ w.tokenSet c token = w' := by
  simp only [setToken, requireAdmin, bind_eq_ok, requireAuth_eq_ok, exists_const, ok_eq_ok, World.tokenSet]

theorem setPoolAllowed_eq_ok {allowed : Bool} :
    setPoolAllowed auth w p allowed = .ok w' ↔ auth w.vault.admin = true ∧
      { w with
        vault := { w.vault with allowedPool := Function.update w.vault.allowedPool p allowed } } = w' := by
  simp only [setPoolAllowed, requireAdmin, bind_eq_ok, requireAuth_eq_ok, exists_const, ok_eq_ok]

theorem setConfiguredPool_eq_ok :
    setConfiguredPool auth w c p = .ok w' ↔ auth w.vault.admin = true ∧ w.poolConfigured c p = w' := by
  simp only [setConfiguredPool, requireAdmin, bind_eq_ok, requireAuth_eq_ok, exists_const, ok_eq_ok,
    World.poolConfigured]

/-! ### The calls that run the pools -/

/-- What `find_exit` finds is pending, under that id. -/
theorem pending_of_findExit {exitId : Nat} {e : ExitProposal} (h : findExit w exitId = some (c, e)) :
    (w.bucket c).pendingExit = some e ∧ e.id = exitId := by
  obtain ⟨d, _, hd⟩ := List.exists_of_findSome?_eq_some h
  cases hp : (w.bucket d).pendingExit with
  | none    => rw [hp] at hd; exact absurd hd (by simp)
  | some e' =>
      rw [hp] at hd
      by_cases hid : e'.id = exitId
      · simp only [hid, if_true, Option.some.injEq, Prod.mk.injEq] at hd
        obtain ⟨rfl, rfl⟩ := hd
        exact ⟨hp, hid⟩
      · simp [hid] at hd

/-- **An id finds exactly the proposal pending under it.** -/
theorem findExit_eq_some (h : w.WF) {exitId : Nat} {e : ExitProposal} :
    findExit w exitId = some (c, e) ↔ (w.bucket c).pendingExit = some e ∧ e.id = exitId := by
  refine ⟨pending_of_findExit, fun ⟨hp, hid⟩ => ?_⟩
  have hmem : c ∈ allCurrencies := by cases c <;> decide
  have hsome : (findExit w exitId).isSome = true := by
    refine List.findSome?_isSome_iff.mpr ⟨c, hmem, ?_⟩
    simp [hp, hid]
  obtain ⟨⟨d, e'⟩, hd⟩ := Option.isSome_iff_exists.mp hsome
  obtain ⟨hp', hid'⟩ := pending_of_findExit hd
  obtain rfl : d = c := h.exit_distinct d c e' e hp' hp (hid'.trans hid.symm)
  rw [hd, Option.some.inj (hp'.symm.trans hp)]

/-- **`approve_exit`, read both ways.** -/
theorem approveExit_eq_ok (h : w.WF) {exitId : Nat} :
    approveExit auth w who exitId = .ok w' ↔
      ∃ c proposal token, ExitGuard w auth who exitId c proposal token ∧
        w.exited c proposal token = w' := by
  simp only [approveExit, executeExit, bind_eq_ok, requireAuth_eq_ok, requireNotPaused, failIf_eq_ok,
    exists_const, orFail_eq_ok, ok_eq_ok, not_le, Bool.not_eq_true, Bool.not_eq_false, Prod.exists,
    withdrawFromPool_eq_ok h]
  constructor
  · rintro ⟨hs, c, e, hf, hp, ho, _, ⟨hfr, a, hb, _, _, ⟨g, rfl⟩, hsup⟩, rfl⟩
    obtain ⟨rfl, _⟩ := PoolClient.balance_eq_ok hb
    obtain ⟨token, g', rfl⟩ := (supplyToPool_eq_ok (h.pulled g)).mp hsup
    refine ⟨c, e, token, ⟨hs, hf, hp, ho, hfr, g, g'⟩, ?_⟩
    rw [World.exited, (pending_of_findExit hf).2]
    rfl
  · rintro ⟨c, e, token, g, rfl⟩
    refine ⟨g.signed, c, e, g.found, g.unpaused, g.stakeholder, _, ⟨g.frozen, _,
      PoolClient.balance_of_priced g.pulls.priced, g.pulls.pos, _, ⟨g.pulls, rfl⟩,
      (supplyToPool_eq_ok (h.pulled g.pulls)).mpr ⟨token, g.supplies, rfl⟩⟩, ?_⟩
    rw [World.exited, (pending_of_findExit g.found).2]
    rfl

/-! ### `withdraw` -/

theorem Bucket.WF.burned {b : Bucket} {shares : Int} (h : b.WF) (h₀ : 0 < shares)
    (hle : shares ≤ b.shares who) : (b.burned who shares).WF := by
  have hsum := h.shares_sum.update who (-shares)
  simp only [← sub_eq_add_neg] at hsum
  have hnn : ∀ u, 0 ≤ (b.burned who shares).shares u := by
    intro u
    by_cases hu : u = who
    · subst hu; simpa [Bucket.burned] using hle
    · simpa [Bucket.burned, hu] using h.shares_nonneg u
  have ht₀ : 0 ≤ b.totalShares - shares := SumsTo.nonneg hsum hnn
  refine { h with shares_nonneg := hnn, shares_sum := hsum, supply_fits := ?_, shares_account := ?_,
                  token_set := ?_ }
  · exact h.supply_fits.of_nonneg ht₀ (sub_le_self _ (le_of_lt h₀))
  · intro u hu
    by_cases he : u = who
    · subst he; exact h.shares_account u (by omega)
    · exact h.shares_account u (by simpa [Bucket.burned, he] using hu)
  · -- somebody held shares before, so the token was already set
    intro _
    have hge := h.shares_sum.entry_le h.shares_nonneg who
    exact h.token_set (by omega)

theorem Bucket.WF.paid {b : Bucket} (h : b.WF) (h₀ : 0 ≤ assets) (hle : assets ≤ b.totalAssets) :
    (b.paid assets).WF :=
  { h with
    assets_nonneg := sub_nonneg.mpr hle
    assets_fits := h.assets_fits.of_nonneg (sub_nonneg.mpr hle) (sub_le_self _ h₀) }

theorem Bucket.WF.credited {b : Bucket} {minted : Int} (h : b.WF) (hacc : ∃ id, who = .account id)
    (htok : b.token.isSome = true) (ha : 0 < amount) (hm : 0 < minted)
    (hs : I128.Fits (b.totalShares + minted)) (hf : I128.Fits (b.totalAssets + amount)) :
    (b.credited who amount minted).WF := by
  have hnn : ∀ u, 0 ≤ (b.credited who amount minted).shares u := by
    intro u
    by_cases hu : u = who
    · subst hu
      have := h.shares_nonneg u
      simp only [Bucket.credited, Function.update_self]
      omega
    · simpa [Bucket.credited, hu] using h.shares_nonneg u
  refine { h with assets_nonneg := ?_, assets_fits := hf, shares_nonneg := hnn,
                  shares_sum := h.shares_sum.update who minted, supply_fits := hs, shares_account := ?_,
                  token_set := fun _ => htok }
  · exact add_nonneg h.assets_nonneg (le_of_lt ha)
  · intro u hu
    by_cases he : u = who
    · subst he; exact hacc
    · exact h.shares_account u (by simpa [Bucket.credited, he] using hu)

theorem WF_burned {shares : Int} (h : w.WF) (h₀ : 0 < shares) (hle : shares ≤ (w.bucket c).shares who) :
    (w.updateBucket c (·.burned who shares)).WF :=
  h.updateBucket ((h.bucket_wf c).burned h₀ hle) rfl (fun _ he => he)

/-- A payout's plan leaves enough idle, when idle and positions cover it. -/
theorem total_payoutPlan (h : w.WF)
    (hcov : assets ≤ (w.bucket c).totalAssets + ((w.bucket c).poolList.map w.position).sum) :
    (w.bucket c).totalAssets + Drain.total (w.payoutPlan c assets) = max (w.bucket c).totalAssets assets := by
  unfold World.payoutPlan
  rcases le_or_gt assets (w.bucket c).totalAssets with hle | hlt
  · rw [Drain.takes_of_nonpos (sub_nonpos.mpr hle), Drain.total_nil, add_zero, max_eq_left hle]
  · rw [Drain.sum_takes (fun p _ => h.position_nonneg p) (by omega), min_eq_left (by omega),
      max_eq_right (le_of_lt hlt)]
    ring

theorem pullPlan_payout (h : w.WF) (hpr : ∀ p ∈ (w.bucket c).poolList, w.Priced p)
    (hfit : I128.Fits assets)
    (hcov : assets ≤ (w.bucket c).totalAssets + ((w.bucket c).poolList.map w.position).sum)
    (hliq : ∀ x ∈ w.payoutPlan c assets, x.2 ≤ w.liquidity x.1) :
    PullPlan w c (w.payoutPlan c assets) := by
  refine pullPlan_takes (h.bucket_wf c).list_nodup hpr hliq ?_
  have htot := total_payoutPlan h hcov
  rw [World.payoutPlan] at htot
  rw [htot]
  rcases max_choice (w.bucket c).totalAssets assets with hm | hm
  · rw [hm]; exact (h.bucket_wf c).assets_fits
  · rw [hm]; exact hfit

/-- The shortfall of a payout is pulled exactly when idle and positions cover it and every pool the plan
    visits can pay its take. -/
theorem makeLiquid_eq_ok (h : w.WF) (hpr : ∀ p ∈ (w.bucket c).poolList, w.Priced p)
    (hfit : I128.Fits assets) :
    withdraw.makeLiquid w c assets = .ok w' ↔
      assets ≤ (w.bucket c).totalAssets + ((w.bucket c).poolList.map w.position).sum ∧
        (∀ x ∈ w.payoutPlan c assets, x.2 ≤ w.liquidity x.1) ∧
        w.pulls c (w.payoutPlan c assets) = w' := by
  have hb := h.bucket_wf c
  have hpos := h.positions_nonneg (w.bucket c).poolList
  unfold withdraw.makeLiquid World.payoutPlan
  by_cases hlt : idle w c < assets
  · have hidle : (w.bucket c).totalAssets < assets := hlt
    have hneed : I128.Fits (assets - (w.bucket c).totalAssets) :=
      hfit.of_nonneg (by omega) (sub_le_self _ hb.assets_nonneg)
    rw [if_pos hlt]
    simp only [bind_eq_ok, I128.sub_eq_ok]
    constructor
    · rintro ⟨_, ⟨_, rfl⟩, hpull⟩
      obtain ⟨hle, hliq, _, rfl⟩ := (pullFromPools_eq_ok h hpr (sub_nonneg.mpr (le_of_lt hlt)) hneed).mp hpull
      have hle : assets - (w.bucket c).totalAssets ≤ _ := hle
      exact ⟨by omega, hliq, rfl⟩
    · rintro ⟨hle, hliq, rfl⟩
      refine ⟨_, ⟨hneed, rfl⟩, (pullFromPools_eq_ok h hpr (sub_nonneg.mpr (le_of_lt hlt)) hneed).mpr
        ⟨?_, hliq, ?_, rfl⟩⟩
      · show assets - (w.bucket c).totalAssets ≤ _
        omega
      · show I128.Fits ((w.bucket c).totalAssets + (assets - (w.bucket c).totalAssets))
        rw [add_sub_cancel]
        exact hfit
  · -- nothing is missing: no pull, and the plan is empty
    have hidle : assets ≤ (w.bucket c).totalAssets := not_lt.mp hlt
    rw [if_neg hlt, Drain.takes_of_nonpos (sub_nonpos.mpr hidle), ok_eq_ok]
    simp only [World.pulls_nil, List.not_mem_nil, false_implies, implies_true, true_and]
    exact ⟨fun he => ⟨by omega, he⟩, fun he => he.2⟩

/-- Burning shares moves no money: the payout's plan is the same before and after. -/
theorem payoutPlan_burned {shares : Int} :
    (w.updateBucket c (·.burned who shares)).payoutPlan c assets = w.payoutPlan c assets := by
  unfold World.payoutPlan
  rw [World.bucket_updateBucket_self]
  rfl

section
variable {shares : Int}

/-- The plan of a payout is sound in the world the shares were burned in. -/
theorem pullPlan_burned (h₁ : (w.updateBucket c (·.burned who shares)).WF)
    (hpr : ∀ p ∈ (w.bucket c).poolList, w.Priced p) (hfit : I128.Fits assets)
    (hcov : assets ≤ (w.bucket c).totalAssets + ((w.bucket c).poolList.map w.position).sum)
    (hliq : ∀ x ∈ w.payoutPlan c assets, x.2 ≤ w.liquidity x.1) :
    PullPlan (w.updateBucket c (·.burned who shares)) c (w.payoutPlan c assets) := by
  have hp := pullPlan_payout (w := w.updateBucket c (·.burned who shares)) (c := c) h₁
    (by rw [World.bucket_updateBucket_self]; exact hpr) hfit
    (by rw [World.bucket_updateBucket_self]; exact hcov)
    (by rw [payoutPlan_burned]; exact hliq)
  rwa [payoutPlan_burned] at hp

theorem WithdrawGuard.readable (h : w.WF) (g : WithdrawGuard w auth who c shares assets token) :
    Readable w c := ((redeemAssets_eq_ok h).mp g.redeems).1

theorem WithdrawGuard.assets_fits (h : w.WF) (g : WithdrawGuard w auth who c shares assets token) :
    I128.Fits assets := by
  obtain ⟨_, hf, rfl⟩ := (redeemAssets_eq_ok h).mp g.redeems
  exact hf.quotient

theorem WithdrawGuard.burned_wf (h : w.WF) (g : WithdrawGuard w auth who c shares assets token) :
    (w.updateBucket c (·.burned who shares)).WF := WF_burned h g.pos g.owned

theorem WithdrawGuard.plan (h : w.WF) (g : WithdrawGuard w auth who c shares assets token) :
    PullPlan (w.updateBucket c (·.burned who shares)) c (w.payoutPlan c assets) :=
  pullPlan_burned (g.burned_wf h) (g.readable h).priced (g.assets_fits h) g.covered g.liquid

/-- What the payout leaves idle before it is paid. -/
theorem totalAssets_liquidated (h : w.WF)
    (hp : PullPlan (w.updateBucket c (·.burned who shares)) c (w.payoutPlan c assets))
    (h₁ : (w.updateBucket c (·.burned who shares)).WF)
    (hcov : assets ≤ (w.bucket c).totalAssets + ((w.bucket c).poolList.map w.position).sum) :
    ((w.liquidated who c shares assets).bucket c).totalAssets = max (w.bucket c).totalAssets assets := by
  unfold World.liquidated
  rw [totalAssets_pulls h₁ hp, World.bucket_updateBucket_self]
  exact total_payoutPlan h hcov

theorem token_liquidated (hp : PullPlan (w.updateBucket c (·.burned who shares)) c (w.payoutPlan c assets))
    (h₁ : (w.updateBucket c (·.burned who shares)).WF) :
    ((w.liquidated who c shares assets).bucket c).token = (w.bucket c).token := by
  unfold World.liquidated
  rw [token_pulls h₁ hp, World.bucket_updateBucket_self]
  rfl

end

/-- **`withdraw`, read both ways.** -/
theorem withdraw_eq_ok (h : w.WF) {shares : Int} :
    withdraw auth w who c shares = .ok w' ↔
      ∃ assets token, WithdrawGuard w auth who c shares assets token ∧
        w.redeemed who c shares assets token = w' := by
  have hb := h.bucket_wf c
  -- the world the shares were burned in, as the source writes it
  have hburn : w.updateBucket c (fun b =>
      { b with shares := Function.update b.shares who ((w.bucket c).shares who - shares),
               totalShares := (w.bucket c).totalShares - shares })
      = w.updateBucket c (·.burned who shares) := rfl
  simp only [withdraw, bind_eq_ok, requireAuth_eq_ok, requireNotPaused, failIf_eq_ok, exists_const,
    requireToken_eq_ok, transfer_eq_ok, I128.sub_eq_ok, ok_eq_ok, not_le, not_lt, Bool.not_eq_true,
    World.bucket_updateBucket_self]
  constructor
  · rintro ⟨hs, hp, hpos, hown, assets, hred, _, ⟨_, rfl⟩, _, ⟨_, rfl⟩, w₂, hliq, _, ⟨_, rfl⟩, token,
      htok, _, ⟨h₀, hfund, rfl⟩, rfl⟩
    obtain ⟨hread, hmd, hval⟩ := (redeemAssets_eq_ok h).mp hred
    have hfit : I128.Fits assets := hval ▸ hmd.quotient
    have h₁ := WF_burned h hpos hown
    rw [hburn, makeLiquid_eq_ok h₁ (by rw [World.bucket_updateBucket_self]; exact hread.priced) hfit,
      World.bucket_updateBucket_self, payoutPlan_burned] at hliq
    obtain ⟨hcov, hl, rfl⟩ := hliq
    have hplan := pullPlan_burned h₁ hread.priced hfit hcov hl
    exact ⟨assets, token, ⟨hs, hp, hpos, hown, hred, hcov, hl,
      (token_liquidated hplan h₁).symm.trans htok, h₀, hfund⟩, rfl⟩
  · rintro ⟨assets, token, g, rfl⟩
    have h₁ := g.burned_wf h
    have hown := g.owned
    have hpos := g.pos
    have hle := h.shares_le c who
    have hsupply := hb.supply_fits
    -- no counter underflows: the supply covers the shares, the idle balance now covers the payout
    have hrem : I128.Fits (((w.liquidated who c shares assets).bucket c).totalAssets - assets) := by
      rw [totalAssets_liquidated h (g.plan h) h₁ g.covered]
      have hmax : I128.Fits (max (w.bucket c).totalAssets assets) := by
        rcases max_choice (w.bucket c).totalAssets assets with hm | hm
        · rw [hm]; exact hb.assets_fits
        · rw [hm]; exact g.assets_fits h
      exact hmax.of_nonneg (sub_nonneg.mpr (le_max_right _ _)) (sub_le_self _ g.nonneg)
    refine ⟨g.signed, g.unpaused, g.pos, g.owned, assets, g.redeems, _,
      ⟨hsupply.of_nonneg (by omega) (by omega), rfl⟩, _,
      ⟨hsupply.of_nonneg (by omega) (by omega), rfl⟩, w.liquidated who c shares assets, ?_, _,
      ⟨hrem, rfl⟩, token, (token_liquidated (g.plan h) h₁).trans g.token_set, _,
      ⟨g.nonneg, g.funded, rfl⟩, rfl⟩
    rw [hburn, makeLiquid_eq_ok h₁
      (by rw [World.bucket_updateBucket_self]; exact (g.readable h).priced) (g.assets_fits h),
      World.bucket_updateBucket_self, payoutPlan_burned]
    exact ⟨g.covered, g.liquid, rfl⟩

end Vault

/-! ## The money entrypoints keep the world well formed -/

namespace World

open Vault

variable {w : World} {auth : Auth} {u token : Address} {c : Currency} {p : Address} {amount : Int}

theorem WF.deposited {minted : Int} (h : w.WF) (g : DepositGuard w auth u c amount minted token)
    (hu : ∃ id, u = .account id) : (w.deposited u c amount minted token).WF := by
  have ht : (w.setTokens (w.tokens.move token u vaultAddress amount)).WF :=
    h.setTokens (Tokens.move_nonneg h.tokens_nonneg (le_of_lt g.pos) g.funded)
  refine (ht.updateBucket ?_ rfl (fun _ he => he)).publish
  exact (h.bucket_wf c).credited hu (by rw [g.token_set]; rfl) g.pos g.minted_pos g.supply_fits g.assets_fits

theorem WF.liquidated {shares assets : Int} (h : w.WF)
    (g : WithdrawGuard w auth u c shares assets token) : (w.liquidated u c shares assets).WF :=
  (g.plan h).wf (g.burned_wf h)

theorem WF.redeemed {shares assets : Int} (h : w.WF)
    (g : WithdrawGuard w auth u c shares assets token) : (w.redeemed u c shares assets token).WF := by
  have hl := h.liquidated g
  have hle : assets ≤ ((w.liquidated u c shares assets).bucket c).totalAssets := by
    rw [totalAssets_liquidated h (g.plan h) (g.burned_wf h) g.covered]
    exact le_max_right _ _
  have hp : ((w.liquidated u c shares assets).updateBucket c (·.paid assets)).WF :=
    hl.updateBucket ((hl.bucket_wf c).paid g.nonneg hle) rfl (fun _ he => he)
  exact (hp.setTokens (Tokens.move_nonneg hl.tokens_nonneg g.nonneg g.funded)).publish

theorem WF.exited {exitId : Nat} {proposal : ExitProposal} (h : w.WF)
    (g : ExitGuard w auth u exitId c proposal token) : (w.exited c proposal token).WF := by
  have hs := (h.pulled g.pulls).supplied g.supplies
  have hx : (World.updateBucket _ c (·.exited)).WF :=
    hs.updateBucket { hs.bucket_wf c with } rfl (fun _ he => absurd he (by simp [Bucket.exited]))
  exact hx.publish

/-! ## What the money entrypoints do to an account's tokens -/

variable {tok : Address} {id : Nat}

/-- A pull moves tokens between a pool and the vault only. -/
theorem tokens_pulled_account (h : w.WF) (g : PullGuard w p c amount) :
    (w.pulled p c amount).tokens tok (.account id) = w.tokens tok (.account id) := by
  obtain ⟨s, hs⟩ := Option.isSome_iff_exists.mp g.hosted
  rw [tokens_pulled]
  exact Tokens.move_of_ne tok (h.account_ne_pool hs id).symm (by simp [vaultAddress])

/-- So does a supply. -/
theorem tokens_supplied_account (h : w.WF) (g : SupplyGuard w p c amount token) :
    (w.supplied p c amount token).tokens tok (.account id) = w.tokens tok (.account id) := by
  obtain ⟨s, hs⟩ := Option.isSome_iff_exists.mp g.hosted
  rw [tokens_supplied]
  exact Tokens.move_of_ne tok (by simp [vaultAddress]) (h.account_ne_pool hs id).symm

/-- And a plan. -/
theorem tokens_pulls_account {plan : List (Address × Int)} (h : w.WF) (hp : PullPlan w c plan) :
    (w.pulls c plan).tokens tok (.account id) = w.tokens tok (.account id) :=
  hp.invariant (I := fun v => v.tokens tok (.account id) = w.tokens tok (.account id)) h rfl
    (fun _ _ _ hv g _ hI => (tokens_pulled_account hv g).trans hI)

/-- **A deposit takes `amount` from its depositor**, and nothing from anybody else. -/
theorem tokens_deposited_account {minted : Int} :
    (w.deposited u c amount minted token).tokens tok (.account id)
      = w.tokens tok (.account id) - if tok = token ∧ Address.account id = u then amount else 0 := by
  show w.tokens.move token u vaultAddress amount tok (.account id) = _
  rw [Tokens.move_apply]
  simp [vaultAddress]

/-- **A withdrawal pays its depositor `assets`**, and nobody else. -/
theorem tokens_redeemed_account {shares assets : Int} (h : w.WF)
    (g : WithdrawGuard w auth u c shares assets token) :
    (w.redeemed u c shares assets token).tokens tok (.account id)
      = w.tokens tok (.account id) + if tok = token ∧ Address.account id = u then assets else 0 := by
  show (w.liquidated u c shares assets).tokens.move token vaultAddress u assets tok (.account id) = _
  rw [Tokens.move_apply, liquidated, tokens_pulls_account (g.burned_wf h) (g.plan h)]
  simp [vaultAddress]

/-! ## What the money entrypoints do to the positions and the holdings -/

variable {q : Address}

/-- **A withdrawal lowers each position by what its plan takes there.** -/
theorem position_redeemed {shares assets : Int} (h : w.WF)
    (g : WithdrawGuard w auth u c shares assets token) :
    (w.redeemed u c shares assets token).position q
      = w.position q - Drain.taken (w.payoutPlan c assets) q := by
  show (w.liquidated u c shares assets).position q = _
  rw [liquidated, position_pulls (g.burned_wf h) (g.plan h)]
  rfl

/-- **An exit moves the whole position of its source into its target.** -/
theorem position_exited {exitId : Nat} {e : ExitProposal} (h : w.WF)
    (g : ExitGuard w auth u exitId c e token) :
    (w.exited c e token).position q = w.position q
      - (if q = e.fromPool then w.position e.fromPool else 0)
      + (if q = e.toPool then w.position e.fromPool else 0) := by
  rw [exited, position_publish, position_updateBucket,
    position_supplied (h.pulled g.pulls).toPoolsWF g.supplies.hosted g.supplies.pos,
    position_pulled g.pulls.hosted g.pulls.covered]

end World

end SoroSense
