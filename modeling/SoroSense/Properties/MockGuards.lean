import SoroSense.Properties.MockWrites
import SoroSense.Properties.Exit

/-!
# `Properties.MockGuards` — when the mock accepts no more than the contract

Each write that the mock accepts and that is `Guarded` is followed on the vault: it is accepted there, and the two
match afterwards (`Agreed.follows`). So in a run whose accepted writes are all guarded the mock is never laxer
and the two agree on every active pool, pool status, pending exit and consent (`guarded_mock_is_vault`).
Nothing is asked in vain: a run in which they agree throughout is a guarded one (`Agreed.run_iff`).
-/

namespace SoroSense
namespace Backend

open Fallible Transition

variable {r : Registry} {strkey : Strkey} {m m' : MockVault} {w w' w₀ : World} {c : Currency}
  {p q : SoroSense.Address} {amount shares : Int} {account : ℕ} {config : Vault.Config} {s s' : SideBySide}

/-- The pull of an exit finds its guard. -/
theorem ExitChecks.pulls {u : SoroSense.Address} {e : Vault.ExitProposal} (hg : ExitChecks w u c e) :
    Vault.PullGuard w e.fromPool c (w.position e.fromPool) :=
  ⟨hg.pos, hg.priced_from, le_refl _, hg.liquid, hg.idle_fits⟩

namespace Agreed

theorem tied (h : Agreed r strkey config s) : Tied r strkey config s := ⟨h.reached, h.config, h.matched.mirrors⟩

theorem backed (h : Agreed r strkey config s) : Backing.Inv r s.world := Backing.reachable_inv h.reached

/-! ## Each accepted write, followed -/

/-- The vault accepts `call` and is then matched by `m'`. -/
def Follows (strkey : Strkey) (m' : MockVault) (account : ℕ) (w : World) (call : Vault.Call) : Prop :=
  ∃ w', call.exec (Auth.signers [account]) w = .ok w' ∧ Matched strkey m' w'

theorem setPolicyConsent (h : Agreed r strkey config s)
    (hm : (MockVault.setPolicyConsent (strkey.text (.account account))).effect s.mock.prepared = .ok m') :
    Follows strkey m' account s.world (.setPolicyConsent (.account account)) := by
  obtain rfl := Except.ok.inj hm
  have hpre := h.matched.prepared
  obtain ⟨w', hx⟩ : ∃ w', Vault.setPolicyConsent (Auth.signers [account]) s.world (.account account) = .ok w' :=
    ⟨_, Vault.setPolicyConsent_eq_ok.mpr ⟨Auth.signers_self account, rfl⟩⟩
  have hb : (∀ c, w'.bucket c = s.world.bucket c) ∧ ∀ c, w'.navOf c = s.world.navOf c := by
    obtain ⟨_, rfl⟩ := Vault.setPolicyConsent_eq_ok.mp hx
    split <;> exact ⟨fun _ => rfl, fun _ => rfl⟩
  have hbooks : SameBooks s.world w' := ⟨fun c => by rw [hb.1], fun c => by rw [hb.1], hb.2⟩
  have hset : w'.settings = (Vault.Call.setPolicyConsent _).set s.world.settings := settings_of_call h.tied.wf hx
  exact ⟨w', hx, (hpre.mirrors.moved hbooks).of_mock rfl rfl rfl rfl, hpre.status.consented hset hb.1,
    hpre.onePer⟩

theorem deposit (h : Agreed r strkey config s) (hv : config.virtualOffset = virtualOffset)
    (hmin : config.minFirstDeposit ≤ 1)
    (hm : (MockVault.deposit (strkey.text (.account account)) c amount).effect s.mock.prepared = .ok m')
    (hg : DepositChecks s.world (.account account) c amount) :
    Follows strkey m' account s.world (.deposit (.account account) c amount) := by
  obtain ⟨hpos, hminted, rfl⟩ := MockVault.deposit_eq_ok.mp hm
  have hpre := h.matched.prepared
  rw [← h.config] at hv hmin
  rw [hpre.mirrors.mint_eq] at hminted ⊢
  obtain ⟨token, htoken, hfunded⟩ := hg.funded
  have g : Vault.DepositGuard s.world (Auth.signers [account]) (.account account) c amount _ token :=
    { signed := Auth.signers_self account
      unpaused := hg.unpaused
      consented := hg.consented
      pos := hpos
      first := fun _ => by omega
      token_set := htoken
      funded := hfunded
      mints := by
        rw [hv]
        exact (Vault.mintShares_eq_ok h.tied.wf).mpr ⟨hg.readable, hg.mint_fits, rfl⟩
      minted_pos := hminted
      owned_fits := hg.owned_fits
      supply_fits := hg.supply_fits
      assets_fits := hg.assets_fits }
  exact ⟨_, Vault.deposit_eq_ok.mpr ⟨_, token, g, rfl⟩, hpre.mirrors.deposited,
    hpre.status.deposited.of_mock rfl rfl rfl rfl, hpre.onePer⟩

/-- What is paid out is what the mock computes, and the bucket covers it. -/
theorem withdraw (h : Agreed r strkey config s) (hv : config.virtualOffset = virtualOffset)
    (hm : (MockVault.withdraw (strkey.text (.account account)) c shares).effect s.mock.prepared = .ok m')
    (hg : WithdrawChecks s.world c shares) :
    Follows strkey m' account s.world (.withdraw (.account account) c shares) := by
  obtain ⟨hpos, hown, rfl⟩ := MockVault.withdraw_eq_ok.mp hm
  have hpre := h.matched.prepared
  have hw := h.tied.wf
  rw [← h.config] at hv
  have hown : shares ≤ (s.world.bucket c).shares (.account account) := hpre.mirrors.shares _ c ▸ hown
  rw [hpre.mirrors.redeem_eq]
  have hoff : 0 < s.world.vault.config.virtualOffset := by rw [hv]; decide
  have hred : Vault.redeemAssets s.world c shares s.world.vault.config.virtualOffset
      = .ok (payout s.world c shares) := by
    rw [hv]
    exact (Vault.redeemAssets_eq_ok hw).mpr ⟨hg.readable, hg.fits, rfl⟩
  have hpar := totalShares_le_navOf (c := c) (reachable_home_of_registered h.reached) hoff
  have hcov := (redeemAssets_between hw hoff hpar hpos (le_trans hown (hw.shares_le c _)) hred).2
  obtain ⟨token, g⟩ := withdrawGuard_of_liquid h.reached hoff hg.unpaused (Auth.signers_self account) hpos hown
    hred hcov hg.liquid
  exact ⟨_, (Vault.withdraw_eq_ok hw).mpr ⟨_, token, g, rfl⟩, hpre.mirrors.redeemed h.tied.inv hw g,
    (hpre.status.redeemed hw g hg.keeps).of_mock rfl rfl rfl rfl, hpre.onePer⟩

theorem freeze (h : Agreed r strkey config s) (hk : s.world.vault.keeper = .account account)
    (hm : (MockVault.freeze (strkey.text p)).effect s.mock.prepared = .ok m') :
    Follows strkey m' account s.world (.freeze p) := by
  obtain rfl := Except.ok.inj hm
  exact ⟨_, Vault.freeze_eq_ok.mpr ⟨hk ▸ Auth.signers_self account, rfl⟩, h.matched.prepared.switched⟩

theorem unfreeze (h : Agreed r strkey config s) (hk : s.world.vault.keeper = .account account)
    (hm : (MockVault.unfreeze (strkey.text p)).effect s.mock.prepared = .ok m') :
    Follows strkey m' account s.world (.unfreeze p) := by
  obtain rfl := Except.ok.inj hm
  exact ⟨_, Vault.unfreeze_eq_ok.mpr ⟨hk ▸ Auth.signers_self account, rfl⟩, h.matched.prepared.switched⟩

theorem proposeExit (h : Agreed r strkey config s) (hk : s.world.vault.keeper = .account account)
    (hm : (MockVault.proposeExit c (strkey.text p) (strkey.text q)).effect s.mock.prepared = .ok m')
    (hid : s.world.vault.exitCounter + 1 ≤ u64Max) :
    Follows strkey m' account s.world (.proposeExit c p q) := by
  obtain rfl := Except.ok.inj hm
  have hpre := h.matched.prepared
  exact ⟨_, Vault.proposeExit_eq_ok.mpr ⟨hk ▸ Auth.signers_self account, hid, rfl⟩,
    (hpre.mirrors.moved .proposed).of_mock rfl rfl rfl rfl, hpre.status.proposed.of_mock rfl rfl rfl rfl,
    hpre.onePer.setPending⟩

/-- The vault has the tokens it books as idle. -/
theorem funded (h : Agreed r strkey config s) (ht : (s.world.bucket c).totalShares ≠ 0) :
    ∃ token, (s.world.bucket c).token = some token ∧
      (s.world.bucket c).totalAssets ≤ s.world.tokens token vaultAddress := by
  obtain ⟨token, htoken⟩ := Option.isSome_iff_exists.mp ((h.tied.wf.bucket_wf c).token_set ht)
  refine ⟨token, htoken, ?_⟩
  rw [h.backed.token_eq c token htoken]
  exact h.backed.covered c

theorem allocate (h : Agreed r strkey config s) (hk : s.world.vault.keeper = .account account)
    (hm : (MockVault.allocate (strkey.text p) c amount).effect s.mock.prepared = .ok m')
    (hg : AllocateChecks r s.world p c amount) : Follows strkey m' account s.world (.allocate p c amount) := by
  obtain ⟨hfrozen, hpos, rfl⟩ := MockVault.allocate_eq_ok.mp hm
  have hpre := h.matched.prepared
  obtain ⟨token, htoken, hfunded⟩ := h.funded hg.stakes
  have g : Vault.SupplyGuard s.world p c amount token :=
    { allowed := hg.allowed
      unfrozen := (hpre.status.frozen_eq p).symm.trans hfrozen
      booked_fits := hg.booked_fits
      under_cap := hg.under_cap
      enough_idle := hg.enough_idle
      room := hg.room
      token_set := htoken
      funded := le_trans hg.enough_idle hfunded
      pos := hpos
      priced := hg.priced
      value_fits := hg.value_fits
      total_fits := hg.total_fits }
  have hbooks := SameBooks.allocated h.tied.inv h.tied.wf g hg.serves.1
  have hstatus : SameStatus strkey _ ((s.world.supplied p c amount token).publish (.allocated c p amount)) :=
    hpre.status.activated (c := c) (p := p) rfl rfl
      (fun d => by
        rw [World.bucket_publish, World.bucket_supplied]
        split <;> rfl)
      (fun d => World.bucketField_supplied Vault.Bucket.pendingExit rfl)
  exact ⟨_, (Vault.allocate_eq_ok h.tied.wf).mpr ⟨token, ⟨hk ▸ Auth.signers_self account, hg.unpaused,
      hg.stakes, g⟩, rfl⟩,
    (hpre.mirrors.moved hbooks).of_mock rfl rfl rfl rfl, hstatus.of_mock rfl rfl rfl rfl, hpre.onePer⟩

theorem deallocate (h : Agreed r strkey config s) (hk : s.world.vault.keeper = .account account)
    (hm : (MockVault.deallocate (strkey.text p) c amount).effect s.mock.prepared = .ok m')
    (hg : DeallocateChecks r s.world p c amount) :
    Follows strkey m' account s.world (.deallocate p c amount) := by
  obtain ⟨_, rfl⟩ := MockVault.deallocate_eq_ok.mp hm
  have hpre := h.matched.prepared
  have g : Vault.PullGuard s.world p c amount :=
    { pos := hg.pos
      priced := hg.priced
      covered := le_trans hg.booked (h.tied.inv.booked_le c p)
      liquid := hg.liquid
      idle_fits := hg.idle_fits }
  have hbooks := SameBooks.deallocated h.tied.inv h.tied.wf g hg.serves.1
  have hactive : ∀ d, ((s.world.pulled p c amount).bucket d).activePool = (s.world.bucket d).activePool := by
    intro d
    rw [World.bucket_pulled]
    split
    · rename_i hd
      subst hd
      show (if _ ∧ _ then none else _) = _
      rw [if_neg]
      rintro ⟨hempty, hact⟩
      exact hg.keeps hact (of_decide_eq_true hempty)
    · rfl
  have hstatus : SameStatus strkey _ ((s.world.pulled p c amount).publish (.deallocated c p amount)) :=
    hpre.status.moved rfl rfl hactive (fun _ => World.bucketField_pulled Vault.Bucket.pendingExit (fun _ => rfl))
  exact ⟨_, (Vault.deallocate_eq_ok h.tied.wf).mpr ⟨⟨hk ▸ Auth.signers_self account, hg.booked, g⟩, rfl⟩,
    (hpre.mirrors.moved hbooks).of_mock rfl rfl rfl rfl, hstatus.of_mock rfl rfl rfl rfl, hpre.onePer⟩

/-- What the mock finds under an id is pending on the vault too, under the id it has there. -/
theorem findExit (h : Agreed r strkey config s) {exitId : String} {found : ExitProposal}
    (hf : s.mock.pending.find? (fun p => p.id = exitId) = some found) :
    ∃ e, Vault.findExit s.world (s.exitIdOf exitId) = some (found.currency, e) ∧
      found.toPool = strkey.text e.toPool := by
  have hone : s.mock.pendingExit found.currency = some found :=
    h.matched.onePer.find (List.mem_of_find?_eq_some hf)
  have hpending := h.matched.status.pending found.currency
  rw [hone] at hpending
  obtain ⟨e, he, hsame⟩ := Option.map_eq_some_iff.mp hpending.symm
  have he : (s.world.bucket found.currency).pendingExit = some e := he
  have hid : s.exitIdOf exitId = e.id := by
    unfold SideBySide.exitIdOf
    rw [hf]
    show ((s.world.bucket found.currency).pendingExit.map Vault.ExitProposal.id).getD 0 = e.id
    rw [he]
    rfl
  refine ⟨e, (Vault.findExit_eq_some h.tied.wf).mpr ⟨he, hid.symm⟩, ?_⟩
  exact (congrArg (fun x : Currency × PoolId × PoolId => x.2.2) hsame).symm

section
variable {u : SoroSense.Address} {e : Vault.ExitProposal}

/-- The vault has the tokens it has just pulled, and the emptied source left its place on the list. -/
theorem exitSupplies (h : Agreed r strkey config s) (he : (s.world.bucket c).pendingExit = some e)
    (hg : ExitChecks s.world u c e) : ∃ token,
      Vault.SupplyGuard (s.world.pulled e.fromPool c (s.world.position e.fromPool)) e.toPool c
        (s.world.position e.fromPool) token := by
  have hw := h.tied.wf
  have hne := World.ne_of_frozen hg.frozen hg.unfrozen
  have hstakes : (s.world.bucket c).totalShares ≠ 0 := by
    have hle := hw.shares_le c u
    have hpos := hg.stakeholder
    omega
  obtain ⟨token, htoken, _⟩ := h.funded hstakes
  have hcover := (h.backed.pulled hg.pulls (h.backed.exit_token c e he).1 hw).covered c
  rw [← h.backed.token_eq c token htoken, World.bucket_pulled, if_pos rfl] at hcover
  have hcover : (s.world.bucket c).totalAssets + s.world.position e.fromPool ≤ _ := hcover
  have hidle := (hw.bucket_wf c).assets_nonneg
  have hlisted : e.fromPool ∈ (s.world.bucket c).poolList :=
    (h.tied.inv.listed_iff c _).mpr ⟨(h.tied.inv.exit_home c e he).1, hg.pos⟩
  exact ⟨token,
    { allowed := hg.allowed
      unfrozen := hg.unfrozen
      booked_fits := by rw [World.holdings_pulled_ne hne]; exact hg.booked_fits
      under_cap := by rw [World.holdings_pulled_ne hne]; exact hg.under_cap
      enough_idle := by
        rw [World.bucket_pulled, if_pos rfl]
        show _ ≤ (s.world.bucket c).totalAssets + s.world.position e.fromPool
        omega
      room := Or.inr (length_pulled_lt hw hlisted)
      token_set := by rw [World.bucketField_pulled Vault.Bucket.token (fun _ => rfl)]; exact htoken
      funded := by omega
      pos := hg.pos
      priced := (Vault.priced_pulled_ne hne).mpr hg.priced_to
      value_fits := by rw [World.position_pulled_ne hne]; exact hg.value_fits
      total_fits := by rw [World.pools_pulled_ne hne]; exact hg.total_fits }⟩

/-- **The checks of an exit are all its two legs need.** -/
theorem exitGuard (h : Agreed r strkey config s) {exitId : ℕ}
    (hf : Vault.findExit s.world exitId = some (c, e)) (hg : ExitChecks s.world (.account account) c e) :
    ∃ token, Vault.ExitGuard s.world (Auth.signers [account]) (.account account) exitId c e token := by
  obtain ⟨token, hsupplies⟩ := h.exitSupplies (Vault.pending_of_findExit hf).1 hg
  exact ⟨token, Auth.signers_self account, hf, hg.unpaused, hg.stakeholder, hg.frozen, hg.pulls, hsupplies⟩

end

theorem approveExit (h : Agreed r strkey config s) {exitId : String}
    (hm : (MockVault.approveExit (strkey.text (.account account)) exitId).effect s.mock.prepared = .ok m')
    (hg : ∀ c e, (s.world.bucket c).pendingExit = some e → e.id = s.exitIdOf exitId →
      ExitChecks s.world (.account account) c e) :
    Follows strkey m' account s.world (.approveExit (.account account) (s.exitIdOf exitId)) := by
  obtain ⟨found, hf, rfl⟩ := MockVault.approveExit_eq_ok.mp hm
  have hpre := h.matched.prepared
  obtain ⟨e, hfound, hto⟩ := h.findExit hf
  obtain ⟨hp, hid⟩ := Vault.pending_of_findExit hfound
  obtain ⟨token, g⟩ := h.exitGuard hfound (hg _ e hp hid)
  have hbooks := SameBooks.exited h.tied.inv h.tied.wf g
  -- the funds arrive, then the exit is cleared
  have hactive : SameStatus strkey _ ((s.world.pulled e.fromPool found.currency
      (s.world.position e.fromPool)).supplied e.toPool found.currency (s.world.position e.fromPool) token) :=
    hpre.status.activated (c := found.currency) (p := e.toPool) rfl rfl
      (fun d => by
        rw [World.bucket_supplied]
        split
        · rfl
        · rename_i hd; rw [Vault.bucket_pulled_ne hd])
      (fun d => (World.bucketField_supplied Vault.Bucket.pendingExit rfl).trans
        (World.bucketField_pulled Vault.Bucket.pendingExit (fun _ => rfl)))
  have hstatus : SameStatus strkey _ (s.world.exited found.currency e token) :=
    (hactive.deleted (c := found.currency)).moved rfl rfl (fun _ => rfl) (fun _ => rfl)
  rw [hto]
  exact ⟨_, (Vault.approveExit_eq_ok h.tied.wf).mpr ⟨_, e, token, g, rfl⟩,
    (hpre.mirrors.moved hbooks).of_mock rfl rfl rfl rfl, hstatus.of_mock rfl rfl rfl rfl, hpre.onePer.deleted⟩

end Agreed

/-! ## What is not a write -/

theorem not_movesShares {a : Action} (ha : ∀ ids call, a = .vault ids call → ¬ IsWrite call) : ¬ MovesShares a := by
  cases a with
  | vault ids call => have hcall := ha ids call rfl; cases call <;> first | exact id | exact fun _ => hcall trivial
  | _              => exact id

/-- What is not a write of the seam shows in none of the status reads. -/
theorem SameStatus.other {a : Action} (h : SameStatus strkey m w) (hw : w.WF) (hs : Step w a w')
    (ha : ∀ ids call, a = .vault ids call → ¬ IsWrite call) : SameStatus strkey m w' := by
  by_cases hv : ∃ ids call, a = .vault ids call
  · obtain ⟨ids, call, rfl⟩ := hv
    have hcall := ha ids call rfl
    cases hs with
    | reverted _ => exact h
    | done hx =>
        cases call with
        | setAutoCompound u enabled =>
            obtain ⟨_, rfl⟩ := Vault.setAutoCompound_eq_ok.mp hx
            exact h.moved rfl rfl (fun _ => rfl) (fun _ => rfl)
        | pause =>
            obtain ⟨_, rfl⟩ := Vault.pause_eq_ok.mp hx
            exact h.moved rfl rfl (fun _ => rfl) (fun _ => rfl)
        | unpause =>
            obtain ⟨_, rfl⟩ := Vault.unpause_eq_ok.mp hx
            exact h.moved rfl rfl (fun _ => rfl) (fun _ => rfl)
        | setPoolAllowed q allowed =>
            obtain ⟨_, rfl⟩ := Vault.setPoolAllowed_eq_ok.mp hx
            exact h.moved rfl rfl (fun _ => rfl) (fun _ => rfl)
        | setToken d token =>
            obtain ⟨_, rfl⟩ := Vault.setToken_eq_ok.mp hx
            exact h.moved rfl rfl (fun _ => World.bucketField_updateBucket Vault.Bucket.activePool rfl)
              (fun _ => World.bucketField_updateBucket Vault.Bucket.pendingExit rfl)
        | setConfiguredPool d q =>
            obtain ⟨_, rfl⟩ := Vault.setConfiguredPool_eq_ok.mp hx
            exact h.moved rfl rfl (fun _ => World.bucketField_updateBucket Vault.Bucket.activePool rfl)
              (fun _ => World.bucketField_updateBucket Vault.Bucket.pendingExit rfl)
        | _ => exact absurd trivial hcall
  · have hvault := (hs.effect hw).vault_eq fun ids call he => hv ⟨ids, call, he⟩
    have hbucket : ∀ c, w'.bucket c = w.bucket c := fun c => congrArg (fun v => v.bucket c) hvault
    exact h.moved (by rw [hvault]) (by rw [hvault]) (fun c => by rw [hbucket]) (fun c => by rw [hbucket])

/-! ## Every step -/

/-- A guarded write names a pool for its own bucket only. -/
theorem Write.registered {x : Write} (hg : x.Guarded r account s) :
    (Action.vault [account] (x.call account s)).Registered r := by
  cases x with
  | allocate p c amount =>
      rintro _ _ ⟨rfl, rfl⟩
      exact hg.serves
  | deallocate p c amount =>
      rintro _ _ ⟨rfl, rfl⟩
      exact hg.serves
  | proposeExit c p q =>
      rintro _ _ ⟨rfl | rfl, rfl⟩
      · exact hg.1
      · exact hg.2.1
  | _ => exact fun _ _ hn => hn.elim

/-- **A guarded write the mock accepts is accepted by the vault**, and leaves the two matched. -/
theorem Agreed.follows (h : Agreed r strkey config s) (hv : config.virtualOffset = virtualOffset)
    (hmin : config.minFirstDeposit ≤ 1) {x : Write} (hk : x.Signed strkey account s.world)
    (hm : (x.tx strkey account).effect s.mock.prepared = .ok m') (hg : x.Guarded r account s) :
    Follows strkey m' account s.world (x.call account s) := by
  cases x with
  | setPolicyConsent    => exact h.setPolicyConsent hm
  | deposit c amount    => exact h.deposit hv hmin hm hg
  | withdraw c shares   => exact h.withdraw hv hm hg
  | approveExit exitId  => exact h.approveExit hm hg
  | allocate p c amount => exact h.allocate (hk rfl) hm hg
  | deallocate p c amount => exact h.deallocate (hk rfl) hm hg
  | freeze p            => exact h.freeze (hk rfl) hm
  | unfreeze p          => exact h.unfreeze (hk rfl) hm
  | proposeExit c p q   => exact h.proposeExit (hk rfl) hm hg.2.2

variable {ev : GuardEvent}

/-- **What is not a write leaves them agreed**, and `simulateYield` never refuses it. -/
theorem Agreed.other (h : Agreed r strkey config s) {a : Action} (hs : RegisteredStep r s.world a w')
    (ha : ∀ ids call, a = .vault ids call → ¬ IsWrite call) :
    ∃ m', mirrorYield s.mock s.world w' = .ok m' ∧ Agreed r strkey config ⟨m', w'⟩ := by
  obtain ⟨m', hm, hmirrors⟩ := h.tied.other hs (not_movesShares ha)
  obtain ⟨_, rfl⟩ := (mirrorYield_eq_ok h.matched.mirrors.nav).mp hm
  exact ⟨_, hm, h.reached.tail hs, (hs.1.config h.tied.wf).trans h.config, hmirrors,
    (h.matched.status.other h.tied.wf hs.1 ha).of_mock rfl rfl rfl rfl, h.matched.onePer⟩

/-- **A guarded event keeps the two agreed.** -/
theorem Agreed.step (h : Agreed r strkey config s) (hv : config.virtualOffset = virtualOffset)
    (hmin : config.minFirstDeposit ≤ 1) (hs : GuardStep r strkey s ev s') (hg : Guarded r strkey s ev) :
    NeverLaxer strkey s ev ∧ Agreed r strkey config s' := by
  cases hs with
  | @accepted m m' w w' account x signed accepts step =>
      have hguard : x.Guarded r account ⟨m, w⟩ := hg ⟨m', accepts⟩
      have hm := MockVault.effect_of_write rfl h.matched.mirrors.live accepts
      obtain ⟨w₁, hx, hmatched⟩ := h.follows hv hmin signed hm hguard
      refine ⟨fun _ => ⟨w₁, hx⟩, h.reached.tail ⟨step, x.registered hguard⟩,
        (step.config h.tied.wf).trans h.config, ?_⟩
      rw [step.eq_of_ok hx]
      exact hmatched
  | @refused m w account x refuses =>
      refine ⟨fun hacc => absurd hacc refuses, h.reached, h.config, ?_⟩
      rw [MockVault.written_of_not_accepts rfl h.matched.mirrors.live refuses]
      exact h.matched.prepared
  | @other m m' w w' a apart step mirrored =>
      obtain ⟨m₁, hm₁, hnext⟩ := h.other step apart
      rw [ok_unique mirrored hm₁]
      exact ⟨trivial, hnext⟩

/-! ## Nothing asked in vain -/

/-- A write names pools of its own bucket. -/
def Write.OwnPools (r : Registry) : Write → Prop
  | .allocate p c _    => Serves r p c
  | .deallocate p c _  => Serves r p c
  | .proposeExit c p q => Serves r p c ∧ Serves r q c
  | _                  => True

def GuardEvent.OwnPools (r : Registry) : GuardEvent → Prop
  | .write _ x => x.OwnPools r
  | .other _   => True

section
variable {u token : SoroSense.Address} {minted assets : Int} {auth : Auth} {e : Vault.ExitProposal} {exitId : ℕ}

theorem DepositChecks.of_guard (hw : w.WF) (hv : w.vault.config.virtualOffset = virtualOffset)
    (g : Vault.DepositGuard w auth u c amount minted token) : DepositChecks w u c amount := by
  have hmints := g.mints
  rw [hv] at hmints
  obtain ⟨hread, hfits, rfl⟩ := (Vault.mintShares_eq_ok hw).mp hmints
  exact ⟨g.unpaused, g.consented, ⟨token, g.token_set, g.funded⟩, hread, hfits, g.owned_fits, g.supply_fits,
    g.assets_fits⟩

/-- A payout that left the active pool had not emptied it. -/
theorem WithdrawChecks.of_guard (hw : w.WF) (hv : w.vault.config.virtualOffset = virtualOffset)
    (g : Vault.WithdrawGuard w auth u c shares assets token)
    (hkept : ((w.redeemed u c shares assets token).bucket c).activePool = (w.bucket c).activePool) :
    WithdrawChecks w c shares := by
  have hred := g.redeems
  rw [hv] at hred
  obtain ⟨hread, hfits, rfl⟩ := (Vault.redeemAssets_eq_ok hw).mp hred
  refine ⟨g.unpaused, hread, hfits, g.liquid, fun p hp => ?_⟩
  have hburned := g.burned_wf hw
  rw [World.redeemed, World.bucketField_paidOut Vault.Bucket.activePool rfl, World.liquidated,
    Vault.activePool_pulls hburned (g.plan hw), World.bucket_updateBucket_self] at hkept
  have hfilter : (w.bucket c).activePool.filter _ = (w.bucket c).activePool := hkept
  rw [hp] at hfilter
  exact of_decide_eq_true (Option.filter_eq_some_iff.mp hfilter).2

theorem AllocateChecks.of_guard (hs : Serves r p c) (g : Vault.AllocateGuard w auth p c amount token) :
    AllocateChecks r w p c amount :=
  ⟨hs, g.unpaused, g.stakes, g.supplies.allowed, g.supplies.enough_idle, g.supplies.room, g.supplies.under_cap,
    g.supplies.booked_fits, g.supplies.priced, g.supplies.value_fits, g.supplies.total_fits⟩

/-- A deallocation that left the active pool had not emptied it. -/
theorem DeallocateChecks.of_guard (hs : Serves r p c) (g : Vault.DeallocateGuard w auth p c amount)
    (hkept : ((w.pulled p c amount).bucket c).activePool = (w.bucket c).activePool) :
    DeallocateChecks r w p c amount := by
  refine ⟨hs, g.pulls.pos, g.booked, g.pulls.priced, g.pulls.liquid, g.pulls.idle_fits, fun hact hempty => ?_⟩
  rw [World.bucket_pulled, if_pos rfl] at hkept
  have hcleared : (if decide (w.position p = amount) = true ∧ (w.bucket c).activePool = some p then none
      else (w.bucket c).activePool) = (w.bucket c).activePool := hkept
  rw [if_pos ⟨decide_eq_true hempty, hact⟩, hact] at hcleared
  exact absurd hcleared (by simp)

theorem ExitChecks.of_guard (g : Vault.ExitGuard w auth u exitId c e token) : ExitChecks w u c e := by
  have hfree : w.vault.frozen e.toPool = false := g.supplies.unfrozen
  have hne := World.ne_of_frozen g.frozen hfree
  have hcap := g.supplies.under_cap
  have hbooked := g.supplies.booked_fits
  have hvalue := g.supplies.value_fits
  have htotal := g.supplies.total_fits
  rw [World.holdings_pulled_ne hne] at hcap hbooked
  rw [World.position_pulled_ne hne] at hvalue
  rw [World.pools_pulled_ne hne] at htotal
  exact ⟨g.unpaused, g.stakeholder, g.frozen, g.pulls.priced, g.pulls.pos, g.pulls.liquid, g.pulls.idle_fits,
    g.supplies.allowed, hfree, hcap, hbooked, (Vault.priced_pulled_ne hne).mp g.supplies.priced, hvalue, htotal⟩

end

/-- Reads that agreed and still do tell of an active pool that stayed. -/
theorem SameStatus.activePool_kept (h : SameStatus strkey m w) (h' : SameStatus strkey m' w')
    (hm : m'.activePool c = m.activePool c) : (w'.bucket c).activePool = (w.bucket c).activePool := by
  have hmap : (w'.bucket c).activePool.map strkey.text = (w.bucket c).activePool.map strkey.text :=
    (h'.active c).symm.trans (hm.trans (h.active c))
  exact Option.map_injective (fun _ _ => Strkey.text_inj.mp) hmap

/-- **A write that both accept and that leaves the reads agreed was guarded.** -/
theorem Agreed.guarded_of_same (h : Agreed r strkey config s) (hv : config.virtualOffset = virtualOffset)
    {x : Write} (hown : x.OwnPools r) (hm : (x.tx strkey account).effect s.mock.prepared = .ok m')
    (hx : (x.call account s).exec (Auth.signers [account]) s.world = .ok w') (hs : SameStatus strkey m' w') :
    x.Guarded r account s := by
  have hw := h.tied.wf
  have hpre := h.matched.prepared.status
  rw [← h.config] at hv
  cases x with
  | setPolicyConsent => trivial
  | freeze p         => trivial
  | unfreeze p       => trivial
  | deposit c amount =>
      obtain ⟨_, _, g, _⟩ := Vault.deposit_eq_ok.mp hx
      exact .of_guard hw hv g
  | withdraw c shares =>
      obtain ⟨_, _, rfl⟩ := MockVault.withdraw_eq_ok.mp hm
      obtain ⟨_, _, g, rfl⟩ := (Vault.withdraw_eq_ok hw).mp hx
      exact .of_guard hw hv g (hpre.activePool_kept hs rfl)
  | approveExit exitId =>
      obtain ⟨_, _, _, g, _⟩ := (Vault.approveExit_eq_ok hw).mp hx
      intro c e hp hid
      -- no other exit has the id
      obtain ⟨rfl, rfl⟩ := Prod.mk.inj (Option.some.inj
        (g.found.symm.trans ((Vault.findExit_eq_some hw).mpr ⟨hp, hid⟩)))
      exact .of_guard g
  | allocate p c amount =>
      obtain ⟨_, g, _⟩ := (Vault.allocate_eq_ok hw).mp hx
      exact .of_guard hown g
  | deallocate p c amount =>
      have hm : (MockVault.deallocate (strkey.text p) c amount).effect s.mock.prepared = .ok m' := hm
      obtain ⟨_, rfl⟩ := MockVault.deallocate_eq_ok.mp hm
      obtain ⟨g, rfl⟩ := (Vault.deallocate_eq_ok hw).mp hx
      have hkept := hpre.activePool_kept (c := c) hs rfl
      exact .of_guard hown g hkept
  | proposeExit c p q =>
      obtain ⟨_, hid, _⟩ := Vault.proposeExit_eq_ok.mp hx
      exact ⟨hown.1, hown.2, hid⟩

/-- The same, of an event. -/
theorem Agreed.guarded_of_step (h : Agreed r strkey config s) (hv : config.virtualOffset = virtualOffset)
    (hs : GuardStep r strkey s ev s') (hown : ev.OwnPools r) (hl : NeverLaxer strkey s ev)
    (hsame : SameStatus strkey s'.mock s'.world) : Guarded r strkey s ev := by
  cases hs with
  | other a apart step mirrored => trivial
  | refused account x refuses   => exact fun hacc => absurd hacc refuses
  | accepted account x signed accepts step =>
      intro _
      obtain ⟨w₁, hx⟩ := hl ⟨_, accepts⟩
      have hm := MockVault.effect_of_write rfl h.matched.mirrors.live accepts
      refine h.guarded_of_same hv hown hm hx ?_
      rw [← step.eq_of_ok hx]
      exact hsame

/-! ## Runs -/

variable {tr : List (Event SideBySide GuardEvent)}

theorem Agreed.genesis (hg : Genesis w) : Agreed r strkey w.vault.config ⟨.new, w⟩ :=
  ⟨.of_init hg, rfl, .genesis hg, .genesis hg, List.nodup_nil⟩

/-- **Guarded runs agree throughout.** -/
theorem Agreed.run (h : Agreed r strkey config s) (hv : config.virtualOffset = virtualOffset)
    (hmin : config.minFirstDeposit ≤ 1) (hr : Run (GuardStep r strkey) s tr s')
    (hg : ∀ e ∈ tr, Guarded r strkey e.pre e.label) :
    ∀ e ∈ tr, NeverLaxer strkey e.pre e.label ∧ SameStatus strkey e.post.mock e.post.world := by
  refine (hr.invariant_under (I := Agreed r strkey config) (fun s ev t ht hs hfirst => ?_) h hg).2
  obtain ⟨hlaxer, hnext⟩ := ht.step hv hmin hs hfirst
  exact ⟨⟨hlaxer, hnext.matched.status⟩, hnext⟩

/-- **Agreement throughout takes guarded writes.** In a run whose writes name pools of their own bucket, what
    the vault asks and the mock does not is asked of every write, and nothing of it in vain. -/
theorem Agreed.run_iff (h : Agreed r strkey config s) (hv : config.virtualOffset = virtualOffset)
    (hmin : config.minFirstDeposit ≤ 1) (hr : Run (GuardStep r strkey) s tr s')
    (hown : ∀ e ∈ tr, e.label.OwnPools r) :
    (∀ e ∈ tr, NeverLaxer strkey e.pre e.label ∧ SameStatus strkey e.post.mock e.post.world) ↔
      ∀ e ∈ tr, Guarded r strkey e.pre e.label := by
  refine ⟨fun hall => ?_, h.run hv hmin hr⟩
  induction hr with
  | nil => exact fun e he => absurd he (by simp)
  | cons hs _ ih =>
      obtain ⟨hownfirst, hownrest⟩ := List.forall_mem_cons.mp hown
      obtain ⟨⟨hlaxer, hsame⟩, hrest⟩ := List.forall_mem_cons.mp hall
      have hfirst := h.guarded_of_step hv hs hownfirst hlaxer hsame
      exact List.forall_mem_cons.mpr ⟨hfirst, ih (h.step hv hmin hs hfirst).2 hownrest hrest⟩

/-- **Any history of the ledger without writes of the seam can be followed.** -/
theorem Agreed.follow_trace (h : Agreed r strkey config s) {as : List Action} (hreg : ∀ a ∈ as, a.Registered r)
    (hn : ∀ a ∈ as, ∀ ids call, a = .vault ids call → ¬ IsWrite call) :
    ∃ tr' m', Run (GuardStep r strkey) s tr' ⟨m', s.world.after as⟩ ∧
      Agreed r strkey config ⟨m', s.world.after as⟩ ∧ ∀ e ∈ tr', ∃ a, e.label = .other a := by
  have hstep : ∀ w a w₁ (x : SideBySide), x.world = w ∧ Agreed r strkey config x → RegisteredStep r w a w₁ →
      (∀ ids call, a = .vault ids call → ¬ IsWrite call) →
      ∃ y : SideBySide, GuardStep r strkey x (.other a) y ∧ y.world = w₁ ∧ Agreed r strkey config y := by
    rintro _ a w₁ ⟨m, w⟩ ⟨rfl, ha⟩ hs hnot
    obtain ⟨m₁, hm, hnext⟩ := ha.other hs hnot
    exact ⟨⟨m₁, w₁⟩, .other a hnot hs hm, rfl, hnext⟩
  obtain ⟨tr', ⟨m', _⟩, hrun, ⟨rfl, hagreed⟩, hlab⟩ := (s.world.run_trace_registered hreg).lift hstep
    (fun e he => hn _ (Execution.trace_labels as e he)) ⟨rfl, h⟩
  exact ⟨tr', m', hrun, hagreed, hlab⟩

/-- **A guarded write that the mock takes is a step of a run**, to the world the vault computes. -/
theorem Agreed.taken (h : Agreed r strkey config ⟨m, w⟩) (hv : config.virtualOffset = virtualOffset)
    (hmin : config.minFirstDeposit ≤ 1) (account : ℕ) (x : Write) (hk : x.Signed strkey account w)
    (hm : (x.tx strkey account).effect m.prepared = .ok m')
    (hx : w.Accepts [.vault [account] (x.call account ⟨m, w⟩)]) (hg : x.Guarded r account ⟨m, w⟩) :
    GuardStep r strkey ⟨m, w⟩ (.write account x) ⟨m', w.after [.vault [account] (x.call account ⟨m, w⟩)]⟩ ∧
      Agreed r strkey config ⟨m', w.after [.vault [account] (x.call account ⟨m, w⟩)]⟩ := by
  obtain ⟨m₁, hacc⟩ : m.Accepts (x.tx strkey account) (x.signer strkey account) :=
    (MockVault.accepts_iff rfl h.matched.mirrors.live).mpr ⟨m', hm⟩
  obtain rfl := ok_unique (MockVault.effect_of_write rfl h.matched.mirrors.live hacc) hm
  have hstep := GuardStep.accepted (r := r) account x hk hacc (.done hx.exec)
  exact ⟨hstep, (h.step hv hmin hstep (fun _ => hg)).2⟩

/-- **When the mock never accepts what the vault refuses.** Start a fresh mock beside a freshly constructed
    vault with the mock's offset. In every run whose accepted writes all meet what the vault asks and the
    mock does not, the vault accepts every write the mock does, and after each event the two agree on every
    active pool, pool status, pending exit and consent. -/
theorem guarded_mock_is_vault (hg : Genesis w₀) (hv : w₀.vault.config.virtualOffset = virtualOffset)
    (hmin : w₀.vault.config.minFirstDeposit ≤ 1) (hr : Run (GuardStep r strkey) ⟨.new, w₀⟩ tr s)
    (hguard : ∀ e ∈ tr, Guarded r strkey e.pre e.label) :
    ∀ e ∈ tr, NeverLaxer strkey e.pre e.label ∧ SameStatus strkey e.post.mock e.post.world :=
  (Agreed.genesis hg).run hv hmin hr hguard

/-- A vault with one pool, … -/
def setUpWorld : World := (World.opening 1000 5000).after (setUpPool .usd (.contract 100) 1 1000)

/-- … and what account 2 and the keeper do there. -/
def joinedWorld : World := setUpWorld.after [.vault [2] (.setPolicyConsent (.account 2))]

def paidInWorld : World := joinedWorld.after [.vault [2] (.deposit (.account 2) .usd 1000)]

def workingWorld : World := paidInWorld.after [.vault [1] (.allocate (.contract 1) .usd 400)]

theorem setUpPool_follows : (∀ a ∈ setUpPool .usd (.contract 100) 1 1000, a.Registered .dollars) ∧
    ∀ a ∈ setUpPool .usd (.contract 100) 1 1000, ∀ ids call, a = .vault ids call → ¬ IsWrite call := by
  constructor
  · simp [setUpPool, Action.Registered, Vault.Call.Names, Registry.dollars]
  · rintro a ha ids call rfl
    simp only [setUpPool, List.mem_cons, List.not_mem_nil, or_false, reduceCtorEq, false_or,
      Action.vault.injEq] at ha
    rcases ha with ⟨_, rfl⟩ | ⟨_, rfl⟩ <;> exact id

/-- A consent, a deposit and an allocation. -/
theorem guarded_mock_is_vault_allocated :
    ∃ tr m, Run (GuardStep .dollars demoClient.strkey) ⟨.new, World.opening 1000 5000⟩ tr ⟨m, workingWorld⟩ ∧
      ∀ e ∈ tr, NeverLaxer demoClient.strkey e.pre e.label ∧
        SameStatus demoClient.strkey e.post.mock e.post.world := by
  have hg : Genesis (World.opening 1000 5000) := Genesis.opening (by decide)
  have hv : (World.opening 1000 5000).vault.config.virtualOffset = virtualOffset := by decide +kernel
  have hmin : (World.opening 1000 5000).vault.config.minFirstDeposit ≤ 1 := by decide +kernel
  have h₀ : Agreed .dollars demoClient.strkey _ ⟨.new, World.opening 1000 5000⟩ := .genesis hg
  obtain ⟨tr₁, m₁, hr₁, h₁, hl₁⟩ := h₀.follow_trace setUpPool_follows.1 setUpPool_follows.2
  have hdepositor : ∀ {x : Write} {w : World}, (x.tx demoClient.strkey 2).requiredSigner = .depositor →
      x.Signed demoClient.strkey 2 w := fun hd hk => absurd (hd.symm.trans hk) (by decide)
  -- the consent
  have hx₂ : setUpWorld.Accepts [.vault [2] (.setPolicyConsent (.account 2))] := by decide +kernel
  obtain ⟨hs₂, h₂⟩ := h₁.taken hv hmin 2 .setPolicyConsent (hdepositor rfl) rfl hx₂ trivial
  have hmirrors : Mirrors demoClient.strkey _ joinedWorld := h₂.matched.prepared.mirrors
  -- the deposit
  have hx₃ : joinedWorld.Accepts [.vault [2] (.deposit (.account 2) .usd 1000)] := by decide +kernel
  obtain ⟨_, _, g₃, _⟩ := Vault.deposit_eq_ok.mp hx₃.exec
  have hc₃ : DepositChecks joinedWorld (.account 2) .usd 1000 := .of_guard h₂.tied.wf (by decide +kernel) g₃
  have hmint : 0 < Vault.proRata 1000 (joinedWorld.bucket .usd).totalShares (joinedWorld.navOf .usd)
      virtualOffset := by decide +kernel
  rw [← hmirrors.mint_eq] at hmint
  obtain ⟨hs₃, h₃⟩ := h₂.taken hv hmin 2 (.deposit .usd 1000) (hdepositor rfl)
    (MockVault.deposit_eq_ok.mpr ⟨by decide, hmint, rfl⟩) hx₃ hc₃
  -- the allocation
  have hx₄ : paidInWorld.Accepts [.vault [1] (.allocate (.contract 1) .usd 400)] := by decide +kernel
  obtain ⟨_, g₄, _⟩ := (Vault.allocate_eq_ok h₃.tied.wf).mp hx₄.exec
  have hc₄ : AllocateChecks .dollars paidInWorld (.contract 1) .usd 400 := .of_guard ⟨rfl, rfl⟩ g₄
  have hkeeper : paidInWorld.vault.keeper = .account 1 := by decide +kernel
  have hfree := (h₃.matched.prepared.status.frozen_eq (.contract 1)).trans g₄.supplies.unfrozen
  obtain ⟨hs₄, _⟩ := h₃.taken hv hmin 1 (.allocate (.contract 1) .usd 400) (fun _ => hkeeper)
    (MockVault.allocate_eq_ok.mpr ⟨hfree, by decide, rfl⟩) hx₄ hc₄
  have hrun := hr₁.append (.cons hs₂ (.cons hs₃ (.single hs₄)))
  refine ⟨_, _, hrun, guarded_mock_is_vault hg hv hmin hrun ?_⟩
  intro e he
  simp only [List.mem_append, List.mem_cons, List.not_mem_nil, or_false] at he
  rcases he with he | rfl | rfl | rfl
  · obtain ⟨a, ha⟩ := hl₁ e he; rw [ha]; trivial
  · intro _
    exact trivial
  · intro _
    exact hc₃
  · intro _
    exact hc₄

/-- **The mock takes a deposit from who never consented**; the vault refuses it. -/
theorem not_never_laxer_unconsented :
    ∃ w₀ tr s, Genesis w₀ ∧ w₀.vault.config.virtualOffset = virtualOffset ∧
      w₀.vault.config.minFirstDeposit ≤ 1 ∧ Run (GuardStep .dollars demoClient.strkey) ⟨.new, w₀⟩ tr s ∧
      ∃ e ∈ tr, e.label = .write 2 (.deposit .usd 100) ∧ ¬ NeverLaxer demoClient.strkey e.pre e.label := by
  have hg : Genesis (World.opening 1000 5000) := Genesis.opening (by decide)
  have h₀ : Agreed .dollars demoClient.strkey _ ⟨.new, World.opening 1000 5000⟩ := .genesis hg
  obtain ⟨tr₁, m₁, hr₁, h₁, _⟩ := h₀.follow_trace setUpPool_follows.1 setUpPool_follows.2
  have hrefused : ((Action.vault [2] (.deposit (.account 2) .usd 100)).exec setUpWorld).isOk = false := by
    decide +kernel
  have hmint : 0 < Vault.proRata 100 (setUpWorld.bucket .usd).totalShares (setUpWorld.navOf .usd)
      virtualOffset := by decide +kernel
  have hmirrors : Mirrors demoClient.strkey m₁.prepared setUpWorld := h₁.matched.prepared.mirrors
  rw [← hmirrors.mint_eq] at hmint
  -- the mock takes it
  have htakes : m₁.Accepts ((Write.deposit .usd 100).tx demoClient.strkey 2) ⟨.depositor, 2⟩ :=
    (MockVault.accepts_iff rfl h₁.matched.mirrors.live).mpr ⟨_, MockVault.deposit_eq_ok.mpr ⟨by decide, hmint, rfl⟩⟩
  obtain ⟨m₂, hacc⟩ := htakes
  have hs₂ : GuardStep .dollars demoClient.strkey ⟨m₁, setUpWorld⟩ (.write 2 (.deposit .usd 100)) ⟨m₂, setUpWorld⟩ :=
    .accepted 2 _ (fun hk => absurd hk (by decide)) hacc (Step.refused hrefused)
  refine ⟨_, _, _, hg, by decide +kernel, by decide +kernel, hr₁.append (.single hs₂), _,
    List.mem_append_right _ List.mem_cons_self, rfl, fun hlaxer => ?_⟩
  -- the vault does not
  obtain ⟨w', hx⟩ := hlaxer ⟨m₂, hacc⟩
  have hx : (Action.vault [2] (.deposit (.account 2) .usd 100)).exec setUpWorld = .ok w' := hx
  exact isOk_eq_false_iff.mp hrefused w' hx

end Backend
end SoroSense
