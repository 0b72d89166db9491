import SoroSense.Backend.SeedRun
import SoroSense.Flags

/-!
# `Properties.SeedRuns` — the seed script over any number of runs

The script is run again and again: a run may stop anywhere, because a request failed, a confirmation was lost or a
submission is still open, and meanwhile others use the chain. As long as each run begins with nothing open, the
script tops up and never piles up: what it has minted is at most one deposit more than what it has deposited, no run
deposits twice, and the account is funded, the trustline and the consent are made, once (`seed_runs_top_up`).

* `Sound` — what has taken effect shows in the chain, and what was minted and not yet deposited is still there;
* `readState_sound` — so the plan finds it;
* `Kept` — what every run keeps.
-/

namespace SoroSense

open Fallible Transition

/-! ## What others cannot take -/

/-- Whose authorisation an action carries. -/
def Action.signers : Action → List Nat
  | .vault signers _          => signers
  | .pool signers _ _         => signers
  | .transfer signers _ _ _ _ => signers
  | _                         => []

/-- A transfer that moves anything is signed by its sender. -/
theorem Step.transfer_signed {w w' : World} {ids : List Nat} {token u v : Address} {amount : Int}
    (hs : Step w (.transfer ids token u v amount) w') : w' = w ∨ Auth.signers ids u = true := by
  cases hs with
  | reverted _ => exact .inl rfl
  | done hx =>
      obtain ⟨_, hu, _⟩ := bind_eq_ok.mp hx
      exact .inr (requireAuth_eq_ok.mp hu)

/-- **An account that does not sign loses no tokens.** -/
theorem Step.tokens_unsigned {w w' : World} {a : Action} {id : Nat} (h : w.WF) (hs : Step w a w')
    (hid : id ∉ a.signers) (tok : Address) : w.tokens tok (.account id) ≤ w'.tokens tok (.account id) := by
  have hsigned : ∀ {ids : List Nat} {u : Address}, Auth.signers ids u = true → id ∉ ids → Address.account id ≠ u := by
    rintro ids u hu hno rfl
    exact hno (of_decide_eq_true hu)
  have he := hs.effect h
  cases he with
  | reverted _     => exact le_refl _
  | quiet _ q      => rw [q.tokens]
  | tokenSet       => exact le_refl _
  | poolConfigured => exact le_refl _
  | proposed       => exact le_refl _
  | deposited g =>
      rw [World.tokens_deposited_account, if_neg fun hc => hsigned g.signed hid hc.2, sub_zero]
  | @redeemed ids u c shares assets token g =>
      rw [World.tokens_redeemed_account h g]
      have hpaid := g.nonneg
      split <;> omega
  | @exited ids u exitId c e token g =>
      have hpulled : (w.pulled e.fromPool c (w.position e.fromPool)).tokens tok (.account id) =
          w.tokens tok (.account id) := World.tokens_pulled_account h g.pulls
      exact ((World.tokens_supplied_account (h.pulled g.pulls) g.supplies).trans hpulled).ge
  | allocated g    => exact (World.tokens_supplied_account h g.supplies).ge
  | deallocated g  => exact (World.tokens_pulled_account h g.pulls).ge
  | poolSupplied   => exact le_refl _
  | @poolWithdrawn ids p u amount s hp hu ha hle hl hs =>
      show _ ≤ w.tokens.move s.token p u amount tok (.account id)
      have hne : ¬ (tok = s.token ∧ Address.account id = p) := fun hc => h.account_ne_pool hp id hc.2.symm
      rw [Tokens.move_apply, if_neg hne]
      split <;> omega
  | poolRated      => exact le_refl _
  | @transferred ids token u v amount hu h₀ hle =>
      rcases hs.transfer_signed with hsame | hu
      · rw [hsame]
      · show _ ≤ w.tokens.move token u v amount tok (.account id)
        rw [Tokens.move_apply, if_neg fun hc => hsigned hu hid hc.2]
        split <;> omega
  | @minted token u amount h₀ =>
      show _ ≤ w.tokens.credit token u amount tok (.account id)
      rw [Tokens.credit_apply]
      split <;> omega
  | advanced       => exact le_refl _
  | deployed       => exact le_refl _

namespace Backend.DemoSeed

open Courier Session

variable {config : SeedConfig} {t t' : Testnet} {p q : Post Testnet SeedTx} {n n' : SeedNet} {l : List SeedTx}
  {a A : Int}

/-! ## The books of the script -/

/-- What a transaction mints to the depositor, and what it deposits. -/
def SeedTx.minted : SeedTx → Int
  | .mint amount => amount
  | _            => 0

def SeedTx.deposited : SeedTx → Int
  | .deposit amount => amount
  | _               => 0

/-- What these transactions mint and deposit altogether. -/
def minted (l : List SeedTx) : Int := (l.map SeedTx.minted).sum

def deposited (l : List SeedTx) : Int := (l.map SeedTx.deposited).sum

/-- The steps that set the account up. -/
def SeedTx.SetsUp (tx : SeedTx) : Prop := tx = .fund ∨ tx = .changeTrust ∨ tx = .consent

/-- The script submits amounts that are not negative. -/
def SeedTx.Fair (tx : SeedTx) : Prop := 0 ≤ tx.minted ∧ 0 ≤ tx.deposited

/-- What the depositor holds of the asset. -/
def SeedConfig.balance (config : SeedConfig) (t : Testnet) : Int := t.world.tokens config.sac config.depositor

/-- Others act without the depositor's signature. -/
def SeedConfig.Unsigned (config : SeedConfig) (a : Action) : Prop := config.account ∉ a.signers

theorem minted_append (l l' : List SeedTx) : minted (l ++ l') = minted l + minted l' := by
  unfold minted
  rw [List.map_append, List.sum_append]

theorem deposited_append (l l' : List SeedTx) : deposited (l ++ l') = deposited l + deposited l' := by
  unfold deposited
  rw [List.map_append, List.sum_append]

/-- Fewer transactions, smaller sums. -/
theorem sum_le_of_subperm {f : SeedTx → Int} {l l' : List SeedTx} (h : l.Subperm l') (hf : ∀ tx ∈ l', 0 ≤ f tx) :
    (l.map f).sum ≤ (l'.map f).sum := by
  obtain ⟨k, hperm, hsub⟩ := h
  rw [← (hperm.map f).sum_eq]
  apply (hsub.map f).sum_le_sum
  intro x hx
  obtain ⟨tx, htx, rfl⟩ := List.mem_map.mp hx
  exact hf tx htx

/-! ## What took effect shows -/

/-- **What has taken effect shows in the chain**, and what was minted and not yet deposited is still there. -/
structure Sound (config : SeedConfig) (p : Post Testnet SeedTx) : Prop where
  wf        : p.ledger.world.WF
  funded    : .fund ∈ p.landed → p.ledger.funded = true
  trusted   : .changeTrust ∈ p.landed → p.ledger.funded = true ∧ p.ledger.trusts = true
  consented : .consent ∈ p.landed → p.ledger.funded = true ∧ Vault.hasConsent p.ledger.world config.depositor = true
  trusting  : 0 < minted p.landed → p.ledger.funded = true ∧ p.ledger.trusts = true
  backed    : minted p.landed - deposited p.landed ≤ config.balance p.ledger
  fair      : ∀ tx ∈ p.landed, tx.Fair

/-- An action on the contracts leaves the account and its trustline alone. -/
theorem exec_eq_ok {x : Action} (h : config.exec t x = .ok t') :
    x.exec t.world = .ok t'.world ∧ t'.funded = t.funded ∧ t'.trusts = t.trusts := by
  unfold SeedConfig.exec at h
  cases hx : x.exec t.world with
  | error e =>
      rw [hx] at h
      exact absurd h (by simp)
  | ok w =>
      rw [hx] at h
      cases h
      exact ⟨rfl, rfl, rfl⟩

/-- **What a submission that takes effect does to the chain.** -/
structure Accepted (config : SeedConfig) (t : Testnet) (tx : SeedTx) (t' : Testnet) : Prop where
  wf        : t'.world.WF
  funded    : t.funded = true → t'.funded = true
  trusts    : t.trusts = true → t'.trusts = true
  consent   : Vault.hasConsent t.world config.depositor = true → Vault.hasConsent t'.world config.depositor = true
  funds     : tx = .fund → t'.funded = true
  trusting  : tx = .changeTrust → t'.funded = true ∧ t'.trusts = true
  consents  : tx = .consent → t'.funded = true ∧ Vault.hasConsent t'.world config.depositor = true
  mints     : 0 < tx.minted → t'.funded = true ∧ t'.trusts = true
  balance   : config.balance t + tx.minted - tx.deposited ≤ config.balance t'
  fair      : tx.Fair

/-- A call by which the chain moves on, with what it does to the depositor's balance. -/
theorem Accepted.of_exec {x : Action} {tx : SeedTx} (h : t.world.WF) (hx : config.exec t x = .ok t')
    (hfund : tx ≠ .fund) (htrust : tx ≠ .changeTrust)
    (hconsent : tx = .consent → t.funded = true ∧ Vault.hasConsent t'.world config.depositor = true)
    (hmint : 0 < tx.minted → t.funded = true ∧ t.trusts = true)
    (hbalance : config.balance t + tx.minted - tx.deposited ≤ config.balance t') (hfair : tx.Fair) :
    Accepted config t tx t' := by
  obtain ⟨hexec, hf, ht⟩ := exec_eq_ok hx
  have hs : Step t.world x t'.world := .done hexec
  exact
    { wf := hs.wf h, funded := fun hv => hf ▸ hv, trusts := fun hv => ht ▸ hv, consent := hs.consent h
      funds := fun he => absurd he hfund, trusting := fun he => absurd he htrust
      consents := fun he => ⟨hf ▸ (hconsent he).1, (hconsent he).2⟩
      mints := fun hpos => ⟨hf ▸ (hmint hpos).1, ht ▸ (hmint hpos).2⟩, balance := hbalance, fair := hfair }

theorem accepted_of_ok {tx : SeedTx} (h : t.world.WF) (hok : config.accept t tx = .ok t') :
    Accepted config t tx t' := by
  cases tx with
  | fund =>
      cases hok
      exact
        { wf := h, funded := fun _ => rfl, trusts := id, consent := id, funds := fun _ => rfl
          trusting := fun he => absurd he (by simp), consents := fun he => absurd he (by simp)
          mints := fun hpos => absurd hpos (by simp [SeedTx.minted])
          balance := by simp [SeedTx.minted, SeedTx.deposited, SeedConfig.balance]
          fair := by simp [SeedTx.Fair, SeedTx.minted, SeedTx.deposited] }
  | changeTrust =>
      obtain ⟨_, hf, hok⟩ := bind_eq_ok.mp hok
      have hf : t.funded = true := by simpa using failIf_eq_ok.mp hf
      cases hok
      exact
        { wf := h, funded := id, trusts := fun _ => rfl, consent := id
          funds := fun he => absurd he (by simp), trusting := fun _ => ⟨hf, rfl⟩
          consents := fun he => absurd he (by simp)
          mints := fun hpos => absurd hpos (by simp [SeedTx.minted])
          balance := by simp [SeedTx.minted, SeedTx.deposited, SeedConfig.balance]
          fair := by simp [SeedTx.Fair, SeedTx.minted, SeedTx.deposited] }
  | mint amount =>
      obtain ⟨_, hflags, hok⟩ := bind_eq_ok.mp hok
      have hflags : t.funded = true ∧ t.trusts = true := by simpa using failIf_eq_ok.mp hflags
      obtain ⟨hexec, -, -⟩ := exec_eq_ok hok
      obtain ⟨_, hpos, hw⟩ := bind_eq_ok.mp hexec
      have hnonneg : 0 ≤ amount := not_lt.mp (failIf_eq_ok.mp hpos)
      have hworld := Except.ok.inj hw
      refine .of_exec h hok (by simp) (by simp) (fun he => absurd he (by simp)) (fun _ => hflags) ?_
        ⟨hnonneg, le_refl _⟩
      unfold SeedConfig.balance
      rw [← hworld, World.tokens_setTokens, Tokens.credit_apply, if_pos ⟨rfl, rfl⟩]
      simp [SeedTx.minted, SeedTx.deposited]
  | consent =>
      obtain ⟨_, hf, hok⟩ := bind_eq_ok.mp hok
      have hf : t.funded = true := by simpa using failIf_eq_ok.mp hf
      obtain ⟨hexec, -, -⟩ := exec_eq_ok hok
      obtain ⟨_, hworld⟩ := Vault.setPolicyConsent_eq_ok.mp hexec
      refine .of_exec h hok (by simp) (by simp) (fun _ => ⟨hf, ?_⟩) (fun hpos => absurd hpos (by simp [SeedTx.minted]))
        ?_ (by simp [SeedTx.Fair, SeedTx.minted, SeedTx.deposited])
      · rw [← hworld]
        split
        · exact Function.update_self ..
        · rename_i hno
          exact Bool.not_eq_false _ ▸ hno
      · have hsame : t'.world.tokens = t.world.tokens := by
          rw [← hworld]
          split <;> rfl
        simp [SeedTx.minted, SeedTx.deposited, SeedConfig.balance, hsame]
  | deposit amount =>
      obtain ⟨_, hf, hok⟩ := bind_eq_ok.mp hok
      obtain ⟨hexec, -, -⟩ := exec_eq_ok hok
      obtain ⟨minted, token, g, hworld⟩ := Vault.deposit_eq_ok.mp hexec
      refine .of_exec h hok (by simp) (by simp) (fun he => absurd he (by simp))
        (fun hpos => absurd hpos (by simp [SeedTx.minted])) ?_ ⟨le_refl _, le_of_lt g.pos⟩
      unfold SeedConfig.balance
      rw [← hworld]
      show _ ≤ (t.world.deposited (.account config.account) config.currency amount minted token).tokens config.sac
        (.account config.account)
      rw [World.tokens_deposited_account]
      have hpos := g.pos
      simp only [SeedTx.minted, SeedTx.deposited, SeedConfig.depositor]
      split <;> omega

/-- **Taking effect keeps the books.** -/
theorem Sound.lands {tx : SeedTx} {ledger : Testnet} {pending : List SeedTx} (h : Sound config p)
    (hok : config.accept p.ledger tx = .ok ledger) :
    Sound config { ledger := ledger, pending := pending, landed := p.landed ++ [tx] } := by
  have ha := accepted_of_ok h.wf hok
  have hm : minted (p.landed ++ [tx]) = minted p.landed + tx.minted := by
    rw [minted_append]
    simp [minted]
  have hd : deposited (p.landed ++ [tx]) = deposited p.landed + tx.deposited := by
    rw [deposited_append]
    simp [deposited]
  have hmem : ∀ {x : SeedTx}, x ∈ p.landed ++ [tx] → x ∈ p.landed ∨ x = tx := by simp
  constructor
  · exact ha.wf
  · intro hx
    rcases hmem hx with hx | hx
    · exact ha.funded (h.funded hx)
    · exact ha.funds hx.symm
  · intro hx
    rcases hmem hx with hx | hx
    · exact ⟨ha.funded (h.trusted hx).1, ha.trusts (h.trusted hx).2⟩
    · exact ha.trusting hx.symm
  · intro hx
    rcases hmem hx with hx | hx
    · exact ⟨ha.funded (h.consented hx).1, ha.consent (h.consented hx).2⟩
    · exact ha.consents hx.symm
  · intro hpos
    replace hpos : 0 < minted p.landed + tx.minted := hm ▸ hpos
    by_cases hold : 0 < minted p.landed
    · exact ⟨ha.funded (h.trusting hold).1, ha.trusts (h.trusting hold).2⟩
    · exact ha.mints (by omega)
  · show minted (p.landed ++ [tx]) - deposited (p.landed ++ [tx]) ≤ _
    have hback := h.backed
    have hbal : config.balance p.ledger + tx.minted - tx.deposited ≤ config.balance ledger := ha.balance
    rw [hm, hd]
    show _ ≤ config.balance ledger
    omega
  · intro x hx
    rcases hmem hx with hx | hx
    · exact h.fair x hx
    · exact hx ▸ ha.fair

/-- **So does whatever else happens**, as long as others do not sign for the depositor. -/
theorem Sound.step {x : Option SeedTx} (h : Sound config p) (hs : Courier.Step config.rules config.Unsigned p x q) :
    Sound config q := by
  cases hs with
  | @other o ho =>
      show Sound config { p with ledger := config.rules.act p.ledger o }
      have hstep : SoroSense.Step p.ledger.world o (config.rules.act p.ledger o).world ∧
          (config.rules.act p.ledger o).funded = p.ledger.funded ∧
          (config.rules.act p.ledger o).trusts = p.ledger.trusts := by
        simp only [SeedConfig.rules]
        cases hx : o.exec p.ledger.world with
        | ok w    => exact ⟨.done hx, rfl, rfl⟩
        | error e => exact ⟨.reverted hx, rfl, rfl⟩
      obtain ⟨hstep, hf, ht⟩ := hstep
      exact
        { wf := hstep.wf h.wf, funded := fun hx => hf ▸ h.funded hx
          trusted := fun hx => ⟨hf ▸ (h.trusted hx).1, ht ▸ (h.trusted hx).2⟩
          consented := fun hx => ⟨hf ▸ (h.consented hx).1, hstep.consent h.wf (h.consented hx).2⟩
          trusting := fun hx => ⟨hf ▸ (h.trusting hx).1, ht ▸ (h.trusting hx).2⟩
          backed := h.backed.trans (hstep.tokens_unsigned h.wf ho config.sac), fair := h.fair }
  | settled _ hok => exact h.lands hok
  | expired       => exact { h with }
  | landed hok    => exact h.lands hok
  | waits         => exact { h with }
  | gone          => exact h

theorem Sound.run {tr : List (Event (Post Testnet SeedTx) (Option SeedTx))} (h : Sound config p)
    (hr : Run (Courier.Step config.rules config.Unsigned) p tr q) : Sound config q :=
  hr.invariant (fun _ _ _ hs hstep => hs.step hstep) h

/-! ## The plan finds it -/

/-- While nothing is open and nothing is submitted, what has landed stays, and keeps showing. -/
theorem still (h : Sound config n.post) (hp : n.post.pending = []) (ht : Trail config.rules config.Unsigned [] n n') :
    Sound config n'.post ∧ n'.post.pending = [] ∧ n'.post.landed = n.post.landed := by
  obtain ⟨tr, hr, hsub⟩ := ht.run
  obtain ⟨hpend, hland, _⟩ := run_still hr hp (List.sublist_nil.mp hsub)
  exact ⟨h.run hr, hpend, hland⟩

/-- What the plan is made from, against what has landed. -/
structure Planned (config : SeedConfig) (landed : List SeedTx) (state : SeedState) : Prop where
  funded    : .fund ∈ landed → state.funded = true
  trusted   : .changeTrust ∈ landed → state.hasTrustline = true
  consented : .consent ∈ landed → state.hasConsent = true
  backed    : minted landed - deposited landed ≤ state.assetBalance

/-- A read, and what may follow it. -/
structure Reads (config : SeedConfig) (n n' : SeedNet) : Prop where
  trail   : Trail config.rules config.Unsigned [] n n'
  sound   : Sound config n'.post
  settled : n'.post.pending = []
  same    : n'.post.landed = n.post.landed

theorem Reads.refl (hn : n.Fair config.Unsigned) (h : Sound config n.post) (hp : n.post.pending = []) :
    Reads config n n := ⟨.refl hn, h, hp, rfl⟩

theorem Reads.ask {α : Type} {read : Testnet → Except String α} {b : α} {m : SeedNet} (h : Reads config n m)
    (hrun : (Courier.ask config.rules read).run m = .ok b n') :
    Reads config n n' ∧ read n'.post.ledger = .ok b := by
  obtain ⟨htrail, hread⟩ := run_ask_eq_ok h.trail.fair hrun
  obtain ⟨hsound, hpend, hland⟩ := still h.sound h.settled htrail
  exact ⟨⟨h.trail.trans htrail, hsound, hpend, hland.trans h.same⟩, hread⟩

/-- A read that is made under a condition. -/
theorem Reads.askIf {α : Type} {c : Bool} {x : EStateM String SeedNet α} {none b : α} {m : SeedNet}
    (hrun : (askIf c x none).run m = .ok b n') :
    c = true ∧ x.run m = .ok b n' ∨ c = false ∧ b = none ∧ n' = m := by
  cases c with
  | true  => exact .inl ⟨rfl, hrun⟩
  | false =>
      obtain ⟨hb, hm⟩ := run_pure_eq_ok.mp hrun
      exact .inr ⟨rfl, hb.symm, hm.symm⟩

/-- **The plan is made from what has landed.** -/
theorem readState_sound {generated : Bool} {state : SeedState} (hn : n.Fair config.Unsigned)
    (h : Sound config n.post) (hp : n.post.pending = [])
    (hrun : (readState config generated).run n = .ok state n') :
    Reads config n n' ∧ Planned config n.post.landed state := by
  -- whether the account exists
  obtain ⟨funded, n₁, hrun₁, hrun⟩ := run_bind_eq_ok.mp hrun
  obtain ⟨h₁, hread₁⟩ := (Reads.refl hn h hp).ask hrun₁
  have hfunded : .fund ∈ n.post.landed ∨ .changeTrust ∈ n.post.landed ∨ .consent ∈ n.post.landed ∨
      0 < minted n.post.landed → funded = true := by
    intro hx
    rw [← Except.ok.inj hread₁]
    rw [← h₁.same] at hx
    rcases hx with hx | hx | hx | hx
    · exact h₁.sound.funded hx
    · exact (h₁.sound.trusted hx).1
    · exact (h₁.sound.consented hx).1
    · exact (h₁.sound.trusting hx).1
  -- whether it trusts the asset
  obtain ⟨trusts, n₂, hrun₂, hrun⟩ := run_bind_eq_ok.mp hrun
  have h₂ : Reads config n n₂ ∧
      (.changeTrust ∈ n.post.landed ∨ 0 < minted n.post.landed → trusts = true) := by
    rcases Reads.askIf hrun₂ with ⟨_, hrun₂⟩ | ⟨hno, rfl, rfl⟩
    · obtain ⟨h₂, hread₂⟩ := h₁.ask hrun₂
      refine ⟨h₂, fun hx => ?_⟩
      rw [← Except.ok.inj hread₂, Bool.and_eq_true]
      rw [← h₂.same] at hx
      exact hx.elim h₂.sound.trusted h₂.sound.trusting
    · refine ⟨h₁, fun hx => ?_⟩
      rw [hfunded (hx.elim (fun hx => .inr (.inl hx)) fun hx => .inr (.inr (.inr hx)))] at hno
      exact absurd hno (by simp)
  obtain ⟨h₂, htrusts⟩ := h₂
  -- what it holds
  obtain ⟨balance, n₃, hrun₃, hrun⟩ := run_bind_eq_ok.mp hrun
  have hdeposits : 0 ≤ deposited n.post.landed := by
    apply List.sum_nonneg
    intro x hx
    obtain ⟨tx, htx, rfl⟩ := List.mem_map.mp hx
    exact (h.fair tx htx).2
  have h₃ : Reads config n n₃ ∧ minted n.post.landed - deposited n.post.landed ≤ balance := by
    rcases Reads.askIf hrun₃ with ⟨_, hrun₃⟩ | ⟨hno, rfl, rfl⟩
    · obtain ⟨h₃, hread₃⟩ := h₂.ask hrun₃
      refine ⟨h₃, ?_⟩
      have hback := h₃.sound.backed
      have htrusting := h₃.sound.trusting
      rw [h₃.same] at hback htrusting
      have hnonneg : 0 ≤ config.balance n₃.post.ledger := h₃.sound.wf.tokens_nonneg _ _
      by_cases hft : (n₃.post.ledger.funded && n₃.post.ledger.trusts) = true
      · rw [if_pos hft] at hread₃
        have htext := toBaseUnits_horizonBalance (config.balance n₃.post.ledger).toNat
        rw [Int.toNat_of_nonneg hnonneg] at htext
        unfold SeedConfig.balance at htext hback
        rw [htext] at hread₃
        rw [← Except.ok.inj hread₃]
        exact hback
      · rw [if_neg hft] at hread₃
        rw [← Except.ok.inj hread₃]
        have hnone : ¬ 0 < minted n.post.landed := fun hpos =>
          hft ((Bool.and_eq_true _ _).mpr (htrusting hpos))
        omega
    · refine ⟨h₂, ?_⟩
      have hnone : ¬ 0 < minted n.post.landed := fun hpos => by
        rw [htrusts (.inr hpos)] at hno
        exact absurd hno (by simp)
      omega
  obtain ⟨h₃, hbacked⟩ := h₃
  -- and whether it has consented
  obtain ⟨consent, n₄, hrun₄, hrun⟩ := run_bind_eq_ok.mp hrun
  have h₄ : Reads config n n₄ ∧ (.consent ∈ n.post.landed → consent = true) := by
    rcases Reads.askIf hrun₄ with ⟨_, hrun₄⟩ | ⟨hno, rfl, rfl⟩
    · obtain ⟨h₄, hread₄⟩ := h₃.ask hrun₄
      refine ⟨h₄, fun hx => ?_⟩
      rw [← Except.ok.inj hread₄]
      rw [← h₄.same] at hx
      exact (h₄.sound.consented hx).2
    · refine ⟨h₃, fun hx => ?_⟩
      rw [hfunded (.inr (.inr (.inl hx)))] at hno
      exact absurd hno (by simp)
  obtain ⟨h₄, hconsent⟩ := h₄
  obtain ⟨hstate, hn'⟩ := run_pure_eq_ok.mp hrun
  subst hstate hn'
  exact ⟨h₄, fun hx => hfunded (.inl hx), fun hx => htrusts (.inl hx), hconsent, hbacked⟩

/-! ## What a run submits -/

/-- What a step of the plan submits. -/
def SeedStep.tx (amount : Int) (state : SeedState) : SeedStep → Option SeedTx
  | .generateKey => none
  | .fund        => some .fund
  | .trustline   => some .changeTrust
  | .mint        => some (.mint (amount - state.assetBalance))
  | .consent     => some .consent
  | .deposit     => some (.deposit amount)

variable {φ : Action → Prop} {amount : Int} {state : SeedState} {steps : List SeedStep}

theorem sends_readVault {α : Type} (read : World → Except Panic α) :
    Sends config.rules φ [] (readVault config read) := sends_ask _

theorem sends_readHolding : Sends config.rules φ [] (readHolding config) :=
  (sends_readVault _).after_read fun _ => (sends_readVault _).after_read fun _ => sends_pure _

theorem sends_askIf {α : Type} {read : EStateM String SeedNet α} (c : Bool) (otherwise : α)
    (h : Sends config.rules φ [] read) : Sends config.rules φ [] (askIf c read otherwise) := by
  cases c with
  | true  => exact h
  | false => exact sends_pure _

theorem sends_readState {generated : Bool} : Sends config.rules φ [] (readState config generated) :=
  (sends_ask _).after_read fun _ => (sends_askIf _ _ (sends_ask _)).after_read fun _ =>
    (sends_askIf _ _ (sends_ask _)).after_read fun _ => (sends_askIf _ _ (sends_readVault _)).after_read fun _ =>
      sends_pure _

theorem sends_awaitFunded (k : ℕ) : Sends config.rules φ [] (awaitFunded config k) := by
  induction k with
  | zero => exact sends_throw _
  | succ k ih =>
      refine (sends_ask _).after_read fun funded => ?_
      cases funded with
      | true  => exact sends_pure _
      | false => exact ih

theorem sends_fund : Sends config.rules φ [.fund] (fund config) := by
  refine (sends_send SeedTx.fund).before_read fun sent => ?_
  split
  · exact sends_throw _
  · exact sends_awaitFunded 15

theorem sends_addTrustline : Sends config.rules φ [.changeTrust] (addTrustline config) := by
  refine (sends_send SeedTx.changeTrust).before_read fun sent => ?_
  split
  · exact sends_pure _
  · exact sends_throw _

theorem sends_mint : Sends config.rules φ [.mint a] (mint config a) := by
  refine (sends_send (SeedTx.mint a)).before_read fun sent => ?_
  split
  · exact sends_throw _
  · exact sends_pure _

theorem sends_submit (step : String) (tx : SeedTx) : Sends config.rules φ [tx] (submit config step tx) := by
  refine (sends_send tx).before_read fun sent => ?_
  split
  · exact sends_pure _
  · exact sends_throw _

theorem sends_runDeposit {hashes : SeedHashes} :
    Sends config.rules φ [.deposit amount] (runDeposit config amount steps hashes) := by
  refine sends_readHolding.after_read fun before => ?_
  refine (sends_submit "deposit" (.deposit amount)).before_read fun hash => ?_
  refine sends_readHolding.after_read fun after => (sends_readVault _).after_read fun price => ?_
  split
  · exact sends_throw _
  · split
    · exact sends_throw _
    · exact sends_pure _

/-- **A run submits what its plan says**, in its order, up to where it stops. -/
theorem sends_execute {hashes : SeedHashes} (plan : List SeedStep) :
    Sends config.rules φ (plan.filterMap (SeedStep.tx amount state))
      (execute config amount state steps plan hashes) := by
  induction plan generalizing hashes with
  | nil => exact sends_throw _
  | cons step plan ih =>
      cases step with
      | generateKey => exact ih
      | fund        => exact sends_fund.bind fun _ => ih
      | trustline   => exact sends_addTrustline.bind fun _ => ih
      | mint        => exact sends_mint.bind fun _ => ih
      | consent     => exact (sends_submit _ _).bind fun _ => ih
      | deposit     => exact sends_runDeposit.mono (List.sublist_append_left _ _)

/-- What a plan submits. -/
theorem planned_eq : (planSteps state amount).filterMap (SeedStep.tx amount state) =
    (if state.funded then [] else [.fund]) ++ (if state.hasTrustline then [] else [.changeTrust]) ++
      (if state.assetBalance < amount then [.mint (amount - state.assetBalance)] else []) ++
      (if state.hasConsent then [] else [.consent]) ++ [.deposit amount] := by
  obtain ⟨hasSecret, funded, hasTrustline, balance, hasConsent⟩ := state
  unfold planSteps
  simp only [List.filterMap_append]
  cases hasSecret <;> cases funded <;> cases hasTrustline <;> cases hasConsent <;>
    by_cases hb : balance < amount <;> simp [hb, SeedStep.tx]

theorem minted_planned : minted ((planSteps state amount).filterMap (SeedStep.tx amount state)) =
    max 0 (amount - state.assetBalance) := by
  rw [planned_eq]
  simp only [minted_append]
  have hzero : ∀ (b : Bool) (tx : SeedTx), tx.minted = 0 → minted (if b = true then [] else [tx]) = 0 := by
    intro b tx htx
    cases b <;> simp [minted, htx]
  rw [hzero _ _ rfl, hzero _ _ rfl, hzero _ _ rfl]
  split
  · rename_i hlt
    rw [max_eq_right (by omega)]
    simp [minted, SeedTx.minted]
  · rename_i hge
    rw [max_eq_left (by omega)]
    simp [minted, SeedTx.minted]

theorem deposited_planned : deposited ((planSteps state amount).filterMap (SeedStep.tx amount state)) = amount := by
  rw [planned_eq]
  simp only [deposited_append]
  have hzero : ∀ (b : Prop) [Decidable b] (tx : SeedTx), tx.deposited = 0 →
      deposited (if b then [] else [tx]) = 0 ∧ deposited (if b then [tx] else []) = 0 := by
    intro b _ tx htx
    by_cases hb : b <;> simp [hb, deposited, htx]
  rw [(hzero _ _ rfl).1, (hzero _ _ rfl).1, (hzero _ _ rfl).2, (hzero _ _ rfl).1]
  simp [deposited, SeedTx.deposited]

theorem fair_planned (hpos : 0 < amount) :
    ∀ tx ∈ (planSteps state amount).filterMap (SeedStep.tx amount state), tx.Fair := by
  intro tx htx
  obtain ⟨step, hstep, heq⟩ := List.mem_filterMap.mp htx
  cases step with
  | mint =>
      obtain rfl := Option.some.inj heq
      have hlt : state.assetBalance < amount := by
        by_contra hno
        unfold planSteps at hstep
        rw [if_neg hno] at hstep
        revert hstep
        cases state.hasSecret <;> cases state.funded <;> cases state.hasTrustline <;> cases state.hasConsent <;> simp
      exact ⟨show 0 ≤ amount - state.assetBalance by omega, le_refl _⟩
  | deposit =>
      obtain rfl := Option.some.inj heq
      exact ⟨le_refl _, le_of_lt hpos⟩
  | generateKey => exact absurd heq (by simp [SeedStep.tx])
  | _ =>
      obtain rfl := Option.some.inj heq
      exact ⟨le_refl _, le_refl _⟩

/-- Whether the plan takes a step for done. -/
def SeedState.done (state : SeedState) : SeedTx → Bool
  | .fund        => state.funded
  | .changeTrust => state.hasTrustline
  | .consent     => state.hasConsent
  | _            => false

theorem Planned.done {landed : List SeedTx} {tx : SeedTx} (h : Planned config landed state) (hset : tx.SetsUp)
    (hx : tx ∈ landed) : state.done tx = true := by
  rcases hset with rfl | rfl | rfl
  · exact h.funded hx
  · exact h.trusted hx
  · exact h.consented hx

theorem count_planned {tx : SeedTx} (hset : tx.SetsUp) :
    ((planSteps state amount).filterMap (SeedStep.tx amount state)).count tx = if state.done tx then 0 else 1 := by
  obtain ⟨hasSecret, funded, hasTrustline, balance, hasConsent⟩ := state
  rw [planned_eq]
  by_cases hb : balance < amount <;> rcases hset with rfl | rfl | rfl <;>
    cases funded <;> cases hasTrustline <;> cases hasConsent <;> simp [hb, SeedState.done]

/-- **A plan sets up what has not landed**, and each thing once. -/
theorem once_planned {landed : List SeedTx} {tx : SeedTx} (h : Planned config landed state) (hset : tx.SetsUp)
    (honce : landed.count tx ≤ 1) :
    (landed ++ (planSteps state amount).filterMap (SeedStep.tx amount state)).count tx ≤ 1 := by
  rw [List.count_append, count_planned hset]
  by_cases hx : tx ∈ landed
  · rw [if_pos (h.done hset hx)]
    exact honce
  · rw [List.count_eq_zero_of_not_mem hx]
    split <;> omega

/-! ## Run after run -/

/-- **What every run keeps.** -/
structure Kept (config : SeedConfig) (A : Int) (p : Post Testnet SeedTx) : Prop where
  sound  : Sound config p
  fair   : ∀ tx ∈ p.pending, tx.Fair
  once   : ∀ tx : SeedTx, tx.SetsUp → (p.landed ++ p.pending).count tx ≤ 1
  topped : minted (p.landed ++ p.pending) ≤ deposited p.landed + A

theorem deposited_nonneg {l : List SeedTx} (h : ∀ tx ∈ l, tx.Fair) : 0 ≤ deposited l := by
  apply List.sum_nonneg
  intro x hx
  obtain ⟨tx, htx, rfl⟩ := List.mem_map.mp hx
  exact (h tx htx).2

/-- What a run that submits some of `l` keeps. -/
theorem kept_of_run {tr : List (Event (Post Testnet SeedTx) (Option SeedTx))} (h : Sound config p)
    (hr : Run (Courier.Step config.rules config.Unsigned) p tr q) (hsub : (submitted tr).Sublist l)
    (hfair : ∀ tx ∈ p.pending ++ l, tx.Fair)
    (honce : ∀ tx : SeedTx, tx.SetsUp → (p.landed ++ p.pending ++ l).count tx ≤ 1)
    (htop : minted (p.landed ++ p.pending ++ l) ≤ deposited p.landed + A) :
    Kept config A q ∧ deposited (q.landed ++ q.pending) ≤ deposited (p.landed ++ p.pending ++ l) := by
  have hq : (q.landed ++ q.pending).Subperm (p.landed ++ p.pending ++ l) :=
    (run_subperm hr).trans ((List.Sublist.refl _).append hsub).subperm
  have hall : ∀ tx ∈ p.landed ++ p.pending ++ l, tx.Fair := by
    intro tx htx
    rw [List.append_assoc] at htx
    exact (List.mem_append.mp htx).elim (h.fair tx) (hfair tx)
  obtain ⟨more, hmore⟩ := run_prefix hr
  have hsound := h.run hr
  have hgrown : deposited p.landed ≤ deposited q.landed := by
    have hnew : 0 ≤ deposited more :=
      deposited_nonneg fun tx htx => hsound.fair tx (hmore ▸ List.mem_append_right p.landed htx)
    rw [← hmore, deposited_append]
    omega
  refine ⟨⟨hsound, ?_, ?_, ?_⟩, sum_le_of_subperm hq fun tx htx => (hall tx htx).2⟩
  · exact fun tx htx => hall tx (hq.subset (List.mem_append_right _ htx))
  · exact fun tx htx => (hq.count_le tx).trans (honce tx htx)
  · have hm : minted (q.landed ++ q.pending) ≤ minted (p.landed ++ p.pending ++ l) :=
      sum_le_of_subperm hq fun tx htx => (hall tx htx).1
    omega

/-- What happens around the script: a run of it, or something in between. -/
inductive SeedDeed where
  | run (generated : Bool) (amount : Int) (weather : ℕ → Weather Action)
  | between (d : Deed Action)

/-- What a deed sets out to deposit. -/
def SeedDeed.goal : SeedDeed → Int
  | .run _ amount _ => amount
  | .between _      => 0

/-- A run begins with nothing open, and its amount is one that the script accepts. -/
inductive Scripted (config : SeedConfig) (p : Post Testnet SeedTx) : SeedDeed → Post Testnet SeedTx → Prop where
  | ran {generated : Bool} {amount : Int} {weather : ℕ → Weather Action} (hpos : 0 < amount) (hopen : p.pending = [])
      (hfair : Net.Fair config.Unsigned (⟨p, weather⟩ : SeedNet)) :
      Scripted config p (.run generated amount weather) (after (runSeed config generated amount) ⟨p, weather⟩).post
  | between {d : Deed Action} (h : ∀ o, d = .other o → config.Unsigned o) :
      Scripted config p (.between d) (p.deed config.rules d)

/-- **One run keeps it, and so does what happens in between**; it deposits its amount at most. -/
theorem Kept.step {d : SeedDeed} (h : Kept config A p) (hs : Scripted config p d q) (hA : d.goal ≤ A) :
    Kept config A q ∧ deposited (q.landed ++ q.pending) ≤ deposited (p.landed ++ p.pending) + d.goal := by
  cases hs with
  | between hother =>
      have hrun : ∃ tr, Run (Courier.Step config.rules config.Unsigned) p tr (p.deed config.rules _) ∧ submitted tr = [] :=
        run_meanwhile (l := [_]) fun o ho => hother o (List.mem_singleton.mp ho).symm
      obtain ⟨tr, hr, hsub⟩ := hrun
      have hkept := kept_of_run (l := []) (A := A) h.sound hr (hsub ▸ List.Sublist.refl _)
        (by simpa using h.fair) (by simpa using h.once) (by simpa using h.topped)
      simpa [SeedDeed.goal] using hkept
  | @ran generated amount weather hpos hopen hfair =>
      show Kept config A (after (runSeed config generated amount) ⟨p, weather⟩).post ∧ _
      have htopped := h.topped
      have honce := h.once
      rw [hopen, List.append_nil] at htopped honce
      have hwhole : ∃ l, Trail config.rules config.Unsigned l ⟨p, weather⟩
            (after (runSeed config generated amount) ⟨p, weather⟩) ∧ (∀ tx ∈ l, tx.Fair) ∧
          (∀ tx : SeedTx, tx.SetsUp → (p.landed ++ l).count tx ≤ 1) ∧
          minted (p.landed ++ l) ≤ deposited p.landed + A ∧ deposited l ≤ amount := by
        cases hrun : (readState config generated).run ⟨p, weather⟩ with
        | error e n₁ =>
            -- the run stops before it has a plan
            have hsends : Sends config.rules config.Unsigned [] (readState config generated) := sends_readState
            have htrail := hsends ⟨p, weather⟩ hfair
            rw [after_of_error hrun] at htrail
            refine ⟨[], ?_, by simp, by simpa using honce, by simpa using htopped, le_of_lt hpos⟩
            unfold runSeed
            rw [after_bind_of_error hrun]
            exact htrail
        | ok state n₁ =>
            obtain ⟨hreads, hplan⟩ := readState_sound hfair h.sound hopen hrun
            refine ⟨_, ?_, fair_planned hpos, fun tx hset => once_planned hplan hset (honce tx hset), ?_,
              deposited_planned.le⟩
            · unfold runSeed
              rw [after_bind_of_ok hrun]
              exact hreads.trail.trans (sends_execute _ n₁ hreads.trail.fair)
            · -- the mint fills up what is there to `amount`
              have hback := hplan.backed
              have hgoal : amount ≤ A := hA
              rw [minted_append, minted_planned]
              show minted p.landed + _ ≤ _
              simp only at hback htopped
              omega
      obtain ⟨l, htrail, hfairl, honcel, htopl, hdep⟩ := hwhole
      obtain ⟨tr, hr, hsub⟩ := htrail.run
      have hkept := kept_of_run (A := A) h.sound hr hsub (by simpa [hopen] using hfairl) (by simpa [hopen] using honcel)
        (by simpa [hopen] using htopl)
      refine ⟨hkept.1, hkept.2.trans ?_⟩
      rw [deposited_append]
      show _ ≤ _ + amount
      omega

theorem Kept.fresh (h : t.world.WF) (hA : 0 ≤ A) : Kept config A ⟨t, [], []⟩ where
  sound :=
    { wf := h, funded := by simp, trusted := by simp, consented := by simp, trusting := by simp [minted]
      backed := by simpa [minted, deposited, SeedConfig.balance] using h.tokens_nonneg config.sac config.depositor, fair := by simp }
  fair   := by simp
  once   := by simp
  topped := by simpa [minted, deposited] using hA

/-- **The script tops up and never piles up.** From any reachable chain, however often the script is run, wherever a
    run stops, whatever the network loses or delays and whatever others do meanwhile: if each run begins with nothing
    open, what has been minted is at most `A` more than what has been deposited, where no run deposits more than `A`;
    no run deposits twice; and the account is funded, the trustline made and the consent given once. -/
theorem seed_runs_top_up {tr : List (Event (Post Testnet SeedTx) SeedDeed)} (hA : 0 ≤ A)
    (hstart : Reachable Genesis SoroSense.Step t.world) (hr : Run (Scripted config) ⟨t, [], []⟩ tr q)
    (hgoal : ∀ e ∈ tr, e.label.goal ≤ A) :
    minted q.landed ≤ deposited q.landed + A ∧ deposited q.landed ≤ (tr.map fun e => e.label.goal).sum ∧
      ∀ tx : SeedTx, tx.SetsUp → q.landed.count tx ≤ 1 := by
  have hfirst : Kept config A ⟨t, [], []⟩ := .fresh (reachable_wf hstart) hA
  obtain ⟨hlast, hdeposits⟩ := hr.invariant_under (I := Kept config A) (Q := fun e => e.label.goal ≤ A)
    (P := fun e => deposited (e.post.landed ++ e.post.pending) ≤
      deposited (e.pre.landed ++ e.pre.pending) + e.label.goal)
    (fun s d t hs hstep hd => (hs.step hstep hd).symm) hfirst hgoal
  have hsum := hr.sum_le (fun p => deposited (p.landed ++ p.pending)) (fun e => e.label.goal) hdeposits
  have hopen : 0 ≤ minted q.pending ∧ 0 ≤ deposited q.pending := by
    refine ⟨List.sum_nonneg fun x hx => ?_, deposited_nonneg hlast.fair⟩
    obtain ⟨tx, htx, rfl⟩ := List.mem_map.mp hx
    exact (hlast.fair tx htx).1
  have htop := hlast.topped
  rw [minted_append] at htop
  rw [deposited_append, deposited_append] at hsum
  refine ⟨by omega, ?_, fun tx hset => ?_⟩
  · simp only [deposited, List.map_nil, List.sum_nil] at hsum hopen ⊢
    omega
  · have honce := hlast.once tx hset
    rw [List.count_append] at honce
    omega

/-! ## A crash in between -/

/-- Account 2 seeds the dollar bucket of a fresh vault. -/
def seedConfig : SeedConfig where
  currency  := .usd
  sac       := .contract 100
  assetCode := "USDC"
  account   := 2
  publicKey := "G2"
  refusal _ := "simulation failed"
  notFound  := "Not Found"
  badStatus status := "HTTP " ++ status

/-- A vault over the dollar token, and nobody holds any. -/
def emptyHanded : Testnet where
  world  := (World.opening 1000 0).after (setUpPool .usd (.contract 100) 1 1000)
  funded := false
  trusts := false

/-- Every request fares well, but the answer to the `k`-th is lost. -/
def lostAt (k : ℕ) : ℕ → Weather Action := fun i => ⟨[], if i = k then .lost "timeout" else .confirmed "ok"⟩

/-- The first run mints, but never hears of it. -/
def crashedSeed : Post Testnet SeedTx := (after (runSeed seedConfig true 100) ⟨⟨emptyHanded, [], []⟩, lostAt 4⟩).post

/-- The second finds the mint, and deposits. -/
def resumedSeed : Post Testnet SeedTx := (after (runSeed seedConfig false 100) ⟨crashedSeed, lostAt 100⟩).post

theorem fair_lostAt (k : ℕ) (p : Post Testnet SeedTx) : Net.Fair seedConfig.Unsigned (⟨p, lostAt k⟩ : SeedNet) :=
  fun _ _ ho => absurd ho List.not_mem_nil

theorem run_crashed : Run (Scripted seedConfig) ⟨emptyHanded, [], []⟩
    [⟨⟨emptyHanded, [], []⟩, .run true 100 (lostAt 4), crashedSeed⟩,
      ⟨crashedSeed, .run false 100 (lostAt 100), resumedSeed⟩] resumedSeed :=
  .cons (.ran (by decide) rfl (fair_lostAt 4 _))
    (.single (.ran (by decide) (by decide +kernel) (fair_lostAt 100 _)))

/-- The mint whose answer was lost is not repeated. -/
theorem seed_runs_top_up_crashed :
    crashedSeed.landed = [.fund, .changeTrust, .mint 100] ∧
      resumedSeed.landed = [.fund, .changeTrust, .mint 100, .consent, .deposit 100] ∧
      minted resumedSeed.landed ≤ deposited resumedSeed.landed + 100 := by
  have hstart : Reachable Genesis SoroSense.Step emptyHanded.world := (Genesis.opening (by decide)).reachable _
  have hsafe := seed_runs_top_up (A := 100) (by decide) hstart run_crashed (by simp [SeedDeed.goal])
  exact ⟨by decide +kernel, by decide +kernel, hsafe.1⟩

end Backend.DemoSeed

end SoroSense
