import SoroSense.Properties.SeedRuns
import SoroSense.Properties.Quotes
import SoroSense.Fund

/-!
# `Properties.SeedReadback` — when the seed script believes its deposit

After its deposit the script reads the depositor's value back and wants it to have grown by exactly the amount,
which its comment explains by a share price that is the scale. In fair weather the deposit lands whatever the script
then says; a run whose amount buys whole shares reports, and a depositor's first run reports only then
(`seed_reads_back_iff`).

* `World.valueOf_deposited` — what a deposit adds to the depositor's value;
* `runDeposit_eq_ok` — the deposit step in fair weather;
* `Reaches` / `reaches_setUp` — the steps before it.
-/

namespace SoroSense

open Fallible Transition

/-! ## What a deposit is worth -/

section

variable {w : World} {u token : Address} {c : Currency} {ids : List Nat} {amount minted v v' : Int}

/-- The vault issues what the quote does. -/
theorem World.quote_issued (h : w.WF) (hv : 0 < w.vault.config.virtualOffset) (ha : 0 ≤ amount)
    (hm : Vault.mintShares w c amount w.vault.config.virtualOffset = .ok minted) :
    (World.quote h hv c).issued amount = minted := by
  obtain ⟨_, _, rfl⟩ := (Vault.mintShares_eq_ok h).mp hm
  have hnonneg : 0 ≤ amount * (World.quote h hv c).units :=
    mul_nonneg ha (le_of_lt (World.quote h hv c).units_pos)
  exact (Int.tdiv_eq_ediv_of_nonneg hnonneg).symm

/-- **A deposit that buys whole shares grows the depositor's value by its amount**; a depositor's first one does
    only then. -/
theorem World.valueOf_deposited (h : w.WF) (hv : 0 < w.vault.config.virtualOffset)
    (g : Vault.DepositGuard w (Auth.signers ids) u c amount minted token) (hu : ∃ id, u = .account id)
    (hval : Vault.valueOf w u c = .ok v)
    (hval' : Vault.valueOf (w.deposited u c amount minted token) u c = .ok v') :
    ((World.quote h hv c).value ∣ amount * (World.quote h hv c).units → v' = v + amount) ∧
      (Vault.balanceOf w u c = 0 →
        (v' = v + amount ↔ (World.quote h hv c).value ∣ amount * (World.quote h hv c).units)) := by
  have ha : 0 ≤ amount := le_of_lt g.pos
  have hissued := World.quote_issued h hv ha g.mints
  have h' : (w.deposited u c amount minted token).WF := h.deposited g hu
  have hs : 0 ≤ Vault.balanceOf w u c := (h.bucket_wf c).shares_nonneg u
  -- the quote after the deposit is the grown one
  have hbucket : (w.deposited u c amount minted token).bucket c = (w.bucket c).credited u amount minted := by
    rw [World.bucket_deposited, if_pos rfl]
  have hshares : Vault.balanceOf (w.deposited u c amount minted token) u c = Vault.balanceOf w u c + minted := by
    unfold Vault.balanceOf
    rw [hbucket]
    exact Function.update_self ..
  have hvalue : (World.quote h' hv c).value = ((World.quote h hv c).grown amount ha).value := by
    show (w.deposited u c amount minted token).navOf c + _ = w.navOf c + _ + amount
    rw [World.navOf_deposited, if_pos rfl]
    exact add_right_comm _ _ _
  have hunits : (World.quote h' hv c).units = ((World.quote h hv c).grown amount ha).units := by
    show ((w.deposited u c amount minted token).bucket c).totalShares + _ = (w.bucket c).totalShares + _ + _
    rw [hbucket, hissued]
    exact add_right_comm _ _ _
  have hbefore : (World.quote h hv c).worth (Vault.balanceOf w u c) = v := World.quote_worth h hv hs hval
  have hafter : ((World.quote h hv c).grown amount ha).worth
      (Vault.balanceOf w u c + (World.quote h hv c).issued amount) = v' := by
    have hs' : 0 ≤ Vault.balanceOf (w.deposited u c amount minted token) u c := (h'.bucket_wf c).shares_nonneg u
    have hworth := World.quote_worth h' hv hs' hval'
    unfold Quote.worth at hworth ⊢
    rw [← hvalue, ← hunits, hissued, ← hshares]
    exact hworth
  constructor
  · intro hdvd
    rw [← hafter, ← hbefore]
    exact Quote.worth_grown_of_dvd ha hdvd
  · intro hnone
    have hv₀ : v = 0 := by
      rw [← hbefore, hnone]
      unfold Quote.worth
      rw [zero_mul, Int.zero_ediv]
    rw [hnone, zero_add] at hafter
    rw [← Quote.worth_issued_iff ha, hafter, hv₀, zero_add]

end

namespace Backend.DemoSeed

open Courier Session

variable {config : SeedConfig} {t t' : Testnet} {n n' : SeedNet} {amount : Int} {steps : List SeedStep}
  {hashes : SeedHashes}

/-! ## The chain before the deposit -/

/-- The balance `readState` finds. -/
def SeedConfig.held (config : SeedConfig) (t : Testnet) : Int :=
  if t.funded && t.trusts then config.balance t else 0

/-- The contracts once the depositor has consented. -/
def SeedConfig.consenting (config : SeedConfig) (w : World) : World :=
  if w.vault.consent config.depositor = false then
    World.publish
      { w with vault := { w.vault with consent := Function.update w.vault.consent config.depositor true } }
      (.consentSet config.depositor)
  else w

/-- The contracts after the steps before the deposit: what was missing minted, the consent given. -/
def SeedConfig.prepared (config : SeedConfig) (t : Testnet) (amount : Int) : World :=
  config.consenting (if config.held t < amount then
      t.world.setTokens (t.world.tokens.credit config.sac config.depositor (amount - config.held t))
    else t.world)

/-- The vault takes the deposit, and answers the reads around it. -/
def SeedConfig.Answers (config : SeedConfig) (amount : Int) (w : World) : Prop :=
  ∃ w', Vault.deposit (Auth.signers [config.account]) w config.depositor config.currency amount = .ok w' ∧
    (Vault.valueOf w config.depositor config.currency).isOk = true ∧
    (Vault.valueOf w' config.depositor config.currency).isOk = true ∧
    (Vault.sharePrice w' config.currency).isOk = true

/-- The amount buys whole shares. -/
def SeedConfig.Whole (config : SeedConfig) (amount : Int) (w : World) : Prop :=
  w.navOf config.currency + w.vault.config.virtualOffset ∣
    amount * ((w.bucket config.currency).totalShares + w.vault.config.virtualOffset)

/-! ## The deposit -/

theorem run_readVault_eq_ok {α : Type} (h : n.Calm) {read : World → Except Panic α} {b : α} :
    (readVault config read).run n = .ok b n' ↔ read n.post.ledger.world = .ok b ∧ n' = n.next n.post := by
  unfold readVault
  rw [run_ask_calm_eq_ok h]
  constructor
  · rintro ⟨hr, hn⟩
    refine ⟨?_, hn⟩
    cases hx : read n.post.ledger.world with
    | ok a =>
        rw [hx] at hr
        injection hr with hab
        rw [hab]
    | error e =>
        rw [hx] at hr
        exact absurd hr (by simp [Except.mapError])
  · rintro ⟨hr, hn⟩
    refine ⟨?_, hn⟩
    rw [hr]
    rfl

/-- In fair weather a holding is read as the vault has it. -/
theorem run_readHolding_eq_ok (h : n.Calm) {holding : Int × Int} :
    (readHolding config).run n = .ok holding n' ↔
      holding.1 = Vault.balanceOf n.post.ledger.world config.depositor config.currency ∧
        Vault.valueOf n.post.ledger.world config.depositor config.currency = .ok holding.2 ∧
        n' = (n.next n.post).next n.post := by
  unfold readHolding
  constructor
  · intro hrun
    obtain ⟨shares, n₁, h₁, hrun⟩ := run_bind_eq_ok.mp hrun
    obtain ⟨hshares, rfl⟩ := (run_readVault_eq_ok h).mp h₁
    obtain ⟨value, n₂, h₂, hrun⟩ := run_bind_eq_ok.mp hrun
    obtain ⟨hvalue, rfl⟩ := (run_readVault_eq_ok (h.next _)).mp h₂
    obtain ⟨rfl, rfl⟩ := run_pure_eq_ok.mp hrun
    exact ⟨(Except.ok.inj hshares).symm, hvalue, rfl⟩
  · rintro ⟨hshares, hvalue, rfl⟩
    refine run_bind_eq_ok.mpr ⟨holding.1, _, (run_readVault_eq_ok h).mpr ⟨congrArg _ hshares.symm, rfl⟩, ?_⟩
    exact run_bind_eq_ok.mpr ⟨holding.2, _, (run_readVault_eq_ok (h.next _)).mpr ⟨hvalue, rfl⟩, rfl⟩

theorem run_readHolding_calm (config : SeedConfig) {v : Int} (h : n.Calm)
    (hv : Vault.valueOf n.post.ledger.world config.depositor config.currency = .ok v) :
    ∃ n' : SeedNet, n'.Calm ∧ n'.post = n.post ∧ (readHolding config).run n =
      .ok (Vault.balanceOf n.post.ledger.world config.depositor config.currency, v) n' :=
  ⟨_, (h.next n.post).next n.post, rfl, (run_readHolding_eq_ok h).mpr ⟨rfl, hv, rfl⟩⟩

/-- A vault write of the depositor, in fair weather. -/
theorem run_submit_eq_ok (h : n.Calm) (step : String) {tx : SeedTx} :
    (∃ hash, (submit config step tx).run n = .ok hash n') ↔
      ∃ t', config.accept n.post.ledger tx = .ok t' ∧ n' = n.next (n.post.lands t' tx) := by
  unfold submit
  constructor
  · rintro ⟨hash, hrun⟩
    obtain ⟨sent, n₁, h₁, hrun⟩ := run_bind_eq_ok.mp hrun
    obtain ⟨t', haccept, hstatus, rfl⟩ := accept_of_run_send_calm h h₁
    rw [if_pos hstatus] at hrun
    obtain ⟨_, rfl⟩ := run_pure_eq_ok.mp hrun
    exact ⟨t', haccept, rfl⟩
  · rintro ⟨t', haccept, rfl⟩
    obtain ⟨answer, hsend⟩ := run_send_calm (r := config.rules) (t := tx) h
    refine ⟨answer, run_bind_eq_ok.mpr ⟨_, _, hsend haccept, ?_⟩⟩
    rw [if_pos rfl]
    rfl

/-- In fair weather a deposit that is accepted lands; whether the step reports is a matter of the value it reads. -/
theorem run_runDeposit_calm (steps : List SeedStep) (hashes : SeedHashes) {w' : World} {v v' p : Int} (h : n.Calm)
    (hfunded : n.post.ledger.funded = true)
    (hdeposit : Vault.deposit (Auth.signers [config.account]) n.post.ledger.world config.depositor config.currency
      amount = .ok w')
    (hv : Vault.valueOf n.post.ledger.world config.depositor config.currency = .ok v)
    (hv' : Vault.valueOf w' config.depositor config.currency = .ok v')
    (hp : Vault.sharePrice w' config.currency = .ok p) :
    ∃ n' : SeedNet, .deposit amount ∈ n'.post.landed ∧
      (v' = v + amount → ∃ report, (runDeposit config amount steps hashes).run n = .ok report n') ∧
      (v' ≠ v + amount → ∃ message, (runDeposit config amount steps hashes).run n = .error message n') := by
  obtain ⟨t', haccept, rfl⟩ : ∃ t', config.accept n.post.ledger (.deposit amount) = .ok t' ∧ t'.world = w' := by
    refine ⟨{ n.post.ledger with world := w' }, bind_eq_ok.mpr ⟨(), failIf_eq_ok.mpr (by simp [hfunded]), ?_⟩, rfl⟩
    unfold SeedConfig.exec
    rw [show (Action.vault [config.account] (.deposit config.depositor config.currency amount)).exec
      n.post.ledger.world = .ok w' from hdeposit]
  obtain ⟨n₁, hcalm₁, hn₁, h₁⟩ := run_readHolding_calm config h hv
  obtain ⟨hash, h₂⟩ := (run_submit_eq_ok hcalm₁ "deposit").mpr ⟨t', hn₁ ▸ haccept, rfl⟩
  obtain ⟨n₂, hcalm₂, hn₂, h₃⟩ := run_readHolding_calm config
    (hcalm₁.next (n₁.post.lands t' (.deposit amount))) hv'
  have h₄ : (readVault config fun w => Vault.sharePrice w config.currency).run n₂ = .ok p (n₂.next n₂.post) :=
    (run_readVault_eq_ok hcalm₂).mpr ⟨hn₂ ▸ hp, rfl⟩
  have hlanded : .deposit amount ∈ (n₂.next n₂.post).post.landed := by
    show _ ∈ n₂.post.landed
    rw [hn₂]
    exact List.mem_append_right _ List.mem_cons_self
  -- shares were minted
  have hminted : Vault.balanceOf n.post.ledger.world config.depositor config.currency <
      Vault.balanceOf t'.world config.depositor config.currency := by
    obtain ⟨minted, token, g, hworld⟩ := Vault.deposit_eq_ok.mp hdeposit
    have hshares : Vault.balanceOf
        (n.post.ledger.world.deposited config.depositor config.currency amount minted token) config.depositor
          config.currency = Vault.balanceOf n.post.ledger.world config.depositor config.currency + minted := by
      unfold Vault.balanceOf
      rw [World.bucket_deposited, if_pos rfl]
      exact Function.update_self ..
    have hpos := g.minted_pos
    rw [← hworld, hshares]
    omega
  unfold runDeposit
  rw [run_bind_of_ok h₁]
  simp only
  rw [run_bind_of_ok h₂, run_bind_of_ok h₃]
  simp only
  rw [run_bind_of_ok h₄, if_neg (show ¬ Vault.balanceOf (n₁.next (n₁.post.lands t' (.deposit amount))).post.ledger.world
    config.depositor config.currency ≤ _ from not_le.mpr hminted)]
  refine ⟨_, hlanded, fun hgrown => ?_, fun hgrown => ?_⟩
  · rw [if_neg (not_not.mpr hgrown)]
    exact ⟨_, rfl⟩
  · rw [if_pos hgrown]
    exact ⟨_, rfl⟩

/-- **In fair weather the deposit step reports exactly when the value it reads has grown by the amount.** -/
theorem runDeposit_eq_ok (config : SeedConfig) (amount : Int) (steps : List SeedStep) (hashes : SeedHashes)
    (h : n.Calm) (hfunded : n.post.ledger.funded = true) :
    (∃ report n', (runDeposit config amount steps hashes).run n = .ok report n') ↔
      ∃ w' v v' p, Vault.deposit (Auth.signers [config.account]) n.post.ledger.world config.depositor config.currency
          amount = .ok w' ∧
        Vault.valueOf n.post.ledger.world config.depositor config.currency = .ok v ∧
        Vault.valueOf w' config.depositor config.currency = .ok v' ∧ Vault.sharePrice w' config.currency = .ok p ∧
        v' = v + amount := by
  constructor
  · rintro ⟨report, n', hrun⟩
    obtain ⟨⟨before, v⟩, n₁, h₁, hrest⟩ := run_bind_eq_ok.mp hrun
    obtain ⟨-, hv, rfl⟩ := (run_readHolding_eq_ok h).mp h₁
    obtain ⟨hash, n₂, h₂, hrest⟩ := run_bind_eq_ok.mp hrest
    have hcalm₁ := (h.next n.post).next n.post
    obtain ⟨t', haccept, rfl⟩ := (run_submit_eq_ok hcalm₁ _).mp ⟨hash, h₂⟩
    have hcalm₂ := hcalm₁.next (n.post.lands t' (.deposit amount))
    obtain ⟨⟨shares, v'⟩, n₃, h₃, hrest⟩ := run_bind_eq_ok.mp hrest
    obtain ⟨-, hv', rfl⟩ := (run_readHolding_eq_ok hcalm₂).mp h₃
    have hcalm₃ := (hcalm₂.next (n.post.lands t' (.deposit amount))).next (n.post.lands t' (.deposit amount))
    obtain ⟨p, n₄, h₄, -⟩ := run_bind_eq_ok.mp hrest
    obtain ⟨hp, rfl⟩ := (run_readVault_eq_ok hcalm₃).mp h₄
    obtain ⟨_, _, hexec⟩ := bind_eq_ok.mp haccept
    obtain ⟨hdeposit, -, -⟩ := exec_eq_ok hexec
    refine ⟨t'.world, v, v', p, hdeposit, hv, hv', hp, ?_⟩
    obtain ⟨_, -, -, hstops⟩ := run_runDeposit_calm steps hashes h hfunded hdeposit hv hv' hp
    by_contra hgrown
    obtain ⟨message, hstop⟩ := hstops hgrown
    rw [hrun] at hstop
    injection hstop
  · rintro ⟨w', v, v', p, hdeposit, hv, hv', hp, hgrown⟩
    obtain ⟨n', -, hreports, -⟩ := run_runDeposit_calm steps hashes h hfunded hdeposit hv hv' hp
    obtain ⟨report, hrun⟩ := hreports hgrown
    exact ⟨report, n', hrun⟩

/-! ## The steps before it -/

theorem run_askIf_calm {α : Type} (config : SeedConfig) (c : Bool) (read : Testnet → Except String α) (b otherwise : α)
    (h : n.Calm)
    (hread : c = true → read n.post.ledger = .ok b) : ∃ m : SeedNet, m.Calm ∧ m.post = n.post ∧
      (askIf c (ask config.rules read) otherwise).run n = .ok (if c = true then b else otherwise) m := by
  cases c with
  | true  => exact ⟨_, h.next n.post, rfl, (run_ask_calm_eq_ok h).mpr ⟨hread rfl, rfl⟩⟩
  | false => exact ⟨n, h, rfl, rfl⟩

/-- What `readState` finds in fair weather. -/
def SeedConfig.found (config : SeedConfig) (generated : Bool) (t : Testnet) : SeedState where
  hasSecret    := !generated
  funded       := t.funded
  hasTrustline := t.funded && t.trusts
  assetBalance := config.held t
  hasConsent   := t.funded && Vault.hasConsent t.world config.depositor

theorem run_readState_calm (config : SeedConfig) (generated : Bool) (h : n.Calm) (hw : n.post.ledger.world.WF) :
    ∃ m : SeedNet, m.Calm ∧ m.post = n.post ∧
      (readState config generated).run n = .ok (config.found generated n.post.ledger) m := by
  have hbalance : (n.post.ledger.funded && n.post.ledger.trusts) = true →
      (toBaseUnits (horizonBalance (n.post.ledger.world.tokens config.sac config.depositor))).mapError Thrown.text
        = .ok (config.balance n.post.ledger) := by
    intro _
    have htext := toBaseUnits_horizonBalance (config.balance n.post.ledger).toNat
    have hnonneg : 0 ≤ config.balance n.post.ledger := hw.tokens_nonneg _ _
    rw [Int.toNat_of_nonneg hnonneg] at htext
    unfold SeedConfig.balance at htext ⊢
    rw [htext]
    rfl
  have hfunded : (isFunded config).run n = .ok n.post.ledger.funded (n.next n.post) :=
    (run_ask_calm_eq_ok h).mpr ⟨rfl, rfl⟩
  obtain ⟨n₂, h₂, hp₂, hrun₂⟩ : ∃ m : SeedNet, m.Calm ∧ m.post = n.post ∧
      (askIf n.post.ledger.funded (hasTrustline config) false).run (n.next n.post) =
        .ok (n.post.ledger.funded && n.post.ledger.trusts) m := by
    obtain ⟨m, hm, hpost, hrun⟩ := run_askIf_calm config n.post.ledger.funded
      (fun t => .ok (t.funded && t.trusts)) (n.post.ledger.funded && n.post.ledger.trusts) false (h.next n.post)
      (fun _ => rfl)
    refine ⟨m, hm, hpost, hrun.trans ?_⟩
    cases n.post.ledger.funded <;> simp
  obtain ⟨n₃, h₃, hp₃, hrun₃⟩ : ∃ m : SeedNet, m.Calm ∧ m.post = n.post ∧
      (askIf (n.post.ledger.funded && n.post.ledger.trusts) (assetBalance config) 0).run n₂ =
        .ok (config.held n.post.ledger) m := by
    obtain ⟨m, hm, hpost, hrun⟩ := run_askIf_calm config
      (n.post.ledger.funded && n.post.ledger.trusts)
      (fun t => if t.funded && t.trusts then
        (toBaseUnits (horizonBalance (t.world.tokens config.sac config.depositor))).mapError Thrown.text
        else .ok 0) (config.balance n.post.ledger) 0 h₂ (fun hc => by rw [hp₂, if_pos hc]; exact hbalance hc)
    exact ⟨m, hm, hpost.trans hp₂, hrun⟩
  obtain ⟨n₄, h₄, hp₄, hrun₄⟩ : ∃ m : SeedNet, m.Calm ∧ m.post = n.post ∧
      (askIf n.post.ledger.funded (readVault config fun w => .ok (Vault.hasConsent w config.depositor)) false).run n₃ =
        .ok (n.post.ledger.funded && Vault.hasConsent n.post.ledger.world config.depositor) m := by
    obtain ⟨m, hm, hpost, hrun⟩ := run_askIf_calm config n.post.ledger.funded
      (fun t => (Except.ok (Vault.hasConsent t.world config.depositor) : Except Panic Bool).mapError config.refusal)
      (Vault.hasConsent n.post.ledger.world config.depositor) false h₃ (fun _ => by rw [hp₃]; rfl)
    refine ⟨m, hm, hpost.trans hp₃, hrun.trans ?_⟩
    cases n.post.ledger.funded <;> rfl
  refine ⟨n₄, h₄, hp₄, ?_⟩
  unfold readState
  rw [run_bind_of_ok hfunded, run_bind_of_ok hrun₂, run_bind_of_ok hrun₃, run_bind_of_ok hrun₄]
  rfl

/-! ## The plan in fair weather -/

variable {state : SeedState} {plan plan' : List SeedStep} {step : SeedStep} {t₁ t₂ : Testnet}

/-- These steps bring the chain to `t'`, and the run goes on from there. -/
def Reaches (config : SeedConfig) (amount : Int) (state : SeedState) (plan : List SeedStep) (n : SeedNet)
    (t' : Testnet) : Prop :=
  ∃ n' : SeedNet, n'.Calm ∧ n'.post.ledger = t' ∧ ∀ steps rest hashes, ∃ hashes',
    (execute config amount state steps (plan ++ rest) hashes).run n =
      (execute config amount state steps rest hashes').run n'

theorem Reaches.nil (h : n.Calm) : Reaches config amount state [] n n.post.ledger :=
  ⟨n, h, rfl, fun _ _ hashes => ⟨hashes, rfl⟩⟩

theorem Reaches.append (t₁ : Testnet) (h : Reaches config amount state plan n t₁)
    (hnext : ∀ n₁ : SeedNet, n₁.Calm → n₁.post.ledger = t₁ → Reaches config amount state plan' n₁ t₂) :
    Reaches config amount state (plan ++ plan') n t₂ := by
  obtain ⟨n₁, hcalm, hledger, hrun⟩ := h
  obtain ⟨n₂, hcalm₂, hledger₂, hrun₂⟩ := hnext n₁ hcalm hledger
  refine ⟨n₂, hcalm₂, hledger₂, fun steps rest hashes => ?_⟩
  obtain ⟨hashes₁, heq₁⟩ := hrun steps (plan' ++ rest) hashes
  obtain ⟨hashes₂, heq₂⟩ := hrun₂ steps rest hashes₁
  refine ⟨hashes₂, ?_⟩
  rw [List.append_assoc, heq₁, heq₂]

/-- A step that is only planned when it is missing. -/
theorem Reaches.optional {c : Prop} [Decidable c] (h : n.Calm) (hdone : ¬ c → t' = n.post.ledger)
    (hmissing : c → Reaches config amount state [step] n t') :
    Reaches config amount state (if c then [step] else []) n t' := by
  by_cases hc : c
  · rw [if_pos hc]
    exact hmissing hc
  · rw [if_neg hc, hdone hc]
    exact .nil h

theorem reaches_generateKey (h : n.Calm) : Reaches config amount state [.generateKey] n n.post.ledger :=
  ⟨n, h, rfl, fun _ _ hashes => ⟨hashes, rfl⟩⟩

/-- The first look finds the account. -/
theorem reaches_fund (h : n.Calm) (haccept : config.accept n.post.ledger .fund = .ok t') :
    Reaches config amount state [.fund] n t' := by
  obtain ⟨answer, hsend⟩ := run_send_calm (r := config.rules) (t := .fund) h
  have hcalm := h.next (n.post.lands t' .fund)
  have hthere : (isFunded config).run (n.next (n.post.lands t' .fund)) =
      .ok true ((n.next (n.post.lands t' .fund)).next (n.post.lands t' .fund)) := by
    cases haccept
    exact (run_ask_calm_eq_ok hcalm).mpr ⟨rfl, rfl⟩
  have hfund : (fund config).run n = .ok () ((n.next (n.post.lands t' .fund)).next (n.post.lands t' .fund)) := by
    unfold fund
    rw [run_bind_of_ok (hsend haccept), if_neg (by simp)]
    unfold awaitFunded
    rw [run_bind_of_ok hthere]
    rfl
  exact ⟨_, hcalm.next _, rfl, fun steps rest hashes => ⟨hashes, run_bind_of_ok hfund⟩⟩

theorem reaches_trustline (h : n.Calm) (haccept : config.accept n.post.ledger .changeTrust = .ok t') :
    Reaches config amount state [.trustline] n t' := by
  obtain ⟨answer, hsend⟩ := run_send_calm (r := config.rules) (t := .changeTrust) h
  have hstep : (addTrustline config).run n = .ok answer (n.next (n.post.lands t' .changeTrust)) := by
    unfold addTrustline
    rw [run_bind_of_ok (hsend haccept), if_pos rfl]
    rfl
  exact ⟨_, h.next _, rfl, fun steps rest hashes => ⟨_, run_bind_of_ok hstep⟩⟩

theorem reaches_mint (h : n.Calm)
    (haccept : config.accept n.post.ledger (.mint (amount - state.assetBalance)) = .ok t') :
    Reaches config amount state [.mint] n t' := by
  obtain ⟨answer, hsend⟩ := run_send_calm (r := config.rules) (t := .mint (amount - state.assetBalance)) h
  have hstep : (mint config (amount - state.assetBalance)).run n =
      .ok answer (n.next (n.post.lands t' (.mint (amount - state.assetBalance)))) := by
    unfold mint
    rw [run_bind_of_ok (hsend haccept), if_neg (by simp)]
    rfl
  exact ⟨_, h.next _, rfl, fun steps rest hashes => ⟨_, run_bind_of_ok hstep⟩⟩

theorem reaches_consent (h : n.Calm) (haccept : config.accept n.post.ledger .consent = .ok t') :
    Reaches config amount state [.consent] n t' := by
  obtain ⟨hash, hstep⟩ := (run_submit_eq_ok h "consent").mpr ⟨t', haccept, rfl⟩
  exact ⟨_, h.next _, rfl, fun steps rest hashes => ⟨_, run_bind_of_ok hstep⟩⟩

/-! ### What the steps do -/

theorem accept_changeTrust (hfunded : t.funded = true) :
    config.accept t .changeTrust = .ok { t with trusts := true } :=
  bind_eq_ok.mpr ⟨(), failIf_eq_ok.mpr (by simp [hfunded]), rfl⟩

theorem accept_mint (config : SeedConfig) {missing : Int} (hfunded : t.funded = true) (htrusts : t.trusts = true)
    (h : 0 ≤ missing) :
    config.accept t (.mint missing) =
      .ok { t with world := t.world.setTokens (t.world.tokens.credit config.sac config.depositor missing) } := by
  have hexec : (Action.mint config.sac config.depositor missing).exec t.world =
      .ok (t.world.setTokens (t.world.tokens.credit config.sac config.depositor missing)) :=
    bind_eq_ok.mpr ⟨(), failIf_eq_ok.mpr (by omega), rfl⟩
  refine bind_eq_ok.mpr ⟨(), failIf_eq_ok.mpr (by simp [hfunded, htrusts]), ?_⟩
  unfold SeedConfig.exec
  rw [hexec]

theorem accept_consent (hfunded : t.funded = true) :
    config.accept t .consent = .ok { t with world := config.consenting t.world } := by
  have hexec : (Action.vault [config.account] (.setPolicyConsent config.depositor)).exec t.world =
      .ok (config.consenting t.world) :=
    Vault.setPolicyConsent_eq_ok.mpr ⟨decide_eq_true List.mem_cons_self, rfl⟩
  refine bind_eq_ok.mpr ⟨(), failIf_eq_ok.mpr (by simp [hfunded]), ?_⟩
  unfold SeedConfig.exec
  rw [hexec]

/-- The steps before the deposit. -/
def setUpSteps (state : SeedState) (amount : Int) : List SeedStep :=
  (if ¬ state.hasSecret = true then [.generateKey] else []) ++ ((if ¬ state.funded = true then [.fund] else []) ++
    ((if ¬ state.hasTrustline = true then [.trustline] else []) ++
      ((if state.assetBalance < amount then [.mint] else []) ++
        (if ¬ state.hasConsent = true then [.consent] else []))))

theorem planSteps_eq : planSteps state amount = setUpSteps state amount ++ [.deposit] := by
  unfold planSteps setUpSteps
  simp only [ite_not, List.append_assoc]

/-- **In fair weather the plan sets the account up for its deposit.** -/
theorem reaches_setUp (config : SeedConfig) (amount : Int) (generated : Bool) (h : n.Calm) (hn : n.post.ledger = t) :
    Reaches config amount (config.found generated t) (setUpSteps (config.found generated t) amount) n
      ⟨config.prepared t amount, true, true⟩ := by
  refine Reaches.append (t) (.optional h (fun _ => hn.symm) fun _ => hn ▸ reaches_generateKey h)
    fun n₁ h₁ hn₁ => ?_
  refine Reaches.append ({ t with funded := true }) (.optional h₁ (fun hc => ?_) fun _ => ?_) fun n₂ h₂ hn₂ => ?_
  · have hfunded : t.funded = true := not_not.mp hc
    rw [hn₁, ← hfunded]
  · exact reaches_fund h₁ (hn₁ ▸ rfl)
  refine Reaches.append (⟨t.world, true, true⟩) (.optional h₂ (fun hc => ?_) fun _ => ?_) fun n₃ h₃ hn₃ => ?_
  · have htrusts : t.trusts = true := (Bool.and_eq_true_iff.mp (not_not.mp hc)).2
    rw [hn₂, ← htrusts]
  · exact reaches_trustline h₂ (hn₂ ▸ accept_changeTrust rfl)
  refine Reaches.append ⟨if config.held t < amount then
      t.world.setTokens (t.world.tokens.credit config.sac config.depositor (amount - config.held t)) else t.world,
      true, true⟩ (.optional h₃ (fun hc => ?_) fun hc => ?_) fun n₄ h₄ hn₄ => ?_
  · rw [hn₃]
    exact congrArg (Testnet.mk · true true) (if_neg hc)
  · have hmissing : config.held t < amount := hc
    rw [if_pos hmissing]
    exact reaches_mint h₃ (hn₃ ▸ accept_mint config rfl rfl (sub_nonneg.mpr (le_of_lt hmissing)))
  · refine .optional h₄ (fun hc => ?_) fun _ => reaches_consent h₄ (hn₄ ▸ accept_consent rfl)
    have hconsent := (Bool.and_eq_true_iff.mp (not_not.mp hc)).2
    rw [hn₄]
    unfold SeedConfig.prepared SeedConfig.consenting
    rw [if_neg]
    rw [Bool.not_eq_false]
    split <;> exact hconsent

theorem run_runSeed_calm (config : SeedConfig) (amount : Int) (generated : Bool) (h : n.Calm)
    (hw : n.post.ledger.world.WF) :
    ∃ n' : SeedNet, n'.Calm ∧ n'.post.ledger = ⟨config.prepared n.post.ledger amount, true, true⟩ ∧
      ∃ steps hashes, (runSeed config generated amount).run n = (runDeposit config amount steps hashes).run n' := by
  obtain ⟨m, hm, hpost, hread⟩ := run_readState_calm config generated h hw
  obtain ⟨n', hcalm, hn', hrun⟩ := reaches_setUp config amount generated hm
    (congrArg Post.ledger hpost)
  obtain ⟨hashes, heq⟩ := hrun (planSteps (config.found generated n.post.ledger) amount) [.deposit]
    ⟨none, none, none, none⟩
  refine ⟨n', hcalm, hn', planSteps (config.found generated n.post.ledger) amount, hashes, ?_⟩
  rw [← planSteps_eq] at heq
  unfold runSeed
  rw [run_bind_of_ok hread, heq]
  rfl

/-! ## When a run reports -/

/-- The steps before the deposit leave the bucket as it is. -/
theorem prepared_keeps (config : SeedConfig) (t : Testnet) (amount : Int) (c : Currency) :
    (config.prepared t amount).navOf c = t.world.navOf c ∧
    (config.prepared t amount).bucket c = t.world.bucket c ∧
    (config.prepared t amount).vault.config = t.world.vault.config := by
  unfold SeedConfig.prepared SeedConfig.consenting
  split <;> split <;> exact ⟨rfl, rfl, rfl⟩

theorem prepared_wf (h : t.world.WF) : (config.prepared t amount).WF := by
  unfold SeedConfig.prepared
  have hminted : World.WF (if config.held t < amount then
      t.world.setTokens (t.world.tokens.credit config.sac config.depositor (amount - config.held t))
    else t.world) := by
    split
    · rename_i hmissing
      exact (accepted_of_ok (t := ⟨t.world, true, true⟩) h
        (accept_mint config rfl rfl (sub_nonneg.mpr (le_of_lt hmissing)))).wf
    · exact h
  exact (accepted_of_ok (t := ⟨_, true, true⟩) hminted (accept_consent rfl)).wf

/-- **When the script believes its deposit.** In fair weather (every request is answered, nobody else acts and no
    ledger time passes) and from any reachable chain with a virtual offset: a deposit that the vault
    takes has landed, whatever the script says. A run whose amount buys whole shares reports exactly when the vault
    takes the deposit and answers the reads around it; for a depositor without shares the run reports exactly when,
    beyond that, the amount buys whole shares. -/
theorem seed_reads_back_iff (config : SeedConfig) (generated : Bool) (amount : Int) (h : n.Calm)
    (hr : Reachable Genesis SoroSense.Step n.post.ledger.world)
    (hv : 0 < n.post.ledger.world.vault.config.virtualOffset) :
    (config.Answers amount (config.prepared n.post.ledger amount) →
      .deposit amount ∈ (after (runSeed config generated amount) n).post.landed) ∧
    (config.Whole amount n.post.ledger.world →
      ((∃ report n', (runSeed config generated amount).run n = .ok report n') ↔
        config.Answers amount (config.prepared n.post.ledger amount))) ∧
    (Vault.balanceOf n.post.ledger.world config.depositor config.currency = 0 →
      ((∃ report n', (runSeed config generated amount).run n = .ok report n') ↔
        config.Answers amount (config.prepared n.post.ledger amount) ∧ config.Whole amount n.post.ledger.world)) := by
  obtain ⟨n₁, hcalm, hn₁, steps, hashes, heq⟩ := run_runSeed_calm config amount generated h (reachable_wf hr)
  obtain ⟨hnav, hbucket, hconfig⟩ := prepared_keeps config n.post.ledger amount config.currency
  have hfunded : n₁.post.ledger.funded = true := by rw [hn₁]
  have hworld : n₁.post.ledger.world = config.prepared n.post.ledger amount := by rw [hn₁]
  have hw : (config.prepared n.post.ledger amount).WF := prepared_wf (reachable_wf hr)
  have hreports := runDeposit_eq_ok config amount steps hashes hcalm hfunded
  rw [hworld] at hreports
  -- whether the value has grown by the amount is whether the amount buys whole shares
  have hgrows : ∀ w' v v', Vault.deposit (Auth.signers [config.account]) (config.prepared n.post.ledger amount)
      config.depositor config.currency amount = .ok w' →
      Vault.valueOf (config.prepared n.post.ledger amount) config.depositor config.currency = .ok v →
      Vault.valueOf w' config.depositor config.currency = .ok v' →
      (config.Whole amount n.post.ledger.world → v' = v + amount) ∧
        (Vault.balanceOf n.post.ledger.world config.depositor config.currency = 0 →
          (v' = v + amount ↔ config.Whole amount n.post.ledger.world)) := by
    intro w' v v' hdeposit hvalue hvalue'
    obtain ⟨minted, token, g, rfl⟩ := Vault.deposit_eq_ok.mp hdeposit
    have hgrown := World.valueOf_deposited hw (hconfig ▸ hv) g ⟨_, rfl⟩ hvalue hvalue'
    unfold SeedConfig.Whole Vault.balanceOf
    rw [← hnav, ← hbucket, ← hconfig]
    exact hgrown
  refine ⟨?_, fun hwhole => ?_, fun hnone => ?_⟩
  · rintro ⟨w', hdeposit, hvalue, hvalue', hprice⟩
    obtain ⟨v, hvalue⟩ := isOk_iff.mp hvalue
    obtain ⟨v', hvalue'⟩ := isOk_iff.mp hvalue'
    obtain ⟨p, hprice⟩ := isOk_iff.mp hprice
    obtain ⟨n', hlanded, hreport, hstop⟩ := run_runDeposit_calm steps hashes hcalm
      hfunded (hworld ▸ hdeposit) (hworld ▸ hvalue) hvalue' hprice
    by_cases hgrown : v' = v + amount
    · obtain ⟨report, hrun⟩ := hreport hgrown
      rw [after_of_ok (heq.trans hrun)]
      exact hlanded
    · obtain ⟨message, hrun⟩ := hstop hgrown
      rw [after_of_error (heq.trans hrun)]
      exact hlanded
  · rw [heq, hreports]
    constructor
    · rintro ⟨w', v, v', p, hdeposit, hvalue, hvalue', hprice, -⟩
      exact ⟨w', hdeposit, isOk_iff.mpr ⟨v, hvalue⟩, isOk_iff.mpr ⟨v', hvalue'⟩, isOk_iff.mpr ⟨p, hprice⟩⟩
    · rintro ⟨w', hdeposit, hvalue, hvalue', hprice⟩
      obtain ⟨v, hvalue⟩ := isOk_iff.mp hvalue
      obtain ⟨v', hvalue'⟩ := isOk_iff.mp hvalue'
      obtain ⟨p, hprice⟩ := isOk_iff.mp hprice
      exact ⟨w', v, v', p, hdeposit, hvalue, hvalue', hprice, (hgrows w' v v' hdeposit hvalue hvalue').1 hwhole⟩
  · rw [heq, hreports]
    constructor
    · rintro ⟨w', v, v', p, hdeposit, hvalue, hvalue', hprice, hgrown⟩
      exact ⟨⟨w', hdeposit, isOk_iff.mpr ⟨v, hvalue⟩, isOk_iff.mpr ⟨v', hvalue'⟩, isOk_iff.mpr ⟨p, hprice⟩⟩,
        ((hgrows w' v v' hdeposit hvalue hvalue').2 hnone).mp hgrown⟩
    · rintro ⟨⟨w', hdeposit, hvalue, hvalue', hprice⟩, hwhole⟩
      obtain ⟨v, hvalue⟩ := isOk_iff.mp hvalue
      obtain ⟨v', hvalue'⟩ := isOk_iff.mp hvalue'
      obtain ⟨p, hprice⟩ := isOk_iff.mp hprice
      exact ⟨w', v, v', p, hdeposit, hvalue, hvalue', hprice, (hgrows w' v v' hdeposit hvalue hvalue').1 hwhole⟩

/-! ## A late depositor -/

/-- Account 3 seeds the dollar bucket after another deposit has earned for a year. -/
def lateSeed : SeedConfig := { seedConfig with account := 3, publicKey := "G3" }

/-- Nobody else acts meanwhile, and every request fares well. -/
def lateComer : SeedNet where
  post    := ⟨⟨(World.opening 1000 5000).after yieldRun, false, false⟩, [], []⟩
  weather := fun _ => ⟨[], .confirmed "ok"⟩

theorem calm_lateComer : Net.Calm lateComer := fun _ => ⟨rfl, "ok", rfl⟩

/-- The deposit lands, and the script stops. -/
theorem seed_reads_back_iff_late :
    .deposit 100 ∈ (after (runSeed lateSeed true 100) lateComer).post.landed ∧
      ¬ ∃ report n', (runSeed lateSeed true 100).run lateComer = .ok report n' := by
  have hstart : Reachable Genesis SoroSense.Step ((World.opening 1000 5000).after yieldRun) :=
    (Genesis.opening (by decide)).reachable yieldRun
  obtain ⟨hlands, -, hfirst⟩ := seed_reads_back_iff lateSeed true 100
    calm_lateComer hstart (by decide +kernel)
  have hanswers : lateSeed.Answers 100 (lateSeed.prepared lateComer.post.ledger 100) := by
    have hall : (do
        let w' ← Vault.deposit (Auth.signers [3]) (lateSeed.prepared lateComer.post.ledger 100) (.account 3) .usd 100
        let _ ← Vault.valueOf w' (.account 3) .usd
        Vault.sharePrice w' .usd).isOk = true := by decide +kernel
    obtain ⟨p, hall⟩ := isOk_iff.mp hall
    obtain ⟨w', hdeposit, hall⟩ := bind_eq_ok.mp hall
    obtain ⟨v', hvalue', hprice⟩ := bind_eq_ok.mp hall
    exact ⟨w', hdeposit, by decide +kernel, isOk_iff.mpr ⟨v', hvalue'⟩, isOk_iff.mpr ⟨p, hprice⟩⟩
  refine ⟨hlands hanswers, fun hreports => ?_⟩
  have hwhole := ((hfirst (by decide +kernel)).mp hreports).2
  exact absurd hwhole (by unfold SeedConfig.Whole; decide +kernel)

end Backend.DemoSeed

end SoroSense
