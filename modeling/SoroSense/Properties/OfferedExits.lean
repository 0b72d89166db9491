import SoroSense.Properties.HiddenExits

/-!
# `Properties.OfferedExits` — the exits that a browser can approve

An exit that the vault would execute is of no use to a depositor whose sheet does not show it. The hook stops at the
first frozen bucket, and throws on the way at any pool the browser does not know. So from an opened page an account can
land the approval of a bucket's exit, before anything else happens on the chain, if and only if the vault takes it and
the hook gets as far as that bucket (`exit_approvable_iff`).

* `Offered` — the hook gets as far as the bucket;
* `yields_offered` / `now_offered` — it finds nothing else, and it finds that;
* `Stands` — what is shown, and was pressed, while the chain stands still.
-/

namespace SoroSense.Frontend

open Backend (PoolId VaultClient Strkey ExitProposal getPool assetValueOf_text)
open Fallible Transition

variable {addresses : Currency → Option Backend.Address} {strkey : Strkey} {refusal : Panic → String} {api : Bool}
  {s t : ExitApp} {a : ExitAct} {o : ApiWorld} {w : World} {c : Currency} {rest : List Currency}

/-! ## How far the hook gets -/

/-- The loop goes on behind the bucket. -/
def Passed (addresses : Currency → Option Backend.Address) (strkey : Strkey) (w : World) (c : Currency) : Prop :=
  ∀ p, Vault.activePool w c = some p → Known addresses strkey p ∧ Vault.poolStatus w p = .active

/-- The loop stops at the bucket. -/
def Stopped (addresses : Currency → Option Backend.Address) (strkey : Strkey) (w : World) (c : Currency) : Prop :=
  ∃ p, Vault.activePool w c = some p ∧ Known addresses strkey p ∧ Vault.poolStatus w p = .frozen

/-- **The bucket is offered**: the loop stops there, and its value can be read for some account. -/
structure Offered (addresses : Currency → Option Backend.Address) (strkey : Strkey) (w : World) (c : Currency) :
    Prop where
  reached : c = .usd ∨ c = .eur ∧ Passed addresses strkey w .usd
  stopped : Stopped addresses strkey w c
  valued  : ∃ id v, Vault.valueOf w (.account id) c = .ok v

/-- One turn of the loop, on a chain that stands still. -/
theorem yields_turn {address : Backend.Address} {Q : ApiWorld → Option PendingExitView → Prop} (hk : strkey.UpperCase)
    (hrest : ∀ o', o'.world = w → Passed addresses strkey w c →
      (firstFrozen (createVaultClient addresses strkey refusal) api address rest).Yields (fun _ o' => o'.world = w) Q o')
    (hstop : ∀ o', o'.world = w → Stopped addresses strkey w c →
      (frozenBucket (createVaultClient addresses strkey refusal) api address c).Yields (fun _ o' => o'.world = w) Q o') :
    (firstFrozen (createVaultClient addresses strkey refusal) api address (c :: rest)).Yields
      (fun _ o' => o'.world = w) Q o := by
  unfold firstFrozen
  refine Inquiry.Yields.bind fun o₁ h₁ => Inquiry.yields_pure ?_
  cases hp : Vault.activePool w c with
  | none =>
      rw [h₁, VaultClient.activeSlug_of_none _ hp]
      refine hrest o₁ h₁ fun p hp' => ?_
      exact absurd (hp.symm.trans hp') (by simp)
  | some p =>
      rw [h₁, VaultClient.activeSlug_of_some _ hp]
      refine Inquiry.Yields.bind (Inquiry.yields_read fun o₂ status h₂ hread => ?_)
      by_cases hknown : Known addresses strkey p
      · rw [h₂] at hread
        have hstatus : Vault.poolStatus w p = status := Except.ok.inj ((hknown.poolStatus refusal w).symm.trans hread)
        cases status with
        | frozen =>
            rw [if_pos rfl]
            exact hstop o₂ h₂ ⟨p, hp, hknown, hstatus⟩
        | active =>
            rw [if_neg (by decide)]
            refine hrest o₂ h₂ fun p' hp' => ?_
            obtain rfl := Option.some.inj (hp.symm.trans hp')
            exact ⟨hknown, hstatus⟩
      · obtain ⟨e, herror⟩ := poolStatus_unknown refusal hk hknown o₂.world
        exact absurd (herror.symm.trans hread) (by simp)

theorem yields_stopped {id : ℕ} (hreached : c = .usd ∨ c = .eur ∧ Passed addresses strkey w .usd)
    (hstopped : Stopped addresses strkey w c) :
    (frozenBucket (createVaultClient addresses strkey refusal) api (strkey.text (.account id)) c).Yields
      (fun _ o' => o'.world = w) (fun _ found => ∀ v, found = some v → Offered addresses strkey w v.currency) o := by
  unfold frozenBucket
  refine Inquiry.Yields.bind fun o₁ _ => Inquiry.yields_pure ?_
  refine Inquiry.Yields.bind (Inquiry.yields_read fun o₂ amount h₂ hread => ?_)
  refine Inquiry.Yields.bind (Inquiry.yields_of_forall fun o₃ target => Inquiry.yields_pure ?_)
  intro v hv
  obtain rfl := Option.some.inj hv
  rw [h₂] at hread
  exact ⟨hreached, hstopped, id, amount, assetValueOf_text.mp hread⟩

/-- **The hook finds nothing but what is offered.** -/
theorem yields_offered (hk : strkey.UpperCase) (account : Option ℕ) :
    (usePendingExit (createVaultClient addresses strkey refusal) api account).Yields (fun _ o' => o'.world = w)
      (fun _ found => ∀ v, found = some v → Offered addresses strkey w v.currency) o := by
  cases account with
  | none => exact fun v hv => absurd hv (by simp)
  | some id =>
      refine yields_turn hk (fun o₁ _ hpassed => ?_) fun _ _ hstopped => yields_stopped (.inl rfl) hstopped
      refine yields_turn hk (fun o₂ _ _ => ?_) fun _ _ hstopped => yields_stopped (.inr ⟨rfl, hpassed⟩) hstopped
      exact fun v hv => absurd hv (by simp)

/-- The status of a known pool, as the loop reads it. -/
theorem Known.now_status {p : SoroSense.Address} (refusal : Panic → String) (h : Known addresses strkey p)
    (o : ApiWorld) :
    (Inquiry.read fun o : ApiWorld => (createVaultClient addresses strkey refusal).poolStatus o.world
      ((createVaultClient addresses strkey refusal).poolId
        ((createVaultClient addresses strkey refusal).strkey.text p))).now o = some (Vault.poolStatus o.world p) :=
  Inquiry.now_read (h.poolStatus refusal o.world)

theorem now_passed (address : Backend.Address) (rest : List Currency) (h : Passed addresses strkey o.world c) :
    (firstFrozen (createVaultClient addresses strkey refusal) api address (c :: rest)).now o =
      (firstFrozen (createVaultClient addresses strkey refusal) api address rest).now o := by
  rw [firstFrozen, Inquiry.now_bind]
  cases hp : Vault.activePool o.world c with
  | none =>
      show (some ((createVaultClient addresses strkey refusal).activeSlug o.world c)).bind _ = _
      rw [VaultClient.activeSlug_of_none _ hp]
      rfl
  | some p =>
      obtain ⟨hknown, hactive⟩ := h p hp
      show (some ((createVaultClient addresses strkey refusal).activeSlug o.world c)).bind _ = _
      rw [VaultClient.activeSlug_of_some _ hp, Option.bind_some, Inquiry.now_bind, hknown.now_status, Option.bind_some,
        hactive, if_neg (by decide)]

theorem now_stopped (address : Backend.Address) (rest : List Currency) (h : Stopped addresses strkey o.world c) :
    (firstFrozen (createVaultClient addresses strkey refusal) api address (c :: rest)).now o =
      (frozenBucket (createVaultClient addresses strkey refusal) api address c).now o := by
  obtain ⟨p, hp, hknown, hfrozen⟩ := h
  rw [firstFrozen, Inquiry.now_bind]
  show (some ((createVaultClient addresses strkey refusal).activeSlug o.world c)).bind _ = _
  rw [VaultClient.activeSlug_of_some _ hp, Option.bind_some, Inquiry.now_bind, hknown.now_status, Option.bind_some,
    hfrozen, if_pos rfl]

theorem now_exitTarget (api : Bool) (proposal : Option ExitProposal) (o : ApiWorld) :
    ∃ target, (exitTarget api proposal).now o = some target := by
  cases proposal with
  | none => exact ⟨none, rfl⟩
  | some proposal =>
      show ∃ target, (resolveExitTarget api proposal.toPool).now o = some target
      unfold resolveExitTarget
      by_cases hapi : api = true
      · rw [if_pos hapi]
        cases hpool : getPool proposal.toPool o.apy with
        | ok pool =>
            simp only [Inquiry.now, hpool]
            exact ⟨_, rfl⟩
        | err code error =>
            simp only [Inquiry.now, hpool]
            exact ⟨_, rfl⟩
      · rw [if_neg hapi]
        exact ⟨_, rfl⟩

/-- **What is offered, the hook finds**, if it can read the value. -/
theorem now_offered {id : ℕ} {v : Int} (refusal : Panic → String) (api : Bool) (h : Offered addresses strkey o.world c)
    (hv : Vault.valueOf o.world (.account id) c = .ok v) :
    ∃ view, (usePendingExit (createVaultClient addresses strkey refusal) api (some id)).now o = some (some view) ∧
      view.currency = c ∧
      view.proposal = (Vault.pendingExit o.world c).map (createVaultClient addresses strkey refusal).exitOf := by
  have hvalue : (createVaultClient addresses strkey refusal).assetValueOf o.world (strkey.text (.account id)) c = .ok v :=
    assetValueOf_text.mpr hv
  have hread : (Inquiry.read fun o : ApiWorld => (createVaultClient addresses strkey refusal).assetValueOf o.world
      (strkey.text (.account id)) c).now o = some v := Inquiry.now_read hvalue
  obtain ⟨target, htarget⟩ := now_exitTarget api
    ((Vault.pendingExit o.world c).map (createVaultClient addresses strkey refusal).exitOf) o
  have hbucket : ∃ view, (frozenBucket (createVaultClient addresses strkey refusal) api (strkey.text (.account id)) c).now o
      = some (some view) ∧ view.currency = c ∧
      view.proposal = (Vault.pendingExit o.world c).map (createVaultClient addresses strkey refusal).exitOf := by
    unfold frozenBucket
    rw [Inquiry.now_bind]
    show ∃ view, (some ((Vault.pendingExit o.world c).map
      (createVaultClient addresses strkey refusal).exitOf)).bind _ = _ ∧ _
    rw [Option.bind_some, Inquiry.now_bind, hread, Option.bind_some, Inquiry.now_bind, htarget, Option.bind_some]
    exact ⟨_, rfl, rfl, rfl⟩
  have hfound : (usePendingExit (createVaultClient addresses strkey refusal) api (some id)).now o =
      (frozenBucket (createVaultClient addresses strkey refusal) api (strkey.text (.account id)) c).now o := by
    rcases h.reached with rfl | ⟨rfl, hpassed⟩
    · exact now_stopped _ _ h.stopped
    · exact (now_passed _ _ hpassed).trans (now_stopped _ _ h.stopped)
  rw [hfound]
  exact hbucket

/-! ## While the chain stands still -/

/-- **The page in front of a chain that stands still**: what it shows, and what was pressed, is offered. -/
structure Stands (addresses : Currency → Option Backend.Address) (strkey : Strkey) (w : World) (s : ExitApp) :
    Prop where
  world   : s.outside.world = w
  shows   : Viewer.Holds (fun _ o' => o'.world = w)
    (fun _ found => ∀ v, found = some v → Offered addresses strkey w v.currency) s.outside s.viewer
  offered : ∀ p ∈ s.approvals ++ s.loose, Offered addresses strkey w p.view.currency

theorem ExitApp.Opened.stands (h : s.Opened) : Stands addresses strkey s.outside.world s := by
  refine ⟨rfl, ?_, ?_⟩
  · rw [h.viewer]
    exact .fresh fun v hv => absurd hv (by simp)
  · intro p hp
    rw [h.approvals, h.loose] at hp
    exact absurd hp (by simp)

theorem Stands.step (hk : strkey.UpperCase) (h : Stands addresses strkey w s)
    (hs : ExitStep (createVaultClient addresses strkey refusal) api s a t) (hw : t.outside.world = w) :
    Stands addresses strkey w t := by
  have hlater : Viewer.Holds (fun _ o' => o'.world = w)
      (fun _ found => ∀ v, found = some v → Offered addresses strkey w v.currency) t.outside s.viewer :=
    h.shows.later (fun _ _ _ _ hx => hx) (fun _ _ _ hf _ => hf) hw
  refine ⟨hw, ?_, ?_⟩
  · exact hs.shows h.shows h.world (fun v hv => absurd hv (by simp)) (fun account => yields_offered hk account) hlater
  · intro q hq
    rcases hs.origin hq with ⟨p, hp, -, hview, -⟩ | ⟨-, -, hpend, -⟩
    · exact hview ▸ h.offered p hp
    · exact h.shows.shown q.view hpend

/-- The page goes on and the chain stands still. -/
def StillStep (client : VaultClient) (api : Bool) (s : ExitApp) (a : ExitAct) (t : ExitApp) : Prop :=
  ExitStep client api s a t ∧ t.outside = s.outside

/-- **What is offered can be pressed**, by any account, from an opened page. -/
theorem pressed_of_offered (refusal : Panic → String) (api : Bool) (hs : s.Opened) {x : Vault.ExitProposal} (u : ℕ)
    (h : Offered addresses strkey s.outside.world c) (hx : Vault.pendingExit s.outside.world c = some x) :
    ∃ tr m p, Run (StillStep (createVaultClient addresses strkey refusal) api) s tr m ∧ m.outside = s.outside ∧
      m.approvals = [p] ∧ p.account = u ∧ p.view.currency = c ∧ p.landed = false ∧
      (createVaultClient addresses strkey refusal).exitOf x = p.proposal := by
  obtain ⟨id, v, hv⟩ := h.valued
  obtain ⟨view, hnow, hcurrency, hproposal⟩ := now_offered refusal api h hv
  rw [hx, Option.map_some] at hproposal
  obtain ⟨outside, account, viewer, opened, toast, approvals, loose⟩ := s
  obtain rfl : viewer = ⟨none, []⟩ := hs.viewer
  obtain rfl : approvals = [] := hs.approvals
  let client : VaultClient := createVaultClient addresses strkey refusal
  -- the account whose value can be read connects, and looks
  let page : ExitApp := ⟨outside, some id, ⟨none, []⟩, opened, toast, [], loose⟩
  obtain ⟨looks, hlooks⟩ := Viewer.run_now outside none (usePendingExit client api (some id))
  rw [hnow, Option.getD_some] at hlooks
  have hconnect : StillStep client api ⟨outside, account, ⟨none, []⟩, opened, toast, [], loose⟩ (.connect (some id))
      (page.refetch client api) := ⟨.connect, rfl⟩
  have hread : Run (StillStep client api) (page.refetch client api) _ { page with viewer := ⟨some view, []⟩ } :=
    hlooks.map (fun v => { page with viewer := v }) (fun _ => .look) fun e he =>
      ⟨.look (hlooks.forall_step e he), rfl⟩
  -- the approving account connects, and still sees the view
  let shown : ExitApp := ({ page with account := some u, viewer := ⟨some view, []⟩ } : ExitApp).refetch client api
  have hswitch : StillStep client api { page with viewer := ⟨some view, []⟩ } (.connect (some u)) shown :=
    ⟨.connect, rfl⟩
  have hopen : StillStep client api shown (.toggle true) { shown with opened := true } := ⟨.toggle, rfl⟩
  have hpress : StillStep client api { shown with opened := true } .approve
      { shown with opened := true, approvals := [⟨u, view, client.exitOf x, false, true⟩] } := by
    have hpressed : ({ shown with opened := true } : ExitApp).onApprove =
        { shown with opened := true, approvals := [⟨u, view, client.exitOf x, false, true⟩] } :=
      ExitApp.onApprove_of_shown rfl rfl hproposal rfl
    rw [← hpressed]
    exact ⟨.approve rfl, by rw [hpressed]⟩
  have hrun := ((((Run.single hconnect).append hread).append (.single hswitch)).append (.single hopen)).append
    (.single hpress)
  exact ⟨_, _, _, hrun, rfl, rfl, rfl, hcurrency, rfl, rfl⟩

/-- **The exits a browser can approve.** From an opened page in front of any reachable chain, before the chain moves: an
    account can land the approval of a bucket's exit if and only if the vault takes it and the bucket is offered, that
    is, the hook passes the buckets before it, knows its pool, which is frozen, and can read its value for some
    account. -/
theorem exit_approvable_iff (hk : strkey.UpperCase) (hw : Reachable Genesis SoroSense.Step s.outside.world)
    (hs : s.Opened) (u : ℕ) (c : Currency) :
    (∃ tr m i t p, Run (ExitStep (createVaultClient addresses strkey refusal) api) s tr m ∧
      (∀ e ∈ tr, e.post.outside.world = s.outside.world) ∧
      ExitStep (createVaultClient addresses strkey refusal) api m (.lands i) t ∧
      landing ⟨m, .lands i, t⟩ = some p ∧ p.account = u ∧ p.view.currency = c) ↔
    Offered addresses strkey s.outside.world c ∧
      ∃ x w', Vault.pendingExit s.outside.world c = some x ∧
        (Vault.Call.approveExit (.account u) x.id).exec (Auth.signers [u]) s.outside.world = .ok w' := by
  constructor
  · rintro ⟨tr, m, i, t, p, hrun, hstill, hland, hp, rfl, rfl⟩
    have hsheet : Sheet (createVaultClient addresses strkey refusal) api m :=
      hrun.invariant (fun _ _ _ hi hst => hi.step hst) (hs.sheet (reachable_wf hw))
    obtain ⟨hstands, -⟩ := hrun.invariant_under (I := Stands addresses strkey s.outside.world)
      (P := fun _ => True) (fun _ _ _ hi hst hq => ⟨trivial, hi.step hk hst hq⟩) hs.stands hstill
    cases hland with
    | @lands _ q call w' hq hcall _ hx =>
        obtain rfl := Option.some.inj (hq.symm.trans hp)
        have hmem : q ∈ m.approvals ++ m.loose := List.mem_append_left _ (List.mem_of_getElem? hq)
        obtain ⟨x, hproposal, hproposed⟩ := hsheet.filed q hmem
        obtain rfl := Option.some.inj (hcall.symm.trans (Approval.call_of_exitOf hproposal))
        obtain ⟨_, hpend, -⟩ := hproposed.executed hsheet.wf hx
        rw [hstands.world] at hpend hx
        exact ⟨hstands.offered q hmem, x, w', hpend, hx⟩
  · rintro ⟨hoffered, x, w', hpend, htakes⟩
    obtain ⟨tr, m, p, hrun, houtside, hopen, haccount, hcurrency, hnot, hproposal⟩ :=
      pressed_of_offered refusal api hs u hoffered hpend
    have hstill : ∀ e ∈ tr, e.post.outside.world = s.outside.world := by
      intro e he
      obtain ⟨-, -, hpost⟩ := hrun.invariant_events (P := fun m => m.outside.world = s.outside.world)
        (fun _ _ _ hm hst => (congrArg ApiWorld.world hst.2).trans hm) rfl e he
      exact hpost
    have hp : m.approvals[0]? = some p := by
      rw [hopen]
      rfl
    have htaken : (Vault.Call.approveExit (.account p.account) x.id).exec (Auth.signers [p.account]) m.outside.world =
        .ok w' := by
      rw [haccount, houtside]
      exact htakes
    have hland : ExitStep (createVaultClient addresses strkey refusal) api m (.lands 0) _ :=
      .lands hp (Approval.call_of_exitOf hproposal) hnot htaken
    exact ⟨tr, m, 0, _, p, hrun.weaken fun _ _ _ h => h.1, hstill, hland, hp, haccount, hcurrency⟩

/-- In front of the browser that knows pools 1 and 2, account 2 can approve the exit of the frozen dollar bucket. -/
theorem exit_approvable_iff_firstSheet :
    ∃ tr m i t p, Run (ExitStep firstClient true) firstSheet tr m ∧
      (∀ e ∈ tr, e.post.outside.world = firstSheet.outside.world) ∧ ExitStep firstClient true m (.lands i) t ∧
      landing ⟨m, .lands i, t⟩ = some p ∧ p.account = 2 ∧ p.view.currency = .usd := by
  have hreach : Reachable Genesis SoroSense.Step firstSheet.outside.world := (Genesis.opening (by decide)).reachable _
  obtain ⟨v, hv⟩ := isOk_iff.mp (show (Vault.valueOf firstSheet.outside.world (.account 2) .usd).isOk = true by
    decide +kernel)
  obtain ⟨w, hw⟩ := isOk_iff.mp (show ((Vault.Call.approveExit (.account 2) exitRunProposal.id).exec (Auth.signers [2])
    firstSheet.outside.world).isOk = true by decide +kernel)
  refine (exit_approvable_iff Backend.demo_upperCase hreach ⟨rfl, rfl, rfl, rfl⟩ 2 .usd).mpr ⟨⟨.inl rfl, ?_, 2, v, hv⟩, ?_⟩
  · exact ⟨.contract 1, by decide +kernel, .inr (by decide), by decide +kernel⟩
  · exact ⟨exitRunProposal, w, by decide +kernel, hw⟩

end SoroSense.Frontend
