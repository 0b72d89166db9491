import SoroSense.Properties.ExitTargets

/-!
# `Properties.HiddenExits` — a pool the browser does not know hides every exit

The hook asks for the status of each bucket's active pool in turn, dollars first. A contract that the browser's registry
does not hold decodes to its own address, which the registry then throws on; the throw ends the whole inquiry. So as long
as the dollar bucket is in such a contract the sheet shows nothing, not even a frozen euro bucket, and nothing can be
approved (`unknown_pool_hides_exits`).
-/

namespace SoroSense.Frontend

open Backend (PoolId VaultClient Strkey getEntry getEntry_eq_some feedsBack_of_names)
open Fallible Transition

variable {addresses : Currency → Option Backend.Address} {strkey : Strkey} {refusal : Panic → String} {api : Bool}
  {s t : ExitApp} {a : ExitAct} {o : ApiWorld} {p : SoroSense.Address}

/-! ## Known pools -/

/-- The browser has configured the contract, or none at all. -/
def Known (addresses : Currency → Option Backend.Address) (strkey : Strkey) (p : SoroSense.Address) : Prop :=
  poolRegistryEntries addresses = [] ∨ strkey.text p ∈ (poolRegistryEntries addresses).map Prod.snd

/-- The id the browser gives a known contract names it. -/
theorem Known.names (refusal : Panic → String) (h : Known addresses strkey p) :
    (createVaultClient addresses strkey refusal).Names
      ((createVaultClient addresses strkey refusal).poolId (strkey.text p)) p := by
  refine ⟨strkey.text p, ?_, strkey.parse_text p⟩
  have hfull : (some (strkey.text p)).filter (· ≠ "") = some (strkey.text p) :=
    Option.filter_some_pos (by simpa using strkey.text_ne p)
  rcases h with hempty | hheld
  · unfold VaultClient.poolAddress VaultClient.poolId createVaultClient
    simp only [if_pos hempty]
  · have hmem := poolId_held strkey refusal hheld
    have hne : poolRegistryEntries addresses ≠ [] := List.ne_nil_of_mem hmem
    have hentry := getEntry_poolRegistryEntries hmem
    generalize (createVaultClient addresses strkey refusal).poolId (strkey.text p) = slug at hentry
    unfold VaultClient.poolAddress createVaultClient
    simp only [if_neg hne, hentry, hfull]

/-- Its status can be asked for, -/
theorem Known.poolStatus (refusal : Panic → String) (h : Known addresses strkey p) (w : World) :
    (createVaultClient addresses strkey refusal).poolStatus w
      ((createVaultClient addresses strkey refusal).poolId (strkey.text p)) = .ok (Vault.poolStatus w p) :=
  (feedsBack_of_names (h.names refusal)).poolStatus

/-- … and that of any other contract cannot. -/
theorem poolStatus_unknown (refusal : Panic → String) (hk : strkey.UpperCase) (h : ¬ Known addresses strkey p)
    (w : World) :
    ∃ e, (createVaultClient addresses strkey refusal).poolStatus w
      ((createVaultClient addresses strkey refusal).poolId (strkey.text p)) = .error e := by
  obtain ⟨hne, hheld⟩ := not_or.mp h
  have hnone : getEntry (poolRegistryEntries addresses) (strkey.text p) = none := by
    cases hg : getEntry (poolRegistryEntries addresses) (strkey.text p) with
    | none => rfl
    | some address =>
        -- the address of a contract would be a demo slug
        obtain ⟨c, hslug, -⟩ := mem_poolRegistryEntries (getEntry_eq_some hg)
        cases c with
        | usd => exact absurd (Option.some.inj hslug).symm (Backend.text_ne_of_isLower hk 'b' (by decide) (by decide))
        | eur => exact absurd (Option.some.inj hslug).symm (Backend.text_ne_of_isLower hk 'b' (by decide) (by decide))
        | mxn => exact absurd hslug (by simp [DEMO_POOL_SLUG])
  rw [poolId_unheld strkey refusal (strkey.text_ne p) hheld]
  refine ⟨"unknown pool: " ++ strkey.text p, ?_⟩
  unfold VaultClient.poolStatus VaultClient.poolAddress createVaultClient
  simp only [if_neg hne, hnone]
  rfl

/-! ## What is hidden -/

/-- The dollar bucket's active pool is a contract that the browser does not know. -/
def Unknown (addresses : Currency → Option Backend.Address) (strkey : Strkey) (w : World) : Prop :=
  ∃ p, Vault.activePool w .usd = some p ∧ ¬ Known addresses strkey p

/-- **The hook finds nothing** while the dollar bucket is in a pool it does not know. -/
theorem yields_unknown (hk : strkey.UpperCase) (account : Option ℕ) :
    (usePendingExit (createVaultClient addresses strkey refusal) api account).Yields
      (fun _ o' => Unknown addresses strkey o'.world) (fun _ found => found = none) o := by
  cases account with
  | none => exact rfl
  | some id =>
      refine Inquiry.Yields.bind fun o₁ h₁ => Inquiry.yields_pure ?_
      obtain ⟨p, hp, hnot⟩ := h₁
      rw [VaultClient.activeSlug_of_some _ hp]
      refine Inquiry.Yields.bind (Inquiry.yields_read fun o₂ status _ hread => ?_)
      obtain ⟨e, herror⟩ := poolStatus_unknown refusal hk hnot o₂.world
      exact absurd (herror.symm.trans hread) (by simp)

/-- Nothing is shown, so nothing was pressed. -/
structure Hidden (addresses : Currency → Option Backend.Address) (strkey : Strkey) (s : ExitApp) : Prop where
  shows     : Viewer.Holds (fun _ o' => Unknown addresses strkey o'.world) (fun _ found => found = none)
    s.outside s.viewer
  approvals : s.approvals = []
  loose     : s.loose = []

theorem ExitApp.Opened.hidden (h : s.Opened) : Hidden addresses strkey s := by
  refine ⟨?_, h.approvals, h.loose⟩
  rw [h.viewer]
  exact .fresh rfl

/-- **A step of a page on which nothing is shown** lands nothing, and nothing is shown after it. -/
theorem Hidden.step (hk : strkey.UpperCase) (h : Hidden addresses strkey s)
    (hs : ExitStep (createVaultClient addresses strkey refusal) api s a t)
    (hpre : Unknown addresses strkey s.outside.world) (hpost : Unknown addresses strkey t.outside.world) :
    landing ⟨s, a, t⟩ = none ∧ Hidden addresses strkey t := by
  have hlater : Viewer.Holds (fun _ o' => Unknown addresses strkey o'.world) (fun _ found => found = none)
      t.outside s.viewer := h.shows.later (fun _ _ _ _ hx => hx) (fun _ _ _ hf _ => hf) hpost
  have hshows := hs.shows h.shows hpre rfl (fun account => yields_unknown hk account) hlater
  have hnone : ∀ q, q ∉ t.approvals ++ t.loose := by
    intro q hq
    rcases hs.origin hq with ⟨p, hp, -⟩ | ⟨-, -, hpend, -⟩
    · rw [h.approvals, h.loose] at hp
      exact absurd hp (by simp)
    · -- there is no view to approve
      exact absurd (h.shows.shown.symm.trans hpend) (by simp)
  obtain ⟨hopen, hloose⟩ := List.append_eq_nil_iff.mp (List.eq_nil_iff_forall_not_mem.mpr hnone)
  refine ⟨?_, hshows, hopen, hloose⟩
  unfold landing
  split
  · show s.approvals[_]? = none
    rw [h.approvals]
    rfl
  · show s.loose[_]? = none
    rw [h.loose]
    rfl
  · rfl

/-- **An unknown pool hides every exit.** As long as the dollar bucket's active pool is a contract that the browser has
    not configured, while another is, the sheet shows nothing: no frozen pool and no proposal of either bucket,
    whatever the account, however often the hook runs and whatever happens on the chain; and no approval of this
    browser lands. -/
theorem unknown_pool_hides_exits (hk : strkey.UpperCase) {tr : List (Event ExitApp ExitAct)}
    (h : Run (ExitStep (createVaultClient addresses strkey refusal) api) s tr t) (hs : s.Opened)
    (hw : ∀ e ∈ tr, Unknown addresses strkey e.pre.outside.world ∧ Unknown addresses strkey e.post.outside.world) :
    t.pend = none ∧ ∀ e ∈ tr, landing e = none := by
  obtain ⟨hlast, hland⟩ := h.invariant_under (I := Hidden addresses strkey) (P := fun e => landing e = none)
    (fun _ _ _ hi hst hu => hi.step hk hst hu.1 hu.2) hs.hidden hw
  exact ⟨hlast.shows.shown, hland⟩

/-- A browser that knows pool 2 only. -/
def eurosOnly (c : Currency) : Option Backend.Address :=
  if c = .eur then some (SoroSense.Address.contract 2).strkey else none

/-- Account 2 connects, and every question of the hook is answered: its dollars are in the frozen pool 1 and an exit is
    proposed, but nothing is shown. -/
theorem unknown_pool_hides_exits_firstSheet :
    ∃ tr t, Run (ExitStep (createVaultClient eurosOnly Backend.demoClient.strkey fun _ => "HostError") true) firstSheet
        tr t ∧ t.account = some 2 ∧ t.viewer.viewings = [] ∧
      Vault.poolStatus t.outside.world (.contract 1) = .frozen ∧
      (Vault.pendingExit t.outside.world .usd).isSome = true ∧ t.pend = none := by
  have hunknown : Unknown eurosOnly Backend.demoClient.strkey firstSheet.outside.world := by
    refine ⟨.contract 1, by decide +kernel, ?_⟩
    exact not_or.mpr ⟨by decide, by decide⟩
  let client : VaultClient := createVaultClient eurosOnly Backend.demoClient.strkey fun _ => "HostError"
  let connected : ExitApp := { firstSheet with account := some 2 }
  obtain ⟨looks, hlooks⟩ := Viewer.run_now firstSheet.outside none (usePendingExit client true (some 2))
  have hconnect : Run (ExitStep client true) firstSheet _ (connected.refetch client true) :=
    .single (.connect (o := some 2))
  have hread : Run (ExitStep client true) (connected.refetch client true) _ _ :=
    hlooks.map (fun v => { connected with viewer := v }) (fun _ => .look) fun e he =>
      .look (hlooks.forall_step e he)
  have hrun := hconnect.append hread
  obtain ⟨hpend, -⟩ := unknown_pool_hides_exits Backend.demo_upperCase hrun ⟨rfl, rfl, rfl, rfl⟩ fun e he => by
    -- the chain stands still
    rcases List.mem_append.mp he with he | he
    · rw [List.mem_singleton.mp he]
      exact ⟨hunknown, hunknown⟩
    · obtain ⟨e', _, rfl⟩ := List.mem_map.mp he
      exact ⟨hunknown, hunknown⟩
  exact ⟨_, _, hrun, rfl, rfl, by decide +kernel, by decide +kernel, hpend⟩

end SoroSense.Frontend
