import SoroSense.Properties.RegistryLoop
import SoroSense.Properties.SafeExits

/-!
# `Properties.ExitTargets` — the name of an exit's target

The browser and the backend each decode the contract a proposal names by a registry of their own, and their slugs
differ. The sheet looks its slug up in the backend's catalog. So it names a target only if the browser has it
configured, by the name of a venue in which the backend keeps no pool (`exit_target_names`).

* `poolId_createVaultClient` — what the browser's client makes of an address;
* `resolveVenue_browser` / `resolveVenue_backend` — what the catalog makes of either slug.
-/

namespace SoroSense.Frontend

open Backend (PoolId VaultClient Strkey ExitProposal VenueMeta Env getEntry getEntry_eq_some getEntry_eq_none resolveVenue
  resolveVenue_isSome_iff poolId_configured poolId_unconfigured of_mem_entries)
open Fallible Transition

variable {addresses : Currency → Option Backend.Address} {strkey : Strkey} {refusal : Panic → String} {slug : PoolId}
  {address : Backend.Address} {p : SoroSense.Address} {s t : ExitApp}

/-- What is configured: a currency's demo slug, under its address. -/
theorem mem_poolRegistryEntries (h : (slug, address) ∈ poolRegistryEntries addresses) :
    ∃ c, DEMO_POOL_SLUG c = some slug ∧ addresses c = some address := by
  obtain ⟨c, -, hmem⟩ := List.mem_flatMap.mp h
  cases hslug : DEMO_POOL_SLUG c with
  | none =>
      rw [hslug] at hmem
      exact absurd hmem (by simp)
  | some slug' =>
      cases haddress : (addresses c).filter (· ≠ "") with
      | none =>
          rw [hslug, haddress] at hmem
          exact absurd hmem (by simp)
      | some address' =>
          rw [hslug, haddress] at hmem
          obtain ⟨rfl, rfl⟩ := Prod.mk.inj (List.mem_singleton.mp hmem)
          exact ⟨c, hslug, (Option.filter_eq_some_iff.mp haddress).1⟩

/-- A slug is configured once. -/
theorem getEntry_poolRegistryEntries (h : (slug, address) ∈ poolRegistryEntries addresses) :
    getEntry (poolRegistryEntries addresses) slug = some address := by
  obtain ⟨c, hslug, haddress⟩ := mem_poolRegistryEntries h
  cases hg : getEntry (poolRegistryEntries addresses) slug with
  | none => exact absurd (List.mem_map.mpr ⟨_, h, rfl⟩) (getEntry_eq_none.mp hg)
  | some address' =>
      obtain ⟨c', hslug', haddress'⟩ := mem_poolRegistryEntries (getEntry_eq_some hg)
      have hsame : c' = c := by
        have hslugs := hslug'.trans hslug.symm
        revert hslugs
        cases c' <;> cases c <;> decide
      rw [← haddress, ← haddress', hsame]

/-- The slug of a configured address, -/
theorem poolId_held (strkey : Strkey) (refusal : Panic → String)
    (h : address ∈ (poolRegistryEntries addresses).map Prod.snd) :
    ((createVaultClient addresses strkey refusal).poolId address, address) ∈ poolRegistryEntries addresses := by
  obtain ⟨e₀, hmem₀, rfl⟩ := List.mem_map.mp h
  have hne : poolRegistryEntries addresses ≠ [] := List.ne_nil_of_mem hmem₀
  unfold VaultClient.poolId createVaultClient
  simp only [if_neg hne]
  cases hg : getEntry ((poolRegistryEntries addresses).map fun e => (e.2, e.1)) e₀.2 with
  | none =>
      have hnot := getEntry_eq_none.mp hg
      rw [List.map_map] at hnot
      exact absurd h hnot
  | some slug =>
      obtain ⟨e, he, hswap⟩ := List.mem_map.mp (getEntry_eq_some hg)
      obtain ⟨haddress, rfl⟩ := Prod.mk.inj hswap
      obtain ⟨c, hslug, -⟩ := mem_poolRegistryEntries he
      have hfull : e.1 ≠ "" := by
        rintro hempty
        rw [hempty] at hslug
        cases c <;> exact absurd hslug (by decide)
      have hsame : (some e.1).filter (· ≠ "") = some e.1 := Option.filter_some_pos (by simpa using hfull)
      simp only [Option.getD_some, hsame]
      rw [← haddress]
      exact he

/-- … and any other address itself. -/
theorem poolId_unheld (strkey : Strkey) (refusal : Panic → String) (hne : address ≠ "")
    (h : address ∉ (poolRegistryEntries addresses).map Prod.snd) :
    (createVaultClient addresses strkey refusal).poolId address = address := by
  have hg : getEntry ((poolRegistryEntries addresses).map fun e => (e.2, e.1)) address = none := by
    rw [getEntry_eq_none, List.map_map]
    exact h
  have hsame : (some address).filter (· ≠ "") = some address := Option.filter_some_pos (by simpa using hne)
  unfold VaultClient.poolId createVaultClient
  by_cases hempty : poolRegistryEntries addresses = []
  · simp only [if_pos hempty]
  · simp only [if_neg hempty, hg, Option.getD_none, hsame, Option.getD_some]

/-- **What the browser makes of an address**: the demo slug it is configured under, or the address itself. -/
theorem poolId_createVaultClient (addresses : Currency → Option Backend.Address) (strkey : Strkey)
    (refusal : Panic → String) (hne : address ≠ "") :
    (∃ c, DEMO_POOL_SLUG c = some ((createVaultClient addresses strkey refusal).poolId address) ∧
      addresses c = some address) ∨
    (createVaultClient addresses strkey refusal).poolId address = address := by
  by_cases h : address ∈ (poolRegistryEntries addresses).map Prod.snd
  · exact .inl (mem_poolRegistryEntries (poolId_held strkey refusal h))
  · exact .inr (poolId_unheld strkey refusal hne h)

/-- No address is an id of the catalog. -/
theorem resolveVenue_text (hk : strkey.UpperCase) (p : SoroSense.Address) : resolveVenue (strkey.text p) = none := by
  have hnone : ¬ Backend.Configured (fun _ => none) strkey p := by
    simp [Backend.Configured, Backend.poolRegistryEntries, Backend.poolEntry]
  have hself : (Backend.create (fun _ => none) strkey fun _ => "").poolId (strkey.text p) = strkey.text p :=
    poolId_unconfigured hnone
  rw [← hself]
  by_contra hsome
  exact hnone ((resolveVenue_isSome_iff _ hk).mp (Option.isSome_iff_ne_none.mpr hsome))

/-- The venue a demo slug of the browser stands for. -/
theorem resolveVenue_browser {c : Currency} {venue : VenueMeta} (h : DEMO_POOL_SLUG c = some slug)
    (hv : resolveVenue slug = some venue) : venue.name = "Blend USDC" ∨ venue.name = "Blend EURC" := by
  cases c with
  | usd =>
      obtain rfl := Option.some.inj h
      exact .inl (by rw [← Option.some.inj hv]; rfl)
  | eur =>
      obtain rfl := Option.some.inj h
      exact .inr (by rw [← Option.some.inj hv]; rfl)
  | mxn => exact absurd h (by simp [DEMO_POOL_SLUG])

/-- The venue the backend takes a contract for, if any, is one of its own pools. -/
theorem resolveVenue_backend (hk : strkey.UpperCase) {env : Env} {venue : VenueMeta}
    (h : resolveVenue ((Backend.create env strkey refusal).poolId (strkey.text p)) = some venue) :
    venue.name = "SoroSense USD pool" ∨ venue.name = "SoroSense EUR pool" := by
  have hconf := (resolveVenue_isSome_iff refusal hk).mp (Option.isSome_iff_exists.mpr ⟨venue, h⟩)
  obtain ⟨slug, hmem, hid⟩ := poolId_configured refusal hconf
  rw [hid] at h
  rcases (of_mem_entries hmem).1 with rfl | rfl
  · exact .inl (by rw [← Option.some.inj h]; rfl)
  · exact .inr (by rw [← Option.some.inj h]; rfl)

/-- **The sheet names a target by a venue it is not in.** Over every run of a browser with the backend: whenever the
    sheet names the target of a proposal, the target is a contract that the browser has configured as the demo pool of
    a currency; the name is that of the catalog's Blend venue for that currency; and whatever the backend is
    configured with, the name under which it shows that contract is another. -/
theorem exit_target_names (hk : strkey.UpperCase) {tr : List (Event ExitApp ExitAct)}
    (hw : Reachable Genesis SoroSense.Step s.outside.world)
    (h : Run (ExitStep (createVaultClient addresses strkey refusal) true) s tr t) (hs : s.Opened)
    {view : PendingExitView} {proposal : ExitProposal} {target : PoolMeta} (hpend : t.pend = some view)
    (hproposal : view.proposal = some proposal) (htarget : view.toMeta = some target) :
    ∃ x c slug, (createVaultClient addresses strkey refusal).exitOf x = proposal ∧
      Proposed t.outside.world view.currency x ∧ DEMO_POOL_SLUG c = some slug ∧
      addresses c = some (strkey.text x.toPool) ∧
      (∃ venue, resolveVenue slug = some venue ∧ target.name = venue.name) ∧
      ∀ env refusal' venue, resolveVenue ((Backend.create env strkey refusal').poolId (strkey.text x.toPool)) =
        some venue → venue.name ≠ target.name := by
  have hlast : Sheet (createVaultClient addresses strkey refusal) true t :=
    h.invariant (fun _ _ _ hi hst => hi.step hst) (hs.sheet (reachable_wf hw))
  obtain ⟨x, hx, hproposed⟩ := hlast.shows.shown.proposed view proposal hpend hproposal
  have htext : proposal.toPool = (createVaultClient addresses strkey refusal).poolId (strkey.text x.toPool) := by
    rw [← hx]
    rfl
  have hnamed := hlast.shows.shown.named view proposal target hpend hproposal htarget
  -- an address that is not configured is no id of the catalog, and not the offline one either
  have hslug : ∃ c, DEMO_POOL_SLUG c = some proposal.toPool ∧ addresses c = some (strkey.text x.toPool) := by
    rw [htext]
    rcases poolId_createVaultClient addresses strkey refusal (strkey.text_ne x.toPool) with hconf | hself
    · exact hconf
    · unfold Named at hnamed
      rw [htext, hself] at hnamed
      rcases hnamed with ⟨-, venue, hvenue, -⟩ | hoffline
      · rw [resolveVenue_text hk] at hvenue
        exact absurd hvenue (by simp)
      · unfold getPoolMeta at hoffline
        split at hoffline
        · rename_i hid
          exact absurd hid (Backend.text_ne_of_isLower hk 'p' (by decide) (by decide))
        · exact absurd hoffline (by simp)
  obtain ⟨c, hc, haddress⟩ := hslug
  have hvenue : ∃ venue, resolveVenue proposal.toPool = some venue ∧ target.name = venue.name := by
    rcases hnamed with ⟨-, hvenue⟩ | hoffline
    · exact hvenue
    · cases c with
      | usd =>
          rw [← Option.some.inj hc] at hoffline
          exact absurd hoffline (by simp [getPoolMeta])
      | eur =>
          rw [← Option.some.inj hc] at hoffline
          exact absurd hoffline (by simp [getPoolMeta])
      | mxn => exact absurd hc (by simp [DEMO_POOL_SLUG])
  refine ⟨x, c, proposal.toPool, hx, hproposed, hc, haddress, hvenue, ?_⟩
  intro env refusal' venue hbackend heq
  obtain ⟨shown, hshown, hname⟩ := hvenue
  have hblend := resolveVenue_browser hc hshown
  have hown := resolveVenue_backend hk hbackend
  rw [heq, hname] at hown
  rcases hblend with hblend | hblend <;> rcases hown with hown | hown <;>
    exact absurd (hblend.symm.trans hown) (by decide)

/-! ## Pool 2, by its name -/

/-- Account 2 is shown the exit to pool 2, which the browser knows as its demo pool for euros. -/
theorem exit_target_names_firstSheet :
    ∃ tr t view target, Run (ExitStep firstClient true) firstSheet tr t ∧ t.pend = some view ∧
      view.toMeta = some target ∧ target.name = "Blend EURC" ∧
      ∃ x, (∃ proposal, view.proposal = some proposal ∧ firstClient.exitOf x = proposal) ∧
        ∀ env refusal venue, resolveVenue ((Backend.create env Backend.demoClient.strkey refusal).poolId
          (Backend.demoClient.strkey.text x.toPool)) = some venue → venue.name ≠ target.name := by
  have hreach : Reachable Genesis SoroSense.Step firstSheet.outside.world := (Genesis.opening (by decide)).reachable _
  obtain ⟨tr, view, proposal, target, hshown, hproposal, -, htarget, hname⟩ := firstSheet_shows
  obtain ⟨x, -, -, hx, -, -, -, -, hother⟩ := exit_target_names Backend.demo_upperCase hreach hshown
    ⟨rfl, rfl, rfl, rfl⟩ rfl hproposal htarget
  exact ⟨tr, _, view, target, hshown, rfl, htarget, hname, x, ⟨proposal, hproposal, hx⟩, hother⟩

end SoroSense.Frontend
