import SoroSense.Backend.Holdings
import SoroSense.Backend.RunnerSpec
import SoroSense.System

/-!
# `Properties.RegistryLoop` — pools read from the contract, fed back into it

The registry throws for what it does not hold, its inverse passes it through. So a pool of the registry
goes out as its slug and comes back as itself, and any other pool of the contract goes out as its address
and comes back as an unknown slug (`feedsBack_iff`); with nothing configured every address passes both
ways. The holdings view never gets that far with such a pool: its id is in no catalog, so the bucket's row
is left out (`showsAll_iff`).
-/

namespace SoroSense
namespace Backend

open Fallible

/-! ## Statements -/

/-- The pool is configured: its address is the value of a demo pool's variable. -/
def Configured (env : Env) (strkey : Strkey) (p : SoroSense.Address) : Prop :=
  strkey.text p ∈ (poolRegistryEntries env).map Prod.snd

/-- `active_pool` or `pending_exit` returns the pool. -/
def Returned (w : World) (p : SoroSense.Address) : Prop :=
  ∃ c, Vault.activePool w c = some p ∨
    ∃ e, Vault.pendingExit w c = some e ∧ (e.fromPool = p ∨ e.toPool = p)

namespace VaultClient

/-- The prepared write assembles to the call. -/
def Prepares (tx : Except String PreparedTx) (call : Vault.Call) : Prop :=
  ∃ prepared, tx = .ok prepared ∧ prepared.assemble = .ok call

/-- The decoded id of the pool, given to any pool-taking method, addresses the pool. -/
structure FeedsBack (client : VaultClient) (w : World) (p : SoroSense.Address) : Prop where
  poolStatus  : client.poolStatus w (client.poolId (client.strkey.text p)) = .ok (Vault.poolStatus w p)
  allocate    : ∀ c amount, Prepares (client.allocate (client.poolId (client.strkey.text p)) c amount)
    (.allocate p c amount)
  deallocate  : ∀ c amount, Prepares (client.deallocate (client.poolId (client.strkey.text p)) c amount)
    (.deallocate p c amount)
  freeze      : Prepares (client.freeze (client.poolId (client.strkey.text p))) (.freeze p)
  fromPool    : ∀ c target q, client.Names target q →
    Prepares (client.proposeExit c (client.poolId (client.strkey.text p)) target) (.proposeExit c p q)
  toPool      : ∀ c pool q, client.Names pool q →
    Prepares (client.proposeExit c pool (client.poolId (client.strkey.text p))) (.proposeExit c q p)

/-- The holdings view's reads, at one ledger. -/
def holdingsDeps (client : VaultClient) (w : World) (fx : Currency → Result ℚ)
    (apy : Option (PoolId → Result ℚ)) (currencies : Option (List Currency)) (feeBps : Option String) :
    HoldingsDeps :=
  { balanceOf    := client.balanceOf w
    assetValueOf := client.assetValueOf w
    activePool   := fun c => .ok (client.activeSlug w c)
    poolStatus   := client.poolStatus w
    fx           := fx
    apy          := apy
    currencies   := currencies
    feeBps       := feeBps }

end VaultClient

/-- The view answers with a row for every currency in use in which `u` holds shares. -/
def ShowsAll (w : World) (u : SoroSense.Address) (depositor : Address) (deps : HoldingsDeps) : Prop :=
  ∃ holdings, getHoldings depositor deps = .ok (.ok holdings) ∧
    ∀ c ∈ deps.inUse, 0 < Vault.balanceOf w u c → ∃ h ∈ holdings, h.currency = c

/-! ## The round trip -/

variable {client : VaultClient} {w : World} {p : SoroSense.Address} {env : Env} {strkey : Strkey}
  {refusal : Panic → String}

/-- **A pool whose id names it** feeds back. -/
theorem feedsBack_of_names (h : client.Names (client.poolId (client.strkey.text p)) p) :
    client.FeedsBack w p := by
  obtain ⟨address, haddress, hparse⟩ := h
  have hwrite : ∀ call, VaultClient.Prepares (client.poolWrite (client.poolId (client.strkey.text p)) call)
      (call p) := by
    intro call
    refine ⟨_, bind_eq_ok.mpr ⟨address, haddress, rfl⟩, ?_⟩
    exact bind_eq_ok.mpr ⟨p, hparse, rfl⟩
  refine ⟨?_, fun c amount => hwrite _, fun c amount => hwrite _, hwrite _, ?_, ?_⟩
  · exact bind_eq_ok.mpr ⟨address, haddress, bind_eq_ok.mpr ⟨p, hparse, rfl⟩⟩
  · rintro c target q ⟨address', haddress', hparse'⟩
    refine ⟨_, bind_eq_ok.mpr ⟨address, haddress, bind_eq_ok.mpr ⟨address', haddress', rfl⟩⟩, ?_⟩
    exact bind_eq_ok.mpr ⟨p, hparse, bind_eq_ok.mpr ⟨q, hparse', rfl⟩⟩
  · rintro c pool q ⟨address', haddress', hparse'⟩
    refine ⟨_, bind_eq_ok.mpr ⟨address', haddress', bind_eq_ok.mpr ⟨address, haddress, rfl⟩⟩, ?_⟩
    exact bind_eq_ok.mpr ⟨q, hparse', bind_eq_ok.mpr ⟨p, hparse, rfl⟩⟩

/-- With nothing configured, ids are addresses both ways. -/
theorem names_of_unconfigured (h : poolRegistryEntries env = []) :
    (create env strkey refusal).Names ((create env strkey refusal).poolId (strkey.text p)) p := by
  have hid : (create env strkey refusal).poolId (strkey.text p) = strkey.text p := by
    unfold VaultClient.poolId create buildPoolIdResolver
    rw [if_pos h]
  have haddress : (create env strkey refusal).poolAddress (strkey.text p) = .ok (strkey.text p) := by
    unfold VaultClient.poolAddress create buildPoolRegistry
    rw [if_pos h]
  rw [hid]
  exact ⟨strkey.text p, haddress, strkey.parse_text p⟩

/-- The inverse: the slug of a configured address, -/
theorem poolId_configured (refusal : Panic → String) (h : Configured env strkey p) :
    ∃ slug, (slug, strkey.text p) ∈ poolRegistryEntries env ∧
      (create env strkey refusal).poolId (strkey.text p) = slug := by
  obtain ⟨⟨slug₀, address⟩, hmem₀, haddress⟩ := List.mem_map.mp h
  have hne : poolRegistryEntries env ≠ [] := List.ne_nil_of_mem hmem₀
  cases hg : getEntry ((poolRegistryEntries env).map fun e => (e.2, e.1)) (strkey.text p) with
  | none =>
      have hnot := getEntry_eq_none.mp hg
      rw [List.map_map] at hnot
      exact absurd h hnot
  | some slug =>
      obtain ⟨⟨slug', address'⟩, hmem, he⟩ := List.mem_map.mp (getEntry_eq_some hg)
      obtain ⟨haddress', hslug'⟩ := Prod.mk.inj he
      have haddress' : address' = strkey.text p := haddress'
      have hslug' : slug' = slug := hslug'
      subst hslug'
      rw [haddress'] at hmem
      refine ⟨slug', hmem, ?_⟩
      have hslug : slug' ≠ "" := by
        rcases (of_mem_entries hmem).1 with rfl | rfl <;> decide
      show VaultClient.poolId _ _ = slug'
      unfold VaultClient.poolId create buildPoolIdResolver
      rw [if_neg hne]
      show ((some ((getEntry _ _).getD (strkey.text p))).filter (· ≠ "")).getD (strkey.text p) = slug'
      rw [hg, Option.getD_some, Option.filter_some_pos (by simpa using hslug), Option.getD_some]

/-- … and any other address itself. -/
theorem poolId_unconfigured (h : ¬ Configured env strkey p) :
    (create env strkey refusal).poolId (strkey.text p) = strkey.text p := by
  have hg : getEntry ((poolRegistryEntries env).map fun e => (e.2, e.1)) (strkey.text p) = none := by
    rw [getEntry_eq_none, List.map_map]
    exact h
  unfold VaultClient.poolId create buildPoolIdResolver
  by_cases hne : poolRegistryEntries env = []
  · rw [if_pos hne]
  · rw [if_neg hne]
    show ((some ((getEntry _ _).getD (strkey.text p))).filter (· ≠ "")).getD (strkey.text p) = _
    rw [hg, Option.getD_none, Option.filter_some_pos (by simpa using strkey.text_ne p), Option.getD_some]

/-- The registry answers with the entries it holds, -/
theorem poolAddress_held {slug : PoolId} {address : Address} (hmem : (slug, address) ∈ poolRegistryEntries env) :
    (create env strkey refusal).poolAddress slug = .ok address := by
  have hne : poolRegistryEntries env ≠ [] := List.ne_nil_of_mem hmem
  have haddress := (of_mem_entries hmem).2
  unfold VaultClient.poolAddress create buildPoolRegistry
  simp only [if_neg hne, getEntry_of_mem hmem]
  rw [Option.filter_some_pos (by simpa using haddress)]

/-- … and throws for anything else. -/
theorem poolAddress_unheld {pool : PoolId} (hne : poolRegistryEntries env ≠ [])
    (hg : getEntry (poolRegistryEntries env) pool = none) :
    (create env strkey refusal).poolAddress pool = .error ("unknown pool: " ++ pool) := by
  unfold VaultClient.poolAddress create buildPoolRegistry
  simp only [if_neg hne, hg]
  rfl

/-- A configured pool's slug names it. -/
theorem names_of_configured (h : Configured env strkey p) :
    (create env strkey refusal).Names ((create env strkey refusal).poolId (strkey.text p)) p := by
  obtain ⟨slug, hmem, hid⟩ := poolId_configured refusal h
  rw [hid]
  exact ⟨strkey.text p, poolAddress_held hmem, strkey.parse_text p⟩

/-- No strkey spells a text with a lower-case letter. -/
theorem text_ne_of_isLower (hk : strkey.UpperCase) {text : String} (ch : Char) (hmem : ch ∈ text.toList)
    (hlower : ch.isLower = true) : strkey.text p ≠ text := by
  intro h
  rw [← h] at hmem
  rw [hk p ch hmem] at hlower
  exact absurd hlower (by simp)

/-- **An address that is not configured** is no slug: the registry throws for it. -/
theorem poolStatus_unconfigured (w : World) (refusal : Panic → String) (hk : strkey.UpperCase) (hne : poolRegistryEntries env ≠ [])
    (h : ¬ Configured env strkey p) :
    (create env strkey refusal).poolStatus w ((create env strkey refusal).poolId (strkey.text p))
      = .error ("unknown pool: " ++ strkey.text p) := by
  rw [poolId_unconfigured h]
  have hg : getEntry (poolRegistryEntries env) (strkey.text p) = none := by
    rw [getEntry_eq_none]
    intro hmem
    obtain ⟨⟨slug, address⟩, he, hslug⟩ := List.mem_map.mp hmem
    have hslug : slug = strkey.text p := hslug
    rcases (of_mem_entries he).1 with rfl | rfl
    · exact text_ne_of_isLower hk 's' (by decide) (by decide) hslug.symm
    · exact text_ne_of_isLower hk 's' (by decide) (by decide) hslug.symm
  unfold VaultClient.poolStatus
  rw [poolAddress_unheld hne hg]
  rfl

/-- **The round trip, exactly.** -/
theorem feedsBack_iff (hk : strkey.UpperCase) :
    (create env strkey refusal).FeedsBack w p ↔ poolRegistryEntries env = [] ∨ Configured env strkey p := by
  constructor
  · intro h
    by_contra hnot
    obtain ⟨hne, hconf⟩ := not_or.mp hnot
    have hthrows := poolStatus_unconfigured w refusal hk hne hconf
    exact absurd (hthrows.symm.trans h.poolStatus) (by simp)
  · rintro (hempty | hconf)
    · exact feedsBack_of_names (names_of_unconfigured hempty)
    · exact feedsBack_of_names (names_of_configured hconf)

/-! ## The holdings view -/

theorem balanceOf_text (u : SoroSense.Address) (c : Currency) :
    client.balanceOf w (client.strkey.text u) c = .ok (Vault.balanceOf w u c) :=
  bind_eq_ok.mpr ⟨u, client.strkey.parse_text u, rfl⟩

theorem assetValueOf_text {u : SoroSense.Address} {c : Currency} {v : Int} :
    client.assetValueOf w (client.strkey.text u) c = .ok v ↔ Vault.valueOf w u c = .ok v := by
  unfold VaultClient.assetValueOf
  rw [client.strkey.parse_text u]
  show (Vault.valueOf w u c).mapError client.refusal = .ok v ↔ _
  cases Vault.valueOf w u c with
  | error e => simp [Except.mapError]
  | ok x    => simp [Except.mapError]

theorem filter_activeSlug (c : Currency) :
    (client.activeSlug w c).filter (· ≠ "") = client.activeSlug w c := by
  cases h : client.activeSlug w c with
  | none      => rfl
  | some slug => exact Option.filter_some_pos (by simpa using client.activeSlug_ne_empty h)

/-- A venue that was resolved is in the catalog. -/
theorem mem_of_resolveVenue {id : PoolId} {venue : VenueMeta} (h : resolveVenue id = some venue) :
    ∃ v ∈ SAFE_VENUES, venue = toMeta v := by
  obtain ⟨v, hv, rfl⟩ := Option.map_eq_some_iff.mp h
  unfold getVenue at hv
  split at hv
  · exact absurd hv (by simp)
  · exact ⟨v, List.mem_of_find?_eq_some hv, rfl⟩

theorem foldl_best_mem {S l : List CatalogEntry} {first : CatalogEntry} (hl : ∀ v ∈ l, v ∈ S)
    (hfirst : first ∈ S) : l.foldl (fun b v => if b.apy < v.apy then v else b) first ∈ S := by
  induction l generalizing first with
  | nil => exact hfirst
  | cons v l ih =>
      rw [List.foldl_cons]
      refine ih (fun v hv => hl v (List.mem_cons_of_mem _ hv)) ?_
      split
      · exact hl v List.mem_cons_self
      · exact hfirst

/-- The catalog's own figure answers for what is in the catalog. -/
theorem catalogApy_safe : ∀ v ∈ SAFE_VENUES, ∃ x, catalogApy v.id = .ok x := by
  have hknown : ∀ v ∈ SAFE_VENUES, ∃ venue, resolveVenue v.id = some venue := by
    intro v hv
    simp only [SAFE_VENUES, List.mem_cons, List.not_mem_nil, or_false] at hv
    rcases hv with rfl | rfl | rfl | rfl | rfl | rfl | rfl <;> exact ⟨_, rfl⟩
  intro v hv
  obtain ⟨venue, hvenue⟩ := hknown v hv
  refine ⟨venue.apy, ?_⟩
  unfold catalogApy
  rw [hvenue]

/-- Every currency has a best venue, and it is in the catalog. -/
theorem bestSafeVenue_eq (c : Currency) : ∃ v ∈ SAFE_VENUES, bestSafeVenue c = some (toMeta v) := by
  have hne : getCatalog (some c) ≠ [] := by cases c <;> decide
  unfold bestSafeVenue
  cases hcat : getCatalog (some c) with
  | nil => exact absurd hcat hne
  | cons first all =>
      have hsafe : ∀ v ∈ first :: all, v ∈ SAFE_VENUES := by
        intro v hv
        rw [← hcat] at hv
        exact (List.mem_filter.mp hv).1
      exact ⟨_, foldl_best_mem hsafe (hsafe first List.mem_cons_self), rfl⟩

/-- The venue of an allocated bucket is known exactly when its pool is configured. -/
theorem resolveVenue_isSome_iff (refusal : Panic → String) (hk : strkey.UpperCase) :
    (resolveVenue ((create env strkey refusal).poolId (strkey.text p))).isSome = true ↔
      Configured env strkey p := by
  constructor
  · intro h
    by_contra hconf
    rw [poolId_unconfigured hconf] at h
    obtain ⟨venue, hvenue⟩ := Option.isSome_iff_exists.mp h
    obtain ⟨v, hv, hfound⟩ := Option.map_eq_some_iff.mp hvenue
    unfold getVenue at hv
    split at hv
    · exact absurd hv (by simp)
    · have hsel := List.find?_some hv
      have hid : v.id = strkey.text p := of_decide_eq_true hsel
      have hlower : ∀ v ∈ SAFE_VENUES, v.id.toList.any Char.isLower = true := by decide
      obtain ⟨ch, hch, hl⟩ := List.any_eq_true.mp (hlower v (List.mem_of_find?_eq_some hv))
      exact text_ne_of_isLower hk ch hch hl hid.symm
  · intro h
    obtain ⟨slug, hmem, hid⟩ := poolId_configured refusal h
    rw [hid]
    rcases (of_mem_entries hmem).1 with rfl | rfl <;> rfl

section View

variable {u : SoroSense.Address} {fx : Currency → Result ℚ} {apy : Option (PoolId → Result ℚ)}
  {currencies : Option (List Currency)} {feeBps : Option String} {c : Currency}

/-- A bucket whose pool is configured, or that has none, finds its venue, -/
theorem exists_bucketVenue (hk : strkey.UpperCase)
    (hconf : ∀ p, Vault.activePool w c = some p → Configured env strkey p) :
    ∃ v ∈ SAFE_VENUES, bucketVenue c ((create env strkey refusal).activeSlug w c) = some (toMeta v) := by
  cases hp : Vault.activePool w c with
  | none =>
      rw [VaultClient.activeSlug_of_none _ hp]
      exact bestSafeVenue_eq c
  | some p =>
      rw [VaultClient.activeSlug_of_some _ hp]
      obtain ⟨venue, hvenue⟩ :=
        Option.isSome_iff_exists.mp ((resolveVenue_isSome_iff refusal hk).mpr (hconf p hp))
      obtain ⟨v, hv, rfl⟩ := mem_of_resolveVenue hvenue
      exact ⟨v, hv, hvenue⟩

/-- … and reads its pool's status. -/
theorem exists_bucketFrozen (hk : strkey.UpperCase)
    (hconf : ∀ p, Vault.activePool w c = some p → Configured env strkey p) :
    ∃ frozen, bucketFrozen ((create env strkey refusal).holdingsDeps w fx apy currencies feeBps)
      ((create env strkey refusal).activeSlug w c) = .ok frozen := by
  cases hp : Vault.activePool w c with
  | none =>
      rw [VaultClient.activeSlug_of_none _ hp]
      exact ⟨false, rfl⟩
  | some p =>
      rw [VaultClient.activeSlug_of_some _ hp]
      have hfeeds : (create env strkey refusal).FeedsBack w p := (feedsBack_iff hk).mpr (.inr (hconf p hp))
      exact ⟨_, bind_eq_ok.mpr ⟨_, hfeeds.poolStatus, rfl⟩⟩

/-- **A row needs** a value that can be read, and a pool that is configured if there is one. -/
theorem holdingOf_iff (hk : strkey.UpperCase)
    (hfx : ∃ rate, fx c = .ok rate)
    (hapy : ∀ v ∈ SAFE_VENUES, ∃ x, (apy.getD catalogApy) v.id = .ok x)
    (hheld : 0 < Vault.balanceOf w u c) :
    (∃ h, holdingOf (strkey.text u) ((create env strkey refusal).holdingsDeps w fx apy currencies feeBps) c
        = .ok (.ok (some h))) ↔
      (∃ v, Vault.valueOf w u c = .ok v) ∧ ∀ p, Vault.activePool w c = some p → Configured env strkey p := by
  constructor
  · rintro ⟨h, hrow⟩
    obtain ⟨_, value, active, _, venue, _, _, _, _, hvalue, hactive, _, hvenue, _⟩ := holdingOf_eq_some.mp hrow
    refine ⟨⟨value, assetValueOf_text.mp hvalue⟩, ?_⟩
    intro p hp
    cases hactive
    rw [filter_activeSlug, VaultClient.activeSlug_of_some _ hp] at hvenue
    exact (resolveVenue_isSome_iff refusal hk).mp (Option.isSome_iff_exists.mpr ⟨venue, hvenue⟩)
  · rintro ⟨⟨value, hvalue⟩, hconf⟩
    obtain ⟨rate, hrate⟩ := hfx
    obtain ⟨v, hv, hvenue⟩ := exists_bucketVenue hk hconf
    obtain ⟨frozen, hfrozen⟩ := exists_bucketFrozen hk hconf
    obtain ⟨x, hx⟩ := hapy v hv
    refine ⟨_, holdingOf_eq_some.mpr ⟨_, value, _, rate, toMeta v, frozen, x, balanceOf_text u c, hheld,
      assetValueOf_text.mpr hvalue, rfl, hrate, ?_, ?_, hx, rfl⟩⟩
    · rw [filter_activeSlug]
      exact hvenue
    · rw [filter_activeSlug]
      exact hfrozen

/-- A currency without shares has no row, and no error. -/
theorem holdingOf_empty (hheld : ¬ 0 < Vault.balanceOf w u c) :
    holdingOf (strkey.text u) ((create env strkey refusal).holdingsDeps w fx apy currencies feeBps) c
      = .ok (.ok none) := by
  have hshares : (create env strkey refusal).balanceOf w (strkey.text u) c = .ok (Vault.balanceOf w u c) :=
    balanceOf_text u c
  unfold holdingOf
  refine bind_eq_ok.mpr ⟨_, hshares, ?_⟩
  rw [if_pos (not_lt.mp hheld)]

/-- **The view, exactly.** -/
theorem showsAll_iff (hk : strkey.UpperCase)
    (hfx : ∀ c ∈ currencies.getD ALL_CURRENCIES, 0 < Vault.balanceOf w u c → ∃ rate, fx c = .ok rate)
    (hapy : ∀ v ∈ SAFE_VENUES, ∃ x, (apy.getD catalogApy) v.id = .ok x) :
    ShowsAll w u (strkey.text u) ((create env strkey refusal).holdingsDeps w fx apy currencies feeBps) ↔
      ∀ c ∈ currencies.getD ALL_CURRENCIES, 0 < Vault.balanceOf w u c →
        (∃ v, Vault.valueOf w u c = .ok v) ∧ ∀ p, Vault.activePool w c = some p → Configured env strkey p := by
  constructor
  · rintro ⟨holdings, hview, hall⟩ c hc hheld
    obtain ⟨row, hrow, rfl⟩ := getHoldings_eq_ok.mp hview
    obtain ⟨h, hh, hcur⟩ := hall c hc hheld
    obtain ⟨c', hc', hmem⟩ := List.mem_flatMap.mp hh
    have hsome : row c' = some h := Option.mem_toList.mp hmem
    have hrow' := hrow c' hc'
    rw [hsome] at hrow'
    -- the row of `c` was made by the pipeline of `c`
    obtain ⟨_, _, _, _, _, _, _, _, _, _, _, _, _, _, _, hmade⟩ := holdingOf_eq_some.mp hrow'
    have hsame : c' = c := by
      rw [← hcur, ← hmade]
      rfl
    subst hsame
    exact (holdingOf_iff hk (hfx c' hc hheld) hapy hheld).mp ⟨h, hrow'⟩
  · intro hcond
    have hanswer : ∀ c ∈ currencies.getD ALL_CURRENCIES, ∃ o,
        holdingOf (strkey.text u) ((create env strkey refusal).holdingsDeps w fx apy currencies feeBps) c
          = .ok (.ok o) := by
      intro c hc
      by_cases hheld : 0 < Vault.balanceOf w u c
      · obtain ⟨h, hrow⟩ := (holdingOf_iff hk (hfx c hc hheld) hapy hheld).mpr (hcond c hc hheld)
        exact ⟨some h, hrow⟩
      · exact ⟨none, holdingOf_empty hheld⟩
    refine ⟨_, getHoldings_eq_ok.mpr ⟨fun c => rowOf (answerOf (holdingOf (strkey.text u)
      ((create env strkey refusal).holdingsDeps w fx apy currencies feeBps) c)), ?_, rfl⟩, ?_⟩
    · intro c hc
      obtain ⟨o, ho⟩ := hanswer c hc
      show holdingOf _ _ c = .ok (.ok (rowOf (answerOf (holdingOf _ _ c))))
      rw [ho]
      rfl
    · intro c hc hheld
      obtain ⟨h, hrow⟩ := (holdingOf_iff hk (hfx c hc hheld) hapy hheld).mpr (hcond c hc hheld)
      refine ⟨h, List.mem_flatMap.mpr ⟨c, hc, Option.mem_toList.mpr ?_⟩, ?_⟩
      · show rowOf (answerOf (holdingOf _ _ c)) = some h
        rw [hrow]
        rfl
      · obtain ⟨_, _, _, _, _, _, _, _, _, _, _, _, _, _, _, rfl⟩ := holdingOf_eq_some.mp hrow
        rfl

/-- **The loop, exactly.** Take any environment and any ledger, the FX and APY reads succeeding. Every pool
    the contract returns feeds back as itself and the holdings view has a row for every currency in which
    `u` holds shares **iff** nothing is configured or every pool the contract returns is, and each held
    bucket's value can be read and its active pool, if any, is configured. -/
theorem registry_loop_iff (hk : strkey.UpperCase)
    (hfx : ∀ c ∈ currencies.getD ALL_CURRENCIES, 0 < Vault.balanceOf w u c → ∃ rate, fx c = .ok rate)
    (hapy : ∀ v ∈ SAFE_VENUES, ∃ x, (apy.getD catalogApy) v.id = .ok x) :
    ((∀ p, Returned w p → (create env strkey refusal).FeedsBack w p) ∧
        ShowsAll w u (strkey.text u) ((create env strkey refusal).holdingsDeps w fx apy currencies feeBps)) ↔
      (poolRegistryEntries env = [] ∨ ∀ p, Returned w p → Configured env strkey p) ∧
        ∀ c ∈ currencies.getD ALL_CURRENCIES, 0 < Vault.balanceOf w u c →
          (∃ v, Vault.valueOf w u c = .ok v) ∧ ∀ p, Vault.activePool w c = some p → Configured env strkey p := by
  refine and_congr ?_ (showsAll_iff hk hfx hapy)
  constructor
  · intro h
    by_cases hempty : poolRegistryEntries env = []
    · exact .inl hempty
    · refine .inr fun p hp => ?_
      rcases (feedsBack_iff hk).mp (h p hp) with hnone | hconf
      · exact absurd hnone hempty
      · exact hconf
  · rintro (hempty | hall) p hp
    · exact (feedsBack_iff hk).mpr (.inl hempty)
    · exact (feedsBack_iff hk).mpr (.inr (hall p hp))

end View

/-! ## One bucket, two environments -/

/-- A thousand deposited, three hundred of it in pool 1. -/
def allocatedRun : List Action :=
  setUpPool .usd (.contract 100) 1 1000 ++ joins 2 .usd 1000 ++ [.vault [1] (.allocate (.contract 1) .usd 300)]

def allocatedWorld : World := (World.opening 1000 5000).after allocatedRun

/-- Pool `id` is the configured dollar pool. -/
def demoEnv (id : Nat) : Env :=
  fun name => if name = "YIELD_POOL_USD" then some (SoroSense.Address.contract id).strkey else none

theorem demo_upperCase : demoClient.strkey.UpperCase := by
  intro a ch hch
  have hch : ch ∈ a.strkey.toList := hch
  cases a with
  | account id =>
      rw [SoroSense.Address.strkey, String.toList_ofList] at hch
      rcases List.mem_cons.mp hch with rfl | h
      · decide
      · rw [List.eq_of_mem_replicate h]
        decide
  | contract id =>
      rw [SoroSense.Address.strkey, String.toList_ofList] at hch
      rcases List.mem_cons.mp hch with rfl | h
      · decide
      · rw [List.eq_of_mem_replicate h]
        decide

theorem registry_loop_allocated :
    Vault.balanceOf allocatedWorld (.account 2) .usd = 1000 ∧
      (∀ p, Returned allocatedWorld p →
        (create (demoEnv 1) demoClient.strkey fun _ => "").FeedsBack allocatedWorld p) ∧
      ShowsAll allocatedWorld (.account 2) (demoClient.strkey.text (.account 2))
        ((create (demoEnv 1) demoClient.strkey fun _ => "").holdingsDeps allocatedWorld (fun _ => .ok 1) none none
          none) := by
  have hconf : ∀ p, Returned allocatedWorld p → Configured (demoEnv 1) demoClient.strkey p := by
    rintro p ⟨c, hactive | ⟨e, hexit, _⟩⟩
    · have hpool : ∀ c, Vault.activePool allocatedWorld c = none ∨
          Vault.activePool allocatedWorld c = some (.contract 1) := by
        intro c
        cases c <;> decide +kernel
      rcases hpool c with hnone | hone
      · exact absurd (hnone.symm.trans hactive) (by simp)
      · obtain rfl := Option.some.inj (hone.symm.trans hactive)
        unfold Configured
        decide +kernel
    · have hnone : ∀ c, Vault.pendingExit allocatedWorld c = none := by
        intro c
        cases c <;> decide +kernel
      exact absurd ((hnone c).symm.trans hexit) (by simp)
  have hvalued : ∀ c, ∃ v, Vault.valueOf allocatedWorld (.account 2) c = .ok v := by
    intro c
    apply isOk_iff.mp
    cases c <;> decide +kernel
  refine ⟨by decide +kernel, ?_⟩
  apply (registry_loop_iff demo_upperCase (fun _ _ _ => ⟨1, rfl⟩) ?_).mpr
  · exact ⟨.inr hconf, fun c _ _ => ⟨hvalued c, fun p hp => hconf p ⟨c, .inl hp⟩⟩⟩
  · exact catalogApy_safe

/-- **A pool outside the environment.** The contract returns pool 1 while pool 2 is configured: the id
    throws when fed back, and the thousand shares have no row. -/
theorem not_registry_loop_stray :
    Transition.Reachable Genesis Step allocatedWorld ∧
      Vault.balanceOf allocatedWorld (.account 2) .usd = 1000 ∧
      Vault.activePool allocatedWorld .usd = some (.contract 1) ∧
      ¬ (create (demoEnv 2) demoClient.strkey fun _ => "").FeedsBack allocatedWorld (.contract 1) ∧
      ¬ ShowsAll allocatedWorld (.account 2) (demoClient.strkey.text (.account 2))
        ((create (demoEnv 2) demoClient.strkey fun _ => "").holdingsDeps allocatedWorld (fun _ => .ok 1) none none
          none) := by
  have hpool : Vault.activePool allocatedWorld .usd = some (.contract 1) := by decide +kernel
  have hstray : ¬ Configured (demoEnv 2) demoClient.strkey (.contract 1) := by
    unfold Configured
    decide +kernel
  refine ⟨(Genesis.opening (by decide)).reachable _, by decide +kernel, hpool, ?_, ?_⟩
  · intro h
    rcases (feedsBack_iff demo_upperCase).mp h with hnone | hconf
    · exact absurd hnone (by decide +kernel)
    · exact hstray hconf
  · intro h
    have hheld : 0 < Vault.balanceOf allocatedWorld (.account 2) .usd := by decide +kernel
    refine hstray (((showsAll_iff demo_upperCase ?_ ?_).mp h .usd (by decide) hheld).2 _ hpool)
    · intro _ _ _
      exact ⟨1, rfl⟩
    · exact catalogApy_safe

end Backend
end SoroSense
