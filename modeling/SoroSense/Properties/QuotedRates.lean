import SoroSense.Backend.Rates
import SoroSense.Pools
import SoroSense.Properties.RegistryLoop
import SoroSense.Properties.Touches

/-!
# `Properties.QuotedRates` — the rate that is quoted is the rate that is paid

The rate card quotes the on-chain rate of the demo pool, which the vault's position in that pool then earns: simple
interest on what was booked when the vault last moved funds there, over the seconds that pass, to within one unit
(`quoted_rate_is_paid`). Interest earns nothing until it is booked.

* `Touched.indexAt_later` — calls that leave the rate alone leave the index alone, at every later time;
* `position_of_left_alone` — and so does a whole run; `earned_of_left_alone` is what it earns;
* `exactValue_growth` — what a position grows by.
-/

namespace SoroSense

open Compounding Fallible Transition

/-! ## Growth -/

namespace YieldPool

/-- **Simple interest**, to within one unit: an index that advances by `growth` adds its share of the principal. -/
theorem exactValue_growth {principal entryIndex index growth : Int} (h₀ : 0 ≤ principal) (he : entryIndex ≤ index)
    (hg : 0 ≤ growth) :
    |((exactValue principal entryIndex (index + growth) - exactValue principal entryIndex index : Int) : ℚ) -
      principal * growth / bpsYear| < 1 := by
  rcases eq_or_lt_of_le h₀ with rfl | hp
  · simp [exactValue]
  · have hbefore : exactValue principal entryIndex index = grow bpsYear principal (index - entryIndex) := by
      have hgrow := exactValue_eq_grow entryIndex hp (show 0 ≤ index - entryIndex by omega)
      rwa [add_sub_cancel] at hgrow
    have hafter : exactValue principal entryIndex (index + growth) =
        grow bpsYear principal (index - entryIndex + growth) := by
      have hgrow := exactValue_eq_grow entryIndex hp (show 0 ≤ index - entryIndex + growth by omega)
      rwa [← add_assoc, add_sub_cancel] at hgrow
    rw [hbefore, hafter]
    exact abs_grow_add_sub_lt bpsYear_pos

/-- Calls that leave the rate alone leave the index alone, at every later time. -/
theorem Touched.indexAt_later {s t : State} {now later : ℕ} (h : Touched now s t) (hr : t.rateBps = s.rateBps)
    (hts : s.lastIndexTs ≤ now) (hl : now ≤ later) : t.indexAt later = s.indexAt later := by
  unfold State.indexAt
  rcases h.rolls with ⟨hindex, hlast⟩ | ⟨hindex, hlast⟩
  · rw [hindex, hlast, hr]
  · rw [hindex, hlast, hr, max_eq_right hts]
    unfold State.indexAt
    have hsum : ((later - s.lastIndexTs : ℕ) : Int) = ((now - s.lastIndexTs : ℕ) : Int) + ((later - now : ℕ) : Int) := by
      omega
    rw [hsum]
    ring

end YieldPool

/-! ## A pool that is left alone -/

variable {w w' : World} {tr : List (Event World Action)} {p : Address} {s : YieldPool.State}

/-- The pool's rate, and the vault's position in it, are as they were. -/
def LeftAlone (p : Address) (w w' : World) : Prop :=
  ∃ s s', w.pools p = some s ∧ w'.pools p = some s' ∧ s'.rateBps = s.rateBps ∧
    s'.position vaultAddress = s.position vaultAddress

/-- What the vault has booked in the pool: its principal there. -/
def World.booked (w : World) (p : Address) : Int :=
  (((w.pools p).bind fun s => s.position vaultAddress).map fun pos => pos.principal).getD 0

/-- **A pool left alone** goes on as it would have without the run. -/
theorem position_of_left_alone (h : w.WF) (hr : Run Step w tr w') (hp : w.pools p = some s)
    (hkept : ∀ e ∈ tr, LeftAlone p e.pre e.post) :
    w.timestamp ≤ w'.timestamp ∧ w'.position p = s.value w'.timestamp vaultAddress := by
  have hstep : ∀ v a v', (v.WF ∧ w.timestamp ≤ v.timestamp ∧ ∃ t, v.pools p = some t ∧
      t.position vaultAddress = s.position vaultAddress ∧
      ∀ later, v.timestamp ≤ later → t.indexAt later = s.indexAt later) → Step v a v' → LeftAlone p v v' →
      True ∧ v'.WF ∧ w.timestamp ≤ v'.timestamp ∧ ∃ t, v'.pools p = some t ∧
        t.position vaultAddress = s.position vaultAddress ∧
        ∀ later, v'.timestamp ≤ later → t.indexAt later = s.indexAt later := by
    rintro v a v' ⟨hv, hle, t, ht, hpos, hindex⟩ hs ⟨t₀, t', ht₀, ht', hrate, hposition⟩
    obtain rfl := Option.some.inj (ht.symm.trans ht₀)
    have hclock := hs.timestamp_le hv
    refine ⟨trivial, hs.wf hv, hle.trans hclock, t', ht', hposition.trans hpos, fun later hlater => ?_⟩
    rcases hs.pool hv ht' with ⟨t₁, ht₁, htouched⟩ | ⟨hnone, -⟩
    · obtain rfl := Option.some.inj (ht.symm.trans ht₁)
      have hts := (hv.pool_wf p t ht).ts_le
      exact (htouched.indexAt_later hrate hts (hclock.trans hlater)).trans (hindex later (hclock.trans hlater))
    · exact absurd (hnone.symm.trans ht) (by simp)
  obtain ⟨⟨-, hle, t, ht, hpos, hindex⟩, -⟩ := hr.invariant_under
    (P := fun _ => True) (Q := fun e => LeftAlone p e.pre e.post) hstep
    ⟨h, le_refl _, s, hp, rfl, fun _ _ => rfl⟩ hkept
  refine ⟨hle, ?_⟩
  rw [World.position_of_some ht]
  exact YieldPool.State.value_congr (hindex _ (le_refl _)) hpos

/-- **What the vault's position earns**: simple interest on what is booked, to within one unit. -/
theorem earned_of_left_alone (h : w.WF) (hr : Run Step w tr w') (hp : w.pools p = some s)
    (hkept : ∀ e ∈ tr, LeftAlone p e.pre e.post) :
    |((w'.position p - w.position p : Int) : ℚ) -
      w.booked p * (s.rateBps * (w'.timestamp - w.timestamp : ℕ)) / YieldPool.bpsYear| < 1 := by
  obtain ⟨hle, hlater⟩ := position_of_left_alone h hr hp hkept
  have hwf := h.pool_wf p s hp
  rw [hlater, World.position_of_some hp]
  unfold World.booked
  rw [hp, Option.bind_some]
  cases hpos : s.position vaultAddress with
  | none =>
      rw [YieldPool.State.value_of_none hpos, YieldPool.State.value_of_none hpos]
      simp
  | some pos =>
      obtain ⟨hprincipal, -, hentry⟩ := hwf.position_wf vaultAddress pos hpos
      have hreads : s.indexAt w'.timestamp =
          s.indexAt w.timestamp + s.rateBps * ((w'.timestamp - w.timestamp : ℕ) : Int) := by
        have hsum : ((w'.timestamp - s.lastIndexTs : ℕ) : Int) =
            ((w.timestamp - s.lastIndexTs : ℕ) : Int) + ((w'.timestamp - w.timestamp : ℕ) : Int) := by
          have hts := hwf.ts_le
          omega
        unfold YieldPool.State.indexAt
        rw [hsum]
        ring
      have hadvance : 0 ≤ (s.rateBps : Int) * ((w'.timestamp - w.timestamp : ℕ) : Int) := by positivity
      have hentered : pos.entryIndex ≤ s.indexAt w.timestamp := hentry.trans YieldPool.State.index_le_indexAt
      have hgrowth := YieldPool.exactValue_growth hprincipal hentered hadvance
      rw [YieldPool.State.value_of_some hpos, YieldPool.State.value_of_some hpos, hreads]
      push_cast at hgrowth ⊢
      exact hgrowth

namespace Backend

open YieldPool (bpsYear)

variable {c : Currency} {slug : PoolId} {rt : Runtime} {text : Native → String} {env : Env} {strkey : Strkey}
  {read : Address → PoolRead} {feeVar : Option String} {currencies : List Currency} {rates : List Rate} {card : Rate}

/-- The best venue of a currency with a demo pool is that pool. -/
theorem bestSafeVenue_demo {venue : VenueMeta} (hdemo : demoPoolFor c = .ok slug)
    (hv : bestSafeVenue c = some venue) : venue.id = slug := by
  have hids : ∀ d slug venue, demoPoolFor d = .ok slug → bestSafeVenue d = some venue → venue.id = slug := by
    intro d slug venue hd hbest
    cases d with
    | usd =>
        obtain rfl := Except.ok.inj hd
        have hid : (bestSafeVenue .usd).map (·.id) = some "sorosense-usd" := by decide +kernel
        rw [hbest] at hid
        exact Option.some.inj hid
    | eur =>
        obtain rfl := Except.ok.inj hd
        have hid : (bestSafeVenue .eur).map (·.id) = some "sorosense-eur" := by decide +kernel
        rw [hbest] at hid
        exact Option.some.inj hid
    | mxn => exact absurd hd (by simp [demoPoolFor])
  exact hids c slug venue hdemo hv

/-- A venue is resolved under its own id. -/
theorem id_of_resolveVenue {id : PoolId} {venue : VenueMeta} (h : resolveVenue id = some venue) : venue.id = id := by
  obtain ⟨v, hv, rfl⟩ := Option.map_eq_some_iff.mp h
  unfold getVenue at hv
  split at hv
  · exact absurd hv (by simp)
  · have hid := List.find?_some hv
    exact of_decide_eq_true hid

/-- What a row of the holdings view quotes. -/
theorem holding_quotes {depositor : Address} {deps : HoldingsDeps} {holdings : List Holding} {row : Holding}
    (h : getHoldings depositor deps = .ok (.ok holdings)) (hrow : row ∈ holdings) :
    ∃ active venue, deps.activePool row.currency = .ok active ∧
      bucketVenue row.currency (active.filter (· ≠ "")) = some venue ∧ deps.apySource venue.id = .ok row.apy := by
  obtain ⟨rowOf, hrows, rfl⟩ := getHoldings_eq_ok.mp h
  obtain ⟨d, hd, hmem⟩ := List.mem_flatMap.mp hrow
  have hheld := hrows d hd
  rw [Option.mem_toList.mp hmem] at hheld
  obtain ⟨_, _, active, _, venue, _, _, _, _, _, hactive, _, hvenue, _, hapy, rfl⟩ := holdingOf_eq_some.mp hheld
  exact ⟨active, venue, hactive, hvenue, hapy⟩

/-- **A row of a bucket in a configured pool**, or in none, quotes that pool's rate. -/
theorem holding_quotes_pool {w : World} {p : SoroSense.Address} {n : ℕ} {refusal : Panic → String}
    {fx : Currency → Result ℚ} {inUse : Option (List Currency)} {depositor : Address} {holdings : List Holding}
    {row : Holding} (hu32 : ∀ n, rt.scValToNative (.u32 n) = .number n) (hdemo : demoPoolFor c = .ok slug)
    (hmem : (slug, strkey.text p) ∈ poolRegistryEntries env)
    (hread : read (strkey.text p) = .answered (some (.u32 n)))
    (hpool : ∀ q, Vault.activePool w c = some q → q = p)
    (h : getHoldings depositor ((create env strkey refusal).holdingsDeps w fx
      (some (makeLiveApySource rt text env read)) inUse feeVar) = .ok (.ok holdings))
    (hrow : row ∈ holdings) (hcurrency : row.currency = c) : row.apy = n / 100 := by
  obtain ⟨active, venue, hactive, hvenue, hapy⟩ := holding_quotes h hrow
  rw [hcurrency] at hactive hvenue
  cases hactive
  rw [filter_activeSlug] at hvenue
  cases hq : Vault.activePool w c with
  | none =>
      rw [VaultClient.activeSlug_of_none _ hq] at hvenue
      rw [bestSafeVenue_demo hdemo hvenue] at hapy
      exact (makeLiveApySource_held hu32 hmem hread hapy).2
  | some q =>
      obtain rfl := hpool q hq
      rw [VaultClient.activeSlug_of_some _ hq] at hvenue
      -- two currencies may share the contract; the later slug stands for it then
      obtain ⟨slug', hmem', hid⟩ := poolId_configured refusal (List.mem_map.mpr ⟨_, hmem, rfl⟩)
      have hresolved : resolveVenue slug' = some venue := hid ▸ hvenue
      rw [id_of_resolveVenue hresolved] at hapy
      exact (makeLiveApySource_held hu32 hmem' hread hapy).2

/-- **The rate that is quoted is the rate that is paid.** A rate card, read off a reachable ledger through the live
    source, quotes for a currency whose demo pool is configured a positive rate, and every row of the holdings view
    for a bucket in that pool, or in none, quotes the same. Over every run from that ledger that leaves the pool's rate
    and the vault's position in it alone, whatever else it does, the position grows by simple interest at that rate on
    what the vault had booked there, for the seconds that pass, to within one unit; and what was booked is at most
    what the position was worth. -/
theorem quoted_rate_is_paid {w w' : World} {tr : List (Event World Action)} {p : SoroSense.Address}
    {s : YieldPool.State} (hu32 : ∀ n, rt.scValToNative (.u32 n) = .number n)
    (hw : Reachable Genesis SoroSense.Step w) (hp : w.pools p = some s) (hdemo : demoPoolFor c = .ok slug)
    (hmem : (slug, strkey.text p) ∈ poolRegistryEntries env)
    (hread : read (strkey.text p) = .answered (some (.u32 s.rateBps)))
    (hrates : getRates (makeLiveApySource rt text env read) feeVar currencies = .ok rates) (hcard : card ∈ rates)
    (hcurrency : card.currency = c) (hr : Run SoroSense.Step w tr w')
    (hkept : ∀ e ∈ tr, LeftAlone p e.pre e.post) :
    0 < card.apy ∧
      (∀ refusal fx inUse depositor holdings row, (∀ q, Vault.activePool w c = some q → q = p) →
        getHoldings depositor ((create env strkey refusal).holdingsDeps w fx
          (some (makeLiveApySource rt text env read)) inUse feeVar) = .ok (.ok holdings) →
        row ∈ holdings → row.currency = c → row.apy = card.apy) ∧
      |((w'.position p - w.position p : Int) : ℚ) -
        w.booked p * (card.apy / 100) * ((w'.timestamp - w.timestamp : ℕ) : ℚ) / YieldPool.secondsPerYear| < 1 ∧
      w.booked p ≤ w.position p := by
  have hwf := reachable_wf hw
  obtain ⟨venue, rate, hvenue, hrate, hquoted⟩ := getRates_card hrates hcard
  have hapy : card.apy = rate := by
    rw [hquoted]
    rfl
  rw [hcurrency] at hvenue
  rw [bestSafeVenue_demo hdemo hvenue] at hrate
  obtain ⟨hpos, rfl⟩ := makeLiveApySource_held hu32 hmem hread hrate
  rw [hapy]
  have hearned := earned_of_left_alone hwf hr hp hkept
  refine ⟨?_, ?_, ?_, ?_⟩
  · have hrate : (0 : ℚ) < s.rateBps := by exact_mod_cast hpos
    positivity
  · intro refusal fx inUse depositor holdings row hpool hview hrow hsame
    exact holding_quotes_pool hu32 hdemo hmem hread hpool hview hrow hsame
  · have hunits : (w.booked p : ℚ) * ((s.rateBps : ℚ) / 100 / 100) * ((w'.timestamp - w.timestamp : ℕ) : ℚ) /
        YieldPool.secondsPerYear =
          w.booked p * (s.rateBps * ((w'.timestamp - w.timestamp : ℕ) : ℚ)) / bpsYear := by
      have hyear : (bpsYear : ℚ) = 10000 * YieldPool.secondsPerYear := by
        unfold bpsYear YieldPool.bps
        push_cast
        rfl
      rw [hyear]
      ring
    rw [hunits]
    exact hearned
  · unfold World.booked
    rw [World.position_of_some hp, hp, Option.bind_some]
    cases hposition : s.position vaultAddress with
    | none => rw [YieldPool.State.value_of_none hposition]; rfl
    | some pos =>
        obtain ⟨hprincipal, -, hentry⟩ := (hwf.pool_wf p s hp).position_wf vaultAddress pos hposition
        rw [YieldPool.State.value_of_some hposition]
        exact YieldPool.principal_le_exactValue hprincipal (hentry.trans YieldPool.State.index_le_indexAt)

/-- What a ledger with pool 1 at ten percent answers. -/
def tenPercent (address : Address) : PoolRead :=
  if address = (SoroSense.Address.contract 1).strkey then .answered (some (.u32 1000)) else .unconfigured

/-- Three hundred are in pool 1, which the card quotes at ten percent; a year passes. -/
theorem quoted_rate_is_paid_allocated :
    ∃ rates card, getRates (makeLiveApySource Runtime.plain (fun _ => "") (demoEnv 1) tenPercent) none [.usd] =
        .ok rates ∧ card ∈ rates ∧ card.currency = .usd ∧
      ∃ tr w', Run SoroSense.Step allocatedWorld tr w' ∧ w'.timestamp = 31536000 ∧
        |((w'.position (.contract 1) - allocatedWorld.position (.contract 1) : Int) : ℚ) -
          300 * (card.apy / 100) * (31536000 : ℕ) / YieldPool.secondsPerYear| < 1 := by
  have hreach : Reachable Genesis SoroSense.Step allocatedWorld := (Genesis.opening (by decide)).reachable _
  obtain ⟨s, hs⟩ : ∃ s, allocatedWorld.pools (.contract 1) = some s :=
    Option.isSome_iff_exists.mp (by decide +kernel)
  have hrate : s.rateBps = 1000 := by
    have hmap : (allocatedWorld.pools (.contract 1)).map (·.rateBps) = some 1000 := by decide +kernel
    rw [hs] at hmap
    exact Option.some.inj hmap
  have hread : tenPercent (demoClient.strkey.text (.contract 1)) = .answered (some (.u32 s.rateBps)) := by
    rw [hrate]
    exact if_pos rfl
  have hcard : ∃ rates card, getRates (makeLiveApySource Runtime.plain (fun _ => "") (demoEnv 1) tenPercent) none [.usd] =
      .ok rates ∧ card ∈ rates ∧ card.currency = .usd := by
    refine ⟨[toRate 100 .usd ⟨"sorosense-usd", "SoroSense", "SoroSense USD pool", .lending, 10⟩ 10], _, ?_,
      List.mem_singleton_self _, rfl⟩
    decide +kernel
  obtain ⟨rates, card, hrates, hmem, hcurrency⟩ := hcard
  have hzero : allocatedWorld.timestamp = 0 := by decide +kernel
  obtain ⟨w', hx⟩ := isOk_iff.mp (show ((Action.advance 31536000).exec allocatedWorld).isOk = true by decide +kernel)
  have hw' : w' = { allocatedWorld with timestamp := 31536000 } := by
    simp only [Action.exec, bind_eq_ok, failIf_eq_ok, ok_eq_ok, exists_const] at hx
    exact hx.2.symm
  have hrun : Run SoroSense.Step allocatedWorld _ w' := .single (.done hx)
  obtain ⟨-, -, hpaid, -⟩ := quoted_rate_is_paid (fun _ => rfl) hreach hs rfl
    (by decide +kernel) hread hrates hmem hcurrency hrun fun e he => by
      rw [List.mem_singleton.mp he, hw']
      exact ⟨s, s, hs, hs, rfl, rfl⟩
  have hbooked : allocatedWorld.booked (.contract 1) = 300 := by decide +kernel
  have hlater : w'.timestamp = 31536000 := by rw [hw']
  rw [hbooked, hlater, hzero] at hpaid
  exact ⟨rates, card, hrates, hmem, hcurrency, _, w', hrun, hlater, hpaid⟩

end Backend
end SoroSense
