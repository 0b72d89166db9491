import SoroSense.Backend.EventReader
import SoroSense.Backend.Holdings
import SoroSense.Backend.PoolRegistry

/-!
# `Backend.Rates` — the rates the backend quotes

`tools/pool-rate.ts`, `api/live-apy.ts` and `api/rates.ts`. A pool's rate is read off the ledger by simulating its
`rate_bps`; the source of live rates does so for the pools the environment configures and asks the catalog about the
others. What the simulation of a pool comes to is `PoolRead`; `text` is JavaScript's `String`.
-/

namespace SoroSense.Backend

/-! ## One pool's rate (`pool-rate.ts`) -/

/-- What a reader gets to see: its transport may be unconfigured or misbuilt, and may stall, fail or answer. -/
inductive PoolRead where
  | unconfigured
  | misconfigured (cause : String)
  | stalled
  | failed (cause : String)
  | answered (retval : Option ScVal)

/-- A `u32` of basis points as a percentage; nothing else passes, nor a rate of zero. -/
def decodeRate (rt : Runtime) (text : Native → String) (poolAddress : Address) : Option ScVal → Result ℚ
  | none        => .err .unavailable ("yield pool returned nothing for " ++ poolAddress)
  | some retval =>
    let native := rt.scValToNative retval
    let refused : Result ℚ := .err .parse
      ("yield pool rate for " ++ poolAddress ++ " is not a positive bps u32 (" ++ text native ++ ")")
    match native with
    | .bigint bps => if bps ≤ 0 then refused else .ok (bps / 100)
    | .number bps => if bps.den ≠ 1 ∨ bps ≤ 0 then refused else .ok (bps / 100)
    | _           => refused

/-- `makePoolRateReader`. -/
def makePoolRateReader (rt : Runtime) (text : Native → String) (poolAddress : Address) : PoolRead → Result ℚ
  | .unconfigured        =>
    .err .unavailable "yield pool not configured (STELLAR_RPC_URL / _PASSPHRASE / pool id)"
  | .misconfigured cause => .err .unavailable ("yield pool is misconfigured: " ++ cause)
  | .stalled             => .err .timeout ("yield pool rate_bps(" ++ poolAddress ++ ") timed out")
  | .failed cause        => .err .unavailable ("yield pool rate_bps(" ++ poolAddress ++ ") failed: " ++ cause)
  | .answered retval     => decodeRate rt text poolAddress retval

/-! ## The live source (`live-apy.ts`) -/

/-- `makeLiveApySource`. The readers are kept under the slugs of the registry, for the same variables. -/
def makeLiveApySource (rt : Runtime) (text : Native → String) (env : Env) (read : Address → PoolRead) (poolId : PoolId) :
    Result ℚ :=
  match getEntry (poolRegistryEntries env) poolId with
  | some address => makePoolRateReader rt text address (read address)
  | none         => catalogApy poolId

/-! ## The rate card (`rates.ts`) -/

structure Rate where
  currency : Currency
  name     : String
  venue    : String
  kind     : VenueKind
  tags     : List String
  apy      : ℚ
  netApy   : ℚ
  feeBps   : Int
deriving DecidableEq

/-- A card, of the venue and its rate. -/
def toRate (feeBps : Int) (c : Currency) (venue : VenueMeta) (apy : ℚ) : Rate :=
  { currency := c
    name     := venue.name
    venue    := venue.venue
    kind     := venue.kind
    tags     := [venue.venue, kindLabel venue.kind venue.name]
    apy      := apy
    netApy   := toNetApy apy feeBps
    feeBps   := feeBps }

/-- `getRates`; `feeVar` is the fee's variable. -/
def getRates (apy : PoolId → Result ℚ) (feeVar : Option String) : List Currency → Result (List Rate)
  | []        => .ok []
  | c :: rest =>
    match bestSafeVenue c with
    | none       => getRates apy feeVar rest
    | some venue =>
      match apy venue.id with
      | .err code error => .err code error
      | .ok rate        =>
        match getRates apy feeVar rest with
        | .err code error => .err code error
        | .ok rates       => .ok (toRate (performanceFeeBps feeVar) c venue rate :: rates)

/-! ## What is answered -/

variable {apy : PoolId → Result ℚ} {feeVar : Option String} {currencies : List Currency} {rates : List Rate} {card : Rate}

/-- **A card quotes the rate of its currency's best venue.** -/
theorem getRates_card (h : getRates apy feeVar currencies = .ok rates) (hcard : card ∈ rates) :
    ∃ venue rate, bestSafeVenue card.currency = some venue ∧ apy venue.id = .ok rate ∧
      card = toRate (performanceFeeBps feeVar) card.currency venue rate := by
  induction currencies generalizing rates with
  | nil =>
      cases h
      exact absurd hcard (by simp)
  | cons c rest ih =>
      unfold getRates at h
      cases hv : bestSafeVenue c with
      | none =>
          simp only [hv] at h
          exact ih h hcard
      | some venue =>
          cases hr : apy venue.id with
          | err code error =>
              simp only [hv, hr] at h
              exact absurd h (by simp)
          | ok rate =>
              cases hrest : getRates apy feeVar rest with
              | err code error =>
                  simp only [hv, hr, hrest] at h
                  exact absurd h (by simp)
              | ok others =>
                  simp only [hv, hr, hrest, Result.ok.injEq] at h
                  rw [← h] at hcard
                  rcases List.mem_cons.mp hcard with rfl | hcard
                  · exact ⟨venue, rate, hv, hr, rfl⟩
                  · exact ih hrest hcard

/-- The rate of a configured pool is read off the ledger. -/
theorem makeLiveApySource_held {rt : Runtime} {text : Native → String} {env : Env} {read : Address → PoolRead}
    {slug : PoolId} {address : Address} {n : ℕ} (hu32 : ∀ n, rt.scValToNative (.u32 n) = .number n)
    (hmem : (slug, address) ∈ poolRegistryEntries env) (hread : read address = .answered (some (.u32 n))) {rate : ℚ}
    (h : makeLiveApySource rt text env read slug = .ok rate) : 0 < n ∧ rate = n / 100 := by
  unfold makeLiveApySource at h
  simp only [getEntry_of_mem hmem, hread, makePoolRateReader, decodeRate, hu32] at h
  split at h
  · exact absurd h (by simp)
  · rename_i hpos
    refine ⟨?_, (Result.ok.inj h).symm⟩
    have hn : ¬ (n : ℚ) ≤ 0 := (not_or.mp hpos).2
    exact_mod_cast not_le.mp hn

end SoroSense.Backend
