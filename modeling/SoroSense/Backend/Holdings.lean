import SoroSense.Backend.Earnings
import SoroSense.Backend.PoolRegistry
import SoroSense.JsText

/-!
# `Backend.Holdings` — the rows of the holdings view

`backend/src/api/holdings.ts` over `backend/src/api/venue-meta.ts` and the fee of `backend/src/tools/fee.ts`.
Each currency is one pipeline of reads (`holdingOf`); the view is all of them, in order, or the first error.

A read that rejects rejects the view. JavaScript's numbers are rationals, so a rounded figure is the exact
one rounded.
-/

namespace SoroSense
namespace Backend

open Fallible

/-! ## Venue metadata -/

inductive VenueKind where
  | lending
  | vault
  | rwa
deriving DecidableEq

/-- The columns of `SAFE_VENUES` the display reads. -/
structure VenueInfo where
  name  : String
  venue : String
  kind  : VenueKind

def venueInfo (id : PoolId) : VenueInfo :=
  if id = "sorosense-usd" then ⟨"SoroSense USD pool", "SoroSense", .lending⟩
  else if id = "blend-usdc" then ⟨"Blend USDC", "Blend", .lending⟩
  else if id = "defindex-usdc" then ⟨"DeFindex USDC vault", "DeFindex", .vault⟩
  else if id = "ondo-usdy" then ⟨"Ondo USDY", "Ondo", .rwa⟩
  else if id = "sorosense-eur" then ⟨"SoroSense EUR pool", "SoroSense", .lending⟩
  else if id = "blend-eurc" then ⟨"Blend EURC", "Blend", .lending⟩
  else ⟨"Etherfuse CETES", "Etherfuse", .rwa⟩

structure VenueMeta where
  id    : PoolId
  venue : String
  name  : String
  kind  : VenueKind
  apy   : ℚ

def toMeta (v : CatalogEntry) : VenueMeta :=
  ⟨v.id, (venueInfo v.id).venue, (venueInfo v.id).name, (venueInfo v.id).kind, v.apy⟩

/-- Null for unknown or trap ids. -/
def getVenue (id : PoolId) : Option CatalogEntry :=
  if id ∈ TRAP_IDS then none else SAFE_VENUES.find? fun v => v.id = id

def resolveVenue (poolId : PoolId) : Option VenueMeta := (getVenue poolId).map toMeta

def catalogApy (poolId : PoolId) : Result ℚ :=
  match resolveVenue poolId with
  | some venue => .ok venue.apy
  | none       => .err .notFound ("unknown pool: " ++ poolId)

/-- The highest APY of a currency, the first among equals. -/
def bestSafeVenue (c : Currency) : Option VenueMeta :=
  match getCatalog (some c) with
  | []           => none
  | first :: all => some (toMeta ((first :: all).foldl (fun b v => if b.apy < v.apy then v else b) first))

/-- The last word of a name, blanks around it left out. -/
def lastWord (name : String) : String :=
  let trimmed := name.toList.reverse.dropWhile Text.isSpace
  String.ofList (trimmed.takeWhile fun ch => !Text.isSpace ch).reverse

def kindLabel (kind : VenueKind) (name : String) : String :=
  match kind with
  | .vault   => "Vault"
  | .lending => "Fixed pool"
  | .rwa     => lastWord name

/-! ## The fee -/

def DEFAULT_PERFORMANCE_FEE_BPS : Int := 100

def BPS : Int := 10000

/-- `Number.parseInt(raw, 10)`, `none` for `NaN`. -/
def parseInt (raw : String) : Option Int :=
  let body := raw.toList.dropWhile Text.isSpace
  let (sign, digits) : Int × List Char :=
    match body with
    | '-' :: rest => (-1, rest)
    | '+' :: rest => (1, rest)
    | _           => (1, body)
  match digits.takeWhile Char.isDigit with
  | [] => none
  | ds => some (sign * ds.foldl (fun n ch => 10 * n + (ch.toNat - 48 : Int)) 0)

/-- `performanceFeeBps`, of the variable's value. -/
def performanceFeeBps (raw : Option String) : Int :=
  match (raw.filter (· ≠ "")).bind parseInt with
  | some parsed => if 0 ≤ parsed ∧ parsed ≤ BPS then parsed else DEFAULT_PERFORMANCE_FEE_BPS
  | none        => DEFAULT_PERFORMANCE_FEE_BPS

/-- `netApy`: what the fee leaves, in hundredths of a percent. The product is exact here, a double there, so a
    figure on the edge between two hundredths may round the other way. -/
def toNetApy (grossApy : ℚ) (feeBps : Int) : ℚ :=
  let net := grossApy * (1 - feeBps / BPS)
  ⌊net * 100 + 1 / 2⌋ / 100

/-! ## The rows -/

structure Holding where
  currency : Currency
  name     : String
  venue    : String
  kind     : VenueKind
  tags     : List String
  apy      : ℚ
  netApy   : ℚ
  feeBps   : Int
  shares   : Int
  value    : Int
  valueUsd : ℚ
  frozen   : Bool

/-- `HoldingsDeps`: the vault's four reads, the FX, the APY, the currencies, and the fee's variable. -/
structure HoldingsDeps where
  balanceOf    : Address → Currency → Except String Int
  assetValueOf : Address → Currency → Except String Int
  activePool   : Currency → Except String (Option PoolId)
  poolStatus   : PoolId → Except String Vault.PoolStatus
  fx           : Currency → Result ℚ
  apy          : Option (PoolId → Result ℚ) := none
  currencies   : Option (List Currency) := none
  feeBps       : Option String := none

/-- `deps.apy ?? catalogApy`. -/
def HoldingsDeps.apySource (deps : HoldingsDeps) : PoolId → Result ℚ := deps.apy.getD catalogApy

/-- `deps.currencies ?? ALL_CURRENCIES`. -/
def HoldingsDeps.inUse (deps : HoldingsDeps) : List Currency := deps.currencies.getD ALL_CURRENCIES

/-- The venue of a bucket: the active pool's, or the best one for a bucket without a pool. -/
def bucketVenue (c : Currency) (pool : Option PoolId) : Option VenueMeta :=
  match pool with
  | some pool => resolveVenue pool
  | none      => bestSafeVenue c

/-- Whether the active pool is frozen. -/
def bucketFrozen (deps : HoldingsDeps) (pool : Option PoolId) : Except String Bool :=
  match pool with
  | some pool => do let status ← deps.poolStatus pool; .ok (status = .frozen)
  | none      => .ok false

/-- A row, from what was read. -/
def toHolding (deps : HoldingsDeps) (c : Currency) (venue : VenueMeta) (shares value : Int) (rate apy : ℚ)
    (frozen : Bool) : Holding :=
  let feeBps := performanceFeeBps deps.feeBps
  { currency := c
    name     := venue.name
    venue    := venue.venue
    kind     := venue.kind
    tags     := [venue.venue, kindLabel venue.kind venue.name]
    apy      := apy
    netApy   := toNetApy apy feeBps
    feeBps   := feeBps
    shares   := shares
    value    := value
    valueUsd := value / UNIT * rate
    frozen   := frozen }

/-- One currency's pipeline. -/
def holdingOf (depositor : Address) (deps : HoldingsDeps) (c : Currency) :
    Except String (Result (Option Holding)) := do
  let shares ← deps.balanceOf depositor c
  if shares ≤ 0 then .ok (.ok none)
  else do
    let value ← deps.assetValueOf depositor c
    let active ← deps.activePool c
    let pool := active.filter (· ≠ "")
    match deps.fx c, bucketVenue c pool with
    | .err code error, _   => .ok (.err code error)
    | .ok _, none          => .ok (.ok none)
    | .ok rate, some venue => do
      let frozen ← bucketFrozen deps pool
      match deps.apySource venue.id with
      | .err code error => .ok (.err code error)
      | .ok apy         => .ok (.ok (some (toHolding deps c venue shares value rate apy frozen)))

/-- The rows of the pipelines, or the first error among them. -/
def rowsOf : List (Result (Option Holding)) → Result (List Holding)
  | []                     => .ok []
  | .err code error :: _   => .err code error
  | .ok holding :: results =>
    match rowsOf results with
    | .ok holdings    => .ok (holding.toList ++ holdings)
    | .err code error => .err code error

def getHoldings (depositor : Address) (deps : HoldingsDeps) : Except String (Result (List Holding)) := do
  let results ← deps.inUse.mapM (holdingOf depositor deps)
  .ok (rowsOf results)

/-! ## What the pipelines answer -/

variable {depositor : Address} {deps : HoldingsDeps} {c : Currency}

theorem rowsOf_eq_ok {results : List (Result (Option Holding))} {holdings : List Holding} :
    rowsOf results = .ok holdings ↔
      ∃ rows : List (Option Holding), results = rows.map .ok ∧ holdings = rows.flatMap Option.toList := by
  induction results generalizing holdings with
  | nil =>
      constructor
      · intro h
        cases h
        exact ⟨[], rfl, rfl⟩
      · rintro ⟨rows, hrows, rfl⟩
        rw [List.map_eq_nil_iff.mp hrows.symm]
        rfl
  | cons r results ih =>
      cases r with
      | err code error =>
          constructor
          · intro h
            exact absurd h (by simp [rowsOf])
          · rintro ⟨rows, hrows, _⟩
            cases rows with
            | nil      => exact absurd hrows (by simp)
            | cons o l => exact absurd hrows (by simp)
      | ok o =>
          constructor
          · intro h
            cases hc : rowsOf results with
            | err code error =>
                simp only [rowsOf, hc] at h
                exact absurd h (by simp)
            | ok rest =>
                simp only [rowsOf, hc, Result.ok.injEq] at h
                obtain ⟨rows, hrows, hrest⟩ := ih.mp hc
                refine ⟨o :: rows, by rw [hrows]; rfl, ?_⟩
                rw [← h, hrest]
                rfl
          · rintro ⟨rows, hrows, rfl⟩
            cases rows with
            | nil => exact absurd hrows (by simp)
            | cons o' rows =>
                rw [List.map_cons, List.cons.injEq] at hrows
                cases hrows.1
                have hc := ih.mpr ⟨rows, hrows.2, rfl⟩
                simp only [rowsOf, hc]
                rfl

/-- What a pipeline answered, `null` for one that rejected. -/
def answerOf (x : Except String (Result (Option Holding))) : Result (Option Holding) :=
  match x with
  | .ok r    => r
  | .error _ => .ok none

/-- Its row, if it answered one. -/
def rowOf (r : Result (Option Holding)) : Option Holding :=
  match r with
  | .ok o    => o
  | .err _ _ => none

/-- **The view, currency by currency.** It answers exactly when every pipeline answers without an error, and
    then with their rows. -/
theorem getHoldings_eq_ok {holdings : List Holding} :
    getHoldings depositor deps = .ok (.ok holdings) ↔
      ∃ row : Currency → Option Holding,
        (∀ c ∈ deps.inUse, holdingOf depositor deps c = .ok (.ok (row c))) ∧
          holdings = deps.inUse.flatMap fun c => (row c).toList := by
  unfold getHoldings
  simp only [bind_eq_ok, ok_eq_ok]
  constructor
  · rintro ⟨results, hresults, hrowsOf⟩
    obtain ⟨rows, hrows, rfl⟩ := rowsOf_eq_ok.mp hrowsOf
    have hanswer : ∀ c ∈ deps.inUse,
        holdingOf depositor deps c = .ok (answerOf (holdingOf depositor deps c)) := by
      intro c hc
      obtain ⟨r, hr⟩ := isOk_of_mapM hresults c hc
      rw [hr]
      rfl
    have hmap := ok_unique hresults (mapM_eq_ok hanswer)
    rw [hrows] at hmap
    refine ⟨fun c => rowOf (answerOf (holdingOf depositor deps c)), ?_, ?_⟩
    · intro c hc
      have hmem := List.mem_map_of_mem (f := fun c => answerOf (holdingOf depositor deps c)) hc
      rw [← hmap] at hmem
      obtain ⟨o, _, ho⟩ := List.mem_map.mp hmem
      have ho : answerOf (holdingOf depositor deps c) = .ok o := ho.symm
      have hx := hanswer c hc
      rw [ho] at hx
      show holdingOf depositor deps c = .ok (.ok (rowOf (answerOf (holdingOf depositor deps c))))
      rw [hx]
      rfl
    · have hrowOf := congrArg (List.map rowOf) hmap
      rw [List.map_map, List.map_map] at hrowOf
      have hid : rowOf ∘ (Result.ok : Option Holding → _) = id := rfl
      rw [hid, List.map_id] at hrowOf
      rw [hrowOf, List.flatMap_map]
      rfl
  · rintro ⟨row, hrow, rfl⟩
    refine ⟨deps.inUse.map fun c => .ok (row c), mapM_eq_ok hrow, rowsOf_eq_ok.mpr ?_⟩
    refine ⟨deps.inUse.map row, ?_, ?_⟩
    · rw [List.map_map]
      rfl
    · rw [List.flatMap_map]

/-- **A pipeline that answers a row** read a value, found the venue and read its status. -/
theorem holdingOf_eq_some {h : Holding} :
    holdingOf depositor deps c = .ok (.ok (some h)) ↔
      ∃ shares value active rate venue frozen apy, deps.balanceOf depositor c = .ok shares ∧ 0 < shares ∧
        deps.assetValueOf depositor c = .ok value ∧ deps.activePool c = .ok active ∧ deps.fx c = .ok rate ∧
        bucketVenue c (active.filter (· ≠ "")) = some venue ∧
        bucketFrozen deps (active.filter (· ≠ "")) = .ok frozen ∧ deps.apySource venue.id = .ok apy ∧
        toHolding deps c venue shares value rate apy frozen = h := by
  unfold holdingOf
  simp only [bind_eq_ok]
  constructor
  · rintro ⟨shares, hshares, hrow⟩
    split at hrow
    · exact absurd hrow (by simp)
    · rename_i hpos
      obtain ⟨value, hvalue, hrow⟩ := bind_eq_ok.mp hrow
      obtain ⟨active, hactive, hrow⟩ := bind_eq_ok.mp hrow
      cases hfx : deps.fx c with
      | err code error =>
          simp only [hfx] at hrow
          exact absurd hrow (by simp)
      | ok rate =>
          cases hv : bucketVenue c (active.filter (· ≠ "")) with
          | none =>
              simp only [hfx, hv] at hrow
              exact absurd hrow (by simp)
          | some venue =>
              simp only [hfx, hv] at hrow
              obtain ⟨frozen, hfrozen, hrow⟩ := bind_eq_ok.mp hrow
              cases ha : deps.apySource venue.id with
              | err code error =>
                  simp only [ha] at hrow
                  exact absurd hrow (by simp)
              | ok apy =>
                  simp only [ha, ok_eq_ok, Result.ok.injEq, Option.some.injEq] at hrow
                  exact ⟨shares, value, active, rate, venue, frozen, apy, hshares, not_le.mp hpos, hvalue,
                    hactive, rfl, hv, hfrozen, ha, hrow⟩
  · rintro ⟨shares, value, active, rate, venue, frozen, apy, hshares, hpos, hvalue, hactive, hfx, hv, hfrozen, ha,
      rfl⟩
    refine ⟨shares, hshares, ?_⟩
    rw [if_neg (not_le.mpr hpos)]
    refine bind_eq_ok.mpr ⟨value, hvalue, bind_eq_ok.mpr ⟨active, hactive, ?_⟩⟩
    simp only [hfx, hv]
    exact bind_eq_ok.mpr ⟨frozen, hfrozen, by simp only [ha]⟩

end Backend
end SoroSense
