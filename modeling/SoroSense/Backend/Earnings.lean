import SoroSense.Backend.Catalog
import Mathlib.Algebra.BigOperators.Group.List.Basic
import Mathlib.Algebra.Order.Ring.Rat

/-!
# `Backend.Earnings` — the deposited-state Earn view

`backend/src/api/earnings.ts` over the snapshots of `backend/src/earnings/snapshotter.ts`. `getEarnings`
resolves the FX rates of the touched buckets, replays the whole event list for the headline and once more
for every chart sample, and reads the user's buckets out of each replay.

An outcome is a thrown `ReplayError` or a `Result`. Amounts in USD are exact rationals.

`earningsOf` is the same view computed from the user's own events alone. `getEarnings_outcome` connects the
two: `getEarnings` returns it unless the FX fails or one of the replays meets a withdrawal it cannot cover.
-/

namespace SoroSense.Backend

open Fallible

/-! ## Inputs -/

def SHARE_PRICE_SCALE : Int := 1000000000

/-- Stablecoin base unit. -/
def UNIT : Int := 10000000

def ALL_CURRENCIES : List Currency := [.usd, .eur, .mxn]

/-- One recorded price sample of a bucket. -/
structure Snapshot where
  currency : Currency
  price    : Int
  ts       : Int
deriving DecidableEq, Repr

/-- `EarningsDeps`: the vault's read, the events, the series of each currency, the FX. -/
structure EarningsDeps where
  assetValueOf : Address → Currency → Int
  events       : List VaultEvent
  snapshots    : Currency → List Snapshot
  fx           : Currency → Result ℚ
  currencies   : Option (List Currency)

/-- `deps.currencies ?? ALL_CURRENCIES`. -/
def EarningsDeps.inUse (deps : EarningsDeps) : List Currency := deps.currencies.getD ALL_CURRENCIES

/-! ## The view -/

structure BucketBreakdown where
  currency    : Currency
  nativeValue : Int
  usdValue    : ℚ
  earnedUsd   : ℚ
deriving DecidableEq

structure ChartPoint where
  ts        : Int
  valueUsd  : ℚ
  earnedUsd : ℚ
deriving DecidableEq

structure MonthlyEarned where
  label     : String
  earnedUsd : ℚ
deriving DecidableEq

structure EarningsView where
  hasDeposit : Bool
  balanceUsd : ℚ
  apy        : ℚ
  earnedUsd  : ℚ
  buckets    : List BucketBreakdown
  chart      : List ChartPoint
  monthly    : List MonthlyEarned
deriving DecidableEq

/-- `UsdStateAt`. -/
structure UsdState where
  valueUsd  : ℚ
  earnedUsd : ℚ
deriving DecidableEq

/-! ## Helpers -/

/-- Best safe-pool APY of a currency, 0 if none. -/
def bestApy (c : Currency) : ℚ := (getCatalog (some c)).foldl (fun max v => if max < v.apy then v.apy else max) 0

/-- The loop of `priceAt`: the series is read up to the first sample later than `ts`. -/
def priceFrom (ts : Int) (price : Int) : List Snapshot → Int
  | []        => price
  | s :: rest => if s.ts ≤ ts then priceFrom ts s.price rest else price

/-- `priceAt`. -/
def priceAt (snapshots : Currency → List Snapshot) (c : Currency) (ts : Int) : Int :=
  priceFrom ts SHARE_PRICE_SCALE (snapshots c)

/-- `toUsd`. -/
def toUsd (native : Int) (rate : ℚ) : ℚ := native / UNIT * rate

/-- Year and month (1 to 12) of a day counted from 1970-01-01, in the proleptic Gregorian calendar. -/
def civilMonth (day : Int) : Int × Int :=
  -- days from 0000-03-01, cut into eras of 400 years that start in March
  let z := day + 719468
  let era := z.fdiv 146097
  let doe := z - era * 146097
  let yoe := (doe - doe / 1460 + doe / 36524 - doe / 146096) / 365
  let doy := doe - (365 * yoe + yoe / 4 - yoe / 100)
  let mp := (5 * doy + 2) / 153
  let month := if mp < 10 then mp + 3 else mp - 9
  (yoe + era * 400 + (if month ≤ 2 then 1 else 0), month)

/-- `monthKey`: `YYYY-MM` in UTC. -/
def monthKey (ts : Int) : String :=
  let (year, month) := civilMonth (ts.fdiv 86400000)
  toString year ++ "-" ++ (if month < 10 then "0" ++ toString month else toString month)

/-- `cumByMonth.set`: a label keeps the place of its first sample. -/
def setMonth (label : String) (cum : ℚ) : List (String × ℚ) → List (String × ℚ)
  | []                => [(label, cum)]
  | (held, v) :: rest => if held = label then (held, cum) :: rest else (held, v) :: setMonth label cum rest

/-- What each month adds to the one before. -/
def monthDeltas (prev : ℚ) : List (String × ℚ) → List MonthlyEarned
  | []                   => []
  | (label, cum) :: rest => ⟨label, cum - prev⟩ :: monthDeltas cum rest

def monthlyOf (chart : List ChartPoint) : List MonthlyEarned :=
  monthDeltas 0 (chart.foldl (fun months p => setMonth (monthKey p.ts) p.earnedUsd months) [])

/-- The chart: the value as it is, the earned line clamped to its running maximum. -/
def chartFrom (floor : ℚ) : List (Int × UsdState) → List ChartPoint
  | []                 => []
  | (t, state) :: rest =>
      ⟨t, state.valueUsd, max floor state.earnedUsd⟩ :: chartFrom (max floor state.earnedUsd) rest

/-! ## `getEarnings` -/

/-- The events up to `t`; an event without a time counts as `0`. -/
def upTo (t : Int) (events : List VaultEvent) : List VaultEvent := events.filter fun e => decide (e.ts.getD 0 ≤ t)

/-- One bucket's part of `UsdStateAt`. -/
def bucketState (basis : CostBasis) (price : Int) (rate : ℚ) : UsdState :=
  let valueNative := (basis.shares * price).tdiv SHARE_PRICE_SCALE
  ⟨toUsd valueNative rate, toUsd (valueNative - basis.contributed) rate⟩

/-- The sum over the buckets. -/
def UsdState.total (states : List UsdState) : UsdState :=
  ⟨(states.map UsdState.valueUsd).sum, (states.map UsdState.earnedUsd).sum⟩

section
variable (user : Address) (deps : EarningsDeps)

/-- `stateAt`. -/
def stateAt (rates : Currency → Option ℚ) (t : Int) : Except ReplayError UsdState := do
  let basesAtT ← reconstructCostBasis (upTo t deps.events)
  .ok (.total (deps.inUse.map fun c =>
    bucketState (basisOf basesAtT user c) (priceAt deps.snapshots c t) ((rates c).getD 0)))

/-- The event is of this user, in a bucket of the view. -/
def inView (e : VaultEvent) : Bool := decide (e.depositor = user ∧ e.currency ∈ deps.inUse)

/-- No value and no history: the bucket moves no number. -/
def untouched (c : Currency) : Bool :=
  decide (deps.assetValueOf user c = 0) && !deps.events.any fun e => inView user deps e && decide (e.currency = c)

/-- The FX loop: a rate for every touched bucket, the first failed read ends it. -/
def resolveRates (rates : Currency → Option ℚ) : List Currency → Result (Currency → Option ℚ)
  | []        => .ok rates
  | c :: rest =>
      if untouched user deps c then resolveRates rates rest
      else
        match deps.fx c with
        | .err code error => .err code error
        | .ok rate        => resolveRates (Function.update rates c (some rate)) rest

/-- One bucket of the drill-down. -/
def breakdown (rates : Currency → Option ℚ) (contributed : Int) (c : Currency) : BucketBreakdown :=
  let nativeValue := deps.assetValueOf user c
  let rate := (rates c).getD 0
  { currency    := c
    nativeValue := nativeValue
    usdValue    := toUsd nativeValue rate
    earnedUsd   := max 0 (toUsd (nativeValue - contributed) rate) }

/-- The distinct snapshot and event times of the view, ascending. -/
def sampleTimes : List Int :=
  Timeline.distinct
    ((deps.inUse.flatMap fun c => (deps.snapshots c).map Snapshot.ts)
      ++ (deps.events.filter (inView user deps)).filterMap VaultEvent.ts)

/-- The view made of the drill-down and of the states at the sample times. -/
def assemble (buckets : List BucketBreakdown) (states : List (Int × UsdState)) : EarningsView :=
  let balanceUsd := (buckets.map BucketBreakdown.usdValue).sum
  let apyWeighted := (buckets.map fun b => bestApy b.currency * b.usdValue).sum
  let chart := chartFrom 0 states
  { hasDeposit := buckets.any fun b => decide (0 < b.nativeValue)
    balanceUsd := balanceUsd
    apy        := if 0 < balanceUsd then apyWeighted / balanceUsd else 0
    earnedUsd  := (buckets.map BucketBreakdown.earnedUsd).sum
    buckets    := buckets
    chart      := chart
    monthly    := monthlyOf chart }

/-- `getEarnings`. -/
def getEarnings : Except ReplayError (Result EarningsView) :=
  match resolveRates user deps (fun _ => none) deps.inUse with
  | .err code error => .ok (.err code error)
  | .ok rates       => do
      let allBases ← reconstructCostBasis deps.events
      let buckets := deps.inUse.map fun c => breakdown user deps rates (basisOf allBases user c).contributed c
      let states ← (sampleTimes user deps).mapM fun t => do
        let state ← stateAt user deps rates t
        .ok (t, state)
      .ok (.ok (assemble buckets states))

/-! ## The view of the user's own events -/

/-- The state at `t`, read off the user's own events. -/
def stateOf (rates : Currency → Option ℚ) (t : Int) : UsdState :=
  .total (deps.inUse.map fun c =>
    bucketState (basisFrom (bucketEvents user c (upTo t deps.events))) (priceAt deps.snapshots c t)
      ((rates c).getD 0))

/-- The view, read off the user's own events. -/
def earningsOf (rates : Currency → Option ℚ) : EarningsView :=
  assemble
    (deps.inUse.map fun c =>
      breakdown user deps rates (basisFrom (bucketEvents user c deps.events)).contributed c)
    ((sampleTimes user deps).map fun t => (t, stateOf user deps rates t))

/-- The event lists `getEarnings` replays. -/
def replayed : List (List VaultEvent) := deps.events :: (sampleTimes user deps).map fun t => upTo t deps.events

end

/-- In every list, the withdrawals of the depositors `who` are covered. -/
def CoveredFor (who : Address → Prop) (lists : List (List VaultEvent)) : Prop :=
  ∀ l ∈ lists, ∀ v, who v → ∀ c, Covered 0 (bucketEvents v c l)

variable {user : Address} {deps : EarningsDeps} {rates : Currency → Option ℚ}

/-- The state at `t` is the user's own, or the replay of the events up to `t` throws. -/
theorem stateAt_eq_ok {t : Int} {state : UsdState} :
    stateAt user deps rates t = .ok state ↔
      (∃ bases, reconstructCostBasis (upTo t deps.events) = .ok bases) ∧ stateOf user deps rates t = state := by
  unfold stateAt stateOf
  rw [bind_eq_ok]
  constructor
  · rintro ⟨bases, hb, hs⟩
    refine ⟨⟨bases, hb⟩, ?_⟩
    rw [← ok_eq_ok.mp hs]
    simp only [basisOf_eq hb]
  · rintro ⟨⟨bases, hb⟩, hs⟩
    refine ⟨bases, hb, ok_eq_ok.mpr ?_⟩
    rw [← hs]
    simp only [basisOf_eq hb]

/-! ## The rates -/

/-- A rate already resolved is resolved to the same value again. -/
theorem resolveRates_keeps {l : List Currency} {rates rates' : Currency → Option ℚ} {c : Currency} {rate : ℚ}
    (h : resolveRates user deps rates l = .ok rates') (hc : rates c = some rate) (hfx : deps.fx c = .ok rate) :
    rates' c = some rate := by
  fun_induction resolveRates user deps rates l with
  | case1 rates => exact (Result.ok.inj h) ▸ hc
  | case2 rates d rest _ ih => exact ih h hc
  | case3 => exact absurd h (by simp)
  | case4 rates d rest _ r hd ih =>
      apply ih h
      by_cases hdc : c = d
      · subst hdc
        rw [Function.update_self, Result.ok.inj (hd.symm.trans hfx)]
      · rw [Function.update_of_ne hdc, hc]

/-- Every touched bucket of the view got its rate. -/
theorem resolveRates_touched {l : List Currency} {rates rates' : Currency → Option ℚ} {c : Currency}
    (h : resolveRates user deps rates l = .ok rates') (hc : c ∈ l) (ht : untouched user deps c = false) :
    ∃ rate, deps.fx c = .ok rate ∧ rates' c = some rate := by
  fun_induction resolveRates user deps rates l with
  | case1 => exact absurd hc (by simp)
  | case2 rates d rest hd ih =>
      rcases List.mem_cons.mp hc with rfl | hc
      · exact absurd (ht.symm.trans hd) (by simp)
      · exact ih h hc
  | case3 => exact absurd h (by simp)
  | case4 rates d rest _ r hd ih =>
      rcases List.mem_cons.mp hc with rfl | hc
      · exact ⟨r, hd, resolveRates_keeps h (Function.update_self ..) hd⟩
      · exact ih h hc

theorem getEarnings_of_err {code : ErrorCode} {error : String}
    (h : resolveRates user deps (fun _ => none) deps.inUse = .err code error) :
    getEarnings user deps = .ok (.err code error) := by
  unfold getEarnings
  rw [h]

/-- **When nobody's withdrawals overdraw, the view is the user's own.** -/
theorem getEarnings_of_covered (h : resolveRates user deps (fun _ => none) deps.inUse = .ok rates)
    (hcov : CoveredFor (fun _ => True) (replayed user deps)) :
    getEarnings user deps = .ok (.ok (earningsOf user deps rates)) := by
  have hreplay : ∀ l ∈ replayed user deps, ∃ bases, reconstructCostBasis l = .ok bases := fun l hl =>
    reconstruct_isOk_iff_covered.mpr fun v c => hcov l hl v trivial c
  obtain ⟨bases, hb⟩ := hreplay _ List.mem_cons_self
  have hstates : (sampleTimes user deps).mapM (fun t => do
      let state ← stateAt user deps rates t
      .ok (t, state)) = .ok ((sampleTimes user deps).map fun t => (t, stateOf user deps rates t)) := by
    refine mapM_eq_ok fun t ht => bind_eq_ok.mpr ⟨stateOf user deps rates t, ?_, rfl⟩
    exact stateAt_eq_ok.mpr ⟨hreplay _ (List.mem_cons_of_mem _ (List.mem_map.mpr ⟨t, ht, rfl⟩)), rfl⟩
  unfold getEarnings
  rw [h]
  refine bind_eq_ok.mpr ⟨bases, hb, bind_eq_ok.mpr ⟨_, hstates, ?_⟩⟩
  unfold earningsOf
  simp only [basisOf_eq hb]

/-- **When somebody's withdrawal overdraws, there is no view.** -/
theorem covered_of_getEarnings (h : resolveRates user deps (fun _ => none) deps.inUse = .ok rates)
    {r : Result EarningsView} (hr : getEarnings user deps = .ok r) :
    CoveredFor (fun _ => True) (replayed user deps) := by
  unfold getEarnings at hr
  rw [h] at hr
  obtain ⟨bases, hb, hr⟩ := bind_eq_ok.mp hr
  obtain ⟨states, hstates, _⟩ := bind_eq_ok.mp hr
  intro l hl v _ c
  rcases List.mem_cons.mp hl with rfl | hl
  · exact reconstruct_isOk_iff_covered.mp ⟨bases, hb⟩ v c
  · obtain ⟨t, ht, rfl⟩ := List.mem_map.mp hl
    obtain ⟨p, hp⟩ := isOk_of_mapM hstates t ht
    obtain ⟨state, hstate, _⟩ := bind_eq_ok.mp hp
    exact reconstruct_isOk_iff_covered.mp (stateAt_eq_ok.mp hstate).1 v c

/-- **The outcome of `getEarnings`**: the first failed FX read, a view of the user's own events, or a throw. -/
theorem getEarnings_toOption :
    (getEarnings user deps).toOption =
      match resolveRates user deps (fun _ => none) deps.inUse with
      | .err code error => some (.err code error)
      | .ok rates       =>
          open Classical in
          if CoveredFor (fun _ => True) (replayed user deps) then some (.ok (earningsOf user deps rates)) else none := by
  cases h : resolveRates user deps (fun _ => none) deps.inUse with
  | err code error => rw [getEarnings_of_err h]; rfl
  | ok rates =>
      by_cases hcov : CoveredFor (fun _ => True) (replayed user deps)
      · rw [getEarnings_of_covered h hcov]
        simp only [if_pos hcov]
        rfl
      · simp only [if_neg hcov]
        cases hr : getEarnings user deps with
        | ok r    => exact absurd (covered_of_getEarnings h hr) hcov
        | error e => rfl

end SoroSense.Backend
