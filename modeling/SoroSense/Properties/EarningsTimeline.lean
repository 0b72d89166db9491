import SoroSense.Properties.TotalEarned
import SoroSense.Backend.Months

/-!
# `Properties.EarningsTimeline` — the chart and the months agree

The chart is sampled at the snapshot and event times and its earned line is a running maximum; the months are
cut out of that line. `Grouped` is what the cutting keeps: of each month its last sample, in the order of the
chart, so that the monthly figures inherit the line's order and telescope to its last point.

The clamp apart, a deposit moves the earned figure by what its shares are worth less what was paid for them.
-/

namespace SoroSense.Backend

open Fallible

variable {user : Address} {deps : EarningsDeps} {view : EarningsView}

/-! ## The chart -/

theorem ts_chartFrom (floor : ℚ) (states : List (Int × UsdState)) :
    (chartFrom floor states).map ChartPoint.ts = states.map Prod.fst := by
  induction states generalizing floor with
  | nil => rfl
  | cons p rest ih =>
      show _ :: (chartFrom _ rest).map ChartPoint.ts = _ :: rest.map Prod.fst
      rw [ih]

/-- The chart of a view, sample by sample. -/
theorem chart_ts (h : getEarnings user deps = .ok (.ok view)) :
    view.chart.map ChartPoint.ts = sampleTimes user deps := by
  rw [view_eq h]
  show (chartFrom 0 _).map ChartPoint.ts = _
  rw [ts_chartFrom, List.map_map]
  exact List.map_id _

/-- The earned line never falls, and starts from nothing. -/
theorem chart_earned (h : getEarnings user deps = .ok (.ok view)) :
    (view.chart.map ChartPoint.earnedUsd).Pairwise (· ≤ ·) ∧
      ∀ p ∈ view.chart, 0 ≤ p.earnedUsd := by
  have hline : view.chart.map ChartPoint.earnedUsd
      = Timeline.peaks 0 (((sampleTimes user deps).map fun t => (t, stateOf user deps deps.quoted t)).map
          fun p => p.2.earnedUsd) := by
    rw [view_eq h]
    exact earned_chartFrom 0 _
  obtain ⟨hsorted, hfloor⟩ := Timeline.pairwise_peaks (0 : ℚ)
    (((sampleTimes user deps).map fun t => (t, stateOf user deps deps.quoted t)).map fun p => p.2.earnedUsd)
  rw [← hline] at hsorted hfloor
  exact ⟨hsorted, fun p hp => hfloor _ (List.mem_map_of_mem hp)⟩

/-! ## The months -/

section Months

variable {months : List (String × ℚ)} {label : String} {cum v : ℚ} {chart : List ChartPoint} {p : ChartPoint}

/-- A label not seen before comes last. -/
theorem setMonth_new (h : label ∉ months.map Prod.fst) : setMonth label cum months = months ++ [(label, cum)] := by
  induction months with
  | nil => rfl
  | cons m months ih =>
      obtain ⟨held, w⟩ := m
      rw [List.map_cons, List.mem_cons, not_or] at h
      unfold setMonth
      rw [if_neg (fun he => h.1 he.symm), ih h.2]
      rfl

/-- The last label is set in place. -/
theorem setMonth_last (h : label ∉ months.map Prod.fst) :
    setMonth label cum (months ++ [(label, v)]) = months ++ [(label, cum)] := by
  induction months with
  | nil => exact if_pos rfl
  | cons m months ih =>
      obtain ⟨held, w⟩ := m
      rw [List.map_cons, List.mem_cons, not_or] at h
      show setMonth label cum ((held, w) :: (months ++ [(label, v)])) = _
      unfold setMonth
      rw [if_neg (fun he => h.1 he.symm), ih h.2]
      rfl

/-- **The entries are the last samples of the chart's months, in the order of the chart.** -/
structure Grouped (chart : List ChartPoint) (months : List (String × ℚ)) (ends : List ChartPoint) : Prop where
  entries : months = ends.map fun p => (monthKey p.ts, p.earnedUsd)
  sublist : ends.Sublist chart
  ascends : ends.Pairwise fun p p' => monthNumber p.ts < monthNumber p'.ts
  last    : ends.getLast? = chart.getLast?

/-- A later month than all of the chart's is a new label. -/
theorem Grouped.label_new {ends : List ChartPoint} (h : ∀ q ∈ ends, monthNumber q.ts < monthNumber p.ts) :
    monthKey p.ts ∉ (ends.map fun p => (monthKey p.ts, p.earnedUsd)).map Prod.fst := by
  rw [List.map_map]
  intro hmem
  obtain ⟨q, hq, hlabel⟩ := List.mem_map.mp hmem
  have hmonth := monthKey_eq_iff.mp hlabel
  exact absurd (h q hq) (by omega)

/-- One more sample, not before the last. -/
theorem Grouped.concat {ends : List ChartPoint} (h : Grouped chart months ends) (hp : ∀ q ∈ chart, q.ts ≤ p.ts) :
    ∃ ends', Grouped (chart ++ [p]) (setMonth (monthKey p.ts) p.earnedUsd months) ends' := by
  obtain ⟨rfl, hsub, hasc, hlast⟩ := h
  have hle : ∀ q ∈ ends, monthNumber q.ts ≤ monthNumber p.ts := fun q hq => monthNumber_mono (hp q (hsub.subset hq))
  induction ends using List.reverseRecOn with
  | nil =>
      refine ⟨[p], rfl, ?_, List.pairwise_singleton _ _, by simp⟩
      exact List.sublist_append_right chart [p]
  | append_singleton ends q _ =>
      obtain ⟨hbefore, _, hq⟩ := List.pairwise_append.mp hasc
      have hqp : monthNumber q.ts ≤ monthNumber p.ts := hle q (List.mem_append_right ends List.mem_cons_self)
      have hends : ∀ r ∈ ends, monthNumber r.ts < monthNumber q.ts := fun r hr => hq r hr q List.mem_cons_self
      rcases lt_or_eq_of_le hqp with hlt | heq
      · -- the first sample of its month
        have hnew : ∀ r ∈ ends ++ [q], monthNumber r.ts < monthNumber p.ts := by
          intro r hr
          rcases List.mem_append.mp hr with hr | hr
          · exact lt_trans (hends r hr) hlt
          · exact (List.mem_singleton.mp hr) ▸ hlt
        refine ⟨ends ++ [q] ++ [p], ?_, hsub.append (List.Sublist.refl [p]), ?_, by simp⟩
        · rw [setMonth_new (Grouped.label_new hnew)]
          simp
        · apply List.pairwise_append.mpr
          exact ⟨hasc, List.pairwise_singleton _ _, fun r hr s hs => (List.mem_singleton.mp hs) ▸ hnew r hr⟩
      · -- a later sample of the last month
        have hlabel : monthKey q.ts = monthKey p.ts := monthKey_eq_iff.mpr heq
        have hnew : ∀ r ∈ ends, monthNumber r.ts < monthNumber p.ts := fun r hr => heq ▸ hends r hr
        refine ⟨ends ++ [p], ?_, ?_, ?_, by simp⟩
        · rw [List.map_append, List.map_singleton, hlabel, setMonth_last (Grouped.label_new hnew)]
          simp
        · have hfront : ends.Sublist chart := (List.sublist_append_left ends [q]).trans hsub
          exact hfront.append (List.Sublist.refl [p])
        · apply List.pairwise_append.mpr
          exact ⟨hbefore, List.pairwise_singleton _ _, fun r hr s hs => (List.mem_singleton.mp hs) ▸ hnew r hr⟩

theorem exists_grouped (hts : (chart.map ChartPoint.ts).Pairwise (· < ·)) :
    ∃ ends, Grouped chart (chart.foldl (fun months p => setMonth (monthKey p.ts) p.earnedUsd months) []) ends := by
  induction chart using List.reverseRecOn with
  | nil => exact ⟨[], rfl, List.Sublist.refl [], List.Pairwise.nil, rfl⟩
  | append_singleton chart p ih =>
      rw [List.map_append, List.pairwise_append] at hts
      obtain ⟨hfront, _, hlast⟩ := hts
      obtain ⟨ends, hends⟩ := ih hfront
      rw [List.foldl_append]
      apply hends.concat
      intro q hq
      exact le_of_lt (hlast q.ts (List.mem_map_of_mem hq) p.ts (List.mem_map_of_mem List.mem_cons_self))

theorem label_monthDeltas (prev : ℚ) :
    (monthDeltas prev months).map MonthlyEarned.label = months.map Prod.fst := by
  induction months generalizing prev with
  | nil => rfl
  | cons m months ih =>
      show _ :: (monthDeltas _ months).map MonthlyEarned.label = _ :: months.map Prod.fst
      rw [ih]

/-- The months add up to the last cumulative figure. -/
theorem sum_monthDeltas (prev : ℚ) :
    ((monthDeltas prev months).map MonthlyEarned.earnedUsd).sum = (months.getLast?.map Prod.snd).getD prev - prev := by
  induction months generalizing prev with
  | nil => exact (sub_self prev).symm
  | cons m months ih =>
      show m.2 - prev + ((monthDeltas m.2 months).map MonthlyEarned.earnedUsd).sum = _
      rw [ih]
      cases months with
      | nil => simp
      | cons m' months =>
          obtain ⟨final, hfinal⟩ : ∃ final, (m' :: months).getLast? = some final :=
            ⟨_, List.getLast?_eq_some_getLast (List.cons_ne_nil m' months)⟩
          rw [List.getLast?_cons_cons, hfinal]
          show m.2 - prev + (final.2 - m.2) = final.2 - prev
          ring

theorem monthDeltas_nonneg {prev : ℚ} (hprev : ∀ m ∈ months, prev ≤ m.2)
    (h : (months.map Prod.snd).Pairwise (· ≤ ·)) : ∀ e ∈ monthDeltas prev months, 0 ≤ e.earnedUsd := by
  induction months generalizing prev with
  | nil => exact fun e he => absurd he (by simp [monthDeltas])
  | cons m months ih =>
      rw [List.map_cons, List.pairwise_cons] at h
      intro e he
      rcases List.mem_cons.mp he with rfl | he
      · exact sub_nonneg.mpr (hprev m List.mem_cons_self)
      · exact ih (fun m' hm' => h.1 _ (List.mem_map_of_mem hm')) h.2 e he

end Months

/-! ## A deposit is never profit -/

/-- Every event carries a time, and times do not descend along `seq`. -/
structure Timed (events : List VaultEvent) : Prop where
  stamped : ∀ e ∈ events, ∃ t, e.ts = some t
  ordered : ∀ e ∈ events, ∀ e' ∈ events, e.seq ≤ e'.seq → ∀ t t', e.ts = some t → e'.ts = some t' → t ≤ t'

/-- The price of the last sample at or before `ts`, `SHARE_PRICE_SCALE` if there is none. -/
def latestPrice (series : List Snapshot) (ts : Int) : Int :=
  ((series.filter fun s => decide (s.ts ≤ ts)).getLast?.map Snapshot.price).getD SHARE_PRICE_SCALE

theorem priceFrom_eq {series : List Snapshot} (h : (series.map Snapshot.ts).Pairwise (· ≤ ·)) (ts price : Int) :
    priceFrom ts price series
      = ((series.filter fun s => decide (s.ts ≤ ts)).getLast?.map Snapshot.price).getD price := by
  induction series generalizing price with
  | nil => rfl
  | cons s rest ih =>
      rw [List.map_cons, List.pairwise_cons] at h
      unfold priceFrom
      by_cases hs : s.ts ≤ ts
      · rw [if_pos hs, ih h.2, List.filter_cons_of_pos (by simpa using hs), List.getLast?_cons]
        cases (rest.filter fun s => decide (s.ts ≤ ts)).getLast? <;> rfl
      · -- the series ascends, so nothing after a sample that is too late is in time
        have hlate : rest.filter (fun s => decide (s.ts ≤ ts)) = [] := by
          apply List.filter_eq_nil_iff.mpr
          intro s' hs'
          have hle := h.1 _ (List.mem_map_of_mem hs')
          simp only [decide_eq_true_eq]
          omega
        rw [if_neg hs, List.filter_cons_of_neg (by simpa using hs), hlate]
        rfl

/-- Over an ascending series `priceAt` is the latest price. -/
theorem priceAt_eq {snapshots : Currency → List Snapshot} {c : Currency}
    (h : ((snapshots c).map Snapshot.ts).Pairwise (· ≤ ·)) (ts : Int) :
    priceAt snapshots c ts = latestPrice (snapshots c) ts := priceFrom_eq h ts SHARE_PRICE_SCALE

/-- Whole amounts added before a truncated division add no less than after it. -/
theorem tdiv_add_mul_le {x a k : Int} (hk : 0 < k) (ha : 0 ≤ a) : (x + a * k).tdiv k ≤ x.tdiv k + a := by
  rcases le_total 0 x with hx | hx
  · rw [Int.tdiv_eq_ediv_of_nonneg hx, Int.tdiv_eq_ediv_of_nonneg (add_nonneg hx (mul_nonneg ha (le_of_lt hk))),
      Int.add_mul_ediv_right x a (ne_of_gt hk)]
  · -- below zero the quotient is rounded up, so crossing zero can only lose
    have hup : x ≤ x.tdiv k * k := by
      have hneg : (-x) / k * k ≤ -x := Int.ediv_mul_le (-x) (ne_of_gt hk)
      have htdiv : x.tdiv k = -((-x) / k) := by
        rw [← Int.tdiv_eq_ediv_of_nonneg (by omega : 0 ≤ -x), Int.neg_tdiv, neg_neg]
      rw [htdiv]
      linarith
    have hmono : (x + a * k).tdiv k ≤ ((x.tdiv k + a) * k).tdiv k := by
      apply Int.tdiv_le_tdiv hk
      linarith
    rwa [Int.mul_tdiv_cancel _ (ne_of_gt hk)] at hmono

/-- A deposit that pays at least the latest price earns its bucket nothing. -/
theorem bucketState_deposit {basis : CostBasis} {price shares amount : Int} {rate : ℚ} (hrate : 0 ≤ rate)
    (hamount : 0 ≤ amount) (hprice : shares * price ≤ amount * SHARE_PRICE_SCALE) :
    (bucketState ⟨basis.shares + shares, basis.contributed + amount⟩ price rate).earnedUsd
      ≤ (bucketState basis price rate).earnedUsd := by
  have hscale : (0 : Int) < SHARE_PRICE_SCALE := by decide
  have hvalue : ((basis.shares + shares) * price).tdiv SHARE_PRICE_SCALE
      ≤ (basis.shares * price).tdiv SHARE_PRICE_SCALE + amount := by
    refine le_trans (Int.tdiv_le_tdiv hscale ?_) (tdiv_add_mul_le hscale hamount)
    rw [add_mul]
    exact add_le_add (le_refl _) hprice
  show toUsd (_ - (basis.contributed + amount)) rate ≤ toUsd (_ - basis.contributed) rate
  rw [← sub_nonneg, toUsd_sub]
  apply toUsd_nonneg _ hrate
  dsimp only
  omega

theorem upTo_concat {ev : VaultEvent} {t : Int} {events : List VaultEvent} (h : upTo t events = events)
    (hts : ev.ts = some t) : upTo t (events ++ [ev]) = events ++ [ev] := by
  unfold upTo at h ⊢
  rw [List.filter_append, h]
  simp [hts]

/-- A deposit appended after every other event. -/
theorem stateOf_deposit {ev : VaultEvent} {t : Int} {rates : Currency → Option ℚ}
    (hlast : ∀ e ∈ deps.events, e.seq ≤ ev.seq) (hall : ∀ e ∈ deps.events, e.ts.getD 0 ≤ t) (hts : ev.ts = some t)
    (hk : ev.kind = .deposit) (hamount : 0 ≤ ev.amount)
    (hprice : ev.shares * priceAt deps.snapshots ev.currency t ≤ ev.amount * SHARE_PRICE_SCALE)
    (hrates : ∀ c rate, rates c = some rate → 0 ≤ rate)
    (hcov : ∀ c, Covered 0 (bucketEvents user c deps.events)) :
    (stateOf user { deps with events := deps.events ++ [ev] } rates t).earnedUsd
      ≤ (stateOf user deps rates t).earnedUsd := by
  have hupTo : upTo t deps.events = deps.events :=
    List.filter_eq_self.mpr fun e he => decide_eq_true (hall e he)
  have hupTo' : upTo t (deps.events ++ [ev]) = deps.events ++ [ev] := upTo_concat hupTo hts
  unfold stateOf
  rw [hupTo]
  dsimp only
  rw [hupTo']
  show ((deps.inUse.map _).map UsdState.earnedUsd).sum ≤ ((deps.inUse.map _).map UsdState.earnedUsd).sum
  rw [List.map_map, List.map_map]
  apply List.sum_le_sum
  intro c _
  show (bucketState _ _ _).earnedUsd ≤ (bucketState _ _ _).earnedUsd
  have hrate : 0 ≤ (rates c).getD 0 := by
    cases hr : rates c with
    | none      => exact le_refl _
    | some rate => exact hrates c rate hr
  rw [bucketEvents_concat hlast]
  by_cases hb : ev.depositor = user ∧ ev.currency = c
  · rw [if_pos hb]
    obtain ⟨b, hacc⟩ := (account_isOk_iff (b := emptyBasis)).mpr (hcov c)
    have hafter : costReplay.account emptyBasis (bucketEvents user c deps.events ++ [ev])
        = .ok ⟨b.shares + ev.shares, b.contributed + ev.amount⟩ := by
      rw [Keyed.Replay.account_append, hacc]
      exact bind_eq_ok.mpr ⟨b, rfl, bind_eq_ok.mpr ⟨_, replay_deposit hk b, rfl⟩⟩
    rw [basisFrom_eq hacc, basisFrom_eq hafter]
    apply bucketState_deposit hrate hamount
    rw [← hb.2]
    exact hprice
  · rw [if_neg hb, List.append_nil]

/-- A deposit covers itself. -/
theorem covered_concat_deposit {ev : VaultEvent} (hk : ev.kind = .deposit)
    (hlast : ∀ e ∈ deps.events, e.seq ≤ ev.seq) (hcov : ∀ u c, Covered 0 (bucketEvents u c deps.events)) :
    ∃ bases, reconstructCostBasis (deps.events ++ [ev]) = .ok bases := by
  apply reconstruct_isOk_iff.mpr
  intro u c
  obtain ⟨b, hacc⟩ := (account_isOk_iff (b := emptyBasis)).mpr (hcov u c)
  rw [bucketEvents_concat hlast, Keyed.Replay.account_append, hacc]
  by_cases hb : ev.depositor = u ∧ ev.currency = c
  · rw [if_pos hb]
    exact ⟨_, bind_eq_ok.mpr ⟨b, rfl, bind_eq_ok.mpr ⟨_, replay_deposit hk b, rfl⟩⟩⟩
  · rw [if_neg hb]
    exact ⟨_, rfl⟩

/-! ## The timeline -/

/-- The chart and the months of a view. -/
structure EarningsView.Consistent (user : Address) (deps : EarningsDeps) (view : EarningsView) : Prop where
  ascends  : (view.chart.map ChartPoint.ts).Pairwise (· < ·)
  sampled  : ∀ t, t ∈ view.chart.map ChartPoint.ts ↔
    (∃ c ∈ deps.inUse, ∃ s ∈ deps.snapshots c, s.ts = t) ∨
    ∃ e ∈ deps.events, e.depositor = user ∧ e.currency ∈ deps.inUse ∧ e.ts = some t
  earned_nonneg : ∀ p ∈ view.chart, 0 ≤ p.earnedUsd
  earned_grows  : (view.chart.map ChartPoint.earnedUsd).Pairwise (· ≤ ·)
  labels_nodup  : (view.monthly.map MonthlyEarned.label).Nodup
  /-- Each label is the month of a chart time, and the months ascend. -/
  chronological : ∃ times : List Int, times.Sublist (view.chart.map ChartPoint.ts) ∧
    view.monthly.map MonthlyEarned.label = times.map monthKey ∧
    times.Pairwise fun t t' => monthNumber t < monthNumber t'
  monthly_nonneg : ∀ m ∈ view.monthly, 0 ≤ m.earnedUsd
  monthly_sum    : (view.monthly.map MonthlyEarned.earnedUsd).sum
    = (view.chart.getLast?.map ChartPoint.earnedUsd).getD 0

theorem consistent_of_view (h : getEarnings user deps = .ok (.ok view)) : view.Consistent user deps := by
  have hts := chart_ts h
  obtain ⟨hgrows, hnonneg⟩ := chart_earned h
  have hascends : (view.chart.map ChartPoint.ts).Pairwise (· < ·) := hts ▸ Timeline.pairwise_distinct _
  obtain ⟨ends, hends⟩ := exists_grouped hascends
  have hmonthly : view.monthly = monthDeltas 0 (ends.map fun p => (monthKey p.ts, p.earnedUsd)) := by
    rw [← hends.entries, view_eq h]
    rfl
  have hlabels : view.monthly.map MonthlyEarned.label = (ends.map ChartPoint.ts).map monthKey := by
    rw [hmonthly, label_monthDeltas, List.map_map, List.map_map]
    rfl
  refine ⟨hascends, fun t => ?_, hnonneg, hgrows, ?_, ?_, ?_, ?_⟩
  · rw [hts]
    exact mem_sampleTimes
  · rw [hlabels, List.map_map]
    apply List.Pairwise.map
    case p => exact hends.ascends
    intro p p' hlt hlabel
    have hmonth := monthKey_eq_iff.mp hlabel
    omega
  · refine ⟨ends.map ChartPoint.ts, hends.sublist.map _, hlabels, ?_⟩
    exact List.pairwise_map.mpr hends.ascends
  · rw [hmonthly]
    apply monthDeltas_nonneg
    · intro m hm
      obtain ⟨p, hp, rfl⟩ := List.mem_map.mp hm
      exact hnonneg p (hends.sublist.subset hp)
    · rw [List.map_map]
      exact hgrows.sublist (hends.sublist.map ChartPoint.earnedUsd)
  · rw [hmonthly, sum_monthDeltas, ← hends.last, sub_zero, List.getLast?_map]
    cases ends.getLast? <;> rfl

/-- Every event of a timed list comes no later than the last. -/
theorem Timed.le_last {ev : VaultEvent} {t : Int} (h : Timed (deps.events ++ [ev]))
    (hlast : ∀ e ∈ deps.events, e.seq ≤ ev.seq) (hts : ev.ts = some t) : ∀ e ∈ deps.events, e.ts.getD 0 ≤ t := by
  intro e he
  have hmem : e ∈ deps.events ++ [ev] := List.mem_append_left [ev] he
  obtain ⟨t', ht'⟩ := h.stamped e hmem
  rw [ht']
  exact h.ordered e hmem ev (List.mem_append_right _ List.mem_cons_self) (hlast e he) t' t ht' hts

/-- **The earnings timeline is self-consistent**: every view's chart and months are, and a deposit appended after
    every other event, paid at no less than the latest price, never raises the earned amount at its time before
    the clamp, whatever the user held. -/
theorem timeline_consistent (user : Address) (deps : EarningsDeps)
    (hcov : ∀ u c, Covered 0 (bucketEvents u c deps.events))
    (hsnap : ∀ c, ((deps.snapshots c).map Snapshot.ts).Pairwise (· ≤ ·)) :
    (∀ view, getEarnings user deps = .ok (.ok view) → view.Consistent user deps) ∧
    ∀ (ev : VaultEvent) (t : Int) (rates : Currency → Option ℚ),
      (∀ c rate, rates c = some rate → 0 ≤ rate) → ev.kind = .deposit → 0 ≤ ev.amount → ev.ts = some t →
      (∀ e ∈ deps.events, e.seq ≤ ev.seq) → Timed (deps.events ++ [ev]) →
      ev.shares * latestPrice (deps.snapshots ev.currency) t ≤ ev.amount * SHARE_PRICE_SCALE →
      ∃ before after, stateAt user deps rates t = .ok before ∧
        stateAt user { deps with events := deps.events ++ [ev] } rates t = .ok after ∧
        after.earnedUsd ≤ before.earnedUsd := by
  refine ⟨fun view h => consistent_of_view h, ?_⟩
  intro ev t rates hrates hk hamount hts hlast htimed hprice
  have hall := htimed.le_last hlast hts
  rw [← priceAt_eq (hsnap ev.currency)] at hprice
  have hupTo : upTo t deps.events = deps.events :=
    List.filter_eq_self.mpr fun e he => decide_eq_true (hall e he)
  have hupTo' : upTo t (deps.events ++ [ev]) = deps.events ++ [ev] := upTo_concat hupTo hts
  refine ⟨_, _, stateAt_eq_ok.mpr ⟨?_, rfl⟩, stateAt_eq_ok.mpr ⟨?_, rfl⟩,
    stateOf_deposit hlast hall hts hk hamount hprice hrates (hcov user)⟩
  · rw [hupTo]
    exact reconstruct_isOk_iff_covered.mpr hcov
  · show ∃ bases, reconstructCostBasis (upTo t (deps.events ++ [ev])) = .ok bases
    rw [hupTo']
    exact covered_concat_deposit hk hlast hcov

/-- Alice holds 1000 shares bought at par, and the price is still par. -/
def aliceAtPar : EarningsDeps :=
  { assetValueOf := fun _ c => if c = .usd then 1000 else 0
    events       := [aliceDeposits]
    snapshots    := fun c => [⟨c, SHARE_PRICE_SCALE, 10⟩]
    fx           := fun _ => .ok 1
    currencies   := none }

/-- Alice's 1000 shares have gained a tenth. -/
def aliceAhead : EarningsDeps := { aliceAtPar with snapshots := fun c => [⟨c, 1100000000, 10⟩] }

/-- Alice buys 1000 more, at the price of the day. -/
def aliceBuysMore : VaultEvent := ⟨.deposit, "alice", .usd, 1100, 1000, 2, some 20⟩

/-- Her months add up to her chart, and buying more is no profit. -/
theorem timeline_consistent_aliceAhead :
    (∃ view, getEarnings "alice" aliceAhead = .ok (.ok view) ∧ view.Consistent "alice" aliceAhead) ∧
    ∃ before after, stateAt "alice" aliceAhead (fun _ => some 1) 20 = .ok before ∧
      stateAt "alice" { aliceAhead with events := [aliceDeposits, aliceBuysMore] } (fun _ => some 1) 20 = .ok after ∧
      after.earnedUsd ≤ before.earnedUsd := by
  have hdeposits : ∀ e ∈ aliceAhead.events, e.kind = .deposit := by decide
  have hcov : ∀ u c, Covered 0 (bucketEvents u c aliceAhead.events) := fun u c =>
    covered_of_deposits (fun e he => hdeposits e (mem_of_bucketEvents he)) 0
  have htimed : Timed (aliceAhead.events ++ [aliceBuysMore]) := by
    refine ⟨fun e he => ?_, fun e he e' he' hseq t t' ht ht' => ?_⟩
    · rcases List.mem_cons.mp he with rfl | he
      · exact ⟨0, rfl⟩
      · exact ⟨20, (List.mem_singleton.mp he) ▸ rfl⟩
    · rcases List.mem_cons.mp he with rfl | he <;> rcases List.mem_cons.mp he' with rfl | he'
      · exact le_of_eq (Option.some.inj (ht.symm.trans ht'))
      · obtain rfl := List.mem_singleton.mp he'
        rw [← Option.some.inj ht, ← Option.some.inj ht']
        decide
      · obtain rfl := List.mem_singleton.mp he
        exact absurd hseq (by decide)
      · obtain rfl := List.mem_singleton.mp he
        obtain rfl := List.mem_singleton.mp he'
        exact le_of_eq (Option.some.inj (ht.symm.trans ht'))
  obtain ⟨hview, hdeposit⟩ := timeline_consistent "alice" aliceAhead hcov (fun _ => List.pairwise_singleton _ _)
  constructor
  · obtain ⟨view, h⟩ := exists_view "alice" aliceAhead (by decide +kernel)
    exact ⟨view, h, hview view h⟩
  · refine hdeposit aliceBuysMore 20 _ (fun c rate h => ?_) rfl (by decide) rfl (by decide) htimed (by decide +kernel)
    rw [← Option.some.inj h]
    exact zero_le_one

end SoroSense.Backend
