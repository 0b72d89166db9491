import SoroSense.Properties.SwitchGate

/-!
# `Properties.Dwell` — the minimum dwell across ticks

A bucket is to stay in its pool for `minDwellMs` before the next rebalance. The guard measures from the last
rebalance its store remembers, and a tick called without a store builds a fresh one from the chain, which
remembers the pool and the pending exit but no time. So the guard never applies, and two rebalances are as
close as two ticks that are offered a rival.

`dwell_holds_iff_not_offered_twice` is the exact condition on a run of such ticks, whatever else happens on
chain between them.
-/

namespace SoroSense
namespace Backend

open Session KeeperRunner Transition

variable {k : KeeperRunner} {c : Currency} {input : RunTickInput} {s t : Live} {d : Decision}

/-! ## Runs of ticks without a store -/

inductive TickLabel where
  /-- A tick that resolved. -/
  | ticked (input : RunTickInput) (decision : Decision)
  | threw (input : RunTickInput)
  /-- Anybody's transaction, between two ticks. -/
  | others (action : Action)

/-- One tick of currency `c`, no store supplied, or one step of the chain. -/
def TickStep (k : KeeperRunner) (c : Currency) (s : Live) : TickLabel → Live → Prop
  | .ticked input d, t => (k.runTick c input).run s = .ok d t
  | .threw input, t    => ∃ message, (k.runTick c input).run s = .error message t
  | .others action, t  => Step s.world action t.world ∧ t.replies = s.replies ∧ t.clock = s.clock

/-- The yield of the allocated pool is known to the tick. -/
def KnowsYield (k : KeeperRunner) (c : Currency) (e : Event Live TickLabel) : Prop :=
  ∀ input d, e.label = .ticked input d → (k.client.activeSlug e.pre.world c).isSome → input.activeRay.isSome

/-- The tick rebalanced an allocated bucket. -/
def Rebalances (k : KeeperRunner) (c : Currency) (e : Event Live TickLabel) : Prop :=
  ∃ input source target, e.label = .ticked input (.rebalance c source target) ∧
    (k.client.activeSlug e.pre.world c).isSome

/-- The time a tick reads, and the window it is to respect. -/
def Apart (e e' : Event Live TickLabel) : Prop :=
  match e'.label with
  | .ticked input _ => input.minDwellMs.getD DEFAULT_MIN_DWELL_MS ≤ e'.pre.clock 0 - e.pre.clock 0
  | _               => True

/-- Any two rebalances of the allocated bucket are at least the window apart. -/
def DwellHolds (k : KeeperRunner) (c : Currency) (tr : List (Event Live TickLabel)) : Prop :=
  tr.Pairwise fun e e' => Rebalances k c e → Rebalances k c e' → Apart e e'

/-- A tick on an allocated bucket is offered a rival that clears the edge and the cost: nothing waits,
    nothing is flagged, and the best candidate is another pool. -/
structure Offer (k : KeeperRunner) (c : Currency) (input : RunTickInput) (w : World) (slug : PoolId) (ray : ℚ)
    (best : Candidate) : Prop where
  active : k.client.activeSlug w c = some slug
  exit   : Vault.pendingExit w c = none
  calm   : input.activeAnomaly = false
  yield  : input.activeRay = some ray
  top    : bestOf input.candidates none = some best
  rival  : best.poolId ≠ slug
  edge   : exceedsRebalanceThreshold ray best.ray input.thresholdPct = true
  cheap  : ((k.tickContext c input).classifyInput none .empty).tooCostly ray best = false

/-- The tick that resolved was offered a rival. -/
def Offered (k : KeeperRunner) (c : Currency) (e : Event Live TickLabel) : Prop :=
  ∃ input d slug ray best, e.label = .ticked input d ∧ Offer k c input e.pre.world slug ray best

/-! ## What a tick without a store decides -/

/-- **The dwell guard never refuses** on a fresh store. -/
theorem dwelling_freshStore (now : ℚ) (w : World) :
    ((k.tickContext c input).classifyInput (some now) (k.freshStore c w)).dwelling = false := by
  unfold ClassifyInput.dwelling
  have hlast : ((k.tickContext c input).classifyInput (some now) (k.freshStore c w)).lastRebalanceAtMs = none :=
    lastMove_freshStore k c w
  rw [hlast]
  split
  · rename_i h
    exact absurd h (by simp)
  · rfl

/-- A flagged pool that is held. -/
theorem anomalous_freshStore {slug : PoolId} {w : World} (hactive : k.client.activeSlug w c = some slug) (now : ℚ) :
    ((k.tickContext c input).classifyInput (some now) (k.freshStore c w)).anomalous = none ↔
      input.activeAnomaly = false := by
  have hheld : ((k.tickContext c input).classifyInput (some now) (k.freshStore c w)).held = some slug := by
    rw [ClassifyInput.held, activePool_freshStore input (some now) hactive, Option.filter_some,
      if_pos (decide_eq_true (k.client.activeSlug_ne_empty hactive))]
  unfold ClassifyInput.anomalous
  rw [hheld]
  show (if input.activeAnomaly = true then some slug else none) = none ↔ _
  cases input.activeAnomaly <;> simp

/-- The gate of an allocated bucket whose yield is known, the dwell guard off. -/
theorem shouldRebalance_freshStore {slug : PoolId} {ray now : ℚ} {best : Candidate} {w : World}
    (hactive : k.client.activeSlug w c = some slug) (hray : input.activeRay = some ray) :
    ((k.tickContext c input).classifyInput (some now) (k.freshStore c w)).shouldRebalance best = true ↔
      exceedsRebalanceThreshold ray best.ray input.thresholdPct = true ∧
        ((k.tickContext c input).classifyInput none .empty).tooCostly ray best = false := by
  have hact := activePool_freshStore input (some now) hactive
  have hyield : ((k.tickContext c input).classifyInput (some now) (k.freshStore c w)).activeRay = some ray := hray
  rw [ClassifyInput.shouldRebalance_of_known hact hyield]
  constructor
  · rintro ⟨hedge, _, hcheap⟩
    exact ⟨hedge, hcheap⟩
  · rintro ⟨hedge, hcheap⟩
    exact ⟨hedge, dwelling_freshStore now w, hcheap⟩

/-- **A tick without a store rebalances an allocated bucket exactly when it is offered a rival.** -/
theorem rebalances_iff_offer {slug : PoolId} {ray : ℚ} (hrun : (k.runTick c input).run s = .ok d t)
    (hactive : k.client.activeSlug s.world c = some slug) (hray : input.activeRay = some ray) :
    (∃ source target, d = .rebalance c source target) ↔ ∃ best, Offer k c input s.world slug ray best := by
  -- what a tick without a store decides, it decides on a fresh one
  rw [← decision_of_runTick hrun]
  constructor
  · rintro ⟨source, target, hd⟩
    obtain ⟨hpend, hanom, _, best, hs, _, _⟩ := classifyBucket_eq_rebalance.mp hd
    obtain ⟨hbest, hne, hgate⟩ := ClassifyInput.switchTarget_eq_some.mp hs
    obtain ⟨hedge, hcheap⟩ := (shouldRebalance_freshStore hactive hray).mp hgate
    have hexit : (Vault.pendingExit s.world c).isSome = false := (pending_freshStore k c s.world).symm.trans hpend
    have hact := activePool_freshStore input (some (s.clock 0)) hactive
    exact ⟨best, hactive, Option.isNone_iff_eq_none.mp (by simpa using hexit),
      (anomalous_freshStore hactive _).mp hanom, hray, hbest,
      fun he => hne (hact.trans (congrArg some he.symm)), hedge, hcheap⟩
  · rintro ⟨best, h⟩
    have hact := activePool_freshStore input (some (s.clock 0)) hactive
    refine ⟨slug, best.poolId, classifyBucket_eq_rebalance.mpr ⟨?_, ?_, rfl, best, ?_, ?_, rfl⟩⟩
    · exact hasPendingExit_freshStore input _ h.exit
    · exact (anomalous_freshStore hactive _).mpr h.calm
    · refine ClassifyInput.switchTarget_eq_some.mpr
        ⟨h.top, ?_, (shouldRebalance_freshStore hactive hray).mpr ⟨h.edge, h.cheap⟩⟩
      rw [hact]
      intro he
      exact h.rival (Option.some.inj he).symm
    · rw [hact]
      rfl

/-- The same, of one transition of a run. -/
theorem rebalances_iff_offered {e : Event Live TickLabel} (hs : TickStep k c e.pre e.label e.post)
    (hk : KnowsYield k c e) : Rebalances k c e ↔ Offered k c e := by
  constructor
  · rintro ⟨input, source, target, hl, hsome⟩
    obtain ⟨slug, hactive⟩ := Option.isSome_iff_exists.mp hsome
    obtain ⟨ray, hray⟩ := Option.isSome_iff_exists.mp (hk input _ hl hsome)
    rw [hl] at hs
    obtain ⟨best, ho⟩ := (rebalances_iff_offer hs hactive hray).mp ⟨source, target, rfl⟩
    exact ⟨input, _, slug, ray, best, hl, ho⟩
  · rintro ⟨input, d, slug, ray, best, hl, ho⟩
    rw [hl] at hs
    obtain ⟨source, target, rfl⟩ := (rebalances_iff_offer hs ho.active ho.yield).mpr ⟨best, ho⟩
    exact ⟨input, source, target, hl, by rw [ho.active]; rfl⟩

/-- **The dwell holds exactly when no window has two offers in it**: on every run of ticks without a store
    that know the yield of the allocated pool, any two rebalances are at least `minDwellMs` apart if and only
    if any two ticks offered a rival that clears the edge and the cost are. -/
theorem dwell_holds_iff_not_offered_twice {s₀ : Live} {tr : List (Event Live TickLabel)}
    (hr : Run (TickStep k c) s₀ tr s) (hk : ∀ e ∈ tr, KnowsYield k c e) :
    DwellHolds k c tr ↔ tr.Pairwise fun e e' => Offered k c e → Offered k c e' → Apart e e' := by
  have hstep : ∀ e ∈ tr, TickStep k c e.pre e.label e.post := hr.forall_step
  have hiff : ∀ e ∈ tr, (Rebalances k c e ↔ Offered k c e) :=
    fun e he => rebalances_iff_offered (hstep e he) (hk e he)
  unfold DwellHolds
  apply List.Pairwise.iff_of_mem
  intro e e' he he'
  rw [hiff e he, hiff e' he']

/-! ## There and back within the hour -/

/-- The rival is `sorosense-usd`. -/
def outInput : RunTickInput :=
  { candidates := [⟨"defindex-usdc", 81 / 10⟩, ⟨"sorosense-usd", 105 / 10⟩], activeRay := some (81 / 10) }

/-- An hour later it is `defindex-usdc`. -/
def backInput : RunTickInput :=
  { candidates := [⟨"defindex-usdc", 13⟩, ⟨"sorosense-usd", 105 / 10⟩], activeRay := some (105 / 10) }

def movedOut : Live := after ((demoRunner 500).runTick .usd outInput) (Live.calm twoPools)

def movedBack : Live := after ((demoRunner 500).runTick .usd backInput) movedOut

/-- Two ticks of one hour, every request reaching the chain. -/
def whipsaw : List (Event Live TickLabel) :=
  [⟨Live.calm twoPools, .ticked outInput (.rebalance .usd "defindex-usdc" "sorosense-usd"), movedOut⟩,
    ⟨movedOut, .ticked backInput (.rebalance .usd "sorosense-usd" "defindex-usdc"), movedBack⟩]

theorem run_whipsaw : Run (TickStep (demoRunner 500) .usd) (Live.calm twoPools) whipsaw movedBack :=
  .cons (run_of_returned (by decide +kernel)) (.cons (run_of_returned (by decide +kernel)) (.nil _))

theorem knowsYield_whipsaw : ∀ e ∈ whipsaw, KnowsYield (demoRunner 500) .usd e := by
  intro e he input d hl _
  simp only [whipsaw, List.mem_cons, List.not_mem_nil, or_false] at he
  rcases he with rfl | rfl
  · injection hl with hi _
    rw [← hi]
    rfl
  · injection hl with hi _
    rw [← hi]
    rfl

/-- Both rebalance, an hour apart. -/
theorem not_dwellHolds_whipsaw : ¬ DwellHolds (demoRunner 500) .usd whipsaw := by
  intro h
  have hclose : backInput.minDwellMs.getD DEFAULT_MIN_DWELL_MS ≤ movedOut.clock 0 - (Live.calm twoPools).clock 0 :=
    List.pairwise_pair.mp h ⟨outInput, _, _, rfl, by decide +kernel⟩
      ⟨backInput, _, _, rfl, by decide +kernel⟩
  exact absurd hclose (by decide +kernel)

/-- So both were offered a rival. -/
theorem dwell_holds_iff_not_offered_twice_whipsaw :
    ¬ whipsaw.Pairwise fun e e' =>
      Offered (demoRunner 500) .usd e → Offered (demoRunner 500) .usd e' → Apart e e' :=
  fun h => not_dwellHolds_whipsaw
    ((dwell_holds_iff_not_offered_twice run_whipsaw knowsYield_whipsaw).mpr h)

/-- Both ticks of the run know the yield of the allocated pool and leave the window at its default of seven
    days; every write lands, the clock moves forward by an hour, and both rebalance. -/
theorem whipsaw_within_window :
    Run (TickStep (demoRunner 500) .usd) (Live.calm twoPools) whipsaw movedBack ∧
      (∀ e ∈ whipsaw, KnowsYield (demoRunner 500) .usd e) ∧
      (∀ n, (Live.calm twoPools).replies n = .lands) ∧
      Vault.activePool movedOut.world .usd = some (.contract 2) ∧
      Vault.activePool movedBack.world .usd = some (.contract 1) ∧
      movedOut.clock 0 - (Live.calm twoPools).clock 0 = 3600000 ∧
      ¬ DwellHolds (demoRunner 500) .usd whipsaw := by
  exact ⟨run_whipsaw, knowsYield_whipsaw, fun _ => rfl, by decide +kernel, by decide +kernel,
    by decide +kernel, not_dwellHolds_whipsaw⟩

end Backend
end SoroSense
