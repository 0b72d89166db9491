import SoroSense.Backend.Allocator
import SoroSense.Lib.Transition

/-!
# `Properties.NoChurn` — ticks over one store

The decision core is to act at most once a tick, to wait while an exit waits, to switch pools only past its
three guards and never twice within the dwell, and to protect a flagged pool before it optimises anything.

Every tick is run with effects that write down their calls (`recorded`), and erasing the record gives the tick
back (`exists_ticks_iff`). What one tick does to the store and the record is `Ticks.spec`. The dwell across
ticks follows because a rebalance leaves its time in the store, where later ticks find it or a later one.

The guard of a flagged pool asks whether a pool is held by taking its id for a truth value, so the empty id
passes for no pool (`flagged_empty_id_rebalances`).
-/

namespace SoroSense
namespace Backend

open Session Transition

variable {σ : Type}

/-! ## The calls of a tick -/

inductive EffectKind where
  | compound
  | rebalance
  | freezeExit
deriving DecidableEq

/-- A call of an effect, with its arguments. -/
inductive EffectCall where
  | compound (currency : Currency) (pool : PoolId) (depositor : Option Address)
  | rebalance (currency : Currency) (source target : PoolId)
  | freezeExit (currency : Currency) (pool : PoolId) (toPool : Option PoolId)
deriving DecidableEq

def EffectCall.kind : EffectCall → EffectKind
  | .compound _ _ _   => .compound
  | .rebalance _ _ _  => .rebalance
  | .freezeExit _ _ _ => .freezeExit

def EffectCall.currency : EffectCall → Currency
  | .compound c _ _   => c
  | .rebalance c _ _  => c
  | .freezeExit c _ _ => c

/-- Effects that write down each call, then make it. -/
def AllocatorEffects.recorded (effects : AllocatorEffects σ) : AllocatorEffects (σ × List EffectCall) where
  compound c pool depositor := noting (.compound c pool depositor) (effects.compound c pool depositor)
  rebalance c source target := noting (.rebalance c source target) (effects.rebalance c source target)
  freezeExit c pool toPool  := noting (.freezeExit c pool toPool) (effects.freezeExit c pool toPool)

/-- The same tick, its calls written down. -/
def TickContext.recorded (ctx : TickContext σ) : TickContext (σ × List EffectCall) where
  currency            := ctx.currency
  activeAnomaly       := ctx.activeAnomaly
  activeRay           := ctx.activeRay
  candidates          := ctx.candidates
  yieldAccrued        := ctx.yieldAccrued
  thresholdPct        := ctx.thresholdPct
  effects             := ctx.effects.recorded
  depositors          := ctx.depositors
  autoCompoundEnabled := ctx.autoCompoundEnabled.map fun read depositor => onFst (read depositor)
  clock               := ctx.clock.map onFst
  minDwellMs          := ctx.minDwellMs
  positionValueUsd    := ctx.positionValueUsd
  switchCostUsd       := ctx.switchCostUsd
  dwellHorizonDays    := ctx.dwellHorizonDays

/-- A call a decision stands for. -/
def Decision.Drives : Decision → EffectCall → Prop
  | .compound c pool, call           => ∃ depositor, call = .compound c pool depositor
  | .rebalance c source target, call => call = .rebalance c source target
  | .freezeExit c pool toPool, call  => call = .freezeExit c pool toPool
  | .noop _ _, _                     => False

/-! ## The record is only a record -/

section Recorded

variable {ctx : TickContext σ} {c : Currency} {pool : PoolId} {φ : EffectCall → Prop}

theorem notes_readNow (ctx : TickContext σ) : Notes φ ctx.readNow ctx.recorded.readNow := by
  unfold TickContext.readNow
  cases hclock : ctx.clock with
  | none =>
      have hnone : ctx.recorded.clock = none := by
        show ctx.clock.map _ = none
        rw [hclock, Option.map_none]
      rw [hnone]
      exact notes_pure none
  | some clock =>
      have hsome : ctx.recorded.clock = some (onFst clock) := by
        show ctx.clock.map _ = _
        rw [hclock, Option.map_some]
      rw [hsome]
      exact (notes_onFst clock).bind fun now => notes_pure (some now)

theorem classifyInput_recorded (ctx : TickContext σ) (now : Option ℚ) (store : BucketStore) :
    ctx.recorded.classifyInput now store = ctx.classifyInput now store := by
  unfold TickContext.classifyInput TickContext.recorded
  cases ctx.clock <;> rfl

/-- A preference is read the same way, also where it cannot be read. -/
theorem notes_enabledFor (read : Address → EStateM String σ Bool) (depositor : Address) :
    Notes φ (TickContext.enabledFor read depositor)
      (TickContext.enabledFor (fun a => onFst (read a)) depositor) := by
  intro s log
  refine ⟨[], by simp, ?_⟩
  rw [List.append_nil]
  cases hr : (read depositor).run s with
  | ok enabled t =>
      rw [TickContext.run_enabledFor_of_ok hr]
      exact TickContext.run_enabledFor_of_ok (run_onFst_of_ok hr)
  | error message t =>
      rw [TickContext.run_enabledFor_of_error hr]
      exact TickContext.run_enabledFor_of_error (run_onFst_of_error hr)

theorem notes_compoundFor (read : Address → EStateM String σ Bool) (depositors : List Address) :
    Notes (Decision.compound c pool).Drives (ctx.compoundFor read c pool depositors)
      (ctx.recorded.compoundFor (fun a => onFst (read a)) c pool depositors) := by
  induction depositors with
  | nil => exact notes_pure ()
  | cons depositor depositors ih =>
      rw [TickContext.compoundFor_cons, TickContext.compoundFor_cons]
      apply (notes_enabledFor read depositor).bind
      intro enabled
      refine Notes.bind ?_ fun _ => ih
      cases enabled with
      | false => exact notes_pure ()
      | true  => exact notes_noting ⟨some depositor, rfl⟩ _

/-- **An effect makes the calls its decision stands for.** -/
theorem notes_effect (ctx : TickContext σ) (d : Decision) :
    Notes d.Drives (ctx.effect d) (ctx.recorded.effect d) := by
  cases d with
  | noop c reason => exact notes_pure ()
  | rebalance c source target =>
      have hcall : (Decision.rebalance c source target).Drives (.rebalance c source target) := rfl
      exact notes_noting hcall _
  | freezeExit c pool toPool =>
      have hcall : (Decision.freezeExit c pool toPool).Drives (.freezeExit c pool toPool) := rfl
      exact notes_noting hcall _
  | compound c pool =>
      show Notes _ (ctx.gateCompound c pool) (ctx.recorded.gateCompound c pool)
      have hdep : ctx.recorded.depositors = ctx.depositors := rfl
      have hread : ctx.recorded.autoCompoundEnabled
          = ctx.autoCompoundEnabled.map fun read depositor => onFst (read depositor) := rfl
      unfold TickContext.gateCompound
      rw [hdep, hread]
      cases ctx.depositors with
      | none => exact notes_noting ⟨none, rfl⟩ _
      | some depositors =>
          cases ctx.autoCompoundEnabled with
          | none      => exact notes_noting ⟨none, rfl⟩ _
          | some read => exact notes_compoundFor read depositors

/-- A protection that ran is one call. -/
theorem calls_of_freezeExit {toPool : Option PoolId} {s t : σ} {calls : List EffectCall}
    (h : (ctx.recorded.effect (.freezeExit c pool toPool)).run (s, []) = .ok () (t, calls)) :
    calls = [.freezeExit c pool toPool] :=
  (run_noting_eq_ok.mp h).2.symm

/-- **Erasure.** The tick whose calls are written down is the tick. -/
theorem run_recorded_iff {s t : σ} {store store' : BucketStore} {d : Decision} :
    (∃ calls, (runAllocatorTick ctx.recorded).run ((s, []), store) = .ok d ((t, calls), store')) ↔
      (runAllocatorTick ctx).run (s, store) = .ok d (t, store') := by
  constructor
  · rintro ⟨calls, h⟩
    obtain ⟨now, ⟨u, log⟩, hnow, hd, heffect, hstore⟩ := runAllocatorTick_eq_ok.mp h
    rw [classifyInput_recorded] at hd
    have hread := (notes_readNow (φ := fun _ => True) ctx).erase [] |>.mp ⟨log, hnow⟩
    have hran := (notes_effect ctx d).erase log |>.mp ⟨calls, heffect⟩
    exact runAllocatorTick_eq_ok.mpr ⟨now, u, hread, hd, hran, hstore⟩
  · intro h
    obtain ⟨now, u, hread, hd, hran, hstore⟩ := runAllocatorTick_eq_ok.mp h
    obtain ⟨log, hnow⟩ := (notes_readNow (φ := fun _ => True) ctx).erase [] |>.mpr hread
    obtain ⟨calls, heffect⟩ := (notes_effect ctx d).erase log |>.mpr hran
    refine ⟨calls, runAllocatorTick_eq_ok.mpr ⟨now, (u, log), hnow, ?_, heffect, hstore⟩⟩
    rw [classifyInput_recorded]
    exact hd

end Recorded

/-! ## Runs of ticks -/

/-- A tick of a run: its inputs, its time, the state its effects ran on, and what came of it. -/
structure Ticked (σ : Type) where
  ctx      : TickContext σ
  now      : ℚ
  start    : σ
  finish   : σ
  decision : Decision
  calls    : List EffectCall

/-- A tick that read its clock and resolved. Between two ticks the state of the effects may change in any way,
    the store does not. -/
structure Ticks (store : BucketStore) (tick : Ticked σ) (store' : BucketStore) : Prop where
  clocked : ∃ s, tick.ctx.readNow.run tick.start = .ok (some tick.now) s
  ran     : (runAllocatorTick tick.ctx.recorded).run ((tick.start, []), store)
              = .ok tick.decision ((tick.finish, tick.calls), store')

abbrev TickEvent (σ : Type) := Event BucketStore (Ticked σ)

/-- The window the tick is to respect. -/
def Ticked.window (tick : Ticked σ) : ℚ := tick.ctx.minDwellMs.getD DEFAULT_MIN_DWELL_MS

/-- The tick called for a rebalance of its bucket. -/
def Ticked.Rebalances (tick : Ticked σ) : Prop :=
  ∃ source target, .rebalance tick.ctx.currency source target ∈ tick.calls

/-- The tick found `pool` in its bucket. -/
def InPool (e : TickEvent σ) (pool : PoolId) : Prop := e.pre.active e.label.ctx.currency = some pool

/-- The tick switched pools: it rebalanced an allocated bucket whose yield it knew. -/
def Switches (e : TickEvent σ) : Prop :=
  e.label.Rebalances ∧ (∃ pool, InPool e pool) ∧ e.label.ctx.activeRay.isSome

/-- A switch from a pool at `ray` into `target` that all three guards let through. -/
structure Justified (window : ℚ) (e : TickEvent σ) (held : PoolId) (ray : ℚ) (target : PoolId) : Prop where
  rival  : target ≠ held
  best   : ∃ best, FirstBest e.label.ctx.candidates best ∧ best.poolId = target ∧
    e.label.ctx.thresholdPct < best.ray - ray ∧
    ∀ value cost, e.label.ctx.positionValueUsd = some value → e.label.ctx.switchCostUsd = some cost →
      cost < (best.ray - ray) / 100 * value * (e.label.ctx.dwellHorizonDays.getD DEFAULT_DWELL_HORIZON_DAYS / 365)
  rested : ∀ last, e.pre.lastMove e.label.ctx.currency = some last → window ≤ e.label.now - last

/-- The best candidate other than `pool`, if there is one. -/
def BestOther (candidates : List Candidate) (pool : PoolId) : Option PoolId → Prop
  | some target =>
      ∃ best, FirstBest (candidates.filter fun c => decide (c.poolId ≠ pool)) best ∧ best.poolId = target
  | none => ∀ c ∈ candidates, c.poolId = pool

/-- The tick froze `pool`, and proposed the best other one. -/
def Protects (e : TickEvent σ) (pool : PoolId) : Prop :=
  ∃ toPool, e.label.decision = .freezeExit e.label.ctx.currency pool toPool ∧
    e.label.calls = [.freezeExit e.label.ctx.currency pool toPool] ∧ BestOther e.label.ctx.candidates pool toPool

/-- The allocator does not churn, its flagged pools being `Named`. -/
structure NeverChurns (window : ℚ) (Named : PoolId → Prop) (tr : List (TickEvent σ)) : Prop where
  one_kind  : ∀ e ∈ tr, ∀ call ∈ e.label.calls, ∀ call' ∈ e.label.calls, call.kind = call'.kind
  waits     : ∀ e ∈ tr, e.pre.pending e.label.ctx.currency = true → e.label.calls = []
  justified : ∀ e ∈ tr, ∀ held ray source target, InPool e held → e.label.ctx.activeRay = some ray →
    .rebalance e.label.ctx.currency source target ∈ e.label.calls → Justified window e held ray target
  spaced    : tr.Pairwise fun e e' => e.label.ctx.currency = e'.label.ctx.currency → e.label.Rebalances →
    Switches e' → window ≤ e'.label.now - e.label.now
  protects  : ∀ e ∈ tr, ∀ pool, InPool e pool → Named pool → e.label.ctx.activeAnomaly = true →
    e.pre.pending e.label.ctx.currency = false → Protects e pool
  separate  : ∀ e ∈ tr, (∀ call ∈ e.label.calls, call.currency = e.label.ctx.currency) ∧
    ∀ c, c ≠ e.label.ctx.currency → e.post.active c = e.pre.active c ∧ e.post.pending c = e.pre.pending c ∧
      e.post.lastMove c = e.pre.lastMove c

/-! ## What one tick does -/

section OneTick

variable {store store' : BucketStore} {tick : Ticked σ} {d : Decision} {c : Currency}

theorem clock_isSome {ctx : TickContext σ} {s t : σ} {now : ℚ} (h : ctx.readNow.run s = .ok (some now) t) :
    ctx.clock.isSome := by
  unfold TickContext.readNow at h
  cases hclock : ctx.clock with
  | some clock => rfl
  | none =>
      rw [hclock] at h
      exact absurd (run_pure_eq_ok.mp h).1 (by simp)

theorem minDwellMs_classifyInput {ctx : TickContext σ} (h : ctx.clock.isSome) (now : Option ℚ)
    (store : BucketStore) : (ctx.classifyInput now store).minDwellMs = some (ctx.minDwellMs.getD DEFAULT_MIN_DWELL_MS) := by
  obtain ⟨clock, hclock⟩ := Option.isSome_iff_exists.mp h
  unfold TickContext.classifyInput
  rw [hclock]

/-- What the tick classified. -/
def Ticked.input (tick : Ticked σ) (store : BucketStore) : ClassifyInput :=
  tick.ctx.classifyInput (some tick.now) store

/-- A tick decided on what it read, ran the effect with an empty record and wrote the store. -/
theorem Ticks.parts (h : Ticks store tick store') :
    classifyBucket (tick.input store) = tick.decision ∧
      (∃ u, (tick.ctx.recorded.effect tick.decision).run (u, []) = .ok () (tick.finish, tick.calls)) ∧
      store' = tick.decision.record (some tick.now) store := by
  obtain ⟨s, hnow⟩ := h.clocked
  obtain ⟨now, ⟨u, log⟩, hread, hd, heffect, hstore⟩ := runAllocatorTick_eq_ok.mp h.ran
  have hread' := (notes_readNow (φ := fun _ => False) tick.ctx).erase [] |>.mp ⟨log, hread⟩
  rw [hnow] at hread'
  injection hread' with hn _
  subst hn
  -- reading the clock writes nothing down
  have hlog : log = [] := by
    have hnone := (notes_readNow (φ := fun _ => False) tick.ctx).noted hread
    exact List.eq_nil_iff_forall_not_mem.mpr hnone
  subst hlog
  rw [classifyInput_recorded] at hd
  exact ⟨hd, ⟨u, heffect⟩, hstore⟩

/-- **One tick** records its decision in the store, and calls for nothing else. -/
theorem Ticks.spec (h : Ticks store tick store') :
    classifyBucket (tick.input store) = tick.decision ∧ store' = tick.decision.record (some tick.now) store ∧
      ∀ call ∈ tick.calls, tick.decision.Drives call := by
  obtain ⟨hd, ⟨u, heffect⟩, hstore⟩ := h.parts
  exact ⟨hd, hstore, (notes_effect tick.ctx tick.decision).noted heffect⟩

/-- **The ticks of a run are the allocator's**, each with a record of its calls. -/
theorem exists_ticks_iff {ctx : TickContext σ} {now : ℚ} {s t : σ} :
    (∃ calls, Ticks store ⟨ctx, now, s, t, d, calls⟩ store') ↔
      (∃ u, ctx.readNow.run s = .ok (some now) u) ∧ (runAllocatorTick ctx).run (s, store) = .ok d (t, store') := by
  rw [← run_recorded_iff]
  constructor
  · rintro ⟨calls, h⟩
    exact ⟨h.clocked, calls, h.ran⟩
  · rintro ⟨hnow, calls, hran⟩
    exact ⟨calls, hnow, hran⟩

/-- A decision is about the bucket of the tick. -/
theorem Ticks.currency (h : Ticks store tick store') : tick.decision.currency = tick.ctx.currency := by
  rw [← h.spec.1, currency_classifyBucket]
  rfl

/-- The kind of effect a decision drives, if any. -/
def Decision.kind : Decision → Option EffectKind
  | .compound _ _     => some .compound
  | .rebalance _ _ _  => some .rebalance
  | .freezeExit _ _ _ => some .freezeExit
  | .noop _ _         => none

/-- The calls of a decision are of one kind, and about its bucket. -/
theorem Decision.Drives.kind_currency {call : EffectCall} (h : d.Drives call) :
    d.kind = some call.kind ∧ call.currency = d.currency := by
  cases d with
  | compound c pool =>
      obtain ⟨depositor, rfl⟩ := h
      exact ⟨rfl, rfl⟩
  | rebalance c source target =>
      have hcall : call = .rebalance c source target := h
      rw [hcall]
      exact ⟨rfl, rfl⟩
  | freezeExit c pool toPool =>
      have hcall : call = .freezeExit c pool toPool := h
      rw [hcall]
      exact ⟨rfl, rfl⟩
  | noop c reason => exact absurd h id

/-- A rebalance that was called for was decided. -/
theorem drives_rebalance {source target : PoolId} :
    d.Drives (.rebalance c source target) ↔ d = .rebalance c source target := by
  cases d with
  | compound c' pool             => simp [Decision.Drives]
  | rebalance c' source' target' => simp [Decision.Drives, eq_comm]
  | freezeExit c' pool toPool    => simp [Decision.Drives]
  | noop c' reason               => simp [Decision.Drives]

/-- What a tick leaves as the time of the last rebalance is what it found, or its own time. -/
theorem lastMove_record_cases (d : Decision) (now : ℚ) (store : BucketStore) (c : Currency) :
    (d.record (some now) store).lastMove c = store.lastMove c ∨
      (d.record (some now) store).lastMove c = some now := by
  cases d with
  | rebalance c' source target =>
      show Function.update store.lastMove c' (some now) c = _ ∨ Function.update store.lastMove c' (some now) c = _
      by_cases hc : c = c'
      · rw [hc, Function.update_self]
        exact .inr rfl
      · rw [Function.update_of_ne hc]
        exact .inl rfl
  | compound c' pool => exact .inl rfl
  | freezeExit c' pool toPool => exact .inl rfl
  | noop c' reason => exact .inl rfl

/-- **Frame.** A decision about one bucket writes nothing about another. -/
theorem record_of_ne (now : Option ℚ) (store : BucketStore) (hc : c ≠ d.currency) :
    (d.record now store).active c = store.active c ∧ (d.record now store).pending c = store.pending c ∧
      (d.record now store).lastMove c = store.lastMove c := by
  cases d with
  | rebalance c' source target =>
      have hc : c ≠ c' := hc
      cases now with
      | none     => exact ⟨Function.update_of_ne hc _ _, rfl, rfl⟩
      | some now => exact ⟨Function.update_of_ne hc _ _, rfl, Function.update_of_ne hc _ _⟩
  | freezeExit c' pool toPool =>
      have hc : c ≠ c' := hc
      exact ⟨rfl, Function.update_of_ne hc _ _, rfl⟩
  | compound c' pool => exact ⟨rfl, rfl, rfl⟩
  | noop c' reason   => exact ⟨rfl, rfl, rfl⟩

/-- While an exit waits, the tick makes no call. -/
theorem Ticks.calls_of_pending (h : Ticks store tick store') (hp : store.pending tick.ctx.currency = true) :
    tick.calls = [] := by
  obtain ⟨hd, _, hcalls⟩ := h.spec
  have hwait : classifyBucket (tick.input store) = .noop tick.ctx.currency AWAITING_EXIT :=
    classifyBucket_eq_awaiting.mpr ⟨rfl, hp⟩
  rw [← hd, hwait] at hcalls
  exact List.eq_nil_iff_forall_not_mem.mpr hcalls

/-- **A switch passed all three guards.** -/
theorem Ticks.justified {e : TickEvent σ} (h : Ticks e.pre e.label e.post) (hwindow : 0 < e.label.window)
    {held source target : PoolId} {ray : ℚ} (hheld : InPool e held) (hray : e.label.ctx.activeRay = some ray)
    (hcall : .rebalance e.label.ctx.currency source target ∈ e.label.calls) :
    Justified e.label.window e held ray target := by
  obtain ⟨hd, _, hcalls⟩ := h.spec
  rw [drives_rebalance.mp (hcalls _ hcall)] at hd
  obtain ⟨_, _, _, best, hswitch, _, htarget⟩ := classifyBucket_eq_rebalance.mp hd
  obtain ⟨hbest, hrival, hgate⟩ := ClassifyInput.switchTarget_eq_some.mp hswitch
  have hheld : (e.label.input e.pre).activePool = some held := hheld
  obtain ⟨hedge, hrest, hcheap⟩ := (ClassifyInput.shouldRebalance_of_known hheld hray).mp hgate
  refine ⟨?_, ⟨best, bestOf_none_eq_some.mp hbest, htarget, of_decide_eq_true hedge, ?_⟩, ?_⟩
  · intro he
    rw [← htarget] at he
    rw [hheld] at hrival
    exact hrival (congrArg some he.symm)
  · intro value cost hv hc
    exact (ClassifyInput.tooCostly_of_known hv hc rfl).mp hcheap
  · intro last hlast
    obtain ⟨s, hnow⟩ := h.clocked
    have hmin := minDwellMs_classifyInput (clock_isSome hnow) (some e.label.now) e.pre
    exact (ClassifyInput.dwelling_of_known hmin rfl hlast).mp hrest hwindow

/-- **A flagged pool with a name is protected.** -/
theorem Ticks.protects {e : TickEvent σ} (h : Ticks e.pre e.label e.post) {pool : PoolId} (hheld : InPool e pool)
    (hname : pool ≠ "") (hflag : e.label.ctx.activeAnomaly = true)
    (hp : e.pre.pending e.label.ctx.currency = false) : Protects e pool := by
  have hanom : (e.label.input e.pre).anomalous = some pool :=
    ClassifyInput.anomalous_eq_some.mpr ⟨hflag, hheld, hname⟩
  have hd : e.label.decision = .freezeExit e.label.ctx.currency pool
      ((bestOf e.label.ctx.candidates (some pool)).map (·.poolId)) := by
    rw [← h.spec.1]
    exact classifyBucket_eq_freezeExit.mpr ⟨hp, hanom, rfl, rfl⟩
  refine ⟨_, hd, ?_, ?_⟩
  · obtain ⟨_, ⟨u, heffect⟩, _⟩ := h.parts
    rw [hd] at heffect
    exact calls_of_freezeExit heffect
  · cases hbest : bestOf e.label.ctx.candidates (some pool) with
    | none =>
        intro c hc
        exact (Option.some.inj (bestOf_eq_none.mp hbest c hc)).symm
    | some best =>
        refine ⟨best, ?_, rfl⟩
        have hfirst := bestOf_eq_some.mp hbest
        have hother : (fun c : Candidate => decide (some pool ≠ some c.poolId))
            = fun c => decide (c.poolId ≠ pool) := by
          funext c
          simp [eq_comm]
        rw [hother] at hfirst
        exact hfirst

end OneTick

/-! ## Whole runs -/

section Runs

variable {store₀ store : BucketStore} {tr : List (TickEvent σ)} {window : ℚ}

/-- **Every rebalance leaves its time behind**, and later ticks find it, or a later one. -/
theorem lastMove_after_rebalance (hr : Run Ticks store₀ tr store)
    (hclock : tr.Pairwise fun e e' => e.label.now ≤ e'.label.now) :
    tr.Pairwise fun e e' => e.label.Rebalances →
      ∃ last, e'.pre.lastMove e.label.ctx.currency = some last ∧ e.label.now ≤ last := by
  refine hr.pairwise_of_kept (K := fun e s => e.label.Rebalances →
    ∃ last, s.lastMove e.label.ctx.currency = some last ∧ e.label.now ≤ last) ?_ ?_ hclock
  · rintro e hstep ⟨source, target, hcall⟩
    obtain ⟨_, hstore, hcalls⟩ := hstep.spec
    rw [hstore, drives_rebalance.mp (hcalls _ hcall)]
    exact ⟨e.label.now, Function.update_self _ _ _, le_refl _⟩
  · intro e e' hstep hle hkept hre
    obtain ⟨last, hlast, hold⟩ := hkept hre
    rw [hstep.spec.2.1]
    rcases lastMove_record_cases e'.label.decision e'.label.now e'.pre e.label.ctx.currency with hsame | hnow
    · exact ⟨last, hsame.trans hlast, hold⟩
    · exact ⟨e'.label.now, hnow, hle⟩

/-- **The allocator does not churn**: over one store, with a clock that does not run backwards and one positive
    window, whatever else the ticks are given, its flagged pools being those with a name. -/
theorem never_churns (hr : Run Ticks store₀ tr store) (hpos : 0 < window)
    (hwindow : ∀ e ∈ tr, e.label.window = window)
    (hclock : tr.Pairwise fun e e' => e.label.now ≤ e'.label.now) : NeverChurns window (· ≠ "") tr := by
  have hstep := hr.forall_step
  have hjust : ∀ e ∈ tr, ∀ held ray source target, InPool e held → e.label.ctx.activeRay = some ray →
      .rebalance e.label.ctx.currency source target ∈ e.label.calls → Justified window e held ray target := by
    intro e he held ray source target hheld hray hcall
    rw [← hwindow e he]
    exact (hstep e he).justified (by rw [hwindow e he]; exact hpos) hheld hray hcall
  refine ⟨?_, ?_, hjust, ?_, ?_, ?_⟩
  · intro e he call hcall call' hcall'
    have hcalls := (hstep e he).spec.2.2
    have hkind := (hcalls call hcall).kind_currency.1
    have hkind' := (hcalls call' hcall').kind_currency.1
    exact Option.some.inj (hkind.symm.trans hkind')
  · intro e he hp
    exact (hstep e he).calls_of_pending hp
  · have hremembered := lastMove_after_rebalance hr hclock
    refine hremembered.imp_of_mem ?_
    intro e e' _ he' hlast hcur hre hsw
    obtain ⟨⟨source, target, hcall⟩, ⟨held, hheld⟩, hray⟩ := hsw
    obtain ⟨ray, hray⟩ := Option.isSome_iff_exists.mp hray
    obtain ⟨last, hl, hle⟩ := hlast hre
    rw [hcur] at hl
    have hrested := (hjust e' he' held ray source target hheld hray hcall).rested last hl
    exact le_trans hrested (sub_le_sub_left hle _)
  · intro e he pool hheld hname hflag hp
    exact (hstep e he).protects hheld hname hflag hp
  · intro e he
    obtain ⟨_, hstore, hcalls⟩ := (hstep e he).spec
    have hcur := (hstep e he).currency
    constructor
    · intro call hcall
      rw [← hcur]
      exact (hcalls call hcall).kind_currency.2
    · intro c hc
      rw [hstore]
      exact record_of_ne _ _ (by rw [hcur]; exact hc)

end Runs

/-! ## Two runs -/

/-- A USD tick whose effects do nothing, with a dwell of a second. -/
def usdTick (candidates : List Candidate) (activeRay : Option ℚ) (flagged : Bool) (now : ℚ) : TickContext Unit where
  currency            := .usd
  activeAnomaly       := flagged
  activeRay           := activeRay
  candidates          := candidates
  yieldAccrued        := true
  thresholdPct        := 1
  effects             := ⟨fun _ _ _ => pure (), fun _ _ _ => pure (), fun _ _ _ => pure ()⟩
  depositors          := none
  autoCompoundEnabled := none
  clock               := some (pure now)
  minDwellMs          := some 1000
  positionValueUsd    := some 100000
  switchCostUsd       := some 1
  dwellHorizonDays    := none

/-- What a tick does to a store. -/
def observed (ctx : TickContext Unit) (now : ℚ) (store : BucketStore) (d : Decision) : TickEvent Unit :=
  let u := after (runAllocatorTick ctx.recorded) (((), []), store)
  ⟨store, ⟨ctx, now, (), u.1.1, d, u.1.2⟩, u.2⟩

theorem ticks_observed {candidates : List Candidate} {activeRay : Option ℚ} {flagged : Bool} {now : ℚ}
    {store : BucketStore} {d : Decision}
    (h : returned (runAllocatorTick (usdTick candidates activeRay flagged now).recorded) (((), []), store)
      = some d) :
    Ticks store (observed (usdTick candidates activeRay flagged now) now store d).label
      (observed (usdTick candidates activeRay flagged now) now store d).post :=
  ⟨⟨(), rfl⟩, run_of_returned h⟩

/-- Seeded; half a second later the rival has to wait; -/
def seeded : TickEvent Unit :=
  observed (usdTick [⟨"defindex-usdc", 8⟩, ⟨"blend-usdc", 8⟩] none false 0) 0 .empty
    (.rebalance .usd "defindex-usdc" "defindex-usdc")

def dwelt : TickEvent Unit :=
  observed (usdTick [⟨"defindex-usdc", 8⟩, ⟨"blend-usdc", 12⟩] (some 8) false 500) 500 seeded.post
    (.compound .usd "defindex-usdc")

/-- … later it need not. -/
def switched : TickEvent Unit :=
  observed (usdTick [⟨"defindex-usdc", 8⟩, ⟨"blend-usdc", 12⟩] (some 8) false 1500) 1500 dwelt.post
    (.rebalance .usd "defindex-usdc" "blend-usdc")

theorem run_patient : Run Ticks BucketStore.empty [seeded, dwelt, switched] switched.post :=
  .cons (ticks_observed (by decide +kernel)) (.cons (ticks_observed (by decide +kernel))
    (.cons (ticks_observed (by decide +kernel)) (.nil _)))

theorem never_churns_patient :
    switched.label.calls = [.rebalance .usd "defindex-usdc" "blend-usdc"] ∧
      NeverChurns 1000 (· ≠ "") [seeded, dwelt, switched] := by
  refine ⟨by decide +kernel, never_churns run_patient (by decide +kernel) ?_ ?_⟩
  · simp only [List.forall_mem_cons, List.not_mem_nil, false_implies, implies_true, and_true]
    exact ⟨rfl, rfl, rfl⟩
  · simp only [List.pairwise_cons, List.forall_mem_cons, List.not_mem_nil, false_implies, implies_true, and_true,
      List.Pairwise.nil]
    exact ⟨⟨by decide +kernel, by decide +kernel⟩, by decide +kernel⟩

/-- The bucket is seeded into a pool whose id is the empty string, -/
def unnamed : TickEvent Unit :=
  observed (usdTick [⟨"", 8⟩] none false 0) 0 .empty (.rebalance .usd "" "")

/-- … and leaves it for a better one when it is flagged. -/
def unprotected : TickEvent Unit :=
  observed (usdTick [⟨"blend-usdc", 12⟩] (some 8) true 1500) 1500 unnamed.post (.rebalance .usd "" "blend-usdc")

theorem run_unprotected : Run Ticks BucketStore.empty [unnamed, unprotected] unprotected.post :=
  .cons (ticks_observed (by decide +kernel)) (.cons (ticks_observed (by decide +kernel)) (.nil _))

/-- **A flagged pool with the empty id is rebalanced**, with nothing proposed to anybody. -/
theorem flagged_empty_id_rebalances :
    Run Ticks BucketStore.empty [unnamed, unprotected] unprotected.post ∧
      (∀ e ∈ [unnamed, unprotected], e.label.window = 1000) ∧
      [unnamed, unprotected].Pairwise (fun e e' => e.label.now ≤ e'.label.now) ∧
      unprotected.label.calls = [.rebalance .usd "" "blend-usdc"] ∧
      ¬ NeverChurns 1000 (fun _ => True) [unnamed, unprotected] := by
  refine ⟨run_unprotected, ?_, ?_, by decide +kernel, ?_⟩
  · simp only [List.forall_mem_cons, List.not_mem_nil, false_implies, implies_true, and_true]
    exact ⟨rfl, rfl⟩
  · rw [List.pairwise_pair]
    decide +kernel
  · intro h
    have hheld : unprotected.pre.active .usd = some "" := by decide +kernel
    obtain ⟨toPool, hd, _, _⟩ := h.protects unprotected (by simp) "" hheld trivial rfl (by decide +kernel)
    exact absurd hd (by simp [unprotected, observed])

end Backend
end SoroSense
