import SoroSense.Backend.Catalog
import SoroSense.Lib.Session
import Mathlib.Data.List.MinMax

/-!
# `Backend.Allocator` — the decision core and its tick

`mastra/allocator.ts`, and the threshold of `sentinel/score.ts`. Two layers as there: `classifyBucket` is
pure, `runAllocatorTick` drives injected effects and then updates the bucket store. The effects act on a
state `σ` of their own; an effect that throws ends the tick before the store is touched. JavaScript's
numbers are rationals.
-/

namespace SoroSense
namespace Backend

open Session

/-! ## Decisions -/

inductive Decision where
  | compound (currency : Currency) (pool : PoolId)
  | rebalance (currency : Currency) (source target : PoolId)
  | freezeExit (currency : Currency) (pool : PoolId) (toPool : Option PoolId)
  | noop (currency : Currency) (reason : String)
deriving DecidableEq

/-- The reason of the no-op that waits for a depositor. -/
def AWAITING_EXIT : String := "awaiting exit approval"

def NO_SWITCH : String := "no better pool clears the switch gate, no accrual"

/-- A Safe-set candidate with its risk-adjusted yield. -/
structure Candidate where
  poolId : PoolId
  ray    : ℚ
deriving DecidableEq

structure ClassifyInput where
  currency          : Currency
  activePool        : Option PoolId
  activeAnomaly     : Bool
  activeRay         : Option ℚ
  candidates        : List Candidate
  yieldAccrued      : Bool
  hasPendingExit    : Bool
  thresholdPct      : ℚ
  nowMs             : Option ℚ
  lastRebalanceAtMs : Option ℚ
  minDwellMs        : Option ℚ
  positionValueUsd  : Option ℚ
  switchCostUsd     : Option ℚ
  dwellHorizonDays  : Option ℚ

/-- The first candidate of the highest yield, `exclude` left out. -/
def bestOf (candidates : List Candidate) (exclude : Option PoolId) : Option Candidate :=
  (candidates.filter fun c => decide (exclude ≠ some c.poolId)).foldl
    (fun best c =>
      match best with
      | none   => some c
      | some b => if b.ray < c.ray then some c else some b)
    none

def exceedsRebalanceThreshold (currentRay candidateRay thresholdPct : ℚ) : Bool :=
  decide (thresholdPct < candidateRay - currentRay)

namespace ClassifyInput

variable (input : ClassifyInput)

/-- The minimum-dwell guard refuses a switch now. An absent time, or a window of zero, is no guard. -/
def dwelling : Bool :=
  match input.minDwellMs, input.nowMs, input.lastRebalanceAtMs with
  | some window, some now, some last => decide (0 < window ∧ now - last < window)
  | _, _, _                          => false

/-- The cost gate refuses a switch from a pool at `activeRay`. -/
def tooCostly (activeRay : ℚ) (best : Candidate) : Bool :=
  match input.positionValueUsd, input.switchCostUsd, input.dwellHorizonDays with
  | some value, some cost, some horizon =>
      decide ((best.ray - activeRay) / 100 * value * (horizon / 365) ≤ cost)
  | _, _, _ => false

/-- The anti-churn gate. An unallocated bucket, or one whose yield is not known, always moves. -/
def shouldRebalance (best : Candidate) : Bool :=
  match input.activePool, input.activeRay with
  | some _, some activeRay =>
      if exceedsRebalanceThreshold activeRay best.ray input.thresholdPct = false then false
      else if input.dwelling = true then false
      else if input.tooCostly activeRay best = true then false
      else true
  | _, _ => true

/-- The held pool, where the bucket has one that JavaScript takes for true. -/
def held : Option PoolId := input.activePool.filter (· ≠ "")

/-- The held pool, when it was flagged. -/
def anomalous : Option PoolId := if input.activeAnomaly = true then input.held else none

/-- The best candidate, when it is another pool and the gate lets the bucket move there. -/
def switchTarget : Option Candidate :=
  (bestOf input.candidates none).filter fun best =>
    decide (input.activePool ≠ some best.poolId) && input.shouldRebalance best

/-- The held pool, when it accrued. -/
def accruing : Option PoolId := if input.yieldAccrued = true then input.held else none

end ClassifyInput

/-- The pure decision. -/
def classifyBucket (input : ClassifyInput) : Decision :=
  if input.hasPendingExit = true then .noop input.currency AWAITING_EXIT
  else
    match input.anomalous with
    | some pool => .freezeExit input.currency pool ((bestOf input.candidates (some pool)).map (·.poolId))
    | none =>
      match input.switchTarget with
      | some best => .rebalance input.currency (input.activePool.getD best.poolId) best.poolId
      | none =>
        match input.accruing with
        | some pool => .compound input.currency pool
        | none      => .noop input.currency NO_SWITCH

/-- The currency a decision is about. -/
def Decision.currency : Decision → Currency
  | .compound c _     => c
  | .rebalance c _ _  => c
  | .freezeExit c _ _ => c
  | .noop c _         => c

/-! ## The store -/

/-- `InMemoryBucketStore`. -/
structure BucketStore where
  active   : Currency → Option PoolId
  pending  : Currency → Bool
  lastMove : Currency → Option ℚ

namespace BucketStore

def empty : BucketStore := ⟨fun _ => none, fun _ => false, fun _ => none⟩

def setActivePool (store : BucketStore) (c : Currency) (pool : PoolId) : BucketStore :=
  { store with active := Function.update store.active c (some pool) }

def setPendingExit (store : BucketStore) (c : Currency) (pending : Bool) : BucketStore :=
  { store with pending := Function.update store.pending c pending }

def setLastRebalanceAt (store : BucketStore) (c : Currency) (atMs : ℚ) : BucketStore :=
  { store with lastMove := Function.update store.lastMove c (some atMs) }

/-- The store after a completed rebalance. -/
def rebalanced (store : BucketStore) (c : Currency) (target : PoolId) (nowMs : Option ℚ) : BucketStore :=
  match nowMs with
  | some now => (store.setActivePool c target).setLastRebalanceAt c now
  | none     => store.setActivePool c target

end BucketStore

/-! ## The tick -/

/-- Seven days. -/
def DEFAULT_MIN_DWELL_MS : ℚ := 7 * 24 * 60 * 60 * 1000

def DEFAULT_DWELL_HORIZON_DAYS : ℚ := 30

/-- The side effects a tick drives. -/
structure AllocatorEffects (σ : Type) where
  compound   : Currency → PoolId → Option Address → EStateM String σ Unit
  rebalance  : Currency → PoolId → PoolId → EStateM String σ Unit
  freezeExit : Currency → PoolId → Option PoolId → EStateM String σ Unit

structure TickContext (σ : Type) where
  currency            : Currency
  activeAnomaly       : Bool
  activeRay           : Option ℚ
  candidates          : List Candidate
  yieldAccrued        : Bool
  thresholdPct        : ℚ
  effects             : AllocatorEffects σ
  depositors          : Option (List Address)
  autoCompoundEnabled : Option (Address → EStateM String σ Bool)
  clock               : Option (EStateM String σ ℚ)
  minDwellMs          : Option ℚ
  positionValueUsd    : Option ℚ
  switchCostUsd       : Option ℚ
  dwellHorizonDays    : Option ℚ

namespace TickContext

variable {σ : Type} (ctx : TickContext σ)

/-- A preference, read as OFF when it cannot be read. -/
def enabledFor (read : Address → EStateM String σ Bool) (depositor : Address) : EStateM String σ Bool := fun s =>
  match (read depositor).run s with
  | .ok enabled t => .ok enabled t
  | .error _ t    => .ok false t

/-- Compound for each depositor who is ON. -/
def compoundFor (read : Address → EStateM String σ Bool) (c : Currency) (pool : PoolId) :
    List Address → EStateM String σ Unit
  | []                      => pure ()
  | depositor :: depositors => do
      let enabled ← enabledFor read depositor
      if enabled = true then ctx.effects.compound c pool (some depositor)
      compoundFor read c pool depositors

def gateCompound (c : Currency) (pool : PoolId) : EStateM String σ Unit :=
  match ctx.depositors, ctx.autoCompoundEnabled with
  | some depositors, some read => ctx.compoundFor read c pool depositors
  | _, _                       => ctx.effects.compound c pool none

/-- `ctx.clock ? ctx.clock() : undefined`. -/
def readNow : EStateM String σ (Option ℚ) :=
  match ctx.clock with
  | some clock => do let now ← clock; pure (some now)
  | none       => pure none

/-- What the tick classifies. -/
def classifyInput (nowMs : Option ℚ) (store : BucketStore) : ClassifyInput :=
  { currency := ctx.currency
    activePool := store.active ctx.currency
    activeAnomaly := ctx.activeAnomaly
    activeRay := ctx.activeRay
    candidates := ctx.candidates
    yieldAccrued := ctx.yieldAccrued
    hasPendingExit := store.pending ctx.currency
    thresholdPct := ctx.thresholdPct
    nowMs := nowMs
    lastRebalanceAtMs := store.lastMove ctx.currency
    -- the default window applies only where there is a clock
    minDwellMs :=
      match ctx.clock with
      | some _ => some (ctx.minDwellMs.getD DEFAULT_MIN_DWELL_MS)
      | none   => ctx.minDwellMs
    positionValueUsd := ctx.positionValueUsd
    switchCostUsd := ctx.switchCostUsd
    dwellHorizonDays := some (ctx.dwellHorizonDays.getD DEFAULT_DWELL_HORIZON_DAYS) }

/-- The effect of a decision. -/
def effect : Decision → EStateM String σ Unit
  | .compound c pool           => ctx.gateCompound c pool
  | .rebalance c source target => ctx.effects.rebalance c source target
  | .freezeExit c pool toPool  => ctx.effects.freezeExit c pool toPool
  | .noop _ _                  => pure ()

end TickContext

/-- What a completed decision writes to the store. -/
def Decision.record (nowMs : Option ℚ) (store : BucketStore) : Decision → BucketStore
  | .rebalance c _ target => store.rebalanced c target nowMs
  | .freezeExit c _ _     => store.setPendingExit c true
  | .compound _ _         => store
  | .noop _ _             => store

/-- Run one tick on the state of the effects and the store. -/
def runAllocatorTick {σ : Type} (ctx : TickContext σ) : EStateM String (σ × BucketStore) Decision := do
  let nowMs ← onFst ctx.readNow
  let decision := classifyBucket (ctx.classifyInput nowMs (← get).2)
  onFst (ctx.effect decision)
  modify fun s => (s.1, decision.record nowMs s.2)
  return decision

/-! ## The best candidate -/

/-- `best` is a candidate of the highest yield, and the first of them. -/
structure FirstBest (candidates : List Candidate) (best : Candidate) : Prop where
  listed  : best ∈ candidates
  highest : ∀ c ∈ candidates, c.ray ≤ best.ray
  first   : ∀ c ∈ candidates, best.ray ≤ c.ray → candidates.idxOf best ≤ candidates.idxOf c

section BestOf

variable {candidates : List Candidate} {exclude : Option PoolId} {best : Candidate}

theorem bestOf_eq_argmax :
    bestOf candidates exclude
      = (candidates.filter fun c => decide (exclude ≠ some c.poolId)).argmax (·.ray) := by
  unfold bestOf List.argmax
  congr 1
  funext best c
  cases best <;> rfl

theorem bestOf_eq_some :
    bestOf candidates exclude = some best ↔
      FirstBest (candidates.filter fun c => decide (exclude ≠ some c.poolId)) best := by
  rw [bestOf_eq_argmax, List.argmax_eq_some_iff]
  constructor
  · rintro ⟨hlisted, hhighest, hfirst⟩
    exact ⟨hlisted, hhighest, hfirst⟩
  · rintro ⟨hlisted, hhighest, hfirst⟩
    exact ⟨hlisted, hhighest, hfirst⟩

/-- Where nothing is left out, the best of all. -/
theorem bestOf_none_eq_some : bestOf candidates none = some best ↔ FirstBest candidates best := by
  rw [bestOf_eq_some]
  simp

theorem bestOf_eq_none : bestOf candidates exclude = none ↔ ∀ c ∈ candidates, exclude = some c.poolId := by
  rw [bestOf_eq_argmax, List.argmax_eq_none, List.filter_eq_nil_iff]
  simp

end BestOf

/-! ## When a tick decides what -/

section Classify

variable {input : ClassifyInput} {c : Currency} {pool source target : PoolId} {toPool : Option PoolId}

theorem classifyBucket_eq_awaiting :
    classifyBucket input = .noop c AWAITING_EXIT ↔ input.currency = c ∧ input.hasPendingExit = true := by
  have hne : NO_SWITCH ≠ AWAITING_EXIT := by decide +kernel
  unfold classifyBucket
  by_cases hp : input.hasPendingExit = true
  · simp [hp]
  · rw [if_neg hp]
    constructor
    · intro h
      split at h
      · exact absurd h (by simp)
      · split at h
        · exact absurd h (by simp)
        · split at h
          · exact absurd h (by simp)
          · injection h with _ hr
            exact absurd hr hne
    · intro h
      exact absurd h.2 hp

/-- **A tick freezes** exactly the held pool, when it was flagged and no exit waits. -/
theorem classifyBucket_eq_freezeExit :
    classifyBucket input = .freezeExit c pool toPool ↔ input.hasPendingExit = false ∧
      input.anomalous = some pool ∧ input.currency = c ∧
      (bestOf input.candidates (some pool)).map (·.poolId) = toPool := by
  unfold classifyBucket
  by_cases hp : input.hasPendingExit = true
  · rw [if_pos hp]
    simp [hp]
  · rw [if_neg hp]
    have hp' := Bool.eq_false_iff.mpr hp
    cases ha : input.anomalous with
    | some held =>
        simp only [Decision.freezeExit.injEq, Option.some.injEq]
        constructor
        · rintro ⟨hc, rfl, ht⟩
          exact ⟨hp', rfl, hc, ht⟩
        · rintro ⟨_, rfl, hc, ht⟩
          exact ⟨hc, rfl, ht⟩
    | none =>
        dsimp only
        constructor
        · intro h
          cases hs : input.switchTarget with
          | some best => rw [hs] at h; exact absurd h (by simp)
          | none      => rw [hs] at h; cases ht : input.accruing <;> rw [ht] at h <;> exact absurd h (by simp)
        · intro h
          exact absurd h.2.1 (by simp)

/-- **A tick rebalances** when nothing waits, nothing is flagged and the gate lets the best pool in. -/
theorem classifyBucket_eq_rebalance :
    classifyBucket input = .rebalance c source target ↔ input.hasPendingExit = false ∧
      input.anomalous = none ∧ input.currency = c ∧ ∃ best, input.switchTarget = some best ∧
      input.activePool.getD best.poolId = source ∧ best.poolId = target := by
  unfold classifyBucket
  by_cases hp : input.hasPendingExit = true
  · rw [if_pos hp]
    simp [hp]
  · rw [if_neg hp]
    have hp' := Bool.eq_false_iff.mpr hp
    cases ha : input.anomalous with
    | some held => simp
    | none =>
        cases hs : input.switchTarget with
        | some best =>
            simp only [Decision.rebalance.injEq, Option.some.injEq]
            constructor
            · rintro ⟨hc, hf, ht⟩
              exact ⟨hp', trivial, hc, best, rfl, hf, ht⟩
            · rintro ⟨_, _, hc, _, rfl, hf, ht⟩
              exact ⟨hc, hf, ht⟩
        | none =>
            dsimp only
            constructor
            · intro h
              cases ht : input.accruing <;> rw [ht] at h <;> exact absurd h (by simp)
            · rintro ⟨_, _, _, best, h, _⟩
              exact absurd h (by simp)

/-- A tick with nothing to do. -/
theorem classifyBucket_of_quiet (hp : input.hasPendingExit = false) (ha : input.anomalous = none)
    (hs : input.switchTarget = none) (hy : input.accruing = none) :
    classifyBucket input = .noop input.currency NO_SWITCH := by
  unfold classifyBucket
  rw [hp, ha, hs, hy]
  rfl

/-- A bucket's tick decides about that bucket. -/
theorem currency_classifyBucket (input : ClassifyInput) : (classifyBucket input).currency = input.currency := by
  unfold classifyBucket
  split
  · rfl
  · split
    · rfl
    · split
      · rfl
      · split <;> rfl

namespace ClassifyInput

variable {best : Candidate}

theorem switchTarget_eq_some :
    input.switchTarget = some best ↔ bestOf input.candidates none = some best ∧
      input.activePool ≠ some best.poolId ∧ input.shouldRebalance best = true := by
  rw [switchTarget, Option.filter_eq_some_iff, Bool.and_eq_true, decide_eq_true_eq]

/-- There is no switch into the pool the bucket is in. -/
theorem switchTarget_of_held (hb : bestOf input.candidates none = some best)
    (hp : input.activePool = some best.poolId) : input.switchTarget = none := by
  cases hs : input.switchTarget with
  | none => rfl
  | some rival =>
      obtain ⟨hr, hne, _⟩ := switchTarget_eq_some.mp hs
      obtain rfl := Option.some.inj (hb.symm.trans hr)
      exact absurd hp hne

/-- The gate lets anything into an unallocated bucket. -/
theorem shouldRebalance_of_unallocated (h : input.activePool = none) : input.shouldRebalance best = true := by
  unfold shouldRebalance
  rw [h]

/-- And into one whose yield is not known. -/
theorem shouldRebalance_of_unknown (h : input.activeRay = none) : input.shouldRebalance best = true := by
  unfold shouldRebalance
  rw [h]
  cases input.activePool <;> rfl

/-- **An allocated bucket whose yield is known** moves past all three guards. -/
theorem shouldRebalance_of_known {activeRay : ℚ} (hp : input.activePool = some pool)
    (hr : input.activeRay = some activeRay) :
    input.shouldRebalance best = true ↔ exceedsRebalanceThreshold activeRay best.ray input.thresholdPct = true ∧
      input.dwelling = false ∧ input.tooCostly activeRay best = false := by
  unfold shouldRebalance
  rw [hp, hr]
  dsimp only
  cases exceedsRebalanceThreshold activeRay best.ray input.thresholdPct <;> cases input.dwelling <;>
    cases input.tooCostly activeRay best <;> simp

/-- The dwell guard of an input with all three times. -/
theorem dwelling_of_known {window now last : ℚ} (hw : input.minDwellMs = some window) (hn : input.nowMs = some now)
    (hl : input.lastRebalanceAtMs = some last) :
    input.dwelling = false ↔ (0 < window → window ≤ now - last) := by
  unfold dwelling
  rw [hw, hn, hl]
  simp

/-- The cost gate of an input that gives the costs. -/
theorem tooCostly_of_known {activeRay value cost horizon : ℚ} (hv : input.positionValueUsd = some value)
    (hc : input.switchCostUsd = some cost) (hh : input.dwellHorizonDays = some horizon) :
    input.tooCostly activeRay best = false ↔ cost < (best.ray - activeRay) / 100 * value * (horizon / 365) := by
  unfold tooCostly
  rw [hv, hc, hh]
  simp

/-- What is flagged is held, and has a name. -/
theorem anomalous_eq_some :
    input.anomalous = some pool ↔ input.activeAnomaly = true ∧ input.activePool = some pool ∧ pool ≠ "" := by
  unfold anomalous held
  split
  · rename_i h
    rw [Option.filter_eq_some_iff, decide_eq_true_eq]
    exact ⟨fun hp => ⟨h, hp⟩, And.right⟩
  · rename_i h
    exact ⟨fun hp => absurd hp (by simp), fun hp => absurd hp.1 h⟩

/-- Nothing is flagged where no pool is held. -/
theorem anomalous_of_unallocated (h : input.activePool = none) : input.anomalous = none := by
  unfold anomalous held
  rw [h]
  split <;> rfl

end ClassifyInput

end Classify

/-! ## What a tick does -/

section Gate

variable {σ : Type} {read : Address → EStateM String σ Bool} {depositor : Address} {s t : σ}

theorem TickContext.run_enabledFor_of_ok {enabled : Bool} (h : (read depositor).run s = .ok enabled t) :
    (TickContext.enabledFor read depositor).run s = .ok enabled t := by
  show TickContext.enabledFor read depositor s = _
  rw [TickContext.enabledFor, h]

/-- **Fail closed**: a preference that cannot be read is OFF. -/
theorem TickContext.run_enabledFor_of_error {message : String} (h : (read depositor).run s = .error message t) :
    (TickContext.enabledFor read depositor).run s = .ok false t := by
  show TickContext.enabledFor read depositor s = _
  rw [TickContext.enabledFor, h]

end Gate

theorem TickContext.compoundFor_cons {σ : Type} (ctx : TickContext σ) (read : Address → EStateM String σ Bool)
    (c : Currency) (pool : PoolId) (depositor : Address) (depositors : List Address) :
    ctx.compoundFor read c pool (depositor :: depositors) =
      (TickContext.enabledFor read depositor >>= fun enabled =>
        (if enabled = true then ctx.effects.compound c pool (some depositor) else pure ()) >>= fun _ =>
          ctx.compoundFor read c pool depositors) := by
  rw [TickContext.compoundFor]
  congr 1
  funext enabled
  cases enabled <;> rfl

section Tick

variable {σ : Type} {ctx : TickContext σ} {s u : σ × BucketStore} {d : Decision} {e : String}

/-- The program of a tick, from the reading of the clock on. -/
theorem run_runAllocatorTick {now : Option ℚ} {t : σ} (hnow : ctx.readNow.run s.1 = .ok now t) :
    (runAllocatorTick ctx).run s =
      match (ctx.effect (classifyBucket (ctx.classifyInput now s.2))).run t with
      | .ok _ v    => .ok (classifyBucket (ctx.classifyInput now s.2))
          (v, (classifyBucket (ctx.classifyInput now s.2)).record now s.2)
      | .error e v => .error e (v, s.2) := by
  unfold runAllocatorTick
  rw [run_bind_of_ok (run_onFst_of_ok hnow), EStateM.run_bind, EStateM.run_get]
  -- reading the clock left the store as it was
  show (onFst (ctx.effect (classifyBucket (ctx.classifyInput now s.2))) >>= _).run (t, s.2) = _
  cases hx : (ctx.effect (classifyBucket (ctx.classifyInput now s.2))).run t with
  | ok a v    => rw [run_bind_of_ok (run_onFst_of_ok hx)]; rfl
  | error e v => rw [run_bind_of_error (run_onFst_of_error hx)]

/-- **A tick leaves the state of the effects** where the effect of its decision does. -/
theorem fst_after_runAllocatorTick {now : Option ℚ} {t : σ} (hnow : ctx.readNow.run s.1 = .ok now t) :
    (after (runAllocatorTick ctx) s).1 = after (ctx.effect (classifyBucket (ctx.classifyInput now s.2))) t := by
  have hrun := run_runAllocatorTick hnow
  cases hx : (ctx.effect (classifyBucket (ctx.classifyInput now s.2))).run t with
  | ok a v =>
      rw [hx] at hrun
      rw [after_of_ok hrun, after_of_ok hx]
  | error e v =>
      rw [hx] at hrun
      rw [after_of_error hrun, after_of_error hx]

/-- **A tick that resolved** ran the effect of its decision, then wrote the store. -/
theorem runAllocatorTick_eq_ok :
    (runAllocatorTick ctx).run s = .ok d u ↔ ∃ now t, ctx.readNow.run s.1 = .ok now t ∧
      classifyBucket (ctx.classifyInput now s.2) = d ∧
      (ctx.effect d).run t = .ok () u.1 ∧ u.2 = d.record now s.2 := by
  cases hnow : ctx.readNow.run s.1 with
  | error e t =>
      unfold runAllocatorTick
      rw [run_bind_of_error (run_onFst_of_error hnow)]
      simp
  | ok now t =>
      rw [run_runAllocatorTick hnow]
      constructor
      · intro h
        split at h
        · rename_i v hx
          injection h with hd hu
          subst hd hu
          exact ⟨now, t, rfl, rfl, hx, rfl⟩
        · exact absurd h (by simp)
      · rintro ⟨now', t', h, hd, hx, hu⟩
        injection h with hn ht
        subst hn ht hd
        rw [hx, ← hu]

/-- **A tick that threw** left the store alone. -/
theorem store_of_runAllocatorTick_error (h : (runAllocatorTick ctx).run s = .error e u) : u.2 = s.2 := by
  cases hnow : ctx.readNow.run s.1 with
  | error e' t =>
      unfold runAllocatorTick at h
      rw [run_bind_of_error (run_onFst_of_error hnow)] at h
      injection h with _ hu
      rw [← hu]
  | ok now t =>
      rw [run_runAllocatorTick hnow] at h
      split at h
      · exact absurd h (by simp)
      · injection h with _ hu
        rw [← hu]

end Tick

end Backend
end SoroSense
