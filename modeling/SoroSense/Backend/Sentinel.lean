import Mathlib.Algebra.Order.Field.Basic
import Mathlib.Algebra.Order.Round
import Mathlib.Data.Rat.Floor
import Mathlib.Tactic.Linarith
import Mathlib.Tactic.NormNum
import Mathlib.Tactic.Positivity

/-!
# `Backend.Sentinel` — the risk score of a pool

`backend/src/sentinel/{signals,score}.ts`. A number is a rational or `NaN`, which every operation passes on
and every comparison answers with `false`; a read that may fail is a number or `null`. The thresholds are
positive and the position is not negative, as the callers promise.

Two signals, each between 0 and 1, are weighed into a score. A signal without its reads is maximal and makes
the pool an anomaly: `isBad` is asked of the reads, not of the position.
-/

namespace SoroSense.Backend.Sentinel

/-! ## Numbers -/

/-- A number that is not infinite. -/
inductive Num where
  | nan
  | num (q : ℚ)
deriving DecidableEq

namespace Num

/-- An operation of two numbers. -/
def lift₂ (f : ℚ → ℚ → ℚ) : Num → Num → Num
  | num a, num b => num (f a b)
  | _, _         => nan

def add (a b : Num) : Num := lift₂ (· + ·) a b
def sub (a b : Num) : Num := lift₂ (· - ·) a b
def mul (a b : Num) : Num := lift₂ (· * ·) a b

/-- Every divisor of the source is a checked or a positive number. -/
def div (a b : Num) : Num := lift₂ (· / ·) a b

/-- `Math.min`. -/
def min (a b : Num) : Num := lift₂ Min.min a b

/-- `Math.abs`. -/
def abs : Num → Num
  | num a => num |a|
  | nan   => nan

/-- `Math.round`: halves go up. -/
def round : Num → Num
  | num a => num ⌊a + 1 / 2⌋
  | nan   => nan

/-- `a >= b`. -/
def ge : Num → Num → Bool
  | num a, num b => b ≤ a
  | _, _         => false

/-- `a <= b`. -/
def le : Num → Num → Bool
  | num a, num b => a ≤ b
  | _, _         => false

end Num

/-! ## Signals (`signals.ts`) -/

/-- Raw inputs for one pool at one tick; none is `null`. -/
structure PoolSignalInput where
  poolId       : String
  liquidityUsd : Option Num
  positionUsd  : Num
  oracleTwap   : Option Num
  oracleSpot   : Option Num
  position_nonneg : ∀ q, positionUsd = .num q → 0 ≤ q

structure SignalThresholds where
  thinLiquidityRatio : ℚ
  oracleDeviationPct : ℚ
  thin_pos      : 0 < thinLiquidityRatio
  deviation_pos : 0 < oracleDeviationPct

def DEFAULT_THRESHOLDS : SignalThresholds := ⟨1 / 20, 1 / 100, by norm_num, by norm_num⟩

/-- A signal's verdict. -/
structure Signal where
  value   : Num
  tripped : Bool
  missing : Bool
deriving DecidableEq

/-- A read that is not bad: `isBad` holds of `null` and of `NaN`. -/
def present : Option Num → Option ℚ
  | some (.num q) => some q
  | _             => none

/-- A signal without its reads. -/
def failClosed : Signal := ⟨.num 1, true, true⟩

/-- A ratio against its threshold; it saturates at four times that. -/
def saturating (ratio : Num) (threshold : ℚ) : Signal :=
  ⟨.min (.num 1) (ratio.div (.num (threshold * 4))), ratio.ge (.num threshold), false⟩

def liquiditySignal (input : PoolSignalInput) (t : SignalThresholds) : Signal :=
  match present input.liquidityUsd with
  | none           => failClosed
  | some liquidity =>
      if liquidity ≤ 0 then failClosed
      else saturating (input.positionUsd.div (.num liquidity)) t.thinLiquidityRatio

def oracleDeviationSignal (input : PoolSignalInput) (t : SignalThresholds) : Signal :=
  match present input.oracleTwap, present input.oracleSpot with
  | some twap, some spot =>
      if twap ≤ 0 then failClosed
      else saturating ((Num.abs ((Num.num spot).sub (.num twap))).div (.num twap)) t.oracleDeviationPct
  | _, _                 => failClosed

/-! ## The score (`score.ts`) -/

structure RiskAssessment where
  poolId  : String
  score   : Num
  anomaly : Bool
  safe    : Bool
  reasons : List String
deriving DecidableEq

/-- Score at or above which a pool is excluded from the Safe set. -/
def SAFE_SCORE_CEILING : Num := .num 50

/-- The weighted composite. -/
def composite (liq orc : Signal) : Num :=
  (((liq.value.mul (.num (1 / 2))).add (orc.value.mul (.num (1 / 2)))).mul (.num 100)).round

def scorePool (input : PoolSignalInput) (thresholds : SignalThresholds) : RiskAssessment :=
  let liq := liquiditySignal input thresholds
  let orc := oracleDeviationSignal input thresholds
  let score := composite liq orc
  let failClosed := liq.missing || orc.missing
  let yieldbloxShape := liq.tripped && orc.tripped
  let anomaly := failClosed || yieldbloxShape || score.ge SAFE_SCORE_CEILING
  { poolId  := input.poolId
    score   := if failClosed then .num 100 else score
    anomaly := anomaly
    safe    := !anomaly
    reasons :=
      (if liq.missing then ["liquidity read missing (fail-closed)"]
        else if liq.tripped then ["thin liquidity relative to position"] else [])
      ++ (if orc.missing then ["oracle read missing (fail-closed)"]
        else if orc.tripped then ["oracle price deviates from TWAP"] else [])
      ++ (if yieldbloxShape then ["thin-liquidity + oracle-deviation (YieldBlox shape)"] else []) }

/-- Raw APY discounted by the pool's risk score. -/
def riskAdjustedYield (apy score : Num) : Num := apy.mul ((Num.num 1).sub (score.div (.num 200)))

/-! ## A signal is a measured ratio, or fails closed -/

variable {input : PoolSignalInput} {t : SignalThresholds} {ratio threshold r s : ℚ} {liq orc : Signal}

/-- What the liquidity signal measures, with the position as it is. -/
def exposure (input : PoolSignalInput) : Option Num :=
  match present input.liquidityUsd with
  | none           => none
  | some liquidity => if liquidity ≤ 0 then none else some (input.positionUsd.div (.num liquidity))

/-- What the oracle signal measures. -/
def deviation (input : PoolSignalInput) : Option ℚ :=
  match present input.oracleTwap, present input.oracleSpot with
  | some twap, some spot => if twap ≤ 0 then none else some (|spot - twap| / twap)
  | _, _                 => none

/-- The signal of a measurement. -/
def signalOf (threshold : ℚ) : Option Num → Signal
  | none       => failClosed
  | some ratio => saturating ratio threshold

theorem liquiditySignal_eq : liquiditySignal input t = signalOf t.thinLiquidityRatio (exposure input) := by
  unfold liquiditySignal exposure
  cases present input.liquidityUsd with
  | none => rfl
  | some liquidity =>
      dsimp only
      split
      · rfl
      · rfl

theorem oracleDeviationSignal_eq :
    oracleDeviationSignal input t = signalOf t.oracleDeviationPct ((deviation input).map .num) := by
  unfold oracleDeviationSignal deviation
  cases present input.oracleTwap with
  | none => rfl
  | some twap =>
      cases present input.oracleSpot with
      | none => rfl
      | some spot =>
          dsimp only
          split
          · rfl
          · rfl

/-- A deviation is not negative. -/
theorem deviation_nonneg (h : deviation input = some r) : 0 ≤ r := by
  unfold deviation at h
  cases ht : present input.oracleTwap with
  | none => rw [ht] at h; cases h
  | some twap =>
      cases hs : present input.oracleSpot with
      | none => rw [ht, hs] at h; cases h
      | some spot =>
          rw [ht, hs] at h
          dsimp only at h
          by_cases hpos : twap ≤ 0
          · rw [if_pos hpos] at h
            cases h
          · rw [if_neg hpos] at h
            rw [← Option.some.inj h]
            exact div_nonneg (abs_nonneg _) (le_of_lt (not_le.mp hpos))

/-- An exposure that is a number is not negative. -/
theorem exposure_nonneg (h : exposure input = some (.num r)) : 0 ≤ r := by
  unfold exposure at h
  cases hl : present input.liquidityUsd with
  | none => rw [hl] at h; cases h
  | some liquidity =>
      rw [hl] at h
      dsimp only at h
      by_cases hpos : liquidity ≤ 0
      · rw [if_pos hpos] at h
        cases h
      · rw [if_neg hpos] at h
        cases hp : input.positionUsd with
        | nan => rw [hp] at h; cases Option.some.inj h
        | num q =>
            rw [hp] at h
            have hq : q / liquidity = r := Num.num.inj (Option.some.inj h)
            rw [← hq]
            exact div_nonneg (input.position_nonneg q hp) (le_of_lt (not_le.mp hpos))

/-! ## Signals grow with what they measure -/

/-- What a signal that measured a number is worth. -/
def level (threshold ratio : ℚ) : ℚ := Min.min 1 (ratio / (threshold * 4))

/-- A signal of value `v`: its number, whether it tripped, whether it failed closed. -/
def Signal.Is (signal : Signal) (v : ℚ) (tripped missing : Prop) : Prop :=
  signal.value = .num v ∧ (signal.tripped = true ↔ tripped) ∧ (signal.missing = true ↔ missing)

theorem signalOf_num (threshold ratio : ℚ) :
    (signalOf threshold (some (.num ratio))).Is (level threshold ratio) (threshold ≤ ratio) False :=
  ⟨rfl, by simp [signalOf, saturating, Num.ge], by simp [signalOf, saturating]⟩

theorem level_le_one (threshold ratio : ℚ) : level threshold ratio ≤ 1 := min_le_left _ _

theorem level_nonneg (ht : 0 < threshold) (hr : 0 ≤ ratio) : 0 ≤ level threshold ratio :=
  le_min (by norm_num) (div_nonneg hr (by positivity))

theorem level_mono (ht : 0 < threshold) (h : r ≤ s) : level threshold r ≤ level threshold s :=
  min_le_min_left 1 (div_le_div_of_nonneg_right h (by positivity))

/-- The composite of two numbers. -/
def composed (a b : ℚ) : ℚ := ⌊(a * (1 / 2) + b * (1 / 2)) * 100 + 1 / 2⌋

theorem composite_of_values {a b : ℚ} (ha : liq.value = .num a) (hb : orc.value = .num b) :
    composite liq orc = .num (composed a b) := by
  unfold composite
  rw [ha, hb]
  rfl

theorem composed_mono {a a' b b' : ℚ} (ha : a ≤ a') (hb : b ≤ b') : composed a b ≤ composed a' b' := by
  unfold composed
  exact_mod_cast Int.floor_le_floor (by linarith)

theorem composed_le {a b : ℚ} (ha : a ≤ 1) (hb : b ≤ 1) : composed a b ≤ 100 := by
  have hmono := composed_mono ha hb
  have hone : composed 1 1 = 100 := by
    unfold composed
    norm_num
  linarith

theorem composed_nonneg {a b : ℚ} (ha : 0 ≤ a) (hb : 0 ≤ b) : 0 ≤ composed a b := by
  have hmono := composed_mono ha hb
  have hzero : composed 0 0 = 0 := by
    unfold composed
    norm_num
  linarith

end SoroSense.Backend.Sentinel
