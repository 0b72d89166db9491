import SoroSense.Backend.Sentinel

/-!
# `Properties.RiskScore` — the score is monotone in risk, but for a missing position

A pool is scored by two measurements. Where one cannot be taken the score is 100 and the pool an anomaly
(`scorePool_of_missing`); where both are numbers the score is monotone in them (`scorePool_of_measured`). The
third case is a position that is not a number, in front of good reads: the signal is then neither missing nor
tripped, the score is no number and the pool passes for safe (`scorePool_of_nan`).
-/

namespace SoroSense.Backend.Sentinel

variable {a b input : PoolSignalInput} {t : SignalThresholds} {r d : ℚ}

/-! ## Missing inputs -/

/-- No positive liquidity was read. -/
def LiquidityMissing (input : PoolSignalInput) : Prop := ∀ q, input.liquidityUsd = some (.num q) → q ≤ 0

/-- No positive time-weighted price was read, or no spot price. -/
def OracleMissing (input : PoolSignalInput) : Prop :=
  (∀ q, input.oracleTwap = some (.num q) → q ≤ 0) ∨ ∀ q, input.oracleSpot ≠ some (.num q)

/-- Some input is missing. -/
def Missing (input : PoolSignalInput) : Prop :=
  input.positionUsd = .nan ∨ LiquidityMissing input ∨ OracleMissing input

/-- The position is a number, unless a read is missing anyway. -/
def PositionSeen (input : PoolSignalInput) : Prop :=
  input.positionUsd ≠ .nan ∨ LiquidityMissing input ∨ OracleMissing input

/-- `b` is at least as risky as `a` in every signal. -/
structure AtLeastAsRisky (a b : PoolSignalInput) : Prop where
  position  : ∀ q, b.positionUsd = .num q → ∃ p, a.positionUsd = .num p ∧ p ≤ q
  liquidity : LiquidityMissing b ∨
    ∃ x y, a.liquidityUsd = some (.num x) ∧ b.liquidityUsd = some (.num y) ∧ y ≤ x
  oracle    : OracleMissing b ∨ ∃ twap spot twap' spot' : ℚ,
    a.oracleTwap = some (.num twap) ∧ a.oracleSpot = some (.num spot) ∧ 0 < twap ∧
    b.oracleTwap = some (.num twap') ∧ b.oracleSpot = some (.num spot') ∧ 0 < twap' ∧
    |spot - twap| / twap ≤ |spot' - twap'| / twap'

theorem present_eq_some {n : Option Num} {q : ℚ} : present n = some q ↔ n = some (.num q) := by
  unfold present
  constructor
  · intro h
    split at h
    · rw [Option.some.inj h]
    · cases h
  · rintro rfl
    rfl

theorem exposure_eq_none_iff : exposure input = none ↔ LiquidityMissing input := by
  unfold exposure LiquidityMissing
  cases hl : present input.liquidityUsd with
  | none =>
      simp only [true_iff]
      intro q hq
      rw [present_eq_some.mpr hq] at hl
      cases hl
  | some liquidity =>
      have hread := present_eq_some.mp hl
      dsimp only
      constructor
      · intro h q hq
        rw [hread] at hq
        cases hq
        by_contra hpos
        rw [if_neg hpos] at h
        cases h
      · intro h
        exact if_pos (h liquidity hread)

theorem deviation_eq_none_iff : deviation input = none ↔ OracleMissing input := by
  unfold deviation OracleMissing
  constructor
  · intro h
    by_cases hspot : ∃ q, input.oracleSpot = some (.num q)
    · obtain ⟨spot, hspot⟩ := hspot
      left
      intro twap htwap
      by_contra hpos
      rw [present_eq_some.mpr htwap, present_eq_some.mpr hspot] at h
      dsimp only at h
      rw [if_neg hpos] at h
      cases h
    · exact .inr (not_exists.mp hspot)
  · intro h
    cases ht : present input.oracleTwap with
    | none => rfl
    | some twap =>
        cases hs : present input.oracleSpot with
        | none => rfl
        | some spot =>
            rcases h with h | h
            · exact if_pos (h twap (present_eq_some.mp ht))
            · exact absurd (present_eq_some.mp hs) (h spot)

theorem number_of_ne_nan {n : Num} (h : n ≠ .nan) : ∃ q, n = .num q := by
  cases n with
  | nan   => exact absurd rfl h
  | num q => exact ⟨q, rfl⟩

/-- A liquidity that is not missing is a positive number. -/
theorem liquidity_read (h : ¬ LiquidityMissing input) : ∃ x, input.liquidityUsd = some (.num x) ∧ 0 < x := by
  unfold LiquidityMissing at h
  push Not at h
  exact h

/-- Over a positive liquidity the position is divided, whatever it is. -/
theorem exposure_of_liquidity {x : ℚ} (hl : input.liquidityUsd = some (.num x)) (hx : 0 < x) :
    exposure input = some (input.positionUsd.div (.num x)) := by
  unfold exposure
  rw [present_eq_some.mpr hl]
  exact if_neg (not_le.mpr hx)

theorem deviation_of_num {twap spot : ℚ} (ht : input.oracleTwap = some (.num twap))
    (hs : input.oracleSpot = some (.num spot)) (hpos : 0 < twap) :
    deviation input = some (|spot - twap| / twap) := by
  unfold deviation
  rw [present_eq_some.mpr ht, present_eq_some.mpr hs]
  dsimp only
  rw [if_neg (not_le.mpr hpos)]

/-! ## The three kinds of score -/

/-- **A missing read is an anomaly of score 100.** -/
theorem scorePool_of_missing (h : LiquidityMissing input ∨ OracleMissing input) :
    (scorePool input t).score = .num 100 ∧ (scorePool input t).anomaly = true := by
  have hmissing : ((liquiditySignal input t).missing || (oracleDeviationSignal input t).missing) = true := by
    rw [liquiditySignal_eq, oracleDeviationSignal_eq, Bool.or_eq_true]
    rcases h with h | h
    · rw [exposure_eq_none_iff.mpr h]
      exact .inl rfl
    · rw [deviation_eq_none_iff.mpr h]
      exact .inr rfl
  unfold scorePool
  simp only [hmissing, if_true, Bool.true_or, and_self]

/-- **Two measurements are weighed**: the score is monotone in both, and so is what makes an anomaly. -/
theorem scorePool_of_measured (hr : exposure input = some (.num r)) (hd : deviation input = some d) :
    (scorePool input t).score = .num (composed (level t.thinLiquidityRatio r) (level t.oracleDeviationPct d)) ∧
    ((scorePool input t).anomaly = true ↔ t.thinLiquidityRatio ≤ r ∧ t.oracleDeviationPct ≤ d ∨
      50 ≤ composed (level t.thinLiquidityRatio r) (level t.oracleDeviationPct d)) := by
  have hliq := signalOf_num t.thinLiquidityRatio r
  have horc := signalOf_num t.oracleDeviationPct d
  rw [← hr, ← liquiditySignal_eq] at hliq
  have hmap : (deviation input).map Num.num = some (Num.num d) := by rw [hd]; rfl
  rw [← hmap, ← oracleDeviationSignal_eq] at horc
  obtain ⟨hv₁, ht₁, hm₁⟩ := hliq
  obtain ⟨hv₂, ht₂, hm₂⟩ := horc
  have hscore := composite_of_values hv₁ hv₂
  have hm₁ : (liquiditySignal input t).missing = false := by simpa using hm₁
  have hm₂ : (oracleDeviationSignal input t).missing = false := by simpa using hm₂
  unfold scorePool
  simp only [hm₁, hm₂, hscore, Bool.or_false, Bool.false_eq_true, if_false, Bool.false_or, Bool.or_eq_true,
    Bool.and_eq_true, ht₁, ht₂, true_and]
  simp only [Num.ge, SAFE_SCORE_CEILING, decide_eq_true_eq]

/-- **A position that is not a number passes for safe.** -/
theorem scorePool_of_nan (hp : input.positionUsd = .nan) (hl : ¬ LiquidityMissing input)
    (ho : ¬ OracleMissing input) :
    (scorePool input t).score = .nan ∧ (scorePool input t).anomaly = false := by
  have hne : deviation input ≠ none := fun h => ho (deviation_eq_none_iff.mp h)
  obtain ⟨d, hd⟩ := Option.ne_none_iff_exists'.mp hne
  obtain ⟨x, hx, hpos⟩ := liquidity_read hl
  have hliq : liquiditySignal input t = saturating .nan t.thinLiquidityRatio := by
    rw [liquiditySignal_eq, exposure_of_liquidity hx hpos, hp]
    rfl
  have horc : oracleDeviationSignal input t = saturating (.num d) t.oracleDeviationPct := by
    rw [oracleDeviationSignal_eq, hd]
    rfl
  unfold scorePool
  rw [hliq, horc]
  exact ⟨rfl, rfl⟩

/-! ## One pool -/

/-- A missing input is an anomaly of score 100, the score is within 0 and 100, and safe is no anomaly. -/
structure Sound (input : PoolSignalInput) (t : SignalThresholds) : Prop where
  failClosed : Missing input → (scorePool input t).anomaly = true ∧ (scorePool input t).score = .num 100
  range      : (scorePool input t).score.ge (.num 0) = true ∧ (scorePool input t).score.le (.num 100) = true
  safe       : (scorePool input t).safe = !(scorePool input t).anomaly

/-- The score of a pool whose position is seen is a number within 0 and 100. -/
theorem score_of_positionSeen (h : PositionSeen input) :
    ∃ q, (scorePool input t).score = .num q ∧ 0 ≤ q ∧ q ≤ 100 := by
  by_cases hmissing : LiquidityMissing input ∨ OracleMissing input
  · exact ⟨100, (scorePool_of_missing hmissing).1, by norm_num, by norm_num⟩
  · obtain ⟨hl, ho⟩ := not_or.mp hmissing
    have hp : input.positionUsd ≠ .nan := h.resolve_right hmissing
    obtain ⟨p, hp⟩ := number_of_ne_nan hp
    obtain ⟨x, hx, hpos⟩ := liquidity_read hl
    have hr : exposure input = some (.num (p / x)) := by
      rw [exposure_of_liquidity hx hpos, hp]
      rfl
    obtain ⟨d, hd⟩ := Option.ne_none_iff_exists'.mp fun h => ho (deviation_eq_none_iff.mp h)
    refine ⟨_, (scorePool_of_measured hr hd).1, ?_, ?_⟩
    · exact composed_nonneg (level_nonneg t.thin_pos (exposure_nonneg hr))
        (level_nonneg t.deviation_pos (deviation_nonneg hd))
    · exact composed_le (level_le_one _ _) (level_le_one _ _)

/-- **The verdict on one pool is sound exactly when its position is seen.** -/
theorem sound_iff : Sound input t ↔ PositionSeen input := by
  constructor
  · intro h
    by_contra hunseen
    unfold PositionSeen at hunseen
    push Not at hunseen
    obtain ⟨hp, hl, ho⟩ := hunseen
    have hscore := (h.failClosed (.inl hp)).2
    rw [(scorePool_of_nan hp hl ho).1] at hscore
    cases hscore
  · intro h
    refine ⟨?_, ?_, rfl⟩
    · intro hmissing
      have hread : LiquidityMissing input ∨ OracleMissing input := by
        rcases hmissing with hp | hread
        · exact h.resolve_left (not_not.mpr hp)
        · exact hread
      exact ⟨(scorePool_of_missing hread).2, (scorePool_of_missing hread).1⟩
    · obtain ⟨q, hq, hlo, hhi⟩ := score_of_positionSeen (t := t) h
      rw [hq]
      exact ⟨decide_eq_true hlo, decide_eq_true hhi⟩

/-! ## Two pools -/

/-- What is riskier is measured to be riskier. -/
theorem measured_of_risky (h : AtLeastAsRisky a b) {q : ℚ} (hq : b.positionUsd = .num q)
    (hl : ¬ LiquidityMissing b) (ho : ¬ OracleMissing b) :
    ∃ r s d e, exposure a = some (.num r) ∧ exposure b = some (.num s) ∧ r ≤ s ∧
      deviation a = some d ∧ deviation b = some e ∧ d ≤ e := by
  obtain ⟨p, hp, hpq⟩ := h.position q hq
  obtain ⟨x, y, hx, hy, hyx⟩ := h.liquidity.resolve_left hl
  obtain ⟨twap, spot, twap', spot', ht, hs, hpos, ht', hs', hpos', hle⟩ := h.oracle.resolve_left ho
  have hy₀ : 0 < y := by
    by_contra hneg
    apply hl
    intro z hz
    rw [hy] at hz
    cases hz
    exact not_lt.mp hneg
  have hx₀ : 0 < x := lt_of_lt_of_le hy₀ hyx
  have hra : exposure a = some (.num (p / x)) := by
    rw [exposure_of_liquidity hx hx₀, hp]
    rfl
  have hrb : exposure b = some (.num (q / y)) := by
    rw [exposure_of_liquidity hy hy₀, hq]
    rfl
  refine ⟨_, _, _, _, hra, hrb, ?_, deviation_of_num ht hs hpos, deviation_of_num ht' hs' hpos', hle⟩
  exact div_le_div₀ (b.position_nonneg q hq) hpq hy₀ hyx

/-- **Riskier pools score at least as high.** -/
theorem score_mono (h : AtLeastAsRisky a b) (ha : PositionSeen a) (hb : PositionSeen b) :
    (scorePool b t).score.ge (scorePool a t).score = true ∧
      ((scorePool a t).anomaly = true → (scorePool b t).anomaly = true) := by
  by_cases hmissing : LiquidityMissing b ∨ OracleMissing b
  · -- the score is the highest there is
    obtain ⟨hscore, hanomaly⟩ := scorePool_of_missing (t := t) hmissing
    obtain ⟨q, hq, _, hle⟩ := score_of_positionSeen (t := t) ha
    rw [hscore, hq, hanomaly]
    exact ⟨decide_eq_true hle, fun _ => rfl⟩
  · have hp : b.positionUsd ≠ .nan := hb.resolve_right hmissing
    obtain ⟨hl, ho⟩ := not_or.mp hmissing
    obtain ⟨q, hq⟩ := number_of_ne_nan hp
    obtain ⟨r, s, d, e, hr, hs, hrs, hd, he, hde⟩ := measured_of_risky h hq hl ho
    obtain ⟨hscore, hanomaly⟩ := scorePool_of_measured (t := t) hr hd
    obtain ⟨hscore', hanomaly'⟩ := scorePool_of_measured (t := t) hs he
    have hmono := composed_mono (level_mono t.thin_pos hrs) (level_mono t.deviation_pos hde)
    rw [hscore, hscore', hanomaly, hanomaly']
    refine ⟨decide_eq_true hmono, ?_⟩
    rintro (⟨hthin, hdev⟩ | hceiling)
    · exact .inl ⟨le_trans hthin hrs, le_trans hdev hde⟩
    · exact .inr (le_trans hceiling hmono)

/-- A higher score never raises the yield of an APY that is not negative. -/
theorem riskAdjustedYield_antitone {apy low high : ℚ} (h₀ : 0 ≤ apy) (h : low ≤ high) :
    (riskAdjustedYield (.num apy) (.num low)).ge (riskAdjustedYield (.num apy) (.num high)) = true := by
  apply decide_eq_true
  show apy * (1 - high / 200) ≤ apy * (1 - low / 200)
  apply mul_le_mul_of_nonneg_left ?_ h₀
  linarith

/-- **Scoring is monotone in risk with missing data on top, exactly when both positions are seen.** -/
theorem scoring_monotone_iff (a b : PoolSignalInput) (t : SignalThresholds) :
    ((AtLeastAsRisky a b → (scorePool b t).score.ge (scorePool a t).score = true ∧
        ((scorePool a t).anomaly = true → (scorePool b t).anomaly = true)) ∧
      Sound a t ∧ Sound b t ∧
      ∀ apy low high : ℚ, 0 ≤ apy → low ≤ high →
        (riskAdjustedYield (.num apy) (.num low)).ge (riskAdjustedYield (.num apy) (.num high)) = true) ↔
      PositionSeen a ∧ PositionSeen b := by
  constructor
  · rintro ⟨_, ha, hb, _⟩
    exact ⟨sound_iff.mp ha, sound_iff.mp hb⟩
  · rintro ⟨ha, hb⟩
    exact ⟨fun h => score_mono h ha hb, sound_iff.mpr ha, sound_iff.mpr hb,
      fun _ _ _ h₀ h => riskAdjustedYield_antitone h₀ h⟩

/-- A pool with good reads. -/
def goodReads (position : Num) (h : ∀ q, position = .num q → 0 ≤ q) : PoolSignalInput :=
  ⟨"pool", some (.num 1000000), position, some (.num 1), some (.num 1), h⟩

/-- **A pool whose position is not a number passes for safe**, and scores below one that is over its whole
    liquidity. -/
theorem scoring_missing_position :
    ∃ a b t, AtLeastAsRisky a b ∧ b.positionUsd = .nan ∧ (scorePool a t).anomaly = true ∧
      (scorePool b t).score = .nan ∧ (scorePool b t).anomaly = false ∧ (scorePool b t).safe = true := by
  refine ⟨goodReads (.num 1000000) (by simp), goodReads .nan (by simp), DEFAULT_THRESHOLDS, ⟨?_, ?_, ?_⟩,
    rfl, by decide +kernel, by decide +kernel, by decide +kernel, by decide +kernel⟩
  · intro q hq
    cases hq
  · exact .inr ⟨1000000, 1000000, rfl, rfl, le_refl _⟩
  · exact .inr ⟨1, 1, 1, 1, rfl, rfl, by norm_num, rfl, rfl, by norm_num, le_refl _⟩

end SoroSense.Backend.Sentinel
