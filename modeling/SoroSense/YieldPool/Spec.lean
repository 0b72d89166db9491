import SoroSense.YieldPool.Contract
import Mathlib.Tactic.Linarith

/-!
# `YieldPool.Spec` — what each pool call does, once and for all

Every entrypoint gets one **iff**: it returns exactly under its guards, and then the new storage is the
named effect (`supplied`, `withdrawn`, `rated`). Later modules cite these and never unfold the contract.

The effects are stated over the *exact* reading of a position, `State.value`: the number the code
computes, over unbounded integers. `Priced` says the code's own `balance` read returns, in which case it
returns that number (`balance_eq_ok`).

`State.WF` is the pool's invariant: the index only sums `rate × elapsed`, every entry index lies behind
it, and no counter is negative.
-/

namespace SoroSense
namespace YieldPool

open Fallible

theorem bpsYear_pos : 0 < bpsYear := by decide

/-! ## The exact value of a position -/

/-- `valueAt` over unbounded integers. -/
def exactValue (principal entryIndex index : Int) : Int :=
  if principal ≤ 0 then 0 else principal + (principal * (index - entryIndex)).tdiv bpsYear

/-- Whenever `valueAt` returns, it returns the exact value. -/
theorem valueAt_eq_ok {principal entryIndex index v : Int}
    (h : valueAt principal entryIndex index = .ok v) : v = exactValue principal entryIndex index := by
  unfold valueAt at h
  unfold exactValue
  by_cases hp : principal ≤ 0
  · rw [if_pos hp, ok_eq_ok] at h
    rw [if_pos hp]; exact h.symm
  · rw [if_neg hp] at h
    rw [if_neg hp]
    simp only [bind_eq_ok, I128.expect_eq_ok] at h
    obtain ⟨_, ⟨_, rfl⟩, _, ⟨_, rfl⟩, _, rfl⟩ := h
    rfl

/-- With every intermediate value an `i128`, it returns. -/
theorem valueAt_of_fits {principal entryIndex index : Int} (hg : I128.Fits (index - entryIndex))
    (hm : I128.Fits (principal * (index - entryIndex)))
    (hv : I128.Fits (exactValue principal entryIndex index)) :
    valueAt principal entryIndex index = .ok (exactValue principal entryIndex index) := by
  unfold valueAt
  unfold exactValue at hv ⊢
  by_cases hp : principal ≤ 0
  · rw [if_pos hp, if_pos hp]
  · rw [if_neg hp] at hv
    rw [if_neg hp, if_neg hp]
    simp only [bind_eq_ok, I128.expect_eq_ok]
    exact ⟨_, ⟨hg, rfl⟩, _, ⟨hm, rfl⟩, hv, rfl⟩

/-- At its own entry index a position is worth its principal. -/
theorem valueAt_self {principal index : Int} (h₀ : 0 ≤ principal) (hf : I128.Fits principal) :
    valueAt principal index index = .ok principal := by
  unfold valueAt
  rcases eq_or_lt_of_le h₀ with rfl | hp
  · rfl
  · rw [if_neg (not_le.mpr hp)]
    have h0 := I128.zero_fits
    have hm : I128.Fits (principal * 0) := by rw [mul_zero]; exact h0
    simp only [bind_eq_ok, I128.expect_eq_ok, sub_self]
    exact ⟨0, ⟨h0, rfl⟩, _, ⟨hm, rfl⟩, by simpa using hf, by simp⟩

theorem exactValue_self {principal index : Int} (h₀ : 0 ≤ principal) :
    exactValue principal index index = principal := by
  unfold exactValue
  split
  · omega
  · simp

theorem exactValue_mono {principal entryIndex i j : Int} (h : i ≤ j) :
    exactValue principal entryIndex i ≤ exactValue principal entryIndex j := by
  unfold exactValue
  split
  · exact le_refl _
  · have hm : principal * (i - entryIndex) ≤ principal * (j - entryIndex) :=
      mul_le_mul_of_nonneg_left (by omega) (by omega)
    have := Int.tdiv_le_tdiv bpsYear_pos hm
    omega

/-- A position valued behind the current index never falls below its principal. -/
theorem principal_le_exactValue {principal entryIndex index : Int} (h₀ : 0 ≤ principal)
    (h : entryIndex ≤ index) : principal ≤ exactValue principal entryIndex index := by
  have hm : exactValue principal entryIndex entryIndex ≤ exactValue principal entryIndex index :=
    exactValue_mono h
  rwa [exactValue_self h₀] at hm

namespace State

/-- The index a touch at `now` reads. -/
def indexAt (s : State) (now : Nat) : Int := s.index + s.rateBps * ((now - s.lastIndexTs : Nat) : Int)

/-- What `who`'s position is worth at `now`. -/
def value (s : State) (now : Nat) (who : Address) : Int :=
  match s.position who with
  | some pos => exactValue pos.principal pos.entryIndex (s.indexAt now)
  | none     => 0

/-- The pool's own `balance` read of `who` returns at `now`. -/
def Priced (s : State) (now : Nat) (who : Address) : Prop := balance now s who = .ok (s.value now who)

/-- **The pool invariant** at ledger time `now`. -/
structure WF (s : State) (now : Nat) : Prop where
  rate_le     : s.rateBps ≤ maxRateBps
  ts_le       : s.lastIndexTs ≤ now
  index_nonneg : 0 ≤ s.index
  index_le    : s.index ≤ maxRateBps * (s.lastIndexTs : Int)
  total_nonneg : 0 ≤ s.totalPrincipal
  total_fits  : I128.Fits s.totalPrincipal
  position_wf : ∀ who pos, s.position who = some pos →
    0 ≤ pos.principal ∧ I128.Fits pos.principal ∧ pos.entryIndex ≤ s.index

/-! ## The effects -/

/-- After the index was rolled to `now`. -/
def rolled (s : State) (now : Nat) : State :=
  { s with index := s.indexAt now, lastIndexTs := max s.lastIndexTs now }

/-- After `who` booked `amount`. -/
def supplied (s : State) (now : Nat) (who : Address) (amount : Int) : State :=
  { (s.rolled now).setPosition who ⟨s.value now who + amount, s.indexAt now⟩ with
    totalPrincipal := s.totalPrincipal + amount }

/-- After `who` was paid `amount`. -/
def withdrawn (s : State) (now : Nat) (who : Address) (amount : Int) : State :=
  { (s.rolled now).setPosition who ⟨s.value now who - amount, s.indexAt now⟩ with
    totalPrincipal := max 0 (s.totalPrincipal - amount) }

/-- After the rate was changed. -/
def rated (s : State) (now rateBps : Nat) : State := { s.rolled now with rateBps := rateBps }

variable {s : State} {now now' : Nat} {who x : Address} {amount : Int}

@[simp] theorem rolled_token : (s.rolled now).token = s.token := rfl
@[simp] theorem supplied_token : (s.supplied now who amount).token = s.token := rfl
@[simp] theorem withdrawn_token : (s.withdrawn now who amount).token = s.token := rfl
@[simp] theorem rated_token {r : Nat} : (s.rated now r).token = s.token := rfl

@[simp] theorem setPosition_self {pos : Position} : (s.setPosition who pos).position who = some pos := by
  simp [setPosition]

theorem setPosition_ne {pos : Position} (h : x ≠ who) :
    (s.setPosition who pos).position x = s.position x := by
  simp [setPosition, h]

/-- A supply re-bases the supplier's position only. -/
theorem position_supplied_ne (h : x ≠ who) : (s.supplied now who amount).position x = s.position x := by
  show Function.update s.position who _ x = s.position x
  rw [Function.update_of_ne h]

/-- A payout re-bases the recipient's position only. -/
theorem position_withdrawn_ne (h : x ≠ who) : (s.withdrawn now who amount).position x = s.position x := by
  show Function.update s.position who _ x = s.position x
  rw [Function.update_of_ne h]

/-! ## The index -/

theorem indexAt_mono (h : now ≤ now') : s.indexAt now ≤ s.indexAt now' := by
  unfold indexAt
  have hn : ((now - s.lastIndexTs : Nat) : Int) ≤ ((now' - s.lastIndexTs : Nat) : Int) := by omega
  have := mul_le_mul_of_nonneg_left hn (Int.natCast_nonneg s.rateBps)
  omega

theorem index_le_indexAt : s.index ≤ s.indexAt now := by
  unfold indexAt
  have := mul_nonneg (Int.natCast_nonneg s.rateBps) (Int.natCast_nonneg (now - s.lastIndexTs))
  omega

/-- Rolling does not change the index a touch reads at the same time. -/
@[simp] theorem indexAt_rolled : (s.rolled now).indexAt now = s.indexAt now := by
  have h : now - max s.lastIndexTs now = 0 := by omega
  simp [indexAt, rolled, h]

@[simp] theorem indexAt_supplied : (s.supplied now who amount).indexAt now = s.indexAt now :=
  indexAt_rolled

@[simp] theorem indexAt_withdrawn : (s.withdrawn now who amount).indexAt now = s.indexAt now :=
  indexAt_rolled

@[simp] theorem indexAt_rated {r : Nat} : (s.rated now r).indexAt now = s.indexAt now := by
  have h : now - max s.lastIndexTs now = 0 := by omega
  simp [indexAt, rated, rolled, h]

/-- The index never leaves `i128`: it is at most the top rate times the whole `u64` clock. -/
theorem WF.indexAt_fits (h : s.WF now) (hnow : now ≤ u64Max) :
    I128.Fits (s.indexAt now) ∧ I128.Fits (s.rateBps * ((now - s.lastIndexTs : Nat) : Int)) ∧
      s.indexAt now ≤ maxRateBps * (now : Int) := by
  have hr : (s.rateBps : Int) ≤ (maxRateBps : Nat) := by exact_mod_cast h.rate_le
  have hd : ((now - s.lastIndexTs : Nat) : Int) = now - s.lastIndexTs := by
    have := h.ts_le; omega
  have hd0 : (0 : Int) ≤ now - s.lastIndexTs := by have := h.ts_le; omega
  have hr0 : (0 : Int) ≤ s.rateBps := Int.natCast_nonneg _
  have h₁ : (s.rateBps : Int) * (now - s.lastIndexTs) ≤ maxRateBps * (now - s.lastIndexTs) :=
    mul_le_mul_of_nonneg_right hr hd0
  have h₂ : (0 : Int) ≤ s.rateBps * (now - s.lastIndexTs) := mul_nonneg hr0 hd0
  have hi := h.index_le
  have hi0 := h.index_nonneg
  have hnow' : (now : Int) ≤ 18446744073709551615 := by exact_mod_cast hnow
  unfold indexAt I128.Fits I128.minVal I128.maxVal
  rw [hd]
  have hm : ((maxRateBps : Nat) : Int) = 100000 := rfl
  rw [hm] at hi h₁ ⊢
  refine ⟨⟨?_, ?_⟩, ⟨?_, ?_⟩, ?_⟩ <;> linarith

/-! ## Values -/

theorem value_of_some {pos : Position} (h : s.position who = some pos) :
    s.value now who = exactValue pos.principal pos.entryIndex (s.indexAt now) := by
  unfold value; rw [h]

theorem value_of_none (h : s.position who = none) : s.value now who = 0 := by
  unfold value; rw [h]

/-- Two pools that read the same index and hold the same position for `x` value it alike. -/
theorem value_congr {s' : State} (hi : s'.indexAt now' = s.indexAt now)
    (hp : s'.position x = s.position x) : s'.value now' x = s.value now x := by
  unfold value; rw [hi, hp]

theorem value_mono (h : now ≤ now') : s.value now who ≤ s.value now' who := by
  cases hp : s.position who with
  | none     => rw [value_of_none hp, value_of_none hp]
  | some pos => rw [value_of_some hp, value_of_some hp]; exact exactValue_mono (indexAt_mono h)

theorem WF.value_nonneg (h : s.WF now) : 0 ≤ s.value now' who := by
  cases hp : s.position who with
  | none     => rw [value_of_none hp]
  | some pos =>
      obtain ⟨h₀, _, he⟩ := h.position_wf who pos hp
      rw [value_of_some hp]
      exact le_trans h₀ (principal_le_exactValue h₀ (le_trans he index_le_indexAt))

/-- An empty position stays empty: there is no principal for interest to accrue on. -/
theorem WF.value_eq_zero (h : s.WF now) (hz : s.value now who = 0) : s.value now' who = 0 := by
  cases hp : s.position who with
  | none     => rw [value_of_none hp]
  | some pos =>
      obtain ⟨h₀, _, he⟩ := h.position_wf who pos hp
      rw [value_of_some hp] at hz ⊢
      have hle := principal_le_exactValue h₀ (le_trans he (index_le_indexAt : s.index ≤ s.indexAt now))
      have hzero : pos.principal ≤ 0 := by omega
      unfold exactValue
      rw [if_pos hzero]

/-- A roll re-prices nobody. -/
@[simp] theorem value_rolled : (s.rolled now).value now x = s.value now x :=
  value_congr indexAt_rolled rfl

/-- **A supply raises the supplier's value by exactly `amount`** and no one else's. -/
theorem value_supplied (h : 0 ≤ s.value now who + amount) :
    (s.supplied now who amount).value now x = s.value now x + if x = who then amount else 0 := by
  by_cases hx : x = who
  · subst hx
    have hp : (s.supplied now x amount).position x = some ⟨s.value now x + amount, s.indexAt now⟩ :=
      setPosition_self
    rw [value_of_some hp, indexAt_supplied, exactValue_self h, if_pos rfl]
  · rw [value_congr indexAt_supplied (position_supplied_ne hx), if_neg hx, add_zero]

/-- **A payout lowers the supplier's value by exactly `amount`** and no one else's. -/
theorem value_withdrawn (h : amount ≤ s.value now who) :
    (s.withdrawn now who amount).value now x = s.value now x - if x = who then amount else 0 := by
  by_cases hx : x = who
  · subst hx
    have hp : (s.withdrawn now x amount).position x = some ⟨s.value now x - amount, s.indexAt now⟩ :=
      setPosition_self
    rw [value_of_some hp, indexAt_withdrawn, exactValue_self (sub_nonneg.mpr h), if_pos rfl]
  · rw [value_congr indexAt_withdrawn (position_withdrawn_ne hx), if_neg hx, sub_zero]

/-- A rate change re-prices nobody at the instant it is made. -/
@[simp] theorem value_rated {r : Nat} : (s.rated now r).value now x = s.value now x :=
  value_congr indexAt_rated rfl

end State

/-! ## The reads -/

variable {s s' : State} {now : Nat} {who : Address} {amount : Int} {auth : Auth}

theorem currentIndex_eq_ok {i : Int} (h : currentIndex now s = .ok i) : i = s.indexAt now := by
  simp only [currentIndex, advanceIndex, bind_eq_ok, I128.expect_eq_ok] at h
  obtain ⟨_, ⟨_, rfl⟩, _, rfl⟩ := h
  rfl

/-- Whenever the `balance` read returns, it returns the exact value. -/
theorem balance_eq_ok {v : Int} (h : balance now s who = .ok v) : v = s.value now who := by
  simp only [balance, bind_eq_ok] at h
  obtain ⟨i, hi, h⟩ := h
  rw [currentIndex_eq_ok hi] at h
  unfold valueOf at h
  unfold State.value
  cases hp : s.position who with
  | none     => rw [hp] at h; exact (ok_eq_ok.mp h).symm
  | some pos => rw [hp] at h; exact valueAt_eq_ok h

theorem priced_of_ok {v : Int} (h : balance now s who = .ok v) : s.Priced now who := by
  unfold State.Priced
  rw [h, balance_eq_ok h]

theorem currentIndex_eq (h : s.WF now) (hnow : now ≤ u64Max) : currentIndex now s = .ok (s.indexAt now) := by
  obtain ⟨hi, hd, _⟩ := h.indexAt_fits hnow
  simp only [currentIndex, advanceIndex, bind_eq_ok, I128.expect_eq_ok]
  exact ⟨_, ⟨hd, rfl⟩, hi, rfl⟩

/-- `roll_index` persists what `current_index` reads: the two paths advance the index alike. -/
theorem rollIndex_eq (h : s.WF now) (hnow : now ≤ u64Max) :
    rollIndex now s = .ok (s.rolled now, s.indexAt now) := by
  unfold rollIndex
  by_cases hlt : s.lastIndexTs < now
  · rw [if_pos hlt]
    have hc : advanceIndex s.index s.rateBps (now - s.lastIndexTs) = .ok (s.indexAt now) :=
      currentIndex_eq h hnow
    rw [hc, bind_eq_ok]
    refine ⟨_, rfl, ?_⟩
    rw [State.rolled, max_eq_right (le_of_lt hlt)]
  · have hts : s.lastIndexTs = now := le_antisymm h.ts_le (not_lt.mp hlt)
    have hi : s.indexAt now = s.index := by simp [State.indexAt, hts]
    rw [if_neg hlt, State.rolled, hi, ← hts, max_self]

/-- What `balance` reads is what the state-changing calls read after their roll. -/
theorem valueOf_rolled (h : s.WF now) (hnow : now ≤ u64Max) :
    valueOf (s.rolled now) who (s.indexAt now) = balance now s who := by
  rw [balance, currentIndex_eq h hnow]
  rfl

/-- Two pools that read one index and hold one position for `who` read alike. -/
theorem balance_congr (h : s.WF now) (h' : s'.WF now) (hnow : now ≤ u64Max)
    (hi : s'.indexAt now = s.indexAt now) (hp : s'.position who = s.position who) :
    balance now s' who = balance now s who := by
  rw [balance, balance, currentIndex_eq h hnow, currentIndex_eq h' hnow, hi]
  show valueOf s' who (s.indexAt now) = valueOf s who (s.indexAt now)
  unfold valueOf
  rw [hp]

/-- A value the pool can compute is an `i128`. -/
theorem priced_fits (h : s.Priced now who) : I128.Fits (s.value now who) := by
  have h' := h
  unfold State.Priced at h'
  simp only [balance, bind_eq_ok] at h'
  obtain ⟨i, hi, h'⟩ := h'
  unfold valueOf at h'
  cases hp : s.position who with
  | none =>
      rw [State.value_of_none hp]
      exact I128.zero_fits
  | some pos =>
      rw [hp] at h'
      simp only [valueAt] at h'
      split at h'
      · rw [← ok_eq_ok.mp h']; exact I128.zero_fits
      · simp only [bind_eq_ok, I128.expect_eq_ok] at h'
        obtain ⟨_, _, _, _, hf, he⟩ := h'
        rw [← he]; exact hf

/-- A position just re-based at the current index prices. -/
theorem priced_of_rebased (h : s.WF now) (hnow : now ≤ u64Max) (principal : Int)
    (hp : s.position who = some ⟨principal, s.indexAt now⟩) : s.Priced now who := by
  obtain ⟨h₀, hf, _⟩ := h.position_wf who _ hp
  unfold State.Priced
  rw [balance, currentIndex_eq h hnow]
  simp only [valueOf, hp, State.value_of_some hp]
  rw [exactValue_self h₀]
  exact valueAt_self h₀ hf

/-- A position that was never opened prices. -/
theorem priced_of_none (h : s.WF now) (hnow : now ≤ u64Max) (hp : s.position who = none) :
    s.Priced now who := by
  unfold State.Priced
  rw [← valueOf_rolled h hnow]
  simp [valueOf, State.rolled, State.value, hp]

/-- A position worth nothing prices: the code returns before it multiplies. -/
theorem priced_of_value_zero (h : s.WF now) (hnow : now ≤ u64Max) (hz : s.value now who = 0) :
    s.Priced now who := by
  cases hp : s.position who with
  | none     => exact priced_of_none h hnow hp
  | some pos =>
      obtain ⟨h₀, _, he⟩ := h.position_wf who pos hp
      have hv := hz
      rw [State.value_of_some hp] at hv
      have hle := principal_le_exactValue h₀
        (le_trans he (State.index_le_indexAt : s.index ≤ s.indexAt now))
      have hzero : pos.principal ≤ 0 := by omega
      unfold State.Priced
      rw [hz, ← valueOf_rolled h hnow]
      simp [valueOf, State.rolled, hp, valueAt, hzero]

/-! ## The calls -/

/-- **`supply`, read both ways.** -/
theorem supply_eq_ok (h : s.WF now) (hnow : now ≤ u64Max) :
    supply auth now s who amount = .ok s' ↔
      auth who = true ∧ 0 < amount ∧ s.Priced now who ∧ I128.Fits (s.value now who + amount) ∧
        I128.Fits (s.totalPrincipal + amount) ∧ s.supplied now who amount = s' := by
  simp only [supply, bind_eq_ok, requireAuth_eq_ok, failIf_eq_ok, exists_const, not_le,
    rollIndex_eq h hnow, ok_eq_ok, exists_eq_left', valueOf_rolled h hnow, I128.add_eq_ok]
  constructor
  · rintro ⟨ha, hpos, v, hv, _, ⟨hf, rfl⟩, _, ⟨hft, rfl⟩, rfl⟩
    obtain rfl := balance_eq_ok hv
    exact ⟨ha, hpos, hv, hf, hft, rfl⟩
  · rintro ⟨ha, hpos, hv, hf, hft, rfl⟩
    exact ⟨ha, hpos, _, hv, _, ⟨hf, rfl⟩, _, ⟨hft, rfl⟩, rfl⟩

/-- **`withdraw`, read both ways.** -/
theorem withdraw_eq_ok (h : s.WF now) (hnow : now ≤ u64Max) {self : Address} {tokens tokens' : Tokens} :
    withdraw auth now self s tokens who amount = .ok (s', tokens') ↔
      auth who = true ∧ 0 < amount ∧ s.Priced now who ∧ amount ≤ s.value now who ∧
        amount ≤ tokens s.token self ∧ s.withdrawn now who amount = s' ∧
        tokens.move s.token self who amount = tokens' := by
  simp only [withdraw, bind_eq_ok, requireAuth_eq_ok, failIf_eq_ok, exists_const, not_le, not_lt,
    rollIndex_eq h hnow, ok_eq_ok, exists_eq_left', valueOf_rolled h hnow, I128.sub_eq_ok,
    State.rolled_token, Tokens.transfer_eq_ok, Prod.mk.injEq]
  constructor
  · rintro ⟨ha, hpos, v, hv, hle, hliq, _, ⟨hf, rfl⟩, _, ⟨_, _, rfl⟩, t, ht, rfl, rfl⟩
    obtain rfl := balance_eq_ok hv
    have ht : I128.floorSub s.totalPrincipal amount = .ok t := ht
    rw [I128.floorSub_eq_ok h.total_fits (le_of_lt hpos)] at ht
    refine ⟨ha, hpos, hv, hle, hliq, ?_, rfl⟩
    rw [State.withdrawn, ← ht]
  · rintro ⟨ha, hpos, hv, hle, hliq, rfl, rfl⟩
    have hf : I128.Fits (s.value now who - amount) := (priced_fits hv).of_nonneg (by omega) (by omega)
    exact ⟨ha, hpos, _, hv, hle, hliq, _, ⟨hf, rfl⟩, _, ⟨le_of_lt hpos, hliq, rfl⟩, _,
      (I128.floorSub_eq_ok h.total_fits (le_of_lt hpos)).mpr rfl, rfl, rfl⟩

/-- **`set_rate`, read both ways.** -/
theorem setRate_eq_ok (h : s.WF now) (hnow : now ≤ u64Max) {r : Nat} :
    setRate auth now s r = .ok s' ↔ auth s.admin = true ∧ r ≤ maxRateBps ∧ s.rated now r = s' := by
  simp only [setRate, bind_eq_ok, requireAuth_eq_ok, failIf_eq_ok, exists_const, not_lt,
    rollIndex_eq h hnow, ok_eq_ok, exists_eq_left', State.rated]

/-! ## The invariant is kept -/

namespace State

variable {now' : Nat}

theorem construct_wf {admin token : Address} {r : Nat} (h : construct now admin token r = .ok s) :
    s.WF now ∧ s.token = token ∧ ∀ x, s.position x = none := by
  simp only [construct, bind_eq_ok, failIf_eq_ok, exists_const, not_lt, ok_eq_ok] at h
  obtain ⟨hr, rfl⟩ := h
  refine ⟨⟨hr, le_refl _, le_refl _, ?_, le_refl _, I128.zero_fits, ?_⟩, rfl, fun _ => rfl⟩
  · exact mul_nonneg (by decide) (Int.natCast_nonneg _)
  · intro who pos hp; exact absurd hp (by simp)

theorem WF.advance (h : s.WF now) (hle : now ≤ now') : s.WF now' :=
  ⟨h.rate_le, le_trans h.ts_le hle, h.index_nonneg, h.index_le, h.total_nonneg, h.total_fits,
    h.position_wf⟩

theorem WF.rolled (h : s.WF now) (hnow : now ≤ u64Max) : (s.rolled now).WF now := by
  have hmax : max s.lastIndexTs now = now := max_eq_right h.ts_le
  refine ⟨h.rate_le, ?_, ?_, ?_, h.total_nonneg, h.total_fits, ?_⟩
  · exact le_of_eq hmax
  · exact le_trans h.index_nonneg index_le_indexAt
  · show s.indexAt now ≤ maxRateBps * ((max s.lastIndexTs now : Nat) : Int)
    rw [hmax]
    exact (h.indexAt_fits hnow).2.2
  · intro who pos hp
    obtain ⟨h₀, hf, he⟩ := h.position_wf who pos hp
    exact ⟨h₀, hf, le_trans he index_le_indexAt⟩

/-- Re-basing one position at the rolled index, and moving the ops counter, keeps the invariant. -/
theorem WF.rebased (h : s.WF now) (hnow : now ≤ u64Max) {principal total : Int}
    (h₀ : 0 ≤ principal) (hf : I128.Fits principal) (ht₀ : 0 ≤ total) (htf : I128.Fits total) :
    ({ (s.rolled now).setPosition who ⟨principal, s.indexAt now⟩ with totalPrincipal := total }).WF
      now := by
  have hr := h.rolled hnow
  refine ⟨hr.rate_le, hr.ts_le, hr.index_nonneg, hr.index_le, ht₀, htf, ?_⟩
  intro x pos hp
  by_cases hx : x = who
  · subst hx
    have hpos : some (Position.mk principal (s.indexAt now)) = some pos := by
      rw [← hp]; exact setPosition_self.symm
    obtain rfl := Option.some.inj hpos
    exact ⟨h₀, hf, le_refl _⟩
  · exact hr.position_wf x pos (by rw [← hp]; exact (setPosition_ne hx).symm)

theorem WF.supplied (h : s.WF now) (hnow : now ≤ u64Max) (ha : 0 < amount)
    (hf : I128.Fits (s.value now who + amount)) (hft : I128.Fits (s.totalPrincipal + amount)) :
    (s.supplied now who amount).WF now := by
  have hv : 0 ≤ s.value now who := h.value_nonneg
  have ht := h.total_nonneg
  exact h.rebased hnow (by omega) hf (by omega) hft

theorem WF.withdrawn (h : s.WF now) (hnow : now ≤ u64Max) (ha : 0 < amount)
    (hle : amount ≤ s.value now who) (hv : s.Priced now who) : (s.withdrawn now who amount).WF now := by
  have hf : I128.Fits (s.value now who - amount) := (priced_fits hv).of_nonneg (by omega) (by omega)
  refine h.rebased hnow (by omega) hf ?_ ?_
  · exact le_max_left _ _
  · have ht := h.total_nonneg
    exact h.total_fits.of_nonneg (le_max_left _ _) (max_le ht (by omega))

theorem WF.rated (h : s.WF now) (hnow : now ≤ u64Max) {r : Nat} (hr : r ≤ maxRateBps) :
    (s.rated now r).WF now := by
  have hw := h.rolled hnow
  exact ⟨hr, hw.ts_le, hw.index_nonneg, hw.index_le, hw.total_nonneg, hw.total_fits, hw.position_wf⟩

end State

/-- The supplier of a pool that just booked its credit prices. -/
theorem priced_supplied (h : (s.supplied now who amount).WF now) (hnow : now ≤ u64Max) :
    (s.supplied now who amount).Priced now who := by
  refine priced_of_rebased h hnow (s.value now who + amount) ?_
  rw [State.indexAt_supplied]
  exact State.setPosition_self

/-- The recipient of a pool that just booked its payout prices. -/
theorem priced_withdrawn (h : (s.withdrawn now who amount).WF now) (hnow : now ≤ u64Max) :
    (s.withdrawn now who amount).Priced now who := by
  refine priced_of_rebased h hnow (s.value now who - amount) ?_
  rw [State.indexAt_withdrawn]
  exact State.setPosition_self

/-! ## What a read and a payout can stop with -/

/-- A read stops in its arithmetic only, and there with a message of its own. -/
theorem balance_avoids {Bad : Panic → Prop} (he : ∀ msg, ¬ Bad (.expect msg)) :
    Avoids Bad (balance now s who) := by
  have hexpect : ∀ msg x, Avoids Bad (I128.expect msg x) := fun msg _ => avoids_inRange fun _ => he msg
  unfold balance currentIndex advanceIndex valueOf
  refine .bind (.bind (hexpect _ _) fun _ _ => hexpect _ _) (fun index _ => ?_)
  split
  · unfold valueAt
    split
    · exact avoids_ok
    · exact .bind (hexpect _ _) fun _ _ => .bind (hexpect _ _) fun _ _ => hexpect _ _
  · exact avoids_ok

/-- **A payout stops for lack of balance, or in its arithmetic, only where its read does**: nothing else it
    computes leaves its range. -/
theorem withdraw_avoids {Bad : Panic → Prop} (hb : ∀ e, Bad e → e = .pool .insufficientBalance ∨ e.Arithmetic)
    (h : s.WF now) (hnow : now ≤ u64Max) {self : Address} {tokens : Tokens}
    (hread : Avoids Bad (balance now s who))
    (hcov : s.value now who < amount → ¬ Bad (.pool .insufficientBalance)) :
    Avoids Bad (withdraw auth now self s tokens who amount) := by
  have hother : ∀ e, e ≠ .pool .insufficientBalance → ¬ e.Arithmetic → ¬ Bad e := fun e h₁ h₂ hbad =>
    (hb e hbad).elim h₁ h₂
  unfold withdraw
  refine .bind (avoids_failIf fun _ => hother _ (by simp) id) (fun _ _ => ?_)
  refine .bind (avoids_failIf fun _ => hother _ (by simp) id) (fun _ ha => ?_)
  have hpos : ¬ amount ≤ 0 := failIf_eq_ok.mp ha
  refine .bind_ok (rollIndex_eq h hnow) ?_
  refine .bind (by rw [valueOf_rolled h hnow]; exact hread) (fun current hcur => ?_)
  rw [valueOf_rolled h hnow] at hcur
  have hpriced : s.Priced now who := priced_of_ok hcur
  obtain rfl := balance_eq_ok hcur
  refine .bind (avoids_failIf hcov) (fun _ hle => ?_)
  have hle : ¬ s.value now who < amount := failIf_eq_ok.mp hle
  refine .bind (avoids_failIf fun _ => hother _ (by simp) id) (fun _ _ => ?_)
  -- what is left of a value that fits fits
  have hleft : I128.Fits (s.value now who - amount) :=
    (priced_fits hpriced).of_nonneg (by omega) (by omega)
  refine .bind_ok (I128.sub_eq_ok.mpr ⟨hleft, rfl⟩) ?_
  refine .bind ?_ (fun _ _ => ?_)
  · refine .bind (avoids_failIf fun _ => hother _ (by simp) id) (fun _ _ => ?_)
    exact .bind (avoids_failIf fun _ => hother _ (by simp) id) (fun _ _ => avoids_ok)
  · exact .bind_ok ((I128.floorSub_eq_ok h.total_fits (by omega)).mpr rfl) avoids_ok

/-- A payout stops with nothing but errors of the pool, of the token, of the authorisation and of the
    arithmetic. -/
theorem withdraw_avoids_vault {Bad : Panic → Prop} (hb : ∀ e, Bad e → ∃ x, e = .vault x) {self : Address}
    {tokens : Tokens} : Avoids Bad (withdraw auth now self s tokens who amount) := by
  have hother : ∀ e, (∀ x, e ≠ .vault x) → ¬ Bad e := fun e hne hbad => (hb e hbad).elim hne
  have hexpect : ∀ msg x, Avoids Bad (I128.expect msg x) := fun msg _ =>
    avoids_inRange fun _ => hother _ (by simp)
  have hchecked : ∀ x, Avoids Bad (I128.checked x) := fun _ => avoids_inRange fun _ => hother _ (by simp)
  have hroll : Avoids Bad (rollIndex now s) := by
    unfold rollIndex advanceIndex
    split
    · exact .bind (.bind (hexpect _ _) fun _ _ => hexpect _ _) fun _ _ => avoids_ok
    · exact avoids_ok
  have hvalue : ∀ (v : State) index, Avoids Bad (valueOf v who index) := by
    intro v index
    unfold valueOf valueAt
    split
    · split
      · exact avoids_ok
      · exact .bind (hexpect _ _) fun _ _ => .bind (hexpect _ _) fun _ _ => hexpect _ _
    · exact avoids_ok
  unfold withdraw
  refine .bind (avoids_failIf fun _ => hother _ (by simp)) (fun _ _ => ?_)
  refine .bind (avoids_failIf fun _ => hother _ (by simp)) (fun _ _ => ?_)
  refine .bind hroll (fun rolled _ => .bind (hvalue rolled.1 rolled.2) fun current _ => ?_)
  refine .bind (avoids_failIf fun _ => hother _ (by simp)) (fun _ _ => ?_)
  refine .bind (avoids_failIf fun _ => hother _ (by simp)) (fun _ _ => ?_)
  refine .bind (hchecked _) (fun _ _ => .bind ?_ fun _ _ => .bind ?_ fun _ _ => avoids_ok)
  · refine .bind (avoids_failIf fun _ => hother _ (by simp)) (fun _ _ => ?_)
    exact .bind (avoids_failIf fun _ => hother _ (by simp)) (fun _ _ => avoids_ok)
  · unfold I128.floorSub
    split
    · exact avoids_ok
    · exact hchecked _

end YieldPool
end SoroSense
