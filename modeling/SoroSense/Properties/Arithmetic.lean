import SoroSense.Pools
import SoroSense.Vault.Panics
import SoroSense.Properties.SharePrice

/-!
# `Properties.Arithmetic` — no arithmetic lock-out

With amounts, the offset and the value of the buckets below `2^62`, and a ledger that has run for less than
`2^32` seconds, no checked operation of the vault's reads, deposits and withdrawals leaves `i128`. The supply
is bounded because the buckets are at par, the interest because the index of a pool has grown by at most the
top rate since the run began (`YieldPool.Young`), and both products stay below `2^127`.
-/

namespace SoroSense

open Fallible Sums Transition

namespace YieldPool

variable {now t₀ : Nat} {s t : State} {who : Address}

/-! ## The index of a young pool -/

/-- The pool has earned at most the top rate since `t₀`, and every position was opened since. -/
structure Young (t₀ : Nat) (s : State) : Prop where
  since        : t₀ ≤ s.lastIndexTs
  index_le     : s.index ≤ maxRateBps * ((s.lastIndexTs : Int) - t₀)
  entry_nonneg : ∀ who pos, s.position who = some pos → 0 ≤ pos.entryIndex

/-- What a touch reads is at most the top rate since `t₀`. -/
theorem Young.indexAt_le (h : Young t₀ s) (hwf : s.WF now) :
    s.indexAt now ≤ maxRateBps * ((now : Int) - t₀) := by
  have hr : (s.rateBps : Int) ≤ (maxRateBps : Nat) := by exact_mod_cast hwf.rate_le
  have hd : ((now - s.lastIndexTs : Nat) : Int) = now - s.lastIndexTs := by
    have := hwf.ts_le
    omega
  have hgrow : (s.rateBps : Int) * ((now : Int) - s.lastIndexTs) ≤ maxRateBps * ((now : Int) - s.lastIndexTs) :=
    mul_le_mul_of_nonneg_right hr (by have := hwf.ts_le; omega)
  have hsplit : (maxRateBps : Int) * ((now : Int) - t₀)
      = maxRateBps * ((s.lastIndexTs : Int) - t₀) + maxRateBps * ((now : Int) - s.lastIndexTs) := by ring
  have hindex := h.index_le
  unfold State.indexAt
  rw [hd, hsplit]
  exact add_le_add hindex hgrow

/-- A new pool is young. -/
theorem Young.construct {admin token : Address} {r : Nat} (h₀ : t₀ ≤ now)
    (hc : YieldPool.construct now admin token r = .ok s) : Young t₀ s := by
  have hnew := (State.construct_wf hc).2.2
  simp only [YieldPool.construct, bind_eq_ok, failIf_eq_ok, exists_const, not_lt, ok_eq_ok] at hc
  obtain ⟨_, rfl⟩ := hc
  refine ⟨h₀, ?_, fun who pos hp => absurd hp (by rw [hnew who]; simp)⟩
  have hage : (0 : Int) ≤ (now : Int) - t₀ := by omega
  exact mul_nonneg (by decide) hage

/-- Calls keep it young. -/
theorem Young.touched (h : Young t₀ s) (hwf : s.WF now) (ht : Touched now s t) : Young t₀ t := by
  have hentry : 0 ≤ s.indexAt now := le_trans hwf.index_nonneg State.index_le_indexAt
  refine ⟨?_, ?_, fun who pos hp => ?_⟩
  · have hts := h.since
    rcases ht.rolls with ⟨_, hl⟩ | ⟨_, hl⟩
    · omega
    · omega
  · rcases ht.rolls with ⟨hi, hl⟩ | ⟨hi, hl⟩
    · rw [hi, hl]
      exact h.index_le
    · rw [hi, hl, max_eq_right hwf.ts_le]
      exact h.indexAt_le hwf
  · rcases ht.position hp with hold | hbased
    · exact h.entry_nonneg who pos hold
    · exact hbased ▸ hentry

/-- **A position below `2^62` prices**, in a pool younger than `2^32` seconds. -/
theorem Young.priced (h : Young t₀ s) (hwf : s.WF now) (hnow : now ≤ u64Max) (hage : now < t₀ + 2 ^ 32)
    (hv : s.value now who < 2 ^ 62) : s.Priced now who := by
  unfold State.Priced
  rw [balance, currentIndex_eq hwf hnow]
  show valueOf s who (s.indexAt now) = _
  cases hp : s.position who with
  | none     =>
      rw [State.value_of_none hp]
      simp only [valueOf, hp]
  | some pos =>
      obtain ⟨h₀, _, hle⟩ := hwf.position_wf who pos hp
      have hentry := h.entry_nonneg who pos hp
      have hindex := h.indexAt_le hwf
      have hreach : pos.entryIndex ≤ s.indexAt now := le_trans hle State.index_le_indexAt
      have hgrow₀ : 0 ≤ s.indexAt now - pos.entryIndex := sub_nonneg.mpr hreach
      rw [State.value_of_some hp] at hv ⊢
      have hprincipal : pos.principal ≤ exactValue pos.principal pos.entryIndex (s.indexAt now) :=
        principal_le_exactValue h₀ hreach
      -- the growth is at most the top rate over the age of the pool, `10^5 * 2^32`
      have hgrow : s.indexAt now - pos.entryIndex ≤ 100000 * 2 ^ 32 := by
        have hm : ((maxRateBps : Nat) : Int) = 100000 := rfl
        rw [hm] at hindex
        omega
      have hproduct : pos.principal * (s.indexAt now - pos.entryIndex) ≤ 2 ^ 62 * (100000 * 2 ^ 32) :=
        mul_le_mul (by omega) hgrow hgrow₀ (by norm_num)
      have hmax : I128.Fits (2 ^ 62 * (100000 * 2 ^ 32)) := by decide
      simp only [valueOf, hp]
      refine valueAt_of_fits (hmax.of_nonneg hgrow₀ (by omega)) ?_ (hmax.of_nonneg (by omega) (by omega))
      exact hmax.of_nonneg (mul_nonneg h₀ hgrow₀) hproduct

end YieldPool

variable {home : Address → Currency} {w w₀ : World} {c : Currency} {u p : Address} {amount shares : Int}
  {tr : List (Event World Action)} {auth : Auth} {s : YieldPool.State}

/-- **Every pool of a run is as young as the run.** -/
theorem run_young (hg : Genesis w₀) (hr : Run Step w₀ tr w) (hp : w.pools p = some s) :
    YieldPool.Young w₀.timestamp s :=
  Run.pools (P := fun _ s => YieldPool.Young w₀.timestamp s) hg
    (fun _ _ _ _ _ h₀ hc => .construct h₀ hc) (fun _ _ _ hwf _ hy ht => hy.touched hwf ht)
    (fun _ _ _ _ hy => hy) hr hp

/-- A position is part of what its home bucket is worth. -/
theorem Home.Inv.position_le_navOf (hi : Home.Inv home w) (h : w.WF) (p : Address) :
    w.position p ≤ w.navOf (home p) := by
  by_cases hp : p ∈ (w.bucket (home p)).poolList
  · have hsum := List.single_le_sum (l := (w.bucket (home p)).poolList.map w.position)
      (fun x hx => by
        obtain ⟨q, _, rfl⟩ := List.mem_map.mp hx
        exact h.position_nonneg q) (w.position p) (List.mem_map_of_mem hp)
    have hidle := (h.bucket_wf (home p)).assets_nonneg
    unfold World.navOf
    omega
  · rw [hi.position_eq_zero h rfl hp]
    exact h.navOf_nonneg _

/-- The intermediate values of a share formula fit, and its divisor is positive. -/
theorem Vault.MulDivFits.of_lt {a b d v : Int} (ha₀ : 0 ≤ a) (ha : a < 2 ^ 62) (hb₀ : 0 ≤ b) (hb : b < 2 ^ 62)
    (hd₀ : 0 ≤ d) (hd : d < 2 ^ 62) (hv₀ : 1 ≤ v) (hv : v < 2 ^ 62) : Vault.MulDivFits a b d v := by
  have hmax : I128.Fits (2 ^ 62 * 2 ^ 63) := by decide
  have hproduct : a * (b + v) ≤ 2 ^ 62 * 2 ^ 63 := mul_le_mul (by omega) (by omega) (by omega) (by norm_num)
  have hproduct₀ : 0 ≤ a * (b + v) := mul_nonneg ha₀ (by omega)
  obtain ⟨hq₀, hq, _⟩ := Vault.proRata_bounds (a := a) (b := b) (d := d) (v := v) ha₀ (by omega) (by omega)
  -- dividing by one or more enlarges nothing
  have hquot : Vault.proRata a b d v ≤ Vault.proRata a b d v * (d + v) := le_mul_of_one_le_right hq₀ (by omega)
  exact ⟨hmax.of_nonneg (by omega) (by omega), hmax.of_nonneg hproduct₀ hproduct,
    hmax.of_nonneg (by omega) (by omega), by omega, hmax.of_nonneg hq₀ (by omega)⟩

/-- **What the bounds say about the last state of a run.** -/
structure InBounds (w : World) : Prop where
  wf       : w.WF
  offset   : 1 ≤ w.vault.config.virtualOffset ∧ w.vault.config.virtualOffset < 2 ^ 62
  navOf_lt : ∀ c, w.navOf c < 2 ^ 62
  at_par   : ∀ c, (w.bucket c).totalShares ≤ w.navOf c
  priced   : ∀ p, (w.pools p).isSome = true → w.Priced p

theorem InBounds.of_run (hg : Genesis w₀) (hr : Run (HomeStep home) w₀ tr w)
    (hv₀ : 1 ≤ w.vault.config.virtualOffset) (hv : w.vault.config.virtualOffset < 2 ^ 62)
    (hnav : ∀ c, w.navOf c < 2 ^ 62) (hage : w.timestamp < w₀.timestamp + 2 ^ 32) : InBounds w := by
  have hreach : Reachable Genesis (HomeStep home) w := ⟨w₀, tr, hg, hr⟩
  have h := reachable_wf (reachable_of_home hreach)
  refine ⟨h, ⟨hv₀, hv⟩, hnav, fun c => totalShares_le_navOf hreach (by omega), fun p hp => ?_⟩
  obtain ⟨s, hs⟩ := Option.isSome_iff_exists.mp hp
  have hy := run_young hg (hr.weaken fun _ _ _ hs => hs.1) hs
  have hle := (Home.reachable_inv hreach).position_le_navOf h p
  have hlt := hnav (home p)
  rw [World.position_of_some hs] at hle
  exact ⟨s, hs, hy.priced (h.pool_wf p s hs) h.clock hage (by omega)⟩

theorem InBounds.readable (b : InBounds w) (c : Currency) : Vault.Readable w c := by
  have h₀ := b.wf.navOf_nonneg c
  have hlt := b.navOf_lt c
  have hmax : I128.Fits (2 ^ 62) := by decide
  exact ⟨fun p hp => b.priced p (b.wf.listed c p hp), hmax.of_nonneg h₀ (by omega)⟩

/-- The supply is below the bound, because it is at par. -/
theorem InBounds.supply_lt (b : InBounds w) (c : Currency) : (w.bucket c).totalShares < 2 ^ 62 :=
  lt_of_le_of_lt (b.at_par c) (b.navOf_lt c)

/-- `mint_shares` returns, and what it mints is no more than the amount. -/
theorem InBounds.mints (b : InBounds w) (c : Currency) (h₀ : 0 ≤ amount) (hlt : amount < 2 ^ 62) :
    ∃ minted, Vault.mintShares w c amount w.vault.config.virtualOffset = .ok minted ∧
      0 ≤ minted ∧ minted ≤ amount := by
  obtain ⟨hv₀, hv⟩ := b.offset
  have hs₀ := b.wf.supply_nonneg c
  have hn₀ := b.wf.navOf_nonneg c
  have hpar := b.at_par c
  refine ⟨_, (Vault.mintShares_eq_ok b.wf).mpr ⟨b.readable c, .of_lt h₀ hlt hs₀ (b.supply_lt c) hn₀
    (b.navOf_lt c) hv₀ hv, rfl⟩, ?_⟩
  obtain ⟨hq₀, hq, _⟩ := Vault.proRata_bounds (a := amount) (b := (w.bucket c).totalShares)
    (d := w.navOf c) (v := w.vault.config.virtualOffset) h₀ (by omega) (by omega)
  refine ⟨hq₀, ?_⟩
  -- at par a unit mints a share at most
  have hunit : amount * ((w.bucket c).totalShares + w.vault.config.virtualOffset)
      ≤ amount * (w.navOf c + w.vault.config.virtualOffset) := mul_le_mul_of_nonneg_left (by omega) h₀
  exact le_of_mul_le_mul_right (le_trans hq hunit) (by omega)

/-- `redeem_assets` returns on every stake the supply covers. -/
theorem InBounds.redeems (b : InBounds w) (c : Currency) (h₀ : 0 ≤ shares)
    (hle : shares ≤ (w.bucket c).totalShares) :
    ∃ assets, Vault.redeemAssets w c shares w.vault.config.virtualOffset = .ok assets ∧ 0 ≤ assets := by
  obtain ⟨hv₀, hv⟩ := b.offset
  have hs₀ := b.wf.supply_nonneg c
  have hn₀ := b.wf.navOf_nonneg c
  refine ⟨_, (Vault.redeemAssets_eq_ok b.wf).mpr ⟨b.readable c, .of_lt h₀ (lt_of_le_of_lt hle (b.supply_lt c))
    hn₀ (b.navOf_lt c) hs₀ (b.supply_lt c) hv₀ hv, rfl⟩, ?_⟩
  exact (Vault.proRata_bounds (a := shares) (b := w.navOf c) (d := (w.bucket c).totalShares)
    (v := w.vault.config.virtualOffset) h₀ (by omega) (by omega)).1

/-- **No arithmetic lock-out.** In every run from a fresh vault that names every pool for one currency, with
    the offset between one and `2^62`, every bucket worth less than `2^62` and less than `2^32` seconds gone
    by: the reads return, the share formulas return on every amount below `2^62` and on every stake a user
    owns, every pool's index and the vault's position in it can be read, and no deposit below `2^62` and no
    withdrawal stops in its arithmetic. -/
theorem no_arithmetic_lockout (hg : Genesis w₀) (hr : Run (HomeStep home) w₀ tr w)
    (hv₀ : 1 ≤ w.vault.config.virtualOffset) (hv : w.vault.config.virtualOffset < 2 ^ 62)
    (hnav : ∀ c, w.navOf c < 2 ^ 62) (hage : w.timestamp < w₀.timestamp + 2 ^ 32) :
    (∀ c, ∃ n, Vault.nav w c = .ok n) ∧
    (∀ c amount, 0 ≤ amount → amount < 2 ^ 62 →
      ∃ minted, Vault.mintShares w c amount w.vault.config.virtualOffset = .ok minted) ∧
    (∀ c u shares, 0 ≤ shares → shares ≤ Vault.balanceOf w u c →
      ∃ assets, Vault.redeemAssets w c shares w.vault.config.virtualOffset = .ok assets) ∧
    (∀ c, ∃ price, Vault.sharePrice w c = .ok price) ∧
    (∀ c u, ∃ value, Vault.valueOf w u c = .ok value) ∧
    (∀ p s, w.pools p = some s → (∃ index, YieldPool.currentIndex w.timestamp s = .ok index) ∧
      (∃ rolled, YieldPool.rollIndex w.timestamp s = .ok rolled) ∧
      ∃ value, PoolClient.balance w p vaultAddress = .ok value) ∧
    (∀ auth u c amount, amount < 2 ^ 62 → Avoids Panic.Arithmetic (Vault.deposit auth w u c amount)) ∧
    (∀ auth u c shares, Avoids Panic.Arithmetic (Vault.withdraw auth w u c shares)) := by
  have b := InBounds.of_run hg hr hv₀ hv hnav hage
  have h := b.wf
  have hbounded : Bounded Panic.Arithmetic := fun _ he => Or.inr he
  have hredeems : ∀ c u shares, 0 ≤ shares → shares ≤ (w.bucket c).shares u → ∃ assets,
      Vault.redeemAssets w c shares w.vault.config.virtualOffset = .ok assets ∧ 0 ≤ assets :=
    fun c u shares h₀ hle => b.redeems c h₀ (le_trans hle (h.shares_le c u))
  refine ⟨fun c => ?_, fun c amount h₀ hlt => ?_, fun c u shares h₀ hle => ?_, fun c => ?_, fun c u => ?_,
    fun p s hs => ?_, fun auth u c amount hlt => ?_, fun auth u c shares => ?_⟩
  · exact ⟨_, (Vault.nav_eq_ok h).mpr ⟨(b.readable c).priced, (b.readable c).fits, rfl⟩⟩
  · obtain ⟨minted, hm, _⟩ := b.mints c h₀ hlt
    exact ⟨minted, hm⟩
  · obtain ⟨assets, ha, _⟩ := hredeems c u shares h₀ hle
    exact ⟨assets, ha⟩
  · exact ⟨_, (Vault.sharePriceOf_eq_ok h).mpr ⟨b.readable c, .of_lt (by decide) (by decide)
      (h.navOf_nonneg c) (b.navOf_lt c) (h.supply_nonneg c) (b.supply_lt c) hv₀ hv, rfl⟩⟩
  · obtain ⟨value, hval, _⟩ := hredeems c u _ ((h.bucket_wf c).shares_nonneg u) (le_refl _)
    exact ⟨value, hval⟩
  · have hwf := h.pool_wf p s hs
    exact ⟨⟨_, YieldPool.currentIndex_eq hwf h.clock⟩, ⟨_, YieldPool.rollIndex_eq hwf h.clock⟩, _,
      PoolClient.balance_of_priced (b.priced p (by rw [hs]; rfl))⟩
  · refine Vault.deposit_avoids hbounded (fun hpos => ?_)
    obtain ⟨minted, hm, hm₀, hmle⟩ := b.mints c (le_of_lt hpos) hlt
    have hmax : I128.Fits (2 ^ 63) := by decide
    have hs := b.supply_lt c
    have hown := h.shares_le c u
    have hown₀ := (h.bucket_wf c).shares_nonneg u
    have hidle₀ := (h.bucket_wf c).assets_nonneg
    have hpos' := h.positions_nonneg (w.bucket c).poolList
    have hidle : (w.bucket c).totalAssets < 2 ^ 62 := by
      have hn := b.navOf_lt c
      unfold World.navOf at hn
      omega
    exact ⟨minted, hm, hmax.of_nonneg (by omega) (by omega), hmax.of_nonneg (by omega) (by omega),
      hmax.of_nonneg (by omega) (by omega)⟩
  · exact Vault.withdraw_avoids hbounded h (fun h₀ hle => hredeems c u shares (le_of_lt h₀) hle)

/-- A year of yield in: a deposit of `2^61` and every withdrawal clear the arithmetic. -/
theorem no_arithmetic_lockout_yieldRun :
    (∀ auth u, Avoids Panic.Arithmetic
      (Vault.deposit auth ((World.opening 1000 5000).after yieldRun) u .usd (2 ^ 61))) ∧
    (∀ auth u shares, Avoids Panic.Arithmetic
      (Vault.withdraw auth ((World.opening 1000 5000).after yieldRun) u .usd shares)) := by
  have hrun : Run (HomeStep fun _ => .usd) (World.opening 1000 5000)
      ((World.opening 1000 5000).trace yieldRun) ((World.opening 1000 5000).after yieldRun) :=
    World.run_trace_home _ (by simp [yieldRun, setUpPool, joins, Action.Respects, Vault.Call.Names])
  obtain ⟨_, _, _, _, _, _, hdeposit, hwithdraw⟩ := no_arithmetic_lockout (Genesis.opening (by decide)) hrun
    (by decide +kernel) (by decide +kernel) (fun c => by cases c <;> decide +kernel) (by decide +kernel)
  exact ⟨fun auth u => hdeposit auth u .usd _ (by norm_num), fun auth u shares => hwithdraw auth u .usd shares⟩

end SoroSense
