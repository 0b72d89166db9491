import SoroSense.Vault.Contract
import SoroSense.YieldPool.Spec
import SoroSense.Lib.Sums

/-!
# `Vault.Spec` — what the vault reads, and what a well-formed world is

The bottom layer of every proof about the vault: the exact value of a position and of a bucket, the
well-formedness of the world, and one **iff** per call that leaves the vault.

* `World.position` / `World.navOf` — what the vault holds in a pool and what a bucket is worth, over
  unbounded integers; the code's `balance` and `nav` return these whenever they return.
* `World.WF` — what holds of every reachable world, whatever is named by whom.
* `PoolClient.supply_eq_ok` / `PoolClient.withdraw_eq_ok` / `Vault.nav_eq_ok` / `Vault.mintShares_eq_ok`
  / `Vault.redeemAssets_eq_ok` — when a call returns, and what it returns.
-/

namespace SoroSense

open Fallible Sums

/-! ## Exact values -/

namespace World

/-- What the vault's position in `pool` is worth now. -/
def position (w : World) (pool : Address) : Int :=
  match w.pools pool with
  | some s => s.value w.timestamp vaultAddress
  | none   => 0

/-- The net asset value of a bucket. -/
def navOf (w : World) (c : Currency) : Int :=
  (w.bucket c).totalAssets + ((w.bucket c).poolList.map w.position).sum

/-- The tokens a pool can pay out of: its own balance of its own token. -/
def liquidity (w : World) (pool : Address) : Int :=
  match w.pools pool with
  | some s => w.tokens s.token pool
  | none   => 0

/-- The pool's `balance(vault)` read returns. -/
def Priced (w : World) (pool : Address) : Prop :=
  ∃ s, w.pools pool = some s ∧ s.Priced w.timestamp vaultAddress

variable {w w' : World} {p q : Address} {s : YieldPool.State} {c : Currency}

/-- A frozen pool and one that is not are two. -/
theorem ne_of_frozen (hp : w.vault.frozen p = true) (hq : w.vault.frozen q = false) : q ≠ p := by
  intro heq
  rw [heq, hp] at hq
  exact absurd hq (by decide)

theorem position_of_some (h : w.pools p = some s) : w.position p = s.value w.timestamp vaultAddress := by
  unfold position; rw [h]

theorem position_of_none (h : w.pools p = none) : w.position p = 0 := by
  unfold position; rw [h]

theorem liquidity_of_some (h : w.pools p = some s) : w.liquidity p = w.tokens s.token p := by
  unfold liquidity; rw [h]

/-- A position depends on the clock and on its own pool only. -/
theorem position_congr (ht : w'.timestamp = w.timestamp) (hp : w'.pools p = w.pools p) :
    w'.position p = w.position p := by
  unfold position; rw [ht, hp]

theorem priced_congr (ht : w'.timestamp = w.timestamp) (hp : w'.pools p = w.pools p) :
    w'.Priced p ↔ w.Priced p := by
  unfold Priced; rw [ht, hp]

/-- A bucket's value depends on the clock, the bucket and the listed pools only. -/
theorem navOf_congr (ht : w'.timestamp = w.timestamp) (hb : w'.bucket c = w.bucket c)
    (hp : ∀ p ∈ (w.bucket c).poolList, w'.pools p = w.pools p) : w'.navOf c = w.navOf c := by
  unfold navOf
  rw [hb, List.map_congr_left (fun p h => position_congr ht (hp p h))]

@[simp] theorem position_setTokens {t : Tokens} : (w.setTokens t).position p = w.position p := rfl
@[simp] theorem position_publish {e : Vault.Event} : (w.publish e).position p = w.position p := rfl
@[simp] theorem position_updateBucket {f : Vault.Bucket → Vault.Bucket} :
    (w.updateBucket c f).position p = w.position p := rfl
@[simp] theorem navOf_setTokens {t : Tokens} : (w.setTokens t).navOf c = w.navOf c := rfl
@[simp] theorem navOf_publish {e : Vault.Event} : (w.publish e).navOf c = w.navOf c := rfl

/-! ## Well-formed worlds -/

/-- The clock fits a `u64` and every pool is well formed. -/
structure PoolsWF (w : World) : Prop where
  clock   : w.timestamp ≤ u64Max
  pool_wf : ∀ p s, w.pools p = some s → s.WF w.timestamp

end World

/-- What holds of one bucket: every counter is a non-negative `i128`, the shares add up, the pool list
    is short and free of duplicates, and shares are held by accounts, over a registered token. -/
structure Vault.Bucket.WF (b : Vault.Bucket) : Prop where
  assets_nonneg   : 0 ≤ b.totalAssets
  assets_fits     : I128.Fits b.totalAssets
  shares_nonneg   : ∀ u, 0 ≤ b.shares u
  shares_sum      : SumsTo b.shares b.totalShares
  supply_fits     : I128.Fits b.totalShares
  shares_account  : ∀ u, b.shares u ≠ 0 → ∃ id, u = .account id
  token_set       : b.totalShares ≠ 0 → b.token.isSome = true
  holdings_nonneg : ∀ p, 0 ≤ b.poolHoldings p
  holdings_fits   : ∀ p, I128.Fits (b.poolHoldings p)
  list_nodup      : b.poolList.Nodup
  list_length     : b.poolList.length ≤ Vault.maxPoolsPerCurrency

/-- **What holds of every reachable world.** -/
structure World.WF (w : World) : Prop extends World.PoolsWF w where
  tokens_nonneg : ∀ token who, 0 ≤ w.tokens token who
  pool_addr     : ∀ p s, w.pools p = some s → ∃ id, p = .contract id ∧ id ≠ 0
  bucket_wf     : ∀ c, (w.bucket c).WF
  listed        : ∀ c, ∀ p ∈ (w.bucket c).poolList, (w.pools p).isSome = true
  exit_currency : ∀ c e, (w.bucket c).pendingExit = some e → e.currency = c
  exit_issued   : ∀ c e, (w.bucket c).pendingExit = some e → e.id ≤ w.vault.exitCounter
  exit_distinct : ∀ c d e e', (w.bucket c).pendingExit = some e → (w.bucket d).pendingExit = some e' →
    e.id = e'.id → c = d

namespace World

variable {w w' : World} {p q : Address} {s : YieldPool.State} {c d : Currency}

theorem PoolsWF.position_nonneg (h : w.PoolsWF) (p : Address) : 0 ≤ w.position p := by
  cases hp : w.pools p with
  | none   => rw [position_of_none hp]
  | some s => rw [position_of_some hp]; exact (h.pool_wf p s hp).value_nonneg

theorem WF.positions_nonneg (h : w.WF) (l : List Address) : 0 ≤ (l.map w.position).sum :=
  sum_map_nonneg _ l (fun p _ => h.position_nonneg p)

theorem WF.navOf_nonneg (h : w.WF) (c : Currency) : 0 ≤ w.navOf c :=
  add_nonneg (h.bucket_wf c).assets_nonneg (h.positions_nonneg _)

theorem WF.supply_nonneg (h : w.WF) (c : Currency) : 0 ≤ (w.bucket c).totalShares :=
  (h.bucket_wf c).shares_sum.nonneg (h.bucket_wf c).shares_nonneg

theorem WF.shares_le (h : w.WF) (c : Currency) (u : Address) :
    (w.bucket c).shares u ≤ (w.bucket c).totalShares :=
  (h.bucket_wf c).shares_sum.entry_le (h.bucket_wf c).shares_nonneg u

/-- No pool is deployed at the vault's address. -/
theorem WF.pool_ne_vault (h : w.WF) (hp : w.pools p = some s) : p ≠ vaultAddress := by
  obtain ⟨id, rfl, hid⟩ := h.pool_addr p s hp
  intro he
  exact hid (Address.contract.inj he)

/-- **A step that re-books money keeps the world well formed**: the clock and the proposals stand, and
    what moved is well formed where it arrives. -/
theorem WF.rebook (h : w.WF) (ht : w'.timestamp = w.timestamp)
    (htok : ∀ token who, 0 ≤ w'.tokens token who)
    (hpool : ∀ p s, w'.pools p = some s → s.WF w.timestamp)
    (hhost : ∀ p, (w'.pools p).isSome = (w.pools p).isSome)
    (hbucket : ∀ d, (w'.bucket d).WF)
    (hlist : ∀ d, ∀ p ∈ (w'.bucket d).poolList, (w.pools p).isSome = true)
    (hexit : ∀ d e, (w'.bucket d).pendingExit = some e → (w.bucket d).pendingExit = some e)
    (hctr : w'.vault.exitCounter = w.vault.exitCounter) : w'.WF where
  clock := ht ▸ h.clock
  pool_wf p s hs := ht ▸ hpool p s hs
  tokens_nonneg := htok
  pool_addr p s hs := by
    have hp := hhost p
    rw [hs] at hp
    obtain ⟨s₀, hs₀⟩ := Option.isSome_iff_exists.mp hp.symm
    exact h.pool_addr p s₀ hs₀
  bucket_wf := hbucket
  listed d p hp := (hhost p).trans (hlist d p hp)
  exit_currency d e he := h.exit_currency d e (hexit d e he)
  exit_issued d e he := hctr ▸ h.exit_issued d e (hexit d e he)
  exit_distinct d d' e e' he he' := h.exit_distinct d d' e e' (hexit d e he) (hexit d' e' he')

/-- Rewriting one bucket, its pool list apart and without a new proposal, keeps the world well formed. -/
theorem WF.updateBucket {f : Vault.Bucket → Vault.Bucket} (h : w.WF) (hf : (f (w.bucket c)).WF)
    (hl : (f (w.bucket c)).poolList = (w.bucket c).poolList)
    (he : ∀ e, (f (w.bucket c)).pendingExit = some e → (w.bucket c).pendingExit = some e) :
    (w.updateBucket c f).WF := by
  refine h.rebook rfl h.tokens_nonneg h.pool_wf (fun _ => rfl) ?_ ?_ ?_ rfl
  · intro d
    rw [bucket_updateBucket]
    split
    · exact hf
    · exact h.bucket_wf d
  · intro d p hp
    rw [bucket_updateBucket] at hp
    split at hp
    · rw [hl] at hp; exact h.listed c p hp
    · exact h.listed d p hp
  · intro d e hd
    rw [bucket_updateBucket] at hd
    split at hd
    · rename_i hdc; subst hdc; exact he e hd
    · exact hd

/-- Storing a well-formed state of a deployed pool keeps the world well formed. -/
theorem WF.setPool {s₀ : YieldPool.State} (h : w.WF) (hp : w.pools p = some s₀)
    (hs : s.WF w.timestamp) : (w.setPool p s).WF := by
  refine h.rebook rfl h.tokens_nonneg ?_ ?_ h.bucket_wf h.listed (fun _ _ he => he) rfl
  · intro q t ht
    rw [pools_setPool] at ht
    by_cases hq : q = p
    · subst hq
      rw [Function.update_self] at ht
      exact Option.some.inj ht ▸ hs
    · rw [Function.update_of_ne hq] at ht
      exact h.pool_wf q t ht
  · intro q
    rw [pools_setPool]
    by_cases hq : q = p
    · subst hq; rw [Function.update_self, hp]; rfl
    · rw [Function.update_of_ne hq]

theorem WF.setTokens {t : Tokens} (h : w.WF) (ht : ∀ token who, 0 ≤ t token who) : (w.setTokens t).WF :=
  h.rebook rfl ht h.pool_wf (fun _ => rfl) h.bucket_wf h.listed (fun _ _ he => he) rfl

theorem WF.publish {e : Vault.Event} (h : w.WF) : (w.publish e).WF :=
  h.rebook rfl h.tokens_nonneg h.pool_wf (fun _ => rfl) h.bucket_wf h.listed (fun _ _ he => he) rfl

/-- A shareholder is an account, hence neither the vault nor a pool. -/
theorem WF.account_ne_pool (h : w.WF) (hp : w.pools p = some s) (id : Nat) : p ≠ .account id := by
  obtain ⟨n, rfl, _⟩ := h.pool_addr p s hp
  intro he
  exact Address.noConfusion he

end World

/-! ## The pool client -/

namespace PoolClient

variable {w w' : World} {auth : Auth} {p who : Address} {amount : Int}

theorem balance_eq_ok {v : Int} (h : balance w p vaultAddress = .ok v) :
    v = w.position p ∧ w.Priced p := by
  simp only [balance, bind_eq_ok, orFail_eq_ok] at h
  obtain ⟨s, hs, h⟩ := h
  rw [World.position_of_some hs]
  exact ⟨YieldPool.balance_eq_ok h, s, hs, YieldPool.priced_of_ok h⟩

theorem balance_of_priced (h : w.Priced p) : balance w p vaultAddress = .ok (w.position p) := by
  obtain ⟨s, hs, hp⟩ := h
  simp only [balance, bind_eq_ok, orFail_eq_ok]
  exact ⟨s, hs, by rw [World.position_of_some hs]; exact hp⟩

theorem supply_eq_ok (h : w.PoolsWF) :
    supply w auth p who amount = .ok w' ↔ ∃ s, w.pools p = some s ∧ auth who = true ∧ 0 < amount ∧
      s.Priced w.timestamp who ∧ I128.Fits (s.value w.timestamp who + amount) ∧
      I128.Fits (s.totalPrincipal + amount) ∧
      w.setPool p (s.supplied w.timestamp who amount) = w' := by
  simp only [supply, bind_eq_ok, orFail_eq_ok, ok_eq_ok]
  constructor
  · rintro ⟨s, hs, s', hsup, rfl⟩
    rw [YieldPool.supply_eq_ok (h.pool_wf p s hs) h.clock] at hsup
    obtain ⟨ha, hpos, hv, hf, hft, rfl⟩ := hsup
    exact ⟨s, hs, ha, hpos, hv, hf, hft, rfl⟩
  · rintro ⟨s, hs, ha, hpos, hv, hf, hft, rfl⟩
    exact ⟨s, hs, _, (YieldPool.supply_eq_ok (h.pool_wf p s hs) h.clock).mpr
      ⟨ha, hpos, hv, hf, hft, rfl⟩, rfl⟩

theorem withdraw_eq_ok (h : w.PoolsWF) :
    withdraw w auth p who amount = .ok w' ↔ ∃ s, w.pools p = some s ∧ auth who = true ∧ 0 < amount ∧
      s.Priced w.timestamp who ∧ amount ≤ s.value w.timestamp who ∧ amount ≤ w.tokens s.token p ∧
      (w.setTokens (w.tokens.move s.token p who amount)).setPool p
        (s.withdrawn w.timestamp who amount) = w' := by
  simp only [withdraw, bind_eq_ok, orFail_eq_ok, ok_eq_ok, Prod.exists]
  constructor
  · rintro ⟨s, hs, s', t', hw, rfl⟩
    rw [YieldPool.withdraw_eq_ok (h.pool_wf p s hs) h.clock] at hw
    obtain ⟨ha, hpos, hv, hle, hliq, rfl, rfl⟩ := hw
    exact ⟨s, hs, ha, hpos, hv, hle, hliq, rfl⟩
  · rintro ⟨s, hs, ha, hpos, hv, hle, hliq, rfl⟩
    exact ⟨s, hs, _, _, (YieldPool.withdraw_eq_ok (h.pool_wf p s hs) h.clock).mpr
      ⟨ha, hpos, hv, hle, hliq, rfl, rfl⟩, rfl⟩

/-- After a payout to the vault, the pool reads what is left of the position. -/
theorem balance_of_withdraw (h : w.PoolsWF) (hw : withdraw w auth p vaultAddress amount = .ok w') :
    balance w' p vaultAddress = .ok (w.position p - amount) := by
  obtain ⟨s, hs, _, hpos, hpr, hcov, _, rfl⟩ := (withdraw_eq_ok h).mp hw
  have hwf := (h.pool_wf p s hs).withdrawn h.clock hpos hcov hpr
  rw [balance_of_priced]
  · rw [World.position_of_some (s := s.withdrawn w.timestamp vaultAddress amount)
      (by simp [World.pools_setPool]), World.position_of_some hs]
    exact congrArg _ ((YieldPool.State.value_withdrawn hcov).trans (by rw [if_pos rfl]))
  · refine ⟨s.withdrawn w.timestamp vaultAddress amount, by simp [World.pools_setPool], ?_⟩
    exact YieldPool.priced_withdrawn hwf h.clock

theorem setRate_eq_ok (h : w.PoolsWF) {r : Nat} :
    setRate w auth p r = .ok w' ↔ ∃ s, w.pools p = some s ∧ auth s.admin = true ∧
      r ≤ YieldPool.maxRateBps ∧ w.setPool p (s.rated w.timestamp r) = w' := by
  simp only [setRate, bind_eq_ok, orFail_eq_ok, ok_eq_ok]
  constructor
  · rintro ⟨s, hs, s', hr, rfl⟩
    rw [YieldPool.setRate_eq_ok (h.pool_wf p s hs) h.clock] at hr
    obtain ⟨ha, hle, rfl⟩ := hr
    exact ⟨s, hs, ha, hle, rfl⟩
  · rintro ⟨s, hs, ha, hle, rfl⟩
    exact ⟨s, hs, _, (YieldPool.setRate_eq_ok (h.pool_wf p s hs) h.clock).mpr ⟨ha, hle, rfl⟩, rfl⟩

end PoolClient

namespace Vault

variable {w w' : World} {p q : Address} {c d : Currency} {amount : Int} {token : Address}
  {s : YieldPool.State}

/-! ## NAV -/

/-- Whenever `nav` returns, it returns the bucket's exact value. -/
theorem nav_eq_navOf {n : Int} (h : nav w c = .ok n) : n = w.navOf c := by
  unfold nav at h
  have hstep : ∀ (b : Int) (p : Address) (b' : Int),
      (do let held ← PoolClient.balance w p vaultAddress; I128.add b held) = .ok b' →
        b' = b + w.position p := by
    intro b p b' hb
    rw [bind_eq_ok] at hb
    obtain ⟨v, hv, hb⟩ := hb
    rw [I128.add_eq_ok] at hb
    rw [← hb.2, (PoolClient.balance_eq_ok hv).1]
  rw [foldlM_eq_ok hstep _ _ _ h, foldl_add_eq_sum]
  rfl

/-- **`nav` returns exactly when every listed position prices and the total is an `i128`.** The terms
    are non-negative, so no partial sum leaves the range before the total does. -/
theorem nav_eq_ok (h : w.WF) {n : Int} :
    nav w c = .ok n ↔
      (∀ p ∈ (w.bucket c).poolList, w.Priced p) ∧ I128.Fits (w.navOf c) ∧ w.navOf c = n := by
  -- the loop from any non-negative `i128` start
  have key : ∀ (l : List Address) (i m : Int), 0 ≤ i → I128.Fits i →
      (l.foldlM (fun total pool => do
          let held ← PoolClient.balance w pool vaultAddress
          I128.add total held) i = .ok m ↔
        (∀ p ∈ l, w.Priced p) ∧ I128.Fits (i + (l.map w.position).sum) ∧
          i + (l.map w.position).sum = m) := by
    intro l
    induction l with
    | nil =>
        intro i m _ hi
        rw [List.foldlM_nil, pure_eq_ok]
        simp [hi]
    | cons p l ih =>
        intro i m h₀ hi
        have hp := h.position_nonneg p
        have hs := h.positions_nonneg l
        simp only [List.foldlM_cons, bind_eq_ok, I128.add_eq_ok, List.map_cons, List.sum_cons,
          List.forall_mem_cons]
        constructor
        · rintro ⟨j, ⟨v, hv, hj, rfl⟩, hrest⟩
          obtain ⟨rfl, hpr⟩ := PoolClient.balance_eq_ok hv
          obtain ⟨hl, hf, rfl⟩ := (ih _ m (by omega) hj).mp hrest
          rw [add_assoc] at hf
          exact ⟨⟨hpr, hl⟩, hf, (add_assoc _ _ _).symm⟩
        · rintro ⟨⟨hpr, hl⟩, hf, rfl⟩
          have hj : I128.Fits (i + w.position p) := hf.of_nonneg (by omega) (by omega)
          refine ⟨_, ⟨_, PoolClient.balance_of_priced hpr, hj, rfl⟩, ?_⟩
          rw [ih _ _ (by omega) hj, add_assoc]
          exact ⟨hl, hf, rfl⟩
  have hb := h.bucket_wf c
  exact key _ _ _ hb.assets_nonneg hb.assets_fits

/-! ## The share formulas -/

/-- `mulDiv` over unbounded integers. -/
def proRata (a b d virtualOffset : Int) : Int := (a * (b + virtualOffset)).tdiv (d + virtualOffset)

/-- The intermediate values of `mulDiv` stay in range, and its divisor is not zero. -/
structure MulDivFits (a b d virtualOffset : Int) : Prop where
  numerator : I128.Fits (b + virtualOffset)
  product   : I128.Fits (a * (b + virtualOffset))
  divisor   : I128.Fits (d + virtualOffset)
  nonzero   : d + virtualOffset ≠ 0
  quotient  : I128.Fits (proRata a b d virtualOffset)

theorem mulDiv_eq_ok {a b d v y : Int} :
    mulDiv a b d v = .ok y ↔ MulDivFits a b d v ∧ proRata a b d v = y := by
  simp only [mulDiv, bind_eq_ok, I128.add_eq_ok, I128.mul_eq_ok, I128.div_eq_ok]
  constructor
  · rintro ⟨_, ⟨h₁, rfl⟩, _, ⟨h₂, rfl⟩, _, ⟨h₃, rfl⟩, h₄, h₅, rfl⟩
    exact ⟨⟨h₁, h₂, h₃, h₄, h₅⟩, rfl⟩
  · rintro ⟨f, rfl⟩
    exact ⟨_, ⟨f.numerator, rfl⟩, _, ⟨f.product, rfl⟩, _, ⟨f.divisor, rfl⟩, f.nonzero, f.quotient, rfl⟩

/-- A bucket's value can be read: every listed position prices and the total is an `i128`. -/
structure Readable (w : World) (c : Currency) : Prop where
  priced : ∀ p ∈ (w.bucket c).poolList, w.Priced p
  fits   : I128.Fits (w.navOf c)

/-- A formula that reads the value first returns what it returns on the exact value. -/
theorem nav_bind_eq_ok (h : w.WF) {β : Type} {f : Int → Except Panic β} {y : β} :
    nav w c >>= f = .ok y ↔ Readable w c ∧ f (w.navOf c) = .ok y := by
  simp only [bind_eq_ok, nav_eq_ok h]
  constructor
  · rintro ⟨_, ⟨hp, hf, rfl⟩, hy⟩
    exact ⟨⟨hp, hf⟩, hy⟩
  · rintro ⟨⟨hp, hf⟩, hy⟩
    exact ⟨_, ⟨hp, hf, rfl⟩, hy⟩

theorem mintShares_eq_ok (h : w.WF) {v m : Int} :
    mintShares w c amount v = .ok m ↔ Readable w c ∧
      MulDivFits amount (w.bucket c).totalShares (w.navOf c) v ∧
      proRata amount (w.bucket c).totalShares (w.navOf c) v = m := by
  rw [mintShares, nav_bind_eq_ok h, mulDiv_eq_ok]

theorem redeemAssets_eq_ok (h : w.WF) {shares v a : Int} :
    redeemAssets w c shares v = .ok a ↔ Readable w c ∧
      MulDivFits shares (w.navOf c) (w.bucket c).totalShares v ∧
      proRata shares (w.navOf c) (w.bucket c).totalShares v = a := by
  rw [redeemAssets, nav_bind_eq_ok h, mulDiv_eq_ok]

theorem sharePriceOf_eq_ok (h : w.WF) {v a : Int} :
    sharePriceOf w c v = .ok a ↔ Readable w c ∧
      MulDivFits sharePriceScale (w.navOf c) (w.bucket c).totalShares v ∧
      proRata sharePriceScale (w.navOf c) (w.bucket c).totalShares v = a := by
  rw [sharePriceOf, nav_bind_eq_ok h, mulDiv_eq_ok]

end Vault
end SoroSense
