import SoroSense.Vault.Spec

/-!
# `Vault.Flows` — money between the vault and one pool

`supply_to_pool` and `withdraw_from_pool`, read once. Each helper returns exactly under its guard
(`SupplyGuard`, `PullGuard`), and what it does to the world is `World.supplied` / `World.pulled`. The
later modules cite these two iffs and the observables below, and never unfold the helpers.
-/

namespace SoroSense

open Fallible Sums

/-! ## Effects -/

namespace Vault

/-- The bucket after `amount` went into `pool`. -/
def Bucket.supplied (b : Bucket) (pool : Address) (amount : Int) : Bucket :=
  { b with
    poolList     := if pool ∈ b.poolList then b.poolList else b.poolList ++ [pool]
    totalAssets  := b.totalAssets - amount
    poolHoldings := Function.update b.poolHoldings pool (b.poolHoldings pool + amount)
    activePool   := some pool }

/-- The bucket after `amount` came back from `pool`, which is delisted if that `emptied` it. -/
def Bucket.pulled (b : Bucket) (pool : Address) (amount : Int) (emptied : Bool) : Bucket :=
  { b with
    poolList     := if emptied then b.poolList.erase pool else b.poolList
    totalAssets  := b.totalAssets + amount
    poolHoldings := Function.update b.poolHoldings pool (max 0 (b.poolHoldings pool - amount))
    activePool   := if emptied ∧ b.activePool = some pool then none else b.activePool }

end Vault

namespace World

/-- Rewrite the state of one pool, if there is one. -/
def mapPool (w : World) (pool : Address) (f : YieldPool.State → YieldPool.State) : World :=
  { w with pools := Function.update w.pools pool ((w.pools pool).map f) }

/-- The token a pool pays in. -/
def poolToken (w : World) (pool : Address) : Address :=
  match w.pools pool with
  | some s => s.token
  | none   => pool

/-- After the vault supplied `amount` of `token` into `pool` for bucket `c`. -/
def supplied (w : World) (pool : Address) (c : Currency) (amount : Int) (token : Address) : World :=
  ((w.setTokens (w.tokens.move token vaultAddress pool amount)).mapPool pool
    (·.supplied w.timestamp vaultAddress amount)).updateBucket c (·.supplied pool amount)

/-- After the vault pulled `amount` out of `pool` for bucket `c`. -/
def pulled (w : World) (pool : Address) (c : Currency) (amount : Int) : World :=
  ((w.setTokens (w.tokens.move (w.poolToken pool) pool vaultAddress amount)).mapPool pool
    (·.withdrawn w.timestamp vaultAddress amount)).updateBucket c
      (·.pulled pool amount (decide (w.position pool = amount)))

variable {w w' : World} {p q : Address} {s : YieldPool.State} {c d : Currency} {amount : Int}
  {token : Address} {f : YieldPool.State → YieldPool.State}

theorem mapPool_eq (h : w.pools p = some s) : w.mapPool p f = w.setPool p (f s) := by
  unfold mapPool setPool; rw [h]; rfl

theorem poolToken_of_some (h : w.pools p = some s) : w.poolToken p = s.token := by
  unfold poolToken; rw [h]

theorem supplied_eq (h : w.pools p = some s) : w.supplied p c amount token
    = ((w.setTokens (w.tokens.move token vaultAddress p amount)).setPool p
        (s.supplied w.timestamp vaultAddress amount)).updateBucket c (·.supplied p amount) := by
  have hp : (w.setTokens (w.tokens.move token vaultAddress p amount)).pools p = some s := h
  rw [supplied, mapPool_eq hp]

theorem pulled_eq (h : w.pools p = some s) : w.pulled p c amount
    = ((w.setTokens (w.tokens.move s.token p vaultAddress amount)).setPool p
        (s.withdrawn w.timestamp vaultAddress amount)).updateBucket c
          (·.pulled p amount (decide (w.position p = amount))) := by
  have hp : (w.setTokens (w.tokens.move s.token p vaultAddress amount)).pools p = some s := h
  rw [pulled, poolToken_of_some h, mapPool_eq hp]

theorem pools_mapPool_self (h : w.pools p = some s) : (w.mapPool p f).pools p = some (f s) := by
  simp [mapPool, h]

theorem pools_mapPool_ne (h : q ≠ p) : (w.mapPool p f).pools q = w.pools q := by
  simp [mapPool, h]

theorem pools_supplied_ne (h : q ≠ p) : (w.supplied p c amount token).pools q = w.pools q :=
  pools_mapPool_ne h

theorem pools_pulled_ne (h : q ≠ p) : (w.pulled p c amount).pools q = w.pools q := pools_mapPool_ne h

/-- Pools stay deployed, and no other address becomes one. -/
theorem isSome_pools_mapPool : ((w.mapPool p f).pools q).isSome = (w.pools q).isSome := by
  by_cases h : q = p
  · subst h; simp [mapPool]
  · rw [pools_mapPool_ne h]

@[simp] theorem tokens_supplied : (w.supplied p c amount token).tokens
    = w.tokens.move token vaultAddress p amount := rfl

@[simp] theorem tokens_pulled : (w.pulled p c amount).tokens
    = w.tokens.move (w.poolToken p) p vaultAddress amount := rfl

theorem bucket_supplied : (w.supplied p c amount token).bucket d
    = if d = c then (w.bucket c).supplied p amount else w.bucket d := bucket_updateBucket

/-- What a supply lists: its pool. -/
theorem mem_poolList_supplied : q ∈ ((w.supplied p c amount token).bucket d).poolList ↔
    q ∈ (w.bucket d).poolList ∨ d = c ∧ q = p := by
  rw [bucket_supplied]
  by_cases hd : d = c
  · subst hd
    rw [if_pos rfl]
    show q ∈ (if p ∈ (w.bucket d).poolList then _ else _) ↔ _
    split
    · rename_i hp
      refine ⟨Or.inl, ?_⟩
      rintro (hq | ⟨_, rfl⟩)
      · exact hq
      · exact hp
    · simp
  · simp [hd]

theorem bucket_pulled : (w.pulled p c amount).bucket d
    = if d = c then (w.bucket c).pulled p amount (decide (w.position p = amount)) else w.bucket d :=
  bucket_updateBucket

/-- A field of the buckets that a supply does not write. -/
theorem bucketField_supplied {β : Type} (f : Vault.Bucket → β)
    (hf : f ((w.bucket c).supplied p amount) = f (w.bucket c)) :
    f ((w.supplied p c amount token).bucket d) = f (w.bucket d) := by
  rw [bucket_supplied]
  split
  · rename_i hd; subst hd; exact hf
  · rfl

/-- A field of the buckets that a pull does not write. -/
theorem bucketField_pulled {β : Type} (f : Vault.Bucket → β)
    (hf : ∀ e, f ((w.bucket c).pulled p amount e) = f (w.bucket c)) :
    f ((w.pulled p c amount).bucket d) = f (w.bucket d) := by
  rw [bucket_pulled]
  split
  · rename_i hd; subst hd; exact hf _
  · rfl

/-! ### Positions -/

/-- Rewriting one pool moves the vault's position there by what it moves the vault's value. -/
theorem position_mapPool (δ : Int) (hp : w.pools p = some s)
    (hv : (f s).value w.timestamp vaultAddress = s.value w.timestamp vaultAddress + δ) :
    (w.mapPool p f).position q = w.position q + if q = p then δ else 0 := by
  by_cases hq : q = p
  · subst hq
    rw [position_of_some (pools_mapPool_self hp), position_of_some hp, if_pos rfl]
    exact hv
  · rw [if_neg hq, add_zero]
    exact position_congr rfl (pools_mapPool_ne hq)

/-- **A supply raises the position in its pool by `amount`**, and no other position. -/
theorem position_supplied (h : w.PoolsWF) (hp : (w.pools p).isSome) (ha : 0 < amount) :
    (w.supplied p c amount token).position q = w.position q + if q = p then amount else 0 := by
  obtain ⟨s, hs⟩ := Option.isSome_iff_exists.mp hp
  have hv : 0 ≤ s.value w.timestamp vaultAddress := (h.pool_wf p s hs).value_nonneg
  refine position_mapPool amount hs ?_
  show (s.supplied w.timestamp vaultAddress amount).value w.timestamp vaultAddress = _
  rw [YieldPool.State.value_supplied (by omega), if_pos rfl]
  rfl

/-- **A pull lowers the position in its pool by `amount`**, and no other position. -/
theorem position_pulled (hp : (w.pools p).isSome) (ha : amount ≤ w.position p) :
    (w.pulled p c amount).position q = w.position q - if q = p then amount else 0 := by
  obtain ⟨s, hs⟩ := Option.isSome_iff_exists.mp hp
  rw [position_of_some hs] at ha
  have hneg : -(if q = p then amount else 0) = if q = p then -amount else 0 := by split <;> simp
  rw [sub_eq_add_neg, hneg]
  refine position_mapPool (-amount) hs ?_
  show (s.withdrawn w.timestamp vaultAddress amount).value w.timestamp vaultAddress = _
  rw [YieldPool.State.value_withdrawn ha, if_pos rfl, sub_eq_add_neg]
  rfl

/-! ### Holdings -/

/-- A supply books `amount` for its pool and its bucket. -/
theorem holdings_supplied : ((w.supplied p c amount token).bucket d).poolHoldings q
    = (w.bucket d).poolHoldings q + if q = p ∧ d = c then amount else 0 := by
  rw [bucket_supplied]
  by_cases hd : d = c
  · subst hd
    by_cases hq : q = p
    · subst hq; simp [Vault.Bucket.supplied]
    · simp [Vault.Bucket.supplied, hq]
  · simp [hd]

/-- A pull lowers what its bucket booked for its pool, down to zero at most. -/
theorem holdings_pulled : ((w.pulled p c amount).bucket d).poolHoldings q
    = if q = p ∧ d = c then max 0 ((w.bucket d).poolHoldings q - amount)
      else (w.bucket d).poolHoldings q := by
  rw [bucket_pulled]
  by_cases hd : d = c
  · subst hd
    by_cases hq : q = p
    · subst hq; simp [Vault.Bucket.pulled]
    · simp [Vault.Bucket.pulled, hq]
  · simp [hd]

/-! ### Pools the flow does not name -/

theorem position_supplied_ne (hq : q ≠ p) : (w.supplied p c amount token).position q = w.position q :=
  position_congr rfl (pools_supplied_ne hq)

theorem position_pulled_ne (hq : q ≠ p) : (w.pulled p c amount).position q = w.position q :=
  position_congr rfl (pools_pulled_ne hq)

theorem holdings_supplied_ne (hq : q ≠ p) :
    ((w.supplied p c amount token).bucket d).poolHoldings q = (w.bucket d).poolHoldings q :=
  bucketField_supplied (fun b => b.poolHoldings q) (by simp [Vault.Bucket.supplied, hq])

theorem holdings_pulled_ne (hq : q ≠ p) :
    ((w.pulled p c amount).bucket d).poolHoldings q = (w.bucket d).poolHoldings q :=
  bucketField_pulled (fun b => b.poolHoldings q) (fun _ => by simp [Vault.Bucket.pulled, hq])

end World

namespace Vault

variable {w w' : World} {pool p : Address} {c d : Currency} {amount : Int} {token : Address}
  {s : YieldPool.State}

/-! ## Supplying a pool -/

/-- Everything `supply_to_pool` checks on its way, in the source's order. -/
structure SupplyGuard (w : World) (pool : Address) (c : Currency) (amount : Int) (token : Address) :
    Prop where
  allowed     : w.vault.allowedPool pool = true
  unfrozen    : w.vault.frozen pool = false
  booked_fits : I128.Fits ((w.bucket c).poolHoldings pool + amount)
  under_cap   : (w.bucket c).poolHoldings pool + amount ≤ w.vault.config.perPoolCap
  enough_idle : amount ≤ (w.bucket c).totalAssets
  room        : pool ∈ (w.bucket c).poolList ∨ (w.bucket c).poolList.length < maxPoolsPerCurrency
  token_set   : (w.bucket c).token = some token
  funded      : amount ≤ w.tokens token vaultAddress
  pos         : 0 < amount
  priced      : w.Priced pool
  value_fits  : I128.Fits (w.position pool + amount)
  total_fits  : ∀ s, w.pools pool = some s → I128.Fits (s.totalPrincipal + amount)

theorem SupplyGuard.hosted (g : SupplyGuard w pool c amount token) : (w.pools pool).isSome = true := by
  obtain ⟨s, hs, _⟩ := g.priced
  rw [hs]; rfl

/-- The list a supply leaves, when it leaves one. -/
theorem addToPoolList_eq_some {list list' : List Address} :
    addToPoolList list pool = some list' ↔
      (pool ∈ list ∨ list.length < maxPoolsPerCurrency) ∧
        (if pool ∈ list then list else list ++ [pool]) = list' := by
  unfold addToPoolList
  by_cases hm : pool ∈ list
  · simp [hm]
  · by_cases hl : maxPoolsPerCurrency ≤ list.length
    · simp [hm, hl]
    · simp [hm, hl, not_le.mp hl]

theorem selfAuth_vault : selfAuth vaultAddress = true := by simp [selfAuth, Auth.invoker]

theorem transfer_eq_ok {sender recipient : Address} :
    w.transfer token sender recipient amount = .ok w' ↔ 0 ≤ amount ∧ amount ≤ w.tokens token sender ∧
      w.setTokens (w.tokens.move token sender recipient amount) = w' := by
  simp only [World.transfer, bind_eq_ok, Tokens.transfer_eq_ok, ok_eq_ok]
  constructor
  · rintro ⟨_, ⟨h₀, hle, rfl⟩, rfl⟩
    exact ⟨h₀, hle, rfl⟩
  · rintro ⟨h₀, hle, rfl⟩
    exact ⟨_, ⟨h₀, hle, rfl⟩, rfl⟩

/-- **`supply_to_pool`, read both ways.** -/
theorem supplyToPool_eq_ok (h : w.WF) :
    supplyToPool w pool c amount = .ok w' ↔
      ∃ token, SupplyGuard w pool c amount token ∧ w.supplied pool c amount token = w' := by
  simp only [supplyToPool, bind_eq_ok, failIf_eq_ok, exists_const, orFail_eq_ok, I128.add_eq_ok,
    I128.sub_eq_ok, Bool.not_eq_true, Bool.not_eq_false, not_lt, addToPoolList_eq_some, requireToken,
    transfer_eq_ok, World.bucket_updateBucket_self]
  constructor
  · rintro ⟨hal, hfr, _, ⟨hbf, rfl⟩, hcap, hidle, _, ⟨hroom, rfl⟩, _, ⟨_, rfl⟩, token, htok, _,
      ⟨_, hfund, rfl⟩, hsup⟩
    obtain ⟨s, hs₀, _, hpos, hpr, hvf, htf, rfl⟩ := (PoolClient.supply_eq_ok
      (by exact ⟨h.clock, h.pool_wf⟩)).mp hsup
    have hs : w.pools pool = some s := hs₀
    refine ⟨token, ⟨hal, hfr, hbf, hcap, hidle, hroom, htok, hfund, hpos, ⟨s, hs, hpr⟩, ?_, ?_⟩, ?_⟩
    · rw [World.position_of_some hs]; exact hvf
    · intro s' hs'
      obtain rfl := Option.some.inj (hs.symm.trans hs')
      exact htf
    · rw [World.supplied_eq hs]
      rfl
  · rintro ⟨token, g, rfl⟩
    obtain ⟨s, hs, hpr⟩ := g.priced
    -- the subtraction of the source cannot overflow under the idle guard
    have hsub : I128.Fits ((w.bucket c).totalAssets - amount) := by
      have h₁ := g.enough_idle
      have h₂ := g.pos
      exact (h.bucket_wf c).assets_fits.of_nonneg (by omega) (by omega)
    refine ⟨g.allowed, g.unfrozen, _, ⟨g.booked_fits, rfl⟩, g.under_cap, g.enough_idle, _,
      ⟨g.room, rfl⟩, _, ⟨hsub, rfl⟩, token, g.token_set, _, ⟨le_of_lt g.pos, g.funded, rfl⟩, ?_⟩
    refine (PoolClient.supply_eq_ok (by exact ⟨h.clock, h.pool_wf⟩)).mpr
      ⟨s, hs, selfAuth_vault, g.pos, hpr, ?_, g.total_fits s hs, ?_⟩
    · have hv := g.value_fits
      rw [World.position_of_some hs] at hv
      exact hv
    · rw [World.supplied_eq hs]
      rfl

/-! ## Pulling from a pool -/

/-- Everything `withdraw_from_pool` needs to return. -/
structure PullGuard (w : World) (pool : Address) (c : Currency) (amount : Int) : Prop where
  pos       : 0 < amount
  priced    : w.Priced pool
  covered   : amount ≤ w.position pool
  liquid    : amount ≤ w.liquidity pool
  idle_fits : I128.Fits ((w.bucket c).totalAssets + amount)

theorem PullGuard.hosted (g : PullGuard w pool c amount) : (w.pools pool).isSome = true := by
  obtain ⟨s, hs, _⟩ := g.priced
  rw [hs]; rfl

/-- **`withdraw_from_pool`, read both ways.** -/
theorem withdrawFromPool_eq_ok (h : w.WF) :
    withdrawFromPool w pool c amount = .ok w' ↔
      PullGuard w pool c amount ∧ w.pulled pool c amount = w' := by
  simp only [withdrawFromPool, bind_eq_ok, I128.add_eq_ok]
  constructor
  · rintro ⟨left, hbook, _, ⟨hfit, rfl⟩, _, hwd, held, hread, hend⟩
    -- the read that decides delisting sees what is left of the position
    have hleft := PoolClient.balance_of_withdraw (by exact ⟨h.clock, h.pool_wf⟩) hwd
    obtain rfl : held = w.position pool - amount := ok_unique hread hleft
    obtain ⟨s, hs₀, _, hpos, hpr, hle, hliq, rfl⟩ := (PoolClient.withdraw_eq_ok
      (by exact ⟨h.clock, h.pool_wf⟩)).mp hwd
    have hs : w.pools pool = some s := hs₀
    have g : PullGuard w pool c amount := by
      refine ⟨hpos, ⟨s, hs, hpr⟩, ?_, ?_, hfit⟩
      · rw [World.position_of_some hs]; exact hle
      · rw [World.liquidity_of_some hs]; exact hliq
    obtain rfl := (I128.floorSub_eq_ok ((h.bucket_wf c).holdings_fits pool) (le_of_lt hpos)).mp hbook
    refine ⟨g, ?_⟩
    rw [World.pulled_eq hs]
    by_cases he : w.position pool = amount
    · rw [if_pos (by omega), ok_eq_ok] at hend
      rw [← hend]
      simp [World.bucket, World.updateBucket, World.setPool, World.setTokens, Bucket.pulled, he,
        removeFromPoolList]
    · rw [if_neg (by omega), ok_eq_ok] at hend
      rw [← hend]
      simp [World.bucket, World.updateBucket, World.setPool, World.setTokens, Bucket.pulled, he]
  · rintro ⟨g, rfl⟩
    obtain ⟨s, hs, hpr⟩ := g.priced
    have hcov := g.covered
    have hliq := g.liquid
    rw [World.position_of_some hs] at hcov
    rw [World.liquidity_of_some hs] at hliq
    have hpaid := fun f => (@PoolClient.withdraw_eq_ok (w.updateBucket c f) _ selfAuth _ _ _
      (by exact ⟨h.clock, h.pool_wf⟩)).mpr ⟨s, hs, selfAuth_vault, g.pos, hpr, hcov, hliq, rfl⟩
    refine ⟨_, (I128.floorSub_eq_ok ((h.bucket_wf c).holdings_fits pool) (le_of_lt g.pos)).mpr rfl, _,
      ⟨g.idle_fits, rfl⟩, _, hpaid _, _,
      PoolClient.balance_of_withdraw (by exact ⟨h.clock, h.pool_wf⟩) (hpaid _), ?_⟩
    rw [World.pulled_eq hs, World.position_updateBucket]
    by_cases he : w.position pool = amount
    · rw [if_pos (by omega), ok_eq_ok]
      simp [World.bucket, World.updateBucket, World.setPool, World.setTokens, Bucket.pulled, he,
        removeFromPoolList]
    · rw [if_neg (by omega), ok_eq_ok]
      simp [World.bucket, World.updateBucket, World.setPool, World.setTokens, Bucket.pulled, he]

/-! ## Both keep the world well formed -/

theorem Bucket.WF.supplied {b : Bucket} (h : b.WF) (ha : 0 < amount) (hidle : amount ≤ b.totalAssets)
    (hfit : I128.Fits (b.poolHoldings pool + amount))
    (hroom : pool ∈ b.poolList ∨ b.poolList.length < maxPoolsPerCurrency) :
    (b.supplied pool amount).WF := by
  refine { h with assets_nonneg := ?_, assets_fits := ?_, holdings_nonneg := ?_, holdings_fits := ?_,
                  list_nodup := ?_, list_length := ?_ }
  · exact sub_nonneg.mpr hidle
  · exact h.assets_fits.of_nonneg (sub_nonneg.mpr hidle) (sub_le_self _ (le_of_lt ha))
  · intro p
    by_cases hp : p = pool
    · subst hp
      have := h.holdings_nonneg p
      simp only [Bucket.supplied, Function.update_self]
      omega
    · simpa [Bucket.supplied, hp] using h.holdings_nonneg p
  · intro p
    by_cases hp : p = pool
    · subst hp
      simpa [Bucket.supplied] using hfit
    · simpa [Bucket.supplied, hp] using h.holdings_fits p
  · by_cases hm : pool ∈ b.poolList
    · simpa [Bucket.supplied, hm] using h.list_nodup
    · simp only [Bucket.supplied, if_neg hm, List.nodup_append, h.list_nodup, true_and]
      exact ⟨List.nodup_singleton _, fun a ha b hb he => hm (by
        rw [← List.mem_singleton.mp hb, ← he]; exact ha)⟩
  · -- the guard left room for one more entry
    by_cases hm : pool ∈ b.poolList
    · simpa [Bucket.supplied, hm] using h.list_length
    · have hl := hroom.resolve_left hm
      simp only [Bucket.supplied, if_neg hm, List.length_append, List.length_singleton]
      omega

theorem Bucket.WF.pulled {b : Bucket} (h : b.WF) (ha : 0 < amount)
    (hfit : I128.Fits (b.totalAssets + amount)) (emptied : Bool) :
    (b.pulled pool amount emptied).WF := by
  refine { h with assets_nonneg := ?_, assets_fits := hfit, holdings_nonneg := ?_, holdings_fits := ?_,
                  list_nodup := ?_, list_length := ?_ }
  · have := h.assets_nonneg
    simp only [Bucket.pulled]
    omega
  · intro p
    by_cases hp : p = pool
    · subst hp; simp [Bucket.pulled]
    · simpa [Bucket.pulled, hp] using h.holdings_nonneg p
  · intro p
    by_cases hp : p = pool
    · subst hp
      have h₀ := h.holdings_nonneg p
      simp only [Bucket.pulled, Function.update_self]
      exact (h.holdings_fits p).of_nonneg (le_max_left _ _) (max_le h₀ (by omega))
    · simpa [Bucket.pulled, hp] using h.holdings_fits p
  · cases emptied with
    | false => exact h.list_nodup
    | true  => exact h.list_nodup.erase pool
  · cases emptied with
    | false => exact h.list_length
    | true  => exact le_trans (List.erase_sublist.length_le) h.list_length

end Vault

namespace World

variable {w w' : World} {p q : Address} {s : YieldPool.State} {c d : Currency} {amount : Int}
  {token : Address} {f : YieldPool.State → YieldPool.State}

/-- Pools stay well formed when the one that is rewritten does. -/
theorem wf_mapPool {now : Nat} (h : ∀ q s, w.pools q = some s → s.WF now)
    (hf : ∀ s, w.pools p = some s → (f s).WF now) :
    ∀ q s, (w.mapPool p f).pools q = some s → s.WF now := by
  intro q s hs
  by_cases hq : q = p
  · subst hq
    cases hp : w.pools q with
    | none    => simp [mapPool, hp] at hs
    | some s₀ =>
        rw [pools_mapPool_self hp] at hs
        rw [← Option.some.inj hs]
        exact hf s₀ hp
  · rw [pools_mapPool_ne hq] at hs
    exact h q s hs

theorem WF.supplied (h : w.WF) (g : Vault.SupplyGuard w p c amount token) :
    (w.supplied p c amount token).WF := by
  refine h.rebook rfl ?_ ?_ (fun _ => isSome_pools_mapPool) ?_ ?_ ?_ rfl
  · exact Tokens.move_nonneg h.tokens_nonneg (le_of_lt g.pos) g.funded
  · refine wf_mapPool h.pool_wf (fun s (hs : w.pools p = some s) =>
      (h.pool_wf p s hs).supplied h.clock g.pos ?_ ?_)
    · have hv := g.value_fits
      rwa [position_of_some hs] at hv
    · exact g.total_fits s hs
  · intro d
    rw [bucket_supplied]
    split
    · exact (h.bucket_wf c).supplied g.pos g.enough_idle g.booked_fits g.room
    · exact h.bucket_wf d
  · intro d q hq
    rcases mem_poolList_supplied.mp hq with hq | ⟨_, rfl⟩
    · exact h.listed d q hq
    · exact g.hosted
  · intro d e hd
    rw [bucket_supplied] at hd
    split at hd
    · rename_i hdc; subst hdc; exact hd
    · exact hd

theorem WF.pulled (h : w.WF) (g : Vault.PullGuard w p c amount) : (w.pulled p c amount).WF := by
  obtain ⟨s, hs, hpr⟩ := g.priced
  have hcov := g.covered
  have hliq := g.liquid
  rw [position_of_some hs] at hcov
  rw [liquidity_of_some hs] at hliq
  refine h.rebook rfl ?_ ?_ (fun _ => isSome_pools_mapPool) ?_ ?_ ?_ rfl
  · rw [tokens_pulled, poolToken_of_some hs]
    exact Tokens.move_nonneg h.tokens_nonneg (le_of_lt g.pos) hliq
  · refine wf_mapPool h.pool_wf (fun s' hs' => ?_)
    obtain rfl := Option.some.inj (hs.symm.trans hs')
    exact (h.pool_wf p s hs).withdrawn h.clock g.pos hcov hpr
  · intro d
    rw [bucket_pulled]
    split
    · exact (h.bucket_wf c).pulled g.pos g.idle_fits _
    · exact h.bucket_wf d
  · intro d q hq
    rw [bucket_pulled] at hq
    split at hq
    · simp only [Vault.Bucket.pulled] at hq
      split at hq
      · exact h.listed c q (List.mem_of_mem_erase hq)
      · exact h.listed c q hq
    · exact h.listed d q hq
  · intro d e hd
    rw [bucket_pulled] at hd
    split at hd
    · rename_i hdc; subst hdc; exact hd
    · exact hd

/-! ## A pull raises nothing in any pool -/

theorem position_pulled_le (g : Vault.PullGuard w p c amount) :
    (w.pulled p c amount).position q ≤ w.position q := by
  have ha := g.pos
  rw [position_pulled g.hosted g.covered]
  split <;> omega

theorem holdings_pulled_le (h : w.WF) (g : Vault.PullGuard w p c amount) :
    ((w.pulled p c amount).bucket d).poolHoldings q ≤ (w.bucket d).poolHoldings q := by
  by_cases hq : q = p
  · subst hq
    have h₀ := (h.bucket_wf c).holdings_nonneg q
    have ha := g.pos
    rw [bucket_pulled]
    split
    · rename_i hd
      subst hd
      simp only [Vault.Bucket.pulled, Function.update_self]
      omega
    · exact le_refl _
  · exact le_of_eq (holdings_pulled_ne hq)

/-- What the vault holds of each token once a pool paid it. -/
theorem tokens_pulled_vault (hp : p ≠ vaultAddress) :
    (w.pulled p c amount).tokens token vaultAddress
      = w.tokens token vaultAddress + if w.poolToken p = token then amount else 0 := by
  rw [tokens_pulled, Tokens.move_apply]
  simp [hp.symm, eq_comm]

/-! ## What they do to the net asset values -/

/-- **What a supply does to every bucket's value**: nothing to its own beyond listing a pool that already
    held something, and `amount` to every other bucket that lists the pool too. -/
theorem navOf_supplied (h : w.WF) (g : Vault.SupplyGuard w p c amount token) :
    (w.supplied p c amount token).navOf d = w.navOf d +
      if d = c then (if p ∈ (w.bucket c).poolList then 0 else w.position p)
      else (if p ∈ (w.bucket d).poolList then amount else 0) := by
  have hpos : ∀ q, (w.supplied p c amount token).position q
      = w.position q + if q = p then amount else 0 := fun q =>
    position_supplied h.toPoolsWF g.hosted g.pos
  by_cases hd : d = c
  · subst hd
    simp only [navOf, bucket_supplied, Vault.Bucket.supplied, if_pos, funext hpos]
    have hnd := (h.bucket_wf d).list_nodup
    by_cases hm : p ∈ (w.bucket d).poolList
    · rw [if_pos hm, if_pos hm, sum_map_add_ite w.position p amount hnd, if_pos hm]
      ring
    · rw [if_neg hm, if_neg hm, List.map_append, List.sum_append,
        sum_map_add_ite w.position p amount hnd, if_neg hm]
      simp
      ring
  · simp only [navOf, bucket_supplied, if_neg hd, funext hpos]
    rw [sum_map_add_ite w.position p amount (h.bucket_wf d).list_nodup]
    ring

/-- **What a pull does to every bucket's value**: `amount` arrives in its own bucket and leaves every
    bucket that lists the pool. -/
theorem navOf_pulled (h : w.WF) (g : Vault.PullGuard w p c amount) :
    (w.pulled p c amount).navOf d = w.navOf d + (if d = c then amount else 0)
      - (if p ∈ (w.bucket d).poolList then amount else 0) := by
  have hpos : ∀ q, (w.pulled p c amount).position q = w.position q - if q = p then amount else 0 :=
    fun q => position_pulled g.hosted g.covered
  have hneg : ∀ q, w.position q - (if q = p then amount else 0)
      = w.position q + if q = p then -amount else 0 := by
    intro q
    split <;> ring
  have hsum : ((w.bucket d).poolList.map (w.pulled p c amount).position).sum
      = ((w.bucket d).poolList.map w.position).sum - if p ∈ (w.bucket d).poolList then amount else 0 := by
    simp only [funext hpos, funext hneg]
    rw [sum_map_add_ite w.position p (-amount) (h.bucket_wf d).list_nodup]
    split <;> ring
  by_cases hd : d = c
  · subst hd
    have hlist : (((w.pulled p d amount).bucket d).poolList.map (w.pulled p d amount).position).sum
        = ((w.bucket d).poolList.map (w.pulled p d amount).position).sum := by
      simp only [bucket_pulled, if_true, Vault.Bucket.pulled]
      by_cases he : w.position p = amount
      · -- the delisted pool is worth nothing any more
        have h₀ : (w.pulled p d amount).position p = 0 := by rw [hpos, if_pos rfl, he, sub_self]
        simp only [he, decide_true, if_true]
        by_cases hm : p ∈ (w.bucket d).poolList
        · rw [(List.perm_cons_erase hm).map _ |>.sum_eq, List.map_cons, List.sum_cons, h₀, zero_add]
        · rw [List.erase_of_not_mem hm]
      · simp [he]
    unfold navOf
    rw [hlist, hsum]
    simp only [bucket_pulled, if_true, Vault.Bucket.pulled]
    ring
  · unfold navOf
    rw [show (w.pulled p c amount).bucket d = w.bucket d by rw [bucket_pulled, if_neg hd], hsum,
      if_neg hd]
    ring

end World
end SoroSense
