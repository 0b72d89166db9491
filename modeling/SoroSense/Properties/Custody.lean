import SoroSense.Keeper
import SoroSense.Pools
import SoroSense.Properties.SharePrice

/-!
# `Properties.Custody` — what a compromised keeper cannot take

The keeper's signature moves tokens between the vault and its pools only: out of the vault into a pool the
admin has allowlisted and nobody has frozen, never more than the bucket has idle nor than the cap allows,
and from a pool back into the vault. What the vault has in hand and in its pools is the same before and
after (`keeper_cannot_take`).
-/

namespace SoroSense

open Fallible Transition

variable {w w' : World} {a : KeeperAct} {p q token tok : Address} {c : Currency} {amount : Int}
  {S : Finset Address} {tr : List (Event World KeeperAct)}

/-- What the vault has of `token`: in hand, and as positions in those of the pools `S` that pay in it. -/
def World.treasury (w : World) (S : Finset Address) (token : Address) : Int :=
  w.tokens token vaultAddress + ∑ p ∈ S, if w.poolToken p = token then w.position p else 0

/-- An allocation into a pool names a pool of the token its currency is registered with. -/
def AllocatesInKind (e : Event World KeeperAct) : Prop :=
  ∀ p c amount token, e.label = .vault (.allocate p c amount) → (e.pre.pools p).isSome = true →
    (e.pre.bucket c).token = some token → e.pre.poolToken p = token

/-! ## The treasury -/

/-- Positions that change in one pool only, against the vault's tokens, keep the treasury. -/
theorem World.treasury_eq_of_move (hp : p ∈ S) (δ : Int)
    (htoken : ∀ q, w'.poolToken q = w.poolToken q)
    (hpos : ∀ q, w'.position q = w.position q + if q = p then δ else 0)
    (hvault : w'.tokens tok vaultAddress
      = w.tokens tok vaultAddress - if w.poolToken p = tok then δ else 0) :
    w'.treasury S tok = w.treasury S tok := by
  have hterm : ∀ q, (if w'.poolToken q = tok then w'.position q else 0)
      = (if w.poolToken q = tok then w.position q else 0)
        + if q = p then (if w.poolToken p = tok then δ else 0) else 0 := by
    intro q
    rw [htoken, hpos]
    by_cases hq : q = p
    · subst hq
      simp only [if_true]
      split <;> omega
    · simp [hq]
  unfold treasury
  rw [hvault, Finset.sum_congr rfl (fun q _ => hterm q), Finset.sum_add_distrib, Finset.sum_ite_eq',
    if_pos hp]
  omega

/-- The same pools at the same time, and the same tokens in hand. -/
theorem World.treasury_congr (ht : w'.timestamp = w.timestamp) (hp : w'.pools = w.pools)
    (hv : w'.tokens = w.tokens) : w'.treasury S tok = w.treasury S tok := by
  unfold treasury poolToken position
  rw [hv, hp, ht]

theorem World.poolToken_mapPool {f : YieldPool.State → YieldPool.State} (hf : ∀ s, (f s).token = s.token) :
    (w.mapPool p f).poolToken q = w.poolToken q := by
  unfold poolToken
  by_cases hq : q = p
  · subst hq
    cases hs : w.pools q with
    | none   => simp [mapPool, hs]
    | some s => rw [pools_mapPool_self hs]; exact hf s
  · rw [pools_mapPool_ne hq]

/-- **A supply in kind turns tokens into a position.** -/
theorem World.treasury_supplied (h : w.WF) (g : Vault.SupplyGuard w p c amount token) (hp : p ∈ S)
    (hkind : w.poolToken p = token) :
    (w.supplied p c amount token).treasury S tok = w.treasury S tok := by
  obtain ⟨s, hs⟩ := Option.isSome_iff_exists.mp g.hosted
  refine treasury_eq_of_move hp amount (fun q => poolToken_mapPool (fun _ => rfl))
    (fun q => position_supplied h.toPoolsWF g.hosted g.pos) ?_
  have hne : vaultAddress ≠ p := (h.pool_ne_vault hs).symm
  rw [tokens_supplied, Tokens.move_apply, hkind]
  simp [hne, eq_comm]

/-- **A pull turns a position into tokens.** -/
theorem World.treasury_pulled (h : w.WF) (g : Vault.PullGuard w p c amount) (hp : p ∈ S) :
    (w.pulled p c amount).treasury S tok = w.treasury S tok := by
  obtain ⟨s, hs⟩ := Option.isSome_iff_exists.mp g.hosted
  refine treasury_eq_of_move hp (-amount) (fun q => poolToken_mapPool (fun _ => rfl)) (fun q => ?_) ?_
  · rw [position_pulled g.hosted g.covered]
    split <;> omega
  · rw [tokens_pulled_vault (h.pool_ne_vault hs)]
    split <;> omega

/-! ## One step -/

/-- The keeper touches no shares. -/
theorem KeeperStep.books (h : w.WF) (hs : KeeperStep w a w') (c : Currency) :
    (w'.bucket c).shares = (w.bucket c).shares ∧ (w'.bucket c).totalShares = (w.bucket c).totalShares := by
  cases hs.effect h with
  | reverted _  => exact ⟨rfl, rfl⟩
  | waited _ _  => exact ⟨rfl, rfl⟩
  | flagged q   => rw [congrFun q.bucket c]; exact ⟨rfl, rfl⟩
  | proposed    => exact World.books_proposed
  | allocated g =>
      exact ⟨World.bucketField_supplied Vault.Bucket.shares rfl,
        World.bucketField_supplied Vault.Bucket.totalShares rfl⟩
  | deallocated g =>
      exact ⟨World.bucketField_pulled Vault.Bucket.shares (fun _ => rfl),
        World.bucketField_pulled Vault.Bucket.totalShares (fun _ => rfl)⟩

/-- `amount` of `token` went from the vault to a pool that is allowlisted and not frozen. -/
structure SentToPool (w w' : World) (p token : Address) (amount : Int) : Prop where
  allowed  : w.vault.allowedPool p = true
  unfrozen : w.vault.frozen p = false
  pos      : 0 < amount
  outside  : p ≠ vaultAddress
  tokens   : w'.tokens = w.tokens.move token vaultAddress p amount

/-- **What the keeper does to the tokens**: nothing, a pull into the vault, or a supply of a pool. -/
theorem KeeperStep.tokens (h : w.WF) (hs : KeeperStep w a w') :
    w'.tokens = w.tokens ∨
    (∃ p amount, 0 < amount ∧ p ≠ vaultAddress ∧
      w'.tokens = w.tokens.move (w.poolToken p) p vaultAddress amount) ∨
    ∃ p token amount, SentToPool w w' p token amount := by
  cases hs.effect h with
  | reverted _  => exact Or.inl rfl
  | waited _ _  => exact Or.inl rfl
  | flagged q   => exact Or.inl q.tokens
  | proposed    => exact Or.inl rfl
  | @allocated p c amount token g =>
      obtain ⟨s, hp⟩ := Option.isSome_iff_exists.mp g.supplies.hosted
      exact Or.inr (Or.inr ⟨p, token, amount,
        ⟨g.supplies.allowed, g.supplies.unfrozen, g.supplies.pos, h.pool_ne_vault hp, rfl⟩⟩)
  | @deallocated p c amount g =>
      obtain ⟨s, hp⟩ := Option.isSome_iff_exists.mp g.pulls.hosted
      exact Or.inr (Or.inl ⟨p, amount, g.pulls.pos, h.pool_ne_vault hp, rfl⟩)

/-- Whoever gains tokens by the keeper's hand, the vault apart, is allowlisted and not frozen. -/
theorem KeeperStep.gainer_allowed (h : w.WF) (hs : KeeperStep w a w') {x : Address} (hx : x ≠ vaultAddress)
    (hgain : w.tokens tok x < w'.tokens tok x) :
    w.vault.allowedPool x = true ∧ w.vault.frozen x = false := by
  rcases hs.tokens h with he | ⟨p, amount, hpos, hp, he⟩ | ⟨p, token, amount, sent⟩
  · rw [he] at hgain
    exact absurd hgain (lt_irrefl _)
  · -- a pull only lowers balances outside the vault
    have hne : ¬ (tok = w.poolToken p ∧ x = vaultAddress) := fun hc => hx hc.2
    rw [he, Tokens.move_apply, if_neg hne] at hgain
    split at hgain <;> omega
  · have hne : ¬ (tok = token ∧ x = vaultAddress) := fun hc => hx hc.2
    rw [sent.tokens, Tokens.move_apply, if_neg hne] at hgain
    split at hgain
    · rename_i hxp
      obtain ⟨_, rfl⟩ := hxp
      exact ⟨sent.allowed, sent.unfrozen⟩
    · omega

/-- What the vault loses by the keeper's hand, one allowlisted, unfrozen address has gained. -/
theorem KeeperStep.loss_received (h : w.WF) (hs : KeeperStep w a w')
    (hloss : w'.tokens tok vaultAddress < w.tokens tok vaultAddress) :
    ∃ x, w.vault.allowedPool x = true ∧ w.vault.frozen x = false ∧
      w'.tokens tok x - w.tokens tok x = w.tokens tok vaultAddress - w'.tokens tok vaultAddress := by
  rcases hs.tokens h with he | ⟨p, amount, hpos, hp, he⟩ | ⟨p, token, amount, sent⟩
  · rw [he] at hloss
    exact absurd hloss (lt_irrefl _)
  · have hne : ¬ (tok = w.poolToken p ∧ vaultAddress = p) := fun hc => hp hc.2.symm
    rw [he, Tokens.move_apply, if_neg hne] at hloss
    split at hloss <;> omega
  · refine ⟨p, sent.allowed, sent.unfrozen, ?_⟩
    have hp := sent.outside
    rw [sent.tokens, Tokens.move_apply, Tokens.move_apply]
    simp only [hp, hp.symm, and_true, and_false, if_false]
    omega

/-- **The keeper keeps the treasury**, as long as it allocates in kind and no time passes. -/
theorem KeeperStep.treasury (h : w.WF) (hs : KeeperStep w a w') (hkind : AllocatesInKind ⟨w, a, w'⟩)
    (ht : w'.timestamp = w.timestamp) (hS : ∀ p, (w.pools p).isSome = true → p ∈ S) :
    w'.treasury S tok = w.treasury S tok := by
  cases hs.effect h with
  | reverted _  => rfl
  -- waiting accrues interest, but here the clock stands
  | waited _ _  => exact World.treasury_congr ht rfl rfl
  | flagged q   => exact World.treasury_congr ht q.pools q.tokens
  | proposed    => exact World.treasury_congr rfl rfl rfl
  | @allocated p c amount token g =>
      have htok : w.poolToken p = token :=
        hkind p c amount token rfl g.supplies.hosted g.supplies.token_set
      exact World.treasury_supplied h g.supplies (hS p g.supplies.hosted) htok
  | @deallocated p c amount g => exact World.treasury_pulled h g.pulls (hS p g.pulls.hosted)

/-! ## Every sequence -/

/-- The treasury along a run of the keeper that allocates in kind: unchanged while the clock stands. -/
theorem treasury_of_run (h : w.WF) (hr : Run KeeperStep w tr w') (hkind : ∀ e ∈ tr, AllocatesInKind e)
    (hS : ∀ p, (w.pools p).isSome = true → p ∈ S) (ht : w'.timestamp = w.timestamp) :
    w'.treasury S tok = w.treasury S tok := by
  induction hr with
  | nil w => rfl
  | @cons w v u a tr hs hrest ih =>
      have hv := hs.wf h
      have h₁ := hs.timestamp_le h
      have h₂ : v.timestamp ≤ u.timestamp := run_timestamp_le hv hrest
      -- the clock stands at the end, so it stood all along
      have hclock : v.timestamp = w.timestamp := by omega
      rw [ih hv (fun e he => hkind e (List.mem_cons_of_mem _ he))
        (fun p hp => hS p ((hs.isSome_pools h p).symm.trans hp)) (ht.trans hclock.symm)]
      exact hs.treasury h (hkind _ List.mem_cons_self) hclock hS

/-- **A compromised keeper cannot take depositor money.** From any reachable state, whatever calls are made
    on the keeper's signature alone, with whatever arguments: no entry of the share ledger changes; whoever
    gains tokens by a call, the vault apart, is allowlisted and not frozen when it is made, and gains what
    the vault loses; an allocation leaves the holdings within the cap and takes no more than the bucket's
    idle balance; and while the clock stands, what the vault has of a token in hand and in the pools of that
    token stays the same, if every allocation names a pool of the token its currency is registered with. -/
theorem keeper_cannot_take (hr : Reachable Genesis Step w) (hk : Run KeeperStep w tr w') :
    (∀ c, (w'.bucket c).shares = (w.bucket c).shares ∧
      (w'.bucket c).totalShares = (w.bucket c).totalShares) ∧
    (∀ e ∈ tr, ∀ token x, x ≠ vaultAddress → e.pre.tokens token x < e.post.tokens token x →
      e.pre.vault.allowedPool x = true ∧ e.pre.vault.frozen x = false) ∧
    (∀ e ∈ tr, ∀ token, e.post.tokens token vaultAddress < e.pre.tokens token vaultAddress →
      ∃ x, e.pre.vault.allowedPool x = true ∧ e.pre.vault.frozen x = false ∧
        e.post.tokens token x - e.pre.tokens token x
          = e.pre.tokens token vaultAddress - e.post.tokens token vaultAddress) ∧
    (∀ e ∈ tr, ∀ p c amount, e.label = .vault (.allocate p c amount) →
      e.label.exec e.pre = .ok e.post →
        (e.post.bucket c).poolHoldings p ≤ e.post.vault.config.perPoolCap ∧
        amount ≤ Vault.idle e.pre c) ∧
    {p | (w.pools p).isSome = true}.Finite ∧
    ((∀ e ∈ tr, AllocatesInKind e) → w'.timestamp = w.timestamp →
      ∀ S, (∀ p, (w.pools p).isSome = true → p ∈ S) → ∀ token,
        w'.treasury S token = w.treasury S token) := by
  have h := reachable_wf hr
  have hev := hk.invariant_events (P := World.WF) (fun _ _ _ hw hs => hs.wf hw) h
  refine ⟨fun c => ?_, fun e he token x hx => (hev e he).2.1.gainer_allowed (hev e he).1 hx,
    fun e he token => (hev e he).2.1.loss_received (hev e he).1, ?_, pools_finite hr,
    fun hkind ht S hS token => treasury_of_run h hk hkind hS ht⟩
  · have hbooks : ∀ e ∈ tr, (e.post.bucket c).shares = (e.pre.bucket c).shares ∧
        (e.post.bucket c).totalShares = (e.pre.bucket c).totalShares :=
      fun e he => (hev e he).2.1.books (hev e he).1 c
    exact ⟨hk.const (fun v => (v.bucket c).shares) (fun e he => (hbooks e he).1),
      hk.const (fun v => (v.bucket c).totalShares) (fun e he => (hbooks e he).2)⟩
  · intro e he p c amount hl hx
    rw [hl] at hx
    obtain ⟨token, g, hpost⟩ := (Vault.allocate_eq_ok (hev e he).1).mp hx
    rw [← hpost]
    refine ⟨?_, g.supplies.enough_idle⟩
    have hbooked : ((e.pre.supplied p c amount token).bucket c).poolHoldings p
        = (e.pre.bucket c).poolHoldings p + amount := by
      rw [World.bucket_supplied, if_pos rfl]
      exact Function.update_self ..
    rw [World.bucket_publish, hbooked]
    exact g.supplies.under_cap

/-- The keeper at work: it allocates more, takes some of it back, and freezes the pool. -/
def keeperActs : List KeeperAct :=
  [.vault (.allocate (.contract 1) .usd 100), .vault (.deallocate (.contract 1) .usd 200),
    .vault (.freeze (.contract 1))]

/-- The pools of `yieldRun`. -/
theorem pool_of_yieldRun (hp : (((World.opening 1000 5000).after yieldRun).pools p).isSome = true) :
    p = .contract 1 := by
  have hrun := World.run_trace (World.opening 1000 5000) yieldRun
  obtain ⟨e, he, id, admin, token, r, hl, rfl⟩ := Run.pool_deployed (Genesis.opening (by decide)).wf hrun rfl hp
  have hmem := Execution.trace_labels yieldRun e he
  rw [hl] at hmem
  simp [yieldRun, setUpPool, joins] at hmem
  rw [hmem.1]

/-- A year of yield in, the vault has 500 in hand and 550 in its pool; the keeper's calls leave it 1050. -/
theorem keeper_cannot_take_yieldRun :
    (((World.opening 1000 5000).after yieldRun).afterKeeper keeperActs).treasury {.contract 1} (.contract 100)
      = ((World.opening 1000 5000).after yieldRun).treasury {.contract 1} (.contract 100) ∧
    ((World.opening 1000 5000).after yieldRun).treasury {.contract 1} (.contract 100) = 1050 ∧
    (((World.opening 1000 5000).after yieldRun).keeperTrace keeperActs).length = 3 := by
  have hown : ∀ a ∈ keeperActs, a.Own := by simp [keeperActs, KeeperAct.Own, Vault.Call.ByKeeper]
  have hkeeper := World.run_keeper ((World.opening 1000 5000).after yieldRun) hown
  have hkind : ∀ e ∈ ((World.opening 1000 5000).after yieldRun).keeperTrace keeperActs,
      AllocatesInKind e := by
    intro e he p c amount token hl _ htok
    have hmem := Execution.trace_labels keeperActs e he
    rw [hl] at hmem
    obtain ⟨rfl, rfl, _⟩ : p = .contract 1 ∧ c = .usd ∧ amount = 100 := by simpa [keeperActs] using hmem
    have hreg : ∀ e ∈ ((World.opening 1000 5000).after yieldRun).keeperTrace keeperActs,
        (e.pre.bucket .usd).token = some (e.pre.poolToken (.contract 1)) := by decide +kernel
    exact Option.some.inj ((hreg e he).symm.trans htok)
  have hall := (keeper_cannot_take ((Genesis.opening (by decide)).reachable yieldRun) hkeeper).2.2.2.2.2
  exact ⟨hall hkind (by decide +kernel) {.contract 1} (fun p hp => by simp [pool_of_yieldRun hp]) _,
    by decide +kernel, by decide +kernel⟩

end SoroSense
