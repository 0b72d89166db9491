import SoroSense.Properties.SharePrice

/-!
# `Properties.Backing` — every claim is backed

Two layers of cover, under a registry that gives every currency its own token and every pool the token of
the currency it serves.

* `Backing.Inv` — the vault's token balance covers the idle balance of every bucket: the five operations
  that move `TotalAssets` move the same number of tokens, and nobody else takes tokens from the vault.
* The value of a bucket covers the claims of its holders: a bucket is never below par, and the claims on a
  fund at par are covered (`ProRata.Fund.claim_le_assets`).
-/

namespace SoroSense

open Fallible Sums Transition

/-! ## The vault's tokens cover its idle balances -/

/-- **Tokens cover idle**, and every pool the vault deals with for a currency pays in that currency's
    token. -/
structure Backing.Inv (r : Registry) (w : World) : Prop where
  token_eq    : ∀ c token, (w.bucket c).token = some token → token = r.token c
  pool_token  : ∀ p s, w.pools p = some s → s.token = r.poolToken p
  list_token  : ∀ c, ∀ p ∈ (w.bucket c).poolList, r.poolToken p = r.token c
  exit_token  : ∀ c e, (w.bucket c).pendingExit = some e →
    r.poolToken e.fromPool = r.token c ∧ r.poolToken e.toPool = r.token c
  covered     : ∀ c, (w.bucket c).totalAssets ≤ w.tokens (r.token c) vaultAddress

namespace Backing

variable {r : Registry} {w w' : World} {p q token u : Address} {c d : Currency}
  {amount assets shares : Int} {plan : List (Address × Int)} {auth : Auth}

/-- Steps that leave the records alone and move idle and tokens together keep the cover. -/
theorem Inv.frame (hi : Inv r w)
    (htok : ∀ d token, (w'.bucket d).token = some token → token = r.token d)
    (hpool : ∀ p s, w'.pools p = some s → s.token = r.poolToken p)
    (hlist : ∀ d, ∀ p ∈ (w'.bucket d).poolList, p ∈ (w.bucket d).poolList ∨ r.poolToken p = r.token d)
    (hexit : ∀ d e, (w'.bucket d).pendingExit = some e →
      r.poolToken e.fromPool = r.token d ∧ r.poolToken e.toPool = r.token d)
    (hcov : ∀ d, (w'.bucket d).totalAssets - (w.bucket d).totalAssets
      ≤ w'.tokens (r.token d) vaultAddress - w.tokens (r.token d) vaultAddress) : Inv r w' where
  token_eq := htok
  pool_token := hpool
  list_token d p hp := (hlist d p hp).elim (hi.list_token d p) id
  exit_token := hexit
  covered d := by
    have h₀ := hi.covered d
    have h₁ := hcov d
    omega

/-- What a move of the currency's own token does to the cover of every currency. -/
theorem move_token {t : Tokens} {sender recipient : Address} :
    t.move (r.token c) sender recipient amount (r.token d) vaultAddress
      = t (r.token d) vaultAddress
        - (if d = c ∧ sender = vaultAddress then amount else 0)
        + (if d = c ∧ recipient = vaultAddress then amount else 0) := by
  rw [Tokens.move_apply]
  have hinj : r.token d = r.token c ↔ d = c := ⟨fun h => r.token_injective h, fun h => by rw [h]⟩
  simp only [hinj, eq_comm (a := vaultAddress)]

theorem mapPool_token {f : YieldPool.State → YieldPool.State}
    (h : ∀ q s, w.pools q = some s → s.token = r.poolToken q) (hf : ∀ s, (f s).token = s.token) :
    ∀ q s, (w.mapPool p f).pools q = some s → s.token = r.poolToken q := by
  intro q s hs
  by_cases hq : q = p
  · subst hq
    cases hp : w.pools q with
    | none    => simp [World.mapPool, hp] at hs
    | some s₀ =>
        rw [World.pools_mapPool_self hp] at hs
        rw [← Option.some.inj hs, hf]
        exact h q s₀ hp
  · rw [World.pools_mapPool_ne hq] at hs
    exact h q s hs

theorem Inv.supplied (hi : Inv r w) (h : w.WF) (g : Vault.SupplyGuard w p c amount token)
    (hp : r.poolToken p = r.token c) : Inv r (w.supplied p c amount token) := by
  obtain rfl := hi.token_eq c token g.token_set
  obtain ⟨s, hs⟩ := Option.isSome_iff_exists.mp g.hosted
  have hne : p ≠ vaultAddress := h.pool_ne_vault hs
  refine hi.frame ?_ (mapPool_token hi.pool_token (fun _ => rfl)) ?_ ?_ ?_
  · intro d t ht
    rw [World.bucketField_supplied Vault.Bucket.token rfl] at ht
    exact hi.token_eq d t ht
  · intro d q hq
    rcases World.mem_poolList_supplied.mp hq with hq | ⟨rfl, rfl⟩
    · exact Or.inl hq
    · exact Or.inr hp
  · intro d e he
    rw [World.bucketField_supplied Vault.Bucket.pendingExit rfl] at he
    exact hi.exit_token d e he
  · intro d
    rw [World.tokens_supplied, move_token, World.bucket_supplied]
    simp only [and_true, hne, and_false, if_false]
    split
    · rename_i hd; subst hd; simp only [Vault.Bucket.supplied]; omega
    · omega

theorem Inv.pulled (hi : Inv r w) (g : Vault.PullGuard w p c amount) (hp : r.poolToken p = r.token c)
    (h : w.WF) : Inv r (w.pulled p c amount) := by
  obtain ⟨s, hs⟩ := Option.isSome_iff_exists.mp g.hosted
  have hne : p ≠ vaultAddress := h.pool_ne_vault hs
  have htok : w.poolToken p = r.token c := by
    rw [World.poolToken_of_some hs, hi.pool_token p s hs, hp]
  refine hi.frame ?_ (mapPool_token hi.pool_token (fun _ => rfl)) ?_ ?_ ?_
  · intro d t ht
    rw [World.bucketField_pulled Vault.Bucket.token (fun _ => rfl)] at ht
    exact hi.token_eq d t ht
  · intro d q hq
    rw [World.bucket_pulled] at hq
    split at hq
    · rename_i hd
      subst hd
      simp only [Vault.Bucket.pulled] at hq
      split at hq
      · exact Or.inl (List.mem_of_mem_erase hq)
      · exact Or.inl hq
    · exact Or.inl hq
  · intro d e he
    rw [World.bucketField_pulled Vault.Bucket.pendingExit (fun _ => rfl)] at he
    exact hi.exit_token d e he
  · intro d
    rw [World.tokens_pulled, htok, move_token, World.bucket_pulled]
    simp only [and_true, hne, and_false, if_false]
    split
    · rename_i hd; subst hd; simp only [Vault.Bucket.pulled]; omega
    · omega

/-- A plan over pools of the currency's token keeps the cover. -/
theorem Inv.pulls (hi : Inv r w) (h : w.WF) (hp : Vault.PullPlan w c plan)
    (hc : ∀ x ∈ plan, r.poolToken x.1 = r.token c) : Inv r (w.pulls c plan) :=
  hp.invariant (I := Inv r) h hi (fun _ _ _ hv g hx hiv => hiv.pulled g (hc _ hx) hv)

theorem Inv.outside (hi : Inv r w) (o : Outside w w')
    (hpool : ∀ p s, w'.pools p = some s → s.token = r.poolToken p) : Inv r w' := by
  refine hi.frame ?_ hpool ?_ ?_ ?_
  · intro d t ht; rw [o.bucket] at ht; exact hi.token_eq d t ht
  · intro d q hq; rw [o.bucket] at hq; exact Or.inl hq
  · intro d e he; rw [o.bucket] at he; exact hi.exit_token d e he
  · intro d
    have := o.tokens_le (r.token d)
    rw [o.bucket]
    omega

/-- Rewriting records of a bucket, its money apart, keeps the cover. -/
theorem Inv.recorded {f : Vault.Bucket → Vault.Bucket} (hi : Inv r w)
    (htok : ∀ t, (f (w.bucket c)).token = some t → t = r.token c)
    (hlist : (f (w.bucket c)).poolList = (w.bucket c).poolList)
    (hexit : ∀ e, (f (w.bucket c)).pendingExit = some e →
      r.poolToken e.fromPool = r.token c ∧ r.poolToken e.toPool = r.token c)
    (ha : (f (w.bucket c)).totalAssets = (w.bucket c).totalAssets) : Inv r (w.updateBucket c f) := by
  refine hi.frame ?_ hi.pool_token ?_ ?_ ?_
  · intro d t ht
    rw [World.bucket_updateBucket] at ht
    split at ht
    · rename_i hd; subst hd; exact htok t ht
    · exact hi.token_eq d t ht
  · intro d q hq
    rw [World.bucketField_updateBucket Vault.Bucket.poolList hlist] at hq
    exact Or.inl hq
  · intro d e he
    rw [World.bucket_updateBucket] at he
    split at he
    · rename_i hd; subst hd; exact hexit e he
    · exact hi.exit_token d e he
  · intro d
    rw [World.bucketField_updateBucket Vault.Bucket.totalAssets ha]
    simp

theorem Inv.publish {e : Vault.Event} (hi : Inv r w) : Inv r (w.publish e) :=
  ⟨hi.token_eq, hi.pool_token, hi.list_token, hi.exit_token, hi.covered⟩

/-! ### Deposits and withdrawals -/

theorem Inv.deposited {minted : Int} (hi : Inv r w)
    (g : Vault.DepositGuard w auth u c amount minted token) (hu : u ≠ vaultAddress) :
    Inv r (w.deposited u c amount minted token) := by
  obtain rfl := hi.token_eq c token g.token_set
  refine hi.frame ?_ hi.pool_token ?_ ?_ ?_
  · intro d t ht
    rw [World.bucketField_deposited Vault.Bucket.token rfl] at ht
    exact hi.token_eq d t ht
  · intro d q hq
    rw [World.bucketField_deposited Vault.Bucket.poolList rfl] at hq
    exact Or.inl hq
  · intro d e he
    rw [World.bucketField_deposited Vault.Bucket.pendingExit rfl] at he
    exact hi.exit_token d e he
  · intro d
    show _ ≤ w.tokens.move (r.token c) u vaultAddress amount (r.token d) vaultAddress - _
    rw [move_token, World.bucket_deposited]
    simp only [hu, and_false, if_false, and_true]
    split
    · rename_i hd; subst hd; simp only [Vault.Bucket.credited]; omega
    · omega

theorem Inv.burned (hi : Inv r w) : Inv r (w.updateBucket c (·.burned u shares)) :=
  hi.recorded (fun t ht => hi.token_eq c t ht) rfl (fun e he => hi.exit_token c e he) rfl

theorem Inv.liquidated (hi : Inv r w)
    (h₁ : (w.updateBucket c (·.burned u shares)).WF)
    (hp : Vault.PullPlan (w.updateBucket c (·.burned u shares)) c (w.payoutPlan c assets)) :
    Inv r (w.liquidated u c shares assets) := by
  have hb : Inv r (w.updateBucket c (·.burned u shares)) := hi.burned
  exact hb.pulls h₁ hp (fun x hx => hi.list_token c x.1 (Drain.mem_takes hx).1)

theorem Inv.paidOut (hi : Inv r w) (htok : (w.bucket c).token = some token) (hu : u ≠ vaultAddress) :
    Inv r (w.paidOut u c shares assets token) := by
  obtain rfl := hi.token_eq c token htok
  refine hi.frame ?_ hi.pool_token ?_ ?_ ?_
  · intro d t ht
    rw [World.bucketField_paidOut Vault.Bucket.token rfl] at ht
    exact hi.token_eq d t ht
  · intro d q hq
    rw [World.bucketField_paidOut Vault.Bucket.poolList rfl] at hq
    exact Or.inl hq
  · intro d e he
    rw [World.bucketField_paidOut Vault.Bucket.pendingExit rfl] at he
    exact hi.exit_token d e he
  · intro d
    show _ ≤ w.tokens.move (r.token c) vaultAddress u assets (r.token d) vaultAddress - _
    rw [move_token, World.bucket_paidOut]
    simp only [hu, and_false, if_false, and_true]
    split
    · rename_i hd; subst hd; simp only [Vault.Bucket.paid]; omega
    · omega

theorem Inv.redeemed (hi : Inv r w) (h : w.WF)
    (g : Vault.WithdrawGuard w auth u c shares assets token) (hu : u ≠ vaultAddress) :
    Inv r (w.redeemed u c shares assets token) :=
  (hi.liquidated (g.burned_wf h) (g.plan h)).paidOut
    ((Vault.token_liquidated (g.plan h) (g.burned_wf h)).trans g.token_set) hu

theorem Inv.exited {exitId : Nat} {proposal : Vault.ExitProposal} (hi : Inv r w) (h : w.WF)
    (g : Vault.ExitGuard w auth u exitId c proposal token) : Inv r (w.exited c proposal token) := by
  obtain ⟨hf, ht⟩ := hi.exit_token c proposal (Vault.pending_of_findExit g.found).1
  have hs := (hi.pulled g.pulls hf h).supplied (h.pulled g.pulls) g.supplies ht
  have hx : Inv r (World.updateBucket _ c (·.exited)) :=
    hs.recorded (fun t ht => hs.token_eq c t ht) rfl
      (fun e he => absurd he (by simp [Vault.Bucket.exited])) rfl
  exact hx.publish

/-! ### Every step keeps the cover -/

/-- A pool stored with the token it had keeps every pool's token. -/
theorem setPool_token {s s' : YieldPool.State} (h : ∀ q s, w.pools q = some s → s.token = r.poolToken q)
    (hp : w.pools p = some s) (hs : s'.token = s.token) :
    ∀ q t, (w.setPool p s').pools q = some t → t.token = r.poolToken q := by
  intro q t ht
  rw [World.pools_setPool] at ht
  by_cases hq : q = p
  · subst hq
    rw [Function.update_self] at ht
    rw [← Option.some.inj ht, hs]
    exact h q s hp
  · rw [Function.update_of_ne hq] at ht
    exact h q t ht

/-- **Every registered step keeps the cover.** -/
theorem Inv.step {a : Action} (hi : Inv r w) (h : w.WF) (hs : RegisteredStep r w a w') : Inv r w' := by
  obtain ⟨hst, hr⟩ := hs
  have hout := (hst.effect h).outside h
  have hacc : ∀ {ids : List Nat} {v : Address}, Auth.signers ids v = true → v ≠ vaultAddress := by
    intro ids v hv
    obtain ⟨id, rfl⟩ := Auth.account_of_signers hv
    simp [vaultAddress]
  cases hst.effect h with
  | reverted _ => exact hi
  | quiet _ q => exact hi.outside q.outside (by rw [q.pools]; exact hi.pool_token)
  | @tokenSet _ c t =>
      refine hi.recorded (fun t' ht' => ?_) rfl (fun e he => hi.exit_token c e he) rfl
      rw [← Option.some.inj ht']
      exact hr
  | @poolConfigured _ c _ =>
      exact hi.recorded (fun t ht => hi.token_eq c t ht) rfl (fun e he => hi.exit_token c e he) rfl
  | @proposed _ c p q =>
      have hp := (hr p c ⟨Or.inl rfl, rfl⟩).2
      have hq := (hr q c ⟨Or.inr rfl, rfl⟩).2
      have hctr : Inv r { w with vault := { w.vault with exitCounter := w.vault.exitCounter + 1 } } :=
        ⟨hi.token_eq, hi.pool_token, hi.list_token, hi.exit_token, hi.covered⟩
      refine Inv.publish (hctr.recorded (fun t ht => hi.token_eq c t ht) rfl (fun e he => ?_) rfl)
      obtain rfl := Option.some.inj he
      exact ⟨hp, hq⟩
  | deposited g => exact hi.deposited g (hacc g.signed)
  | redeemed g => exact hi.redeemed h g (hacc g.signed)
  | exited g => exact hi.exited h g
  | @allocated _ p c _ _ g => exact (hi.supplied h g.supplies (hr p c ⟨rfl, rfl⟩).2).publish
  | @deallocated _ p c _ g => exact (hi.pulled g.pulls (hr p c ⟨rfl, rfl⟩).2 h).publish
  -- outside the vault: its books stand, and nobody takes tokens from it
  | poolSupplied hp _ _ _ => exact hi.outside (hout (by simp)) (setPool_token hi.pool_token hp rfl)
  | poolWithdrawn hp _ _ _ _ _ =>
      exact hi.outside (hout (by simp)) (setPool_token (w := w.setTokens _) hi.pool_token hp rfl)
  | poolRated hp _ => exact hi.outside (hout (by simp)) (setPool_token hi.pool_token hp rfl)
  | transferred _ _ _ => exact hi.outside (hout (by simp)) hi.pool_token
  | minted _ => exact hi.outside (hout (by simp)) hi.pool_token
  | advanced _ _ => exact hi.outside (hout (by simp)) hi.pool_token
  | @deployed id _ token _ s _ _ _ htok _ =>
      refine hi.outside (hout (by simp)) (fun q t ht => ?_)
      rw [World.pools_setPool] at ht
      by_cases hq : q = .contract id
      · subst hq
        rw [Function.update_self] at ht
        rw [← Option.some.inj ht, htok]
        exact hr
      · rw [Function.update_of_ne hq] at ht
        exact hi.pool_token q t ht

theorem Inv.genesis (h : Genesis w) : Inv r w := by
  refine ⟨fun c t => ?_, fun p s => ?_, fun c p => ?_, fun c e => ?_, fun c => ?_⟩
  · simp [h.bucket_eq, Vault.Bucket.empty]
  · simp [h.no_pools]
  · simp [h.bucket_eq, Vault.Bucket.empty]
  · simp [h.bucket_eq, Vault.Bucket.empty]
  · rw [h.bucket_eq]; exact h.tokens_nonneg _ _

/-- **In every reachable world the vault's tokens cover its idle balances.** -/
theorem reachable_inv (hr : Reachable Genesis (RegisteredStep r) w) : Inv r w :=
  hr.induct (fun _ hg => .genesis hg) (fun _ _ _ hv hi hs =>
    hi.step (reachable_wf (reachable_of_home (reachable_home_of_registered hv))) hs)

end Backing

/-! ## A bucket's value covers its holders' claims -/

variable {home : Address → Currency} {r : Registry} {w w' : World} {c : Currency} {u : Address}

/-- `value_of` is rounded down from the exact claim. -/
theorem valueOf_le_claim (h : w.WF) (hv : 0 < w.vault.config.virtualOffset) {v : Int}
    (hval : Vault.valueOf w u c = .ok v) : (v : ℚ) ≤ (w.bucket c).shares u * w.ratio c := by
  obtain ⟨_, _, rfl⟩ := (Vault.redeemAssets_eq_ok h).mp hval
  have hn := h.navOf_nonneg c
  have ht := h.supply_nonneg c
  exact (Vault.proRata_bounds_div ((h.bucket_wf c).shares_nonneg u) (by omega) (by omega)).1

/-- Any set of holders is worth at most the bucket. -/
theorem sum_valueOf_le (h : w.WF) (hv : 0 < w.vault.config.virtualOffset)
    (hpar : (w.bucket c).totalShares ≤ w.navOf c) (S : Finset Address) (v : Address → Int)
    (hval : ∀ u ∈ S, Vault.valueOf w u c = .ok (v u)) : ∑ u ∈ S, v u ≤ w.navOf c := by
  have hpar' : (w.fund h hv c).supply ≤ (w.fund h hv c).assets := by
    show ((w.bucket c).totalShares : ℚ) ≤ w.navOf c
    exact_mod_cast hpar
  have hclaim : ∑ u ∈ S, (v u : ℚ) ≤ w.navOf c := by
    calc ∑ u ∈ S, (v u : ℚ) ≤ ∑ u ∈ S, ((w.bucket c).shares u : ℚ) * w.ratio c :=
          Finset.sum_le_sum (fun u hu => valueOf_le_claim h hv (hval u hu))
      _ = (w.fund h hv c).claim S := by rw [← Finset.sum_mul]; rfl
      _ ≤ w.navOf c := ProRata.Fund.claim_le_assets hpar' S
  exact_mod_cast hclaim

/-- Withdrawals from one bucket, one after another at one ledger time, and what each was owed. -/
inductive Redemptions (c : Currency) : World → List Int → World → Prop where
  | nil (w : World) : Redemptions c w [] w
  | cons {w w' w'' : World} {ids : List Nat} {u : Address} {shares owed : Int} {rest : List Int}
      (ho : Vault.redeemAssets w c shares w.vault.config.virtualOffset = .ok owed)
      (hw : Vault.withdraw (Auth.signers ids) w u c shares = .ok w')
      (hrest : Redemptions c w' rest w'') : Redemptions c w (owed :: rest) w''

/-- Each redemption takes out of the bucket exactly what it was owed, so together they take at most all
    of it. -/
theorem Redemptions.sum_le {owed : List Int} (hr : Redemptions c w owed w') (h : w.WF)
    (hi : Home.Inv home w) : owed.sum ≤ w.navOf c := by
  induction hr with
  | nil w => simpa using h.navOf_nonneg c
  | @cons w w' w'' ids u shares owed rest ho hw _ ih =>
      obtain ⟨assets, token, g, rfl⟩ := (Vault.withdraw_eq_ok h).mp hw
      obtain rfl : owed = assets := ok_unique ho g.redeems
      have hrest := ih (h.redeemed g) (hi.redeemed h g)
      rw [World.navOf_redeemed hi h g, if_pos rfl] at hrest
      rw [List.sum_cons]
      omega

/-- **Every claim is backed.** In every reachable state the vault's balance of a currency's token covers
    the idle balance of the bucket; what any holders are worth together is at most the net asset value,
    where only finitely many addresses are worth anything; and holders who redeem one after another at
    one ledger time are together owed at most that value. -/
theorem claims_are_backed (hr : Reachable Genesis (RegisteredStep r) w)
    (hv : 0 < w.vault.config.virtualOffset) (c : Currency) :
    (0 ≤ (w.bucket c).totalAssets ∧
      ∀ token, (w.bucket c).token = some token → (w.bucket c).totalAssets ≤ w.tokens token vaultAddress) ∧
    (∀ n, Vault.nav w c = .ok n → n = w.navOf c) ∧
    (∀ (S : Finset Address) (v : Address → Int), (∀ u ∈ S, Vault.valueOf w u c = .ok (v u)) →
      ∑ u ∈ S, v u ≤ w.navOf c) ∧
    (∃ T : Finset Address, ∀ u, u ∉ T → ∀ v, Vault.valueOf w u c = .ok v → v = 0) ∧
    (∀ owed w', Redemptions c w owed w' → owed.sum ≤ w.navOf c) := by
  have hh := reachable_home_of_registered hr
  have h := reachable_wf (reachable_of_home hh)
  have hb := Backing.reachable_inv hr
  refine ⟨⟨(h.bucket_wf c).assets_nonneg, fun token ht => ?_⟩, fun n hn => Vault.nav_eq_navOf hn,
    fun S v hval => sum_valueOf_le h hv (totalShares_le_navOf hh hv) S v hval, ?_,
    fun owed w' hs => hs.sum_le h (Home.reachable_inv hh)⟩
  · rw [hb.token_eq c token ht]
    exact hb.covered c
  · obtain ⟨T, h₀, _⟩ := (h.bucket_wf c).shares_sum
    refine ⟨T, fun u hu v hval => ?_⟩
    obtain ⟨_, _, rfl⟩ := (Vault.redeemAssets_eq_ok h).mp hval
    rw [h₀ u hu]
    simp [Vault.proRata]

/-- A registry in which every pool serves the dollar bucket. -/
def Registry.dollars : Registry where
  home _          := .usd
  token c         := match c with
    | .usd => .contract 100
    | .eur => .contract 101
    | .mxn => .contract 102
  token_injective := by intro c d; cases c <;> cases d <;> simp
  poolToken _     := .contract 100

theorem yieldRun_registered :
    Reachable Genesis (RegisteredStep .dollars) ((World.opening 1000 5000).after yieldRun) := by
  refine (Genesis.opening (by decide)).reachable_registered ?_
  simp [yieldRun, setUpPool, joins, Action.Registered, Vault.Call.Names, Registry.dollars]

/-- After a year of yield, the only holder's claim is within the value of the bucket, and the vault holds
    the idle half of it in tokens. -/
theorem claims_are_backed_yieldRun :
    (∑ u ∈ {Address.account 2}, (fun _ => (1049 : Int)) u
      ≤ ((World.opening 1000 5000).after yieldRun).navOf .usd) ∧
    (((World.opening 1000 5000).after yieldRun).bucket .usd).totalAssets
      ≤ ((World.opening 1000 5000).after yieldRun).tokens (.contract 100) vaultAddress :=
  ⟨(claims_are_backed yieldRun_registered (by decide +kernel) .usd).2.2.1 _ _ (by
      intro u hu
      obtain rfl := Finset.mem_singleton.mp hu
      decide +kernel),
    (claims_are_backed yieldRun_registered (by decide +kernel) .usd).1.2 _ (by decide +kernel)⟩

end SoroSense
