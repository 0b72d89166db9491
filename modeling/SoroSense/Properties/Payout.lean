import SoroSense.Properties.Liquidity

/-!
# `Properties.Payout` — a withdrawal pays what it previews

With every listed pool liquid for its position, nothing stands between the preview and the payout: the
loop of `pull_from_pools` walks the list as it was before the first pull and makes exactly the pulls of the
greedy plan (`pullLog_eq`), although each pull may edit the stored list. The pulls are written down by `pullLog`,
and replaying the record is running the loop (`pullLoop_replays`). What the plan takes, and what it
leaves alone, is then read off the plan (`withdraw_pays_preview`).
-/

namespace SoroSense

open Fallible Sums Transition

namespace Vault

/-! ## The pulls the loop makes -/

/-- The loop of `pull_from_pools` with its calls of `withdraw_from_pool` recorded, in order. -/
def pullLog (c : Currency) : List Address → Int → World → List (Address × Int)
  | [], _, _ => []
  | pool :: rest, outstanding, w =>
    if outstanding ≤ 0 then []
    else
      match PoolClient.balance w pool vaultAddress with
      | .error _      => []
      | .ok available =>
        if available ≤ 0 then pullLog c rest outstanding w
        else
          let take := if available < outstanding then available else outstanding
          match withdrawFromPool w pool c take with
          | .error _ => [(pool, take)]
          | .ok w    => (pool, take) :: pullLog c rest (outstanding - take) w

/-- The pulls a withdrawal of `shares` worth `assets` makes: the loop runs over the list read before the
    first pull, in the world the shares were burned in. -/
def payoutLog (w : World) (u : Address) (c : Currency) (shares assets : Int) : List (Address × Int) :=
  pullLog c (w.bucket c).poolList (assets - idle w c) (w.updateBucket c (·.burned u shares))

variable {w : World} {c : Currency}

/-- **The loop makes the pulls of its plan**, as long as the plan finds its guards. -/
theorem pullLog_eq : ∀ {l : List Address} {need : Int} {w : World}, w.WF → l.Nodup →
    (∀ p ∈ l, w.Priced p) → PullPlan w c (Drain.takes w.position l need) →
    pullLog c l need w = Drain.takes w.position l need := by
  intro l
  induction l with
  | nil => intro need w _ _ _ _; rfl
  | cons p l ih =>
      intro need w h hnd hpr hplan
      obtain ⟨hp, hl⟩ := List.nodup_cons.mp hnd
      have hprp := hpr p List.mem_cons_self
      have hprl : ∀ q ∈ l, w.Priced q := fun q hq => hpr q (List.mem_cons_of_mem _ hq)
      rcases Drain.takes_cases w.position p l need with ⟨hd, he⟩ | ⟨hd, hb, he⟩ | ⟨hd, hb, he⟩
      · rw [he]
        simp [pullLog, hd]
      · rw [he] at hplan ⊢
        rw [← ih h hl hprl hplan]
        simp [pullLog, not_le.mpr hd, PoolClient.balance_of_priced hprp, hb]
      · -- the pull returns, and the rest of the plan is run from there
        rw [he] at hplan ⊢
        have g := hplan.head h
        have htake : (if w.position p < need then w.position p else need) = min (w.position p) need := by
          split <;> omega
        have hpull : withdrawFromPool w p c (min (w.position p) need)
            = .ok (w.pulled p c (min (w.position p) need)) := (withdrawFromPool_eq_ok h).mpr ⟨g, rfl⟩
        have hne : ∀ q ∈ l, q ≠ p := fun q hq hqp => hp (hqp ▸ hq)
        have hrest : Drain.takes (w.pulled p c (min (w.position p) need)).position l
            (need - min (w.position p) need) = Drain.takes w.position l (need - min (w.position p) need) :=
          Drain.takes_congr (fun q hq => World.position_pulled_ne (hne q hq))
        have hlog := @ih (need - min (w.position p) need) _ (h.pulled g) hl
          (fun q hq => (priced_pulled_ne (hne q hq)).mpr (hprl q hq)) (hrest.symm ▸ hplan.tail h)
        simp only [pullLog, if_neg (not_le.mpr hd), PoolClient.balance_of_priced hprp,
          if_neg (not_le.mpr hb), htake, hpull, hlog, hrest]

/-- **The record is the loop's**: where the loop returns, it has made the calls written down, one after another. -/
theorem pullLoop_replays : ∀ {l : List Address} {need r : Int} {w w' : World}, pullLoop c l need w = .ok (r, w') →
    (pullLog c l need w).foldlM (fun w x => withdrawFromPool w x.1 c x.2) w = .ok w' := by
  intro l
  induction l with
  | nil =>
      intro need r w w' h
      injection h with h
      exact congrArg Except.ok (congrArg Prod.snd h)
  | cons p l ih =>
      intro need r w w' h
      unfold pullLoop at h
      unfold pullLog
      by_cases hd : need ≤ 0
      · rw [if_pos hd] at h ⊢
        injection h with h
        exact congrArg Except.ok (congrArg Prod.snd h)
      · rw [if_neg hd] at h ⊢
        obtain ⟨available, hb, h⟩ := bind_eq_ok.mp h
        rw [hb]
        dsimp only
        by_cases hempty : available ≤ 0
        · rw [if_pos hempty] at h ⊢
          exact ih h
        · rw [if_neg hempty] at h ⊢
          obtain ⟨v, hpull, h⟩ := bind_eq_ok.mp h
          obtain ⟨_, hrest, h⟩ := bind_eq_ok.mp h
          obtain ⟨_, rfl⟩ := I128.sub_eq_ok.mp hrest
          rw [hpull]
          exact bind_eq_ok.mpr ⟨v, hpull, ih h⟩

/-- A withdrawal makes the pulls of its payout's plan. -/
theorem payoutLog_eq {auth : Auth} {u token : Address} {shares assets : Int} (h : w.WF)
    (g : WithdrawGuard w auth u c shares assets token) :
    payoutLog w u c shares assets = w.payoutPlan c assets :=
  pullLog_eq (g.burned_wf h) (h.bucket_wf c).list_nodup (g.readable h).priced (g.plan h)

end Vault

/-! ## The payout -/

/-- What a withdrawal of `shares` for `assets` leaves behind. -/
structure PaysPreview (w w' : World) (u : Address) (c : Currency) (token : Address) (shares assets : Int) :
    Prop where
  paid      : w'.tokens token u = w.tokens token u + assets
  at_par    : shares ≤ assets
  nav       : ∃ n, Vault.nav w c = .ok n ∧ Vault.nav w' c = .ok (n - assets)
  idle      : Vault.idle w' c = max (Vault.idle w c - assets) 0
  in_order  : ((Vault.payoutLog w u c shares assets).map Prod.fst).Sublist (w.bucket c).poolList
  once      : ((Vault.payoutLog w u c shares assets).map Prod.fst).Nodup
  lowered   : ∀ x ∈ Vault.payoutLog w u c shares assets, w'.position x.1 = w.position x.1 - x.2
  emptied   : ∀ x ∈ (Vault.payoutLog w u c shares assets).dropLast, w'.position x.1 = 0
  unvisited : ∀ q, q ∉ (Vault.payoutLog w u c shares assets).map Prod.fst → w'.position q = w.position q
  own       : (w'.bucket c).shares u = (w.bucket c).shares u - shares
  others    : ∀ d x, x ≠ u → (w'.bucket d).shares x = (w.bucket d).shares x

variable {r : Registry} {home : Address → Currency} {w w' : World} {c : Currency} {u token : Address}
  {shares assets : Int} {ids : List Nat} {auth : Auth}

/-- What is redeemed lies between the shares and the value of the bucket, once the bucket is at par. -/
theorem redeemAssets_between (h : w.WF) (hv : 0 < w.vault.config.virtualOffset)
    (hpar : (w.bucket c).totalShares ≤ w.navOf c) (h₀ : 0 < shares)
    (hle : shares ≤ (w.bucket c).totalShares)
    (hred : Vault.redeemAssets w c shares w.vault.config.virtualOffset = .ok assets) :
    shares ≤ assets ∧ assets ≤ w.navOf c := by
  obtain ⟨_, _, rfl⟩ := (Vault.redeemAssets_eq_ok h).mp hred
  have hn := h.navOf_nonneg c
  have ht := h.supply_nonneg c
  obtain ⟨_, hlo, hhi⟩ := Vault.proRata_bounds (a := shares) (b := w.navOf c)
    (d := (w.bucket c).totalShares) (v := w.vault.config.virtualOffset) (le_of_lt h₀) (by omega) (by omega)
  constructor
  · -- at par a share is worth one unit or more, before rounding
    have hunit : shares * ((w.bucket c).totalShares + w.vault.config.virtualOffset)
        ≤ shares * (w.navOf c + w.vault.config.virtualOffset) :=
      mul_le_mul_of_nonneg_left (by omega) (le_of_lt h₀)
    have hlt := lt_of_mul_lt_mul_right (lt_of_le_of_lt hunit hhi) (by omega)
    omega
  · have hall : shares * (w.navOf c + w.vault.config.virtualOffset)
        ≤ (w.bucket c).totalShares * (w.navOf c + w.vault.config.virtualOffset) :=
      mul_le_mul_of_nonneg_right hle (by omega)
    have hswap : (w.bucket c).totalShares * (w.navOf c + w.vault.config.virtualOffset)
        ≤ w.navOf c * ((w.bucket c).totalShares + w.vault.config.virtualOffset) := by
      have hoff := mul_le_mul_of_nonneg_right hpar (le_of_lt hv)
      linarith
    exact le_of_mul_le_mul_right (le_trans hlo (le_trans hall hswap)) (by omega)

/-- After a withdrawal the value is read as easily as before. -/
theorem readable_redeemed (hi : Home.Inv home w) (h : w.WF)
    (g : Vault.WithdrawGuard w auth u c shares assets token) :
    Vault.Readable (w.redeemed u c shares assets token) c := by
  have hread := g.readable h
  constructor
  · intro q hq
    rw [World.redeemed, World.bucketField_paidOut Vault.Bucket.poolList rfl, World.liquidated,
      Vault.mem_poolList_pulls (g.burned_wf h) (g.plan h), World.bucket_updateBucket_self] at hq
    have hpr : (w.liquidated u c shares assets).Priced q :=
      (Vault.priced_pulls (g.burned_wf h) (g.plan h)).mpr (hread.priced q hq.1)
    exact hpr
  · have hn := World.navOf_redeemed (d := c) hi h g
    have h₀ := (h.redeemed g).navOf_nonneg c
    have ha := g.nonneg
    rw [if_pos rfl] at hn
    exact hread.fits.of_nonneg h₀ (by omega)

/-- **What a withdrawal does**, once it finds its guard. -/
theorem paysPreview_of_guard (hi : Home.Inv home w) (h : w.WF)
    (g : Vault.WithdrawGuard w (Auth.signers ids) u c shares assets token) (hpar : shares ≤ assets) :
    PaysPreview w (w.redeemed u c shares assets token) u c token shares assets := by
  have hlog := Vault.payoutLog_eq h g
  have hplan := g.plan h
  have hpos := fun q => World.position_redeemed (q := q) h g
  have htaken : ∀ x ∈ w.payoutPlan c assets, Drain.taken (w.payoutPlan c assets) x.1 = x.2 :=
    fun x hx => Drain.taken_of_mem hplan.distinct hx
  have hnav := World.navOf_redeemed (d := c) hi h g
  rw [if_pos rfl] at hnav
  have hread := readable_redeemed hi h g
  refine
    { paid := tokens_redeemed h g
      at_par := hpar
      nav := ⟨w.navOf c, (Vault.nav_eq_ok h).mpr ⟨(g.readable h).priced, (g.readable h).fits, rfl⟩,
        (Vault.nav_eq_ok (h.redeemed g)).mpr ⟨hread.priced, hread.fits, hnav⟩⟩
      idle := ?_
      in_order := by rw [hlog]; exact Drain.takes_fst_sublist ..
      once := by rw [hlog]; exact hplan.distinct
      lowered := ?_
      emptied := ?_
      unvisited := ?_
      own := ?_
      others := ?_ }
  · show ((w.redeemed u c shares assets token).bucket c).totalAssets = _
    rw [World.redeemed, World.bucket_paidOut, if_pos rfl]
    show ((w.liquidated u c shares assets).bucket c).totalAssets - assets = max ((w.bucket c).totalAssets - assets) 0
    rw [Vault.totalAssets_liquidated h hplan (g.burned_wf h) g.covered]
    omega
  · rw [hlog]
    intro x hx
    rw [hpos, htaken x hx]
  · rw [hlog]
    intro x hx
    have hall : x.2 = w.position x.1 := Drain.takes_dropLast x hx
    rw [hpos, htaken x (List.dropLast_subset _ hx), hall, sub_self]
  · rw [hlog]
    intro q hq
    rw [hpos, Drain.taken_of_not_mem hq, sub_zero]
  · rw [(World.books_redeemed h g).1]
    exact Function.update_self ..
  · intro d x hx
    by_cases hd : d = c
    · subst hd
      rw [(World.books_redeemed h g).1]
      exact Function.update_of_ne hx ..
    · rw [World.bucket_redeemed_ne h g hd]

/-- **A withdrawal pays exactly what it previews, and disturbs nothing else.** In every reachable unpaused
    state in which every listed pool holds the vault's balance in tokens, every holder can withdraw any part
    of its shares: the call succeeds, pays what `redeem_assets` returns before it (what `value_of` returns,
    for the full balance) and no less than the shares, and leaves behind what `PaysPreview` says. -/
theorem withdraw_pays_preview (hr : Reachable Genesis (RegisteredStep r) w)
    (hv : 0 < w.vault.config.virtualOffset) (hp : w.vault.paused = false)
    (hliq : ∀ p ∈ (w.bucket c).poolList, w.position p ≤ w.liquidity p)
    (hs : Auth.signers ids u = true) (h₀ : 0 < shares) (hown : shares ≤ (w.bucket c).shares u)
    (hred : Vault.redeemAssets w c shares w.vault.config.virtualOffset = .ok assets) :
    ∃ token w', (w.bucket c).token = some token ∧
      Vault.withdraw (Auth.signers ids) w u c shares = .ok w' ∧
      PaysPreview w w' u c token shares assets ∧
      (shares = (w.bucket c).shares u → Vault.valueOf w u c = .ok assets) := by
  have hh := reachable_home_of_registered hr
  have h := reachable_wf (reachable_of_home hh)
  obtain ⟨hpar, hcov⟩ := redeemAssets_between h hv (totalShares_le_navOf hh hv) h₀
    (le_trans hown (h.shares_le c u)) hred
  have hplan : ∀ x ∈ w.payoutPlan c assets, x.2 ≤ w.liquidity x.1 := by
    intro x hx
    obtain ⟨hmem, _, hle⟩ := Drain.mem_takes hx
    exact le_trans hle (hliq x.1 hmem)
  obtain ⟨token, g⟩ := withdrawGuard_of_liquid hr hv hp hs h₀ hown hred hcov hplan
  refine ⟨token, _, g.token_set, (Vault.withdraw_eq_ok h).mpr ⟨assets, token, g, rfl⟩,
    paysPreview_of_guard (Home.reachable_inv hh) h g hpar, ?_⟩
  rintro rfl
  exact hred

/-- A year of yield in, with the pool's interest paid up. -/
def paidUpRun : List Action := yieldRun ++ [.mint (.contract 100) (.contract 1) 50]

/-- 700 of the 1000 shares redeem for 734, of which 234 come out of the pool. -/
theorem withdraw_pays_preview_paidUpRun :
    (∃ token w', (((World.opening 1000 5000).after paidUpRun).bucket .usd).token = some token ∧
      Vault.withdraw (Auth.signers [2]) ((World.opening 1000 5000).after paidUpRun) (.account 2) .usd 700
        = .ok w' ∧
      PaysPreview ((World.opening 1000 5000).after paidUpRun) w' (.account 2) .usd token 700 734 ∧
      (700 = (((World.opening 1000 5000).after paidUpRun).bucket .usd).shares (.account 2) →
        Vault.valueOf ((World.opening 1000 5000).after paidUpRun) (.account 2) .usd = .ok 734)) ∧
    Vault.payoutLog ((World.opening 1000 5000).after paidUpRun) (.account 2) .usd 700 734
      = [(.contract 1, 234)] := by
  have hr : Reachable Genesis (RegisteredStep .dollars) ((World.opening 1000 5000).after paidUpRun) := by
    refine (Genesis.opening (by decide)).reachable_registered ?_
    simp [paidUpRun, yieldRun, setUpPool, joins, Action.Registered, Vault.Call.Names, Registry.dollars]
  exact ⟨withdraw_pays_preview hr (by decide +kernel) (by decide +kernel) (by decide +kernel) (by decide)
    (by decide) (by decide +kernel) (by decide +kernel), by decide +kernel⟩

end SoroSense
