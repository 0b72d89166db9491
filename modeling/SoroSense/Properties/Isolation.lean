import SoroSense.Properties.Liquidity

/-!
# `Properties.Isolation` — what one currency's operations do to the others

Holdings are keyed by currency and pool, but a pool's `balance(vault)` is one number: every bucket that
lists the pool counts all of it. So an operation of one currency leaves another alone exactly as long as
it moves money through no pool the other lists (`operation_isolated_iff`); in an exit, money may also move
from one pool the other lists to another.
-/

namespace SoroSense

open Fallible Sums Transition

/-! ## Being left alone -/

/-- Nothing a currency reads changed: its books, its exact value, and its three reads. -/
structure Isolated (w w' : World) (d : Currency) : Prop where
  idle        : (w'.bucket d).totalAssets = (w.bucket d).totalAssets
  supply      : (w'.bucket d).totalShares = (w.bucket d).totalShares
  value       : w'.navOf d = w.navOf d
  nav         : ∀ n, Vault.nav w' d = .ok n ↔ Vault.nav w d = .ok n
  share_price : ∀ v, Vault.sharePrice w' d = .ok v ↔ Vault.sharePrice w d = .ok v
  value_of    : ∀ u v, Vault.valueOf w' u d = .ok v ↔ Vault.valueOf w u d = .ok v

variable {w w' : World} {c d : Currency} {p u token : Address} {amount minted shares assets : Int}
  {auth : Auth}

/-- The three reads depend on the books, the exact value and the priced pools only. -/
theorem Isolated.of_books (h : w.WF) (h' : w'.WF) (hc : w'.vault.config = w.vault.config)
    (ha : (w'.bucket d).totalAssets = (w.bucket d).totalAssets)
    (ht : (w'.bucket d).totalShares = (w.bucket d).totalShares)
    (hs : (w'.bucket d).shares = (w.bucket d).shares)
    (hp : (∀ p ∈ (w'.bucket d).poolList, w'.Priced p) ↔ ∀ p ∈ (w.bucket d).poolList, w.Priced p)
    (hn : w'.navOf d = w.navOf d) : Isolated w w' d := by
  have hread : Vault.Readable w' d ↔ Vault.Readable w d := by
    constructor
    · rintro ⟨hpr, hf⟩; exact ⟨hp.mp hpr, hn ▸ hf⟩
    · rintro ⟨hpr, hf⟩; exact ⟨hp.mpr hpr, hn.symm ▸ hf⟩
  refine ⟨ha, ht, hn, fun n => ?_, fun v => ?_, fun u v => ?_⟩
  · rw [Vault.nav_eq_ok h, Vault.nav_eq_ok h', hp, hn]
  · unfold Vault.sharePrice
    rw [Vault.sharePriceOf_eq_ok h, Vault.sharePriceOf_eq_ok h', hread, hn, ht, hc]
  · unfold Vault.valueOf
    rw [Vault.redeemAssets_eq_ok h, Vault.redeemAssets_eq_ok h', hread, hn, ht, hs, hc]

/-- A bucket that stands, with its value and the pools it lists as priced as before, is left alone. -/
theorem Isolated.of_bucket (h : w.WF) (h' : w'.WF) (hc : w'.vault.config = w.vault.config)
    (hb : w'.bucket d = w.bucket d) (hp : ∀ p ∈ (w.bucket d).poolList, (w'.Priced p ↔ w.Priced p))
    (hn : w'.navOf d = w.navOf d) : Isolated w w' d := by
  refine .of_books h h' hc (by rw [hb]) (by rw [hb]) (by rw [hb]) ?_ hn
  rw [hb]
  exact forall₂_congr hp

/-! ## The operations of a currency -/

namespace Vault.Call

/-- The operation names the currency; for an approval, the proposal it approves does. -/
def Concerns (w : World) (c : Currency) : Vault.Call → Prop
  | .deposit _ c' _       => c' = c
  | .withdraw _ c' _      => c' = c
  | .allocate _ c' _      => c' = c
  | .deallocate _ c' _    => c' = c
  | .proposeExit c' _ _   => c' = c
  | .approveExit _ exitId => ∃ e, findExit w exitId = some (c, e)
  | _                     => False

/-- The operation of `c` moves no money through a pool that `d` lists: allocations go elsewhere, a payout
    reaches no such pool before it is covered, and an exit moves between two pools that `d` lists both or
    neither. -/
def Spares (w : World) (c d : Currency) : Vault.Call → Prop
  | .allocate p _ _       => p ∉ (w.bucket d).poolList
  | .deallocate p _ _     => p ∉ (w.bucket d).poolList
  | .withdraw _ _ shares  => ∀ assets, redeemAssets w c shares w.vault.config.virtualOffset = .ok assets →
      ∀ l₁ p l₂, (w.bucket c).poolList = l₁ ++ p :: l₂ → 0 < w.position p →
        (w.bucket c).totalAssets + (l₁.map w.position).sum < assets → p ∉ (w.bucket d).poolList
  | .approveExit _ exitId => ∀ e, findExit w exitId = some (c, e) →
      (e.fromPool ∈ (w.bucket d).poolList ↔ e.toPool ∈ (w.bucket d).poolList)
  | _                     => True

end Vault.Call

/-! ## What each operation does to another currency -/

theorem isolated_supplied_iff (h : w.WF) (g : Vault.SupplyGuard w p c amount token) (hd : d ≠ c) :
    Isolated w (w.supplied p c amount token) d ↔ p ∉ (w.bucket d).poolList := by
  have hb : (w.supplied p c amount token).bucket d = w.bucket d := by
    rw [World.bucket_supplied, if_neg hd]
  have hnav := World.navOf_supplied (d := d) h g
  have ha := g.pos
  rw [if_neg hd] at hnav
  constructor
  · intro hi hmem
    have hv := hi.value
    rw [if_pos hmem] at hnav
    omega
  · intro hmem
    rw [if_neg hmem, add_zero] at hnav
    exact .of_bucket h (h.supplied g) rfl hb (fun _ _ => Vault.priced_supplied h g) hnav

theorem isolated_pulled_iff (h : w.WF) (g : Vault.PullGuard w p c amount) (hd : d ≠ c) :
    Isolated w (w.pulled p c amount) d ↔ p ∉ (w.bucket d).poolList := by
  have hb := Vault.bucket_pulled_ne (w := w) (p := p) (a := amount) hd
  have hnav := World.navOf_pulled (d := d) h g
  have ha := g.pos
  rw [if_neg hd, add_zero] at hnav
  constructor
  · intro hi hmem
    have hv := hi.value
    rw [if_pos hmem] at hnav
    omega
  · intro hmem
    rw [if_neg hmem, sub_zero] at hnav
    exact .of_bucket h (h.pulled g) rfl hb (fun _ _ => Vault.priced_pulled h g) hnav

/-- Nothing read by a currency depends on the events. -/
theorem isolated_publish {e : Vault.Event} : Isolated w (w'.publish e) d ↔ Isolated w w' d :=
  ⟨fun h => ⟨h.idle, h.supply, h.value, h.nav, h.share_price, h.value_of⟩,
    fun h => ⟨h.idle, h.supply, h.value, h.nav, h.share_price, h.value_of⟩⟩

theorem isolated_deposited (h : w.WF) (g : Vault.DepositGuard w auth u c amount minted token)
    (hu : ∃ id, u = .account id) (hd : d ≠ c) : Isolated w (w.deposited u c amount minted token) d := by
  have hb : (w.deposited u c amount minted token).bucket d = w.bucket d := by
    rw [World.bucket_deposited, if_neg hd]
  refine .of_bucket h (h.deposited g hu) rfl hb (fun _ _ => Iff.rfl) ?_
  rw [World.navOf_deposited, if_neg hd, add_zero]

theorem isolated_proposed {q : Address} (h : w.WF) (hd : d ≠ c) : Isolated w (w.proposed c p q) d := by
  have hb : (w.proposed c p q).bucket d = w.bucket d := by
    rw [World.proposed, World.bucket_publish, World.bucket_updateBucket_ne hd]
    rfl
  exact .of_bucket h h.proposed rfl hb (fun _ _ => Iff.rfl) World.navOf_proposed

/-- What a payout takes out of another bucket's pools, that bucket loses. -/
theorem navOf_redeemed_ne (h : w.WF) (g : Vault.WithdrawGuard w auth u c shares assets token)
    (hd : d ≠ c) : (w.redeemed u c shares assets token).navOf d = w.navOf d
      - ((w.payoutPlan c assets).map fun x => if x.1 ∈ (w.bucket d).poolList then x.2 else 0).sum := by
  rw [World.redeemed, World.navOf_paidOut, if_neg hd, sub_zero, World.liquidated,
    Vault.navOf_pulls_ne (g.burned_wf h) (g.plan h) hd, World.navOf_burned,
    World.bucket_updateBucket_ne hd]

theorem isolated_redeemed_iff (h : w.WF) (g : Vault.WithdrawGuard w auth u c shares assets token)
    (hd : d ≠ c) : Isolated w (w.redeemed u c shares assets token) d ↔
      ∀ x ∈ w.payoutPlan c assets, x.1 ∉ (w.bucket d).poolList := by
  have hpos : ∀ x ∈ w.payoutPlan c assets, 0 < x.2 := (g.plan h).pos
  have hnav := navOf_redeemed_ne h g hd
  constructor
  · intro hi x hx hmem
    have hv := hi.value
    have hle : x.2 ≤ ((w.payoutPlan c assets).map fun x =>
        if x.1 ∈ (w.bucket d).poolList then x.2 else 0).sum := by
      refine List.single_le_sum ?_ _ (List.mem_map.mpr ⟨x, hx, if_pos hmem⟩)
      intro y hy
      obtain ⟨z, hz, rfl⟩ := List.mem_map.mp hy
      have := hpos z hz
      split <;> omega
    have := hpos x hx
    omega
  · intro hno
    have hzero : ((w.payoutPlan c assets).map fun x =>
        if x.1 ∈ (w.bucket d).poolList then x.2 else 0).sum = 0 := by
      refine List.sum_eq_zero ?_
      intro y hy
      obtain ⟨z, hz, rfl⟩ := List.mem_map.mp hy
      exact if_neg (hno z hz)
    -- nothing the other bucket lists was visited, so its value stands
    rw [hzero, sub_zero] at hnav
    exact .of_bucket h (h.redeemed g) (World.config_redeemed h g) (World.bucket_redeemed_ne h g hd)
      (fun _ _ => Vault.priced_pulls (g.burned_wf h) (g.plan h)) hnav

/-- The pools a payout reaches before it is covered, read off the list. -/
theorem payoutPlan_avoids_iff (h : w.WF) (l : List Address) :
    (∀ x ∈ w.payoutPlan c assets, x.1 ∉ l) ↔
      ∀ l₁ p l₂, (w.bucket c).poolList = l₁ ++ p :: l₂ → 0 < w.position p →
        (w.bucket c).totalAssets + (l₁.map w.position).sum < assets → p ∉ l := by
  have hmem := fun p a => Drain.mem_takes_iff (b := w.position) (l := (w.bucket c).poolList)
    (d := assets - (w.bucket c).totalAssets) (i := p) (a := a) (fun q _ => h.position_nonneg q)
  constructor
  · intro hno l₁ p l₂ hsplit hpos hlt
    exact hno (p, _) ((hmem p _).mpr ⟨l₁, l₂, hsplit, hpos, by omega, rfl⟩)
  · rintro hno ⟨p, a⟩ hx
    obtain ⟨l₁, l₂, hsplit, hpos, hlt, _⟩ := (hmem p a).mp hx
    exact hno l₁ p l₂ hsplit hpos (by omega)

theorem isolated_exited_iff {exitId : Nat} {e : Vault.ExitProposal} (h : w.WF)
    (g : Vault.ExitGuard w auth u exitId c e token) (hd : d ≠ c) :
    Isolated w (w.exited c e token) d ↔
      (e.fromPool ∈ (w.bucket d).poolList ↔ e.toPool ∈ (w.bucket d).poolList) := by
  have hp := h.pulled g.pulls
  have ha := g.pulls.pos
  have hbp : (w.pulled e.fromPool c (w.position e.fromPool)).bucket d = w.bucket d :=
    Vault.bucket_pulled_ne hd
  have hb : (w.exited c e token).bucket d = w.bucket d := by
    rw [World.exited, World.bucket_publish, World.bucket_updateBucket_ne hd, World.bucket_supplied,
      if_neg hd, hbp]
  have hnav : (w.exited c e token).navOf d = w.navOf d
      - (if e.fromPool ∈ (w.bucket d).poolList then w.position e.fromPool else 0)
      + (if e.toPool ∈ (w.bucket d).poolList then w.position e.fromPool else 0) := by
    rw [World.exited, World.navOf_publish, World.navOf_recorded rfl rfl, World.navOf_supplied hp g.supplies,
      World.navOf_pulled h g.pulls, if_neg hd, if_neg hd, hbp, add_zero]
  have hval : (w.exited c e token).navOf d = w.navOf d ↔
      (e.fromPool ∈ (w.bucket d).poolList ↔ e.toPool ∈ (w.bucket d).poolList) := by
    rw [hnav]
    -- what leaves one listed pool for another one stays in the bucket
    by_cases hf : e.fromPool ∈ (w.bucket d).poolList <;>
      by_cases ht : e.toPool ∈ (w.bucket d).poolList <;>
      simp only [hf, ht, if_true, if_false, iff_true, iff_false, not_true] <;>
      omega
  rw [← hval]
  constructor
  · intro hi
    exact hi.value
  · intro hv
    refine .of_bucket h (h.exited g) rfl hb (fun _ _ => ?_) hv
    exact (Vault.priced_supplied hp g.supplies).trans (Vault.priced_pulled h g.pulls)

/-! ## The property -/

/-- **When the buckets are isolated.** A successful operation of one currency leaves every other currency
    alone exactly when it moves no money through the other's pools. -/
theorem operation_isolated_iff (hr : Reachable Genesis Step w) {ids : List Nat} {call : Vault.Call}
    (hx : (Action.vault ids call).exec w = .ok w') (hc : call.Concerns w c) :
    (∀ d, d ≠ c → Isolated w w' d) ↔ ∀ d, d ≠ c → call.Spares w c d := by
  have h := reachable_wf hr
  have hx : call.exec (Auth.signers ids) w = .ok w' := hx
  refine forall₂_congr (fun d hd => ?_)
  cases call with
  | deposit u c' amount =>
      obtain rfl : c' = c := hc
      obtain ⟨minted, token, g, rfl⟩ := Vault.deposit_eq_ok.mp hx
      exact iff_of_true (isolated_deposited h g (Auth.account_of_signers g.signed) hd) trivial
  | withdraw u c' shares =>
      obtain rfl : c' = c := hc
      obtain ⟨assets, token, g, rfl⟩ := (Vault.withdraw_eq_ok h).mp hx
      rw [isolated_redeemed_iff h g hd, payoutPlan_avoids_iff h]
      constructor
      · intro hno assets' ha'
        obtain rfl : assets = assets' := ok_unique g.redeems ha'
        exact hno
      · intro hno
        exact hno assets g.redeems
  | approveExit u exitId =>
      obtain ⟨e, hf⟩ := hc
      obtain ⟨c', e', token, g, rfl⟩ := (Vault.approveExit_eq_ok h).mp hx
      obtain ⟨rfl, rfl⟩ : c' = c ∧ e' = e := Prod.mk.inj (Option.some.inj (g.found.symm.trans hf))
      rw [isolated_exited_iff h g hd]
      constructor
      · intro hiff e'' hf''
        obtain rfl : e' = e'' := (Prod.mk.inj (Option.some.inj (hf.symm.trans hf''))).2
        exact hiff
      · intro hiff
        exact hiff e' hf
  | allocate p c' amount =>
      obtain rfl : c' = c := hc
      obtain ⟨token, g, rfl⟩ := (Vault.allocate_eq_ok h).mp hx
      exact isolated_publish.trans (isolated_supplied_iff h g.supplies hd)
  | deallocate p c' amount =>
      obtain rfl : c' = c := hc
      obtain ⟨g, rfl⟩ := (Vault.deallocate_eq_ok h).mp hx
      exact isolated_publish.trans (isolated_pulled_iff h g.pulls hd)
  | proposeExit c' p q =>
      obtain rfl : c' = c := hc
      obtain ⟨_, _, rfl⟩ := Vault.proposeExit_eq_ok.mp hx
      exact iff_of_true (isolated_proposed h hd) trivial
  | _ => exact absurd hc id

/-- Two buckets with a token each, the dollars at work in pool 1. -/
def sharedPoolRun : List Action :=
  setUpPool .usd (.contract 100) 1 1000 ++ setUpPool .eur (.contract 101) 2 1000 ++
    joins 2 .usd 1000 ++ joins 3 .eur 1000 ++ [.vault [1] (.allocate (.contract 1) .usd 500)]

theorem sharedPoolRun_reachable :
    Reachable Genesis Step ((World.opening 1000 5000).after sharedPoolRun) :=
  (Genesis.opening (by decide)).reachable _

/-- Allocating euros into the other pool leaves the dollars alone. -/
theorem operation_isolated_sharedPoolRun :
    ((World.opening 1000 5000).after sharedPoolRun).Accepts [.vault [1] (.allocate (.contract 2) .eur 500)] ∧
    ∀ d, d ≠ .eur → Isolated ((World.opening 1000 5000).after sharedPoolRun)
      (((World.opening 1000 5000).after sharedPoolRun).after
        [.vault [1] (.allocate (.contract 2) .eur 500)]) d := by
  have hok : ((World.opening 1000 5000).after sharedPoolRun).Accepts
      [.vault [1] (.allocate (.contract 2) .eur 500)] := by decide +kernel
  refine ⟨hok, (operation_isolated_iff sharedPoolRun_reachable hok.exec rfl).mpr ?_⟩
  intro d _
  show Address.contract 2 ∉ (((World.opening 1000 5000).after sharedPoolRun).bucket d).poolList
  cases d <;> decide +kernel

/-- **A shared pool breaks the isolation.** The dollar bucket reads 1000; the keeper allocates 500 euros
    into the pool it lists, which the guards accept; the dollar bucket reads 1500. -/
theorem operation_conflates_sharedPoolRun :
    Reachable Genesis Step ((World.opening 1000 5000).after sharedPoolRun) ∧
    (((World.opening 1000 5000).after sharedPoolRun).bucket .usd).token = some (.contract 100) ∧
    (((World.opening 1000 5000).after sharedPoolRun).bucket .eur).token = some (.contract 101) ∧
    (((World.opening 1000 5000).after sharedPoolRun).bucket .mxn).token = none ∧
    Vault.nav ((World.opening 1000 5000).after sharedPoolRun) .usd = .ok 1000 ∧
    ((World.opening 1000 5000).after sharedPoolRun).Accepts [.vault [1] (.allocate (.contract 1) .eur 500)] ∧
    Vault.nav (((World.opening 1000 5000).after sharedPoolRun).after
      [.vault [1] (.allocate (.contract 1) .eur 500)]) .usd = .ok 1500 :=
  ⟨sharedPoolRun_reachable, by decide +kernel, by decide +kernel, by decide +kernel, by decide +kernel,
    by decide +kernel, by decide +kernel⟩

end SoroSense
