import SoroSense.Properties.SharePrice

/-!
# `Properties.PoolList` — a bucket lists the pools that hold its money

The list is edited by two helpers only, and both edit it by what the position becomes: a supply lists the
pool, a pull delists it when nothing is left. So a bucket lists exactly the pools of its currency with
money in them, however much of it is interest, and moving money between idle and pools changes no net
asset value (`pool_list_holds_the_money`).
-/

namespace SoroSense

open Fallible Transition

variable {home : Address → Currency} {w w' : World} {a : Action} {p token : Address} {c d : Currency}
  {amount : Int} {tr : List (Event World Action)}

/-- The vault supplied `p` for bucket `c`: an allocation, or an exit into `p`, that took effect. -/
def Supplies (p : Address) (c : Currency) (e : Event World Action) : Prop :=
  e.label.exec e.pre = .ok e.post ∧ ∃ ids,
    (∃ amount, e.label = .vault ids (.allocate p c amount)) ∨
      ∃ u exitId proposal, e.label = .vault ids (.approveExit u exitId) ∧
        Vault.findExit e.pre exitId = some (c, proposal) ∧ proposal.toPool = p

/-- The calls that move money between a bucket's idle balance and its pools. -/
def Vault.Call.Rebalances : Vault.Call → Prop
  | .allocate _ _ _   => True
  | .deallocate _ _ _ => True
  | .approveExit _ _  => True
  | _                 => False

/-- The net asset value stands, exactly and as `nav` reads it. -/
structure SameNav (w w' : World) (d : Currency) : Prop where
  value : w'.navOf d = w.navOf d
  read  : ∀ n, Vault.nav w' d = .ok n ↔ Vault.nav w d = .ok n

/-! ## Supplies -/

/-- What the vault supplies was allowlisted and not frozen at that moment. -/
theorem Supplies.allowed (h : w.WF) (hs : Supplies p c ⟨w, a, w'⟩) :
    w.vault.allowedPool p = true ∧ w.vault.frozen p = false := by
  obtain ⟨hx, ids, ⟨amount, rfl⟩ | ⟨u, exitId, e, rfl, hfound, rfl⟩⟩ := hs
  · obtain ⟨token, g, _⟩ := (Vault.allocate_eq_ok h).mp hx
    exact ⟨g.supplies.allowed, g.supplies.unfrozen⟩
  · obtain ⟨c', e', token, g, _⟩ := (Vault.approveExit_eq_ok h).mp hx
    obtain ⟨rfl, rfl⟩ := Prod.mk.inj (Option.some.inj (hfound.symm.trans g.found))
    exact ⟨g.supplies.allowed, g.supplies.unfrozen⟩

/-- **Only a supply opens a position.** -/
theorem Step.supplies_of_opened (h : w.WF) (hs : Step w a w') (h₀ : ¬ 0 < w.position p)
    (h₁ : 0 < w'.position p) : ∃ c, Supplies p c ⟨w, a, w'⟩ := by
  have hout := (hs.effect h).outside h
  cases hs.effect h with
  | reverted _     => exact absurd h₁ h₀
  | quiet _ q      => exact absurd (q.outside.position_pos p h₁) h₀
  | tokenSet       => exact absurd h₁ h₀
  | poolConfigured => exact absurd h₁ h₀
  | proposed       => exact absurd h₁ h₀
  | deposited _    => exact absurd h₁ h₀
  | redeemed g     => exact absurd (lt_of_lt_of_le h₁ (World.redeemed_le h g).1) h₀
  | @exited ids u exitId c e token g =>
      by_cases hp : p = e.toPool
      · exact ⟨c, (Vault.approveExit_eq_ok h).mpr ⟨c, e, token, g, rfl⟩, ids,
          Or.inr ⟨u, exitId, e, rfl, g.found, hp.symm⟩⟩
      · have hfrom := g.pulls.pos
        rw [World.position_exited h g, if_neg hp] at h₁
        split at h₁ <;> omega
  | @allocated ids q c amount token g =>
      by_cases hp : p = q
      · subst hp
        exact ⟨c, (Vault.allocate_eq_ok h).mpr ⟨token, g, rfl⟩, ids, Or.inl ⟨amount, rfl⟩⟩
      · rw [World.position_publish, World.position_supplied_ne hp] at h₁
        exact absurd h₁ h₀
  | deallocated g =>
      rw [World.position_publish] at h₁
      exact absurd (lt_of_lt_of_le h₁ (World.position_pulled_le g.pulls)) h₀
  | _ => exact absurd ((hout (by simp)).position_pos p h₁) h₀

/-- A pool is supplied for its home currency. -/
theorem Supplies.home_eq (hi : Home.Inv home w) (hr : a.Respects home)
    (hs : Supplies p c ⟨w, a, w'⟩) : home p = c := by
  obtain ⟨_, ids, ⟨amount, rfl⟩ | ⟨u, exitId, e, rfl, hfound, rfl⟩⟩ := hs
  · exact hr p c ⟨rfl, rfl⟩
  · exact (hi.exit_home c e (Vault.pending_of_findExit hfound).1).2

/-- **A pool with money in it was supplied**, for its home currency, and the last time it was, it was
    allowlisted and not frozen. -/
theorem last_supply_of_position {w₀ : World} (hg : Genesis w₀) (hr : Run (HomeStep home) w₀ tr w)
    (hp : 0 < w.position p) :
    ∃ tr₁ e tr₂, tr = tr₁ ++ e :: tr₂ ∧ Supplies p (home p) e ∧
      (∀ e' ∈ tr₂, ¬ Supplies p (home p) e') ∧
      e.pre.vault.allowedPool p = true ∧ e.pre.vault.frozen p = false := by
  have hev := Home.run_events hg.wf (.genesis hg) hr
  have hstart : ¬ 0 < w₀.position p := by
    rw [World.position_of_none (hg.no_pools p)]
    exact lt_irrefl 0
  -- the position was opened on the way, by a supply
  obtain ⟨e, he, hclosed, hopen⟩ := hr.exists_entry (P := fun v => 0 < v.position p) hstart hp
  obtain ⟨⟨hv, hi⟩, ⟨hs, hres⟩, _⟩ := hev e he
  obtain ⟨c, hsup⟩ := hs.supplies_of_opened hv hclosed hopen
  obtain rfl := hsup.home_eq hi hres
  obtain ⟨tr₁, e', tr₂, rfl, hsup', hlast⟩ := exists_last ⟨e, he, hsup⟩
  obtain ⟨⟨hv', _⟩, _⟩ := hev e' (by simp)
  exact ⟨tr₁, e', tr₂, rfl, hsup', hlast, hsup'.allowed hv'⟩

/-! ## Moving money changes no net asset value -/

/-- A supply lists a priced pool and keeps the others as priced as they were. -/
theorem priced_listed_supplied (h : w.WF) (g : Vault.SupplyGuard w p c amount token) :
    (∀ q ∈ ((w.supplied p c amount token).bucket d).poolList, (w.supplied p c amount token).Priced q) ↔
      ∀ q ∈ (w.bucket d).poolList, w.Priced q := by
  simp only [Vault.priced_supplied h g, World.mem_poolList_supplied]
  constructor
  · intro hall q hq
    exact hall q (Or.inl hq)
  · rintro hall q (hq | ⟨_, rfl⟩)
    · exact hall q hq
    · exact g.priced

/-- A pull delists at most a priced pool. -/
theorem priced_listed_pulled (h : w.WF) (g : Vault.PullGuard w p c amount) :
    (∀ q ∈ ((w.pulled p c amount).bucket d).poolList, (w.pulled p c amount).Priced q) ↔
      ∀ q ∈ (w.bucket d).poolList, w.Priced q := by
  simp only [Vault.priced_pulled h g]
  by_cases hd : d = c
  · subst hd
    simp only [Vault.mem_poolList_pulled h]
    constructor
    · intro hall q hq
      by_cases hqp : q = p
      · rw [hqp]; exact g.priced
      · exact hall q ⟨hq, fun hc => hqp hc.1⟩
    · intro hall q hq
      exact hall q hq.1
  · rw [Vault.bucket_pulled_ne hd]

theorem SameNav.of_value (h : w.WF) (h' : w'.WF) (hn : w'.navOf d = w.navOf d)
    (hp : (∀ p ∈ (w'.bucket d).poolList, w'.Priced p) ↔ ∀ p ∈ (w.bucket d).poolList, w.Priced p) :
    SameNav w w' d :=
  ⟨hn, fun n => by rw [Vault.nav_eq_ok h, Vault.nav_eq_ok h', hp, hn]⟩

theorem SameNav.trans {w'' : World} (h : SameNav w w' d) (h' : SameNav w' w'' d) : SameNav w w'' d :=
  ⟨h'.value.trans h.value, fun n => (h'.read n).trans (h.read n)⟩

theorem SameNav.publish {e : Vault.Event} (h : SameNav w w' d) : SameNav w (w'.publish e) d :=
  ⟨h.value, h.read⟩

theorem SameNav.supplied (hi : Home.Inv home w) (h : w.WF) (g : Vault.SupplyGuard w p c amount token)
    (hc : home p = c) : SameNav w (w.supplied p c amount token) d :=
  .of_value h (h.supplied g) (hi.navOf_supplied h g hc) (priced_listed_supplied h g)

theorem SameNav.pulled (hi : Home.Inv home w) (h : w.WF) (g : Vault.PullGuard w p c amount)
    (hc : home p = c) : SameNav w (w.pulled p c amount) d :=
  .of_value h (h.pulled g) (hi.navOf_pulled h g hc) (priced_listed_pulled h g)

/-- **Moving money between idle and pools changes no net asset value**, of any bucket. -/
theorem sameNav_of_rebalance (hi : Home.Inv home w) (h : w.WF) {ids : List Nat} {call : Vault.Call}
    (hs : HomeStep home w (.vault ids call) w') (hcall : call.Rebalances) : SameNav w w' d := by
  obtain ⟨hst, hres⟩ := hs
  cases hst.effect h with
  | reverted _ => exact ⟨rfl, fun _ => Iff.rfl⟩
  | quiet _ q =>
      refine .of_value h (q.wf h) ?_ ?_
      · exact World.navOf_congr q.timestamp (congrFun q.bucket d) (fun p _ => congrFun q.pools p)
      · rw [congrFun q.bucket d]
        exact forall₂_congr (fun p _ => World.priced_congr q.timestamp (congrFun q.pools p))
  | @exited _ u exitId c e token g =>
      obtain ⟨hfrom, hto⟩ := hi.exit_home c e (Vault.pending_of_findExit g.found).1
      have hpull : SameNav w (w.pulled e.fromPool c (w.position e.fromPool)) d := .pulled hi h g.pulls hfrom
      have hsup := SameNav.supplied (d := d) (hi.pulled h g.pulls hfrom) (h.pulled g.pulls) g.supplies hto
      have hrec : SameNav ((w.pulled e.fromPool c (w.position e.fromPool)).supplied e.toPool c
          (w.position e.fromPool) token) (w.exited c e token) d := by
        refine .of_value ((h.pulled g.pulls).supplied g.supplies) (h.exited g) ?_ ?_
        · rw [World.exited, World.navOf_publish, World.navOf_recorded rfl rfl]
        · rw [World.exited, World.bucket_publish, World.bucketField_updateBucket Vault.Bucket.poolList rfl]
          exact Iff.rfl
      exact (hpull.trans hsup).trans hrec
  | @allocated _ p c amount token g => exact (SameNav.supplied hi h g.supplies (hres p c ⟨rfl, rfl⟩)).publish
  | @deallocated _ p c amount g => exact (SameNav.pulled hi h g.pulls (hres p c ⟨rfl, rfl⟩)).publish
  | _ => exact absurd hcall id

/-! ## Every run -/

/-- **A bucket lists exactly the pools that hold its money.** In every run from a fresh vault that names
    every pool for one currency, of every bucket: the list has no duplicates and at most twelve entries; it
    holds the pools of the currency in which the vault's balance is positive; each of them was allowlisted
    and not frozen when it was last supplied. So the next allocation, deallocation or approved exit leaves
    every net asset value as it was. -/
theorem pool_list_holds_the_money {w₀ : World} (hg : Genesis w₀) (hr : Run (HomeStep home) w₀ tr w) :
    (∀ c, (w.bucket c).poolList.Nodup ∧ (w.bucket c).poolList.length ≤ Vault.maxPoolsPerCurrency) ∧
    (∀ c p, p ∈ (w.bucket c).poolList ↔ home p = c ∧ 0 < w.position p) ∧
    (∀ p v, PoolClient.balance w p vaultAddress = .ok v → v = w.position p) ∧
    (∀ c, ∀ p ∈ (w.bucket c).poolList, ∃ tr₁ e tr₂, tr = tr₁ ++ e :: tr₂ ∧ Supplies p c e ∧
      (∀ e' ∈ tr₂, ¬ Supplies p c e') ∧
      e.pre.vault.allowedPool p = true ∧ e.pre.vault.frozen p = false) ∧
    (∀ ids call w', call.Rebalances → HomeStep home w (.vault ids call) w' → ∀ c, SameNav w w' c) := by
  have hreach : Reachable Genesis (HomeStep home) w := ⟨w₀, tr, hg, hr⟩
  have h := reachable_wf (reachable_of_home hreach)
  have hi := Home.reachable_inv hreach
  refine ⟨fun c => ⟨(h.bucket_wf c).list_nodup, (h.bucket_wf c).list_length⟩, hi.listed_iff,
    fun p v hb => (PoolClient.balance_eq_ok hb).1, fun c p hp => ?_,
    fun ids call w' hcall hs c => sameNav_of_rebalance hi h hs hcall⟩
  obtain ⟨rfl, hpos⟩ := (hi.listed_iff c p).mp hp
  exact last_supply_of_position hg hr hpos

/-- After a year of yield the bucket still lists the one pool it supplied, and a further allocation moves
    no value. -/
theorem pool_list_holds_the_money_yieldRun :
    (((World.opening 1000 5000).after yieldRun).bucket .usd).poolList.Nodup ∧
    SameNav ((World.opening 1000 5000).after yieldRun)
      ((World.opening 1000 5000).after (yieldRun ++ [.vault [1] (.allocate (.contract 1) .usd 100)])) .usd ∧
    (World.opening 1000 5000).Accepts (yieldRun ++ [.vault [1] (.allocate (.contract 1) .usd 100)]) := by
  have hrun : Run (HomeStep fun _ => .usd) (World.opening 1000 5000)
      ((World.opening 1000 5000).trace yieldRun) ((World.opening 1000 5000).after yieldRun) :=
    World.run_trace_home _ (by simp [yieldRun, setUpPool, joins, Action.Respects, Vault.Call.Names])
  have hall := pool_list_holds_the_money (Genesis.opening (by decide)) hrun
  refine ⟨(hall.1 .usd).1, ?_, by decide +kernel⟩
  refine hall.2.2.2.2 [1] (.allocate (.contract 1) .usd 100) _ trivial ⟨.done ?_, ?_⟩ .usd
  · rfl
  · simp [Action.Respects, Vault.Call.Names]

end SoroSense
