import SoroSense.Effects

/-!
# `Home` — when every pool serves one currency

The books of a vault whose pools are each named for one currency only. `Home.Inv` ties the four records a
bucket keeps about its pools — the list, the holdings, the active pool, the pending exit — to the one
thing they are about, the vault's position in the pool: a bucket lists exactly the pools of its currency
the vault has a position in.

With it, allocation moves value between idle and pools and never changes what a bucket is worth
(`navOf_supplied`, `navOf_pulled`, `navOf_pulls`).
-/

namespace SoroSense

open Fallible Sums Transition

/-- **The books agree with the positions.** -/
structure Home.Inv (home : Address → Currency) (w : World) : Prop where
  listed_iff    : ∀ c p, p ∈ (w.bucket c).poolList ↔ home p = c ∧ 0 < w.position p
  booked_home   : ∀ c p, (w.bucket c).poolHoldings p ≠ 0 → home p = c
  booked_le     : ∀ c p, (w.bucket c).poolHoldings p ≤ w.position p
  active_listed : ∀ c p, (w.bucket c).activePool = some p → p ∈ (w.bucket c).poolList
  exit_home     : ∀ c e, (w.bucket c).pendingExit = some e → home e.fromPool = c ∧ home e.toPool = c

namespace Home

variable {home : Address → Currency} {w w' : World} {p q token u : Address} {c d : Currency}
  {amount assets : Int} {plan : List (Address × Int)} {auth : Auth}

/-! ## Steps that leave the pools' books alone -/

/-- Positions that keep their sign and do not fall, under unchanged pool books, keep the invariant. -/
theorem Inv.frame (hi : Inv home w) (hpos : ∀ p, 0 < w'.position p ↔ 0 < w.position p)
    (hle : ∀ p, w.position p ≤ w'.position p)
    (hlist : ∀ d, (w'.bucket d).poolList = (w.bucket d).poolList)
    (hbook : ∀ d, (w'.bucket d).poolHoldings = (w.bucket d).poolHoldings)
    (hact : ∀ d, (w'.bucket d).activePool = (w.bucket d).activePool)
    (hexit : ∀ d e, (w'.bucket d).pendingExit = some e → home e.fromPool = d ∧ home e.toPool = d) :
    Inv home w' where
  listed_iff d p := by rw [hlist, hpos]; exact hi.listed_iff d p
  booked_home d p hp := hi.booked_home d p (hbook d ▸ hp)
  booked_le d p := by rw [hbook]; exact le_trans (hi.booked_le d p) (hle p)
  active_listed d p hp := by rw [hlist]; exact hi.active_listed d p (hact d ▸ hp)
  exit_home := hexit

/-- Rewriting the user side of one bucket keeps the invariant. -/
theorem Inv.updateBucket {f : Vault.Bucket → Vault.Bucket} (hi : Inv home w)
    (hlist : (f (w.bucket c)).poolList = (w.bucket c).poolList)
    (hbook : (f (w.bucket c)).poolHoldings = (w.bucket c).poolHoldings)
    (hact : (f (w.bucket c)).activePool = (w.bucket c).activePool)
    (hexit : ∀ e, (f (w.bucket c)).pendingExit = some e → home e.fromPool = c ∧ home e.toPool = c) :
    Inv home (w.updateBucket c f) := by
  refine hi.frame (fun _ => Iff.rfl) (fun _ => le_refl _)
    (fun _ => World.bucketField_updateBucket Vault.Bucket.poolList hlist)
    (fun _ => World.bucketField_updateBucket Vault.Bucket.poolHoldings hbook)
    (fun _ => World.bucketField_updateBucket Vault.Bucket.activePool hact) ?_
  intro d e he
  rw [World.bucket_updateBucket] at he
  split at he
  · rename_i hd; subst hd; exact hexit e he
  · exact hi.exit_home d e he

theorem Inv.setTokens {t : Tokens} (hi : Inv home w) : Inv home (w.setTokens t) :=
  hi.frame (fun _ => Iff.rfl) (fun _ => le_refl _) (fun _ => rfl) (fun _ => rfl) (fun _ => rfl) hi.exit_home

theorem Inv.publish {e : Vault.Event} (hi : Inv home w) : Inv home (w.publish e) :=
  hi.frame (fun _ => Iff.rfl) (fun _ => le_refl _) (fun _ => rfl) (fun _ => rfl) (fun _ => rfl) hi.exit_home

/-- Steps outside the vault keep the invariant. -/
theorem Inv.outside (hi : Inv home w) (o : Outside w w') : Inv home w' :=
  hi.frame (fun p => ⟨o.position_pos p, fun hp => lt_of_lt_of_le hp (o.position_le p)⟩) o.position_le
    (fun d => by rw [o.bucket]) (fun d => by rw [o.bucket]) (fun d => by rw [o.bucket])
    (fun d e he => hi.exit_home d e (o.bucket d ▸ he))

/-! ## Supplies and pulls -/

theorem Inv.position_eq_zero (hi : Inv home w) (h : w.WF) (hc : home p = c)
    (hp : p ∉ (w.bucket c).poolList) : w.position p = 0 := by
  have h₀ := h.position_nonneg p
  have hn : ¬ 0 < w.position p := fun hpos => hp ((hi.listed_iff c p).mpr ⟨hc, hpos⟩)
  omega

/-- No other bucket books anything in a pool. -/
theorem Inv.booked_eq_zero (hi : Inv home w) (hd : home p ≠ d) : (w.bucket d).poolHoldings p = 0 := by
  by_contra hne
  exact hd (hi.booked_home d p hne)

theorem Inv.not_listed (hi : Inv home w) (hd : home p ≠ d) : p ∉ (w.bucket d).poolList :=
  fun hp => hd ((hi.listed_iff d p).mp hp).1

theorem Inv.supplied (hi : Inv home w) (h : w.WF) (g : Vault.SupplyGuard w p c amount token)
    (hc : home p = c) : Inv home (w.supplied p c amount token) := by
  have hpos : ∀ q, (w.supplied p c amount token).position q
      = w.position q + if q = p then amount else 0 := fun q =>
    World.position_supplied h.toPoolsWF g.hosted g.pos
  have ha := g.pos
  have hp₀ := h.position_nonneg p
  refine ⟨?_, ?_, ?_, ?_, ?_⟩
  · -- the pool is listed now, and worth at least what was just supplied
    intro d q
    rw [hpos, World.mem_poolList_supplied, hi.listed_iff]
    by_cases hq : q = p
    · subst hq
      rw [if_pos rfl, hc]
      constructor
      · rintro (⟨hd, _⟩ | ⟨rfl, _⟩)
        · exact ⟨hd, by omega⟩
        · exact ⟨rfl, by omega⟩
      · intro hd
        exact Or.inr ⟨hd.1.symm, rfl⟩
    · simp [hq]
  · intro d q hq
    rw [World.holdings_supplied] at hq
    by_cases hqp : q = p ∧ d = c
    · obtain ⟨rfl, rfl⟩ := hqp
      exact hc
    · rw [if_neg hqp, add_zero] at hq
      exact hi.booked_home d q hq
  · -- bookings and position rise by the same amount
    intro d q
    have hle := hi.booked_le d q
    rw [hpos, World.holdings_supplied]
    by_cases hqp : q = p
    · subst hqp
      rw [if_pos rfl]
      split <;> omega
    · rw [if_neg (fun he => hqp he.1), if_neg hqp, add_zero, add_zero]
      exact hle
  · -- the active pool is the one supplied
    intro d q hq
    rw [World.mem_poolList_supplied]
    rw [World.bucket_supplied] at hq
    split at hq
    · rename_i hd
      exact Or.inr ⟨hd, (Option.some.inj hq).symm⟩
    · exact Or.inl (hi.active_listed d q hq)
  · intro d e he
    rw [World.bucketField_supplied Vault.Bucket.pendingExit rfl] at he
    exact hi.exit_home d e he

theorem Inv.pulled (hi : Inv home w) (h : w.WF) (g : Vault.PullGuard w p c amount) (hc : home p = c) :
    Inv home (w.pulled p c amount) := by
  have hpos : ∀ q, (w.pulled p c amount).position q = w.position q - if q = p then amount else 0 :=
    fun q => World.position_pulled g.hosted g.covered
  have ha := g.pos
  have hcov := g.covered
  refine ⟨?_, ?_, ?_, ?_, ?_⟩
  · -- the pool is delisted exactly when nothing of the position is left
    intro d q
    rw [hpos]
    by_cases hd : d = c
    · subst hd
      rw [Vault.mem_poolList_pulled h, hi.listed_iff]
      by_cases hq : q = p
      · subst hq
        rw [if_pos rfl]
        constructor
        · rintro ⟨⟨_, _⟩, hne⟩
          exact ⟨hc, by simp at hne; omega⟩
        · rintro ⟨_, hlt⟩
          exact ⟨⟨hc, by omega⟩, fun he => by omega⟩
      · simp [hq]
    · rw [Vault.bucket_pulled_ne hd, hi.listed_iff]
      by_cases hq : q = p
      · subst hq
        have hne : home q ≠ d := fun he => hd (he.symm.trans hc)
        simp [hne]
      · rw [if_neg hq, sub_zero]
  · intro d q hq
    rw [World.holdings_pulled] at hq
    by_cases hqp : q = p ∧ d = c
    · obtain ⟨rfl, rfl⟩ := hqp
      exact hc
    · rw [if_neg hqp] at hq
      exact hi.booked_home d q hq
  · -- the booked counter stops at zero, where the position may not
    intro d q
    have hle := hi.booked_le d q
    rw [hpos, World.holdings_pulled]
    by_cases hqp : q = p
    · subst hqp
      rw [if_pos rfl]
      by_cases hd : d = c
      · rw [if_pos ⟨rfl, hd⟩]
        omega
      · rw [if_neg (fun he => hd he.2), hi.booked_eq_zero (fun he => hd (he.symm.trans hc))]
        omega
    · rw [if_neg (fun he => hqp he.1), if_neg hqp, sub_zero]
      exact hle
  · -- a pool still active was not the one emptied
    intro d q hq
    by_cases hd : d = c
    · subst hd
      rw [World.bucket_pulled, if_pos rfl] at hq
      rw [Vault.mem_poolList_pulled h]
      by_cases he : w.position p = amount
      · by_cases hap : (w.bucket d).activePool = some p
        · simp [Vault.Bucket.pulled, he, hap] at hq
        · simp only [Vault.Bucket.pulled, he, hap, and_false, if_false] at hq
          refine ⟨hi.active_listed d q hq, ?_⟩
          rintro ⟨rfl, _⟩
          exact hap hq
      · simp only [Vault.Bucket.pulled, he, decide_false, Bool.false_eq_true, false_and, if_false] at hq
        exact ⟨hi.active_listed d q hq, fun hc => he hc.2⟩
    · rw [Vault.bucket_pulled_ne hd] at hq ⊢
      exact hi.active_listed d q hq
  · intro d e he
    rw [World.bucketField_pulled Vault.Bucket.pendingExit (fun _ => rfl)] at he
    exact hi.exit_home d e he

/-- A plan over pools of one home keeps the invariant. -/
theorem Inv.pulls (hi : Inv home w) (h : w.WF) (hp : Vault.PullPlan w c plan)
    (hc : ∀ x ∈ plan, home x.1 = c) : Inv home (w.pulls c plan) :=
  hp.invariant (I := Inv home) h hi (fun _ _ _ hv g hx hiv => hiv.pulled hv g (hc _ hx))

/-! ## Allocation keeps every bucket's value -/

/-- **A supply keeps every bucket's value.** -/
theorem Inv.navOf_supplied (hi : Inv home w) (h : w.WF) (g : Vault.SupplyGuard w p c amount token)
    (hc : home p = c) : (w.supplied p c amount token).navOf d = w.navOf d := by
  rw [World.navOf_supplied h g]
  by_cases hd : d = c
  · subst hd
    rw [if_pos rfl]
    split
    · exact add_zero _
    · rename_i hp
      rw [hi.position_eq_zero h hc hp, add_zero]
  · have hne : home p ≠ d := fun he => hd (he.symm.trans hc)
    rw [if_neg hd, if_neg (hi.not_listed hne), add_zero]

/-- **A pull keeps every bucket's value.** -/
theorem Inv.navOf_pulled (hi : Inv home w) (h : w.WF) (g : Vault.PullGuard w p c amount)
    (hc : home p = c) : (w.pulled p c amount).navOf d = w.navOf d := by
  have ha := g.pos
  have hcov := g.covered
  have hp : p ∈ (w.bucket c).poolList := (hi.listed_iff c p).mpr ⟨hc, by omega⟩
  rw [World.navOf_pulled h g]
  by_cases hd : d = c
  · subst hd
    rw [if_pos rfl, if_pos hp, add_sub_cancel_right]
  · have hne : home p ≠ d := fun he => hd (he.symm.trans hc)
    rw [if_neg hd, if_neg (hi.not_listed hne), add_zero, sub_zero]

/-- **A plan keeps every bucket's value.** -/
theorem Inv.navOf_pulls (hi : Inv home w) (h : w.WF) (hp : Vault.PullPlan w c plan)
    (hc : ∀ x ∈ plan, home x.1 = c) : (w.pulls c plan).navOf d = w.navOf d := by
  refine (hp.invariant (I := fun v => Inv home v ∧ v.navOf d = w.navOf d) h ⟨hi, rfl⟩ ?_).2
  rintro v p a hv g hx ⟨hiv, hn⟩
  exact ⟨hiv.pulled hv g (hc _ hx), (hiv.navOf_pulled hv g (hc _ hx)).trans hn⟩

/-- A payout's plan visits pools of its own currency. -/
theorem Inv.home_of_payoutPlan (hi : Inv home w) :
    ∀ x ∈ w.payoutPlan c assets, home x.1 = c :=
  fun _ hx => ((hi.listed_iff c _).mp (Drain.mem_takes hx).1).1

/-! ## Every step keeps the invariant -/

theorem Inv.burned {shares : Int} (hi : Inv home w) :
    Inv home (w.updateBucket c (·.burned u shares)) :=
  hi.updateBucket rfl rfl rfl (fun e he => hi.exit_home c e he)

theorem Inv.liquidated {shares : Int} (hi : Inv home w) (h : w.WF)
    (g : Vault.WithdrawGuard w auth u c shares assets token) :
    Inv home (w.liquidated u c shares assets) := by
  have hb : Inv home (w.updateBucket c (·.burned u shares)) := hi.burned
  exact hb.pulls (g.burned_wf h) (g.plan h) hi.home_of_payoutPlan

theorem Inv.redeemed {shares : Int} (hi : Inv home w) (h : w.WF)
    (g : Vault.WithdrawGuard w auth u c shares assets token) :
    Inv home (w.redeemed u c shares assets token) := by
  have hl := hi.liquidated h g
  have hp : Inv home ((w.liquidated u c shares assets).updateBucket c (·.paid assets)) :=
    hl.updateBucket rfl rfl rfl (fun e he => hl.exit_home c e he)
  exact hp.setTokens.publish

theorem Inv.exited {exitId : Nat} {proposal : Vault.ExitProposal} (hi : Inv home w) (h : w.WF)
    (g : Vault.ExitGuard w auth u exitId c proposal token) : Inv home (w.exited c proposal token) := by
  obtain ⟨hf, ht⟩ := hi.exit_home c proposal (Vault.pending_of_findExit g.found).1
  have hs := (hi.pulled h g.pulls hf).supplied (h.pulled g.pulls) g.supplies ht
  have hx : Inv home (World.updateBucket _ c (·.exited)) :=
    hs.updateBucket rfl rfl rfl (fun e he => absurd he (by simp [Vault.Bucket.exited]))
  exact hx.publish

/-- **Every home-respecting step keeps the invariant.** -/
theorem Inv.step {a : Action} (hi : Inv home w) (h : w.WF) (hs : HomeStep home w a w') :
    Inv home w' := by
  obtain ⟨hst, hr⟩ := hs
  have hout := (hst.effect h).outside h
  cases hst.effect h with
  | reverted _ => exact hi
  | quiet _ q => exact hi.outside q.outside
  | @tokenSet _ c _ => exact hi.updateBucket rfl rfl rfl (fun e he => hi.exit_home c e he)
  | @poolConfigured _ c _ => exact hi.updateBucket rfl rfl rfl (fun e he => hi.exit_home c e he)
  | @proposed _ c p q =>
      have hp := hr p c ⟨Or.inl rfl, rfl⟩
      have hq := hr q c ⟨Or.inr rfl, rfl⟩
      have hctr : Inv home { w with vault := { w.vault with exitCounter := w.vault.exitCounter + 1 } } :=
        hi.frame (fun _ => Iff.rfl) (fun _ => le_refl _) (fun _ => rfl) (fun _ => rfl) (fun _ => rfl)
          hi.exit_home
      refine Inv.publish (hctr.updateBucket rfl rfl rfl (fun e he => ?_))
      obtain rfl := Option.some.inj he
      exact ⟨hp, hq⟩
  | @deposited _ u c amount minted token g =>
      have ht : Inv home (w.setTokens (w.tokens.move token u vaultAddress amount)) := hi.setTokens
      have hb : Inv home (World.updateBucket _ c (·.credited u amount minted)) :=
        ht.updateBucket rfl rfl rfl (fun e he => hi.exit_home c e he)
      exact hb.publish
  | redeemed g => exact hi.redeemed h g
  | exited g => exact hi.exited h g
  | @allocated _ p c _ _ g => exact (hi.supplied h g.supplies (hr p c ⟨rfl, rfl⟩)).publish
  | @deallocated _ p c _ g => exact (hi.pulled h g.pulls (hr p c ⟨rfl, rfl⟩)).publish
  | _ => exact hi.outside (hout (by simp))

theorem Inv.genesis (h : Genesis w) : Inv home w := by
  have hpos : ∀ p, w.position p = 0 := fun p => World.position_of_none (h.no_pools p)
  refine ⟨fun c p => ?_, fun c p => ?_, fun c p => ?_, fun c p => ?_, fun c e => ?_⟩
  all_goals simp [h.bucket_eq, Vault.Bucket.empty, hpos]

/-- The books agree with the positions before and after each transition of a run. -/
theorem run_events {tr : List (Event World Action)} (h : w.WF) (hi : Inv home w)
    (hr : Run (HomeStep home) w tr w') : ∀ e ∈ tr, (e.pre.WF ∧ Inv home e.pre) ∧
      HomeStep home e.pre e.label e.post ∧ e.post.WF ∧ Inv home e.post :=
  hr.invariant_events (P := fun v => v.WF ∧ Inv home v)
    (fun _ _ _ hv hs => ⟨hs.1.wf hv.1, hv.2.step hv.1 hs⟩) ⟨h, hi⟩

/-- **The books of every reachable world agree with its positions.** -/
theorem reachable_inv (h : Reachable Genesis (HomeStep home) w) : Inv home w :=
  h.induct (fun _ hg => .genesis hg) (fun _ _ _ hr hi hs => hi.step (reachable_wf (reachable_of_home hr)) hs)

end Home
end SoroSense
