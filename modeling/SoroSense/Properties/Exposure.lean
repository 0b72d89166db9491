import SoroSense.Properties.SharePrice
import SoroSense.Vault.Panics

/-!
# `Properties.Exposure` — what the exposure counter counts

`PoolHoldings` rises with every supply and falls with every pull, down to zero and no further. A pull may
take interest too, so the counter is no running sum; but one step moves it by no less than what the step
supplied less what it pulled, and by no more than the cap allows (`Vault.Call.exposure`). Along a run the
counter therefore stays between what is still at risk and the smaller of the cap and the position
(`exposure_bracketed`).
-/

namespace SoroSense

open Fallible Transition

/-! ## Flows -/

/-- What a call that takes effect supplies to `p` for bucket `c`. -/
def Vault.Call.supplies (w : World) (c : Currency) (p : Address) : Vault.Call → Int
  | .allocate pool d amount => if p = pool ∧ c = d then amount else 0
  | .approveExit _ exitId   =>
    match findExit w exitId with
    | some (d, e) => if p = e.toPool ∧ c = d then w.position e.fromPool else 0
    | none        => 0
  | _ => 0

/-- What a call that takes effect pulls from `p` for bucket `c`. -/
def Vault.Call.pulls (w : World) (c : Currency) (p : Address) : Vault.Call → Int
  | .deallocate pool d amount => if p = pool ∧ c = d then amount else 0
  | .withdraw _ d shares      =>
    match redeemAssets w d shares w.vault.config.virtualOffset with
    | .ok assets => if c = d then Drain.taken (w.payoutPlan d assets) p else 0
    | .error _   => 0
  | .approveExit _ exitId     =>
    match findExit w exitId with
    | some (d, e) => if p = e.fromPool ∧ c = d then w.position e.fromPool else 0
    | none        => 0
  | _ => 0

/-- What a transition supplied to `p` for bucket `c`: nothing, if its call reverted. -/
def suppliedTo (c : Currency) (p : Address) (e : Event World Action) : Int :=
  match e.label, e.label.exec e.pre with
  | .vault _ call, .ok _ => call.supplies e.pre c p
  | _, _                 => 0

/-- What a transition pulled from `p` for bucket `c`. -/
def pulledFrom (c : Currency) (p : Address) (e : Event World Action) : Int :=
  match e.label, e.label.exec e.pre with
  | .vault _ call, .ok _ => call.pulls e.pre c p
  | _, _                 => 0

variable {home : Address → Currency} {w w' : World} {a : Action} {p q u token : Address} {c d : Currency}
  {amount shares assets : Int} {ids : List Nat} {auth : Auth} {tr : List (Event World Action)}

/-! ## One pull plan -/

/-- A plan lowers the holdings of its bucket by no more than it takes. -/
theorem holdings_pulls_ge {plan : List (Address × Int)} (h : w.WF) (hp : Vault.PullPlan w c plan) :
    (w.bucket c).poolHoldings p - Drain.taken plan p ≤ ((w.pulls c plan).bucket c).poolHoldings p := by
  have hsum := hp.sum_le (f := fun v => -(v.bucket c).poolHoldings p)
    (g := fun x => if x.1 = p then x.2 else 0) h (fun v q b hv g => by
      have h₀ := (hv.bucket_wf c).holdings_nonneg p
      have hb := g.pos
      rw [World.holdings_pulled]
      by_cases hq : p = q
      · subst hq
        simp only [and_true, if_true]
        omega
      · simp [hq, Ne.symm hq])
  unfold Drain.taken
  omega

/-- What one call does to the counter of `c` and `p`: it moves by at least what the call supplied less what
    it pulled, and it stays below the cap where it rises. -/
structure Exposed (w w' : World) (c : Currency) (p : Address) (supplied pulled : Int) : Prop where
  lower : (w.bucket c).poolHoldings p + supplied - pulled ≤ (w'.bucket c).poolHoldings p
  upper : (w'.bucket c).poolHoldings p
    ≤ max ((w.bucket c).poolHoldings p) w.vault.config.perPoolCap

theorem Exposed.of_eq (hb : (w'.bucket c).poolHoldings p = (w.bucket c).poolHoldings p) :
    Exposed w w' c p 0 0 :=
  ⟨by omega, by omega⟩

theorem Exposed.supplied (g : Vault.SupplyGuard w q d amount token) :
    Exposed w (w.supplied q d amount token) c p (if p = q ∧ c = d then amount else 0) 0 := by
  have hcap := g.under_cap
  constructor
  · rw [World.holdings_supplied]
    omega
  · rw [World.holdings_supplied]
    split
    · rename_i hpc
      obtain ⟨rfl, rfl⟩ := hpc
      omega
    · omega

theorem Exposed.pulled (h : w.WF) (g : Vault.PullGuard w q d amount) :
    Exposed w (w.pulled q d amount) c p 0 (if p = q ∧ c = d then amount else 0) := by
  have h₀ := (h.bucket_wf c).holdings_nonneg p
  have ha := g.pos
  constructor
  · rw [World.holdings_pulled]
    split <;> omega
  · rw [World.holdings_pulled]
    split <;> omega

theorem Exposed.trans {w'' : World} {s s' q q' : Int} (h : Exposed w w' c p s q)
    (h' : Exposed w' w'' c p s' q') (hc : w'.vault.config = w.vault.config) :
    Exposed w w'' c p (s + s') (q + q') := by
  have h₁ := h.lower
  have h₂ := h'.lower
  have h₃ := h.upper
  have h₄ := h'.upper
  rw [hc] at h₄
  exact ⟨by omega, by omega⟩

theorem Exposed.redeemed (h : w.WF) (g : Vault.WithdrawGuard w auth u d shares assets token) :
    Exposed w (w.redeemed u d shares assets token) c p 0
      (if c = d then Drain.taken (w.payoutPlan d assets) p else 0) := by
  refine ⟨?_, le_trans ((World.redeemed_le h g).2 c) (le_max_left _ _)⟩
  by_cases hc : c = d
  · subst hc
    have hpulls := holdings_pulls_ge (p := p) (g.burned_wf h) (g.plan h)
    rw [World.bucketField_updateBucket (fun b => b.poolHoldings p) rfl] at hpulls
    rw [World.redeemed, World.bucketField_paidOut (fun b => b.poolHoldings p) rfl, World.liquidated]
    simp only [if_true]
    omega
  · rw [World.bucket_redeemed_ne h g hc]
    simp [hc]

theorem Exposed.exited {exitId : Nat} {e : Vault.ExitProposal} (h : w.WF)
    (g : Vault.ExitGuard w auth u exitId d e token) :
    Exposed w (w.exited d e token) c p (if p = e.toPool ∧ c = d then w.position e.fromPool else 0)
      (if p = e.fromPool ∧ c = d then w.position e.fromPool else 0) := by
  have hpull := Exposed.pulled (c := c) (p := p) h g.pulls
  have hboth := hpull.trans (Exposed.supplied g.supplies) rfl
  rw [zero_add, add_zero] at hboth
  have hsame : ((w.exited d e token).bucket c).poolHoldings p
      = (((w.pulled e.fromPool d (w.position e.fromPool)).supplied e.toPool d (w.position e.fromPool)
          token).bucket c).poolHoldings p := by
    rw [World.exited, World.bucket_publish, World.bucketField_updateBucket (fun b => b.poolHoldings p) rfl]
  exact ⟨hsame ▸ hboth.lower, hsame ▸ hboth.upper⟩

theorem Exposed.publish {s r : Int} {e : Vault.Event} (h : Exposed w w' c p s r) :
    Exposed w (w'.publish e) c p s r := ⟨h.lower, h.upper⟩

/-! ## One step -/

/-- The calls that move money into or out of pools. -/
def Vault.Call.Flows : Vault.Call → Prop
  | .withdraw _ _ _   => True
  | .approveExit _ _  => True
  | .allocate _ _ _   => True
  | .deallocate _ _ _ => True
  | _                 => False

/-- The other calls leave the counters and the positions alone. -/
theorem Vault.Call.still (h : w.WF) {call : Vault.Call} (hx : call.exec (Auth.signers ids) w = .ok w')
    (hf : ¬ call.Flows) :
    (w'.bucket c).poolHoldings p = (w.bucket c).poolHoldings p ∧ w'.position p = w.position p := by
  cases Effect.of_call h hx with
  | quiet _ q      =>
      rw [congrFun q.bucket c]
      exact ⟨rfl, World.position_congr q.timestamp (congrFun q.pools p)⟩
  | reverted he    => exact absurd (hx.symm.trans he) (by simp)
  | tokenSet       => exact ⟨World.bucketField_updateBucket (fun b => b.poolHoldings p) rfl, rfl⟩
  | poolConfigured => exact ⟨World.bucketField_updateBucket (fun b => b.poolHoldings p) rfl, rfl⟩
  | proposed       => exact ⟨World.bucketField_proposed (fun b => b.poolHoldings p) (fun _ _ => rfl), rfl⟩
  | deposited _    => exact ⟨World.bucketField_deposited (fun b => b.poolHoldings p) rfl, rfl⟩
  | _ => exact absurd trivial hf

theorem Vault.Call.pulls_withdraw (g : Vault.WithdrawGuard w auth u d shares assets token) :
    Vault.Call.pulls w c p (.withdraw u d shares)
      = if c = d then Drain.taken (w.payoutPlan d assets) p else 0 := by
  simp only [Vault.Call.pulls, g.redeems]

/-- **What one call does to the counter.** -/
theorem Vault.Call.exposure (h : w.WF) {call : Vault.Call} (hx : call.exec (Auth.signers ids) w = .ok w') :
    Exposed w w' c p (call.supplies w c p) (call.pulls w c p) := by
  cases call with
  | withdraw u d shares =>
      obtain ⟨assets, token, g, rfl⟩ := (Vault.withdraw_eq_ok h).mp hx
      rw [Vault.Call.pulls_withdraw g]
      exact .redeemed h g
  | approveExit u exitId =>
      obtain ⟨d, e, token, g, rfl⟩ := (Vault.approveExit_eq_ok h).mp hx
      simp only [Vault.Call.supplies, Vault.Call.pulls, g.found]
      exact .exited h g
  | allocate q d amount =>
      obtain ⟨token, g, rfl⟩ := (Vault.allocate_eq_ok h).mp hx
      exact (Exposed.supplied g.supplies).publish
  | deallocate q d amount =>
      obtain ⟨g, rfl⟩ := (Vault.deallocate_eq_ok h).mp hx
      exact (Exposed.pulled h g.pulls).publish
  | _ => exact .of_eq (Vault.Call.still h hx id).1

/-- **The flows of a call are what it does to the positions**, each pool seen from its home bucket. -/
theorem Vault.Call.position_eq (hi : Home.Inv home w) (h : w.WF) {call : Vault.Call}
    (hx : call.exec (Auth.signers ids) w = .ok w') (hres : (Action.vault ids call).Respects home) :
    w'.position p = w.position p + call.supplies w (home p) p - call.pulls w (home p) p := by
  cases call with
  | withdraw u d shares =>
      obtain ⟨assets, token, g, rfl⟩ := (Vault.withdraw_eq_ok h).mp hx
      rw [World.position_redeemed h g, Vault.Call.pulls_withdraw g]
      show _ = w.position p + 0 - _
      by_cases hd : home p = d
      · rw [if_pos hd, add_zero]
      · -- the plan visits pools of its own currency only
        have helse : p ∉ (w.payoutPlan d assets).map Prod.fst := by
          intro hp
          obtain ⟨x, hx, rfl⟩ := List.mem_map.mp hp
          exact hd (hi.home_of_payoutPlan x hx)
        rw [if_neg hd, Drain.taken_of_not_mem helse, add_zero]
  | approveExit u exitId =>
      obtain ⟨d, e, token, g, rfl⟩ := (Vault.approveExit_eq_ok h).mp hx
      obtain ⟨hfrom, hto⟩ := hi.exit_home d e (Vault.pending_of_findExit g.found).1
      have h₁ : (p = e.toPool ∧ home p = d) ↔ p = e.toPool := and_iff_left_of_imp (fun hp => hp ▸ hto)
      have h₂ : (p = e.fromPool ∧ home p = d) ↔ p = e.fromPool := and_iff_left_of_imp (fun hp => hp ▸ hfrom)
      simp only [Vault.Call.supplies, Vault.Call.pulls, g.found, h₁, h₂]
      rw [World.position_exited h g]
      omega
  | allocate q d amount =>
      obtain ⟨token, g, rfl⟩ := (Vault.allocate_eq_ok h).mp hx
      have hq : (p = q ∧ home p = d) ↔ p = q := and_iff_left_of_imp (fun hp => hp ▸ hres q d ⟨rfl, rfl⟩)
      rw [World.position_publish, World.position_supplied h.toPoolsWF g.supplies.hosted g.supplies.pos]
      simp only [Vault.Call.supplies, Vault.Call.pulls, hq]
      omega
  | deallocate q d amount =>
      obtain ⟨g, rfl⟩ := (Vault.deallocate_eq_ok h).mp hx
      have hq : (p = q ∧ home p = d) ↔ p = q := and_iff_left_of_imp (fun hp => hp ▸ hres q d ⟨rfl, rfl⟩)
      rw [World.position_publish, World.position_pulled g.pulls.hosted g.pulls.covered]
      simp only [Vault.Call.supplies, Vault.Call.pulls, hq]
      omega
  | _ =>
      rw [(Vault.Call.still (c := home p) h hx id).2]
      exact (by omega : w.position p = w.position p + 0 - 0)

/-- The flows of a step that took effect are its call's. -/
theorem flows_of_vault {call : Vault.Call} {v : World} (hx : call.exec (Auth.signers ids) w = .ok v) :
    suppliedTo c p ⟨w, .vault ids call, w'⟩ = call.supplies w c p ∧
      pulledFrom c p ⟨w, .vault ids call, w'⟩ = call.pulls w c p := by
  have hexec : (Action.vault ids call).exec w = .ok v := hx
  simp only [suppliedTo, pulledFrom, hexec, and_self]

/-- A step that reverted has none. -/
theorem flows_of_reverted {e : Panic} (he : a.exec w = .error e) :
    suppliedTo c p ⟨w, a, w'⟩ = 0 ∧ pulledFrom c p ⟨w, a, w'⟩ = 0 := by
  simp only [suppliedTo, pulledFrom, he, and_self]

/-- **What one step does to the counter.** -/
theorem Step.exposed (h : w.WF) (hs : Step w a w') (c : Currency) (p : Address) :
    Exposed w w' c p (suppliedTo c p ⟨w, a, w'⟩) (pulledFrom c p ⟨w, a, w'⟩) := by
  have hout := (hs.effect h).outside h
  cases hs with
  | reverted he =>
      have hnone : suppliedTo c p ⟨w, a, w⟩ = 0 ∧ pulledFrom c p ⟨w, a, w⟩ = 0 := flows_of_reverted he
      rw [hnone.1, hnone.2]
      exact .of_eq rfl
  | done hx =>
      cases a with
      | vault ids call =>
          have hflows : suppliedTo c p ⟨w, .vault ids call, w'⟩ = call.supplies w c p ∧
              pulledFrom c p ⟨w, .vault ids call, w'⟩ = call.pulls w c p := flows_of_vault hx
          rw [hflows.1, hflows.2]
          exact Vault.Call.exposure h hx
      | _ => exact .of_eq (by rw [(hout (by simp)).bucket])

/-! ## Every run -/

/-- The counters stay within the cap. -/
theorem holdings_le_cap {w₀ : World} (hg : Genesis w₀) (hcap : 0 ≤ w₀.vault.config.perPoolCap)
    (hr : Run Step w₀ tr w) : (w.bucket c).poolHoldings p ≤ w.vault.config.perPoolCap := by
  have hstep : ∀ v a v', v.WF ∧ (v.bucket c).poolHoldings p ≤ v.vault.config.perPoolCap → Step v a v' →
      v'.WF ∧ (v'.bucket c).poolHoldings p ≤ v'.vault.config.perPoolCap := by
    rintro v a v' ⟨hv, hle⟩ hs
    -- a counter above the cap could only have been so before: the cap itself never changes
    have hup := (hs.exposed hv c p).upper
    rw [hs.config hv]
    exact ⟨hs.wf hv, le_trans hup (max_le hle (le_refl _))⟩
  refine (hr.invariant hstep ⟨hg.wf, ?_⟩).2
  rw [hg.bucket_eq]
  exact hcap

/-- What is still at risk is booked. -/
theorem net_le_holdings {w₀ : World} (hg : Genesis w₀) (hr : Run Step w₀ tr w) :
    (tr.map (suppliedTo c p)).sum - (tr.map (pulledFrom c p)).sum ≤ (w.bucket c).poolHoldings p := by
  have hev := run_events hg.wf hr
  -- one step lowers the counter by no more than it pulled less what it supplied; summed over the run
  have hsum := hr.sum_le (fun v => -(v.bucket c).poolHoldings p) (fun e => pulledFrom c p e - suppliedTo c p e)
    (fun e he => by
      have hlow : _ + suppliedTo c p e - pulledFrom c p e ≤ _ :=
        ((hev e he).2.1.exposed (hev e he).1 c p).lower
      omega)
  have hsplit : (tr.map fun e => pulledFrom c p e - suppliedTo c p e).sum
      = (tr.map (pulledFrom c p)).sum - (tr.map (suppliedTo c p)).sum := Sums.sum_map_sub _ _ tr
  rw [hsplit, hg.bucket_eq] at hsum
  have hzero : (Vault.Bucket.empty).poolHoldings p = 0 := rfl
  omega

/-- **The exposure counter brackets the exposure.** In every run from a fresh vault with a non-negative cap
    that names every pool for one currency, for every currency and pool: what was supplied less what was
    pulled is at most the counter, the counter is at most the cap and at most the vault's balance in the
    pool, and it is not negative. So the net principal in one pool stays within the cap, and no deallocation
    is refused by the pool for lack of balance. -/
theorem exposure_bracketed {w₀ : World} (hg : Genesis w₀) (hcap : 0 ≤ w₀.vault.config.perPoolCap)
    (hr : Run (HomeStep home) w₀ tr w) :
    (∀ c p, (tr.map (suppliedTo c p)).sum - (tr.map (pulledFrom c p)).sum ≤ (w.bucket c).poolHoldings p ∧
      (w.bucket c).poolHoldings p ≤ min w.vault.config.perPoolCap (w.position p) ∧
      0 ≤ (w.bucket c).poolHoldings p ∧
      (tr.map (suppliedTo c p)).sum - (tr.map (pulledFrom c p)).sum ≤ w.vault.config.perPoolCap) ∧
    (∀ e ∈ tr, ∀ ids call, e.label = .vault ids call → ∀ p,
      e.post.position p = e.pre.position p + suppliedTo (home p) p e - pulledFrom (home p) p e) ∧
    (∀ p v, PoolClient.balance w p vaultAddress = .ok v → v = w.position p) ∧
    (∀ auth p c amount, Vault.deallocate auth w p c amount ≠ .error (.pool .insufficientBalance)) := by
  have hreach : Reachable Genesis (HomeStep home) w := ⟨w₀, tr, hg, hr⟩
  have hrun : Run Step w₀ tr w := hr.weaken (fun _ _ _ hs => hs.1)
  have h := reachable_wf (reachable_of_home hreach)
  have hi := Home.reachable_inv hreach
  have hev := Home.run_events hg.wf (.genesis hg) hr
  refine ⟨fun c p => ?_, ?_, fun p v hb => (PoolClient.balance_eq_ok hb).1, fun auth p c amount he => ?_⟩
  · have hnet := net_le_holdings (c := c) (p := p) hg hrun
    have hle := holdings_le_cap (c := c) (p := p) hg hcap hrun
    exact ⟨hnet, le_min hle (hi.booked_le c p), (h.bucket_wf c).holdings_nonneg p, le_trans hnet hle⟩
  · rintro ⟨v, a, v'⟩ he ids call hl p
    obtain rfl : a = .vault ids call := hl
    obtain ⟨⟨hv, hiv⟩, ⟨hs, hres⟩, _⟩ := hev _ he
    cases hs with
    | reverted hx =>
        have hnone : suppliedTo (home p) p ⟨v, .vault ids call, v⟩ = 0 ∧
            pulledFrom (home p) p ⟨v, .vault ids call, v⟩ = 0 := flows_of_reverted hx
        rw [hnone.1, hnone.2]
        exact (by omega : v.position p = v.position p + 0 - 0)
    | done hx =>
        have hflows : suppliedTo (home p) p ⟨v, .vault ids call, v'⟩ = call.supplies v (home p) p ∧
            pulledFrom (home p) p ⟨v, .vault ids call, v'⟩ = call.pulls v (home p) p := flows_of_vault hx
        rw [hflows.1, hflows.2]
        exact Vault.Call.position_eq hiv hv hx hres
  · exact Vault.deallocate_avoids_insufficientBalance h (hi.booked_le c p) _ he rfl

/-- A year of yield in, the pool owes the vault 550; the depositor withdraws 700 of its 1000 shares, so 234
    is pulled out of the pool, and 266 of the 500 supplied are still at risk. -/
theorem exposure_bracketed_yieldRun :
    ((((World.opening 1000 5000).trace (yieldRun ++ [.vault [2] (.withdraw (.account 2) .usd 700)])).map
        (suppliedTo .usd (.contract 1))).sum
      - (((World.opening 1000 5000).trace (yieldRun ++ [.vault [2] (.withdraw (.account 2) .usd 700)])).map
        (pulledFrom .usd (.contract 1))).sum
      ≤ (((World.opening 1000 5000).after
          (yieldRun ++ [.vault [2] (.withdraw (.account 2) .usd 700)])).bucket .usd).poolHoldings
            (.contract 1)) ∧
    (((World.opening 1000 5000).after
      (yieldRun ++ [.vault [2] (.withdraw (.account 2) .usd 700)])).bucket .usd).poolHoldings (.contract 1)
        = 266 := by
  have hrun : Run (HomeStep fun _ => .usd) (World.opening 1000 5000)
      ((World.opening 1000 5000).trace (yieldRun ++ [.vault [2] (.withdraw (.account 2) .usd 700)])) _ :=
    World.run_trace_home _ (by simp [yieldRun, setUpPool, joins, Action.Respects, Vault.Call.Names])
  exact ⟨((exposure_bracketed (Genesis.opening (by decide)) (by decide) hrun).1 .usd (.contract 1)).1,
    by decide +kernel⟩

end SoroSense
