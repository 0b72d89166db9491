import SoroSense.Effects
import Mathlib.Data.Set.Finite.Basic

/-!
# `Pools` — what a step does to each pool contract

`Step.pool` reads a step from one pool: the pool was deployed in this step, or what it stores now is what
calls at this ledger time made of what it stored before (`YieldPool.Touched`). So a property of a pool's
storage that deployment establishes, calls keep and time keeps holds of every pool of every reachable
world, and only finitely many addresses host one.
-/

namespace SoroSense

open Fallible Transition

namespace YieldPool

/-- What calls can make of a pool's storage at ledger time `now`. -/
inductive Touched (now : Nat) (s : State) : State → Prop where
  | refl : Touched now s s
  | supplied {t : State} (who : Address) (amount : Int) (h : Touched now s t) :
      Touched now s (t.supplied now who amount)
  | withdrawn {t : State} (who : Address) (amount : Int) (h : Touched now s t) :
      Touched now s (t.withdrawn now who amount)
  | rated {t : State} {r : Nat} (h : Touched now s t) : Touched now s (t.rated now r)

theorem Touched.trans {now : Nat} {s t u : State} (h : Touched now s t) (h' : Touched now t u) :
    Touched now s u := by
  induction h' with
  | refl                      => exact h
  | supplied who amount _ ih  => exact .supplied who amount ih
  | withdrawn who amount _ ih => exact .withdrawn who amount ih
  | rated _ ih                => exact .rated ih

/-- Touched or not, a pool reads one index at one time. -/
theorem Touched.indexAt {now : Nat} {s t : State} (h : Touched now s t) : t.indexAt now = s.indexAt now := by
  induction h with
  | refl               => rfl
  | supplied _ _ _ ih  => exact State.indexAt_supplied.trans ih
  | withdrawn _ _ _ ih => exact State.indexAt_withdrawn.trans ih
  | rated _ ih         => exact State.indexAt_rated.trans ih

/-- **Calls leave the index where it was, or roll it to now.** -/
theorem Touched.rolls {now : Nat} {s t : State} (h : Touched now s t) :
    (t.index = s.index ∧ t.lastIndexTs = s.lastIndexTs) ∨
      (t.index = s.indexAt now ∧ t.lastIndexTs = max s.lastIndexTs now) := by
  -- a second roll at one time is idle
  have hroll : ∀ {u : State}, (u.index = s.index ∧ u.lastIndexTs = s.lastIndexTs) ∨
      (u.index = s.indexAt now ∧ u.lastIndexTs = max s.lastIndexTs now) →
      max u.lastIndexTs now = max s.lastIndexTs now := by
    rintro u (⟨_, hts⟩ | ⟨_, hts⟩)
    · rw [hts]
    · rw [hts, max_assoc, max_self]
  induction h with
  | refl               => exact Or.inl ⟨rfl, rfl⟩
  | supplied _ _ h ih  => exact Or.inr ⟨h.indexAt, hroll ih⟩
  | withdrawn _ _ h ih => exact Or.inr ⟨h.indexAt, hroll ih⟩
  | rated h ih         => exact Or.inr ⟨h.indexAt, hroll ih⟩

/-- A position is as it was, or was based just now. -/
theorem Touched.position {now : Nat} {s t : State} (h : Touched now s t) {x : Address} {pos : Position}
    (hp : t.position x = some pos) : s.position x = some pos ∨ pos.entryIndex = s.indexAt now := by
  have hbase : ∀ {u : State} {who : Address} {principal : Int}, Touched now s u →
      (u.position x = some pos → s.position x = some pos ∨ pos.entryIndex = s.indexAt now) →
      Function.update u.position who (some ⟨principal, u.indexAt now⟩) x = some pos →
      s.position x = some pos ∨ pos.entryIndex = s.indexAt now := by
    intro u who principal hu ih hp
    by_cases hx : x = who
    · subst hx
      rw [Function.update_self] at hp
      right
      rw [← Option.some.inj hp]
      exact hu.indexAt
    · rw [Function.update_of_ne hx] at hp
      exact ih hp
  induction h with
  | refl               => exact Or.inl hp
  | supplied _ _ h ih  => exact hbase h ih hp
  | withdrawn _ _ h ih => exact hbase h ih hp
  | rated _ ih         => exact ih hp

end YieldPool

open YieldPool (Touched)

variable {w w' : World} {a : Action} {p q token : Address} {c : Currency} {amount : Int}
  {s s' : YieldPool.State}

/-! ## Flows of the vault -/

/-- Every pool of `w'` was a pool of `w`, and calls made it what it is. -/
def PoolsTouched (w w' : World) : Prop :=
  ∀ q s', w'.pools q = some s' → ∃ s, w.pools q = some s ∧ Touched w.timestamp s s'

theorem PoolsTouched.of_eq (h : w'.pools = w.pools) : PoolsTouched w w' := by
  intro q s' hs
  rw [h] at hs
  exact ⟨s', hs, .refl⟩

theorem PoolsTouched.mapPool {f : YieldPool.State → YieldPool.State}
    (hf : ∀ s, Touched w.timestamp s (f s)) : PoolsTouched w (w.mapPool p f) := by
  intro q s' hs
  by_cases hq : q = p
  · subst hq
    cases hp : w.pools q with
    | none   => simp [World.mapPool, hp] at hs
    | some s =>
        rw [World.pools_mapPool_self hp] at hs
        rw [← Option.some.inj hs]
        exact ⟨s, rfl, hf s⟩
  · rw [World.pools_mapPool_ne hq] at hs
    exact ⟨s', hs, .refl⟩

theorem PoolsTouched.setPool (hp : w.pools p = some s) (ht : Touched w.timestamp s s') :
    PoolsTouched w (w.setPool p s') := by
  intro q t hs
  rw [World.pools_setPool] at hs
  by_cases hq : q = p
  · subst hq
    rw [Function.update_self] at hs
    rw [← Option.some.inj hs]
    exact ⟨s, hp, ht⟩
  · rw [Function.update_of_ne hq] at hs
    exact ⟨t, hs, .refl⟩

theorem PoolsTouched.supplied (c : Currency) : PoolsTouched w (w.supplied p c amount token) :=
  PoolsTouched.mapPool (w := w.setTokens _) (fun _ => .supplied _ _ .refl)

theorem PoolsTouched.pulled (c : Currency) : PoolsTouched w (w.pulled p c amount) :=
  PoolsTouched.mapPool (w := w.setTokens _) (fun _ => .withdrawn _ _ .refl)

theorem PoolsTouched.trans {w'' : World} (h : PoolsTouched w w') (ht : w'.timestamp = w.timestamp)
    (h' : PoolsTouched w' w'') : PoolsTouched w w'' := by
  intro q s'' hs
  obtain ⟨s', hs', htouch'⟩ := h' q s'' hs
  obtain ⟨s, hs, htouch⟩ := h q s' hs'
  rw [ht] at htouch'
  exact ⟨s, hs, htouch.trans htouch'⟩

theorem PoolsTouched.pulls {plan : List (Address × Int)} (h : w.WF) (hp : Vault.PullPlan w c plan) :
    PoolsTouched w (w.pulls c plan) := by
  refine (hp.invariant (I := fun v => PoolsTouched w v ∧ v.timestamp = w.timestamp) h
    ⟨.of_eq rfl, rfl⟩ ?_).1
  intro v q b _ _ _ hv
  exact ⟨hv.1.trans hv.2 (.pulled c), hv.2⟩

/-! ## Every step -/

/-- A deployment that took effect stored a freshly constructed pool at a free address. -/
theorem Step.deployed {id r : Nat} {admin : Address} (hs : Step w (.deployPool id admin token r) w') :
    w' = w ∨ (w.pools (.contract id) = none ∧
      ∃ s, YieldPool.construct w.timestamp admin token r = .ok s ∧ w' = w.setPool (.contract id) s) := by
  cases hs with
  | reverted _ => exact Or.inl rfl
  | done hx =>
      simp only [Action.exec, bind_eq_ok, failIf_eq_ok, ok_eq_ok, exists_const, not_or,
        Bool.not_eq_true, Option.isSome_eq_false_iff, Option.isNone_iff_eq_none] at hx
      obtain ⟨⟨_, hfree⟩, s, hc, rfl⟩ := hx
      exact Or.inr ⟨hfree, s, hc, rfl⟩

/-- **What a step does to a pool**: calls touched it, or it was deployed just now. -/
theorem Step.pool (h : w.WF) (hs : Step w a w') (hp : w'.pools p = some s') :
    (∃ s, w.pools p = some s ∧ Touched w.timestamp s s') ∨
      (w.pools p = none ∧ ∃ id admin token r, a = .deployPool id admin token r ∧ p = .contract id ∧
        YieldPool.construct w.timestamp admin token r = .ok s') := by
  by_cases hdep : ∃ id admin token r, a = .deployPool id admin token r
  · obtain ⟨id, admin, token, r, rfl⟩ := hdep
    rcases hs.deployed with rfl | ⟨hfree, s, hc, rfl⟩
    · exact Or.inl ⟨s', hp, .refl⟩
    · rw [World.pools_setPool] at hp
      by_cases hq : p = .contract id
      · subst hq
        rw [Function.update_self] at hp
        obtain rfl := Option.some.inj hp
        exact Or.inr ⟨hfree, id, admin, token, r, rfl, rfl, hc⟩
      · rw [Function.update_of_ne hq] at hp
        exact Or.inl ⟨s', hp, .refl⟩
  · left
    have hall : PoolsTouched w w' := by
      cases hs.effect h with
      | quiet _ q  => exact .of_eq q.pools
      | redeemed g => exact PoolsTouched.pulls (w := w.updateBucket _ _) (g.burned_wf h) (g.plan h)
      | @exited _ _ _ c e token g =>
          have hpull : PoolsTouched w (w.pulled e.fromPool c (w.position e.fromPool)) := .pulled c
          have hsupply : PoolsTouched (w.pulled e.fromPool c (w.position e.fromPool)) (w.exited c e token) :=
            .supplied c
          exact hpull.trans rfl hsupply
      | @allocated _ _ c _ _ g    => exact .supplied c
      | @deallocated _ _ c _ g    => exact .pulled c
      | poolSupplied hq _ _ _        => exact .setPool hq (.supplied _ _ .refl)
      | poolWithdrawn hq _ _ _ _ _   =>
          exact PoolsTouched.setPool (w := w.setTokens _) hq (.withdrawn _ _ .refl)
      | poolRated hq _               => exact .setPool hq (.rated .refl)
      | @deployed id admin token r _ _ _ _ _ _ => exact absurd ⟨id, admin, token, r, rfl⟩ hdep
      | _ => exact .of_eq rfl
    exact hall p s' hp

/-- Time never runs back. -/
theorem Step.timestamp_le (h : w.WF) (hs : Step w a w') : w.timestamp ≤ w'.timestamp := by
  cases hs.effect h with
  | quiet _ q       => exact le_of_eq q.timestamp.symm
  | redeemed g      => exact le_of_eq ((g.plan h).const (·.timestamp) (g.burned_wf h) (fun _ _ _ => rfl)).symm
  | advanced hle _  => exact hle
  | _               => exact le_refl _

/-- **Invariant rule for pools.** What holds of a pool when it is deployed, and is kept by calls and by
    time, holds of every pool of a run. -/
theorem Run.pools {P : Nat → YieldPool.State → Prop} {w₀ : World} {tr : List (Event World Action)}
    (hg : Genesis w₀)
    (hnew : ∀ now admin token r s, w₀.timestamp ≤ now →
      YieldPool.construct now admin token r = .ok s → P now s)
    (htouch : ∀ now s t, s.WF now → now ≤ u64Max → P now s → Touched now s t → P now t)
    (htime : ∀ now now' s, now ≤ now' → P now s → P now' s)
    (hr : Run Step w₀ tr w) (hp : w.pools p = some s) : P w.timestamp s := by
  have hstep : ∀ v a v', (v.WF ∧ w₀.timestamp ≤ v.timestamp ∧ ∀ q t, v.pools q = some t → P v.timestamp t) →
      Step v a v' →
      (v'.WF ∧ w₀.timestamp ≤ v'.timestamp ∧ ∀ q t, v'.pools q = some t → P v'.timestamp t) := by
    rintro v a v' ⟨hv, hclock, hall⟩ hs
    have hle : v.timestamp ≤ v'.timestamp := hs.timestamp_le hv
    refine ⟨hs.wf hv, le_trans hclock hle, fun q t hq => htime _ _ _ hle ?_⟩
    rcases hs.pool hv hq with ⟨t₀, ht₀, htt⟩ | ⟨_, _, _, _, _, _, _, hc⟩
    · exact htouch _ _ _ (hv.pool_wf q t₀ ht₀) hv.clock (hall q t₀ ht₀) htt
    · exact hnew _ _ _ _ _ hclock hc
  have hstart : w₀.WF ∧ w₀.timestamp ≤ w₀.timestamp ∧ ∀ q t, w₀.pools q = some t → P w₀.timestamp t :=
    ⟨hg.wf, le_refl _, fun q t hq => absurd hq (by rw [hg.no_pools]; simp)⟩
  exact (hr.invariant hstep hstart).2.2 p s hp

/-- A pool that a run has was there before, or deployed on the way. -/
theorem Run.pool_deployed {w₀ : World} {tr : List (Event World Action)} (h : w₀.WF) (hr : Run Step w₀ tr w)
    (hnew : w₀.pools p = none) (hp : (w.pools p).isSome = true) :
    ∃ e ∈ tr, ∃ id admin token r, e.label = .deployPool id admin token r ∧ p = .contract id := by
  have hev := run_events h hr
  obtain ⟨e, he, hpre, hpost⟩ := hr.exists_entry (P := fun v => (v.pools p).isSome = true) (by simp [hnew]) hp
  obtain ⟨s', hs'⟩ := Option.isSome_iff_exists.mp hpost
  rcases (hev e he).2.1.pool (hev e he).1 hs' with ⟨s, hold, _⟩ | ⟨_, id, admin, token, r, ha, hpc, _⟩
  · exact absurd (by rw [hold]; rfl) hpre
  · exact ⟨e, he, id, admin, token, r, ha, hpc⟩

/-- Only finitely many addresses host a pool. -/
theorem pools_finite (hr : Reachable Genesis Step w) : {p | (w.pools p).isSome = true}.Finite := by
  refine hr.induct (P := fun v => {p | (v.pools p).isSome = true}.Finite) ?_ ?_
  · intro v hg
    simp [hg.no_pools]
  · intro v a v' hv ih hs
    -- at most the address of this deployment is new
    refine (ih.union (Set.finite_singleton (match a with
      | .deployPool id _ _ _ => Address.contract id
      | _                    => vaultAddress))).subset ?_
    intro q hq
    obtain ⟨s', hs'⟩ := Option.isSome_iff_exists.mp hq
    rcases hs.pool (reachable_wf hv) hs' with ⟨s, hs, _⟩ | ⟨_, id, _, _, _, rfl, rfl, _⟩
    · exact Or.inl (by rw [Set.mem_ofPred_eq, hs]; rfl)
    · exact Or.inr rfl

end SoroSense
