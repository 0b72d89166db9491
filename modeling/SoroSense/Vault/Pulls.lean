import SoroSense.Vault.Flows
import SoroSense.Lib.Drain
import SoroSense.Lib.Transition

/-!
# `Vault.Pulls` — the pull loop

`pull_from_pools` walks the pool list and takes from each pool the smaller of what the vault holds there
and what is still needed: it runs the greedy plan `Drain.takes`. A plan is a run of pulls (`PullPlan.run`),
so what a plan does follows from what one pull does.

`pullFromPools_eq_ok` is the loop's **iff**: it returns exactly when the positions cover the need and
every pool the plan visits can pay its take out of its own liquidity.
-/

namespace SoroSense

open Fallible Sums Transition

/-! ## Plans -/

namespace World

/-- Pull along a plan. -/
def pulls (w : World) (c : Currency) (plan : List (Address × Int)) : World :=
  plan.foldl (fun w x => w.pulled x.1 c x.2) w

@[simp] theorem pulls_nil (w : World) (c : Currency) : w.pulls c [] = w := rfl

@[simp] theorem pulls_cons (w : World) (c : Currency) (x : Address × Int) (plan : List (Address × Int)) :
    w.pulls c (x :: plan) = (w.pulled x.1 c x.2).pulls c plan := rfl

end World

namespace Vault

/-- A plan every step of which will find its guard. -/
structure PullPlan (w : World) (c : Currency) (plan : List (Address × Int)) : Prop where
  distinct  : (plan.map Prod.fst).Nodup
  pos       : ∀ x ∈ plan, 0 < x.2
  priced    : ∀ x ∈ plan, w.Priced x.1
  covered   : ∀ x ∈ plan, x.2 ≤ w.position x.1
  liquid    : ∀ x ∈ plan, x.2 ≤ w.liquidity x.1
  idle_fits : I128.Fits ((w.bucket c).totalAssets + Drain.total plan)

/-- One pull of a plan. -/
def PullStep (c : Currency) (w : World) (x : Address × Int) (w' : World) : Prop :=
  w.WF ∧ PullGuard w x.1 c x.2 ∧ w.pulled x.1 c x.2 = w'

variable {w w' : World} {p q : Address} {c d : Currency} {a : Int} {plan : List (Address × Int)}

/-! ## What one flow does to the other pools -/

theorem priced_pulled_ne (h : q ≠ p) : (w.pulled p c a).Priced q ↔ w.Priced q :=
  World.priced_congr rfl (World.pools_pulled_ne h)

/-- The pool itself stays priced. -/
theorem priced_pulled (h : w.WF) (g : PullGuard w p c a) : (w.pulled p c a).Priced q ↔ w.Priced q := by
  by_cases hq : q = p
  · subst hq
    obtain ⟨s, hs, hpr⟩ := g.priced
    have hcov := g.covered
    rw [World.position_of_some hs] at hcov
    refine ⟨fun _ => g.priced, fun _ => ⟨s.withdrawn w.timestamp vaultAddress a, ?_, ?_⟩⟩
    · rw [World.pulled_eq hs]
      simp [World.pools_setPool]
    · exact YieldPool.priced_withdrawn ((h.pool_wf q s hs).withdrawn h.clock g.pos hcov hpr) h.clock
  · exact priced_pulled_ne hq

/-- A supplied pool stays priced, and so do the others. -/
theorem priced_supplied {token : Address} (h : w.WF) (g : SupplyGuard w p c a token) :
    (w.supplied p c a token).Priced q ↔ w.Priced q := by
  by_cases hq : q = p
  · subst hq
    obtain ⟨s, hs, _⟩ := g.priced
    have hv := g.value_fits
    rw [World.position_of_some hs] at hv
    refine ⟨fun _ => g.priced, fun _ => ⟨s.supplied w.timestamp vaultAddress a, ?_, ?_⟩⟩
    · rw [World.supplied_eq hs]
      simp [World.pools_setPool]
    · exact YieldPool.priced_supplied ((h.pool_wf q s hs).supplied h.clock g.pos hv (g.total_fits s hs))
        h.clock
  · exact World.priced_congr rfl (World.pools_supplied_ne hq)

/-- A pull leaves the liquidity of the other pools alone. -/
theorem liquidity_pulled_ne (h : w.WF) (hq : q ≠ p) : (w.pulled p c a).liquidity q = w.liquidity q := by
  unfold World.liquidity
  rw [World.pools_pulled_ne hq]
  cases hs : w.pools q with
  | none   => rfl
  | some s => exact Tokens.move_of_ne s.token hq (h.pool_ne_vault hs)

/-- A pull pays out of the pool it pulls from. -/
theorem liquidity_pulled (h : w.WF) (g : PullGuard w p c a) :
    (w.pulled p c a).liquidity p = w.liquidity p - a := by
  obtain ⟨s, hs⟩ := Option.isSome_iff_exists.mp g.hosted
  have hne : p ≠ vaultAddress := h.pool_ne_vault hs
  have hs' : (w.pulled p c a).pools p = some (s.withdrawn w.timestamp vaultAddress a) := by
    rw [World.pulled_eq hs]
    simp [World.pools_setPool]
  have hpays : w.tokens.move s.token p vaultAddress a s.token p = w.tokens s.token p - a := by
    rw [Tokens.move_apply]
    simp [hne]
  rw [World.liquidity_of_some hs, World.liquidity_of_some hs', World.tokens_pulled, World.poolToken_of_some hs]
  exact hpays

/-! ## A plan is a run of pulls -/

theorem PullPlan.head (h : w.WF) (hp : PullPlan w c ((p, a) :: plan)) : PullGuard w p c a := by
  have hmem : (p, a) ∈ (p, a) :: plan := List.mem_cons_self
  have htot : 0 ≤ Drain.total plan := by
    refine List.sum_nonneg ?_
    intro y hy
    obtain ⟨x, hx, rfl⟩ := List.mem_map.mp hy
    exact le_of_lt (hp.pos x (List.mem_cons_of_mem _ hx))
  have hfit := hp.idle_fits
  rw [Drain.total_cons, ← add_assoc] at hfit
  have h₀ := (h.bucket_wf c).assets_nonneg
  have ha : 0 < a := hp.pos _ hmem
  exact ⟨ha, hp.priced _ hmem, hp.covered _ hmem, hp.liquid _ hmem, hfit.of_nonneg (by omega) (by omega)⟩

theorem PullPlan.tail (h : w.WF) (hp : PullPlan w c ((p, a) :: plan)) :
    PullPlan (w.pulled p c a) c plan := by
  obtain ⟨hnot, hnd⟩ := List.nodup_cons.mp hp.distinct
  have hne : ∀ x ∈ plan, x.1 ≠ p := fun x hx he => hnot (List.mem_map.mpr ⟨x, hx, he⟩)
  have hmem : ∀ x ∈ plan, x ∈ (p, a) :: plan := fun x hx => List.mem_cons_of_mem _ hx
  refine ⟨hnd, fun x hx => hp.pos x (hmem x hx), ?_, ?_, ?_, ?_⟩
  · intro x hx
    exact (priced_pulled_ne (hne x hx)).mpr (hp.priced x (hmem x hx))
  · intro x hx
    rw [World.position_pulled_ne (hne x hx)]
    exact hp.covered x (hmem x hx)
  · intro x hx
    rw [liquidity_pulled_ne h (hne x hx)]
    exact hp.liquid x (hmem x hx)
  · have hfit := hp.idle_fits
    rw [Drain.total_cons, ← add_assoc] at hfit
    rw [World.bucket_pulled, if_pos rfl]
    exact hfit

/-- **A plan is a run**, and its labels are the plan. -/
theorem PullPlan.run : ∀ {plan : List (Address × Int)} {w : World}, w.WF → PullPlan w c plan →
    ∃ tr, Run (PullStep c) w tr (w.pulls c plan) ∧ tr.map Event.label = plan := by
  intro plan
  induction plan with
  | nil => intro w _ _; exact ⟨[], .nil w, rfl⟩
  | cons x plan ih =>
      intro w h hp
      obtain ⟨p, a⟩ := x
      have g := hp.head h
      obtain ⟨tr, hr, hlab⟩ := ih (h.pulled g) (hp.tail h)
      exact ⟨⟨w, (p, a), w.pulled p c a⟩ :: tr, .cons ⟨h, g, rfl⟩ hr, by rw [List.map_cons, hlab]⟩

/-- **Invariant rule for plans.** What every pull of the plan preserves, the plan preserves. -/
theorem PullPlan.invariant {I : World → Prop} (h : w.WF) (hp : PullPlan w c plan) (hI : I w)
    (hstep : ∀ v p a, v.WF → PullGuard v p c a → (p, a) ∈ plan → I v → I (v.pulled p c a)) :
    I (w.pulls c plan) := by
  obtain ⟨tr, hr, hlab⟩ := hp.run h
  have hr' := hr.restrict (Q := (· ∈ plan)) (fun e he => by
    rw [← hlab]; exact List.mem_map.mpr ⟨e, he, rfl⟩)
  refine hr'.invariant (P := I) ?_ hI
  rintro v ⟨p, a⟩ v' hv ⟨⟨hw, g, rfl⟩, hx⟩
  exact hstep v p a hw g hx hv

/-- The pulls of a plan, one by one, with what the invariant says where each of them starts. -/
theorem PullPlan.events {I : World → Prop} (h : w.WF) (hp : PullPlan w c plan) (hI : I w)
    (hstep : ∀ v p a, v.WF → PullGuard v p c a → (p, a) ∈ plan → I v → I (v.pulled p c a)) :
    ∃ tr, Run (PullStep c) w tr (w.pulls c plan) ∧ tr.map Event.label = plan ∧
      ∀ e ∈ tr, e.pre.WF ∧ PullGuard e.pre e.label.1 c e.label.2 ∧ e.label ∈ plan ∧ I e.pre ∧
        e.pre.pulled e.label.1 c e.label.2 = e.post := by
  obtain ⟨tr, hr, hlab⟩ := hp.run h
  have hr' := hr.restrict (Q := (· ∈ plan)) (fun e he => by
    rw [← hlab]; exact List.mem_map.mpr ⟨e, he, rfl⟩)
  have hev := hr'.invariant_events (P := I) (by
    rintro v ⟨p, a⟩ v' hv ⟨⟨hw, g, rfl⟩, hx⟩
    exact hstep v p a hw g hx hv) hI
  refine ⟨tr, hr, hlab, fun e he => ?_⟩
  obtain ⟨hpre, ⟨⟨hw, g, hpost⟩, hx⟩, _⟩ := hev e he
  exact ⟨hw, g, hx, hpre, hpost⟩

/-- **Sum rule for plans.** What every pull of the plan moves by an amount of its own, the plan moves by
    their sum; `I` is what the pulls may assume of the states on the way. -/
theorem PullPlan.sum {I : World → Prop} {f : World → Int} {g : Address × Int → Int} (h : w.WF)
    (hp : PullPlan w c plan) (hI : I w)
    (hstep : ∀ v p a, v.WF → PullGuard v p c a → (p, a) ∈ plan → I v → I (v.pulled p c a))
    (hf : ∀ v p a, v.WF → PullGuard v p c a → (p, a) ∈ plan → I v →
      f (v.pulled p c a) = f v + g (p, a)) :
    f (w.pulls c plan) = f w + (plan.map g).sum := by
  obtain ⟨tr, hr, hlab, hev⟩ := hp.events h hI hstep
  have hsum := hr.sum_eq f (fun e => g e.label) (fun e he => by
    obtain ⟨hw, hg, hx, hpre, hpost⟩ := hev e he
    rw [← hpost]
    exact hf _ _ _ hw hg hx hpre)
  rw [hsum, ← hlab, List.map_map]
  rfl

/-- The same, for bounds. -/
theorem PullPlan.sum_le {f : World → Int} {g : Address × Int → Int} (h : w.WF) (hp : PullPlan w c plan)
    (hf : ∀ v p a, v.WF → PullGuard v p c a → f (v.pulled p c a) ≤ f v + g (p, a)) :
    f (w.pulls c plan) ≤ f w + (plan.map g).sum := by
  obtain ⟨tr, hr, hlab, hev⟩ := hp.events (I := fun _ => True) h trivial (fun _ _ _ _ _ _ _ => trivial)
  have hsum := hr.sum_le f (fun e => g e.label) (fun e he => by
    obtain ⟨hw, hg, _, _, hpost⟩ := hev e he
    rw [← hpost]
    exact hf _ _ _ hw hg)
  have hmap : plan.map g = tr.map fun e => g e.label := by
    rw [← hlab, List.map_map]
    rfl
  rw [hmap]
  exact hsum

/-- What no pull changes, a plan does not change. -/
theorem PullPlan.const {β : Type} (f : World → β) (h : w.WF) (hp : PullPlan w c plan)
    (hf : ∀ v p a, f (v.pulled p c a) = f v) : f (w.pulls c plan) = f w :=
  hp.invariant (I := fun v => f v = f w) h rfl (fun v p a _ _ _ hv => (hf v p a).trans hv)

theorem PullPlan.wf (h : w.WF) (hp : PullPlan w c plan) : (w.pulls c plan).WF :=
  hp.invariant h h (fun _ _ _ hv g _ _ => hv.pulled g)

theorem priced_pulls (h : w.WF) (hp : PullPlan w c plan) : (w.pulls c plan).Priced q ↔ w.Priced q :=
  hp.invariant (I := fun v => v.Priced q ↔ w.Priced q) h Iff.rfl
    (fun _ _ _ hv g _ hI => (priced_pulled hv g).trans hI)

/-! ## What a plan does -/

theorem bucket_pulled_ne (h : d ≠ c) : (w.pulled p c a).bucket d = w.bucket d := by
  rw [World.bucket_pulled, if_neg h]

/-- A field of the buckets that no pull writes. -/
theorem bucketField_pulls {β : Type} (f : Bucket → β) (h : w.WF) (hp : PullPlan w c plan)
    (hf : ∀ b p a e, f (Bucket.pulled b p a e) = f b) :
    f ((w.pulls c plan).bucket d) = f (w.bucket d) :=
  hp.const (fun v => f (v.bucket d)) h (fun _ _ _ => World.bucketField_pulled f (hf _ _ _))

theorem bucket_pulls_ne (h : w.WF) (hp : PullPlan w c plan) (hd : d ≠ c) :
    (w.pulls c plan).bucket d = w.bucket d :=
  hp.const (fun v => v.bucket d) h (fun _ _ _ => bucket_pulled_ne hd)

theorem shares_pulls (h : w.WF) (hp : PullPlan w c plan) :
    ((w.pulls c plan).bucket d).shares = (w.bucket d).shares :=
  bucketField_pulls Bucket.shares h hp (fun _ _ _ _ => rfl)

theorem totalShares_pulls (h : w.WF) (hp : PullPlan w c plan) :
    ((w.pulls c plan).bucket d).totalShares = (w.bucket d).totalShares :=
  bucketField_pulls Bucket.totalShares h hp (fun _ _ _ _ => rfl)

theorem token_pulls (h : w.WF) (hp : PullPlan w c plan) :
    ((w.pulls c plan).bucket d).token = (w.bucket d).token :=
  bucketField_pulls Bucket.token h hp (fun _ _ _ _ => rfl)

theorem totalAssets_pulls (h : w.WF) (hp : PullPlan w c plan) :
    ((w.pulls c plan).bucket c).totalAssets = (w.bucket c).totalAssets + Drain.total plan :=
  hp.sum (I := fun _ => True) (f := fun v => (v.bucket c).totalAssets) (g := Prod.snd) h trivial
    (fun _ _ _ _ _ _ _ => trivial) (fun v p a _ _ _ _ => by rw [World.bucket_pulled, if_pos rfl]; rfl)

/-- **A plan lowers each position by what it takes there.** -/
theorem position_pulls (h : w.WF) (hp : PullPlan w c plan) (q : Address) :
    (w.pulls c plan).position q = w.position q - Drain.taken plan q := by
  have hsum := hp.sum (I := fun _ => True) (f := fun v => -v.position q)
    (g := fun x => if x.1 = q then x.2 else 0) h trivial (fun _ _ _ _ _ _ _ => trivial)
    (fun v p a _ g _ _ => by
      rw [World.position_pulled g.hosted g.covered]
      by_cases hq : q = p
      · subst hq; simp only [if_true]; ring
      · rw [if_neg hq, if_neg (Ne.symm hq)]; ring)
  unfold Drain.taken
  omega

/-- A plan pays out of each pool what it takes there. -/
theorem liquidity_pulls (h : w.WF) (hp : PullPlan w c plan) (q : Address) :
    (w.pulls c plan).liquidity q = w.liquidity q - Drain.taken plan q := by
  have hsum := hp.sum (I := fun _ => True) (f := fun v => -v.liquidity q)
    (g := fun x => if x.1 = q then x.2 else 0) h trivial (fun _ _ _ _ _ _ _ => trivial)
    (fun v p a hv g _ _ => by
      by_cases hq : q = p
      · subst hq; rw [liquidity_pulled hv g]; simp only [if_true]; ring
      · rw [liquidity_pulled_ne hv hq, if_neg (Ne.symm hq)]; ring)
  unfold Drain.taken
  omega

/-- What a plan takes out of the pools another bucket lists too, that bucket loses. -/
theorem navOf_pulls_ne (h : w.WF) (hp : PullPlan w c plan) (hd : d ≠ c) :
    (w.pulls c plan).navOf d
      = w.navOf d - (plan.map fun x => if x.1 ∈ (w.bucket d).poolList then x.2 else 0).sum := by
  have hsum := hp.sum (I := fun v => v.bucket d = w.bucket d) (f := fun v => -v.navOf d)
    (g := fun x => if x.1 ∈ (w.bucket d).poolList then x.2 else 0) h rfl
    (fun _ _ _ _ _ _ hv => (bucket_pulled_ne hd).trans hv)
    (fun v p a hw g _ hv => by
      rw [World.navOf_pulled hw g, if_neg hd, hv]
      ring)
  omega

/-- What one pull delists: the pool it empties. -/
theorem mem_poolList_pulled (h : w.WF) :
    q ∈ ((w.pulled p c a).bucket c).poolList ↔
      q ∈ (w.bucket c).poolList ∧ ¬ (q = p ∧ w.position p = a) := by
  rw [World.bucket_pulled, if_pos rfl]
  simp only [Bucket.pulled]
  by_cases he : w.position p = a
  · simp only [he, decide_true, if_true, and_true]
    rw [(h.bucket_wf c).list_nodup.mem_erase_iff, and_comm]
  · simp [he]

/-- **What a plan delists**: the pools it empties. -/
theorem mem_poolList_pulls : ∀ {plan : List (Address × Int)} {w : World}, w.WF → PullPlan w c plan →
    (q ∈ ((w.pulls c plan).bucket c).poolList ↔
      q ∈ (w.bucket c).poolList ∧ (q, w.position q) ∉ plan) := by
  intro plan
  induction plan with
  | nil => intro w _ _; simp
  | cons x plan ih =>
      intro w h hp
      obtain ⟨p, a⟩ := x
      obtain ⟨hnot, _⟩ := List.nodup_cons.mp hp.distinct
      rw [World.pulls_cons, ih (h.pulled (hp.head h)) (hp.tail h), mem_poolList_pulled h, List.mem_cons]
      by_cases hq : q = p
      · subst hq
        have hgone : ∀ b, (q, b) ∉ plan := fun b hb => hnot (List.mem_map.mpr ⟨_, hb, rfl⟩)
        simp [hgone]
      · rw [World.position_pulled_ne hq]
        simp [hq]

/-- **What a plan does to the active pool**: cleared when the plan empties it, kept otherwise. -/
theorem activePool_pulls : ∀ {plan : List (Address × Int)} {w : World}, w.WF → PullPlan w c plan →
    ((w.pulls c plan).bucket c).activePool
      = (w.bucket c).activePool.filter (fun q => decide ((q, w.position q) ∉ plan)) := by
  intro plan
  induction plan with
  | nil => intro w _ _; cases hact : (w.bucket c).activePool <;> simp [hact, Option.filter_some]
  | cons x plan ih =>
      intro w h hp
      obtain ⟨p, a⟩ := x
      obtain ⟨hnot, _⟩ := List.nodup_cons.mp hp.distinct
      have hgone : ∀ b, (p, b) ∉ plan := fun b hb => hnot (List.mem_map.mpr ⟨_, hb, rfl⟩)
      rw [World.pulls_cons, ih (h.pulled (hp.head h)) (hp.tail h), World.bucket_pulled, if_pos rfl]
      simp only [Bucket.pulled, decide_eq_true_eq]
      cases hact : (w.bucket c).activePool with
      | none   => simp
      | some q =>
          by_cases hq : q = p
          · subst hq
            by_cases he : w.position q = a
            · simp [Option.filter_some, he]
            · simp [Option.filter_some, he, hgone]
          · simp [Option.filter_some, hq, World.position_pulled_ne hq]

/-! ## The loop runs the plan -/

/-- The plan of pulling `d` from the pools `l` is sound as soon as every visited pool can pay. -/
theorem pullPlan_takes {l : List Address} {need : Int} (hl : l.Nodup)
    (hpr : ∀ p ∈ l, w.Priced p) (hliq : ∀ x ∈ Drain.takes w.position l need, x.2 ≤ w.liquidity x.1)
    (hfit : I128.Fits ((w.bucket c).totalAssets + Drain.total (Drain.takes w.position l need))) :
    PullPlan w c (Drain.takes w.position l need) where
  distinct := Drain.takes_fst_nodup hl
  pos _ hx := (Drain.mem_takes hx).2.1
  priced _ hx := hpr _ (Drain.mem_takes hx).1
  covered _ hx := (Drain.mem_takes hx).2.2
  liquid := hliq
  idle_fits := hfit

/-- **`pull_from_pools`' loop, read both ways**: over priced pools it returns exactly when every pool its
    plan visits can pay its take, and then it has run the plan. -/
theorem pullLoop_eq_ok : ∀ {l : List Address} {need r : Int} {w : World}, w.WF → l.Nodup →
    (∀ p ∈ l, w.Priced p) → 0 ≤ need → I128.Fits need →
    (pullLoop c l need w = .ok (r, w') ↔
      (∀ x ∈ Drain.takes w.position l need, x.2 ≤ w.liquidity x.1) ∧
        I128.Fits ((w.bucket c).totalAssets + Drain.total (Drain.takes w.position l need)) ∧
        need - Drain.total (Drain.takes w.position l need) = r ∧
        w.pulls c (Drain.takes w.position l need) = w') := by
  intro l
  induction l with
  | nil =>
      intro need r w h _ _ _ _
      have hf := (h.bucket_wf c).assets_fits
      simp [pullLoop, Drain.takes, hf]
  | cons p l ih =>
      intro need r w h hnd hpr hn hfit
      obtain ⟨hp, hl⟩ := List.nodup_cons.mp hnd
      have hprp := hpr p List.mem_cons_self
      have hprl : ∀ q ∈ l, w.Priced q := fun q hq => hpr q (List.mem_cons_of_mem _ hq)
      rcases Drain.takes_cases w.position p l need with ⟨hd, he⟩ | ⟨hd, hb, he⟩ | ⟨hd, hb, he⟩
      · -- the need is met: the loop breaks
        have hf := (h.bucket_wf c).assets_fits
        rw [he]
        simp [pullLoop, hd, hf]
      · -- an empty pool is skipped
        rw [he, ← ih h hl hprl hn hfit]
        simp only [pullLoop, if_neg (not_le.mpr hd), PoolClient.balance_of_priced hprp, bind_eq_ok,
          ok_eq_ok, exists_eq_left', if_pos hb]
      · -- a pool is pulled, then the rest of the plan is run from there
        have htake : (if w.position p < need then w.position p else need) = min (w.position p) need := by
          split <;> omega
        have hne : ∀ q ∈ l, q ≠ p := fun q hq hqp => hp (hqp ▸ hq)
        have hrest : ∀ n, Drain.takes (w.pulled p c (min (w.position p) need)).position l n
            = Drain.takes w.position l n :=
          fun n => Drain.takes_congr (fun q hq => World.position_pulled_ne (hne q hq))
        have hmin : 0 ≤ need - min (w.position p) need := by omega
        have hsub : I128.Fits (need - min (w.position p) need) := hfit.of_nonneg hmin (by omega)
        have hassets : ((w.pulled p c (min (w.position p) need)).bucket c).totalAssets
            = (w.bucket c).totalAssets + min (w.position p) need := by
          rw [World.bucket_pulled, if_pos rfl]; rfl
        have hliq : ∀ x ∈ Drain.takes w.position l (need - min (w.position p) need),
            (w.pulled p c (min (w.position p) need)).liquidity x.1 = w.liquidity x.1 :=
          fun x hx => liquidity_pulled_ne h (hne _ (Drain.mem_takes hx).1)
        rw [he]
        simp only [pullLoop, if_neg (not_le.mpr hd), PoolClient.balance_of_priced hprp, bind_eq_ok,
          ok_eq_ok, exists_eq_left', if_neg (not_le.mpr hb), htake, withdrawFromPool_eq_ok h,
          I128.sub_eq_ok, List.forall_mem_cons, Drain.total_cons, World.pulls_cons]
        constructor
        · rintro ⟨_, ⟨g, rfl⟩, _, ⟨_, rfl⟩, hloop⟩
          obtain ⟨hl', hf', rfl, rfl⟩ := (ih (h.pulled g) hl
            (fun q hq => (priced_pulled_ne (hne q hq)).mpr (hprl q hq)) hmin hsub).mp hloop
          rw [hrest] at hl' hf' ⊢
          rw [hassets, add_assoc] at hf'
          refine ⟨⟨g.liquid, fun x hx => ?_⟩, hf', ?_, rfl⟩
          · rw [← hliq x hx]
            exact hl' x hx
          · omega
        · rintro ⟨⟨hlp, hll⟩, hf, rfl, rfl⟩
          have hplan : PullPlan w c (Drain.takes w.position (p :: l) need) := by
            refine pullPlan_takes hnd hpr ?_ ?_
            · rw [he, List.forall_mem_cons]
              exact ⟨hlp, hll⟩
            · rw [he, Drain.total_cons]
              exact hf
          rw [he] at hplan
          have g := hplan.head h
          refine ⟨_, ⟨g, rfl⟩, _, ⟨hsub, rfl⟩, ?_⟩
          rw [ih (h.pulled g) hl (fun q hq => (priced_pulled_ne (hne q hq)).mpr (hprl q hq)) hmin hsub,
            hrest, hassets, add_assoc]
          refine ⟨fun x hx => ?_, hf, by omega, rfl⟩
          rw [hliq x hx]
          exact hll x hx

/-- **`pull_from_pools`, read both ways.** -/
theorem pullFromPools_eq_ok (h : w.WF) {need : Int} (hpr : ∀ p ∈ (w.bucket c).poolList, w.Priced p)
    (hn : 0 ≤ need) (hfit : I128.Fits need) :
    pullFromPools w c need = .ok w' ↔
      need ≤ ((w.bucket c).poolList.map w.position).sum ∧
        (∀ x ∈ Drain.takes w.position (w.bucket c).poolList need, x.2 ≤ w.liquidity x.1) ∧
        I128.Fits ((w.bucket c).totalAssets + need) ∧
        w.pulls c (Drain.takes w.position (w.bucket c).poolList need) = w' := by
  have hsum := Drain.sum_takes (b := w.position) (l := (w.bucket c).poolList)
    (fun p _ => h.position_nonneg p) hn
  simp only [pullFromPools, bind_eq_ok, Prod.exists, failIf_eq_ok, exists_const, ok_eq_ok, not_lt,
    pullLoop_eq_ok h (h.bucket_wf c).list_nodup hpr hn hfit]
  rw [hsum]
  constructor
  · rintro ⟨_, _, ⟨hliq, hf, rfl, rfl⟩, hr, rfl⟩
    have hle : need ≤ ((w.bucket c).poolList.map w.position).sum := by omega
    rw [min_eq_left hle] at hf
    exact ⟨hle, hliq, hf, rfl⟩
  · rintro ⟨hle, hliq, hf, rfl⟩
    rw [min_eq_left hle]
    exact ⟨_, _, ⟨hliq, hf, rfl, rfl⟩, by omega, rfl⟩

end Vault
end SoroSense
