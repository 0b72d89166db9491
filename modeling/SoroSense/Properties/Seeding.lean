import SoroSense.Backend.RunnerSpec
import SoroSense.Properties.SharePrice

/-!
# `Properties.Seeding` — the first allocation of a bucket

"Initial allocation always proceeds": a bucket no pool holds anything of, with enough idle and a usable
best pool, is to end a tick with the amount moved into that pool.

The decision is there, but it is a rebalance whose source is its target, and the effect of a rebalance
pulls before it places. The vault has nothing booked to pull, so `deallocate` never succeeds, and a write
the vault refuses throws. `seeding_allocates_iff` is the exact condition: the pull has to come back without
success instead.
-/

namespace SoroSense
namespace Backend

open Session KeeperRunner Transition

variable {k : KeeperRunner} {c : Currency} {input : RunTickInput} {best : Candidate} {p : SoroSense.Address}
  {m : Int} {s : Live} {store : BucketStore}

/-- An unallocated bucket with an amount to move and a best pool to move it to. -/
structure ReadyToSeed (k : KeeperRunner) (c : Currency) (input : RunTickInput) (best : Candidate)
    (p : SoroSense.Address) (m : Int) (w : World) : Prop where
  reachable : Reachable Genesis Step w
  unbooked  : ∀ q, (w.bucket c).poolHoldings q = 0
  inactive  : Vault.activePool w c = none
  no_exit   : Vault.pendingExit w c = none
  top       : bestOf input.candidates none = some best
  names     : k.client.Names best.poolId p
  amount    : (k.moveAmount.map fun moveAmount => moveAmount w c best.poolId) = some (.ok m)
  pos       : 0 < m
  own       : input.effects = none

/-- A bucket that lists no pool is such a one, where every pool serves one currency. -/
theorem unallocated_of_unlisted {home : SoroSense.Address → Currency} {w : World} (h : w.WF)
    (hi : Home.Inv home w) (hl : (w.bucket c).poolList = []) :
    (∀ q, (w.bucket c).poolHoldings q = 0) ∧ Vault.activePool w c = none := by
  have hnone : ∀ q, q ∉ (w.bucket c).poolList := by
    intro q
    rw [hl]
    exact List.not_mem_nil
  constructor
  · intro q
    by_contra hq
    -- what is booked in a pool is there, and such a pool is listed
    have hbooked : 0 < (w.bucket c).poolHoldings q :=
      lt_of_le_of_ne ((h.bucket_wf c).holdings_nonneg q) (Ne.symm hq)
    have hpos : 0 < w.position q := lt_of_lt_of_le hbooked (hi.booked_le c q)
    exact hnone q ((hi.listed_iff c q).mpr ⟨hi.booked_home c q hq, hpos⟩)
  · cases hact : Vault.activePool w c with
    | none   => rfl
    | some p => exact absurd (hi.active_listed c p hact) (hnone p)

/-- Exactly `m` moved from idle into `p`, which is active. -/
structure Allocated (c : Currency) (p : SoroSense.Address) (m : Int) (w w' : World) : Prop where
  active : Vault.activePool w' c = some p
  idle   : Vault.idle w' c = Vault.idle w c - m
  booked : (w'.bucket c).poolHoldings p = (w.bucket c).poolHoldings p + m
  value  : w'.position p = w.position p + m

/-- The pull comes back without success, and the placement after it succeeds. -/
def PullOverlooked (k : KeeperRunner) (c : Currency) (pool : PoolId) (m : Int) (s : Live) : Prop :=
  ∃ t u, (k.submit (k.client.deallocate pool c m)).run s = .ok ⟨false⟩ t ∧
    (k.submit (k.client.allocate pool c m)).run t = .ok ⟨true⟩ u

/-- **Seeding is decided**, as a rebalance from the best pool into itself. -/
theorem decision_of_unallocated (hbest : bestOf input.candidates none = some best)
    (hactive : store.active c = none) (hpending : store.pending c = false) (now : ℚ) :
    k.decision c input now store = .rebalance c best.poolId best.poolId := by
  apply classifyBucket_eq_rebalance.mpr
  have hnone : ((k.tickContext c input).classifyInput (some now) store).activePool = none := hactive
  refine ⟨hpending, ClassifyInput.anomalous_of_unallocated hnone, rfl, best, ?_, ?_, rfl⟩
  · apply ClassifyInput.switchTarget_eq_some.mpr
    refine ⟨hbest, ?_, ClassifyInput.shouldRebalance_of_unallocated hnone⟩
    rw [hnone]
    simp
  · rw [hnone]
    rfl

/-- **The vault has nothing to pull.** -/
theorem not_landing_deallocate (hr : ReadyToSeed k c input best p m s.world) {t : Live} (ht : t.world = s.world)
    {call : Vault.Call} {w : World} : ¬ k.Landing (k.client.deallocate best.poolId c m) t call w := by
  intro hl
  obtain ⟨q, signer, _, _, _, hx⟩ := hl.poolWrite
  rw [ht] at hx
  have hbooked := ((Vault.deallocate_eq_ok (reachable_wf hr.reachable)).mp hx).1.booked
  rw [hr.unbooked q] at hbooked
  exact absurd hr.pos (not_lt.mpr hbooked)

/-- **A placement that succeeds** moves exactly its amount. -/
theorem allocated_of_landing (hr : ReadyToSeed k c input best p m s.world) {t : Live} (ht : t.world = s.world)
    {call : Vault.Call} {w : World} (hl : k.Landing (k.client.allocate best.poolId c m) t call w) :
    Allocated c p m s.world w := by
  obtain ⟨q, signer, hq, _, _, hx⟩ := hl.poolWrite
  obtain rfl := k.client.names_unique hr.names hq
  rw [ht] at hx
  have hwf := reachable_wf hr.reachable
  obtain ⟨token, g, rfl⟩ := (Vault.allocate_eq_ok hwf).mp hx
  have hb : ((s.world.supplied p c m token).bucket c) = (s.world.bucket c).supplied p m := by
    rw [World.bucket_supplied, if_pos rfl]
  constructor
  · show ((s.world.supplied p c m token).bucket c).activePool = some p
    rw [hb]
    rfl
  · show ((s.world.supplied p c m token).bucket c).totalAssets = _
    rw [hb]
    rfl
  · show ((s.world.supplied p c m token).bucket c).poolHoldings p = _
    rw [hb]
    exact Function.update_self ..
  · show (s.world.supplied p c m token).position p = _
    rw [World.position_supplied hwf.toPoolsWF g.supplies.hosted hr.pos, if_pos rfl]

/-- A chain that did not move allocates nothing. -/
theorem not_allocated_of_eq (hr : ReadyToSeed k c input best p m s.world) {w : World} (hw : w = s.world) :
    ¬ Allocated c p m s.world w := by
  intro h
  have hactive := h.active
  rw [hw, hr.inactive] at hactive
  exact absurd hactive (by simp)

/-- **The two writes of a seeding.** -/
theorem allocated_after_rebalance_iff (hr : ReadyToSeed k c input best p m s.world) {t : Live}
    (ht : t.world = s.world) :
    Allocated c p m s.world (after (k.rebalance c best.poolId best.poolId) t).world ↔
      PullOverlooked k c best.poolId m t := by
  have ha : (k.amountToMove c best.poolId).run t = .ok m t := run_amountToMove (by rw [ht]; exact hr.amount)
  unfold rebalance PullOverlooked
  rw [after_bind_of_ok ha]
  rcases k.submit_cases (k.client.deallocate best.poolId c m) t with
    ⟨message, v, hpull, hv⟩ | ⟨_, hpull⟩ | ⟨call, w, hl, _⟩
  · -- the pull throws, and ends the move
    rw [after_bind_of_error hpull, hpull]
    constructor
    · intro h
      exact absurd h (not_allocated_of_eq hr (hv.trans ht))
    · rintro ⟨_, _, he, _⟩
      exact absurd he (by simp)
  · -- the pull is overlooked, and the placement decides
    rw [after_bind_of_ok hpull, hpull]
    rcases k.submit_cases (k.client.allocate best.poolId c m) (t.answered t.world) with
      ⟨message, v, hput, hv⟩ | ⟨_, hput⟩ | ⟨call, w, hl, hput⟩
    · rw [after_bind_of_error hput]
      constructor
      · intro h
        exact absurd h (not_allocated_of_eq hr (hv.trans ht))
      · rintro ⟨_, _, he, hu⟩
        injection he with _ he
        rw [← he, hput] at hu
        exact absurd hu (by simp)
    · rw [after_bind_of_ok hput]
      constructor
      · intro h
        exact absurd h (not_allocated_of_eq hr ht)
      · rintro ⟨_, _, he, hu⟩
        injection he with _ he
        rw [← he, hput] at hu
        exact absurd hu (by simp)
    · rw [after_bind_of_ok hput]
      constructor
      · intro _
        exact ⟨_, _, rfl, hput⟩
      · intro _
        exact allocated_of_landing hr (t := t.answered t.world) ht hl
  · exact absurd hl (not_landing_deallocate hr ht)

/-- **Seeding allocates exactly when the failing pull is overlooked**: the vault never executes it, so the
    tick throws unless the pull comes back without success, and then the placement has to succeed. This
    holds of a tick on any store that has the bucket unallocated, and of a tick on a fresh one. -/
theorem seeding_allocates_iff (hr : ReadyToSeed k c input best p m s.world) :
    (∀ store : BucketStore, store.active c = none → store.pending c = false →
      (Allocated c p m s.world (after (k.runTickOn c input) (s, store)).1.world ↔
        PullOverlooked k c best.poolId m s.ticked)) ∧
    (Allocated c p m s.world (after (k.runTick c input) s).world ↔
      ReadsAnswer s ∧ PullOverlooked k c best.poolId m (afterReads s).ticked) := by
  -- `t` is the state in front of the tick itself, before or after a fresh store's reads
  have key : ∀ (t : Live) (store : BucketStore), t.world = s.world → store.active c = none →
      store.pending c = false → (Allocated c p m s.world (after (k.runTickOn c input) (t, store)).1.world ↔
        PullOverlooked k c best.poolId m t.ticked) := by
    intro t store ht hactive hpending
    rw [fst_after_runTickOn, decision_of_unallocated hr.top hactive hpending, effect_rebalance hr.own]
    exact allocated_after_rebalance_iff hr ht
  refine ⟨fun store => key s store rfl, ?_⟩
  by_cases hreads : ReadsAnswer s
  · have hfresh := key (afterReads s) (k.freshStore c s.world) rfl
      (by rw [active_freshStore, k.client.activeSlug_of_none hr.inactive])
      (by rw [pending_freshStore, hr.no_exit]; rfl)
    rw [after_runTick hreads, hfresh]
    exact ⟨fun h => ⟨hreads, h⟩, And.right⟩
  · obtain ⟨message, t, hrun, ht⟩ := run_runTick_of_not_readsAnswer k c input hreads
    rw [after_of_error hrun]
    constructor
    · intro h
      exact absurd h (not_allocated_of_eq hr ht)
    · intro h
      exact absurd h.1 hreads

/-! ## A bucket that stays unallocated -/

/-- A deposit of one thousand and an allowlisted pool, nothing allocated yet. -/
def unseededWorld : World :=
  (World.opening 1000 5000).after (setUpPool .usd (.contract 100) 1 1000 ++ joins 2 .usd 1000)

def seedInput : RunTickInput := { candidates := [⟨"defindex-usdc", 859 / 100⟩] }

theorem unseeded_unallocated :
    (∀ q, (unseededWorld.bucket .usd).poolHoldings q = 0) ∧ Vault.activePool unseededWorld .usd = none := by
  have hr : Reachable Genesis (HomeStep fun _ => .usd) unseededWorld := by
    apply (Genesis.opening (by decide)).reachable_home
    simp [setUpPool, joins, Action.Respects, Vault.Call.Names]
  exact unallocated_of_unlisted (reachable_wf (reachable_of_home hr)) (Home.reachable_inv hr) rfl

theorem unseeded_ready :
    ReadyToSeed (demoRunner 500) .usd seedInput ⟨"defindex-usdc", 859 / 100⟩ (.contract 1) 500 unseededWorld where
  reachable := (Genesis.opening (by decide)).reachable _
  unbooked  := unseeded_unallocated.1
  inactive  := unseeded_unallocated.2
  no_exit   := by decide +kernel
  top       := by decide +kernel
  names     := ⟨(SoroSense.Address.contract 1).strkey, by decide +kernel, by decide +kernel⟩
  amount    := rfl
  pos       := by decide
  own       := rfl

theorem seeding_allocates_iff_unseeded :
    ¬ (ReadsAnswer (Live.calm unseededWorld) ∧
      PullOverlooked (demoRunner 500) .usd "defindex-usdc" 500 (afterReads (Live.calm unseededWorld)).ticked) := by
  intro h
  have hallocated := ((seeding_allocates_iff (s := Live.calm unseededWorld) unseeded_ready).2.mpr h).active
  exact absurd hallocated (by decide +kernel)

/-- The best pool is allowlisted, not frozen and far under its cap, there is idle enough and every request
    reaches the chain; yet the tick throws, and the bucket is as unallocated as before. -/
theorem seeding_tick_throws :
    ReadyToSeed (demoRunner 500) .usd seedInput ⟨"defindex-usdc", 859 / 100⟩ (.contract 1) 500 unseededWorld ∧
      unseededWorld.vault.allowedPool (.contract 1) = true ∧
      unseededWorld.vault.frozen (.contract 1) = false ∧
      (unseededWorld.bucket .usd).poolHoldings (.contract 1) + 500 ≤ unseededWorld.vault.config.perPoolCap ∧
      500 ≤ Vault.idle unseededWorld .usd ∧
      returned ((demoRunner 500).runTick .usd seedInput) (Live.calm unseededWorld) = none ∧
      ¬ Allocated .usd (.contract 1) 500 unseededWorld
        (after ((demoRunner 500).runTick .usd seedInput) (Live.calm unseededWorld)).world := by
  refine ⟨unseeded_ready, by decide +kernel, by decide +kernel, by decide +kernel, by decide +kernel,
    by decide +kernel, fun h => ?_⟩
  have hnone : Vault.activePool (after ((demoRunner 500).runTick .usd seedInput) (Live.calm unseededWorld)).world .usd
      = none := by decide +kernel
  exact absurd (hnone.symm.trans h.active) (by simp)

end Backend
end SoroSense
