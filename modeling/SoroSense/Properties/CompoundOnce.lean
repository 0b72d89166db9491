import SoroSense.Backend.RunnerSpec
import SoroSense.Properties.SwitchGate

/-!
# `Properties.CompoundOnce` — compounding a bucket with many depositors

What accrued to a bucket is to be reinvested once, if any of its depositors is verifiably ON, and not at all
otherwise. The gate asks each depositor and drives the effect for each who is ON, the effect places the
amount of the whole bucket and does not look at the depositor it was driven for. So a tick is one placement
repeated for every depositor who is ON (`effect_compound_eq`), each of which lands while the network takes
it and the bucket can.

`compounds_once_iff` is the exact condition, for every network and every bucket. Two allocations in a row are
allowed exactly when one of their sum is (`AllocateGuard.again_iff`), so the condition is about the ledger in
front of the tick.
-/

namespace SoroSense

open Transition

/-! ## Allocations in a row -/

namespace Vault

variable {w : World} {auth : Auth} {p : Address} {c : Currency} {m a : Int} {token : Address}

/-- What the guards of a further supply read, after one. -/
structure SuppliedOnce (w : World) (p : Address) (c : Currency) (m : Int) (token : Address) (w' : World) : Prop where
  booked : (w'.bucket c).poolHoldings p = (w.bucket c).poolHoldings p + m
  idle   : (w'.bucket c).totalAssets = (w.bucket c).totalAssets - m
  listed : p ∈ (w'.bucket c).poolList
  shares : (w'.bucket c).totalShares = (w.bucket c).totalShares
  paidIn : (w'.bucket c).token = (w.bucket c).token
  funds  : w'.tokens token vaultAddress = w.tokens token vaultAddress - m
  value  : w'.position p = w.position p + m
  total  : ∀ s s', w.pools p = some s → w'.pools p = some s' → s'.totalPrincipal = s.totalPrincipal + m
  priced : w'.Priced p

theorem SupplyGuard.suppliedOnce (h : w.WF) (g : SupplyGuard w p c m token) {e : Event} :
    SuppliedOnce w p c m token ((w.supplied p c m token).publish e) := by
  obtain ⟨s, hs⟩ := Option.isSome_iff_exists.mp g.hosted
  have hne : p ≠ vaultAddress := h.pool_ne_vault hs
  constructor
  · rw [World.bucket_publish, World.holdings_supplied, if_pos ⟨rfl, rfl⟩]
  · rw [World.bucket_publish, World.bucket_supplied, if_pos rfl]
    rfl
  · exact World.mem_poolList_supplied.mpr (.inr ⟨rfl, rfl⟩)
  · exact World.bucketField_supplied Bucket.totalShares rfl
  · exact World.bucketField_supplied Bucket.token rfl
  · rw [World.tokens_publish, World.tokens_supplied, Tokens.move_apply, if_pos ⟨rfl, rfl⟩,
      if_neg (fun he => hne he.2.symm), add_zero]
  · rw [World.position_publish, World.position_supplied h.toPoolsWF g.hosted g.pos, if_pos rfl]
  · intro t t' ht ht'
    rw [World.pools_publish, World.supplied_eq ht] at ht'
    simp only [World.pools_updateBucket, World.pools_setPool, Function.update_self, Option.some.injEq] at ht'
    rw [← ht']
    rfl
  · exact (World.priced_congr rfl rfl).mpr ((priced_supplied h g).mpr g.priced)

/-- **A second allocation** is allowed exactly when one of the sum was. -/
theorem AllocateGuard.again_iff (h : w.WF) (g : AllocateGuard w auth p c m token) (ha : 0 < a) {e : Event} :
    AllocateGuard ((w.supplied p c m token).publish e) auth p c a token ↔
      AllocateGuard w auth p c (m + a) token := by
  have hm := g.supplies.pos
  have once := g.supplies.suppliedOnce h (e := e)
  have hbooked := once.booked
  have hvalue := once.value
  have hidle := once.idle
  have hfunds := once.funds
  obtain ⟨s, hs, _⟩ := g.supplies.priced
  obtain ⟨s', hs', _⟩ := once.priced
  have htotal := once.total s s' hs hs'
  constructor
  · intro g'
    refine ⟨g.signed, g.unpaused, g.stakes, ⟨g.supplies.allowed, g.supplies.unfrozen, ?_, ?_, ?_, g.supplies.room,
      g.supplies.token_set, ?_, by omega, g.supplies.priced, ?_, ?_⟩⟩
    · rw [← add_assoc, ← hbooked]
      exact g'.supplies.booked_fits
    · rw [← add_assoc, ← hbooked]
      exact g'.supplies.under_cap
    · have hle := g'.supplies.enough_idle
      omega
    · have hle := g'.supplies.funded
      omega
    · rw [← add_assoc, ← hvalue]
      exact g'.supplies.value_fits
    · intro t ht
      obtain rfl := Option.some.inj (hs.symm.trans ht)
      rw [← add_assoc, ← htotal]
      exact g'.supplies.total_fits s' hs'
  · intro g'
    refine ⟨g.signed, g.unpaused, ?_,
      ⟨g.supplies.allowed, g.supplies.unfrozen, ?_, ?_, ?_, .inl once.listed, ?_, ?_, ha, once.priced, ?_, ?_⟩⟩
    · rw [once.shares]
      exact g.stakes
    · rw [hbooked, add_assoc]
      exact g'.supplies.booked_fits
    · rw [hbooked, add_assoc]
      exact g'.supplies.under_cap
    · have hle := g'.supplies.enough_idle
      omega
    · rw [once.paidIn]
      exact g.supplies.token_set
    · have hle := g'.supplies.funded
      omega
    · rw [hvalue, add_assoc]
      exact g'.supplies.value_fits
    · intro t ht
      obtain rfl := Option.some.inj (hs'.symm.trans ht)
      rw [htotal, add_assoc]
      exact g'.supplies.total_fits s hs

/-- What an event says was allocated in a currency. -/
def Event.allocatedIn (c : Currency) : Event → Int
  | .allocated d _ amount => if d = c then amount else 0
  | _                     => 0

end Vault

/-- What the vault has published as allocated in a currency. -/
def World.allocatedIn (w : World) (c : Currency) : Int := (w.vault.events.map (Vault.Event.allocatedIn c)).sum

namespace Backend

open Session KeeperRunner

/-! ## One placement -/

namespace KeeperRunner

variable {k : KeeperRunner} {c : Currency} {pool : PoolId} {m : Int} {s : Live} {w w' : World}

/-- The runner can place `m` of the bucket in the pool, which leaves `w'`. -/
structure Placement (k : KeeperRunner) (c : Currency) (pool : PoolId) (m : Int) (w w' : World) : Prop where
  live   : k.integration = true
  placed : ∃ signer p token, k.signer = .ok signer ∧ signer.role = .keeper ∧ k.client.Names pool p ∧
    Vault.AllocateGuard w (Auth.signers [signer.account]) p c m token ∧
    w' = (w.supplied p c m token).publish (.allocated c p m)

/-- The runner can place `m`. -/
def Places (k : KeeperRunner) (c : Currency) (pool : PoolId) (m : Int) (w : World) : Prop :=
  ∃ w', k.Placement c pool m w w'

theorem Placement.pos (h : k.Placement c pool m w w') : 0 < m := by
  obtain ⟨_, _, _, _, _, _, g, _⟩ := h.placed
  exact g.supplies.pos

theorem Placement.wf (hwf : w.WF) (h : k.Placement c pool m w w') : w'.WF := by
  obtain ⟨_, _, _, _, _, _, g, rfl⟩ := h.placed
  exact (hwf.supplied g.supplies).publish

/-- **What a placement publishes.** -/
theorem Placement.allocatedIn (h : k.Placement c pool m w w') : w'.allocatedIn c = w.allocatedIn c + m := by
  obtain ⟨_, p, token, _, _, _, _, rfl⟩ := h.placed
  show ((w.vault.events ++ [Vault.Event.allocated c p m]).map (Vault.Event.allocatedIn c)).sum = _
  rw [List.map_append, List.sum_append, List.map_singleton, List.sum_singleton]
  show _ + (if c = c then m else 0) = _
  rw [if_pos rfl]
  rfl

/-- **A second placement** of the amount is possible where one of twice the amount was. -/
theorem Placement.again_iff (hwf : w.WF) (h : k.Placement c pool m w w') :
    k.Places c pool m w' ↔ k.Places c pool (m + m) w := by
  obtain ⟨hlive, signer, p, token, hs, hrole, hp, g, rfl⟩ := h
  constructor
  · rintro ⟨_, _, signer', q, token', hs', _, hq, g', _⟩
    obtain rfl := Fallible.ok_unique hs hs'
    obtain rfl := k.client.names_unique hp hq
    have htoken := g'.supplies.token_set
    rw [World.bucket_publish, World.bucketField_supplied Vault.Bucket.token rfl, g.supplies.token_set] at htoken
    obtain rfl := Option.some.inj htoken
    exact ⟨_, hlive, signer, p, token, hs, hrole, hp, (g.again_iff hwf g.supplies.pos).mp g', rfl⟩
  · rintro ⟨_, _, signer', q, token', hs', _, hq, g', _⟩
    obtain rfl := Fallible.ok_unique hs hs'
    obtain rfl := k.client.names_unique hp hq
    obtain rfl := Option.some.inj (g.supplies.token_set.symm.trans g'.supplies.token_set)
    exact ⟨_, hlive, signer, p, token, hs, hrole, hp, (g.again_iff hwf g.supplies.pos).mpr g', rfl⟩

/-- A landing of the write is a placement, -/
theorem placement_of_landing (hwf : s.world.WF) {call : Vault.Call}
    (h : k.Landing (k.client.allocate pool c m) s call w) : k.Placement c pool m s.world w := by
  obtain ⟨p, signer, hp, hs, _, hx⟩ := h.poolWrite
  obtain ⟨tx, signer', hb, hs', hl⟩ := h.lands
  obtain rfl := Fallible.ok_unique hs hs'
  obtain ⟨token, g, hw⟩ := (Vault.allocate_eq_ok hwf).mp hx
  obtain ⟨_, _, htx⟩ := Fallible.bind_eq_ok.mp hb
  have hrole : signer.role = .keeper := by
    rw [hl.role, ← Except.ok.inj htx]
  exact ⟨h.live, signer, p, token, hs, hrole, hp, g, hw.symm⟩

/-- How a write ends, by the reply to it, where the vault would leave `w'`. -/
def settled (s : Live) (w' : World) : Reply → EStateM.Result String Live TxResult
  | .lands          => .ok ⟨true⟩ (s.answered w')
  | .rejected       => .ok ⟨false⟩ (s.answered s.world)
  | .throws message => .error message (s.answered s.world)

/-- **Where the runner can place the amount**, the network decides. -/
theorem Placement.run_submit (hwf : s.world.WF) (h : k.Placement c pool m s.world w') :
    (k.submit (k.client.allocate pool c m)).run s = settled s w' (s.replies 0) := by
  obtain ⟨hlive, signer, p, token, hs, hrole, ⟨address, haddr, hparse⟩, g, rfl⟩ := h
  have hb : k.client.allocate pool c m
      = .ok ⟨.keeper, do let p ← k.client.strkey.parse address; .ok (.allocate p c m)⟩ := by
    unfold VaultClient.allocate VaultClient.poolWrite
    rw [haddr]
    rfl
  have hx : (Vault.Call.allocate p c m).exec (Auth.signers [signer.account]) s.world
      = .ok ((s.world.supplied p c m token).publish (.allocated c p m)) :=
    (Vault.allocate_eq_ok hwf).mpr ⟨token, g, rfl⟩
  rw [KeeperRunner.run_submit hlive hb hs]
  simp only [EStateM.run, VaultClient.signAndSubmit, hrole, hparse]
  rw [if_neg (not_not.mpr rfl)]
  cases hr : s.replies 0 with
  | lands =>
      simp only [bind, Except.bind, hx]
      rfl
  | rejected       => rfl
  | throws message => rfl

theorem Placement.run_compound_of_lands (hwf : s.world.WF) (ha : (k.amountToMove c pool).run s = .ok m s)
    (h : k.Placement c pool m s.world w') (hr : s.replies 0 = .lands) :
    (k.compound c pool none).run s = .ok () (s.answered w') := by
  have hrun := h.run_submit hwf
  rw [hr] at hrun
  unfold compound
  rw [run_bind_of_ok ha, run_bind_of_ok hrun]
  rfl

theorem Placement.run_compound_of_rejected (hwf : s.world.WF) (ha : (k.amountToMove c pool).run s = .ok m s)
    (h : k.Placement c pool m s.world w') (hr : s.replies 0 = .rejected) :
    (k.compound c pool none).run s = .ok () (s.answered s.world) := by
  have hrun := h.run_submit hwf
  rw [hr] at hrun
  unfold compound
  rw [run_bind_of_ok ha, run_bind_of_ok hrun]
  rfl

theorem Placement.run_compound_of_throws (hwf : s.world.WF) (ha : (k.amountToMove c pool).run s = .ok m s)
    (h : k.Placement c pool m s.world w') {message : String} (hr : s.replies 0 = .throws message) :
    (k.compound c pool none).run s = .error message (s.answered s.world) := by
  have hrun := h.run_submit hwf
  rw [hr] at hrun
  unfold compound
  rw [run_bind_of_ok ha, run_bind_of_error hrun]

/-- **Where it cannot**, the ledger stays as it is, and a write the network rejects goes unnoticed. -/
theorem run_compound_of_not_places (hwf : s.world.WF) (ha : (k.amountToMove c pool).run s = .ok m s)
    (h : ¬ k.Places c pool m s.world) :
    (∃ message t, (k.compound c pool none).run s = .error message t ∧ t.world = s.world) ∨
      (k.compound c pool none).run s = .ok () (s.answered s.world) := by
  unfold compound
  rw [run_bind_of_ok ha]
  rcases k.submit_cases (k.client.allocate pool c m) s with ⟨message, t, hrun, ht⟩ | ⟨_, hrun⟩ | ⟨call, w, hl, _⟩
  · exact .inl ⟨message, t, run_bind_of_error hrun, ht⟩
  · exact .inr (run_bind_of_ok hrun)
  · exact absurd ⟨w, placement_of_landing hwf hl⟩ h

/-! ## The placement, repeated -/

/-- `compound`, `n` times over. -/
def compoundTimes (k : KeeperRunner) (c : Currency) (pool : PoolId) : ℕ → EStateM String Live Unit
  | 0     => pure ()
  | n + 1 => k.compound c pool none >>= fun _ => compoundTimes k c pool n

/-- How many of the next `n` writes reach the ledger, before one throws. -/
def reaching (replies : ℕ → Reply) : ℕ → ℕ
  | 0     => 0
  | n + 1 =>
    match replies 0 with
    | .lands    => reaching (fun i => replies (i + 1)) n + 1
    | .rejected => reaching (fun i => replies (i + 1)) n
    | .throws _ => 0

theorem reaching_of_lands (w : World) (hr : s.replies 0 = .lands) (n : ℕ) :
    reaching s.replies (n + 1) = reaching (s.answered w).replies n + 1 := by
  rw [reaching, hr]
  rfl

theorem reaching_of_rejected (w : World) (hr : s.replies 0 = .rejected) (n : ℕ) :
    reaching s.replies (n + 1) = reaching (s.answered w).replies n := by
  rw [reaching, hr]
  rfl

theorem reaching_of_throws {message : String} (hr : s.replies 0 = .throws message) (n : ℕ) :
    reaching s.replies (n + 1) = 0 := by
  rw [reaching, hr]

section Repeated

variable (hm : ∀ t, (k.amountToMove c pool).run t = .ok m t)
include hm

/-- Nothing is placed where nothing can be, -/
theorem world_of_not_places (n : ℕ) (hwf : s.world.WF) (h : ¬ k.Places c pool m s.world) :
    (after (k.compoundTimes c pool n) s).world = s.world := by
  induction n generalizing s with
  | zero => rfl
  | succ n ih =>
      unfold compoundTimes
      rcases run_compound_of_not_places hwf (hm s) h with ⟨message, t, hrun, ht⟩ | hrun
      · rw [after_bind_of_error hrun]
        exact ht
      · rw [after_bind_of_ok hrun]
        exact ih (s := s.answered s.world) hwf h

/-- … nor where no write reaches the ledger. -/
theorem world_of_unreached (n : ℕ) (hwf : s.world.WF) (h : k.Placement c pool m s.world w')
    (hr : reaching s.replies n = 0) : (after (k.compoundTimes c pool n) s).world = s.world := by
  induction n generalizing s with
  | zero => rfl
  | succ n ih =>
      unfold compoundTimes
      cases hreply : s.replies 0 with
      | lands =>
          rw [reaching_of_lands w' hreply] at hr
          exact absurd hr (Nat.succ_ne_zero _)
      | rejected =>
          rw [reaching_of_rejected s.world hreply] at hr
          rw [after_bind_of_ok (h.run_compound_of_rejected hwf (hm s) hreply)]
          exact ih (s := s.answered s.world) hwf h hr
      | throws message =>
          rw [after_bind_of_error (h.run_compound_of_throws hwf (hm s) hreply)]
          rfl

/-- **The first write that reaches the ledger** places the amount, and the rest goes on from there. -/
theorem after_of_reached (n : ℕ) (hwf : s.world.WF) (h : k.Placement c pool m s.world w')
    (hr : reaching s.replies n ≠ 0) : ∃ t i, t.world = w' ∧ reaching t.replies i + 1 = reaching s.replies n ∧
      after (k.compoundTimes c pool n) s = after (k.compoundTimes c pool i) t := by
  induction n generalizing s with
  | zero => exact absurd rfl hr
  | succ n ih =>
      cases hreply : s.replies 0 with
      | lands =>
          have hrun := h.run_compound_of_lands hwf (hm s) hreply
          exact ⟨s.answered w', n, rfl, (reaching_of_lands w' hreply n).symm, after_bind_of_ok hrun⟩
      | rejected =>
          have hrest := reaching_of_rejected s.world hreply n
          have hrun := h.run_compound_of_rejected hwf (hm s) hreply
          rw [hrest] at hr
          obtain ⟨t, i, ht, hi, hafter⟩ := ih (s := s.answered s.world) hwf h hr
          exact ⟨t, i, ht, hi.trans hrest.symm, (after_bind_of_ok hrun).trans hafter⟩
      | throws message => exact absurd (reaching_of_throws hreply n) hr

end Repeated

/-- The books stay in order, and what is published as allocated does not shrink. -/
def Grows (c : Currency) (w w' : World) : Prop := w.WF → w'.WF ∧ w.allocatedIn c ≤ w'.allocatedIn c

/-- **Placements add up.** -/
theorem keeps_compoundTimes (k : KeeperRunner) (c : Currency) (pool : PoolId) (n : ℕ) :
    Keeps (VaultClient.OnWorld (Grows c)) (k.compoundTimes c pool n) := by
  have hrefl : ∀ w, Grows c w w := fun w h => ⟨h, le_refl _⟩
  have htrans : ∀ s t u, VaultClient.OnWorld (Grows c) s t → VaultClient.OnWorld (Grows c) t u →
      VaultClient.OnWorld (Grows c) s u := by
    intro s t u hst htu hs
    obtain ⟨ht, hle⟩ := hst hs
    obtain ⟨hu, hle'⟩ := htu ht
    exact ⟨hu, le_trans hle hle'⟩
  have hpure : Keeps (VaultClient.OnWorld (Grows c)) (pure () : EStateM String Live Unit) :=
    keeps_pure (fun s => hrefl s.world) ()
  induction n with
  | zero => exact hpure
  | succ n ih =>
      refine Keeps.bind htrans ?_ fun _ => ih
      refine (keeps_amountToMove hrefl).bind htrans fun amount => ?_
      refine Keeps.bind htrans ?_ fun _ => hpure
      apply keeps_submit hrefl
      intro s call w hl hwf
      have hp := placement_of_landing hwf hl
      have hpos := hp.pos
      rw [hp.allocatedIn]
      exact ⟨hp.wf hwf, by omega⟩

/-- Nothing is allocated exactly where no placement is possible, or none gets through. -/
theorem allocatedIn_eq_iff (hm : ∀ t, (k.amountToMove c pool).run t = .ok m t) (hwf : s.world.WF) (n : ℕ) :
    (after (k.compoundTimes c pool n) s).world.allocatedIn c = s.world.allocatedIn c ↔
      ¬ (k.Places c pool m s.world ∧ reaching s.replies n ≠ 0) := by
  constructor
  · rintro he ⟨⟨w', h⟩, hr⟩
    obtain ⟨t, i, ht, _, hafter⟩ := after_of_reached hm n hwf h hr
    have hwf' : t.world.WF := by
      rw [ht]
      exact h.wf hwf
    have hle : t.world.allocatedIn c ≤ (after (k.compoundTimes c pool i) t).world.allocatedIn c :=
      (keeps_compoundTimes k c pool i t hwf').2
    have hpos := h.pos
    rw [hafter] at he
    rw [he, ht, h.allocatedIn] at hle
    omega
  · intro hnot
    by_cases hp : k.Places c pool m s.world
    · obtain ⟨w', h⟩ := hp
      have hr : reaching s.replies n = 0 := by
        by_contra hr
        exact hnot ⟨⟨w', h⟩, hr⟩
      rw [world_of_unreached hm n hwf h hr]
    · rw [world_of_not_places hm n hwf hp]

/-- **What repeating the placement allocates** is the amount once, exactly where that is nothing, or one write
    gets through, or more do and the bucket cannot take the amount again. -/
theorem allocated_once_iff (hm : ∀ t, (k.amountToMove c pool).run t = .ok m t) (hwf : s.world.WF) (n : ℕ) :
    (after (k.compoundTimes c pool n) s).world.allocatedIn c = s.world.allocatedIn c + m ↔
      m = 0 ∨ k.Places c pool m s.world ∧ (reaching s.replies n = 1 ∨
        1 < reaching s.replies n ∧ ¬ k.Places c pool (m + m) s.world) := by
  by_cases hgo : k.Places c pool m s.world ∧ reaching s.replies n ≠ 0
  · obtain ⟨⟨w', h⟩, hr⟩ := hgo
    obtain ⟨t, i, ht, hi, hafter⟩ := after_of_reached hm n hwf h hr
    have hwf' : t.world.WF := by
      rw [ht]
      exact h.wf hwf
    have hadd : t.world.allocatedIn c = s.world.allocatedIn c + m := by
      rw [ht]
      exact h.allocatedIn
    have hagain : k.Places c pool m t.world ↔ k.Places c pool (m + m) s.world := by
      rw [ht]
      exact h.again_iff hwf
    have hpos := h.pos
    -- from the first placement on, nothing more may be allocated
    rw [hafter, ← hadd, allocatedIn_eq_iff hm hwf' i, hagain, ← hi]
    constructor
    · intro hnot
      refine .inr ⟨⟨w', h⟩, ?_⟩
      by_cases hz : reaching t.replies i = 0
      · exact .inl (by omega)
      · exact .inr ⟨by omega, fun hp => hnot ⟨hp, hz⟩⟩
    · rintro (hz | ⟨_, hone | ⟨_, hno⟩⟩) ⟨hp, hne⟩
      · omega
      · omega
      · exact hno hp
  · rw [(allocatedIn_eq_iff hm hwf n).mpr hgo]
    constructor
    · intro he
      exact .inl (by omega)
    · rintro (hz | ⟨hp, hone | ⟨hmore, _⟩⟩)
      · omega
      · exact absurd ⟨hp, by omega⟩ hgo
      · exact absurd ⟨hp, by omega⟩ hgo

end KeeperRunner

/-! ## The gate -/

/-- The depositor is verifiably ON: the preference was read, and is. -/
def verifiedOn (pref : Address → Except String Bool) (depositor : Address) : Bool :=
  match pref depositor with
  | .ok enabled => enabled
  | .error _    => false

section Gate

variable {k : KeeperRunner} {ctx : TickContext Live} {c : Currency} {pool : PoolId}
  {pref : Address → Except String Bool}

theorem enabledFor_lift (pref : Address → Except String Bool) (depositor : Address) :
    TickContext.enabledFor (fun d => lift (pref d)) depositor
      = (pure (verifiedOn pref depositor) : EStateM String Live Bool) := by
  funext s
  have hpure : ∀ enabled, verifiedOn pref depositor = enabled →
      (pure (verifiedOn pref depositor) : EStateM String Live Bool) s = .ok enabled s := by
    rintro enabled rfl
    rfl
  cases hp : pref depositor with
  | ok enabled =>
      rw [hpure enabled (by rw [verifiedOn, hp])]
      exact TickContext.run_enabledFor_of_ok (run_lift_eq_ok.mpr ⟨hp, rfl⟩)
  | error message =>
      have hread : (lift (pref depositor) : EStateM String Live Bool).run s = .error message s := by
        rw [hp]
        rfl
      rw [hpure false (by rw [verifiedOn, hp])]
      apply TickContext.run_enabledFor_of_error
      exact hread

/-- **The gate repeats the placement** for every depositor who is ON. -/
theorem compoundFor_eq (heff : ctx.effects = k.effects) (depositors : List Address) :
    ctx.compoundFor (fun d => lift (pref d)) c pool depositors
      = k.compoundTimes c pool (depositors.countP (verifiedOn pref)) := by
  induction depositors with
  | nil => rfl
  | cons depositor depositors ih =>
      rw [TickContext.compoundFor_cons, enabledFor_lift, pure_bind, ih, List.countP_cons, heff]
      cases verifiedOn pref depositor with
      | false => rfl
      | true  => rfl

/-- A tick that compounds the bucket for a list of depositors through the runner's own effects, the amount `m`
    having accrued. The clock, if there is one, is only read. -/
structure CompoundTick (k : KeeperRunner) (ctx : TickContext Live) (s : Live) (store : BucketStore)
    (depositors : List Address) (pref : Address → Except String Bool) (c : Currency) (pool : PoolId) (m : Int) :
    Prop where
  effects : ctx.effects = k.effects
  gated   : ctx.depositors = some depositors
  reader  : ctx.autoCompoundEnabled = some fun depositor => lift (pref depositor)
  clock   : ctx.clock = none ∨ ctx.clock = some readClock
  accrued : ∃ moveAmount, k.moveAmount = some moveAmount ∧ ∀ w, moveAmount w c pool = .ok m
  decides : ∀ now t, ctx.readNow.run s = .ok now t → classifyBucket (ctx.classifyInput now store) = .compound c pool

/-- What the tick allocates is the amount, if a depositor is verifiably ON, and nothing if none is. -/
def CompoundsOnce (ctx : TickContext Live) (s : Live) (store : BucketStore) (depositors : List Address)
    (pref : Address → Except String Bool) (c : Currency) (m : Int) : Prop :=
  (after (runAllocatorTick ctx) (s, store)).1.world.allocatedIn c - s.world.allocatedIn c
    = if ∃ depositor ∈ depositors, verifiedOn pref depositor = true then m else 0

variable {s : Live} {store : BucketStore} {depositors : List Address} {m : Int}

/-- Reading the clock, or not, leaves the ledger and the network alone. -/
theorem CompoundTick.readNow (ht : CompoundTick k ctx s store depositors pref c pool m) :
    ∃ now t, ctx.readNow.run s = .ok now t ∧ t.world = s.world ∧ t.replies = s.replies := by
  unfold TickContext.readNow
  rcases ht.clock with hc | hc
  · rw [hc]
    exact ⟨none, s, rfl, rfl, rfl⟩
  · rw [hc]
    exact ⟨some (s.clock 0), s.ticked, rfl, rfl, rfl⟩

theorem CompoundTick.run_amountToMove (ht : CompoundTick k ctx s store depositors pref c pool m) (t : Live) :
    (k.amountToMove c pool).run t = .ok m t := by
  obtain ⟨moveAmount, hk, ha⟩ := ht.accrued
  apply KeeperRunner.run_amountToMove
  rw [hk, Option.map_some, ha]

/-- **The tick is the placement**, repeated for every depositor who is ON. -/
theorem CompoundTick.after_eq (ht : CompoundTick k ctx s store depositors pref c pool m) {now : Option ℚ} {t : Live}
    (hnow : ctx.readNow.run s = .ok now t) :
    (after (runAllocatorTick ctx) (s, store)).1
      = after (k.compoundTimes c pool (depositors.countP (verifiedOn pref))) t := by
  rw [fst_after_runAllocatorTick (s := (s, store)) hnow, ht.decides now t hnow]
  show after (ctx.gateCompound c pool) t = _
  unfold TickContext.gateCompound
  rw [ht.gated, ht.reader]
  show after (ctx.compoundFor (fun d => lift (pref d)) c pool depositors) t = _
  rw [compoundFor_eq ht.effects]

/-- **Compounding is once, exactly** where no depositor is verifiably ON, where nothing is to be placed, or where
    the runner can place the amount and one of the writes for the depositors who are ON gets through, or more
    do and the bucket cannot take twice the amount. -/
theorem compounds_once_iff (h : Reachable Genesis Step s.world)
    (ht : CompoundTick k ctx s store depositors pref c pool m) :
    CompoundsOnce ctx s store depositors pref c m ↔ depositors.countP (verifiedOn pref) = 0 ∨ m = 0 ∨
      k.Places c pool m s.world ∧ (reaching s.replies (depositors.countP (verifiedOn pref)) = 1 ∨
        1 < reaching s.replies (depositors.countP (verifiedOn pref)) ∧ ¬ k.Places c pool (m + m) s.world) := by
  obtain ⟨now, t, hnow, hworld, hreplies⟩ := ht.readNow
  have hon : (∃ depositor ∈ depositors, verifiedOn pref depositor = true) ↔
      depositors.countP (verifiedOn pref) ≠ 0 := by
    rw [← Nat.pos_iff_ne_zero, List.countP_pos_iff]
  unfold CompoundsOnce
  rw [ht.after_eq hnow, ← hworld, ← hreplies]
  by_cases hn : depositors.countP (verifiedOn pref) = 0
  · rw [if_neg (fun he => hon.mp he hn), hn]
    constructor
    · intro _
      exact .inl rfl
    · intro _
      exact sub_self _
  · rw [if_pos (hon.mpr hn), sub_eq_iff_eq_add']
    have hwf : t.world.WF := by
      rw [hworld]
      exact reachable_wf h
    rw [allocated_once_iff ht.run_amountToMove hwf]
    constructor
    · exact .inr
    · intro he
      exact he.resolve_left hn

end Gate

/-! ## One depositor, and two -/

/-- A tick of the dollar bucket, which holds `defindex-usdc` and accrued 100. -/
def accruedTick (depositors : List Address) (pref : Address → Except String Bool) : TickContext Live where
  currency            := .usd
  activeAnomaly       := false
  activeRay           := some 8
  candidates          := [⟨"defindex-usdc", 8⟩]
  yieldAccrued        := true
  thresholdPct        := DEFAULT_THRESHOLD_PCT
  effects             := (demoRunner 100).effects
  depositors          := some depositors
  autoCompoundEnabled := some fun depositor => lift (pref depositor)
  clock               := some readClock
  minDwellMs          := none
  positionValueUsd    := none
  switchCostUsd       := none
  dwellHorizonDays    := none

def inDefindex : BucketStore := BucketStore.empty.setActivePool .usd "defindex-usdc"

theorem compoundTick_accruedTick (depositors : List Address) (pref : Address → Except String Bool) :
    CompoundTick (demoRunner 100) (accruedTick depositors pref) (Live.calm twoPools) inDefindex depositors pref .usd
      "defindex-usdc" 100 where
  effects := rfl
  gated   := rfl
  reader  := rfl
  clock   := .inr rfl
  accrued := ⟨_, rfl, fun _ => rfl⟩
  decides := by
    intro now t hnow
    have hread : (accruedTick depositors pref).readNow.run (Live.calm twoPools)
        = .ok (some ((Live.calm twoPools).clock 0)) (Live.calm twoPools).ticked := rfl
    rw [hread] at hnow
    injection hnow with hn _
    rw [← hn]
    -- what is decided does not depend on the depositors
    have hinput : (accruedTick depositors pref).classifyInput (some ((Live.calm twoPools).clock 0)) inDefindex
        = (accruedTick [] fun _ => .ok true).classifyInput (some ((Live.calm twoPools).clock 0)) inDefindex := rfl
    rw [hinput]
    decide +kernel

/-- One preference is ON, one is OFF, and the others cannot be read. -/
def onlyFirst : Address → Except String Bool
  | "GA" => .ok true
  | "GB" => .ok false
  | _    => .error "simulation failed"

/-- The one ON depositor's placement is accepted. -/
theorem compounds_once_iff_onlyFirst : (demoRunner 100).Places .usd "defindex-usdc" 100 twoPools := by
  have honce : CompoundsOnce (accruedTick ["GA", "GB", "GC"] onlyFirst) (Live.calm twoPools) inDefindex
      ["GA", "GB", "GC"] onlyFirst .usd 100 := by
    unfold CompoundsOnce
    decide +kernel
  rcases (compounds_once_iff ((Genesis.opening (by decide)).reachable _) (compoundTick_accruedTick _ _)).mp honce
    with hnone | hzero | ⟨hplaces, _⟩
  · exact absurd hnone (by decide +kernel)
  · exact absurd hzero (by decide)
  · exact hplaces

/-- Two depositors, both ON. -/
def twoOn : TickContext Live := accruedTick ["GA", "GB"] fun _ => .ok true

/-- **Two depositors who are ON compound twice**: the bucket accrued 100, and 200 are allocated. -/
theorem two_on_compound_twice :
    (after (runAllocatorTick twoOn) (Live.calm twoPools, inDefindex)).1.world.allocatedIn .usd
        = twoPools.allocatedIn .usd + 200 ∧
      ¬ CompoundsOnce twoOn (Live.calm twoPools) inDefindex ["GA", "GB"] (fun _ => .ok true) .usd 100 := by
  have htwice : (after (runAllocatorTick twoOn) (Live.calm twoPools, inDefindex)).1.world.allocatedIn .usd
      = twoPools.allocatedIn .usd + 200 := by decide +kernel
  refine ⟨htwice, ?_⟩
  intro h
  unfold CompoundsOnce at h
  rw [if_pos ⟨"GA", by simp, rfl⟩, htwice] at h
  have hworld : (Live.calm twoPools).world = twoPools := rfl
  rw [hworld] at h
  omega

end Backend

end SoroSense
