import SoroSense.Properties.SharePrice

/-!
# `Properties.ActivePool` — when the active pool tells the truth

The pointer is written by every supply and cleared when the pool it names empties, though the bucket may
hold other pools. So it always names a pool that holds money (`Home.Inv.active_listed`), but it is *none*
only for an unallocated bucket as long as no step drains the pool it names while another keeps a position
(`active_pool_truthful_iff`).
-/

namespace SoroSense

open Fallible Transition

variable {home : Address → Currency} {w w' : World} {a : Action} {ids : List Nat} {p q u token : Address}
  {c d : Currency} {amount shares assets : Int}

/-- `active_pool` is none exactly for an unallocated bucket, and names a pool that holds money. -/
structure Truthful (w : World) : Prop where
  none_iff  : ∀ c, Vault.activePool w c = none ↔ (w.bucket c).poolList = []
  some_held : ∀ c p, Vault.activePool w c = some p → p ∈ (w.bucket c).poolList ∧ 0 < w.position p

/-- The action takes the whole position out of the active pool of a bucket, and another pool of the bucket
    keeps one. -/
def Orphans (w : World) : Action → Prop
  | .vault ids (.deallocate p c amount) => Vault.DeallocateGuard w (Auth.signers ids) p c amount ∧
      (w.bucket c).activePool = some p ∧ w.position p = amount ∧ ∃ q ∈ (w.bucket c).poolList, q ≠ p
  | .vault ids (.withdraw u c shares)   => ∃ assets token p,
      Vault.WithdrawGuard w (Auth.signers ids) u c shares assets token ∧
      (w.bucket c).activePool = some p ∧ (p, w.position p) ∈ w.payoutPlan c assets ∧
      ∃ q ∈ (w.bucket c).poolList, (q, w.position q) ∉ w.payoutPlan c assets
  | _                                   => False

/-- The pool the pointer names holds money, whatever happened. -/
theorem held_of_activePool (hi : Home.Inv home w) (hp : Vault.activePool w c = some p) :
    p ∈ (w.bucket c).poolList ∧ 0 < w.position p :=
  ⟨hi.active_listed c p hp, ((hi.listed_iff c p).mp (hi.active_listed c p hp)).2⟩

/-- The pointer of a bucket is none only over an empty list. -/
def Named (w : World) (c : Currency) : Prop := (w.bucket c).activePool = none → (w.bucket c).poolList = []

/-- That is all that is left to be truthful. -/
theorem truthful_iff (hi : Home.Inv home w) : Truthful w ↔ ∀ c, Named w c := by
  refine ⟨fun ht c => (ht.none_iff c).mp, fun hn => ⟨fun c => ⟨hn c, fun hl => ?_⟩, fun c p hp => ?_⟩⟩
  · cases hact : Vault.activePool w c with
    | none   => rfl
    | some p => exact absurd (held_of_activePool hi hact).1 (by simp [hl])
  · exact held_of_activePool hi hp

theorem Named.of_eq (hn : Named w d) (hact : (w'.bucket d).activePool = (w.bucket d).activePool)
    (hlist : (w'.bucket d).poolList = (w.bucket d).poolList) : Named w' d := by
  intro hnone
  rw [hlist]
  exact hn (hact ▸ hnone)

/-! ## The pool records after each flow of money -/

theorem activePool_redeemed (h : w.WF)
    (g : Vault.WithdrawGuard w (Auth.signers ids) u c shares assets token) :
    ((w.redeemed u c shares assets token).bucket c).activePool
      = (w.bucket c).activePool.filter (fun q => decide ((q, w.position q) ∉ w.payoutPlan c assets)) := by
  rw [World.redeemed, World.bucketField_paidOut Vault.Bucket.activePool rfl, World.liquidated,
    Vault.activePool_pulls (g.burned_wf h) (g.plan h), World.bucket_updateBucket_self]
  rfl

theorem mem_poolList_redeemed (h : w.WF)
    (g : Vault.WithdrawGuard w (Auth.signers ids) u c shares assets token) :
    q ∈ ((w.redeemed u c shares assets token).bucket c).poolList ↔
      q ∈ (w.bucket c).poolList ∧ (q, w.position q) ∉ w.payoutPlan c assets := by
  rw [World.redeemed, World.bucketField_paidOut Vault.Bucket.poolList rfl, World.liquidated,
    Vault.mem_poolList_pulls (g.burned_wf h) (g.plan h), World.bucket_updateBucket_self]
  rfl

theorem activePool_pulled : ((w.pulled p c amount).bucket c).activePool
    = if w.position p = amount ∧ (w.bucket c).activePool = some p then none
      else (w.bucket c).activePool := by
  rw [World.bucket_pulled, if_pos rfl]
  simp [Vault.Bucket.pulled]

/-- A supply names its pool. -/
theorem named_supplied (hn : d ≠ c → Named w d) : Named (w.supplied p c amount token) d := by
  by_cases hd : d = c
  · intro hnone
    rw [World.bucket_supplied, if_pos hd] at hnone
    exact absurd hnone (by simp [Vault.Bucket.supplied])
  · have hb : (w.supplied p c amount token).bucket d = w.bucket d := by
      rw [World.bucket_supplied, if_neg hd]
    exact (hn hd).of_eq (by rw [hb]) (by rw [hb])

/-- A pull keeps its bucket named, unless it drains the named pool of several. -/
theorem named_pulled (h : w.WF) (hn : Named w d)
    (ho : (w.bucket c).activePool = some p → w.position p = amount → ∀ q ∈ (w.bucket c).poolList, q = p) :
    Named (w.pulled p c amount) d := by
  by_cases hd : d = c
  · subst hd
    intro hnone
    refine List.eq_nil_iff_forall_not_mem.mpr (fun q hq => ?_)
    obtain ⟨hql, hkept⟩ := (Vault.mem_poolList_pulled h).mp hq
    rw [activePool_pulled] at hnone
    split at hnone
    · rename_i hdrained
      obtain ⟨hpos, hact⟩ := hdrained
      exact hkept ⟨ho hact hpos q hql, hpos⟩
    · rw [hn hnone] at hql
      exact absurd hql (by simp)
  · have hb : (w.pulled p c amount).bucket d = w.bucket d := Vault.bucket_pulled_ne hd
    exact hn.of_eq (by rw [hb]) (by rw [hb])

/-- A payout keeps its bucket named, unless it drains the named pool and not all the others. -/
theorem named_redeemed (h : w.WF) (g : Vault.WithdrawGuard w (Auth.signers ids) u c shares assets token)
    (hn : Named w d)
    (ho : ∀ p, (w.bucket c).activePool = some p → (p, w.position p) ∈ w.payoutPlan c assets →
      ∀ q ∈ (w.bucket c).poolList, (q, w.position q) ∈ w.payoutPlan c assets) :
    Named (w.redeemed u c shares assets token) d := by
  by_cases hd : d = c
  · subst hd
    intro hnone
    refine List.eq_nil_iff_forall_not_mem.mpr (fun q hq => ?_)
    obtain ⟨hql, hkept⟩ := (mem_poolList_redeemed h g).mp hq
    rw [activePool_redeemed h g] at hnone
    cases hact : (w.bucket d).activePool with
    | none   => rw [hn hact] at hql; exact absurd hql (by simp)
    | some p =>
        rw [hact] at hnone
        have hdrained : (p, w.position p) ∈ w.payoutPlan d assets := by
          by_contra hno
          simp [Option.filter_some, hno] at hnone
        exact hkept (ho p hact hdrained q hql)
  · have hb := World.bucket_redeemed_ne h g hd
    exact hn.of_eq (by rw [hb]) (by rw [hb])

/-! ## One step -/

/-- A pointer that is none over a pool still listed is not truthful. -/
theorem not_truthful (hn : (w.bucket c).activePool = none) (hq : q ∈ (w.bucket c).poolList) :
    ¬ Truthful w := by
  intro ht
  rw [(ht.none_iff c).mp hn] at hq
  exact absurd hq (by simp)

/-- An orphaning step leaves the pointer none over an allocated bucket. -/
theorem not_truthful_of_orphans (h : w.WF) (hs : Step w a w') (ho : Orphans w a) : ¬ Truthful w' := by
  cases a with
  | vault ids call =>
      cases call with
      | deallocate p c amount =>
          obtain ⟨g, hact, hpos, q, hq, hne⟩ := ho
          obtain rfl := hs.eq_of_ok ((Vault.deallocate_eq_ok h).mpr ⟨g, rfl⟩)
          have hnone : ((w.pulled p c amount).bucket c).activePool = none := by
            rw [activePool_pulled, if_pos ⟨hpos, hact⟩]
          exact not_truthful hnone ((Vault.mem_poolList_pulled h).mpr ⟨hq, fun he => hne he.1⟩)
      | withdraw u c shares =>
          obtain ⟨assets, token, p, g, hact, hpos, q, hq, hkept⟩ := ho
          obtain rfl := hs.eq_of_ok ((Vault.withdraw_eq_ok h).mpr ⟨assets, token, g, rfl⟩)
          have hnone : ((w.redeemed u c shares assets token).bucket c).activePool = none := by
            rw [activePool_redeemed h g, hact]
            simp [Option.filter_some, hpos]
          exact not_truthful hnone ((mem_poolList_redeemed h g).mpr ⟨hq, hkept⟩)
      | _ => exact absurd ho id
  | _ => exact absurd ho id

/-- **From a truthful state, a step stays truthful unless it orphans a pool.** -/
theorem truthful_step_iff (hi : Home.Inv home w) (h : w.WF) (ht : Truthful w)
    (hs : HomeStep home w a w') : Truthful w' ↔ ¬ Orphans w a := by
  refine ⟨fun ht' ho => not_truthful_of_orphans h hs.1 ho ht', fun ho => ?_⟩
  rw [truthful_iff (hi.step h hs)]
  intro d
  have hn : Named w d := (truthful_iff hi).mp ht d
  have hout := (hs.1.effect h).outside h
  cases hs.1.effect h with
  | reverted _ => exact hn
  | quiet _ q => exact hn.of_eq (by rw [congrFun q.bucket d]) (by rw [congrFun q.bucket d])
  | tokenSet =>
      exact hn.of_eq (World.bucketField_updateBucket Vault.Bucket.activePool rfl)
        (World.bucketField_updateBucket Vault.Bucket.poolList rfl)
  | poolConfigured =>
      exact hn.of_eq (World.bucketField_updateBucket Vault.Bucket.activePool rfl)
        (World.bucketField_updateBucket Vault.Bucket.poolList rfl)
  | proposed =>
      exact hn.of_eq (World.bucketField_proposed Vault.Bucket.activePool (fun _ _ => rfl))
        (World.bucketField_proposed Vault.Bucket.poolList (fun _ _ => rfl))
  | deposited g =>
      exact hn.of_eq (World.bucketField_deposited Vault.Bucket.activePool rfl)
        (World.bucketField_deposited Vault.Bucket.poolList rfl)
  | @redeemed ids u c shares assets token g =>
      refine named_redeemed h g hn (fun p hact hdrained q hq => ?_)
      by_contra hkept
      exact ho ⟨assets, token, p, g, hact, hdrained, q, hq, hkept⟩
  | @exited ids u exitId c e token g =>
      -- the supply leg names the target, whatever the pull leg cleared
      have hpull : d ≠ c → Named (w.pulled e.fromPool c (w.position e.fromPool)) d := by
        intro hd
        have hb : (w.pulled e.fromPool c (w.position e.fromPool)).bucket d = w.bucket d :=
          Vault.bucket_pulled_ne hd
        exact hn.of_eq (by rw [hb]) (by rw [hb])
      have hsupply : Named (World.supplied _ e.toPool c (w.position e.fromPool) token) d :=
        named_supplied hpull
      refine hsupply.of_eq ?_ ?_
      · exact World.bucketField_updateBucket Vault.Bucket.activePool rfl
      · exact World.bucketField_updateBucket Vault.Bucket.poolList rfl
  | @allocated ids p c amount token g => exact named_supplied (fun _ => hn)
  | @deallocated ids p c amount g =>
      refine named_pulled h hn (fun hact hdrained q hq => ?_)
      by_contra hne
      exact ho ⟨g, hact, hdrained, q, hq, hne⟩
  | _ =>
      have hb := (hout (by simp)).bucket
      exact hn.of_eq (by rw [hb]) (by rw [hb])

/-! ## Every run -/

theorem Genesis.truthful (hg : Genesis w) : Truthful w := by
  refine ⟨fun c => ?_, fun c p hp => ?_⟩
  · unfold Vault.activePool
    rw [hg.bucket_eq]
    simp [Vault.Bucket.empty]
  · unfold Vault.activePool at hp
    rw [hg.bucket_eq] at hp
    exact absurd hp (by simp [Vault.Bucket.empty])

/-- **When `active_pool` tells the truth.** In every run from a fresh vault, whatever pool it names is
    listed and holds money; and it is none exactly for the unallocated buckets all along the run **iff** no
    step drains the pool it names while another pool of the bucket keeps a position. -/
theorem active_pool_truthful_iff {w₀ : World} (hg : Genesis w₀) {tr : List (Event World Action)}
    (hrun : Run (HomeStep home) w₀ tr w) :
    (∀ c p, Vault.activePool w c = some p → p ∈ (w.bucket c).poolList ∧ 0 < w.position p) ∧
    Truthful w₀ ∧ ((∀ e ∈ tr, Truthful e.post) ↔ ∀ e ∈ tr, ¬ Orphans e.pre e.label) := by
  have hstart : w₀.WF ∧ Home.Inv home w₀ := ⟨hg.wf, Home.reachable_inv (.of_init hg)⟩
  have hstep : ∀ v a v', (v.WF ∧ Home.Inv home v) → HomeStep home v a v' → (v'.WF ∧ Home.Inv home v') :=
    fun _ _ _ hv hs => ⟨hs.1.wf hv.1, hv.2.step hv.1 hs⟩
  have hev := Home.run_events hstart.1 hstart.2 hrun
  have hend := hrun.invariant (P := fun v => v.WF ∧ Home.Inv home v) hstep hstart
  refine ⟨fun c p hp => held_of_activePool hend.2 hp, hg.truthful, ?_⟩
  -- the well-formed part of the property always holds, so only the truthful part is at stake
  have hboth : ∀ v a v', (v.WF ∧ Home.Inv home v) ∧ Truthful v → HomeStep home v a v' →
      ((v'.WF ∧ Home.Inv home v') ∧ Truthful v' ↔ ¬ Orphans v a) := by
    rintro v a v' ⟨hv, ht⟩ hs
    rw [← truthful_step_iff hv.2 hv.1 ht hs]
    exact ⟨fun ht' => ht'.2, fun ht' => ⟨hstep v a v' hv hs, ht'⟩⟩
  rw [← hrun.forall_post_iff hboth ⟨hstart, hg.truthful⟩]
  exact forall₂_congr (fun e he => ⟨fun ht => ⟨(hev e he).2.2, ht⟩, fun ht => ht.2⟩)

/-- One deposit, spread over two pools; the second is the active one. -/
def twoPoolRun : List Action :=
  setUpPool .usd (.contract 100) 1 1000 ++ setUpPool .usd (.contract 100) 2 1000 ++ joins 2 .usd 1000 ++
    [.vault [1] (.allocate (.contract 1) .usd 300), .vault [1] (.allocate (.contract 2) .usd 300)]

/-- Nothing was drained on the way, so the pointer told the truth all along. -/
theorem active_pool_truthful_twoPoolRun :
    (World.opening 1000 5000).Accepts twoPoolRun ∧
    ∀ e ∈ (World.opening 1000 5000).trace twoPoolRun, Truthful e.post := by
  have hrun : Run (HomeStep fun _ => .usd) (World.opening 1000 5000)
      ((World.opening 1000 5000).trace twoPoolRun) ((World.opening 1000 5000).after twoPoolRun) :=
    World.run_trace_home _ (by simp [twoPoolRun, setUpPool, joins, Action.Respects, Vault.Call.Names])
  refine ⟨by decide +kernel,
    (active_pool_truthful_iff (Genesis.opening (by decide)) hrun).2.2.mpr (fun e he => ?_)⟩
  have hl := Execution.trace_labels _ e he
  simp only [twoPoolRun, setUpPool, joins, List.cons_append, List.nil_append, List.mem_cons,
    List.not_mem_nil, or_false] at hl
  rcases hl with h | h | h | h | h | h | h | h | h | h <;> rw [h] <;> exact id

/-- **No active pool, and 300 still in one.** The keeper deallocates all of the second pool, the active
    one; the bucket reads as unallocated although the first pool is listed and holds 300. -/
theorem active_pool_none_though_allocated :
    Reachable Genesis (HomeStep fun _ => .usd) ((World.opening 1000 5000).after
      (twoPoolRun ++ [.vault [1] (.deallocate (.contract 2) .usd 300)])) ∧
    Vault.activePool ((World.opening 1000 5000).after
      (twoPoolRun ++ [.vault [1] (.deallocate (.contract 2) .usd 300)])) .usd = none ∧
    (((World.opening 1000 5000).after
      (twoPoolRun ++ [.vault [1] (.deallocate (.contract 2) .usd 300)])).bucket .usd).poolList
        = [.contract 1] ∧
    ((World.opening 1000 5000).after
      (twoPoolRun ++ [.vault [1] (.deallocate (.contract 2) .usd 300)])).position (.contract 1) = 300 := by
  refine ⟨(Genesis.opening (by decide)).reachable_home ?_, by decide +kernel, by decide +kernel,
    by decide +kernel⟩
  simp [twoPoolRun, setUpPool, joins, Action.Respects, Vault.Call.Names]

end SoroSense
