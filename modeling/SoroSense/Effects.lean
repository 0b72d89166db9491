import SoroSense.System
import SoroSense.Vault.Calls

/-!
# `Effects` — everything one step can do

`Step.effect` reads a step backwards: whatever the action, the world after it is one of the effects
below, under the guard that let it through. Every invariant is proved by cases on `Effect`, and no proof
after this module unfolds an entrypoint.

`reachable_wf` is the first of them: every reachable world is well formed.
-/

namespace SoroSense

open Fallible Sums Transition

/-! ## Effects -/

/-- Only flags changed: no money, no books, no proposals, no configuration. -/
structure Quiet (w w' : World) : Prop where
  timestamp   : w'.timestamp = w.timestamp
  tokens      : w'.tokens = w.tokens
  pools       : w'.pools = w.pools
  bucket      : w'.bucket = w.bucket
  exitCounter : w'.vault.exitCounter = w.vault.exitCounter
  config      : w'.vault.config = w.vault.config

namespace World

variable {w : World} {c d : Currency} {p q : Address}

/-- A field of the buckets that a proposal does not write. -/
theorem bucketField_proposed {β : Type} (f : Vault.Bucket → β)
    (hf : ∀ b e, f { b with pendingExit := e } = f b) :
    f ((w.proposed c p q).bucket d) = f (w.bucket d) := by
  rw [proposed, bucket_publish, bucket_updateBucket]
  split
  · rename_i hd; subst hd; exact hf _ _
  · rfl

end World

/-- **What one action can do to a world.** -/
inductive Effect (w : World) : Action → World → Prop where
  | reverted {a : Action} {e : Panic} (h : a.exec w = .error e) : Effect w a w
  | quiet {ids : List Nat} {call : Vault.Call} {w' : World}
      (h : call.exec (Auth.signers ids) w = .ok w') (q : Quiet w w') : Effect w (.vault ids call) w'
  | tokenSet {ids : List Nat} {c : Currency} {token : Address} :
      Effect w (.vault ids (.setToken c token)) (w.tokenSet c token)
  | poolConfigured {ids : List Nat} {c : Currency} {p : Address} :
      Effect w (.vault ids (.setConfiguredPool c p)) (w.poolConfigured c p)
  | proposed {ids : List Nat} {c : Currency} {p q : Address} :
      Effect w (.vault ids (.proposeExit c p q)) (w.proposed c p q)
  | deposited {ids : List Nat} {u : Address} {c : Currency} {amount minted : Int} {token : Address}
      (g : Vault.DepositGuard w (Auth.signers ids) u c amount minted token) :
      Effect w (.vault ids (.deposit u c amount)) (w.deposited u c amount minted token)
  | redeemed {ids : List Nat} {u : Address} {c : Currency} {shares assets : Int} {token : Address}
      (g : Vault.WithdrawGuard w (Auth.signers ids) u c shares assets token) :
      Effect w (.vault ids (.withdraw u c shares)) (w.redeemed u c shares assets token)
  | exited {ids : List Nat} {u : Address} {exitId : Nat} {c : Currency}
      {proposal : Vault.ExitProposal} {token : Address}
      (g : Vault.ExitGuard w (Auth.signers ids) u exitId c proposal token) :
      Effect w (.vault ids (.approveExit u exitId)) (w.exited c proposal token)
  | allocated {ids : List Nat} {p : Address} {c : Currency} {amount : Int} {token : Address}
      (g : Vault.AllocateGuard w (Auth.signers ids) p c amount token) :
      Effect w (.vault ids (.allocate p c amount))
        ((w.supplied p c amount token).publish (.allocated c p amount))
  | deallocated {ids : List Nat} {p : Address} {c : Currency} {amount : Int}
      (g : Vault.DeallocateGuard w (Auth.signers ids) p c amount) :
      Effect w (.vault ids (.deallocate p c amount))
        ((w.pulled p c amount).publish (.deallocated c p amount))
  | poolSupplied {ids : List Nat} {p u : Address} {amount : Int} {s : YieldPool.State}
      (hp : w.pools p = some s) (hu : ∃ id, u = .account id) (ha : 0 < amount)
      (hs : (s.supplied w.timestamp u amount).WF w.timestamp) :
      Effect w (.pool ids p (.supply u amount)) (w.setPool p (s.supplied w.timestamp u amount))
  | poolWithdrawn {ids : List Nat} {p u : Address} {amount : Int} {s : YieldPool.State}
      (hp : w.pools p = some s) (hu : ∃ id, u = .account id) (ha : 0 < amount)
      (hle : amount ≤ s.value w.timestamp u) (hl : amount ≤ w.tokens s.token p)
      (hs : (s.withdrawn w.timestamp u amount).WF w.timestamp) :
      Effect w (.pool ids p (.withdraw u amount))
        ((w.setTokens (w.tokens.move s.token p u amount)).setPool p (s.withdrawn w.timestamp u amount))
  | poolRated {ids : List Nat} {p : Address} {r : Nat} {s : YieldPool.State}
      (hp : w.pools p = some s) (hs : (s.rated w.timestamp r).WF w.timestamp) :
      Effect w (.pool ids p (.setRate r)) (w.setPool p (s.rated w.timestamp r))
  | transferred {ids : List Nat} {token u v : Address} {amount : Int} (hu : ∃ id, u = .account id)
      (h₀ : 0 ≤ amount) (hle : amount ≤ w.tokens token u) :
      Effect w (.transfer ids token u v amount) (w.setTokens (w.tokens.move token u v amount))
  | minted {token u : Address} {amount : Int} (h₀ : 0 ≤ amount) :
      Effect w (.mint token u amount) (w.setTokens (w.tokens.credit token u amount))
  | advanced {t : Nat} (hle : w.timestamp ≤ t) (ht : t ≤ u64Max) :
      Effect w (.advance t) { w with timestamp := t }
  | deployed {id : Nat} {admin token : Address} {r : Nat} {s : YieldPool.State} (hid : id ≠ 0)
      (hfree : w.pools (.contract id) = none) (hs : s.WF w.timestamp) (htok : s.token = token)
      (hnew : ∀ x, s.position x = none) :
      Effect w (.deployPool id admin token r) (w.setPool (.contract id) s)

/-! ## Reading a step backwards -/

section
variable {w w' : World} {ids : List Nat} {a : Action}

theorem Effect.of_call (h : w.WF) {call : Vault.Call}
    (hx : call.exec (Auth.signers ids) w = .ok w') : Effect w (.vault ids call) w' := by
  have hx₀ := hx
  cases call with
  | setPolicyConsent u =>
      obtain ⟨_, rfl⟩ := Vault.setPolicyConsent_eq_ok.mp hx
      refine .quiet hx₀ ?_
      split <;> exact ⟨rfl, rfl, rfl, rfl, rfl, rfl⟩
  | setAutoCompound u enabled =>
      obtain ⟨_, rfl⟩ := Vault.setAutoCompound_eq_ok.mp hx
      exact .quiet hx₀ ⟨rfl, rfl, rfl, rfl, rfl, rfl⟩
  | deposit u c amount =>
      obtain ⟨minted, token, g, rfl⟩ := Vault.deposit_eq_ok.mp hx
      exact .deposited g
  | withdraw u c shares =>
      obtain ⟨assets, token, g, rfl⟩ := (Vault.withdraw_eq_ok h).mp hx
      exact .redeemed g
  | approveExit u exitId =>
      obtain ⟨c, e, token, g, rfl⟩ := (Vault.approveExit_eq_ok h).mp hx
      exact .exited g
  | allocate p c amount =>
      obtain ⟨token, g, rfl⟩ := (Vault.allocate_eq_ok h).mp hx
      exact .allocated g
  | deallocate p c amount =>
      obtain ⟨g, rfl⟩ := (Vault.deallocate_eq_ok h).mp hx
      exact .deallocated g
  | freeze p =>
      obtain ⟨_, rfl⟩ := Vault.freeze_eq_ok.mp hx
      exact .quiet hx₀ ⟨rfl, rfl, rfl, rfl, rfl, rfl⟩
  | unfreeze p =>
      obtain ⟨_, rfl⟩ := Vault.unfreeze_eq_ok.mp hx
      exact .quiet hx₀ ⟨rfl, rfl, rfl, rfl, rfl, rfl⟩
  | proposeExit c p q =>
      obtain ⟨_, _, rfl⟩ := Vault.proposeExit_eq_ok.mp hx
      exact .proposed
  | pause =>
      obtain ⟨_, rfl⟩ := Vault.pause_eq_ok.mp hx
      exact .quiet hx₀ ⟨rfl, rfl, rfl, rfl, rfl, rfl⟩
  | unpause =>
      obtain ⟨_, rfl⟩ := Vault.unpause_eq_ok.mp hx
      exact .quiet hx₀ ⟨rfl, rfl, rfl, rfl, rfl, rfl⟩
  | setToken c token =>
      obtain ⟨_, rfl⟩ := Vault.setToken_eq_ok.mp hx
      exact .tokenSet
  | setPoolAllowed p allowed =>
      obtain ⟨_, rfl⟩ := Vault.setPoolAllowed_eq_ok.mp hx
      exact .quiet hx₀ ⟨rfl, rfl, rfl, rfl, rfl, rfl⟩
  | setConfiguredPool c p =>
      obtain ⟨_, rfl⟩ := Vault.setConfiguredPool_eq_ok.mp hx
      exact .poolConfigured

theorem Effect.of_pool (h : w.WF) {p : Address} {call : YieldPool.Call}
    (hx : (Action.pool ids p call).exec w = .ok w') : Effect w (.pool ids p call) w' := by
  cases call with
  | supply u amount =>
      obtain ⟨s, hp, hu, ha, hpr, hf, hft, rfl⟩ := (PoolClient.supply_eq_ok h.toPoolsWF).mp hx
      exact .poolSupplied hp (Auth.account_of_signers hu) ha
        ((h.pool_wf p s hp).supplied h.clock ha hf hft)
  | withdraw u amount =>
      obtain ⟨s, hp, hu, ha, hpr, hle, hl, rfl⟩ := (PoolClient.withdraw_eq_ok h.toPoolsWF).mp hx
      exact .poolWithdrawn hp (Auth.account_of_signers hu) ha hle hl
        ((h.pool_wf p s hp).withdrawn h.clock ha hle hpr)
  | setRate r =>
      obtain ⟨s, hp, _, hr, rfl⟩ := (PoolClient.setRate_eq_ok h.toPoolsWF).mp hx
      exact .poolRated hp ((h.pool_wf p s hp).rated h.clock hr)

/-- **Every step from a well-formed world is one of the effects.** -/
theorem Step.effect (h : w.WF) (hs : Step w a w') : Effect w a w' := by
  cases hs with
  | reverted he => exact .reverted he
  | done hx =>
      cases a with
      | vault ids call => exact .of_call h hx
      | pool ids p call => exact .of_pool h hx
      | transfer ids token u v amount =>
          simp only [Action.exec, bind_eq_ok, requireAuth_eq_ok, Vault.transfer_eq_ok, exists_const] at hx
          obtain ⟨hu, h₀, hle, rfl⟩ := hx
          exact .transferred (Auth.account_of_signers hu) h₀ hle
      | mint token u amount =>
          simp only [Action.exec, bind_eq_ok, failIf_eq_ok, ok_eq_ok, exists_const, not_lt] at hx
          obtain ⟨h₀, rfl⟩ := hx
          exact .minted h₀
      | advance t =>
          simp only [Action.exec, bind_eq_ok, failIf_eq_ok, ok_eq_ok, exists_const, not_or, not_lt] at hx
          obtain ⟨⟨hle, ht⟩, rfl⟩ := hx
          exact .advanced hle ht
      | deployPool id admin token r =>
          simp only [Action.exec, bind_eq_ok, failIf_eq_ok, ok_eq_ok, exists_const, not_or,
            Bool.not_eq_true, Option.isSome_eq_false_iff, Option.isNone_iff_eq_none] at hx
          obtain ⟨⟨hid, hfree⟩, s, hs, rfl⟩ := hx
          obtain ⟨hwf, htok, hnew⟩ := YieldPool.State.construct_wf hs
          exact .deployed hid hfree hwf htok hnew

/-! ## Reachable worlds are well formed -/

theorem Quiet.wf (h : w.WF) (q : Quiet w w') : w'.WF := by
  have hb : ∀ d, w'.bucket d = w.bucket d := fun d => congrFun q.bucket d
  refine h.rebook q.timestamp ?_ ?_ ?_ ?_ ?_ ?_ q.exitCounter
  · rw [q.tokens]; exact h.tokens_nonneg
  · rw [q.pools]; exact h.pool_wf
  · intro p; rw [q.pools]
  · intro d; rw [hb]; exact h.bucket_wf d
  · intro d p hp; rw [hb] at hp; exact h.listed d p hp
  · intro d e he; rw [hb] at he; exact he

/-- A new proposal takes the next id, so it collides with no pending one. -/
theorem World.WF.proposed {c : Currency} {p q : Address} (h : w.WF) : (w.proposed c p q).WF := by
  have hother : ∀ d e, ((w.proposed c p q).bucket d).pendingExit = some e →
      (d = c ∧ e = ⟨w.vault.exitCounter + 1, c, p, q⟩) ∨ (d ≠ c ∧ (w.bucket d).pendingExit = some e) := by
    intro d e he
    by_cases hd : d = c
    · subst hd
      left
      rw [World.proposed, World.bucket_publish, World.bucket_updateBucket_self] at he
      exact ⟨rfl, (Option.some.inj he).symm⟩
    · right
      rw [World.proposed, World.bucket_publish, World.bucket_updateBucket_ne hd] at he
      exact ⟨hd, he⟩
  have hbooks : ∀ d, ((w.proposed c p q).bucket d).WF ∧
      ((w.proposed c p q).bucket d).poolList = (w.bucket d).poolList := by
    intro d
    rw [World.proposed, World.bucket_publish, World.bucket_updateBucket]
    split
    · rename_i hd; subst hd; exact ⟨{ h.bucket_wf d with }, rfl⟩
    · exact ⟨h.bucket_wf d, rfl⟩
  exact
    { clock := h.clock
      pool_wf := h.pool_wf
      tokens_nonneg := h.tokens_nonneg
      pool_addr := h.pool_addr
      bucket_wf := fun d => (hbooks d).1
      listed := fun d p hp => h.listed d p ((hbooks d).2 ▸ hp)
      exit_currency := by
        intro d e he
        rcases hother d e he with ⟨rfl, rfl⟩ | ⟨_, he⟩
        · rfl
        · exact h.exit_currency d e he
      exit_issued := by
        intro d e he
        show e.id ≤ w.vault.exitCounter + 1
        rcases hother d e he with ⟨rfl, rfl⟩ | ⟨_, he⟩
        · exact le_refl _
        · exact Nat.le_succ_of_le (h.exit_issued d e he)
      exit_distinct := by
        intro d d' e e' he he' hid
        -- a pending id is one already issued, the new proposal's is the next one
        rcases hother d e he with ⟨hd, hnew⟩ | ⟨_, hold⟩ <;>
          rcases hother d' e' he' with ⟨hd', hnew'⟩ | ⟨_, hold'⟩
        · rw [hd, hd']
        · have := h.exit_issued d' e' hold'
          rw [hnew] at hid
          have hid : w.vault.exitCounter + 1 = e'.id := hid
          omega
        · have := h.exit_issued d e hold
          rw [hnew'] at hid
          have hid : e.id = w.vault.exitCounter + 1 := hid
          omega
        · exact h.exit_distinct d d' e e' hold hold' hid }

/-- Time passing keeps the world well formed. -/
theorem World.WF.advance {t : Nat} (h : w.WF) (hle : w.timestamp ≤ t) (ht : t ≤ u64Max) :
    World.WF { w with timestamp := t } where
  clock := ht
  pool_wf p s hs := (h.pool_wf p s hs).advance hle
  tokens_nonneg := h.tokens_nonneg
  pool_addr := h.pool_addr
  bucket_wf := h.bucket_wf
  listed := h.listed
  exit_currency := h.exit_currency
  exit_issued := h.exit_issued
  exit_distinct := h.exit_distinct

/-- So does a further pool. -/
theorem World.WF.deploy {id : Nat} {s : YieldPool.State} (h : w.WF) (hid : id ≠ 0)
    (hs : s.WF w.timestamp) : (w.setPool (.contract id) s).WF := by
  have hsplit : ∀ p t, (w.setPool (.contract id) s).pools p = some t →
      (p = .contract id ∧ t = s) ∨ w.pools p = some t := by
    intro p t ht
    rw [World.pools_setPool] at ht
    by_cases hp : p = .contract id
    · subst hp
      rw [Function.update_self] at ht
      exact Or.inl ⟨rfl, (Option.some.inj ht).symm⟩
    · rw [Function.update_of_ne hp] at ht
      exact Or.inr ht
  exact
    { clock := h.clock
      pool_wf := by
        intro p t ht
        rcases hsplit p t ht with ⟨rfl, rfl⟩ | ht
        · exact hs
        · exact h.pool_wf p t ht
      tokens_nonneg := h.tokens_nonneg
      pool_addr := by
        intro p t ht
        rcases hsplit p t ht with ⟨rfl, rfl⟩ | ht
        · exact ⟨id, rfl, hid⟩
        · exact h.pool_addr p t ht
      bucket_wf := h.bucket_wf
      listed := by
        intro d p hp
        have hsome := h.listed d p hp
        rw [World.pools_setPool]
        by_cases hpc : p = .contract id
        · subst hpc; simp
        · rw [Function.update_of_ne hpc]; exact hsome
      exit_currency := h.exit_currency
      exit_issued := h.exit_issued
      exit_distinct := h.exit_distinct }

/-- **Every effect keeps the world well formed.** -/
theorem Effect.wf (h : w.WF) (he : Effect w a w') : w'.WF := by
  cases he with
  | reverted _ => exact h
  | quiet _ q => exact q.wf h
  | @tokenSet _ c _ =>
      refine h.updateBucket ?_ rfl (fun _ he => he)
      exact { h.bucket_wf c with token_set := fun _ => rfl }
  | @poolConfigured _ c _ => exact h.updateBucket { h.bucket_wf c with } rfl (fun _ he => he)
  | proposed => exact h.proposed
  | deposited g => exact h.deposited g (Auth.account_of_signers g.signed)
  | redeemed g => exact h.redeemed g
  | exited g => exact h.exited g
  | allocated g => exact (h.supplied g.supplies).publish
  | deallocated g => exact (h.pulled g.pulls).publish
  | poolSupplied hp _ _ hs => exact h.setPool hp hs
  | poolWithdrawn hp _ ha _ hl hs =>
      exact (h.setTokens (Tokens.move_nonneg h.tokens_nonneg (le_of_lt ha) hl)).setPool hp hs
  | poolRated hp hs => exact h.setPool hp hs
  | transferred _ h₀ hle => exact h.setTokens (Tokens.move_nonneg h.tokens_nonneg h₀ hle)
  | minted h₀ =>
      refine h.setTokens (fun tok x => ?_)
      have := h.tokens_nonneg tok x
      rw [Tokens.credit_apply]
      split <;> omega
  | advanced hle ht => exact h.advance hle ht
  | deployed hid _ hs _ _ => exact h.deploy hid hs

theorem Vault.Bucket.WF.empty : Vault.Bucket.empty.WF where
  assets_nonneg := le_refl _
  assets_fits := I128.zero_fits
  shares_nonneg _ := le_refl _
  shares_sum := SumsTo.zero
  supply_fits := I128.zero_fits
  shares_account _ h := absurd rfl h
  token_set h := absurd rfl h
  holdings_nonneg _ := le_refl _
  holdings_fits _ := I128.zero_fits
  list_nodup := List.nodup_nil
  list_length := Nat.zero_le _

theorem Genesis.bucket_eq (h : Genesis w) (c : Currency) : w.bucket c = .empty := by
  obtain ⟨admin, keeper, config, hv⟩ := h.constructed
  rw [World.bucket, hv]
  rfl

theorem Genesis.wf (h : Genesis w) : w.WF where
  clock := h.clock
  pool_wf p s hs := absurd hs (by rw [h.no_pools]; simp)
  tokens_nonneg := h.tokens_nonneg
  pool_addr p s hs := absurd hs (by rw [h.no_pools]; simp)
  bucket_wf c := h.bucket_eq c ▸ Vault.Bucket.WF.empty
  listed c p hp := absurd hp (by rw [h.bucket_eq]; simp [Vault.Bucket.empty])
  exit_currency c e he := absurd he (by rw [h.bucket_eq]; simp [Vault.Bucket.empty])
  exit_issued c e he := absurd he (by rw [h.bucket_eq]; simp [Vault.Bucket.empty])
  exit_distinct c d e e' he _ _ := absurd he (by rw [h.bucket_eq]; simp [Vault.Bucket.empty])

theorem Step.wf (h : w.WF) (hs : Step w a w') : w'.WF := (hs.effect h).wf h

/-- A run from a well-formed world stays well formed: where it ends, -/
theorem run_wf {tr : List (Event World Action)} (h : w.WF) (hr : Run Step w tr w') : w'.WF :=
  hr.invariant (fun _ _ _ hw hs => hs.wf hw) h

/-- and before and after each of its transitions. -/
theorem run_events {tr : List (Event World Action)} (h : w.WF) (hr : Run Step w tr w') :
    ∀ e ∈ tr, e.pre.WF ∧ Step e.pre e.label e.post ∧ e.post.WF :=
  hr.invariant_events (fun _ _ _ hw hs => hs.wf hw) h

/-- **Every reachable world is well formed.** -/
theorem reachable_wf (h : Reachable Genesis Step w) : w.WF :=
  h.induct (fun _ hg => hg.wf) (fun _ _ _ _ hw hs => hs.wf hw)

/-! ## Steps outside the vault -/

/-- Nothing the vault keeps changed: its books stand, its positions only accrue (and an empty one stays
    empty), and nobody took tokens from it. -/
structure Outside (w w' : World) : Prop where
  bucket       : ∀ d, w'.bucket d = w.bucket d
  config       : w'.vault.config = w.vault.config
  position_le  : ∀ p, w.position p ≤ w'.position p
  position_pos : ∀ p, 0 < w'.position p → 0 < w.position p
  tokens_le    : ∀ token, w.tokens token vaultAddress ≤ w'.tokens token vaultAddress

/-- With every position as it was, only the vault's tokens are left to check. -/
theorem Outside.of_position_eq (hb : ∀ d, w'.bucket d = w.bucket d)
    (hc : w'.vault.config = w.vault.config) (hp : ∀ p, w'.position p = w.position p)
    (ht : ∀ token, w.tokens token vaultAddress ≤ w'.tokens token vaultAddress) : Outside w w' :=
  ⟨hb, hc, fun p => le_of_eq (hp p).symm, fun p h => hp p ▸ h, ht⟩

theorem Quiet.outside (q : Quiet w w') : Outside w w' :=
  .of_position_eq (fun d => congrFun q.bucket d) q.config
    (fun p => World.position_congr q.timestamp (congrFun q.pools p)) (fun _ => by rw [q.tokens])

/-- A pool rewritten without touching the vault's value leaves every position alone. -/
theorem World.position_setPool {p : Address} {s s' : YieldPool.State} (hp : w.pools p = some s)
    (hv : s'.value w.timestamp vaultAddress = s.value w.timestamp vaultAddress) (q : Address) :
    (w.setPool p s').position q = w.position q := by
  by_cases hq : q = p
  · subst hq
    rw [World.position_of_some (s := s') (by simp [World.pools_setPool]), World.position_of_some hp]
    exact hv
  · exact World.position_congr rfl (by rw [World.pools_setPool, Function.update_of_ne hq])

/-- Time only accrues. -/
theorem World.position_le_advance {t : Nat} (hle : w.timestamp ≤ t) (p : Address) :
    w.position p ≤ World.position { w with timestamp := t } p := by
  unfold World.position
  cases w.pools p with
  | none   => exact le_refl _
  | some s => exact YieldPool.State.value_mono hle

/-- An empty position stays empty. -/
theorem World.WF.position_advance_eq_zero {t : Nat} (h : w.WF) {p : Address} (hz : w.position p = 0) :
    World.position { w with timestamp := t } p = 0 := by
  unfold World.position at hz ⊢
  cases hp : w.pools p with
  | none   => rfl
  | some s =>
      rw [hp] at hz
      exact (h.pool_wf p s hp).value_eq_zero hz

/-- **What is not a vault call leaves everything the vault keeps alone.** -/
theorem Effect.outside (h : w.WF) (he : Effect w a w') (hv : ∀ ids call, a ≠ .vault ids call) :
    Outside w w' := by
  cases he with
  | reverted _ => exact .of_position_eq (fun _ => rfl) rfl (fun _ => rfl) (fun _ => le_refl _)
  | @poolSupplied _ p u amount s hp hu ha _ =>
      obtain ⟨id, rfl⟩ := hu
      refine .of_position_eq (fun _ => rfl) rfl (World.position_setPool hp ?_) (fun _ => le_refl _)
      have hv : 0 ≤ s.value w.timestamp (.account id) := (h.pool_wf p s hp).value_nonneg
      rw [YieldPool.State.value_supplied (by omega), if_neg (by simp [vaultAddress]), add_zero]
  | @poolWithdrawn _ p u amount s hp hu ha hle _ _ =>
      obtain ⟨id, rfl⟩ := hu
      refine .of_position_eq (fun _ => rfl) rfl ?_ ?_
      · refine World.position_setPool (w := w.setTokens _) hp ?_
        show (s.withdrawn w.timestamp (.account id) amount).value w.timestamp vaultAddress = _
        rw [YieldPool.State.value_withdrawn hle, if_neg (by simp [vaultAddress]), sub_zero]
        rfl
      · intro token
        refine le_of_eq (Tokens.move_of_ne token (Ne.symm (h.pool_ne_vault hp)) ?_).symm
        simp [vaultAddress]
  | poolRated hp _ =>
      exact .of_position_eq (fun _ => rfl) rfl
        (World.position_setPool hp YieldPool.State.value_rated) (fun _ => le_refl _)
  | @transferred _ token u v amount hu h₀ _ =>
      obtain ⟨id, rfl⟩ := hu
      refine .of_position_eq (fun _ => rfl) rfl (fun _ => rfl) (fun tok => ?_)
      show _ ≤ w.tokens.move token (.account id) v amount tok vaultAddress
      rw [Tokens.move_apply, if_neg (by simp [vaultAddress])]
      split <;> omega
  | @minted token u amount h₀ =>
      refine .of_position_eq (fun _ => rfl) rfl (fun _ => rfl) (fun tok => ?_)
      show _ ≤ w.tokens.credit token u amount tok vaultAddress
      rw [Tokens.credit_apply]
      split <;> omega
  | @advanced t hle _ =>
      refine ⟨fun _ => rfl, rfl, World.position_le_advance hle, fun p hpos => ?_, fun _ => le_refl _⟩
      have h₀ := h.position_nonneg p
      by_contra hn
      rw [h.position_advance_eq_zero (by omega)] at hpos
      exact absurd hpos (lt_irrefl 0)
  | @deployed id _ _ _ s _ hfree _ _ hnew =>
      refine .of_position_eq (fun _ => rfl) rfl (fun p => ?_) (fun _ => le_refl _)
      by_cases hp : p = .contract id
      · subst hp
        rw [World.position_of_some (s := s) (by simp [World.pools_setPool]), World.position_of_none hfree]
        exact YieldPool.State.value_of_none (hnew _)
      · exact World.position_congr rfl (by rw [World.pools_setPool, Function.update_of_ne hp])
  | _ => exact absurd rfl (hv _ _)

end

end SoroSense
