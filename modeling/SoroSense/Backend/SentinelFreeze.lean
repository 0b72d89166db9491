import SoroSense.Backend.Wire
import SoroSense.Vault.Calls

/-!
# `Backend.SentinelFreeze` — the freeze-authorization path

`backend/src/sentinel/freeze.ts`: an anomaly becomes an on-chain `freeze` that the keeper's key signs. A pool that
is frozen already is left alone; a submission that fails is tried again, and when no attempt succeeds an alert is
raised.

`maxRetries` is a whole number, and may be negative: the loop then makes no attempt. The alerts of a call are
returned beside its outcome.
-/

namespace SoroSense.Backend

open Courier Session

inductive FreezeOutcome where
  | frozen (pool : PoolId) (txHash : String)
  | alreadyFrozen (pool : PoolId)
  | failed (pool : PoolId) (error : String)
deriving DecidableEq

structure FreezeDeps where
  vault      : VaultClient
  keeper     : Signer
  maxRetries : Option Int

namespace FreezeDeps

variable (deps : FreezeDeps)

/-- `maxRetries ?? 2`. -/
def retries : Int := deps.maxRetries.getD 2

/-- How often the loop runs. -/
def attempts : ℕ := (deps.retries + 1).toNat

/-- The `try` of an attempt: the hash, or what `lastErr` becomes. -/
def submitFreeze (pool : PoolId) : EStateM String Wire (Except String String) := do
  let tx ← lift (deps.vault.freeze pool)
  let res ← deps.vault.submitTx tx deps.keeper
  pure (if res.status = .success then .ok res.answer else .error ("submit reported failure (" ++ res.answer ++ ")"))

/-- One attempt. -/
def tryFreeze (pool : PoolId) : EStateM String Wire (Except String String) :=
  tryCatch (deps.submitFreeze pool) fun message => pure (.error message)

/-- The loop, with so many attempts left. -/
def freezeLoop (pool : PoolId) : ℕ → String → EStateM String Wire (Except String String)
  | 0, lastErr     => pure (.error lastErr)
  | n + 1, _       => do
    let res ← deps.tryFreeze pool
    match res with
    | .ok txHash     => pure (.ok txHash)
    | .error lastErr => freezeLoop pool n lastErr

/-- What the loop's end comes to, and the alert. -/
def conclude (pool : PoolId) : Except String String → FreezeOutcome × List String
  | .ok txHash     => (.frozen pool txHash, [])
  | .error lastErr => (.failed pool lastErr,
      ["freeze(" ++ pool ++ ") failed after " ++ toString (deps.retries + 1) ++ " attempts: " ++ lastErr])

/-- `freezePool`. -/
def freezePool (pool : PoolId) : EStateM String Wire (FreezeOutcome × List String) :=
  if deps.keeper.role ≠ .keeper then pure (.failed pool "signer is not the keeper", [])
  else do
    let status ← deps.vault.askPoolStatus pool
    if status = .frozen then pure (.alreadyFrozen pool, [])
    else do
      let res ← deps.freezeLoop pool deps.attempts "unknown error"
      pure (deps.conclude pool res)

end FreezeDeps

/-! ## What it submits -/

variable {deps : FreezeDeps} {φ : Action → Prop} {pool : PoolId} {p : SoroSense.Address} {n n' : Wire}

/-- The one call of the freeze path. -/
def FreezeDeps.call (deps : FreezeDeps) (p : SoroSense.Address) : SignedCall := ⟨deps.keeper.account, .freeze p⟩

theorem sends_submitFreeze (hp : ∀ q, deps.vault.Names pool q → q = p) :
    Sends deps.vault.wire φ [deps.call p] (deps.submitFreeze pool) := by
  intro n hn
  unfold FreezeDeps.submitFreeze
  cases htx : deps.vault.freeze pool with
  | error message => exact .refl hn
  | ok tx =>
      have hsubmit : Sends deps.vault.wire φ [deps.call p] (deps.vault.submitTx tx deps.keeper) := by
        refine sends_submitTx fun call hcall => ?_
        obtain ⟨q, hq, rfl⟩ := deps.vault.assemble_poolWrite htx hcall
        rw [hp q hq]
        exact List.Sublist.refl _
      exact hsubmit.before_read (fun res => sends_pure _) n hn

/-- **One attempt submits the freeze of the pool it names, at most.** -/
theorem sends_tryFreeze (hp : ∀ q, deps.vault.Names pool q → q = p) :
    Sends deps.vault.wire φ [deps.call p] (deps.tryFreeze pool) :=
  (sends_submitFreeze hp).tryCatch fun _ => sends_pure _

/-- The attempts submit it once each. -/
theorem sends_freezeLoop (hp : ∀ q, deps.vault.Names pool q → q = p) (k : ℕ) (lastErr : String) :
    Sends deps.vault.wire φ (List.replicate k (deps.call p)) (deps.freezeLoop pool k lastErr) := by
  induction k generalizing lastErr with
  | zero => exact sends_pure _
  | succ k ih =>
      unfold FreezeDeps.freezeLoop
      rw [List.replicate_succ]
      refine (sends_tryFreeze hp).bind fun res => ?_
      cases res with
      | ok txHash     => exact (sends_pure _).mono (List.nil_sublist _)
      | error lastErr => exact ih lastErr

theorem sends_freezePool (hp : ∀ q, deps.vault.Names pool q → q = p) :
    Sends deps.vault.wire φ (List.replicate deps.attempts (deps.call p)) (deps.freezePool pool) := by
  unfold FreezeDeps.freezePool
  split
  · exact (sends_pure _).mono (List.nil_sublist _)
  · refine (sends_askPoolStatus pool).after_read fun status => ?_
    split
    · exact (sends_pure _).mono (List.nil_sublist _)
    · exact (sends_freezeLoop hp _ _).before_read fun res => sends_pure _

/-! ## What it says -/

/-- An attempt that succeeds leaves the pool frozen. -/
theorem frozen_of_tryFreeze {txHash : String} (h : (deps.tryFreeze pool).run n = .ok (.ok txHash) n') :
    ∃ q, deps.vault.Names pool q ∧ Vault.poolStatus n'.post.ledger q = .frozen := by
  have hsubmit : (deps.submitFreeze pool).run n = .ok (.ok txHash) n' := by
    cases hrun : (deps.submitFreeze pool).run n with
    | ok res m =>
        rw [← h]
        exact (run_tryCatch_of_ok hrun).symm
    | error message m =>
        -- a failure that was caught is no success
        have hcaught : (deps.tryFreeze pool).run n = .ok (.error message) m := run_tryCatch_of_error hrun
        rw [hcaught] at h
        injection h with hres
        injection hres
  obtain ⟨tx, m, hlift, hrest⟩ := run_bind_eq_ok.mp hsubmit
  obtain ⟨htx, rfl⟩ := run_lift_eq_ok.mp hlift
  obtain ⟨sent, m, hsent, hrest⟩ := run_bind_eq_ok.mp hrest
  obtain ⟨hres, rfl⟩ := run_pure_eq_ok.mp hrest
  have hstatus : sent.status = .success := by
    by_contra hno
    rw [if_neg hno] at hres
    injection hres
  obtain ⟨call, q, w, hcall, haccept, hpost⟩ := landed_of_submitTx hsent hstatus
  obtain ⟨a, ha, rfl⟩ := deps.vault.assemble_poolWrite htx hcall
  obtain ⟨_, rfl⟩ := Vault.freeze_eq_ok.mp (accept_wire.mp haccept)
  refine ⟨a, ha, ?_⟩
  rw [hpost]
  exact if_pos (Function.update_self ..)

/-- The loop succeeds at an attempt that did. -/
theorem frozen_of_freezeLoop {txHash lastErr : String} {k : ℕ}
    (h : (deps.freezeLoop pool k lastErr).run n = .ok (.ok txHash) n') :
    ∃ q, deps.vault.Names pool q ∧ Vault.poolStatus n'.post.ledger q = .frozen := by
  induction k generalizing lastErr n with
  | zero =>
      obtain ⟨hres, _⟩ := run_pure_eq_ok.mp h
      injection hres
  | succ k ih =>
      obtain ⟨res, m, hres, hrest⟩ := run_bind_eq_ok.mp h
      cases res with
      | ok hash =>
          obtain ⟨_, rfl⟩ := run_pure_eq_ok.mp hrest
          exact frozen_of_tryFreeze hres
      | error message => exact ih hrest

/-- The outcomes that say that the pool is frozen. -/
def FreezeOutcome.Says (outcome : FreezeOutcome) : Prop :=
  match outcome with
  | .failed _ _ => False
  | _           => True

/-- **An outcome that says so is true when it is returned**; otherwise the pool of the call is named in the alert,
    unless the signer is not the keeper. -/
theorem freezePool_outcome {outcome : FreezeOutcome} {alerts : List String} (hn : n.Fair φ)
    (h : (deps.freezePool pool).run n = .ok (outcome, alerts) n') :
    (outcome.Says → alerts = [] ∧ ∃ q, deps.vault.Names pool q ∧ Vault.poolStatus n'.post.ledger q = .frozen) ∧
      (¬ outcome.Says → ∃ lastErr, outcome = .failed pool lastErr ∧
        alerts = if deps.keeper.role = .keeper then (deps.conclude pool (.error lastErr)).2 else []) := by
  unfold FreezeDeps.freezePool at h
  split at h
  · rename_i hrole
    obtain ⟨hres, rfl⟩ := run_pure_eq_ok.mp h
    injection hres with houtcome halerts
    subst houtcome halerts
    exact ⟨fun hsays => hsays.elim, fun _ => ⟨_, rfl, (if_neg hrole).symm⟩⟩
  · rename_i hrole
    obtain ⟨status, m, hstatus, hrest⟩ := run_bind_eq_ok.mp h
    split at hrest
    · rename_i hfrozen
      obtain ⟨hres, rfl⟩ := run_pure_eq_ok.mp hrest
      injection hres with houtcome halerts
      subst houtcome halerts
      obtain ⟨q, hq, hread⟩ := askPoolStatus_eq_ok hn hstatus
      exact ⟨fun _ => ⟨rfl, q, hq, hread.trans hfrozen⟩, fun hno => absurd trivial hno⟩
    · obtain ⟨res, m', hloop, hrest⟩ := run_bind_eq_ok.mp hrest
      obtain ⟨hres, rfl⟩ := run_pure_eq_ok.mp hrest
      cases res with
      | ok txHash =>
          injection hres with houtcome halerts
          subst houtcome halerts
          exact ⟨fun _ => ⟨rfl, frozen_of_freezeLoop hloop⟩, fun hno => absurd trivial hno⟩
      | error lastErr =>
          injection hres with houtcome halerts
          subst houtcome halerts
          exact ⟨fun hsays => hsays.elim, fun _ => ⟨lastErr, rfl, (if_pos (not_not.mp hrole)).symm⟩⟩

end SoroSense.Backend
