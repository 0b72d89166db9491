import SoroSense.Backend.VaultClient
import SoroSense.Lib.Courier

/-!
# `Backend.Wire` — the seam over a network that loses and delays

The client of `Backend.VaultClient` once more, in front of a network that may lose the answer to a submission or
include it later, while others use the vault (`Lib.Courier`). A signer of the wrong role submits nothing, a call
that cannot be assembled neither.
-/

namespace SoroSense.Backend

open Courier Session

/-- A call on the vault, and the account whose key signed it. -/
structure SignedCall where
  account : ℕ
  call    : Vault.Call
deriving DecidableEq

/-- The vault in front of a client. -/
abbrev Wire := Net World SignedCall Action

namespace VaultClient

variable (client : VaultClient)

/-- A signed call runs the vault's code; others act, and an action that panics reverts. -/
def wire : Rules World SignedCall Action where
  accept w tx := (tx.call.exec (Auth.signers [tx.account]) w).mapError client.refusal
  act w a :=
    match a.exec w with
    | .ok w'   => w'
    | .error _ => w

/-- `signAndSubmit` of a prepared write. -/
def submitTx (tx : PreparedTx) (signer : Signer) : EStateM String Wire Sent :=
  if signer.role ≠ tx.requiredSigner then
    throw ("wrong signer: need " ++ tx.requiredSigner.name ++ ", got " ++ signer.role.name)
  else
    match tx.assemble with
    | .error message => throw message
    | .ok call       => send client.wire ⟨signer.account, call⟩

/-- The contract a pool-taking method calls for. -/
def poolTarget (pool : PoolId) : Except String SoroSense.Address := do
  let address ← client.poolAddress pool
  client.strkey.parse address

/-- `poolStatus`. -/
def askPoolStatus (pool : PoolId) : EStateM String Wire Vault.PoolStatus :=
  match client.poolTarget pool with
  | .error message => throw message
  | .ok p          => ask client.wire fun w => .ok (Vault.poolStatus w p)

end VaultClient

/-! ## What it submits -/

variable {client : VaultClient} {φ : Action → Prop} {l : List SignedCall} {tx : PreparedTx} {signer : Signer}
  {n n' : Wire} {w w' : World}

theorem poolTarget_eq_ok {pool : PoolId} {p : SoroSense.Address} :
    client.poolTarget pool = .ok p ↔ client.Names pool p := Fallible.bind_eq_ok

/-- What others do is a step of the system, or nothing. -/
theorem act_wire (a : Action) : Step w a (client.wire.act w a) := by
  show Step w a (match a.exec w with | .ok w' => w' | .error _ => w)
  cases hx : a.exec w with
  | ok w'   => exact .done hx
  | error e => exact .reverted hx

theorem accept_wire {s : SignedCall} :
    client.wire.accept w s = .ok w' ↔ s.call.exec (Auth.signers [s.account]) w = .ok w' := by
  show (s.call.exec _ w).mapError client.refusal = _ ↔ _
  cases s.call.exec (Auth.signers [s.account]) w with
  | ok v    => exact ⟨fun h => congrArg _ (Except.ok.inj h), fun h => congrArg _ (Except.ok.inj h)⟩
  | error e => exact ⟨fun h => absurd h (by simp [Except.mapError]), fun h => absurd h (by simp)⟩

/-- A call that is accepted is a step of the system. -/
theorem step_of_accept {s : SignedCall} (h : client.wire.accept w s = .ok w') :
    Step w (.vault [s.account] s.call) w' := .done (accept_wire.mp h)

/-- **A prepared write submits what it assembles to**, if anything. -/
theorem sends_submitTx (h : ∀ call, tx.assemble = .ok call → [(⟨signer.account, call⟩ : SignedCall)].Sublist l) :
    Sends client.wire φ l (client.submitTx tx signer) := by
  unfold VaultClient.submitTx
  split
  · exact sends_throw _
  · cases ha : tx.assemble with
    | error message => exact sends_throw _
    | ok call       => exact (sends_send _).mono (h call ha)

/-- A write that was seen to succeed has just run. -/
theorem landed_of_submitTx {sent : Sent} (h : (client.submitTx tx signer).run n = .ok sent n')
    (hsent : sent.status = .success) :
    ∃ (call : Vault.Call) (p : Post World SignedCall) (w : World), tx.assemble = .ok call ∧
      client.wire.accept p.ledger ⟨signer.account, call⟩ = .ok w ∧
      n'.post = p.lands w ⟨signer.account, call⟩ := by
  unfold VaultClient.submitTx at h
  split at h
  · injection h
  · cases ha : tx.assemble with
    | error message =>
        rw [ha] at h
        injection h
    | ok call =>
        rw [ha] at h
        obtain ⟨p, w, haccept, hpost⟩ := landed_of_run_send h hsent
        exact ⟨call, p, w, rfl, haccept, hpost⟩

theorem sends_askPoolStatus (pool : PoolId) : Sends client.wire φ [] (client.askPoolStatus pool) := by
  unfold VaultClient.askPoolStatus
  cases client.poolTarget pool with
  | error message => exact sends_throw _
  | ok p          => exact sends_ask _

/-- The status that is read is that of the pool the slug names. -/
theorem askPoolStatus_eq_ok {pool : PoolId} {status : Vault.PoolStatus} (hn : n.Fair φ)
    (h : (client.askPoolStatus pool).run n = .ok status n') :
    ∃ p, client.Names pool p ∧ Vault.poolStatus n'.post.ledger p = status := by
  unfold VaultClient.askPoolStatus at h
  cases hp : client.poolTarget pool with
  | error message =>
      rw [hp] at h
      injection h
  | ok p =>
      rw [hp] at h
      obtain ⟨_, hread⟩ := run_ask_eq_ok hn h
      exact ⟨p, poolTarget_eq_ok.mp hp, Except.ok.inj hread⟩

end SoroSense.Backend
