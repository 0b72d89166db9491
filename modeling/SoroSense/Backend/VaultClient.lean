import SoroSense.System
import SoroSense.Backend.Catalog
import SoroSense.Lib.Session

/-!
# `Backend.VaultClient` — the seam to the deployed vault

`packages/vault-client/src/real.ts`: the keeper's writes and the two reads its ticks make. The pool-taking
methods turn a pool slug into an address by the injected registry, the reads turn addresses back into
slugs, and a write reaches the ledger only when a signer of the right role submits it.

The network is the model's: `Live` says how each further request fares and what the clock shows. A write
that lands runs the vault's own code; one the vault refuses fails the simulation that assembles it, so it
throws. A write that is included although its answer is lost, so that it throws after all, is not among the
replies. The transaction hash is left out, nothing reads it.
-/

namespace SoroSense
namespace Backend

open Session

/-! ## The world outside -/

/-- How the network treats one request. -/
inductive Reply where
  /-- A read answers, a write is simulated, sent and included. -/
  | lands
  /-- A submitted transaction is not finalized as `SUCCESS`. -/
  | rejected
  /-- The request throws. -/
  | throws (message : String)
deriving DecidableEq

/-- What a running keeper is in front of: the chain, the replies to its further requests and the readings
    of its clock to come. -/
structure Live where
  world   : World
  replies : ℕ → Reply
  clock   : ℕ → ℚ

namespace Live

/-- The state after a request was replied to. -/
def answered (s : Live) (w : World) : Live := { s with world := w, replies := fun n => s.replies (n + 1) }

/-- The state after the clock was read. -/
def ticked (s : Live) : Live := { s with clock := fun n => s.clock (n + 1) }

@[simp] theorem world_answered (s : Live) (w : World) : (s.answered w).world = w := rfl

end Live

/-- `Date.now()`, or the injected clock. -/
def readClock : EStateM String Live ℚ := fun s => .ok (s.clock 0) s.ticked

/-- A simulated read. -/
def simulate {α : Type} (read : World → α) : EStateM String Live α := fun s =>
  match s.replies 0 with
  | .throws message => .error message (s.answered s.world)
  | _               => .ok (read s.world) (s.answered s.world)

/-! ## Signers and prepared writes -/

inductive SignerRole where
  | depositor
  | keeper
deriving DecidableEq

def SignerRole.name : SignerRole → String
  | .depositor => "depositor"
  | .keeper    => "keeper"

/-- A role and the account whose key signs. -/
structure Signer where
  role    : SignerRole
  account : Nat

structure TxResult where
  success : Bool
deriving DecidableEq

/-- The seam's exit proposal: its pools are slugs. -/
structure ExitProposal where
  id       : String
  currency : Currency
  fromPool : PoolId
  toPool   : PoolId

/-- A two-phase write: the role that has to sign it, and the call it assembles to. -/
structure PreparedTx where
  requiredSigner : SignerRole
  assemble       : Except String Vault.Call

/-- The text form of addresses. Parsing throws the SDK's own error. -/
structure Strkey where
  text       : SoroSense.Address → Address
  parse      : Address → Except String SoroSense.Address
  parse_text : ∀ a, parse (text a) = .ok a
  text_ne    : ∀ a, text a ≠ ""

/-- `RealVaultClient`. A resolver that throws and one that answers nothing look alike to it; `refusal` is
    the text of the error a refused simulation raises. -/
structure VaultClient where
  strkey      : Strkey
  resolvePool : Option (PoolId → Option Address)
  poolIdFor   : Option (Address → Option PoolId)
  refusal     : Panic → String

namespace VaultClient

variable (client : VaultClient)

/-! ## The registry -/

/-- The address a slug stands for. -/
def poolAddress (pool : PoolId) : Except String Address :=
  match client.resolvePool with
  | none         => .ok pool
  | some resolve =>
    match (resolve pool).filter (· ≠ "") with
    | some resolved => .ok resolved
    | none          => .error ("unknown pool: " ++ pool)

/-- The slug of an address; one the registry does not know is its own. -/
def poolId (address : Address) : PoolId :=
  match client.poolIdFor with
  | none         => address
  | some resolve => ((resolve address).filter (· ≠ "")).getD address

theorem poolId_ne_empty {address : Address} (h : address ≠ "") : client.poolId address ≠ "" := by
  unfold poolId
  cases client.poolIdFor with
  | none => exact h
  | some resolve =>
      show ((resolve address).filter (· ≠ "")).getD address ≠ ""
      cases hr : (resolve address).filter (· ≠ "") with
      | none      => exact h
      | some slug => simpa using (Option.filter_eq_some_iff.mp hr).2

/-! ## Writes -/

/-- `signAndSubmit` of a prepared write. -/
def signAndSubmit (tx : PreparedTx) (signer : Signer) : EStateM String Live TxResult := fun s =>
  if signer.role ≠ tx.requiredSigner then
    .error ("wrong signer: need " ++ tx.requiredSigner.name ++ ", got " ++ signer.role.name) s
  else
    match tx.assemble with
    | .error message => .error message s
    | .ok call =>
      match s.replies 0 with
      | .throws message => .error message (s.answered s.world)
      | .rejected       => .ok ⟨false⟩ (s.answered s.world)
      | .lands          =>
        match call.exec (Auth.signers [signer.account]) s.world with
        | .ok w    => .ok ⟨true⟩ (s.answered w)
        | .error e => .error (client.refusal e) (s.answered s.world)

/-- A keeper write that names one pool. -/
def poolWrite (pool : PoolId) (call : SoroSense.Address → Vault.Call) : Except String PreparedTx := do
  let address ← client.poolAddress pool
  .ok ⟨.keeper, do let p ← client.strkey.parse address; .ok (call p)⟩

def allocate (pool : PoolId) (c : Currency) (amount : Int) : Except String PreparedTx :=
  client.poolWrite pool fun p => .allocate p c amount

def deallocate (pool : PoolId) (c : Currency) (amount : Int) : Except String PreparedTx :=
  client.poolWrite pool fun p => .deallocate p c amount

def freeze (pool : PoolId) : Except String PreparedTx := client.poolWrite pool fun p => .freeze p

def unfreeze (pool : PoolId) : Except String PreparedTx := client.poolWrite pool fun p => .unfreeze p

def proposeExit (c : Currency) (fromPool toPool : PoolId) : Except String PreparedTx := do
  let fromAddress ← client.poolAddress fromPool
  let toAddress ← client.poolAddress toPool
  .ok ⟨.keeper, do
    let p ← client.strkey.parse fromAddress
    let q ← client.strkey.parse toAddress
    .ok (.proposeExit c p q)⟩

/-- The pool contract a slug names. -/
def Names (pool : PoolId) (p : SoroSense.Address) : Prop :=
  ∃ address, client.poolAddress pool = .ok address ∧ client.strkey.parse address = .ok p

/-- **A write that names a pool** assembles to its call on that pool. -/
theorem assemble_poolWrite {pool : PoolId} {call : SoroSense.Address → Vault.Call} {tx : PreparedTx}
    {assembled : Vault.Call} (hb : client.poolWrite pool call = .ok tx) (ha : tx.assemble = .ok assembled) :
    ∃ p, client.Names pool p ∧ assembled = call p := by
  obtain ⟨address, haddr, h⟩ := Fallible.bind_eq_ok.mp hb
  rw [← Except.ok.inj h] at ha
  obtain ⟨p, hp, hc⟩ := Fallible.bind_eq_ok.mp ha
  exact ⟨p, ⟨address, haddr, hp⟩, (Except.ok.inj hc).symm⟩

theorem names_unique {pool : PoolId} {p q : SoroSense.Address} (hp : client.Names pool p)
    (hq : client.Names pool q) : p = q := by
  obtain ⟨a, ha, hp⟩ := hp
  obtain ⟨b, hb, hq⟩ := hq
  rw [Fallible.ok_unique ha hb] at hp
  exact Fallible.ok_unique hp hq

/-- **A proposal** assembles to the call on the two pools it names. -/
theorem assemble_proposeExit {c : Currency} {pool target : PoolId} {tx : PreparedTx} {assembled : Vault.Call}
    (hb : client.proposeExit c pool target = .ok tx) (ha : tx.assemble = .ok assembled) :
    ∃ p q, client.Names pool p ∧ client.Names target q ∧ assembled = .proposeExit c p q := by
  obtain ⟨a, haddr, h⟩ := Fallible.bind_eq_ok.mp hb
  obtain ⟨b, hbddr, h⟩ := Fallible.bind_eq_ok.mp h
  rw [← Except.ok.inj h] at ha
  obtain ⟨p, hp, ha⟩ := Fallible.bind_eq_ok.mp ha
  obtain ⟨q, hq, ha⟩ := Fallible.bind_eq_ok.mp ha
  exact ⟨p, q, ⟨a, haddr, hp⟩, ⟨b, hbddr, hq⟩, (Except.ok.inj ha).symm⟩

/-! ## Reads -/

/-- The slug `active_pool` decodes to. -/
def activeSlug (w : World) (c : Currency) : Option PoolId :=
  (Vault.activePool w c).map fun p => client.poolId (client.strkey.text p)

def activePool (c : Currency) : EStateM String Live (Option PoolId) :=
  simulate fun w => client.activeSlug w c

/-- `fromBindingsExitProposal`. -/
def exitOf (p : Vault.ExitProposal) : ExitProposal :=
  { id := toString p.id
    currency := p.currency
    fromPool := client.poolId (client.strkey.text p.fromPool)
    toPool := client.poolId (client.strkey.text p.toPool) }

def pendingExit (c : Currency) : EStateM String Live (Option ExitProposal) :=
  simulate fun w => (Vault.pendingExit w c).map client.exitOf

theorem activeSlug_of_none {w : World} {c : Currency} (h : Vault.activePool w c = none) :
    client.activeSlug w c = none := by
  unfold activeSlug
  rw [h]
  rfl

theorem activeSlug_of_some {w : World} {c : Currency} {p : SoroSense.Address} (h : Vault.activePool w c = some p) :
    client.activeSlug w c = some (client.poolId (client.strkey.text p)) := by
  unfold activeSlug
  rw [h]
  rfl

theorem activeSlug_ne_empty {w : World} {c : Currency} {slug : PoolId} (h : client.activeSlug w c = some slug) :
    slug ≠ "" := by
  obtain ⟨p, _, rfl⟩ := Option.map_eq_some_iff.mp h
  exact client.poolId_ne_empty (client.strkey.text_ne p)

/-! ## What a submission leaves -/

/-- A relation between ledgers, of the states in front of the keeper. -/
def OnWorld (R : World → World → Prop) (s t : Live) : Prop := R s.world t.world

/-- A write that reaches the ledger and is accepted. -/
structure Lands (tx : PreparedTx) (signer : Signer) (s : Live) (call : Vault.Call) (w : World) : Prop where
  role     : signer.role = tx.requiredSigner
  assemble : tx.assemble = .ok call
  reply    : s.replies 0 = .lands
  exec     : call.exec (Auth.signers [signer.account]) s.world = .ok w

/-- **The three ends of a submission**: it throws, it resolves without success, or the vault ran the call.
    Only the last one moves the ledger. -/
theorem signAndSubmit_cases (tx : PreparedTx) (signer : Signer) (s : Live) :
    (∃ message t, (client.signAndSubmit tx signer).run s = .error message t ∧ t.world = s.world) ∨
      (s.replies 0 = .rejected ∧
        (client.signAndSubmit tx signer).run s = .ok ⟨false⟩ (s.answered s.world)) ∨
      ∃ call w, Lands tx signer s call w ∧
        (client.signAndSubmit tx signer).run s = .ok ⟨true⟩ (s.answered w) := by
  simp only [EStateM.run, signAndSubmit]
  by_cases hrole : signer.role = tx.requiredSigner
  · rw [if_neg (not_not.mpr hrole)]
    cases ha : tx.assemble with
    | error message => exact .inl ⟨message, s, rfl, rfl⟩
    | ok call =>
        cases hr : s.replies 0 with
        | throws message => exact .inl ⟨message, s.answered s.world, rfl, rfl⟩
        | rejected       => exact .inr (.inl ⟨rfl, rfl⟩)
        | lands =>
            cases hx : call.exec (Auth.signers [signer.account]) s.world with
            | error e => exact .inl ⟨client.refusal e, s.answered s.world, by simp only [hx], rfl⟩
            | ok w    => exact .inr (.inr ⟨call, w, ⟨hrole, ha, hr, hx⟩, by simp only [hx]⟩)
  · rw [if_pos hrole]
    exact .inl ⟨_, s, rfl, rfl⟩

end VaultClient
end Backend
end SoroSense
