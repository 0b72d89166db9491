import SoroSense.YieldPool.Contract

/-!
# `Vault.Storage` — the vault's data, the world around it, and its two clients

`contracts/vault/src/{types,storage,events,blend}.rs`. The persistent keys that carry a currency
(`Token`, `Shares(_, c)`, `TotalShares(c)`, …, `PendingExit(c)`) are gathered in one `Bucket` per
currency; the per-address keys and the instance keys are fields of `State`. A read of an absent key is
the default the source reads (`0`, `false`, the empty list; `true` for auto-compound).

`World` is everything a vault call can touch: the clock, the token ledger, the pool contracts and the
vault's own storage. `World.transfer` and `PoolClient` are the two clients the vault calls out with.
Entry lifetimes (TTL bumps) are left out.
-/

namespace SoroSense

open Fallible

/-! ## Types (`types.rs`) -/

/-- Bucket denomination. -/
inductive Currency where
  | usd
  | eur
  | mxn
deriving DecidableEq, Repr

/-- The vault's own address. -/
def vaultAddress : Address := .contract 0

namespace Vault

/-- Instance config set at deploy. -/
structure Config where
  perPoolCap      : Int
  minFirstDeposit : Int
  virtualOffset   : Int
deriving DecidableEq, Repr

/-- Pool lifecycle status. -/
inductive PoolStatus where
  | active
  | frozen
deriving DecidableEq, Repr

/-- A keeper-proposed safe exit after a freeze. -/
structure ExitProposal where
  id       : Nat
  currency : Currency
  fromPool : Address
  toPool   : Address
deriving DecidableEq, Repr

/-- The contract's events (`events.rs`). -/
inductive Event where
  | deposit (depositor : Address) (currency : Currency) (amount shares : Int)
  | withdraw (depositor : Address) (currency : Currency) (amount shares : Int)
  | autoCompoundSet (depositor : Address) (enabled : Bool)
  | consentSet (depositor : Address)
  | allocated (currency : Currency) (pool : Address) (amount : Int)
  | deallocated (currency : Currency) (pool : Address) (amount : Int)
  | frozen (pool : Address)
  | unfrozen (pool : Address)
  | exitProposed (currency : Currency) (id : Nat)
  | exitApproved (currency : Currency) (id : Nat)
deriving DecidableEq, Repr

/-! ## Storage (`storage.rs`) -/

/-- Upper bound on how many distinct pools a currency bucket may hold at once. -/
def maxPoolsPerCurrency : Nat := 12

/-- Everything keyed by one currency. -/
structure Bucket where
  token          : Option Address
  configuredPool : Option Address
  shares         : Address → Int
  totalShares    : Int
  totalAssets    : Int
  activePool     : Option Address
  poolList       : List Address
  poolHoldings   : Address → Int
  pendingExit    : Option ExitProposal

/-- The vault's storage, with the events it has published so far. -/
structure State where
  admin        : Address
  keeper       : Address
  config       : Config
  paused       : Bool
  exitCounter  : Nat
  bucket       : Currency → Bucket
  allowedPool  : Address → Bool
  consent      : Address → Bool
  autoCompound : Address → Bool
  frozen       : Address → Bool
  events       : List Event

/-- Add `pool` to the bucket's NAV list if absent; `none` when the list is already full. -/
def addToPoolList (list : List Address) (pool : Address) : Option (List Address) :=
  if pool ∈ list then some list
  else if maxPoolsPerCurrency ≤ list.length then none
  else some (list ++ [pool])

/-- Drop `pool` from the bucket's NAV list (no-op if absent). -/
def removeFromPoolList (list : List Address) (pool : Address) : List Address := list.erase pool

/-- Storage of a bucket nobody has touched. -/
def Bucket.empty : Bucket :=
  { token := none, configuredPool := none, shares := fun _ => 0, totalShares := 0, totalAssets := 0,
    activePool := none, poolList := [], poolHoldings := fun _ => 0, pendingExit := none }

/-- `__constructor`. -/
def construct (admin keeper : Address) (config : Config) : State :=
  { admin := admin, keeper := keeper, config := config, paused := false, exitCounter := 0,
    bucket := fun _ => .empty, allowedPool := fun _ => false, consent := fun _ => false,
    autoCompound := fun _ => true, frozen := fun _ => false, events := [] }

end Vault

/-! ## The world -/

/-- The ledger as the contracts see it. -/
structure World where
  timestamp : Nat
  tokens    : Tokens
  pools     : Address → Option YieldPool.State
  vault     : Vault.State

namespace World

variable (w : World)

/-- The bucket of one currency. -/
def bucket (c : Currency) : Vault.Bucket := w.vault.bucket c

/-- Rewrite the bucket of one currency. -/
def updateBucket (c : Currency) (f : Vault.Bucket → Vault.Bucket) : World :=
  { w with vault := { w.vault with bucket := Function.update w.vault.bucket c (f (w.vault.bucket c)) } }

/-- Store the state of one pool contract. -/
def setPool (pool : Address) (s : YieldPool.State) : World :=
  { w with pools := Function.update w.pools pool (some s) }

def setTokens (tokens : Tokens) : World := { w with tokens := tokens }

/-- `events::…publish(&env)`. -/
def publish (e : Vault.Event) : World :=
  { w with vault := { w.vault with events := w.vault.events ++ [e] } }

/-! ### What each write leaves alone -/

section
variable {w} {c d : Currency} {f : Vault.Bucket → Vault.Bucket} {p : Address} {s : YieldPool.State}
  {t : Tokens} {e : Vault.Event}

/-- Only the named bucket is rewritten. -/
theorem bucket_updateBucket :
    (w.updateBucket c f).bucket d = if d = c then f (w.bucket c) else w.bucket d := by
  unfold bucket updateBucket
  by_cases h : d = c
  · subst h; simp
  · simp [h]

@[simp] theorem bucket_updateBucket_self : (w.updateBucket c f).bucket c = f (w.bucket c) := by
  rw [bucket_updateBucket, if_pos rfl]

theorem bucket_updateBucket_ne (h : d ≠ c) : (w.updateBucket c f).bucket d = w.bucket d := by
  rw [bucket_updateBucket, if_neg h]

/-- A field of the buckets that the rewrite keeps. -/
theorem bucketField_updateBucket {β : Type} (g : Vault.Bucket → β)
    (hg : g (f (w.bucket c)) = g (w.bucket c)) : g ((w.updateBucket c f).bucket d) = g (w.bucket d) := by
  rw [bucket_updateBucket]
  split
  · rename_i hd; subst hd; exact hg
  · rfl

@[simp] theorem bucket_setPool : (w.setPool p s).bucket d = w.bucket d := rfl
@[simp] theorem bucket_setTokens : (w.setTokens t).bucket d = w.bucket d := rfl
@[simp] theorem bucket_publish : (w.publish e).bucket d = w.bucket d := rfl

@[simp] theorem pools_updateBucket : (w.updateBucket c f).pools = w.pools := rfl
@[simp] theorem pools_setTokens : (w.setTokens t).pools = w.pools := rfl
@[simp] theorem pools_publish : (w.publish e).pools = w.pools := rfl
theorem pools_setPool : (w.setPool p s).pools = Function.update w.pools p (some s) := rfl

@[simp] theorem tokens_updateBucket : (w.updateBucket c f).tokens = w.tokens := rfl
@[simp] theorem tokens_setPool : (w.setPool p s).tokens = w.tokens := rfl
@[simp] theorem tokens_publish : (w.publish e).tokens = w.tokens := rfl
@[simp] theorem tokens_setTokens : (w.setTokens t).tokens = t := rfl

@[simp] theorem timestamp_updateBucket : (w.updateBucket c f).timestamp = w.timestamp := rfl
@[simp] theorem timestamp_setPool : (w.setPool p s).timestamp = w.timestamp := rfl
@[simp] theorem timestamp_setTokens : (w.setTokens t).timestamp = w.timestamp := rfl
@[simp] theorem timestamp_publish : (w.publish e).timestamp = w.timestamp := rfl

@[simp] theorem vault_setPool : (w.setPool p s).vault = w.vault := rfl
@[simp] theorem vault_setTokens : (w.setTokens t).vault = w.vault := rfl

end

/-- `token::Client::new(&env, &token).transfer(..)`. -/
def transfer (token sender recipient : Address) (amount : Int) : Except Panic World := do
  let tokens ← w.tokens.transfer token sender recipient amount
  .ok (w.setTokens tokens)

end World

/-! ## The pool client (`blend.rs`) -/

namespace PoolClient

variable (w : World) (auth : Auth) (pool : Address)

def supply (sender : Address) (amount : Int) : Except Panic World := do
  let s ← orFail (w.pools pool) .noContract
  let s ← YieldPool.supply auth w.timestamp s sender amount
  .ok (w.setPool pool s)

def withdraw (recipient : Address) (amount : Int) : Except Panic World := do
  let s ← orFail (w.pools pool) .noContract
  let (s, tokens) ← YieldPool.withdraw auth w.timestamp pool s w.tokens recipient amount
  .ok ((w.setTokens tokens).setPool pool s)

def setRate (rateBps : Nat) : Except Panic World := do
  let s ← orFail (w.pools pool) .noContract
  let s ← YieldPool.setRate auth w.timestamp s rateBps
  .ok (w.setPool pool s)

def balance (who : Address) : Except Panic Int := do
  let s ← orFail (w.pools pool) .noContract
  YieldPool.balance w.timestamp s who

end PoolClient

end SoroSense
