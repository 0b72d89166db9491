import SoroSense.Vault.Storage

/-!
# `Vault.Contract` — the vault, function by function

`contracts/vault/src/{guard,nav,shares,allocate,lib}.rs`, in the order of the calls: guards, the
mark-to-market NAV, share accounting, the allocation helpers, the entrypoints, the reads. Checks stand
in the source's order, so the first one that fails decides the error.

`upgrade` is not modelled: it replaces this code, and every run below is a run of this code.
-/

namespace SoroSense
namespace Vault

open Fallible

/-- The authorisation of a call the vault itself makes. -/
def selfAuth : Auth := Auth.invoker vaultAddress

/-! ## Guards (`guard.rs`) -/

def requireKeeper (w : World) (auth : Auth) : Except Panic Unit := requireAuth auth w.vault.keeper

def requireAdmin (w : World) (auth : Auth) : Except Panic Unit := requireAuth auth w.vault.admin

def requireNotPaused (w : World) : Except Panic Unit := failIf (w.vault.paused = true) (.vault .paused)

/-! ## NAV (`nav.rs`) -/

/-- The bucket's idle (un-pooled) balance. -/
def idle (w : World) (c : Currency) : Int := (w.bucket c).totalAssets

/-- Net asset value of a bucket: idle plus every listed pool's valued balance. -/
def nav (w : World) (c : Currency) : Except Panic Int :=
  (w.bucket c).poolList.foldlM
    (fun total pool => do
      let held ← PoolClient.balance w pool vaultAddress
      I128.add total held)
    (idle w c)

/-! ## Shares (`shares.rs`) -/

/-- Fixed-point scale of the NAV-per-share ray. -/
def sharePriceScale : Int := 1000000000

/-- `a * (b + V) / (d + V)`, the shape of the three share formulas. -/
def mulDiv (a b d virtualOffset : Int) : Except Panic Int := do
  let b' ← I128.add b virtualOffset
  let product ← I128.mul a b'
  let d' ← I128.add d virtualOffset
  I128.div product d'

/-- Shares minted for depositing `amount`. -/
def mintShares (w : World) (c : Currency) (amount virtualOffset : Int) : Except Panic Int := do
  let totalShares := (w.bucket c).totalShares
  let nav ← nav w c
  mulDiv amount totalShares nav virtualOffset

/-- Assets returned for redeeming `shares`. -/
def redeemAssets (w : World) (c : Currency) (shares virtualOffset : Int) : Except Panic Int := do
  let totalShares := (w.bucket c).totalShares
  let nav ← nav w c
  mulDiv shares nav totalShares virtualOffset

/-- NAV per share, scaled by `sharePriceScale`. -/
def sharePriceOf (w : World) (c : Currency) (virtualOffset : Int) : Except Panic Int := do
  let totalShares := (w.bucket c).totalShares
  let nav ← nav w c
  mulDiv sharePriceScale nav totalShares virtualOffset

/-! ## Allocation helpers (`allocate.rs`) -/

/-- Every bucket denomination, in the order a pending exit is looked up. -/
def allCurrencies : List Currency := [.usd, .eur, .mxn]

/-- Resolve a currency's stablecoin or panic if unset. -/
def requireToken (w : World) (c : Currency) : Except Panic Address :=
  orFail (w.bucket c).token (.vault .tokenNotSet)

/-- Push `amount` from the vault into `pool` and book it. -/
def supplyToPool (w : World) (pool : Address) (c : Currency) (amount : Int) : Except Panic World := do
  failIf (w.vault.allowedPool pool = false) (.vault .poolNotAllowed)
  failIf (w.vault.frozen pool = true) (.vault .poolFrozen)
  let newHoldings ← I128.add ((w.bucket c).poolHoldings pool) amount
  failIf (w.vault.config.perPoolCap < newHoldings) (.vault .capExceeded)
  let idle := idle w c
  failIf (idle < amount) (.vault .insufficientIdle)
  let list ← orFail (addToPoolList (w.bucket c).poolList pool) (.vault .tooManyPools)
  let remaining ← I128.sub idle amount
  let w := w.updateBucket c fun b =>
    { b with
      poolList := list
      totalAssets := remaining
      poolHoldings := Function.update b.poolHoldings pool newHoldings
      activePool := some pool }
  let token ← requireToken w c
  let w ← w.transfer token vaultAddress pool amount
  PoolClient.supply w selfAuth pool vaultAddress amount

/-- Pull `amount` back from `pool` to the vault, crediting idle. -/
def withdrawFromPool (w : World) (pool : Address) (c : Currency) (amount : Int) :
    Except Panic World := do
  let remaining ← I128.floorSub ((w.bucket c).poolHoldings pool) amount
  let assets ← I128.add (w.bucket c).totalAssets amount
  let w := w.updateBucket c fun b =>
    { b with
      poolHoldings := Function.update b.poolHoldings pool remaining
      totalAssets := assets }
  let w ← PoolClient.withdraw w selfAuth pool vaultAddress amount
  let left ← PoolClient.balance w pool vaultAddress
  if left = 0 then
    .ok (w.updateBucket c fun b =>
      { b with
        poolList := removeFromPoolList b.poolList pool
        activePool := if b.activePool = some pool then none else b.activePool })
  else .ok w

/-- The loop of `pull_from_pools` over the snapshot of the pool list; returns what is still
    outstanding. -/
def pullLoop (c : Currency) : List Address → Int → World → Except Panic (Int × World)
  | [], outstanding, w => .ok (outstanding, w)
  | pool :: rest, outstanding, w =>
    if outstanding ≤ 0 then .ok (outstanding, w)
    else do
      let available ← PoolClient.balance w pool vaultAddress
      if available ≤ 0 then pullLoop c rest outstanding w
      else do
        let take := if available < outstanding then available else outstanding
        let w ← withdrawFromPool w pool c take
        let outstanding ← I128.sub outstanding take
        pullLoop c rest outstanding w

/-- Pull `needed` back into idle by draining the bucket's pools in list order. -/
def pullFromPools (w : World) (c : Currency) (needed : Int) : Except Panic World := do
  let (outstanding, w) ← pullLoop c (w.bucket c).poolList needed w
  failIf (0 < outstanding) (.vault .insufficientLiquidity)
  .ok w

/-- Find the pending exit carrying `exitId`, with its currency. -/
def findExit (w : World) (exitId : Nat) : Option (Currency × ExitProposal) :=
  allCurrencies.findSome? fun c =>
    match (w.bucket c).pendingExit with
    | some proposal => if proposal.id = exitId then some (c, proposal) else none
    | none          => none

/-- Move a bucket's entire holdings from the frozen `fromPool` to the safe `toPool`. -/
def executeExit (w : World) (c : Currency) (proposal : ExitProposal) : Except Panic World := do
  failIf (w.vault.frozen proposal.fromPool = false) (.vault .sourceNotFrozen)
  let amount ← PoolClient.balance w proposal.fromPool vaultAddress
  failIf (amount ≤ 0) (.vault .insufficientHoldings)
  let w ← withdrawFromPool w proposal.fromPool c amount
  supplyToPool w proposal.toPool c amount

/-! ## Depositor-signed writes (`lib.rs`) -/

def setPolicyConsent (auth : Auth) (w : World) (depositor : Address) : Except Panic World := do
  requireAuth auth depositor
  if w.vault.consent depositor = false then
    .ok (World.publish
      { w with vault := { w.vault with consent := Function.update w.vault.consent depositor true } }
      (.consentSet depositor))
  else .ok w

def setAutoCompound (auth : Auth) (w : World) (depositor : Address) (enabled : Bool) :
    Except Panic World := do
  requireAuth auth depositor
  .ok (World.publish
    { w with
      vault := { w.vault with autoCompound := Function.update w.vault.autoCompound depositor enabled } }
    (.autoCompoundSet depositor enabled))

def deposit (auth : Auth) (w : World) (depositor : Address) (c : Currency) (amount : Int) :
    Except Panic World := do
  requireAuth auth depositor
  requireNotPaused w
  failIf (w.vault.consent depositor = false) (.vault .noConsent)
  failIf (amount ≤ 0) (.vault .nonPositiveAmount)
  let config := w.vault.config
  let totalShares := (w.bucket c).totalShares
  failIf (totalShares = 0 ∧ amount < config.minFirstDeposit) (.vault .belowMinFirstDeposit)
  let token ← requireToken w c
  let w ← w.transfer token depositor vaultAddress amount
  let minted ← mintShares w c amount config.virtualOffset
  failIf (minted ≤ 0) (.vault .mintsNoShares)
  let owned ← I128.add ((w.bucket c).shares depositor) minted
  let supply ← I128.add totalShares minted
  let assets ← I128.add (w.bucket c).totalAssets amount
  let w := w.updateBucket c fun b =>
    { b with
      shares := Function.update b.shares depositor owned
      totalShares := supply
      totalAssets := assets }
  .ok (w.publish (.deposit depositor c amount minted))

def withdraw (auth : Auth) (w : World) (depositor : Address) (c : Currency) (shares : Int) :
    Except Panic World := do
  requireAuth auth depositor
  requireNotPaused w
  failIf (shares ≤ 0) (.vault .nonPositiveAmount)
  let owned := (w.bucket c).shares depositor
  failIf (owned < shares) (.vault .insufficientShares)
  let assets ← redeemAssets w c shares w.vault.config.virtualOffset
  let owned ← I128.sub owned shares
  let supply ← I128.sub (w.bucket c).totalShares shares
  let w := w.updateBucket c fun b =>
    { b with
      shares := Function.update b.shares depositor owned
      totalShares := supply }
  let w ← makeLiquid w c assets
  let remaining ← I128.sub (w.bucket c).totalAssets assets
  let w := w.updateBucket c fun b => { b with totalAssets := remaining }
  let token ← requireToken w c
  let w ← w.transfer token vaultAddress depositor assets
  .ok (w.publish (.withdraw depositor c assets shares))
where
  /-- Pull the shortfall of a payout from the bucket's pools. -/
  makeLiquid (w : World) (c : Currency) (assets : Int) : Except Panic World :=
    if idle w c < assets then do
      let needed ← I128.sub assets (idle w c)
      pullFromPools w c needed
    else .ok w

def approveExit (auth : Auth) (w : World) (depositor : Address) (exitId : Nat) : Except Panic World := do
  requireAuth auth depositor
  let (c, proposal) ← orFail (findExit w exitId) (.vault .noPendingExit)
  requireNotPaused w
  failIf ((w.bucket c).shares depositor ≤ 0) (.vault .notAStakeholder)
  let w ← executeExit w c proposal
  let w := w.updateBucket c fun b => { b with pendingExit := none }
  .ok (w.publish (.exitApproved c exitId))

/-! ## Keeper writes (`lib.rs`) -/

def allocate (auth : Auth) (w : World) (pool : Address) (c : Currency) (amount : Int) :
    Except Panic World := do
  requireKeeper w auth
  requireNotPaused w
  failIf (amount ≤ 0) (.vault .nonPositiveAmount)
  failIf ((w.bucket c).totalShares = 0) (.vault .emptyBucket)
  let w ← supplyToPool w pool c amount
  .ok (w.publish (.allocated c pool amount))

def deallocate (auth : Auth) (w : World) (pool : Address) (c : Currency) (amount : Int) :
    Except Panic World := do
  requireKeeper w auth
  failIf (amount ≤ 0) (.vault .nonPositiveAmount)
  failIf ((w.bucket c).poolHoldings pool < amount) (.vault .insufficientHoldings)
  let w ← withdrawFromPool w pool c amount
  .ok (w.publish (.deallocated c pool amount))

/-- The frozen flag of one pool, rewritten. -/
def setFrozen (w : World) (pool : Address) (frozen : Bool) : World :=
  { w with vault := { w.vault with frozen := Function.update w.vault.frozen pool frozen } }

def freeze (auth : Auth) (w : World) (pool : Address) : Except Panic World := do
  requireKeeper w auth
  .ok ((setFrozen w pool true).publish (.frozen pool))

def unfreeze (auth : Auth) (w : World) (pool : Address) : Except Panic World := do
  requireKeeper w auth
  .ok ((setFrozen w pool false).publish (.unfrozen pool))

/-- Monotonic exit-proposal id source; the `u64` addition is checked. -/
def nextExitId (w : World) : Except Panic (Nat × World) := do
  failIf (u64Max < w.vault.exitCounter + 1) .overflow
  let id := w.vault.exitCounter + 1
  .ok (id, { w with vault := { w.vault with exitCounter := id } })

def proposeExit (auth : Auth) (w : World) (c : Currency) (fromPool toPool : Address) :
    Except Panic World := do
  requireKeeper w auth
  let (id, w) ← nextExitId w
  let proposal : ExitProposal := { id := id, currency := c, fromPool := fromPool, toPool := toPool }
  let w := w.updateBucket c fun b => { b with pendingExit := some proposal }
  .ok (w.publish (.exitProposed c id))

/-! ## Admin writes (`lib.rs`) -/

/-- The global pause flag, rewritten. -/
def setPaused (w : World) (paused : Bool) : World := { w with vault := { w.vault with paused := paused } }

def pause (auth : Auth) (w : World) : Except Panic World := do
  requireAdmin w auth
  .ok (setPaused w true)

def unpause (auth : Auth) (w : World) : Except Panic World := do
  requireAdmin w auth
  .ok (setPaused w false)

def setToken (auth : Auth) (w : World) (c : Currency) (token : Address) : Except Panic World := do
  requireAdmin w auth
  .ok (w.updateBucket c fun b => { b with token := some token })

def setPoolAllowed (auth : Auth) (w : World) (pool : Address) (allowed : Bool) : Except Panic World := do
  requireAdmin w auth
  .ok { w with vault := { w.vault with allowedPool := Function.update w.vault.allowedPool pool allowed } }

def setConfiguredPool (auth : Auth) (w : World) (c : Currency) (pool : Address) : Except Panic World := do
  requireAdmin w auth
  .ok (w.updateBucket c fun b => { b with configuredPool := some pool })

/-! ## Reads (`lib.rs`) -/

def balanceOf (w : World) (user : Address) (c : Currency) : Int := (w.bucket c).shares user

def sharePrice (w : World) (c : Currency) : Except Panic Int :=
  sharePriceOf w c w.vault.config.virtualOffset

/-- What `withdraw` would return for the full share balance today. -/
def valueOf (w : World) (user : Address) (c : Currency) : Except Panic Int :=
  redeemAssets w c ((w.bucket c).shares user) w.vault.config.virtualOffset

def poolStatus (w : World) (pool : Address) : PoolStatus :=
  if w.vault.frozen pool = true then .frozen else .active

/-- Whether the depositor has recorded the one-time safety-mandate consent. -/
def hasConsent (w : World) (depositor : Address) : Bool := w.vault.consent depositor

def activePool (w : World) (c : Currency) : Option Address := (w.bucket c).activePool

def pendingExit (w : World) (c : Currency) : Option ExitProposal := (w.bucket c).pendingExit

/-! ## The calls -/

/-- The entrypoints that change state. -/
inductive Call where
  | setPolicyConsent (depositor : Address)
  | setAutoCompound (depositor : Address) (enabled : Bool)
  | deposit (depositor : Address) (currency : Currency) (amount : Int)
  | withdraw (depositor : Address) (currency : Currency) (shares : Int)
  | approveExit (depositor : Address) (exitId : Nat)
  | allocate (pool : Address) (currency : Currency) (amount : Int)
  | deallocate (pool : Address) (currency : Currency) (amount : Int)
  | freeze (pool : Address)
  | unfreeze (pool : Address)
  | proposeExit (currency : Currency) (fromPool toPool : Address)
  | pause
  | unpause
  | setToken (currency : Currency) (token : Address)
  | setPoolAllowed (pool : Address) (allowed : Bool)
  | setConfiguredPool (currency : Currency) (pool : Address)
deriving DecidableEq, Repr

/-- Run one entrypoint. -/
def Call.exec (auth : Auth) (w : World) : Call → Except Panic World
  | .setPolicyConsent depositor        => Vault.setPolicyConsent auth w depositor
  | .setAutoCompound depositor enabled => Vault.setAutoCompound auth w depositor enabled
  | .deposit depositor c amount        => Vault.deposit auth w depositor c amount
  | .withdraw depositor c shares       => Vault.withdraw auth w depositor c shares
  | .approveExit depositor exitId      => Vault.approveExit auth w depositor exitId
  | .allocate pool c amount            => Vault.allocate auth w pool c amount
  | .deallocate pool c amount          => Vault.deallocate auth w pool c amount
  | .freeze pool                       => Vault.freeze auth w pool
  | .unfreeze pool                     => Vault.unfreeze auth w pool
  | .proposeExit c fromPool toPool     => Vault.proposeExit auth w c fromPool toPool
  | .pause                             => Vault.pause auth w
  | .unpause                           => Vault.unpause auth w
  | .setToken c token                  => Vault.setToken auth w c token
  | .setPoolAllowed pool allowed       => Vault.setPoolAllowed auth w pool allowed
  | .setConfiguredPool c pool          => Vault.setConfiguredPool auth w c pool

end Vault
end SoroSense
