import SoroSense.Backend.Allocator
import SoroSense.Backend.VaultClient

/-!
# `Backend.Runner` — the keeper runner and its cron

`keeper/runner.ts` and the pass of `keeper/cron.ts`. A `KeeperRunner` is what `makeKeeperRunner` closes
over; its effects sign the keeper's writes through the seam. A tick either brings its store
(`runTickOn`) or builds a fresh one from the chain's reads and forgets it (`runTick`).

Logging is left out.
-/

namespace SoroSense
namespace Backend

open Session

def MOCK_MODE_MESSAGE : String :=
  "mock mode — nothing to drive (set the integration env to perform real keeper writes)"

def DEFAULT_THRESHOLD_PCT : ℚ := 15 / 10

/-- The demo pool slug of a currency. -/
def demoPoolFor : Currency → Except String PoolId
  | .usd => .ok "sorosense-usd"
  | .eur => .ok "sorosense-eur"
  | c    => .error ("no demo pool configured for currency: " ++ c.code)

/-- What the runner was built with. `signer` is the injected one, or what `KEEPER_SECRET` builds. -/
structure KeeperRunner where
  client      : VaultClient
  signer      : Except String Signer
  integration : Bool
  poolFor     : Currency → Except String PoolId
  moveAmount  : Option (World → Currency → PoolId → Except String Int)

/-- The inputs of one tick. -/
structure RunTickInput where
  candidates       : List Candidate
  activeAnomaly    : Bool := false
  activeRay        : Option ℚ := none
  yieldAccrued     : Bool := false
  thresholdPct     : ℚ := DEFAULT_THRESHOLD_PCT
  minDwellMs       : Option ℚ := none
  positionValueUsd : Option ℚ := none
  switchCostUsd    : Option ℚ := none
  dwellHorizonDays : Option ℚ := none
  effects          : Option (AllocatorEffects Live) := none

namespace KeeperRunner

variable (k : KeeperRunner)

/-! ## Writes -/

def requireLive : Except String Unit := if k.integration = true then .ok () else .error MOCK_MODE_MESSAGE

/-- Guard, build the prepared write, then sign and submit. -/
def submit (build : Except String PreparedTx) : EStateM String Live TxResult := do
  lift k.requireLive
  let tx ← lift build
  let signer ← lift k.signer
  k.client.signAndSubmit tx signer

/-- The amount source; it may read the chain. -/
def amountToMove (c : Currency) (pool : PoolId) : EStateM String Live Int := fun s =>
  match k.moveAmount with
  | none =>
      .error ("no move-amount source configured — cannot compute the " ++ c.code ++ " amount to move "
        ++ "for pool " ++ pool ++ " (wire KeeperRunnerOptions.moveAmount)") s
  | some moveAmount => (lift (moveAmount s.world c pool)).run s

/-! ## The effects -/

/-- Reinvest accrued rewards into the same pool. -/
def compound (c : Currency) (pool : PoolId) (_depositor : Option Address) : EStateM String Live Unit := do
  let amount ← k.amountToMove c pool
  let _ ← k.submit (k.client.allocate pool c amount)
  return ()

/-- Pull from the old pool and place in the new. What either write resolved to is not looked at. -/
def rebalance (c : Currency) (source target : PoolId) : EStateM String Live Unit := do
  let amount ← k.amountToMove c source
  let _ ← k.submit (k.client.deallocate source c amount)
  let _ ← k.submit (k.client.allocate target c amount)
  return ()

/-- The target of a freeze-exit, where there is one that JavaScript takes for true. -/
def exitTarget (toPool : Option PoolId) : Option PoolId := toPool.filter (· ≠ "")

/-- Freeze, and propose the exit if there is a target. -/
def freezeExit (c : Currency) (pool : PoolId) (toPool : Option PoolId) : EStateM String Live Unit := do
  let _ ← k.submit (k.client.freeze pool)
  match exitTarget toPool with
  | some target => do
      let _ ← k.submit (k.client.proposeExit c pool target)
      return ()
  | none => return ()

def effects : AllocatorEffects Live :=
  { compound := k.compound, rebalance := k.rebalance, freezeExit := k.freezeExit }

/-! ## The operator's writes -/

/-- Move idle funds into the currency's demo pool. -/
def allocate (c : Currency) (amount : Int) : EStateM String Live TxResult :=
  k.submit do let pool ← k.poolFor c; k.client.allocate pool c amount

def freezePool (c : Currency) : EStateM String Live TxResult :=
  k.submit do let pool ← k.poolFor c; k.client.freeze pool

/-! ## The tick -/

/-- The context a tick runs the allocator in: always with a clock, never with depositors to gate on. -/
def tickContext (c : Currency) (input : RunTickInput) : TickContext Live :=
  { currency := c
    activeAnomaly := input.activeAnomaly
    activeRay := input.activeRay
    candidates := input.candidates
    yieldAccrued := input.yieldAccrued
    thresholdPct := input.thresholdPct
    effects := input.effects.getD k.effects
    depositors := none
    autoCompoundEnabled := none
    clock := some readClock
    minDwellMs := input.minDwellMs
    positionValueUsd := input.positionValueUsd
    switchCostUsd := input.switchCostUsd
    dwellHorizonDays := input.dwellHorizonDays }

/-- `runTick` with a store supplied. -/
def runTickOn (c : Currency) (input : RunTickInput) : EStateM String (Live × BucketStore) Decision :=
  runAllocatorTick (k.tickContext c input)

/-- Seed the active pool, where the chain has one. -/
def seedActive (c : Currency) (active : Option PoolId) (store : BucketStore) : BucketStore :=
  match active.filter (· ≠ "") with
  | some pool => store.setActivePool c pool
  | none      => store

/-- Flag the exit, where one is pending on chain. -/
def seedPending (c : Currency) (pending : Option ExitProposal) (store : BucketStore) : BucketStore :=
  match pending with
  | some _ => store.setPendingExit c true
  | none   => store

/-- The fresh store, seeded from the chain's reads. -/
def seeded (c : Currency) (active : Option PoolId) (pending : Option ExitProposal) : BucketStore :=
  seedPending c pending (seedActive c active BucketStore.empty)

/-- `runTick` with no store supplied. -/
def runTick (c : Currency) (input : RunTickInput) : EStateM String Live Decision := do
  let active ← k.client.activePool c
  let pending ← k.client.pendingExit c
  privately (seeded c active pending) (k.runTickOn c input)

end KeeperRunner

/-! ## The cron (`keeper/cron.ts`) -/

/-- The demo's driven currencies. -/
def DEFAULT_CURRENCIES : List Currency := [.usd, .eur]

/-- The candidates of a currency: its catalog, APY standing in for the risk-adjusted yield. -/
def candidatesFor (catalog : Currency → List CatalogEntry) (c : Currency) : List Candidate :=
  (catalog c).map fun v => ⟨v.id, v.apy⟩

/-- What the pass reports for one currency, and where it leaves things: a tick that threw is a no-op. -/
def cronTick (k : KeeperRunner) (catalog : Currency → List CatalogEntry) (c : Currency) (s : Live) :
    Decision × Live :=
  match (k.runTick c { candidates := candidatesFor catalog c }).run s with
  | .ok decision t   => (decision, t)
  | .error message t => (.noop c ("cron error: " ++ message), t)

/-- `runKeeperCronOnce` over the catalog `getCatalog` stands for. -/
def runKeeperCronOnce (k : KeeperRunner) (catalog : Currency → List CatalogEntry) :
    List Currency → Live → List Decision × Live
  | [], s      => ([], s)
  | c :: cs, s =>
    let (decision, t) := cronTick k catalog c s
    let (decisions, u) := runKeeperCronOnce k catalog cs t
    (decision :: decisions, u)

end Backend
end SoroSense
