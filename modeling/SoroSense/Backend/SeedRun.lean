import SoroSense.System
import SoroSense.Lib.Courier
import SoroSense.Backend.DemoSeed

/-!
# `Backend.SeedRun` — one run of the seed script

`scripts/demo-seed.ts`: `readState` asks what the chain already says of the demo depositor, `planSteps` plans what is
still missing, `runSeed` executes the plan and reads the deposit back. The chain effects are those of
`makeStellarChain` and of the depositor's vault client; every request goes over a network that may lose or delay
it (`Lib.Courier`).

The run is for one depositor, one currency and its token. The log lines are left out, and what a mint, a
`changeTrust` or a vault write asks on its way is part of its one submission.
-/

namespace SoroSense.Backend.DemoSeed

open Fallible Courier Text

/-! ## The chain -/

/-- The chain, as far as the script sees it: the contracts and tokens, whether the depositor's account exists and
    whether it trusts the classic asset behind the token. -/
structure Testnet where
  world  : World
  funded : Bool
  trusts : Bool

/-- What the script submits. -/
inductive SeedTx where
  | fund
  | changeTrust
  | mint (amount : Int)
  | consent
  | deposit (amount : Int)
deriving DecidableEq, Repr

/-- What a run is given: `config.currency`, the token its `config.sac` is, the depositor's account and its text, and
    the texts of the errors that come from outside. -/
structure SeedConfig where
  currency  : Currency
  sac       : SoroSense.Address
  assetCode : String
  account   : Nat
  publicKey : String
  refusal   : Panic → String
  notFound  : String
  badStatus : String → String

namespace SeedConfig

variable (config : SeedConfig)

/-- The depositor. -/
def depositor : SoroSense.Address := .account config.account

/-- A call on the contracts, in a chain. -/
def exec (t : Testnet) (a : Action) : Except String Testnet :=
  match a.exec t.world with
  | .ok w    => .ok { t with world := w }
  | .error e => .error (config.refusal e)

/-- What a submission does. The token refuses a mint to an account without the trustline, and an account that does
    not exist cannot submit. -/
def accept (t : Testnet) : SeedTx → Except String Testnet
  | .fund           => .ok { t with funded := true }
  | .changeTrust    => do
    failIf (t.funded = false) config.notFound
    .ok { t with trusts := true }
  | .mint amount    => do
    failIf (t.funded = false ∨ t.trusts = false) ("mint refused: " ++ config.publicKey ++ " has no " ++
      config.assetCode ++ " trustline (the trustline step must run first)")
    config.exec t (.mint config.sac config.depositor amount)
  | .consent        => do
    failIf (t.funded = false) config.notFound
    config.exec t (.vault [config.account] (.setPolicyConsent config.depositor))
  | .deposit amount => do
    failIf (t.funded = false) config.notFound
    config.exec t (.vault [config.account] (.deposit config.depositor config.currency amount))

/-- The chain under the script: others act on the contracts, and an action that panics reverts. -/
def rules : Rules Testnet SeedTx Action where
  accept := config.accept
  act t a :=
    match a.exec t.world with
    | .ok w    => { t with world := w }
    | .error _ => t

end SeedConfig

abbrev SeedNet := Net Testnet SeedTx Action

/-! ## The plan -/

inductive SeedStep where
  | generateKey
  | fund
  | trustline
  | mint
  | consent
  | deposit
deriving DecidableEq, Repr

/-- What the chain (and the env) already says about the demo depositor, before this run acts. -/
structure SeedState where
  hasSecret    : Bool
  funded       : Bool
  hasTrustline : Bool
  assetBalance : Int
  hasConsent   : Bool

def planSteps (state : SeedState) (amount : Int) : List SeedStep :=
  (if state.hasSecret then [] else [.generateKey]) ++ (if state.funded then [] else [.fund]) ++
    (if state.hasTrustline then [] else [.trustline]) ++ (if state.assetBalance < amount then [.mint] else []) ++
    (if state.hasConsent then [] else [.consent]) ++ [.deposit]

/-! ## The reads -/

/-- A balance as Horizon prints it: seven places. -/
def horizonBalance (balance : Int) : Text :=
  ofInt (balance.tdiv UNIT) ++ '.' :: padStart 7 (ofInt (balance.tmod UNIT))

/-- The text of an error that was thrown. -/
def Thrown.text : Thrown → String
  | .error message => String.ofList message
  | .syntaxError   => "SyntaxError"

section

variable (config : SeedConfig)

/-- Does the account exist? -/
def isFunded : EStateM String SeedNet Bool := ask config.rules fun t => .ok t.funded

def hasTrustline : EStateM String SeedNet Bool := ask config.rules fun t => .ok (t.funded && t.trusts)

/-- The balance of the asset in base units, nothing without the trustline. -/
def assetBalance : EStateM String SeedNet Int :=
  ask config.rules fun t =>
    if t.funded && t.trusts then
      (toBaseUnits (horizonBalance (t.world.tokens config.sac config.depositor))).mapError Thrown.text
    else .ok 0

/-- A read of the vault. -/
def readVault {α : Type} (read : World → Except Panic α) : EStateM String SeedNet α :=
  ask config.rules fun t => (read t.world).mapError config.refusal

/-- `c ? await read : otherwise`. -/
def askIf {α : Type} (c : Bool) (read : EStateM String SeedNet α) (otherwise : α) : EStateM String SeedNet α :=
  if c = true then read else pure otherwise

/-- An unfunded account is not queried further. -/
def readState (generated : Bool) : EStateM String SeedNet SeedState := do
  let funded ← isFunded config
  let hasTrustline ← askIf funded (hasTrustline config) false
  let assetBalance ← askIf hasTrustline (assetBalance config) 0
  let hasConsent ← askIf funded (readVault config fun w => .ok (Vault.hasConsent w config.depositor)) false
  pure { hasSecret := !generated, funded := funded, hasTrustline := hasTrustline, assetBalance := assetBalance,
         hasConsent := hasConsent }

/-! ## The writes -/

/-- Wait for the account to exist, with so many looks left. -/
def awaitFunded : ℕ → EStateM String SeedNet Unit
  | 0     => throw ("friendbot funded " ++ config.publicKey ++ " but the account never appeared on Horizon")
  | n + 1 => do
    let there ← isFunded config
    if there = true then pure () else awaitFunded n

/-- `fund`: an account that already exists is no failure. -/
def fund : EStateM String SeedNet Unit := do
  let sent ← send config.rules .fund
  if sent.status = .failed then
    throw ("friendbot funding failed for " ++ config.publicKey ++ ": HTTP " ++ sent.answer)
  else awaitFunded config 15

/-- `addTrustline`: a submission that does not succeed throws. -/
def addTrustline : EStateM String SeedNet String := do
  let sent ← send config.rules .changeTrust
  if sent.status = .success then pure sent.answer else throw (config.badStatus sent.answer)

/-- `mint`: the hash is returned even when the mint was not seen to land. -/
def mint (amount : Int) : EStateM String SeedNet String := do
  let sent ← send config.rules (.mint amount)
  if sent.status = .failed then throw ("faucet mint failed on-chain: " ++ sent.answer) else pure sent.answer

/-- Submit a depositor-signed vault write and stop loudly if the chain refused it. -/
def submit (step : String) (tx : SeedTx) : EStateM String SeedNet String := do
  let sent ← send config.rules tx
  if sent.status = .success then pure sent.answer
  else throw (step ++ " was rejected by the chain (tx " ++ sent.answer ++ ") — nothing was written")

/-! ## The run -/

/-- Transaction hash per step that submitted one. -/
structure SeedHashes where
  trustline : Option String
  mint      : Option String
  consent   : Option String
  deposit   : Option String

/-- What a completed run proves. -/
structure SeedReport where
  publicKey  : String
  currency   : Currency
  amount     : Int
  steps      : List SeedStep
  hashes     : SeedHashes
  shares     : Int
  value      : Int
  sharePrice : Int

/-- The depositor's shares and what they are worth. -/
def readHolding : EStateM String SeedNet (Int × Int) := do
  let shares ← readVault config fun w => .ok (Vault.balanceOf w config.depositor config.currency)
  let value ← readVault config fun w => Vault.valueOf w config.depositor config.currency
  pure (shares, value)

/-- The deposit and its read-back. -/
def runDeposit (amount : Int) (steps : List SeedStep) (hashes : SeedHashes) : EStateM String SeedNet SeedReport := do
  let (sharesBefore, valueBefore) ← readHolding config
  let hash ← submit config "deposit" (.deposit amount)
  let (shares, value) ← readHolding config
  let sharePrice ← readVault config fun w => Vault.sharePrice w config.currency
  if shares ≤ sharesBefore then
    throw ("deposit landed (tx " ++ hash ++ ") but shares did not increase: " ++ toString sharesBefore ++ " → " ++
      toString shares)
  else if value ≠ valueBefore + amount then
    throw ("deposit landed (tx " ++ hash ++ ") but the read-back value is " ++ toString value ++ ", expected " ++
      toString (valueBefore + amount) ++ " (" ++ toString valueBefore ++ " + " ++ toString amount ++ ")")
  else
    pure { publicKey := config.publicKey, currency := config.currency, amount := amount, steps := steps,
           hashes := { hashes with deposit := some hash }, shares := shares, value := value, sharePrice := sharePrice }

/-- The `switch` over the planned steps. -/
def execute (amount : Int) (state : SeedState) (steps : List SeedStep) :
    List SeedStep → SeedHashes → EStateM String SeedNet SeedReport
  | [], _ => throw "seed plan contained no deposit step"
  | .generateKey :: rest, hashes => execute amount state steps rest hashes
  | .fund :: rest, hashes => do
    fund config
    execute amount state steps rest hashes
  | .trustline :: rest, hashes => do
    let hash ← addTrustline config
    execute amount state steps rest { hashes with trustline := some hash }
  | .mint :: rest, hashes => do
    let hash ← mint config (amount - state.assetBalance)
    execute amount state steps rest { hashes with mint := some hash }
  | .consent :: rest, hashes => do
    let hash ← submit config "consent" .consent
    execute amount state steps rest { hashes with consent := some hash }
  | .deposit :: _, hashes => runDeposit config amount steps hashes

/-- `runSeed`: `generated` says that this run created the depositor's key. -/
def runSeed (generated : Bool) (amount : Int) : EStateM String SeedNet SeedReport := do
  let state ← readState config generated
  let steps := planSteps state amount
  execute config amount state steps steps ⟨none, none, none, none⟩

end

/-! ## The balance -/

/-- **What Horizon prints of a balance is read back as it is.** -/
theorem toBaseUnits_horizonBalance (b : ℕ) : toBaseUnits (horizonBalance (b : Int)) = .ok (b : Int) := by
  obtain ⟨hwhole, hfrac⟩ := ofInt_parts (n := 7) (u := UNIT) (by decide) b
  have htext : horizonBalance (b : Int) = (Decimal.ofFixed 7 b).whole ++ '.' :: (Decimal.ofFixed 7 b).frac := by
    unfold horizonBalance
    rw [hwhole, hfrac]
  have hlen : (Decimal.ofFixed 7 b).frac.length = 7 := Decimal.length_ofFixed_frac (by decide) b
  have hreads : (Decimal.ofFixed 7 b).Reads (horizonBalance (b : Int)) := .inr htext
  have hamount : isAmount (horizonBalance (b : Int)) = true := by
    refine isAmount_iff.mpr ⟨_, hreads, hlen.le, fun hnil => ?_⟩
    rw [hnil] at hlen
    exact absurd hlen (by decide)
  have htrim := trim_of_reads hreads
  rw [toBaseUnits_of_reads (htrim.symm ▸ hreads) (htrim.symm ▸ hamount) hlen.le, Decimal.fixed_ofFixed (by decide)]

end SoroSense.Backend.DemoSeed
