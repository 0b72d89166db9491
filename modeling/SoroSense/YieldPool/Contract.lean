import SoroSense.Host

/-!
# `YieldPool.Contract` — the accruing pool, function by function

`contracts/yield_pool/src/{types,accrual,storage,lib}.rs`. The contract's storage is `State`; an
entrypoint takes the authorisations of the call, the ledger time and the storage, and returns the new
storage. `withdraw` also moves tokens, so it takes and returns the token ledger.

The push token model is the source's: `supply` books a credit and neither moves nor checks tokens.
-/

namespace SoroSense
namespace YieldPool

open Fallible

/-! ## Types and storage -/

/-- A supplier's stake: the value realised when `entryIndex` was captured. -/
structure Position where
  principal  : Int
  entryIndex : Int
deriving DecidableEq, Repr

/-- The contract's storage. `position` is the persistent entry per supplier, the rest is instance
    storage. -/
structure State where
  admin          : Address
  token          : Address
  rateBps        : Nat
  index          : Int
  lastIndexTs    : Nat
  totalPrincipal : Int
  position       : Address → Option Position

/-- Sanity ceiling on the annual rate: 1000%. -/
def maxRateBps : Nat := 100000

/-! ## Accrual (`accrual.rs`) -/

/-- Basis-points denominator. -/
def bps : Int := 10000

/-- Seconds in a 365-day year. -/
def secondsPerYear : Int := 31536000

/-- The divisor turning `principal × Δ(bps·seconds)` into base-unit interest. -/
def bpsYear : Int := bps * secondsPerYear

/-- Advance the index by `rateBps × elapsedSecs`. -/
def advanceIndex (index : Int) (rateBps elapsedSecs : Nat) : Except Panic Int := do
  let delta ← I128.expect "yield_pool: index advance overflow" (rateBps * elapsedSecs)
  I128.expect "yield_pool: index overflow" (index + delta)

/-- Value a position holding `principal` (captured at `entryIndex`) at the current `index`. -/
def valueAt (principal entryIndex index : Int) : Except Panic Int :=
  if principal ≤ 0 then .ok 0
  else do
    let growth ← I128.expect "yield_pool: index underflow" (index - entryIndex)
    let scaled ← I128.expect "yield_pool: interest overflow" (principal * growth)
    let interest := scaled.tdiv bpsYear
    I128.expect "yield_pool: value overflow" (principal + interest)

/-! ## Helpers (`lib.rs`) -/

/-- Advance and **persist** the index to the current ledger timestamp, returning it. -/
def rollIndex (now : Nat) (s : State) : Except Panic (State × Int) :=
  if s.lastIndexTs < now then do
    let index ← advanceIndex s.index s.rateBps (now - s.lastIndexTs)
    .ok ({ s with index := index, lastIndexTs := now }, index)
  else .ok (s, s.index)

/-- The index advanced to now **without** persisting. The subtraction of the source saturates, as `Nat`
    subtraction does. -/
def currentIndex (now : Nat) (s : State) : Except Panic Int :=
  advanceIndex s.index s.rateBps (now - s.lastIndexTs)

/-- Value `who`'s stored position at `index` (0 if they have none). -/
def valueOf (s : State) (who : Address) (index : Int) : Except Panic Int :=
  match s.position who with
  | some pos => valueAt pos.principal pos.entryIndex index
  | none     => .ok 0

def State.setPosition (s : State) (who : Address) (pos : Position) : State :=
  { s with position := Function.update s.position who (some pos) }

/-! ## Entrypoints (`lib.rs`) -/

/-- `__constructor`. -/
def construct (now : Nat) (admin token : Address) (rateBps : Nat) : Except Panic State := do
  failIf (maxRateBps < rateBps) (.pool .rateTooHigh)
  .ok { admin := admin, token := token, rateBps := rateBps, index := 0, lastIndexTs := now,
        totalPrincipal := 0, position := fun _ => none }

/-- Book supplied funds against `sender`'s position. -/
def supply (auth : Auth) (now : Nat) (s : State) (sender : Address) (amount : Int) :
    Except Panic State := do
  requireAuth auth sender
  failIf (amount ≤ 0) (.pool .nonPositiveAmount)
  let (s, index) ← rollIndex now s
  let realized ← valueOf s sender index
  let principal ← I128.add realized amount
  let s := s.setPosition sender { principal := principal, entryIndex := index }
  let total ← I128.add s.totalPrincipal amount
  .ok { s with totalPrincipal := total }

/-- Pay `amount` of the stablecoin to `recipient` out of the pool's balance (`self` is the pool's
    address). -/
def withdraw (auth : Auth) (now : Nat) (self : Address) (s : State) (tokens : Tokens)
    (recipient : Address) (amount : Int) : Except Panic (State × Tokens) := do
  requireAuth auth recipient
  failIf (amount ≤ 0) (.pool .nonPositiveAmount)
  let (s, index) ← rollIndex now s
  let current ← valueOf s recipient index
  failIf (current < amount) (.pool .insufficientBalance)
  failIf (tokens s.token self < amount) (.pool .insufficientLiquidity)
  let principal ← I128.sub current amount
  let s := s.setPosition recipient { principal := principal, entryIndex := index }
  let tokens ← tokens.transfer s.token self recipient amount
  let total ← I128.floorSub s.totalPrincipal amount
  .ok ({ s with totalPrincipal := total }, tokens)

/-- What `who`'s position is worth at the current ledger timestamp. -/
def balance (now : Nat) (s : State) (who : Address) : Except Panic Int := do
  let index ← currentIndex now s
  valueOf s who index

/-- Change the annual rate. The index is refreshed first, so the new rate applies purely forward. -/
def setRate (auth : Auth) (now : Nat) (s : State) (rateBps : Nat) : Except Panic State := do
  requireAuth auth s.admin
  failIf (maxRateBps < rateBps) (.pool .rateTooHigh)
  let (s, _) ← rollIndex now s
  .ok { s with rateBps := rateBps }

/-- The calls anybody may make on a pool. -/
inductive Call where
  | supply (sender : Address) (amount : Int)
  | withdraw (recipient : Address) (amount : Int)
  | setRate (rateBps : Nat)
deriving DecidableEq, Repr

end YieldPool
end SoroSense
