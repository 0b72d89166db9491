import SoroSense.Backend.CostBasis
import Mathlib.Data.Rat.Defs

/-!
# `Backend.Catalog` — the vetted venues

`backend/src/tools/catalog.ts` and the `Result` of `backend/src/lib/result.ts`. A venue is its id, its
currency and its APY in percent. JavaScript's numbers are rationals.
-/

namespace SoroSense.Backend

/-! ## Results -/

inductive ErrorCode where
  | timeout
  | http
  | parse
  | unavailable
  | notFound
deriving DecidableEq, Repr

/-- `Result<T>`: a read that failed is a value. -/
inductive Result (α : Type) where
  | ok (value : α)
  | err (code : ErrorCode) (error : String)
deriving DecidableEq

/-! ## The catalog -/

/-- The seam's `PoolId`. -/
abbrev PoolId := String

structure CatalogEntry where
  id       : PoolId
  currency : Currency
  apy      : ℚ
deriving DecidableEq

def DEFAULT_YIELD_RATE_BPS : ℚ := 1000

def SOROSENSE_POOL_FALLBACK_APY : ℚ := DEFAULT_YIELD_RATE_BPS / 100

def SAFE_VENUES : List CatalogEntry :=
  [⟨"sorosense-usd", .usd, SOROSENSE_POOL_FALLBACK_APY⟩,
    ⟨"blend-usdc", .usd, 66 / 10⟩,
    ⟨"defindex-usdc", .usd, 859 / 100⟩,
    ⟨"ondo-usdy", .usd, 465 / 100⟩,
    ⟨"sorosense-eur", .eur, SOROSENSE_POOL_FALLBACK_APY⟩,
    ⟨"blend-eurc", .eur, 51 / 10⟩,
    ⟨"etherfuse-cetes", .mxn, 557 / 100⟩]

/-- The ids of `TRAP_VENUES`. -/
def TRAP_IDS : List PoolId := ["usst-squatter", "mgusd", "ghost-97", "yieldblox-eurc", "ylds-kyc"]

/-- `getCatalog`. Traps are never included. -/
def getCatalog (currency : Option Currency) : List CatalogEntry :=
  SAFE_VENUES.filter fun v => decide (v.id ∉ TRAP_IDS ∧ (currency = none ∨ currency = some v.currency))

end SoroSense.Backend
