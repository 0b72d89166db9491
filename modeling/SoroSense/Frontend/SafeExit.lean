import SoroSense.Backend.Holdings
import SoroSense.Frontend.DepositScreen
import SoroSense.JsText
import SoroSense.Lib.Inquiry

/-!
# `Frontend.SafeExit` — the approval of a safe exit

`components/proposal/ExitApprovalBody.tsx` over `hooks/usePendingExit.ts`, with the pool registry of
`lib/vault/client.ts` and the backend's `api/pools.ts`.

What the sheet shows is the result of `usePendingExit`, an inquiry (`Lib.Inquiry`) that is started anew whenever the
account changes or a write bumps the version. An approval closes over what is shown when it is pressed; it lands, or
is answered, whenever the network pleases, and others use the vault meanwhile.

The transaction hash and the texts of the toasts are left out. A request to the backend that fails is answered as one
whose rate cannot be read: the hook makes the same of both.
-/

namespace SoroSense

/-! ## The backend's pool lookup -/

namespace Backend

/-- An exit target, named and rated. -/
structure Pool where
  id    : PoolId
  name  : String
  venue : String
  apy   : ℚ

/-- One vetted pool by id. -/
def getPool (poolId : PoolId) (apy : PoolId → Result ℚ) : Result Pool :=
  match resolveVenue poolId with
  | none       => .err .notFound ("unknown pool: " ++ poolId)
  | some venue =>
    match apy poolId with
    | .err code error => .err code error
    | .ok rate        => .ok ⟨venue.id, venue.name, venue.venue, rate⟩

end Backend

namespace Frontend

open Backend (PoolId VaultClient Strkey ExitProposal getPool getEntry)
open Text

/-! ## The vault client of the browser -/

/-- The demo pool slug per currency. -/
def DEMO_POOL_SLUG : Currency → Option PoolId
  | .usd => some "blend-usdc"
  | .eur => some "blend-eurc"
  | .mxn => none

/-- The configured pools, of the addresses per currency. -/
def poolRegistryEntries (addresses : Currency → Option Backend.Address) : List (PoolId × Backend.Address) :=
  [Currency.usd, Currency.eur].flatMap fun c =>
    match DEMO_POOL_SLUG c, (addresses c).filter (· ≠ "") with
    | some slug, some address => [(slug, address)]
    | _, _                    => []

/-- `createVaultClient`, when the contract is configured. -/
def createVaultClient (addresses : Currency → Option Backend.Address) (strkey : Strkey) (refusal : Panic → String) :
    VaultClient :=
  let entries := poolRegistryEntries addresses
  { strkey      := strkey
    resolvePool := if entries = [] then none else some (getEntry entries)
    poolIdFor   := if entries = [] then none else some fun address => some
      ((getEntry (entries.map fun e => (e.2, e.1)) address).getD address)
    refusal     := refusal }

/-! ## `usePendingExit` -/

/-- Name and rate of an exit target. -/
structure PoolMeta where
  name : String
  apy  : ℚ

/-- The offline fallback. -/
def getPoolMeta (poolId : PoolId) : Option PoolMeta :=
  if poolId = "pool-defindex-eur" then some ⟨"DeFindex EURC", 59 / 10⟩ else none

def ACTIVE_BUCKET_CURRENCIES : List Currency := [.usd, .eur]

/-- The `sym` of a currency in `STABLECOINS`. -/
def stablecoinSym : Currency → String
  | .usd => "USDC"
  | .eur => "EURC"
  | .mxn => "CETES"

structure PendingExitView where
  currency  : Currency
  proposal  : Option ExitProposal
  fromLabel : String
  sym       : String
  amount    : Int
  toMeta    : Option PoolMeta

/-- What the hook asks: the chain, and the backend with the rates it reads. -/
structure ApiWorld where
  world : World
  apy   : PoolId → Backend.Result ℚ

/-- `api` is `apiEnabled()`. -/
def resolveExitTarget (api : Bool) (poolId : PoolId) : Inquiry ApiWorld (Option PoolMeta) :=
  if api = true then
    .ask fun o =>
      match getPool poolId o.apy with
      | .ok pool => pure (some ⟨pool.name, pool.apy⟩)
      | .err _ _ => pure (getPoolMeta poolId)
  else pure (getPoolMeta poolId)

/-- `toMeta`. -/
def exitTarget (api : Bool) : Option ExitProposal → Inquiry ApiWorld (Option PoolMeta)
  | none          => pure none
  | some proposal => resolveExitTarget api proposal.toPool

/-- The rest of an iteration, once the bucket's pool is known to be frozen. -/
def frozenBucket (client : VaultClient) (api : Bool) (address : Backend.Address) (c : Currency) :
    Inquiry ApiWorld (Option PendingExitView) := do
  let proposal ← .ask fun o => pure ((Vault.pendingExit o.world c).map client.exitOf)
  let amount ← .read fun o => client.assetValueOf o.world address c
  let toMeta ← exitTarget api proposal
  pure (some
    { currency := c, proposal := proposal, fromLabel := "Paused " ++ stablecoinSym c ++ " pool",
      sym := stablecoinSym c, amount := amount, toMeta := toMeta })

/-- The loop: the first currency whose active pool is frozen. -/
def firstFrozen (client : VaultClient) (api : Bool) (address : Backend.Address) :
    List Currency → Inquiry ApiWorld (Option PendingExitView)
  | []        => pure none
  | c :: rest => do
    let pool ← .ask fun o => pure (client.activeSlug o.world c)
    match pool with
    | none      => firstFrozen client api address rest
    | some pool => do
      let status ← .read fun o => client.poolStatus o.world pool
      if status = .frozen then frozenBucket client api address c else firstFrozen client api address rest

/-- The effect, for the connected account. -/
def usePendingExit (client : VaultClient) (api : Bool) : Option ℕ → Inquiry ApiWorld (Option PendingExitView)
  | none    => pure none
  | some id => firstFrozen client api (client.strkey.text (.account id)) ACTIVE_BUCKET_CURRENCIES

/-! ## `useExitApproval` -/

inductive ExitToast where
  | approved
  | rejected
  | failed
  | declined
deriving DecidableEq

/-- An `onApprove` that has not settled, with what it closed over. -/
structure Approval where
  account  : ℕ
  view     : PendingExitView
  proposal : ExitProposal
  /-- The write has taken effect. -/
  landed   : Bool
  mounted  : Bool

/-- The write; an id that is no number throws. -/
def Approval.call (p : Approval) : Option Vault.Call :=
  match bigInt p.proposal.id.toList with
  | .ok n    => some (.approveExit (.account p.account) n.toNat)
  | .error _ => none

theorem Approval.call_of_bigInt {p : Approval} {n : Int} (h : bigInt p.proposal.id.toList = .ok n) :
    p.call = some (.approveExit (.account p.account) n.toNat) := by
  unfold Approval.call
  rw [h]

/-- The sheet, what it has started, and what was given up and may land all the same. -/
structure ExitApp where
  outside   : ApiWorld
  account   : Option ℕ
  viewer    : Viewer ApiWorld (Option PendingExitView)
  opened    : Bool
  toast     : Option ExitToast
  approvals : List Approval
  loose     : List Approval

namespace ExitApp

variable (client : VaultClient) (api : Bool) (s : ExitApp)

/-- `pend`. -/
def pend : Option PendingExitView := s.viewer.shown

/-- The effect runs again: a version was bumped, or another account is connected. -/
def refetch : ExitApp := { s with viewer := s.viewer.rerun (usePendingExit client api s.account) }

/-- `inFlight`, which `busy` follows. -/
def busy : Bool := s.approvals.any (·.mounted)

/-- `onApprove`, up to the reply. -/
def onApprove : ExitApp :=
  match s.account, s.pend with
  | some id, some view =>
    match view.proposal with
    | some proposal =>
      if s.busy = true then s
      else { s with approvals := s.approvals ++ [⟨id, view, proposal, false, true⟩] }
    | none          => s
  | _, _ => s

variable {s} in
theorem onApprove_of_shown {id : ℕ} {view : PendingExitView} {proposal : ExitProposal} (haccount : s.account = some id)
    (hview : s.pend = some view) (hproposal : view.proposal = some proposal) (hfree : s.busy = false) :
    s.onApprove = { s with approvals := s.approvals ++ [⟨id, view, proposal, false, true⟩] } := by
  unfold onApprove
  rw [haccount, hview]
  simp only [hproposal, hfree, Bool.false_eq_true, if_false]

/-- What a mounted sheet shows of a reply. -/
def tells (p : Approval) (toast : ExitToast) : ExitApp :=
  if p.mounted = true then { s with toast := some toast } else s

/-- Nobody waits for the approval any more, which may land all the same. -/
def lets (p : Approval) : ExitApp := if p.landed = true then s else { s with loose := s.loose ++ [p] }

/-- `onApprove`, from the reply. -/
def replied (i : ℕ) (p : Approval) (r : WriteReply) : ExitApp :=
  let s := { s with approvals := s.approvals.eraseIdx i }
  match r with
  | .success  =>
    let s := (s.refetch client api).tells p .approved
    if p.mounted = true then { s with opened := false } else s
  | .rejected => (s.lets p).tells p .rejected
  | .threw    => (s.lets p).tells p .failed
  | .closed   => s

/-- The user leaves the page and comes back. -/
def remount : ExitApp :=
  let s : ExitApp := { s with
    viewer    := { s.viewer with shown := none }
    opened    := false
    toast     := none
    approvals := s.approvals.map fun p => { p with mounted := false } }
  s.refetch client api

end ExitApp

/-- What may happen next. -/
inductive ExitAct where
  | look
  | refetch
  | connect (account : Option ℕ)
  | toggle (opened : Bool)
  | decline
  | approve
  | lands (i : ℕ)
  | reply (i : ℕ) (r : WriteReply)
  | late (j : ℕ)
  | expire (j : ℕ)
  | hush
  | remount
  | rates (apy : PoolId → Backend.Result ℚ)
  | other (a : Action)

/-- One step. -/
inductive ExitStep (client : VaultClient) (api : Bool) (s : ExitApp) : ExitAct → ExitApp → Prop where
  /-- The hook's inquiry goes on. -/
  | look {v : Viewer ApiWorld (Option PendingExitView)} (hv : Viewer.Step s.outside s.viewer v) :
      ExitStep client api s .look { s with viewer := v }
  /-- Another component bumps the version. -/
  | refetch : ExitStep client api s .refetch (s.refetch client api)
  | connect {o : Option ℕ} : ExitStep client api s (.connect o) ({ s with account := o }.refetch client api)
  | toggle {b : Bool} : ExitStep client api s (.toggle b) { s with opened := b }
  | decline (hopen : s.opened = true) (hfree : s.busy = false) :
      ExitStep client api s .decline { s with opened := false, toast := some .declined }
  | approve (hopen : s.opened = true) : ExitStep client api s .approve s.onApprove
  | lands {i : ℕ} {p : Approval} {call : Vault.Call} {w : World} (hp : s.approvals[i]? = some p)
      (hcall : p.call = some call) (hnot : p.landed = false)
      (hx : call.exec (Auth.signers [p.account]) s.outside.world = .ok w) :
      ExitStep client api s (.lands i)
        { s with
          outside   := { s.outside with world := w }
          approvals := s.approvals.set i { p with landed := true } }
  | reply {i : ℕ} {p : Approval} {r : WriteReply} (hp : s.approvals[i]? = some p) (hfits : r.Fits p.landed) :
      ExitStep client api s (.reply i r) (s.replied client api i p r)
  | late {j : ℕ} {p : Approval} {call : Vault.Call} {w : World} (hj : s.loose[j]? = some p)
      (hcall : p.call = some call) (hx : call.exec (Auth.signers [p.account]) s.outside.world = .ok w) :
      ExitStep client api s (.late j)
        { s with outside := { s.outside with world := w }, loose := s.loose.eraseIdx j }
  | expire {j : ℕ} : ExitStep client api s (.expire j) { s with loose := s.loose.eraseIdx j }
  /-- The toast times out. -/
  | hush : ExitStep client api s .hush { s with toast := none }
  | remount : ExitStep client api s .remount (s.remount client api)
  | rates {apy : PoolId → Backend.Result ℚ} :
      ExitStep client api s (.rates apy) { s with outside := { s.outside with apy := apy } }
  | other {a : Action} {w : World} (hs : Step s.outside.world a w) :
      ExitStep client api s (.other a) { s with outside := { s.outside with world := w } }

end Frontend
end SoroSense
