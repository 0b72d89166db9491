import SoroSense.System
import SoroSense.Frontend.Units
import SoroSense.Lib.Transition

/-!
# `Frontend.DepositScreen` — the deposit screen and its submissions

`components/deposit/DepositKeypad.tsx` under `hooks/useTransferFlow.ts`, with the contributions ledger of
`lib/vault/contributions.ts`; `components/desktop/AddFundsDrawer.tsx` repeats it in a drawer that stays mounted when
it is closed (`stays`).

What may happen is a list of small steps. A press of the button starts a consent check; its answer opens the consent
sheet or starts the deposit; a write that is awaited takes effect and is answered, and once the minimum duration is
over the verdict shows. A screen that is left keeps running what it has started. Everything in between may come in
any order, and others use the vault meanwhile.

The open sheet covers the form. The address is that of one account throughout; the transaction hash, the texts of
errors and the frozen note are left out.
-/

namespace SoroSense.Frontend

open Fallible

inductive TransferPhase where
  | idle
  | sending
  | success
  | error
deriving DecidableEq

/-- What a `doDeposit` closed over. -/
structure DepositOrder where
  currency : Currency
  amount   : Int
deriving DecidableEq

/-- What a submission awaits. -/
inductive Awaited where
  /-- `setPolicyConsent`; the deposit follows. -/
  | consent
  | deposit
  /-- The minimum duration, with the chain's verdict. -/
  | floor (success : Bool)
deriving DecidableEq

/-- A `flow.run` that has not settled. -/
structure Flight where
  order   : DepositOrder
  awaited : Awaited
  /-- The awaited write has taken effect. -/
  landed  : Bool
  /-- `onConfirm` awaits it. -/
  direct  : Bool
  mounted : Bool
deriving DecidableEq

/-- An `onConfirm` that awaits `hasConsent`. -/
structure ConsentCheck where
  order   : DepositOrder
  mounted : Bool
deriving DecidableEq

/-- What the screen shows, and the `last` submission of its flow. -/
structure DepositScreen where
  currency    : Currency
  amount      : Text
  available   : Int
  consentOpen : Bool
  busy        : Bool
  phase       : TransferPhase
  last        : Option DepositOrder

/-- The screen, what it has started, the contributions ledger and the vault. `landed` are the writes that took
    effect, `loose` those that were given up but may still do so. -/
structure DepositApp where
  world   : World
  landed  : List Vault.Call
  loose   : List Vault.Call
  ledger  : Currency → Int
  screen  : DepositScreen
  checks  : List ConsentCheck
  flights : List Flight

/-- A screen for a currency, freshly mounted. -/
def DepositScreen.fresh (c : Currency) (available : Int) : DepositScreen where
  currency    := c
  amount      := ['0']
  available   := available
  consentOpen := false
  busy        := false
  phase       := .idle
  last        := none

/-- `toAmount(amount)`. -/
def DepositScreen.entered (d : DepositScreen) : Int := (toAmount d.amount).toOption.getD 0

/-- The deposit of an order. -/
def DepositOrder.call (id : ℕ) (o : DepositOrder) : Vault.Call := .deposit (.account id) o.currency o.amount

/-- The write that is awaited. -/
def Flight.write (id : ℕ) (f : Flight) : Option Vault.Call :=
  match f.awaited with
  | .consent => some (.setPolicyConsent (.account id))
  | .deposit => some (f.order.call id)
  | .floor _ => none

/-- How `signAndSubmit` ends. -/
inductive WriteReply where
  | success
  /-- Submitted, and not seen to succeed. -/
  | rejected
  | threw
  /-- The wallet was closed, nothing was submitted. -/
  | closed
deriving DecidableEq

namespace DepositApp

variable (s : DepositApp)

/-- The order that a press would close over. -/
def order : DepositOrder := ⟨s.screen.currency, s.screen.entered⟩

/-- `flow.run(submit)`; of a screen that is gone, nothing shows. -/
def run (o : DepositOrder) (awaited : Awaited) (direct mounted : Bool) : DepositApp :=
  { s with
    flights := s.flights ++ [⟨o, awaited, false, direct, mounted⟩]
    screen  := if mounted = true then { s.screen with phase := .sending, last := some o } else s.screen }

/-- `onConfirm`, up to the answer of `hasConsent`. -/
def pressConfirm : DepositApp :=
  if s.screen.busy = true ∨ s.screen.phase ≠ .idle ∨ s.screen.entered ≤ 0 ∨ s.screen.available < s.screen.entered then s
  else { s with screen := { s.screen with busy := true }, checks := s.checks ++ [⟨s.order, true⟩] }

/-- `onConfirm`, from that answer. -/
def consentAnswered (i : ℕ) (k : ConsentCheck) (yes : Bool) : DepositApp :=
  let s := { s with checks := s.checks.eraseIdx i }
  if yes = true then s.run k.order .deposit true k.mounted
  else if k.mounted = true then { s with screen := { s.screen with consentOpen := true, busy := false } }
  else s

/-- `hasConsent` threw. -/
def consentFailed (i : ℕ) (k : ConsentCheck) : DepositApp :=
  { s with
    checks := s.checks.eraseIdx i
    screen := if k.mounted = true then { s.screen with busy := false } else s.screen }

/-- `onAgree`. -/
def pressAgree : DepositApp :=
  { s with screen := { s.screen with consentOpen := false } }.run s.order .consent false true

/-- A submission has settled, and the `finally` of an `onConfirm` that awaited it has run. -/
def settled (i : ℕ) (f : Flight) (phase : TransferPhase) : DepositApp :=
  { s with
    flights := s.flights.eraseIdx i
    screen  := if f.mounted = true then { s.screen with phase := phase, busy := s.screen.busy && !f.direct }
      else s.screen }

/-- What is awaited has changed. -/
def awaits (i : ℕ) (f : Flight) (awaited : Awaited) : DepositApp :=
  { s with flights := s.flights.set i { f with awaited := awaited, landed := false } }

/-- `recordDeposit`. -/
def recordDeposit (o : DepositOrder) : DepositApp :=
  { s with ledger := Function.update s.ledger o.currency (s.ledger o.currency + o.amount) }

/-- Nobody waits for the write any more, which may take effect all the same. -/
def lets (f : Flight) (call : Vault.Call) : DepositApp :=
  if f.landed = true then s else { s with loose := s.loose ++ [call] }

/-- The submission, from the reply to its write. -/
def replied (i : ℕ) (f : Flight) (call : Vault.Call) : WriteReply → DepositApp
  | .success  =>
    match f.awaited with
    | .consent => s.awaits i f .deposit
    | _        => (s.recordDeposit f.order).awaits i f (.floor true)
  | .rejected => (s.lets f call).awaits i f (.floor false)
  | .threw    => (s.lets f call).settled i f .error
  | .closed   => s.settled i f .idle

/-- The user leaves for a screen of a currency: the old one is unmounted, or a drawer that stays is reset. -/
def left (stays : Bool) (c : Currency) : DepositApp :=
  if stays = true then
    { s with screen := { s.screen with currency := c, amount := ['0'], consentOpen := false, phase := .idle } }
  else
    { s with
      screen  := .fresh c 0
      checks  := s.checks.map fun k => { k with mounted := false }
      flights := s.flights.map fun f => { f with mounted := false } }

/-- A write takes effect. -/
def includes (call : Vault.Call) (w : World) : DepositApp := { s with world := w, landed := s.landed ++ [call] }

end DepositApp

/-- What may happen next. -/
inductive DepositAct where
  | type (text : Text)
  | funds (available : Int)
  | confirm
  | consent (i : ℕ) (yes : Bool)
  | consentFails (i : ℕ)
  | agree
  | dismiss
  | lands (i : ℕ)
  | reply (i : ℕ) (reply : WriteReply)
  | elapse (i : ℕ)
  | leave (c : Currency)
  | back
  | late (j : ℕ)
  | expire (j : ℕ)
  | other (a : Action)

/-- What is answered to a write: a success that has landed, a closed wallet that has not. -/
def WriteReply.Fits (landed : Bool) : WriteReply → Prop
  | .success => landed = true
  | .closed  => landed = false
  | _        => True

/-- One step. -/
inductive DepositStep (id : ℕ) (stays : Bool) (s : DepositApp) : DepositAct → DepositApp → Prop where
  | type {text : Text} {a : Int} (hidle : s.screen.phase = .idle) (hopen : s.screen.consentOpen = false)
      (hreads : toAmount text = .ok a) :
      DepositStep id stays s (.type text) { s with screen := { s.screen with amount := text } }
  | funds {a : Int} : DepositStep id stays s (.funds a) { s with screen := { s.screen with available := a } }
  | confirm (hidle : s.screen.phase = .idle) (hopen : s.screen.consentOpen = false) :
      DepositStep id stays s .confirm s.pressConfirm
  /-- A consent that is read has been given; one that is not may have been given since. -/
  | consent {i : ℕ} {k : ConsentCheck} {yes : Bool} (hk : s.checks[i]? = some k)
      (hyes : yes = true → Vault.hasConsent s.world (.account id) = true) :
      DepositStep id stays s (.consent i yes) (s.consentAnswered i k yes)
  | consentFails {i : ℕ} {k : ConsentCheck} (hk : s.checks[i]? = some k) :
      DepositStep id stays s (.consentFails i) (s.consentFailed i k)
  /-- A screen's sheet goes with its form; the drawer's dialog also stands over a status. -/
  | agree (hidle : stays = false → s.screen.phase = .idle) (hopen : s.screen.consentOpen = true) :
      DepositStep id stays s .agree s.pressAgree
  | dismiss (hopen : s.screen.consentOpen = true) :
      DepositStep id stays s .dismiss { s with screen := { s.screen with consentOpen := false } }
  | lands {i : ℕ} {f : Flight} {call : Vault.Call} {w : World} (hf : s.flights[i]? = some f)
      (hcall : f.write id = some call) (hnot : f.landed = false)
      (hx : call.exec (Auth.signers [id]) s.world = .ok w) :
      DepositStep id stays s (.lands i)
        { s.includes call w with flights := s.flights.set i { f with landed := true } }
  | reply {i : ℕ} {f : Flight} {call : Vault.Call} {r : WriteReply} (hf : s.flights[i]? = some f)
      (hcall : f.write id = some call) (hfits : r.Fits f.landed) :
      DepositStep id stays s (.reply i r) (s.replied i f call r)
  | elapse {i : ℕ} {f : Flight} {ok : Bool} (hf : s.flights[i]? = some f) (hfloor : f.awaited = .floor ok) :
      DepositStep id stays s (.elapse i) (s.settled i f (if ok = true then .success else .error))
  | leave {c : Currency} : DepositStep id stays s (.leave c) (s.left stays c)
  /-- The drawer goes back from an error to its form. -/
  | back (hstays : stays = true) (herror : s.screen.phase = .error) :
      DepositStep id stays s .back { s with screen := { s.screen with phase := .idle } }
  | late {j : ℕ} {call : Vault.Call} {w : World} (hj : s.loose[j]? = some call)
      (hx : call.exec (Auth.signers [id]) s.world = .ok w) :
      DepositStep id stays s (.late j) { s.includes call w with loose := s.loose.eraseIdx j }
  | expire {j : ℕ} : DepositStep id stays s (.expire j) { s with loose := s.loose.eraseIdx j }
  | other {a : Action} {w : World} (hs : Step s.world a w) : DepositStep id stays s (.other a) { s with world := w }

end SoroSense.Frontend
