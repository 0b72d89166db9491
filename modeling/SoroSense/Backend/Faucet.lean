import SoroSense.Lib.Fallible
import Mathlib.Data.Rat.Defs
import Mathlib.Algebra.Order.Ring.Rat
import Mathlib.Logic.Function.Basic

/-!
# `Backend.Faucet` — `POST /faucet`

`backend/src/http/faucet.ts`, one backend process. Every request has a handler of its own, and a handler
runs in **turns**: up to the body, from the body to the mint, from the mint's settlement to the answer.
Between two turns of one handler any number of turns of others may run; `lastMintAt` is all they share.

The clock is the caller's: every turn carries its readings. The minter is too: a mint settles when and
how the turn says. A mint that succeeds is one the minter reports: the real one can also reject after the
transaction was sent, and what then reaches the chain is not counted here. A handler that throws is answered by the framework.
-/

namespace SoroSense.Backend

open Fallible

/-! ## The request -/

/-- A parsed JSON value. -/
inductive Json where
  | null
  | bool (value : Bool)
  | num (value : ℚ)
  | str (value : String)
  | arr (items : List Json)
  | obj (members : List (String × Json))

/-- A property read off a value, `none` for `undefined`. Of two members of one name the later stands. -/
def Json.property (name : String) : Json → Option Json
  | .obj members => (members.reverse.find? fun m => m.1 = name).map Prod.snd
  | _            => none

inductive FaucetCurrency where
  | usd
  | eur
deriving DecidableEq

def FaucetCurrency.name : FaucetCurrency → String
  | .usd => "USD"
  | .eur => "EUR"

/-- The currency a property names. -/
def faucetCurrency? : Option Json → Option FaucetCurrency
  | some (.str s) => if s = "USD" then some .usd else if s = "EUR" then some .eur else none
  | _             => none

/-- One character of `[A-Z2-7]`. -/
def isBase32 (c : Char) : Bool := ('A' ≤ c && c ≤ 'Z') || ('2' ≤ c && c ≤ '7')

/-- `STELLAR_PUBKEY`: a `G` and 55 more characters. -/
def STELLAR_PUBKEY (address : String) : Bool :=
  match address.toList with
  | 'G' :: rest => rest.length = 55 && rest.all isBase32
  | _           => false

/-- The address a property holds. -/
def stellarAddress? : Option Json → Option String
  | some (.str s) => if STELLAR_PUBKEY s then some s else none
  | _             => none

/-! ## Configuration and answers -/

/-- Outcome of a mint that answered. -/
inductive MintResult where
  | ok (hash : String)
  | noTrustline

def DEFAULT_AMOUNT : ℤ := 1000 * 10000000

def DEFAULT_RATE_LIMIT_MS : ℚ := 60000

/-- `FaucetConfig`, less the minter and the clock. -/
structure FaucetConfig where
  sac         : FaucetCurrency → String
  amount      : ℤ := DEFAULT_AMOUNT
  rateLimitMs : ℚ := DEFAULT_RATE_LIMIT_MS

inductive Response where
  | bad (message : String) (status : ℕ)
  | needsChangeTrust (currency : FaucetCurrency) (sac message : String) (status : ℕ)
  | ok (hash : String) (currency : FaucetCurrency) (amount : String)
  /-- The handler threw. -/
  | thrown
deriving DecidableEq

/-- One call of the minter: its arguments and when it began. -/
structure Mint where
  address  : String
  currency : FaucetCurrency
  sac      : String
  amount   : ℤ
  start    : ℚ
deriving DecidableEq

def limitKey (address : String) (currency : FaucetCurrency) : String :=
  address ++ ":" ++ currency.name

/-! ## The handler -/

/-- The key minted less than `rateLimitMs` ago. -/
def rateLimited (config : FaucetConfig) (lastMintAt : String → Option ℚ) (key : String) (now : ℚ) : Bool :=
  match lastMintAt key with
  | some last => now - last < config.rateLimitMs
  | none      => false

/-- From the body to the mint: what refuses the request, or whom to mint what. `none` is a body that
    does not parse. -/
def checkRequest (config : FaucetConfig) (lastMintAt : String → Option ℚ) (body : Option Json) (now : ℚ) :
    Except Response (String × FaucetCurrency) := do
  let body ← orFail body (.bad "invalid JSON body" 400)
  let address ← orFail (stellarAddress? (body.property "address"))
    (.bad "invalid or missing Stellar address" 400)
  let currency ← orFail (faucetCurrency? (body.property "currency"))
    (.bad "unsupported currency: faucet mints USD or EUR only" 400)
  failIf (rateLimited config lastMintAt (limitKey address currency) now)
    (.bad "rate limited: try again later" 429)
  .ok (address, currency)

/-- From the mint's settlement to the answer. `none` is a mint that rejected. -/
def answer (m : Mint) : Option MintResult → Response
  | some (.ok hash)    => .ok hash m.currency (toString m.amount)
  | some .noTrustline  => .needsChangeTrust m.currency m.sac "add a trustline, then retry" 409
  | none               => .thrown

/-- Where one request's handler stands. -/
inductive Handler where
  /-- No such request yet. -/
  | idle
  | reading
  | minting (m : Mint)
  /-- Answered, with the mint if one succeeded. -/
  | answered (response : Response) (minted : Option Mint)
deriving DecidableEq

/-- The process: its map, its handlers by order of arrival, its clock's last reading. -/
structure Faucet where
  lastMintAt : String → Option ℚ
  handlers   : ℕ → Handler
  clock      : ℚ

namespace Faucet

/-- `mountFaucet`. -/
def mounted (clock : ℚ) : Faucet := ⟨fun _ => none, fun _ => .idle, clock⟩

/-- One handler's turn. -/
inductive Turn where
  | received (i : ℕ)
  /-- The body was read; the check reads the clock at `now`, the minter is called at `called`. -/
  | bodyRead (i : ℕ) (body : Option Json) (now called : ℚ)
  | mintSettled (i : ℕ) (outcome : Option MintResult) (now : ℚ)

/-- Why there is no such turn. -/
inductive NoTurn where
  | notItsTurn
  | clockRanBack
deriving DecidableEq

/-- Handler `i` moves to `h`. -/
def moved (s : Faucet) (i : ℕ) (h : Handler) (clock : ℚ) : Faucet :=
  { s with handlers := Function.update s.handlers i h, clock := clock }

/-- `lastMintAt.set`. -/
def recorded (s : Faucet) (m : Mint) (now : ℚ) : Faucet :=
  { s with lastMintAt := Function.update s.lastMintAt (limitKey m.address m.currency) (some now) }

def turn (config : FaucetConfig) (s : Faucet) : Turn → Except NoTurn Faucet
  | .received i =>
    match s.handlers i with
    | .idle => .ok (s.moved i .reading s.clock)
    | _     => .error .notItsTurn
  | .bodyRead i body now called => do
    failIf (¬ (s.clock ≤ now ∧ now ≤ called)) .clockRanBack
    match s.handlers i with
    | .reading =>
      match checkRequest config s.lastMintAt body now with
      | .error response         => .ok (s.moved i (.answered response none) called)
      | .ok (address, currency) =>
        .ok (s.moved i (.minting ⟨address, currency, config.sac currency, config.amount, called⟩) called)
    | _        => .error .notItsTurn
  | .mintSettled i outcome now => do
    failIf (¬ s.clock ≤ now) .clockRanBack
    match s.handlers i with
    | .minting m =>
      match outcome with
      | some (.ok _) => .ok ((s.recorded m now).moved i (.answered (answer m outcome) (some m)) now)
      | _            => .ok (s.moved i (.answered (answer m outcome) none) now)
    | _          => .error .notItsTurn

/-! ## What the handler checks -/

variable {config : FaucetConfig} {s t : Faucet}

theorem not_rateLimited_iff {lastMintAt : String → Option ℚ} {key : String} {now : ℚ} :
    ¬ rateLimited config lastMintAt key now ↔
      ∀ last, lastMintAt key = some last → config.rateLimitMs ≤ now - last := by
  unfold rateLimited
  cases lastMintAt key with
  | none      => simp
  | some last => simp

/-- **The gates of a request**, the cooldown last. -/
theorem checkRequest_eq_ok {lastMintAt : String → Option ℚ} {body : Option Json} {now : ℚ} {address : String}
    {currency : FaucetCurrency} :
    checkRequest config lastMintAt body now = .ok (address, currency) ↔
      ∃ b, body = some b ∧ stellarAddress? (b.property "address") = some address ∧
        faucetCurrency? (b.property "currency") = some currency ∧
        ∀ last, lastMintAt (limitKey address currency) = some last → config.rateLimitMs ≤ now - last := by
  unfold checkRequest
  simp only [bind_eq_ok, orFail_eq_ok, failIf_eq_ok, not_rateLimited_iff, ok_eq_ok, Prod.mk.injEq]
  constructor
  · rintro ⟨b, hb, a, ha, c, hc, _, hlast, rfl, rfl⟩
    exact ⟨b, hb, ha, hc, hlast⟩
  · rintro ⟨b, hb, ha, hc, hlast⟩
    exact ⟨b, hb, address, ha, currency, hc, (), hlast, rfl, rfl⟩

/-- Addresses and currencies that share a key are the same. -/
theorem limitKey_inj {a a' : String} {c c' : FaucetCurrency} (h : limitKey a c = limitKey a' c') :
    a = a' ∧ c = c' := by
  have hlist := congrArg String.toList h
  unfold limitKey at hlist
  simp only [String.toList_append, List.append_assoc] at hlist
  have hlen : (":".toList ++ c.name.toList).length = (":".toList ++ c'.name.toList).length := by
    cases c <;> cases c' <;> rfl
  obtain ⟨ha, hc⟩ := List.append_inj' hlist hlen
  refine ⟨String.toList_inj.mp ha, ?_⟩
  cases c <;> cases c' <;> first | rfl | exact absurd hc (by decide)

theorem turn_received {i : ℕ} (h : turn config s (.received i) = .ok t) :
    s.handlers i = .idle ∧ t = s.moved i .reading s.clock := by
  simp only [turn] at h
  split at h
  · rename_i hidle
    exact ⟨hidle, (ok_eq_ok.mp h).symm⟩
  · exact absurd h (by simp)

/-- **The second turn** refuses, or calls the minter. -/
theorem turn_bodyRead {i : ℕ} {body : Option Json} {now called : ℚ}
    (h : turn config s (.bodyRead i body now called) = .ok t) :
    s.clock ≤ now ∧ now ≤ called ∧ s.handlers i = .reading ∧
      ((∃ r, checkRequest config s.lastMintAt body now = .error r ∧ t = s.moved i (.answered r none) called) ∨
        ∃ a c, checkRequest config s.lastMintAt body now = .ok (a, c) ∧
          t = s.moved i (.minting ⟨a, c, config.sac c, config.amount, called⟩) called) := by
  simp only [turn] at h
  rw [bind_eq_ok] at h
  obtain ⟨_, hclock, h⟩ := h
  obtain ⟨hnow, hcalled⟩ := not_not.mp (failIf_eq_ok.mp hclock)
  split at h
  · rename_i hreading
    refine ⟨hnow, hcalled, hreading, ?_⟩
    split at h
    · rename_i r hr
      exact .inl ⟨r, hr, (ok_eq_ok.mp h).symm⟩
    · rename_i a c hac
      exact .inr ⟨a, c, hac, (ok_eq_ok.mp h).symm⟩
  · exact absurd h (by simp)

/-- **The third turn** records, or leaves the map alone. -/
theorem turn_mintSettled {i : ℕ} {outcome : Option MintResult} {now : ℚ}
    (h : turn config s (.mintSettled i outcome now) = .ok t) :
    s.clock ≤ now ∧ ∃ m, s.handlers i = .minting m ∧
      ((∃ hash, outcome = some (.ok hash) ∧
          t = (s.recorded m now).moved i (.answered (answer m outcome) (some m)) now) ∨
        ((∀ hash, outcome ≠ some (.ok hash)) ∧ t = s.moved i (.answered (answer m outcome) none) now)) := by
  simp only [turn] at h
  rw [bind_eq_ok] at h
  obtain ⟨_, hclock, h⟩ := h
  have hnow := not_not.mp (failIf_eq_ok.mp hclock)
  split at h
  · rename_i m hm
    refine ⟨hnow, m, hm, ?_⟩
    split at h
    · rename_i hash
      exact .inl ⟨hash, rfl, (ok_eq_ok.mp h).symm⟩
    · rename_i hnot
      exact .inr ⟨hnot, (ok_eq_ok.mp h).symm⟩
  · exact absurd h (by simp)

end Faucet

end SoroSense.Backend
