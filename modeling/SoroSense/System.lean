import SoroSense.Vault.Contract
import SoroSense.Lib.Execution

/-!
# `System` — one vault, its pools and everybody else

The state machine the properties are about. An `Action` is one transaction (or one environment event) by
anybody: any vault entrypoint, any call on any pool, any token transfer or issuance, the clock, the
deployment of a further pool. A transaction that panics reverts, so a `Step` either takes effect or
leaves the world as it was.

Runs start at a `Genesis` world: a freshly constructed vault, no pools yet, any token balances. Two
restrictions on who is named by what are used by several properties:

* `Action.Respects home` — every pool is named by calls of one currency only (`home`);
* `Action.Registered r` — moreover each currency has one token, distinct from the others', and a pool
  named for a currency is a pool of that token.
-/

namespace SoroSense

open Fallible Transition

/-! ## Actions -/

/-- One transaction or environment event. -/
inductive Action where
  /-- A vault entrypoint, authorised by these accounts. -/
  | vault (signers : List Nat) (call : Vault.Call)
  /-- A call on a pool, authorised by these accounts. -/
  | pool (signers : List Nat) (pool : Address) (call : YieldPool.Call)
  /-- A token transfer out of an account (a payment, a donation, a top-up of a pool). -/
  | transfer (signers : List Nat) (token sender recipient : Address) (amount : Int)
  /-- The issuer mints tokens. -/
  | mint (token recipient : Address) (amount : Int)
  /-- Ledger time advances. -/
  | advance (timestamp : Nat)
  /-- A further pool contract is deployed. -/
  | deployPool (id : Nat) (admin token : Address) (rateBps : Nat)
deriving DecidableEq, Repr

/-- Run one action. -/
def Action.exec (w : World) : Action → Except Panic World
  | .vault signers call => call.exec (Auth.signers signers) w
  | .pool signers p (.supply sender amount) =>
      PoolClient.supply w (Auth.signers signers) p sender amount
  | .pool signers p (.withdraw recipient amount) =>
      PoolClient.withdraw w (Auth.signers signers) p recipient amount
  | .pool signers p (.setRate rateBps) => PoolClient.setRate w (Auth.signers signers) p rateBps
  | .transfer signers token sender recipient amount => do
      requireAuth (Auth.signers signers) sender
      w.transfer token sender recipient amount
  | .mint token recipient amount => do
      failIf (amount < 0) .transfer
      .ok (w.setTokens (w.tokens.credit token recipient amount))
  | .advance timestamp => do
      failIf (timestamp < w.timestamp ∨ u64Max < timestamp) .ledger
      .ok { w with timestamp := timestamp }
  | .deployPool id admin token rateBps => do
      failIf (id = 0 ∨ (w.pools (.contract id)).isSome = true) .ledger
      let s ← YieldPool.construct w.timestamp admin token rateBps
      .ok (w.setPool (.contract id) s)

/-! ## Steps and runs -/

/-- One action took effect, or panicked and reverted. -/
inductive Step (w : World) (a : Action) : World → Prop where
  | done {w' : World} (h : a.exec w = .ok w') : Step w a w'
  | reverted {e : Panic} (h : a.exec w = .error e) : Step w a w

/-- A refused action leaves the world as it was. -/
theorem Step.refused {w : World} {a : Action} (h : (a.exec w).isOk = false) : Step w a w := by
  cases hx : a.exec w with
  | error e => exact .reverted hx
  | ok w'   => exact absurd hx (isOk_eq_false_iff.mp h w')

/-- An action that returns has one effect. -/
theorem Step.eq_of_ok {w w' v : World} {a : Action} (hs : Step w a w') (hx : a.exec w = .ok v) : w' = v := by
  cases hs with
  | done h     => exact ok_unique h hx
  | reverted h => exact absurd (h.symm.trans hx) (by simp)

/-- A freshly deployed vault, before any pool is. -/
structure Genesis (w : World) : Prop where
  clock         : w.timestamp ≤ u64Max
  tokens_nonneg : ∀ token who, 0 ≤ w.tokens token who
  no_pools      : ∀ p, w.pools p = none
  constructed   : ∃ admin keeper config, w.vault = Vault.construct admin keeper config

/-- The vault calls that name a pool, and the currency they name it for. -/
def Vault.Call.Names : Vault.Call → Address → Currency → Prop
  | .allocate pool c _            => fun p d => p = pool ∧ d = c
  | .deallocate pool c _          => fun p d => p = pool ∧ d = c
  | .proposeExit c fromPool toPool => fun p d => (p = fromPool ∨ p = toPool) ∧ d = c
  | _                             => fun _ _ => False

/-- Every pool this action names, it names for its home currency. -/
def Action.Respects (home : Address → Currency) : Action → Prop
  | .vault _ call => ∀ p c, call.Names p c → home p = c
  | _             => True

/-- Which currency each pool serves, and which token backs each currency and each pool. -/
structure Registry where
  home            : Address → Currency
  token           : Currency → Address
  token_injective : Function.Injective token
  poolToken       : Address → Address

/-- The action follows the registry: tokens are registered as it says, pools deployed over the token it
    says, and a pool is named only for its home currency, whose token it is a pool of. -/
def Action.Registered (r : Registry) : Action → Prop
  | .vault _ (.setToken c token)   => token = r.token c
  | .vault _ call                  => ∀ p c, call.Names p c → r.home p = c ∧ r.poolToken p = r.token c
  | .deployPool id _ token _       => token = r.poolToken (.contract id)
  | _                              => True

/-- A step that names every pool for its home currency. -/
def HomeStep (home : Address → Currency) (w : World) (a : Action) (w' : World) : Prop :=
  Step w a w' ∧ a.Respects home

/-- A step that follows the registry. -/
def RegisteredStep (r : Registry) (w : World) (a : Action) (w' : World) : Prop :=
  Step w a w' ∧ a.Registered r

theorem Action.Registered.respects {r : Registry} {a : Action} (h : a.Registered r) :
    a.Respects r.home := by
  cases a with
  | vault signers call =>
      intro p c hn
      cases call with
      | setToken d token => exact absurd hn (by simp [Vault.Call.Names])
      | _ => exact (h p c hn).1
  | _ => exact trivial

theorem RegisteredStep.home {r : Registry} {w w' : World} {a : Action} (h : RegisteredStep r w a w') :
    HomeStep r.home w a w' := ⟨h.1, h.2.respects⟩

theorem reachable_of_home {home : Address → Currency} {w : World}
    (h : Reachable Genesis (HomeStep home) w) : Reachable Genesis Step w :=
  h.weaken (fun _ _ _ hs => hs.1)

theorem reachable_home_of_registered {r : Registry} {w : World}
    (h : Reachable Genesis (RegisteredStep r) w) : Reachable Genesis (HomeStep r.home) w :=
  h.weaken (fun _ _ _ hs => hs.home)

/-! ## Executed runs -/

/-- A world to start runs from: a fresh vault over the given token balances, at time zero. -/
def World.initial (admin keeper : Address) (config : Vault.Config) (tokens : Tokens) : World :=
  { timestamp := 0, tokens := tokens, pools := fun _ => none,
    vault := Vault.construct admin keeper config }

theorem Genesis.initial {admin keeper : Address} {config : Vault.Config} {tokens : Tokens}
    (h : ∀ token who, 0 ≤ tokens token who) : Genesis (.initial admin keeper config tokens) :=
  ⟨Nat.zero_le _, h, fun _ => rfl, admin, keeper, config, rfl⟩

/-- The transitions a list of actions takes, up to the first that panics. -/
def World.trace (w : World) (as : List Action) : List (Event World Action) :=
  Execution.trace Action.exec w as

/-- The world they lead to. -/
def World.after (w : World) (as : List Action) : World := Execution.after Action.exec w as

/-- Every action of the list takes effect. -/
def World.Accepts (w : World) (as : List Action) : Prop := Execution.Accepts Action.exec w as

instance (w : World) (as : List Action) : Decidable (w.Accepts as) :=
  inferInstanceAs (Decidable (Execution.Accepts Action.exec w as))

/-- A single accepted action returns the world after it. -/
theorem World.Accepts.exec {w : World} {a : Action} (h : w.Accepts [a]) : a.exec w = .ok (w.after [a]) :=
  Execution.Accepts.single h

/-- A list of actions is a run. -/
theorem World.run_trace (w : World) (as : List Action) : Run Step w (w.trace as) (w.after as) :=
  Execution.run_trace (fun _ _ _ => .done) as

/-- The same, for actions that name every pool for its home currency. -/
theorem World.run_trace_home {home : Address → Currency} (w : World) {as : List Action}
    (hr : ∀ a ∈ as, a.Respects home) : Run (HomeStep home) w (w.trace as) (w.after as) :=
  Execution.run_trace_restrict Step (fun a => a.Respects home) (fun _ _ _ => .done) w hr

/-- The same, for actions that follow a registry. -/
theorem World.run_trace_registered {r : Registry} (w : World) {as : List Action}
    (hr : ∀ a ∈ as, a.Registered r) : Run (RegisteredStep r) w (w.trace as) (w.after as) :=
  Execution.run_trace_restrict Step (fun a => a.Registered r) (fun _ _ _ => .done) w hr

/-- What actions reach from a genesis world is reachable. -/
theorem Genesis.reachable {w : World} (hg : Genesis w) (as : List Action) :
    Reachable Genesis Step (w.after as) := ⟨w, _, hg, w.run_trace as⟩

theorem Genesis.reachable_home {home : Address → Currency} {w : World} (hg : Genesis w)
    {as : List Action} (hr : ∀ a ∈ as, a.Respects home) : Reachable Genesis (HomeStep home) (w.after as) :=
  ⟨w, _, hg, w.run_trace_home hr⟩

theorem Genesis.reachable_registered {r : Registry} {w : World} (hg : Genesis w) {as : List Action}
    (hr : ∀ a ∈ as, a.Registered r) : Reachable Genesis (RegisteredStep r) (w.after as) :=
  ⟨w, _, hg, w.run_trace_registered hr⟩

/-- A fresh vault run by account 0 (admin) and account 1 (keeper), with a virtual offset of one and every
    account holding `balance` of every token. -/
def World.opening (perPoolCap balance : Int) : World :=
  .initial (.account 0) (.account 1) ⟨perPoolCap, 1, 1⟩ fun _ who =>
    match who with
    | .account _  => balance
    | .contract _ => 0

theorem Genesis.opening {perPoolCap balance : Int} (h : 0 ≤ balance) :
    Genesis (.opening perPoolCap balance) := by
  refine .initial (fun _ who => ?_)
  cases who with
  | account _  => exact h
  | contract _ => exact le_refl _

/-- Deploy a pool over `token` and allowlist it; register the token for `c`. -/
def setUpPool (c : Currency) (token : Address) (pool rateBps : Nat) : List Action :=
  [.deployPool pool (.account 0) token rateBps, .vault [0] (.setToken c token),
    .vault [0] (.setPoolAllowed (.contract pool) true)]

/-- An account consents and deposits. -/
def joins (u : Nat) (c : Currency) (amount : Int) : List Action :=
  [.vault [u] (.setPolicyConsent (.account u)), .vault [u] (.deposit (.account u) c amount)]

end SoroSense
