import SoroSense.Lib.Timer
import SoroSense.Backend.Poller
import SoroSense.Backend.Earnings
import SoroSense.Backend.Activity
import SoroSense.System

/-!
# `Backend.Realtime` — the two loops of the live process

`backend/src/http/realtime.ts` over `backend/src/scheduler/cron.ts`, with the snapshotter of
`backend/src/earnings/snapshotter.ts`. An event poll and a share-price snapshot are each run once and awaited,
then started again and again by a timer; both wait for the RPC in between.

`Realtime.Step` is one thing that happens: somebody acts on the chain, the clock moves on, or one of the loops
is called, armed, fired, answered or stopped, in any order and with any answer. What the RPC answers is outside
the repository, and `PricedStep` and `HonestStep` say what results suppose of it: `position` says
which event a cursor of its stands before, a page holds the events right behind the cursor (`Answers`), and a
reply about a price is what the chain says when the RPC reads it, received at any later time. It reads the
vault's events from the start ledger on (`log`); earlier ones the process never sees. How often the timers fire
is left open, every order being allowed; what a failed snapshot throws reaches the log only.
-/

namespace SoroSense.Backend

open Fallible Transition Timer

variable {ε : Type}

/-! ## The snapshots (`snapshotter.ts`) -/

/-- `InMemorySnapshotStore`: per currency the samples of that currency, in order of arrival. -/
structure SnapshotStore where
  byCurrency : Currency → List Snapshot
  keyed      : ∀ c, ∀ s ∈ byCurrency c, s.currency = c

namespace SnapshotStore

def empty : SnapshotStore := { byCurrency := fun _ => [], keyed := fun _ _ hs => absurd hs (by simp) }

def append (store : SnapshotStore) (s : Snapshot) : SnapshotStore where
  byCurrency := Function.update store.byCurrency s.currency (store.byCurrency s.currency ++ [s])
  keyed c s' hs' := by
    rcases eq_or_ne c s.currency with rfl | hc
    · rw [Function.update_self] at hs'
      rcases List.mem_append.mp hs' with hold | hnew
      · exact store.keyed _ s' hold
      · rw [List.mem_singleton.mp hnew]
    · rw [Function.update_of_ne hc] at hs'
      exact store.keyed c s' hs'

def series (store : SnapshotStore) (c : Currency) : List Snapshot := store.byCurrency c

theorem series_append_self (store : SnapshotStore) (s : Snapshot) :
    (store.append s).series s.currency = store.series s.currency ++ [s] := Function.update_self ..

theorem series_append_ne {c : Currency} (store : SnapshotStore) {s : Snapshot} (h : c ≠ s.currency) :
    (store.append s).series c = store.series c := Function.update_of_ne h ..

end SnapshotStore

/-- A snapshot tick that waits for `source.sharePrice(currency)`: the reply, once the RPC has made it, and the
    currencies that come after. -/
structure SnapshotTick (ε : Type) where
  currency : Currency
  reply    : Option (Except ε Int)
  rest     : List Currency

/-- What a snapshot tick waits for. -/
inductive SnapshotPiece (ε : Type) where
  /-- The RPC has read the price of the currency, or failed. -/
  | replied (currency : Currency) (reply : Except ε Int)
  /-- The reply has come in, and the clock shows `ts`. -/
  | received (ts : Int)

/-- The `for` loop from its next currency. -/
def snapshotFrom : List Currency → Option (SnapshotTick ε)
  | []        => none
  | c :: rest => some { currency := c, reply := none, rest := rest }

/-- `snapshotTick`, under the `try` of `startRealtime`: a read that throws ends the tick. -/
def snapshotTick (currencies : List Currency) : TickHandler SnapshotStore (SnapshotTick ε) (SnapshotPiece ε) where
  start _ := snapshotFrom currencies
  resume
    | store, t, .replied currency reply =>
        (store, some (if currency = t.currency ∧ t.reply = none then { t with reply := some reply } else t))
    | store, t, .received ts =>
        match t.reply with
        | none             => (store, some t)
        | some (.error _)  => (store, none)
        | some (.ok price) => (store.append { currency := t.currency, price := price, ts := ts }, snapshotFrom t.rest)

/-! ## The polls -/

/-- A poll that waits for `source.getEvents(cursor)`. -/
structure PollTick where
  page     : Nat
  ingested : Nat
  cursor   : Option String

/-- The end of a poll that met no error. -/
def Poller.handOn (rt : Runtime) (p : Poller ε) (ingested : Nat) : Poller ε :=
  if ingested = 0 then p else { p with latest := some (decodeEvents rt p.store.raw) }

/-- `poll`, page by page. -/
def pollTick (rt : Runtime) (maxPages : Option Nat) : TickHandler (Poller ε) PollTick (Except ε EventPage) where
  start p :=
    if 0 < maxPages.getD MAX_PAGES_PER_POLL then some { page := 0, ingested := 0, cursor := p.store.cursor } else none
  resume
    | p, _, .error error => ({ p with errors := p.errors ++ [error] }, none)
    | p, t, .ok result   =>
        let p := { p with store := p.store.ingest result }
        let ingested := t.ingested + result.events.length
        if (result.events.length = 0 ∨ result.cursor = none ∨ result.cursor = t.cursor)
            ∨ maxPages.getD MAX_PAGES_PER_POLL ≤ t.page + 1 then
          (p.handOn rt ingested, none)
        else (p, some { page := t.page + 1, ingested := ingested, cursor := p.store.cursor })

/-! ## The process (`realtime.ts`) -/

def RETENTION_MARGIN_LEDGERS : Nat := 120000

/-- `resolveStartLedger`: `VAULT_START_LEDGER` as `Number.parseInt` reads it, or the latest ledger less the margin. -/
def resolveStartLedger (configured : Option Int) (latest : Nat) : Nat :=
  match configured with
  | some parsed => if 0 < parsed then parsed.toNat else max 1 (latest - RETENTION_MARGIN_LEDGERS)
  | none        => max 1 (latest - RETENTION_MARGIN_LEDGERS)

/-- The chain, the ledger's record of all the vault has published, the ledger the polls start from, the wall clock
    and the two loops. -/
structure Realtime (ε : Type) where
  world       : World
  history     : List RawEvent
  startLedger : Nat
  now         : Int
  polls       : Loop (Poller ε) PollTick
  snapshots   : Loop SnapshotStore (SnapshotTick ε)

/-- What happens next. -/
inductive Happening (ε : Type) where
  /-- Somebody acts on the chain. -/
  | chain (a : Action)
  /-- The wall clock moves on. -/
  | clock (ts : Int)
  | poll (m : Move (Except ε EventPage))
  | snapshot (m : Move (SnapshotPiece ε))

/-- A page of the events right behind a cursor, with a cursor right behind them. -/
structure EventPage.Answers (position : String → Nat) (log : List RawEvent) (cursor : Option String)
    (page : EventPage) : Prop where
  slice : ∃ len, page.events = (log.drop ((cursor.map position).getD 0)).take len
  next  : ∀ c, page.cursor = some c → position c = (cursor.map position).getD 0 + page.events.length

/-- A decoded action as the feed takes it; the reader emits no approval. -/
def UserActionEvent.action : UserActionEvent → Activity.UserAction
  | .deposit depositor c amount seq ts      => .deposit depositor c amount seq ts
  | .withdraw depositor c amount seq ts     => .withdraw depositor c amount seq ts
  | .signMandate depositor seq ts           => .signMandate depositor seq ts
  | .autoCompound depositor enabled seq ts  => .autoCompound depositor enabled seq ts

/-- The feed's sources in the live process: `server.ts` starts with an empty log, and nothing is appended to it. -/
def DecodedEvents.feed (d : DecodedEvents) : Activity.ActivityFeedDeps :=
  { log := .empty, userEvents := d.userEvents.map UserActionEvent.action, agentEvents := some d.agentEvents }

namespace Realtime

/-- The process before its first poll. -/
def boot (w : World) (history : List RawEvent) (configured : Option Int) (latest : Nat) (now : Int) : Realtime ε :=
  { world := w, history := history, startLedger := resolveStartLedger configured latest, now := now,
    polls := .idle .fresh, snapshots := .idle .empty }

/-- What the polls can read: the events from the start ledger on. -/
def log (s : Realtime ε) : List RawEvent := s.history.filter fun event => decide (s.startLedger ≤ event.ledger)

/-- No event of the vault is older than the start ledger. -/
def Complete (s : Realtime ε) : Prop := ∀ event ∈ s.history, s.startLedger ≤ event.ledger

instance (s : Realtime ε) : Decidable s.Complete := inferInstanceAs (Decidable (∀ event ∈ s.history, _))

/-- The RPC answers a poll from the ledger. -/
def PageHonest (position : String → Nat) (s : Realtime ε) : Move (Except ε EventPage) → Prop
  | .answer (.ok page) => ∀ t ∈ s.polls.ticks, page.Answers position s.log t.cursor
  | _                  => True

/-- It reads a price off the chain, and a sample is stamped with the time it is received. -/
def PriceHonest (s : Realtime ε) : Move (SnapshotPiece ε) → Prop
  | .answer (.replied currency (.ok price)) => Vault.sharePrice s.world currency = .ok price
  | .answer (.received ts)                  => ts = s.now
  | _                                       => True

/-- The ledger's record of a vault: what it has published, under `id`s of its own. -/
structure Recorded (w : World) (history : List RawEvent) : Prop where
  carries : List.Forall₂ RawEvent.Carries history w.vault.events
  ids     : (history.map RawEvent.id).Nodup
  ledgers : history.Pairwise fun e e' => e.ledger ≤ e'.ledger

inductive Step (rt : Runtime) (s : Realtime ε) : Happening ε → Realtime ε → Prop where
  | chain {a : Action} {w' : World} {history' : List RawEvent} (hs : SoroSense.Step s.world a w')
      (hhistory : s.history <+: history') :
      Step rt s (.chain a) { s with world := w', history := history' }
  | clock {ts : Int} (hle : s.now ≤ ts) : Step rt s (.clock ts) { s with now := ts }
  | poll {m : Move (Except ε EventPage)} {polls : Loop (Poller ε) PollTick}
      (hm : Loop.Step (pollTick rt none) s.polls m polls) : Step rt s (.poll m) { s with polls := polls }
  | snapshot {m : Move (SnapshotPiece ε)} {snapshots : Loop SnapshotStore (SnapshotTick ε)}
      (hm : Loop.Step (snapshotTick ALL_CURRENCIES) s.snapshots m snapshots) :
      Step rt s (.snapshot m) { s with snapshots := snapshots }

/-- Each pool is named by calls of one currency only, and a price is answered from the chain. -/
def Priced (home : SoroSense.Address → Currency) (s : Realtime ε) : Happening ε → Realtime ε → Prop
  | .chain a, s'   => HomeStep home s.world a s'.world
  | .snapshot m, _ => s.PriceHonest m
  | _, _           => True

/-- A step on a chain whose prices are answered from it. -/
def PricedStep (home : SoroSense.Address → Currency) (rt : Runtime) (s : Realtime ε) (x : Happening ε)
    (s' : Realtime ε) : Prop :=
  Step rt s x s' ∧ s.Priced home x s'

/-- Beyond that, the ledger records what the vault publishes, and a poll is answered from the ledger. -/
def Honest (home : SoroSense.Address → Currency) (position : String → Nat) (s : Realtime ε) (x : Happening ε)
    (s' : Realtime ε) : Prop :=
  s.Priced home x s' ∧
    match x with
    | .chain _ => Recorded s'.world s'.history
    | .poll m  => s.PageHonest position m
    | _        => True

/-- A step with an honest RPC. -/
def HonestStep (home : SoroSense.Address → Currency) (rt : Runtime) (position : String → Nat) (s : Realtime ε)
    (x : Happening ε) (s' : Realtime ε) : Prop :=
  Step rt s x s' ∧ s.Honest home position x s'

theorem HonestStep.priced {home : SoroSense.Address → Currency} {rt : Runtime} {position : String → Nat}
    {s s' : Realtime ε} {x : Happening ε} (h : HonestStep home rt position s x s') : PricedStep home rt s x s' :=
  ⟨h.1, h.2.1⟩

/-- What `onUpdate` last put into `deps`: the three streams, empty at first. -/
def served (rt : Runtime) (s : Realtime ε) : DecodedEvents := s.polls.own.latest.getD (decodeEvents rt [])

/-- What `/earnings` is given; the vault's read and the FX are its own. -/
def earningsDeps (rt : Runtime) (s : Realtime ε) (assetValueOf : Address → Currency → Int)
    (fx : Currency → Result ℚ) : EarningsDeps :=
  { assetValueOf := assetValueOf, events := (s.served rt).vaultEvents, snapshots := s.snapshots.own.series,
    fx := fx, currencies := none }

/-- What `/activity` is given. -/
def activityDeps (rt : Runtime) (s : Realtime ε) : Activity.ActivityFeedDeps := (s.served rt).feed

end Realtime

end SoroSense.Backend
