import SoroSense.Backend.EventReader
import SoroSense.JsText
import Mathlib.Data.List.Lex
import Mathlib.Data.Prod.Lex

/-!
# `Backend.Activity` — the activity feed

`backend/src/api/{activity,user-activity,agent-activity,activity-feed}.ts`. `getActivity` merges three
sources: the in-memory log of the agent, the user's actions and the keeper's actions read off the chain. Each
is filtered by the query, and the agent's rows by when the depositor entered their currency; the merged rows
are sorted by `compareRows` and cut.

The log is asked for `list(currency)`, which cuts at its own default before any other filter is applied.
-/

namespace SoroSense.Backend.Activity

open SoroSense.Text

/-! ## Rows -/

inductive Actor where
  | you
  | agent
deriving DecidableEq

inductive ActivityKind where
  | allocated
  | compounded
  | rebalanced
  | froze
  | proposedExit
deriving DecidableEq

inductive UserActionKind where
  | deposit
  | withdraw
  | signMandate
  | approveExit
  | autoCompound
deriving DecidableEq

/-- `ActivityKind | UserActionKind`. -/
inductive RowKind where
  | agent (kind : ActivityKind)
  | user (kind : UserActionKind)
deriving DecidableEq

def Actor.text : Actor → String
  | .you   => "you"
  | .agent => "agent"

def RowKind.text : RowKind → String
  | .agent .allocated    => "allocated"
  | .agent .compounded   => "compounded"
  | .agent .rebalanced   => "rebalanced"
  | .agent .froze        => "froze"
  | .agent .proposedExit => "proposed-exit"
  | .user .deposit       => "deposit"
  | .user .withdraw      => "withdraw"
  | .user .signMandate   => "sign-mandate"
  | .user .approveExit   => "approve-exit"
  | .user .autoCompound  => "auto-compound"

/-- A merged feed row. -/
structure FeedEntry where
  seq       : Int
  actor     : Actor
  currency  : Option Currency
  kind      : RowKind
  detail    : String
  ts        : Option Int
  depositor : Option Address
deriving DecidableEq

/-! ## The log (`activity.ts`) -/

structure ActivityEntry where
  id       : Int
  currency : Currency
  kind     : ActivityKind
  detail   : String
  actor    : Actor
  ts       : Option Int
deriving DecidableEq

/-- The log: its entries carry ascending ids, none above `seq`. -/
structure ActivityLog where
  entries : List ActivityEntry
  seq     : Int
  ordered : entries.Pairwise fun a b => a.id < b.id
  bounded : ∀ e ∈ entries, e.id ≤ seq

namespace ActivityLog

def empty : ActivityLog := ⟨[], 0, .nil, by simp⟩

def append (log : ActivityLog) (currency : Currency) (kind : ActivityKind) (detail : String)
    (actor : Option Actor) (ts : Option Int) : ActivityLog where
  entries := log.entries ++ [⟨log.seq + 1, currency, kind, detail, actor.getD .agent, ts⟩]
  seq     := log.seq + 1
  ordered := by
    apply List.pairwise_append.mpr
    refine ⟨log.ordered, List.pairwise_singleton _ _, ?_⟩
    intro e he new hnew
    rw [List.mem_singleton.mp hnew]
    exact Int.lt_add_one_of_le (log.bounded e he)
  bounded := by
    intro e he
    rcases List.mem_append.mp he with he | he
    · exact le_trans (log.bounded e he) (by omega)
    · rw [List.mem_singleton.mp he]

/-- The entries of a bucket, or all. -/
def filtered (log : ActivityLog) (currency : Option Currency) : List ActivityEntry :=
  match currency with
  | some c => log.entries.filter fun e => e.currency = c
  | none   => log.entries

/-- Most recent first. -/
def list (log : ActivityLog) (currency : Option Currency) (limit : Option ℕ) : List ActivityEntry :=
  (log.filtered currency).reverse.take (limit.getD 50)

end ActivityLog

/-! ## The user's rows (`user-activity.ts`) -/

/-- One decoded user action, of any kind. -/
inductive UserAction where
  | deposit (depositor : Address) (currency : Currency) (amount seq : Int) (ts : Option Int)
  | withdraw (depositor : Address) (currency : Currency) (amount seq : Int) (ts : Option Int)
  | signMandate (depositor : Address) (seq : Int) (ts : Option Int)
  | approveExit (depositor : Address) (currency : Currency) (seq : Int) (ts : Option Int)
  | autoCompound (depositor : Address) (enabled : Bool) (seq : Int) (ts : Option Int)
deriving DecidableEq

def UserAction.seq : UserAction → Int
  | .deposit _ _ _ seq _    => seq
  | .withdraw _ _ _ seq _   => seq
  | .signMandate _ seq _    => seq
  | .approveExit _ _ seq _  => seq
  | .autoCompound _ _ seq _ => seq

/-- `detailFor`. -/
def UserAction.detail : UserAction → String
  | .deposit _ c _ _ _         => "Deposited to " ++ c.code ++ " bucket"
  | .withdraw _ c _ _ _        => "Withdrew from " ++ c.code ++ " bucket"
  | .signMandate _ _ _         => "Signed auto-optimize mandate"
  | .approveExit _ c _ _       => "Approved a safe exit for " ++ c.code
  | .autoCompound _ enabled _ _ => "Turned auto-reinvest " ++ (if enabled then "on" else "off")

/-- The row of one action. -/
def UserAction.row (ev : UserAction) : FeedEntry :=
  let row (depositor : Address) (currency : Option Currency) (kind : UserActionKind) (ts : Option Int) : FeedEntry :=
    ⟨ev.seq, .you, currency, .user kind, ev.detail, ts, some depositor⟩
  match ev with
  | .deposit depositor c _ _ ts     => row depositor (some c) .deposit ts
  | .withdraw depositor c _ _ ts    => row depositor (some c) .withdraw ts
  | .signMandate depositor _ ts     => row depositor none .signMandate ts
  | .approveExit depositor c _ ts   => row depositor (some c) .approveExit ts
  | .autoCompound depositor _ _ ts  => row depositor none .autoCompound ts

def deriveUserActivity (events : List UserAction) : List FeedEntry :=
  (Timeline.sortOn UserAction.seq events).map UserAction.row

/-! ## The keeper's rows (`agent-activity.ts`) -/

/-- The `seq` of an action. -/
def agentSeq : AgentActionEvent → Int
  | .allocate _ _ seq _   => seq
  | .deallocate _ _ seq _ => seq
  | .freeze seq _         => seq
  | .unfreeze seq _       => seq
  | .proposeExit _ seq _  => seq

/-- The row of one action, by `mapAction`. -/
def agentRow : AgentActionEvent → FeedEntry
  | .allocate c _ seq ts   =>
      ⟨seq, .agent, some c, .agent .allocated, "Allocated " ++ c.code ++ " into the yield pool", ts, none⟩
  | .deallocate c _ seq ts => ⟨seq, .agent, some c, .agent .rebalanced, "Rebalanced " ++ c.code, ts, none⟩
  | .freeze seq ts         => ⟨seq, .agent, none, .agent .froze, "Froze a pool to protect deposits", ts, none⟩
  | .unfreeze seq ts       => ⟨seq, .agent, none, .agent .froze, "Lifted a pool freeze", ts, none⟩
  | .proposeExit c seq ts  =>
      ⟨seq, .agent, some c, .agent .proposedExit, "Proposed a safe exit for " ++ c.code, ts, none⟩

def deriveAgentActivity (events : List AgentActionEvent) : List FeedEntry :=
  (Timeline.sortOn agentSeq events).map agentRow

/-! ## The feed (`activity-feed.ts`) -/

structure ActivityFeedDeps where
  log         : ActivityLog
  userEvents  : List UserAction
  agentEvents : Option (List AgentActionEvent)

structure ActivityQuery where
  depositor : Option Address
  actor     : Option Actor
  currency  : Option Currency
  limit     : Option ℕ

/-- Most recent first, then by actor, kind and detail. -/
def compareRows (a b : FeedEntry) : Int :=
  if a.seq ≠ b.seq then b.seq - a.seq
  else if a.actor ≠ b.actor then (if units a.actor.text < units b.actor.text then -1 else 1)
  else if a.kind ≠ b.kind then (if units a.kind.text < units b.kind.text then -1 else 1)
  else if units a.detail < units b.detail then -1
  else if units b.detail < units a.detail then 1
  else 0

/-- The smaller of two sequence numbers, where none stands for infinity. -/
def minSeq (least : Option Int) (seq : Int) : Option Int :=
  match least with
  | some m => some (min m seq)
  | none   => some seq

section
variable (query : ActivityQuery) (deps : ActivityFeedDeps)

def userRows : List FeedEntry :=
  ((deriveUserActivity deps.userEvents).filter fun r =>
      query.depositor = none || r.depositor = query.depositor).filter fun r =>
    query.currency = none || r.currency = query.currency

/-- `firstUserSeq`, none for infinity. -/
def firstUserSeq : Option Int := (userRows query deps).foldl (fun least r => minSeq least r.seq) none

/-- `firstCurrencySeq`. -/
def firstCurrencySeq : Currency → Option Int :=
  (userRows query deps).foldl (fun first r =>
    match r.currency with
    | none   => first
    | some c => Function.update first c (minSeq (first c) r.seq)) fun _ => none

def matchesDepositorScope (r : FeedEntry) : Bool :=
  if query.depositor = none then true
  else
    let userCurrencies := (userRows query deps).filterMap FeedEntry.currency
    match r.currency with
    | none   => 0 < userCurrencies.length
    | some c => c ∈ userCurrencies

def happenedAfterDepositorEnteredScope (r : FeedEntry) : Bool :=
  if query.depositor = none then true
  else
    let first := match r.currency with
      | none   => firstUserSeq query deps
      | some c => firstCurrencySeq query deps c
    match first with
    | some seq => seq ≤ r.seq
    | none     => false

/-- The row of an entry of the log. -/
def ActivityEntry.row (e : ActivityEntry) : FeedEntry :=
  ⟨e.id, e.actor, some e.currency, .agent e.kind, e.detail, e.ts, none⟩

/-- The two scope filters, on rows of the agent. -/
def inScope (rows : List FeedEntry) : List FeedEntry :=
  (rows.filter (matchesDepositorScope query deps)).filter (happenedAfterDepositorEnteredScope query deps)

def agentRows : List FeedEntry := inScope query deps ((deps.log.list query.currency none).map ActivityEntry.row)

def chainAgentRows : List FeedEntry :=
  inScope query deps ((deriveAgentActivity (deps.agentEvents.getD [])).filter fun r =>
    query.currency = none || r.currency = none || r.currency = query.currency)

/-- The rows of the actor asked for. -/
def byActor (rows : List FeedEntry) : List FeedEntry :=
  rows.filter fun r => query.actor = none || query.actor = some r.actor

def merged : List FeedEntry :=
  byActor query (agentRows query deps ++ chainAgentRows query deps ++ userRows query deps)

def getActivity : List FeedEntry :=
  ((merged query deps).insertionSort fun a b => compareRows a b ≤ 0).take (query.limit.getD 50)

end

/-! ## The order of the rows -/

theorem Actor.units_injective {a b : Actor} (h : units a.text = units b.text) : a = b := by
  cases a <;> cases b <;> first | rfl | exact absurd h (by decide +kernel)

theorem RowKind.units_injective {a b : RowKind} (h : units a.text = units b.text) : a = b := by
  rcases a with a | a <;> rcases b with b | b <;> cases a <;> cases b <;>
    first | rfl | exact absurd h (by decide +kernel)

/-- What `compareRows` orders by. -/
def rowKey (r : FeedEntry) : ℤ ×ₗ List ℕ ×ₗ List ℕ ×ₗ List ℕ :=
  toLex (-r.seq, toLex (units r.actor.text, toLex (units r.kind.text, units r.detail)))

/-- **`compareRows` is the order of a key**, so sorting by it is well defined. -/
theorem compareRows_nonpos_iff {a b : FeedEntry} : compareRows a b ≤ 0 ↔ rowKey a ≤ rowKey b := by
  unfold compareRows rowKey
  rw [Prod.Lex.toLex_le_toLex, Prod.Lex.toLex_le_toLex, Prod.Lex.toLex_le_toLex]
  dsimp only
  by_cases hseq : a.seq = b.seq
  · rw [if_neg (not_not.mpr hseq), hseq]
    simp only [lt_irrefl, true_and, false_or]
    by_cases hactor : a.actor = b.actor
    · rw [if_neg (not_not.mpr hactor), hactor]
      simp only [lt_irrefl, true_and, false_or]
      by_cases hkind : a.kind = b.kind
      · rw [if_neg (not_not.mpr hkind), hkind]
        simp only [lt_irrefl, true_and, false_or]
        rcases lt_trichotomy (units a.detail) (units b.detail) with hlt | heq | hlt
        · simp [hlt, le_of_lt hlt]
        · simp [heq]
        · simp [hlt, not_lt_of_gt hlt, not_le.mpr hlt]
      · have hne : units a.kind.text ≠ units b.kind.text := fun h => hkind (RowKind.units_injective h)
        rw [if_pos hkind]
        split
        · next hlt => simp [hlt]
        · next hge => simp [hge, hne]
    · have hne : units a.actor.text ≠ units b.actor.text := fun h => hactor (Actor.units_injective h)
      rw [if_pos hactor]
      split
      · next hlt => simp [hlt]
      · next hge => simp [hge, hne]
  · rw [if_pos hseq]
    constructor
    · intro h
      left
      omega
    · rintro (h | ⟨h, _⟩)
      · omega
      · omega

/-- The rows are sorted by the key. -/
theorem sort_eq_sortOn (rows : List FeedEntry) :
    rows.insertionSort (fun a b => compareRows a b ≤ 0) = Timeline.sortOn rowKey rows := by
  have horder : (fun a b => compareRows a b ≤ 0) = fun a b => rowKey a ≤ rowKey b := by
    funext a b
    exact propext compareRows_nonpos_iff
  unfold Timeline.sortOn
  congr!

end SoroSense.Backend.Activity
