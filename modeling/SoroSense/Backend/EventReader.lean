import SoroSense.Backend.CostBasis
import Mathlib.Data.List.Forall2
import Mathlib.Data.List.Induction
import Mathlib.Data.Rat.Defs

/-!
# `Backend.EventReader` — the vault's events on the wire and back

`backend/src/chain/event-reader.ts` over the encoding of `contracts/vault/src/events.rs`. A raw event is a
topic vector and a data value, both `ScVal`s; `decodeEvents` turns a ledger-ordered list of them into the
three streams the backend serves, numbering them by position.

The Stellar SDK is outside the repository. `Runtime` holds what the reader calls of it and of the language
(`scValToNative`, `Date.parse`), and `Runtime.Documented` what the reader relies on: `scValToNative` maps a
symbol to its string, an address to its strkey, an `i128` to a `bigint`, a vector to an array and a
symbol-keyed map to an object.
-/

namespace SoroSense

/-! ## Values -/

/-- The XDR value type, as far as contract events use it. -/
inductive ScVal where
  | void
  | bool (b : Bool)
  | u32 (n : Nat)
  | u64 (n : Nat)
  | i128 (n : Int)
  | string (s : String)
  | symbol (s : String)
  | address (a : Address)
  | vec (xs : List ScVal)
  | map (entries : List (ScVal × ScVal))

/-- What `scValToNative` returns. -/
inductive Native where
  | null
  | bool (b : Bool)
  | number (q : ℚ)
  | bigint (n : Int)
  | string (s : String)
  | array (xs : List Native)
  | object (fields : List (String × Native))

/-- Property access on a record; a later entry of the same name wins. -/
def Native.get (fields : List (String × Native)) (name : String) : Option Native :=
  fields.reverse.lookup name

/-- What the reader calls outside the repository. `dateParse` is `none` for `NaN`. -/
structure Runtime where
  scValToNative : ScVal → Native
  strkey        : Address → String
  dateParse     : String → Option Int

/-- The documented behaviour of `scValToNative` on the values contract events are made of. -/
structure Runtime.Documented (rt : Runtime) : Prop where
  bool    : ∀ b, rt.scValToNative (.bool b) = .bool b
  i128    : ∀ n, rt.scValToNative (.i128 n) = .bigint n
  symbol  : ∀ s, rt.scValToNative (.symbol s) = .string s
  address : ∀ a, rt.scValToNative (.address a) = .string (rt.strkey a)
  vec     : ∀ xs, rt.scValToNative (.vec xs) = .array (xs.map rt.scValToNative)
  map     : ∀ fields : List (String × ScVal),
    rt.scValToNative (.map (fields.map fun f => (.symbol f.1, f.2)))
      = .object (fields.map fun f => (f.1, rt.scValToNative f.2))
  /-- Distinct addresses have distinct strkeys. -/
  strkey_injective : Function.Injective rt.strkey

/-! ## The encoding (`events.rs`) -/

/-- A unit variant of the contract's `Currency`. -/
def Currency.variant : Currency → String
  | .usd => "Usd"
  | .eur => "Eur"
  | .mxn => "Mxn"

/-- An enum unit variant is a one-element vector of its symbol. -/
def Currency.scVal (c : Currency) : ScVal := .vec [.symbol c.variant]

namespace Vault.Event

/-- The struct's name in snake case. -/
def name : Event → String
  | .deposit ..         => "deposit"
  | .withdraw ..        => "withdraw"
  | .autoCompoundSet .. => "auto_compound_set"
  | .consentSet ..      => "consent_set"
  | .allocated ..       => "allocated"
  | .deallocated ..     => "deallocated"
  | .frozen ..          => "frozen"
  | .unfrozen ..        => "unfrozen"
  | .exitProposed ..    => "exit_proposed"
  | .exitApproved ..    => "exit_approved"

/-- The `#[topic]` fields. Every event of the vault has one. -/
def indexed : Event → ScVal
  | .deposit u _ _ _     => .address u
  | .withdraw u _ _ _    => .address u
  | .autoCompoundSet u _ => .address u
  | .consentSet u        => .address u
  | .allocated c _ _     => c.scVal
  | .deallocated c _ _   => c.scVal
  | .frozen p            => .address p
  | .unfrozen p          => .address p
  | .exitProposed c _    => c.scVal
  | .exitApproved c _    => c.scVal

/-- The topics of a `#[contractevent]`: the struct's name, then the `#[topic]` fields. -/
def topics (e : Event) : List ScVal := [.symbol e.name, e.indexed]

/-- The deposits and withdrawals. -/
def IsMove : Event → Prop
  | .deposit ..  => True
  | .withdraw .. => True
  | _            => False

/-- The remaining fields, keys sorted. -/
def fields : Event → List (String × ScVal)
  | .deposit _ c amount shares  => [("amount", .i128 amount), ("currency", c.scVal), ("shares", .i128 shares)]
  | .withdraw _ c amount shares => [("amount", .i128 amount), ("currency", c.scVal), ("shares", .i128 shares)]
  | .autoCompoundSet _ enabled  => [("enabled", .bool enabled)]
  | .consentSet _               => []
  | .allocated _ p amount       => [("amount", .i128 amount), ("pool", .address p)]
  | .deallocated _ p amount     => [("amount", .i128 amount), ("pool", .address p)]
  | .frozen _                   => []
  | .unfrozen _                 => []
  | .exitProposed _ id          => [("id", .u64 id)]
  | .exitApproved _ id          => [("id", .u64 id)]

/-- The data of a `#[contractevent]`: a map of the remaining fields. -/
def data (e : Event) : ScVal := .map (e.fields.map fun f => (.symbol f.1, f.2))

end Vault.Event

namespace Backend

/-! ## The reader's types -/

/-- One raw contract event. `id` is the RPC's paging token. -/
structure RawEvent where
  id             : String
  ledger         : Nat
  ledgerClosedAt : Option String
  topic          : List ScVal
  value          : ScVal

/-- `UserActionEvent` (`api/user-activity.ts`), the kinds the reader emits. -/
inductive UserActionEvent where
  | deposit (depositor : Address) (currency : Currency) (amount : Int) (seq : Int) (ts : Option Int)
  | withdraw (depositor : Address) (currency : Currency) (amount : Int) (seq : Int) (ts : Option Int)
  | signMandate (depositor : Address) (seq : Int) (ts : Option Int)
  | autoCompound (depositor : Address) (enabled : Bool) (seq : Int) (ts : Option Int)
deriving DecidableEq, Repr

/-- The row of a deposit or a withdrawal. -/
def UserActionEvent.ofMove (kind : VaultEventKind) (depositor : Address) (currency : Currency) (amount seq : Int)
    (ts : Option Int) : UserActionEvent :=
  match kind with
  | .deposit  => .deposit depositor currency amount seq ts
  | .withdraw => .withdraw depositor currency amount seq ts

/-- `AgentActionEvent` (`api/agent-activity.ts`). -/
inductive AgentActionEvent where
  | allocate (currency : Currency) (amount : Int) (seq : Int) (ts : Option Int)
  | deallocate (currency : Currency) (amount : Int) (seq : Int) (ts : Option Int)
  | freeze (seq : Int) (ts : Option Int)
  | unfreeze (seq : Int) (ts : Option Int)
  | proposeExit (currency : Currency) (seq : Int) (ts : Option Int)
deriving DecidableEq, Repr

/-- The three decoded streams over one ledger-ordered event set. -/
structure DecodedEvents where
  vaultEvents : List VaultEvent
  userEvents  : List UserActionEvent
  agentEvents : List AgentActionEvent
deriving DecidableEq, Repr

/-- The row(s) one raw event maps to. -/
structure Decoded where
  vault : Option VaultEvent := none
  user  : Option UserActionEvent := none
  agent : Option AgentActionEvent := none

/-! ## Decoding -/

section
variable (rt : Runtime)

/-- `topicNative`. -/
def topicNative (topic : List ScVal) (index : Nat) : Option Native := topic[index]?.map rt.scValToNative

/-- The string at a topic position: `topicSymbol` at 0, `topicAddress` elsewhere. -/
def topicString (topic : List ScVal) (index : Nat) : Option String :=
  match topicNative rt topic index with
  | some (.string s) => some s
  | _                => none

def topicSymbol (topic : List ScVal) : Option String := topicString rt topic 0

def topicAddress (topic : List ScVal) (index : Nat) : Option Address := topicString rt topic index

/-- The event data as a record; a non-map value yields an empty one. -/
def dataMap (value : ScVal) : List (String × Native) :=
  match rt.scValToNative value with
  | .object fields => fields
  | _              => []

/-- `toCurrency`. -/
def toCurrency (raw : Option Native) : Option Currency :=
  let variant := match raw with
    | some (.array xs) => xs.head?
    | _                => raw
  match variant with
  | some (.string s) =>
      if s = "Usd" then some .usd
      else if s = "Eur" then some .eur
      else if s = "Mxn" then some .mxn
      else none
  | _ => none

/-- `toBigint`: a `bigint`, or an integral `number`. -/
def toBigint (raw : Option Native) : Option Int :=
  match raw with
  | some (.bigint n) => some n
  | some (.number q) => if q.den = 1 then some q.num else none
  | _                => none

/-- `parseTs`. -/
def parseTs (closedAt : Option String) : Option Int := closedAt.bind rt.dateParse

/-- `Deposit` and `Withdraw { depositor (topic), currency, amount, shares }`. -/
def decodeMove (kind : VaultEventKind) (ev : RawEvent) (seq : Int) : Decoded :=
  let data := dataMap rt ev.value
  match topicAddress rt ev.topic 1, toCurrency (Native.get data "currency"),
      toBigint (Native.get data "amount"), toBigint (Native.get data "shares") with
  | some depositor, some currency, some amount, some shares =>
      let ts := parseTs rt ev.ledgerClosedAt
      { vault := some ⟨kind, depositor, currency, amount, shares, seq, ts⟩
        user  := some (UserActionEvent.ofMove kind depositor currency amount seq ts) }
  | _, _, _, _ => {}

/-- `ConsentSet { depositor (topic) }`. -/
def decodeConsent (ev : RawEvent) (seq : Int) : Decoded :=
  match topicAddress rt ev.topic 1 with
  | some depositor => { user := some (.signMandate depositor seq (parseTs rt ev.ledgerClosedAt)) }
  | none           => {}

/-- `AutoCompoundSet { depositor (topic), enabled }`. -/
def decodeAutoCompound (ev : RawEvent) (seq : Int) : Decoded :=
  match topicAddress rt ev.topic 1, Native.get (dataMap rt ev.value) "enabled" with
  | some depositor, some (.bool enabled) =>
      { user := some (.autoCompound depositor enabled seq (parseTs rt ev.ledgerClosedAt)) }
  | _, _ => {}

/-- `Allocated` and `Deallocated { currency (topic), pool, amount }`. -/
def decodePlacement (row : Currency → Int → Int → Option Int → AgentActionEvent) (ev : RawEvent) (seq : Int) :
    Decoded :=
  match toCurrency (topicNative rt ev.topic 1), toBigint (Native.get (dataMap rt ev.value) "amount") with
  | some currency, some amount => { agent := some (row currency amount seq (parseTs rt ev.ledgerClosedAt)) }
  | _, _                       => {}

/-- `ExitProposed { currency (topic), id }`. -/
def decodeExitProposed (ev : RawEvent) (seq : Int) : Decoded :=
  match toCurrency (topicNative rt ev.topic 1) with
  | some currency => { agent := some (.proposeExit currency seq (parseTs rt ev.ledgerClosedAt)) }
  | none          => {}

/-- `decodeEvent`: by the name at topic 0; an unknown name, and `exit_approved`, map to no row. -/
def decodeEvent (ev : RawEvent) (seq : Int) : Decoded :=
  match topicSymbol rt ev.topic with
  | none      => {}
  | some name =>
      if name = "deposit" then decodeMove rt .deposit ev seq
      else if name = "withdraw" then decodeMove rt .withdraw ev seq
      else if name = "consent_set" then decodeConsent rt ev seq
      else if name = "auto_compound_set" then decodeAutoCompound rt ev seq
      else if name = "exit_approved" then {}
      else if name = "allocated" then decodePlacement rt .allocate ev seq
      else if name = "deallocated" then decodePlacement rt .deallocate ev seq
      else if name = "frozen" then { agent := some (.freeze seq (parseTs rt ev.ledgerClosedAt)) }
      else if name = "unfrozen" then { agent := some (.unfreeze seq (parseTs rt ev.ledgerClosedAt)) }
      else if name = "exit_proposed" then decodeExitProposed rt ev seq
      else {}

/-- The rows of a ledger-ordered event set; `seq` is the 0-based position. -/
def decodeRows (ordered : List RawEvent) : List Decoded :=
  ordered.mapIdx fun index ev => decodeEvent rt ev index

def decodeEvents (ordered : List RawEvent) : DecodedEvents :=
  { vaultEvents := (decodeRows rt ordered).filterMap Decoded.vault
    userEvents  := (decodeRows rt ordered).filterMap Decoded.user
    agentEvents := (decodeRows rt ordered).filterMap Decoded.agent }

end

/-! ## What decoding makes of an encoded event -/

/-- The raw event carries this contract event. -/
def RawEvent.Carries (raw : RawEvent) (e : Vault.Event) : Prop := raw.topic = e.topics ∧ raw.value = e.data

variable {rt : Runtime} {raw : RawEvent} {e : Vault.Event}

/-- The currency of an encoded event reads back. -/
theorem toCurrency_scVal (h : rt.Documented) (c : Currency) :
    toCurrency (some (rt.scValToNative c.scVal)) = some c := by
  unfold Currency.scVal
  rw [h.vec, List.map_singleton, h.symbol]
  cases c <;> simp [toCurrency, Currency.variant]

theorem dataMap_of_carries (h : rt.Documented) (hr : raw.Carries e) :
    dataMap rt raw.value = e.fields.map fun f => (f.1, rt.scValToNative f.2) := by
  unfold dataMap
  rw [hr.2, Vault.Event.data, h.map]

/-- What the reader makes of a deposit or a withdrawal on the ledger. -/
def VaultEvent.ofMove (rt : Runtime) (raw : RawEvent) (kind : VaultEventKind) (u : SoroSense.Address)
    (c : Currency) (amount shares : Int) (seq : Int) : VaultEvent :=
  ⟨kind, rt.strkey u, c, amount, shares, seq, parseTs rt raw.ledgerClosedAt⟩

/-- The name a contract event is published under. -/
theorem topicSymbol_of_carries (h : rt.Documented) (hr : raw.Carries e) :
    topicSymbol rt raw.topic = some e.name := by
  unfold topicSymbol topicString topicNative
  rw [hr.1]
  cases e <;> simp [Vault.Event.topics, Vault.Event.name, h.symbol]

theorem topicAddress_of_carries (h : rt.Documented) (hr : raw.Carries e) {u : SoroSense.Address}
    (hi : e.indexed = .address u) : topicAddress rt raw.topic 1 = some (rt.strkey u) := by
  unfold topicAddress topicString topicNative
  rw [hr.1]
  simp [Vault.Event.topics, hi, h.address]

/-- **A deposit or a withdrawal reads back.** -/
theorem decodeMove_of_carries (h : rt.Documented) {kind : VaultEventKind} {u : SoroSense.Address}
    {c : Currency} {amount shares : Int} {seq : Int} (ht : topicAddress rt raw.topic 1 = some (rt.strkey u))
    (hd : dataMap rt raw.value = [("amount", .bigint amount), ("currency", rt.scValToNative c.scVal),
      ("shares", .bigint shares)]) :
    (decodeMove rt kind raw seq).vault = some (.ofMove rt raw kind u c amount shares seq) := by
  have hc := toCurrency_scVal h c
  unfold decodeMove
  rw [ht, hd]
  simp [Native.get, List.lookup_cons, hc, toBigint, VaultEvent.ofMove]

theorem vault_of_deposit (h : rt.Documented) {u : SoroSense.Address} {c : Currency} {amount shares : Int}
    (hr : raw.Carries (.deposit u c amount shares)) (seq : Int) :
    (decodeEvent rt raw seq).vault = some (.ofMove rt raw .deposit u c amount shares seq) := by
  unfold decodeEvent
  rw [topicSymbol_of_carries h hr]
  apply decodeMove_of_carries h
  · exact topicAddress_of_carries h hr rfl
  · rw [dataMap_of_carries h hr]
    simp [Vault.Event.fields, h.i128]

theorem vault_of_withdraw (h : rt.Documented) {u : SoroSense.Address} {c : Currency} {amount shares : Int}
    (hr : raw.Carries (.withdraw u c amount shares)) (seq : Int) :
    (decodeEvent rt raw seq).vault = some (.ofMove rt raw .withdraw u c amount shares seq) := by
  unfold decodeEvent
  rw [topicSymbol_of_carries h hr]
  apply decodeMove_of_carries h
  · exact topicAddress_of_carries h hr rfl
  · rw [dataMap_of_carries h hr]
    simp [Vault.Event.fields, h.i128]

theorem vault_decodeConsent (seq : Int) : (decodeConsent rt raw seq).vault = none := by
  unfold decodeConsent
  split <;> rfl

theorem vault_decodeAutoCompound (seq : Int) : (decodeAutoCompound rt raw seq).vault = none := by
  unfold decodeAutoCompound
  split <;> rfl

theorem vault_decodePlacement (row : Currency → Int → Int → Option Int → AgentActionEvent) (seq : Int) :
    (decodePlacement rt row raw seq).vault = none := by
  unfold decodePlacement
  split <;> rfl

theorem vault_decodeExitProposed (seq : Int) : (decodeExitProposed rt raw seq).vault = none := by
  unfold decodeExitProposed
  split <;> rfl

theorem vault_ite {p : Prop} [Decidable p] {x y : Decoded} (hx : x.vault = none) (hy : y.vault = none) :
    (if p then x else y).vault = none := by
  split
  · exact hx
  · exact hy

/-- Only the two moves yield a row of the earnings stream. -/
theorem vault_eq_none {name : String} (hn : topicSymbol rt raw.topic = some name) (hd : name ≠ "deposit")
    (hw : name ≠ "withdraw") (seq : Int) : (decodeEvent rt raw seq).vault = none := by
  unfold decodeEvent
  rw [hn]
  dsimp only
  rw [if_neg hd, if_neg hw]
  -- the remaining names, in the order of the source
  apply vault_ite (vault_decodeConsent seq)
  apply vault_ite (vault_decodeAutoCompound seq)
  apply vault_ite rfl
  apply vault_ite (vault_decodePlacement .allocate seq)
  apply vault_ite (vault_decodePlacement .deallocate seq)
  apply vault_ite rfl
  apply vault_ite rfl
  apply vault_ite (vault_decodeExitProposed seq)
  rfl

/-- **No other event of the vault is read as a deposit or a withdrawal.** -/
theorem vault_of_other (h : rt.Documented) (hr : raw.Carries e) (hm : ¬ e.IsMove) (seq : Int) :
    (decodeEvent rt raw seq).vault = none := by
  apply vault_eq_none (topicSymbol_of_carries h hr)
  · cases e <;> first | exact absurd trivial hm | simp [Vault.Event.name]
  · cases e <;> first | exact absurd trivial hm | simp [Vault.Event.name]

/-! ## Streams of an accumulating log -/

/-- Appending one raw event appends its rows. -/
theorem decodeRows_concat (raws : List RawEvent) :
    decodeRows rt (raws ++ [raw]) = decodeRows rt raws ++ [decodeEvent rt raw raws.length] := by
  unfold decodeRows
  rw [List.mapIdx_concat]

theorem vaultEvents_concat (raws : List RawEvent) :
    (decodeEvents rt (raws ++ [raw])).vaultEvents
      = (decodeEvents rt raws).vaultEvents ++ (decodeEvent rt raw raws.length).vault.toList := by
  show (decodeRows rt (raws ++ [raw])).filterMap Decoded.vault
    = (decodeRows rt raws).filterMap Decoded.vault ++ _
  rw [decodeRows_concat, List.filterMap_append, List.filterMap_cons]
  cases (decodeEvent rt raw raws.length).vault <;> rfl

/-- A row of the earnings stream carries the position it was read at. -/
theorem seq_of_vault {ev : VaultEvent} {seq : Int} (h : (decodeEvent rt raw seq).vault = some ev) :
    ev.seq = seq := by
  have hmove : ∀ kind, (decodeMove rt kind raw seq).vault = some ev → ev.seq = seq := by
    intro kind hk
    simp only [decodeMove] at hk
    split at hk
    · exact (congrArg VaultEvent.seq (Option.some.inj hk)).symm
    · exact absurd hk (by simp)
  cases hn : topicSymbol rt raw.topic with
  | none =>
      rw [decodeEvent, hn] at h
      exact absurd h (by simp)
  | some name =>
      by_cases hd : name = "deposit"
      · rw [decodeEvent, hn] at h
        subst hd
        exact hmove .deposit h
      · by_cases hw : name = "withdraw"
        · rw [decodeEvent, hn] at h
          subst hw
          exact hmove .withdraw h
        · rw [vault_eq_none hn hd hw] at h
          exact absurd h (by simp)

/-- The earnings stream of a log: ascending positions, all below the log's length. -/
theorem vaultEvents_sorted (raws : List RawEvent) :
    (decodeEvents rt raws).vaultEvents.Pairwise (fun e e' => e.seq ≤ e'.seq) ∧
      ∀ e ∈ (decodeEvents rt raws).vaultEvents, e.seq < raws.length := by
  induction raws using List.reverseRecOn with
  | nil => exact ⟨List.Pairwise.nil, fun e he => absurd he (by simp [decodeEvents, decodeRows])⟩
  | append_singleton raws raw ih =>
      obtain ⟨hsorted, hbound⟩ := ih
      rw [vaultEvents_concat]
      have hnew : ∀ e ∈ (decodeEvent rt raw raws.length).vault.toList, e.seq = raws.length := by
        intro e he
        exact seq_of_vault (Option.mem_toList.mp he)
      constructor
      · refine List.pairwise_append.mpr ⟨hsorted, ?_, fun e he e' he' => ?_⟩
        · cases (decodeEvent rt raw raws.length).vault <;> simp
        · rw [hnew e' he']
          exact le_of_lt (hbound e he)
      · intro e he
        rw [List.length_append, List.length_singleton, Nat.cast_succ]
        rcases List.mem_append.mp he with he | he
        · exact lt_trans (hbound e he) (lt_add_one _)
        · rw [hnew e he]
          exact lt_add_one _

/-- The stream comes in replay order. -/
theorem inSeqOrder_decoded (raws : List RawEvent) :
    inSeqOrder (decodeEvents rt raws).vaultEvents = (decodeEvents rt raws).vaultEvents :=
  Timeline.sortOn_eq_self (vaultEvents_sorted raws).1

/-! ## A runtime

The documented behaviour, computed, with the number of an address spelt in strokes. -/

end Backend

namespace ScVal

mutual

def toNative (strkey : Address → String) : ScVal → Native
  | .void        => .null
  | .bool b      => .bool b
  | .u32 n       => .number n
  | .u64 n       => .bigint n
  | .i128 n      => .bigint n
  | .string s    => .string s
  | .symbol s    => .string s
  | .address a   => .string (strkey a)
  | .vec xs      => .array (toNatives strkey xs)
  | .map entries => .object (toFields strkey entries)

def toNatives (strkey : Address → String) : List ScVal → List Native
  | []      => []
  | x :: xs => x.toNative strkey :: toNatives strkey xs

def toFields (strkey : Address → String) : List (ScVal × ScVal) → List (String × Native)
  | []                     => []
  | (.symbol s, x) :: rest => (s, x.toNative strkey) :: toFields strkey rest
  | _ :: rest              => toFields strkey rest

end

end ScVal

def Address.strkey : Address → String
  | .account id  => String.ofList ('G' :: List.replicate id '1')
  | .contract id => String.ofList ('C' :: List.replicate id '1')

/-- The runtime of the examples. -/
def Runtime.plain : Runtime :=
  { scValToNative := ScVal.toNative Address.strkey, strkey := Address.strkey, dateParse := fun _ => none }

/-- An event of the vault, as the examples' ledger carries it. -/
def Backend.RawEvent.plain (e : Vault.Event) : RawEvent :=
  { id := e.name, ledger := 0, ledgerClosedAt := none, topic := e.topics, value := e.data }

/-- A journal, as the examples' ledger carries it. -/
theorem Backend.RawEvent.plain_carries (events : List Vault.Event) :
    List.Forall₂ RawEvent.Carries (events.map RawEvent.plain) events := by
  apply List.forall₂_map_left_iff.mpr
  exact List.forall₂_same.mpr fun _ _ => ⟨rfl, rfl⟩

theorem Address.strkey_injective : Function.Injective Address.strkey := by
  intro a b h
  have hl := congrArg String.toList h
  cases a <;> cases b <;> simp only [strkey, String.toList_ofList, List.cons.injEq] at hl
  case account.account   => simpa using congrArg List.length hl.2
  case account.contract  => exact absurd hl.1 (by decide)
  case contract.account  => exact absurd hl.1 (by decide)
  case contract.contract => simpa using congrArg List.length hl.2

theorem ScVal.toNatives_eq (strkey : Address → String) (xs : List ScVal) :
    toNatives strkey xs = xs.map (toNative strkey) := by
  induction xs with
  | nil          => rfl
  | cons x xs ih => rw [toNatives, ih, List.map_cons]

theorem ScVal.toFields_eq (strkey : Address → String) (fields : List (String × ScVal)) :
    toFields strkey (fields.map fun f => (.symbol f.1, f.2)) = fields.map fun f => (f.1, f.2.toNative strkey) := by
  induction fields with
  | nil              => rfl
  | cons f fields ih => rw [List.map_cons, toFields, ih, List.map_cons]

theorem Runtime.plain_documented : Runtime.plain.Documented where
  bool _    := rfl
  i128 _    := rfl
  symbol _  := rfl
  address _ := rfl
  vec xs    := congrArg Native.array (ScVal.toNatives_eq Address.strkey xs)
  map fs    := congrArg Native.object (ScVal.toFields_eq Address.strkey fs)
  strkey_injective := Address.strkey_injective

end SoroSense
