import SoroSense.Properties.LiveProcess
import SoroSense.Properties.ActivityFeed
import Mathlib.Data.List.Perm.Basic
import Mathlib.Data.List.ReduceOption

/-!
# `Properties.FeedJournal` — the feed is the journal, read backwards

In the live process the rows of the feed come from the chain alone, over two streams: the users' actions and the
keeper's. Each event of the vault yields one row at most (`rowOf`), at the position it has in the journal, so
the rows of both streams, merged and sorted, are the journal's rows in reverse; what a query leaves out of them
is said by `shown`, without the minima that the code keeps.
-/

namespace SoroSense

open Backend Backend.Activity

/-! ## One event, one row -/

namespace Vault.Event

variable (rt : Runtime) (raw : RawEvent) (seq : Int)

/-- What the reader makes of an event for the users' stream. -/
def userAction : Event → Option UserActionEvent
  | .deposit u c amount _        => some (.deposit (rt.strkey u) c amount seq (parseTs rt raw.ledgerClosedAt))
  | .withdraw u c amount _       => some (.withdraw (rt.strkey u) c amount seq (parseTs rt raw.ledgerClosedAt))
  | .consentSet u                => some (.signMandate (rt.strkey u) seq (parseTs rt raw.ledgerClosedAt))
  | .autoCompoundSet u enabled   => some (.autoCompound (rt.strkey u) enabled seq (parseTs rt raw.ledgerClosedAt))
  | _                            => none

/-- And for the keeper's. -/
def agentAction : Event → Option AgentActionEvent
  | .allocated c _ amount   => some (.allocate c amount seq (parseTs rt raw.ledgerClosedAt))
  | .deallocated c _ amount => some (.deallocate c amount seq (parseTs rt raw.ledgerClosedAt))
  | .frozen _               => some (.freeze seq (parseTs rt raw.ledgerClosedAt))
  | .unfrozen _             => some (.unfreeze seq (parseTs rt raw.ledgerClosedAt))
  | .exitProposed c _       => some (.proposeExit c seq (parseTs rt raw.ledgerClosedAt))
  | _                       => none

/-- The row an event is shown as; an approved exit is not shown. -/
def rowOf (e : Event) : Option FeedEntry :=
  ((e.userAction rt raw seq).map fun a => a.action.row).or ((e.agentAction rt raw seq).map agentRow)

end Vault.Event

variable {rt : Runtime} {raw : RawEvent} {e : Vault.Event} {seq : Int}

theorem topicCurrency_of_carries (h : rt.Documented) (hr : raw.Carries e) {c : Currency} (hi : e.indexed = c.scVal) :
    toCurrency (topicNative rt raw.topic 1) = some c := by
  have htopic : topicNative rt raw.topic 1 = some (rt.scValToNative c.scVal) := by
    unfold topicNative
    rw [hr.1, ← hi]
    rfl
  rw [htopic, toCurrency_scVal h]

/-- **Every event of the vault is read as its rows.** -/
theorem decodeEvent_of_carries (seq : Int) (h : rt.Documented) (hr : raw.Carries e) :
    (decodeEvent rt raw seq).user = e.userAction rt raw seq ∧
      (decodeEvent rt raw seq).agent = e.agentAction rt raw seq := by
  have hname := topicSymbol_of_carries h hr
  have hdata := dataMap_of_carries h hr
  unfold decodeEvent
  rw [hname]
  cases e with
  | deposit u c amount shares =>
      have haddr := topicAddress_of_carries h hr (u := u) rfl
      have hc := toCurrency_scVal h c
      simp [Vault.Event.name, decodeMove, haddr, hdata, Vault.Event.fields, Native.get, List.lookup_cons, hc,
        h.i128, toBigint, UserActionEvent.ofMove, Vault.Event.userAction, Vault.Event.agentAction]
  | withdraw u c amount shares =>
      have haddr := topicAddress_of_carries h hr (u := u) rfl
      have hc := toCurrency_scVal h c
      simp [Vault.Event.name, decodeMove, haddr, hdata, Vault.Event.fields, Native.get, List.lookup_cons, hc,
        h.i128, toBigint, UserActionEvent.ofMove, Vault.Event.userAction, Vault.Event.agentAction]
  | autoCompoundSet u enabled =>
      have haddr := topicAddress_of_carries h hr (u := u) rfl
      simp [Vault.Event.name, decodeAutoCompound, haddr, hdata, Vault.Event.fields, Native.get, h.bool,
        Vault.Event.userAction, Vault.Event.agentAction]
  | consentSet u =>
      have haddr := topicAddress_of_carries h hr (u := u) rfl
      simp [Vault.Event.name, decodeConsent, haddr, Vault.Event.userAction, Vault.Event.agentAction]
  | allocated c p amount =>
      have hc := topicCurrency_of_carries h hr (c := c) rfl
      simp [Vault.Event.name, decodePlacement, hc, hdata, Vault.Event.fields, Native.get, List.lookup_cons,
        h.i128, toBigint, Vault.Event.userAction, Vault.Event.agentAction]
  | deallocated c p amount =>
      have hc := topicCurrency_of_carries h hr (c := c) rfl
      simp [Vault.Event.name, decodePlacement, hc, hdata, Vault.Event.fields, Native.get, List.lookup_cons,
        h.i128, toBigint, Vault.Event.userAction, Vault.Event.agentAction]
  | frozen p => simp [Vault.Event.name, Vault.Event.userAction, Vault.Event.agentAction]
  | unfrozen p => simp [Vault.Event.name, Vault.Event.userAction, Vault.Event.agentAction]
  | exitProposed c id =>
      have hc := topicCurrency_of_carries h hr (c := c) rfl
      simp [Vault.Event.name, decodeExitProposed, hc, Vault.Event.userAction, Vault.Event.agentAction]
  | exitApproved c id => simp [Vault.Event.name, Vault.Event.userAction, Vault.Event.agentAction]

end SoroSense

namespace SoroSense.Backend.Activity

open Timeline

variable {rt : Runtime} {query : ActivityQuery} {raws : List RawEvent} {events : List Vault.Event}

/-! ## The rows of a journal -/

/-- The rows of a journal, in its order, each with its position. -/
def journalRows (rt : Runtime) (raws : List RawEvent) (events : List Vault.Event) : List FeedEntry :=
  ((raws.zip events).mapIdx fun i p => p.2.rowOf rt p.1 i).reduceOption

theorem seq_of_row {e : Vault.Event} {raw : RawEvent} {i : Int} {r : FeedEntry} (h : e.rowOf rt raw i = some r) :
    r.seq = i := by
  cases e with
  | exitApproved c id => exact absurd h (by simp [Vault.Event.rowOf, Vault.Event.userAction, Vault.Event.agentAction])
  | _ => exact (congrArg FeedEntry.seq (Option.some.inj h)).symm

/-- What is numbered by position ascends strictly. -/
theorem pairwise_numbered {α : Type} {f : Nat → α → Option FeedEntry} (hf : ∀ i a r, f i a = some r → r.seq = i)
    (l : List α) : (l.mapIdx f).reduceOption.Pairwise (fun a b => a.seq < b.seq) ∧
      ∀ r ∈ (l.mapIdx f).reduceOption, r.seq < l.length := by
  induction l using List.reverseRecOn with
  | nil => exact ⟨.nil, fun r hr => absurd hr (by simp)⟩
  | append_singleton l a ih =>
      obtain ⟨hsorted, hbound⟩ := ih
      rw [List.mapIdx_concat, List.reduceOption_append, List.length_append, List.length_singleton]
      cases hfa : f l.length a with
      | none =>
          rw [List.reduceOption_singleton, Option.toList_none, List.append_nil]
          refine ⟨hsorted, fun r hr => ?_⟩
          have := hbound r hr
          push_cast
          omega
      | some new =>
          have hnew := hf _ _ _ hfa
          rw [List.reduceOption_singleton, Option.toList_some]
          constructor
          · refine List.pairwise_append.mpr ⟨hsorted, List.pairwise_singleton _ _, fun r hr r' hr' => ?_⟩
            rw [List.mem_singleton.mp hr', hnew]
            exact hbound r hr
          · intro r hr
            push_cast
            rcases List.mem_append.mp hr with hr | hr
            · have := hbound r hr
              omega
            · rw [List.mem_singleton.mp hr, hnew]
              omega

theorem pairwise_journalRows (rt : Runtime) (raws : List RawEvent) (events : List Vault.Event) :
    (journalRows rt raws events).Pairwise fun a b => a.seq < b.seq :=
  (pairwise_numbered (fun _ _ _ h => seq_of_row h) _).1

/-! ## The two streams -/

/-- The row of either kind. -/
def decodedRow (d : Decoded) : Option FeedEntry := (d.user.map fun a => a.action.row).or (d.agent.map agentRow)

theorem rows_of_carries (h : rt.Documented) (hraw : List.Forall₂ RawEvent.Carries raws events) :
    ((decodeRows rt raws).map decodedRow).reduceOption = journalRows rt raws events := by
  unfold journalRows decodeRows
  congr 1
  have hlen := hraw.length_eq
  apply List.ext_getElem
  · simp [hlen]
  · intro i hi hi'
    have hi₁ : i < raws.length := by simpa using hi
    have hi₂ : i < events.length := hlen ▸ hi₁
    have hcarry : raws[i].Carries events[i] := hraw.get hi₁ hi₂
    obtain ⟨huser, hagent⟩ := decodeEvent_of_carries i h hcarry
    simp only [List.getElem_map, List.getElem_mapIdx, List.getElem_zip]
    unfold decodedRow Vault.Event.rowOf
    rw [huser, hagent]

/-- No event is both a user's action and the keeper's. -/
theorem alone_of_carries (h : rt.Documented) (hraw : List.Forall₂ RawEvent.Carries raws events) :
    ∀ d ∈ decodeRows rt raws, d.user = none ∨ d.agent = none := by
  intro d hd
  obtain ⟨i, hi, rfl⟩ := List.mem_mapIdx.mp hd
  have hi' : i < events.length := hraw.length_eq ▸ hi
  have hcarry : raws[i].Carries events[i] := hraw.get hi hi'
  obtain ⟨huser, hagent⟩ := decodeEvent_of_carries i h hcarry
  rw [huser, hagent]
  cases events[i] <;> first | exact Or.inl rfl | exact Or.inr rfl

theorem actor_action (a : UserActionEvent) : a.action.row.actor = .you := by cases a <;> rfl

theorem actor_agentRow (a : AgentActionEvent) : (agentRow a).actor = .agent := by cases a <;> rfl

/-- The users' rows, and the keeper's, are those of the journal. -/
theorem streams_of_decoded {l : List Decoded} (h : ∀ d ∈ l, d.user = none ∨ d.agent = none) :
    (l.filterMap Decoded.user).map (fun a => a.action.row)
        = (l.map decodedRow).reduceOption.filter (fun r => decide (r.actor = .you)) ∧
      (l.filterMap Decoded.agent).map agentRow
        = (l.map decodedRow).reduceOption.filter (fun r => decide (r.actor = .agent)) := by
  induction l with
  | nil => exact ⟨rfl, rfl⟩
  | cons d l ih =>
      obtain ⟨huser, hagent⟩ := ih fun d' hd' => h d' (List.mem_cons_of_mem d hd')
      rw [List.map_cons]
      rcases hd : d.user with _ | a <;> rcases hd' : d.agent with _ | b
      · have hrow : decodedRow d = none := by simp [decodedRow, hd, hd']
        rw [List.filterMap_cons_none hd, List.filterMap_cons_none hd', hrow, List.reduceOption_cons_of_none]
        exact ⟨huser, hagent⟩
      · have hrow : decodedRow d = some (agentRow b) := by simp [decodedRow, hd, hd']
        rw [List.filterMap_cons_none hd, List.filterMap_cons_some hd', hrow, List.reduceOption_cons_of_some,
          List.filter_cons_of_neg (by simp [actor_agentRow]), List.filter_cons_of_pos (by simp [actor_agentRow]),
          List.map_cons, hagent]
        exact ⟨huser, rfl⟩
      · have hrow : decodedRow d = some a.action.row := by simp [decodedRow, hd, hd']
        rw [List.filterMap_cons_some hd, List.filterMap_cons_none hd', hrow, List.reduceOption_cons_of_some,
          List.filter_cons_of_pos (by simp [actor_action]), List.filter_cons_of_neg (by simp [actor_action]),
          List.map_cons, huser]
        exact ⟨rfl, hagent⟩
      · rcases h d List.mem_cons_self with hn | hn
        · exact absurd (hd.symm.trans hn) (by simp)
        · exact absurd (hd'.symm.trans hn) (by simp)

/-! ## What a query leaves out -/

/-- A row of the depositor and of the currency asked for. -/
def ownRow (query : ActivityQuery) (r : FeedEntry) : Bool :=
  (query.depositor = none || r.depositor = query.depositor) && (query.currency = none || r.currency = query.currency)

/-- By the time of the row, one of the `own` rows has entered its currency; a row of no currency needs one that
    has entered any, and one at all by then. -/
def entered (own : List FeedEntry) (r : FeedEntry) : Bool :=
  match r.currency with
  | some c => own.any fun o => o.currency = some c && o.seq ≤ r.seq
  | none   => (own.any fun o => o.currency.isSome) && own.any fun o => o.seq ≤ r.seq

/-- The rows among `rows` that a query shows. -/
def shown (query : ActivityQuery) (rows : List FeedEntry) (r : FeedEntry) : Bool :=
  (query.actor = none || query.actor = some r.actor) &&
  match r.actor with
  | .you   => ownRow query r
  | .agent => (query.currency = none || r.currency = none || r.currency = query.currency) &&
      (query.depositor = none || entered (rows.filter fun o => o.actor = .you && ownRow query o) r)

/-- The sequence number is at or behind the least. -/
def reached (least : Option Int) (seq : Int) : Bool :=
  match least with
  | some m => m ≤ seq
  | none   => false

theorem reached_minSeq (least : Option Int) (q seq : Int) :
    reached (minSeq least q) seq = (reached least seq || decide (q ≤ seq)) := by
  cases least with
  | none => simp [minSeq, reached]
  | some m =>
      show decide (min m q ≤ seq) = (decide (m ≤ seq) || decide (q ≤ seq))
      rw [← Bool.decide_or]
      exact decide_eq_decide.mpr min_le_iff

/-- The least of the rows is reached iff one of them is. -/
theorem reached_foldl (rows : List FeedEntry) (least : Option Int) (seq : Int) :
    reached (rows.foldl (fun least r => minSeq least r.seq) least) seq
      = (reached least seq || rows.any fun r => r.seq ≤ seq) := by
  induction rows generalizing least with
  | nil => simp
  | cons r rows ih => rw [List.foldl_cons, ih, reached_minSeq, List.any_cons, Bool.or_assoc]

theorem reached_firstCurrency (rows : List FeedEntry) (first : Currency → Option Int) (c : Currency) (seq : Int) :
    reached (rows.foldl (fun first r =>
        match r.currency with
        | none   => first
        | some c => Function.update first c (minSeq (first c) r.seq)) first c) seq
      = (reached (first c) seq || rows.any fun r => r.currency = some c && r.seq ≤ seq) := by
  induction rows generalizing first with
  | nil => simp
  | cons r rows ih =>
      rw [List.foldl_cons, ih, List.any_cons]
      cases hr : r.currency with
      | none => simp
      | some d =>
          by_cases hd : c = d
          · subst hd
            dsimp only
            rw [Function.update_self, reached_minSeq]
            simp [Bool.or_assoc]
          · dsimp only
            rw [Function.update_of_ne hd]
            simp [Ne.symm hd]

theorem and_of_imp {a b : Bool} (h : b = true → a = true) : (a && b) = b := by
  cases b with
  | false => exact Bool.and_false a
  | true  => rw [h rfl, Bool.and_true]

/-- **The two scope filters show what `entered` says.** -/
theorem scope_eq (query : ActivityQuery) (deps : ActivityFeedDeps) (r : FeedEntry) :
    (matchesDepositorScope query deps r && happenedAfterDepositorEnteredScope query deps r)
      = (query.depositor = none || entered (userRows query deps) r) := by
  unfold matchesDepositorScope happenedAfterDepositorEnteredScope entered
  by_cases hd : query.depositor = none
  · simp [hd]
  · simp only [if_neg hd, decide_eq_false hd, Bool.false_or]
    cases hc : r.currency with
    | some c =>
        have hfirst : reached (firstCurrencySeq query deps c) r.seq
            = (userRows query deps).any fun o => o.currency = some c && o.seq ≤ r.seq :=
          reached_firstCurrency (userRows query deps) (fun _ => none) c r.seq
        show (decide (c ∈ _) && reached (firstCurrencySeq query deps c) r.seq) = _
        rw [hfirst]
        -- whoever entered the currency by then is one of those who have
        apply and_of_imp
        intro hany
        obtain ⟨o, ho, hin⟩ := List.any_eq_true.mp hany
        rw [Bool.and_eq_true, decide_eq_true_eq] at hin
        exact decide_eq_true (List.mem_filterMap.mpr ⟨o, ho, hin.1⟩)
    | none =>
        have hfirst : reached (firstUserSeq query deps) r.seq
            = (userRows query deps).any fun o => o.seq ≤ r.seq := reached_foldl (userRows query deps) none r.seq
        have hsome : decide (0 < ((userRows query deps).filterMap FeedEntry.currency).length)
            = (userRows query deps).any fun o => o.currency.isSome := by
          rw [Bool.eq_iff_iff, decide_eq_true_eq, List.length_pos_iff_exists_mem, List.any_eq_true]
          constructor
          · rintro ⟨c, hmem⟩
            obtain ⟨o, ho, hcur⟩ := List.mem_filterMap.mp hmem
            exact ⟨o, ho, by rw [hcur]; rfl⟩
          · rintro ⟨o, ho, hcur⟩
            obtain ⟨c, hcur⟩ := Option.isSome_iff_exists.mp hcur
            exact ⟨c, List.mem_filterMap.mpr ⟨o, ho, hcur⟩⟩
        show (decide (0 < _) && reached (firstUserSeq query deps) r.seq) = _
        rw [hfirst, hsome]

/-! ## The feed -/

theorem seq_action (a : UserActionEvent) : a.action.seq = a.action.row.seq := by cases a <;> rfl

theorem seq_agentRow (a : AgentActionEvent) : agentSeq a = (agentRow a).seq := by cases a <;> rfl

/-- Streams whose rows ascend are derived as they are. -/
theorem derived_user {l : List UserActionEvent}
    (h : (l.map fun a => a.action.row).Pairwise fun a b => a.seq < b.seq) :
    deriveUserActivity (l.map UserActionEvent.action) = l.map fun a => a.action.row := by
  unfold deriveUserActivity
  rw [sortOn_eq_self, List.map_map]
  · rfl
  · rw [List.pairwise_map] at h ⊢
    exact h.imp fun hlt => by rw [seq_action, seq_action]; exact le_of_lt hlt

theorem derived_agent {l : List AgentActionEvent} (h : (l.map agentRow).Pairwise fun a b => a.seq < b.seq) :
    deriveAgentActivity l = l.map agentRow := by
  unfold deriveAgentActivity
  rw [sortOn_eq_self]
  rw [List.pairwise_map] at h
  exact h.imp fun hlt => by rw [seq_agentRow, seq_agentRow]; exact le_of_lt hlt

/-- What is merged are the journal's rows that the query shows. -/
theorem merged_perm {d : DecodedEvents} {rows : List FeedEntry} (hsorted : rows.Pairwise fun a b => a.seq < b.seq)
    (huser : d.userEvents.map (fun a => a.action.row) = rows.filter fun r => decide (r.actor = .you))
    (hagent : d.agentEvents.map agentRow = rows.filter fun r => decide (r.actor = .agent)) :
    (merged query d.feed).Perm (rows.filter (shown query rows)) := by
  have hderived : deriveUserActivity (d.userEvents.map UserActionEvent.action)
      = rows.filter fun r => decide (r.actor = .you) := by
    rw [← huser]
    exact derived_user (huser ▸ hsorted.filter _)
  have hderived' : deriveAgentActivity d.agentEvents = rows.filter fun r => decide (r.actor = .agent) := by
    rw [← hagent]
    exact derived_agent (hagent ▸ hsorted.filter _)
  have hown : userRows query d.feed = rows.filter fun o => o.actor = .you && ownRow query o := by
    unfold userRows DecodedEvents.feed ownRow
    dsimp only
    rw [hderived, List.filter_filter, List.filter_filter]
    congr 1
    funext r
    rw [Bool.and_comm (decide (r.actor = .you)), Bool.and_comm (_ || _) (_ || _)]
  -- both streams, filter by filter
  have hagents : byActor query (chainAgentRows query d.feed)
      = (rows.filter (shown query rows)).filter fun r => decide (r.actor = .agent) := by
    unfold byActor chainAgentRows inScope DecodedEvents.feed
    dsimp only
    rw [Option.getD_some, hderived', List.filter_filter, List.filter_filter, List.filter_filter, List.filter_filter,
      List.filter_filter]
    congr 1
    funext r
    have hscope := scope_eq query d.feed r
    rw [hown] at hscope
    unfold shown
    cases hr : r.actor with
    | you   => simp
    | agent =>
        dsimp only
        rw [← hscope]
        simp [DecodedEvents.feed, Bool.and_assoc, Bool.and_comm, Bool.and_left_comm]
  have husers : byActor query (userRows query d.feed)
      = (rows.filter (shown query rows)).filter fun r => !decide (r.actor = .agent) := by
    unfold byActor
    rw [hown, List.filter_filter, List.filter_filter]
    congr 1
    funext r
    unfold shown
    cases hr : r.actor with
    | you   => simp
    | agent => simp
  have hlog : agentRows query d.feed = [] := by
    unfold agentRows DecodedEvents.feed
    cases query.currency <;> rfl
  have hsplit : merged query d.feed = (rows.filter (shown query rows)).filter (fun r => decide (r.actor = .agent))
      ++ (rows.filter (shown query rows)).filter fun r => !decide (r.actor = .agent) := by
    unfold merged
    rw [hlog, List.nil_append, byActor_append, hagents, husers]
  rw [hsplit]
  exact List.filter_append_perm _ _

/-- Rows that ascend, read backwards, are in the order of `compareRows`. -/
theorem sort_ascending {rows l : List FeedEntry} (hsorted : rows.Pairwise fun a b => a.seq < b.seq)
    (hl : l.Perm rows) : sortOn rowKey l = rows.reverse := by
  have hkeys : rows.reverse.Pairwise fun a b => rowKey a < rowKey b := by
    rw [List.pairwise_reverse]
    refine hsorted.imp fun {a b} hlt => ?_
    unfold rowKey
    rw [Prod.Lex.toLex_lt_toLex]
    left
    show -b.seq < -a.seq
    omega
  have hperm : l.Perm rows.reverse := hl.trans rows.reverse_perm.symm
  have hnodup : (rows.reverse.map rowKey).Nodup := List.pairwise_map.mpr (hkeys.imp fun hlt => ne_of_lt hlt)
  rw [sortOn_perm hperm ((hperm.map rowKey).nodup_iff.mpr hnodup)]
  exact sortOn_eq_self (hkeys.imp fun hlt => le_of_lt hlt)

/-- **The feed of a journal's streams is the journal, read backwards**, less what the query leaves out. -/
theorem feed_of_decoded (h : rt.Documented) (hraw : List.Forall₂ RawEvent.Carries raws events)
    (query : ActivityQuery) :
    getActivity query (decodeEvents rt raws).feed
      = ((journalRows rt raws events).filter (shown query (journalRows rt raws events))).reverse.take
          (query.limit.getD 50) := by
  have hsorted := pairwise_journalRows rt raws events
  obtain ⟨huser, hagent⟩ := streams_of_decoded (alone_of_carries h hraw)
  rw [rows_of_carries h hraw] at huser hagent
  have hperm : (merged query (decodeEvents rt raws).feed).Perm
      ((journalRows rt raws events).filter (shown query (journalRows rt raws events))) :=
    merged_perm hsorted huser hagent
  rw [getActivity_eq, sort_ascending (hsorted.filter _) hperm]

end SoroSense.Backend.Activity

namespace SoroSense.Backend

open Transition Activity

variable {ε : Type} {rt : Runtime} {home : SoroSense.Address → Currency} {position : String → Nat}
  {s : Realtime ε} {w : World} {history : List RawEvent} {configured : Option Int} {latest : Nat} {t₀ : Int}

/-- **The feed is the journal, read backwards**, when each pool is named by calls of one currency, the RPC answers
    from the ledger and no event of the vault is older than the start ledger. Whenever a request comes in on the
    live process, there is a state the chain has been in, with its journal `raws`, such that every query is
    answered from it: the rows of the
    journal's events, one for each but an approved exit, in reverse order, less those the query leaves out (of
    another actor, currency or depositor; and the keeper's, before the depositor had entered their currency),
    and cut at the limit. -/
theorem live_feed_is_the_journal (hd : rt.Documented) (hw : Reachable Genesis (HomeStep home) w)
    (hrec : Realtime.Recorded w history) {tr : List (Event (Realtime ε) (Happening ε))}
    (hr : Run (Realtime.HonestStep home rt position) (.boot w history configured latest t₀) tr s)
    (hall : s.Complete) :
    ∃ v raws, Reachable Genesis (HomeStep home) v ∧ (∃ tr, Run (HomeStep home) v tr s.world) ∧
      raws <+: s.log ∧ List.Forall₂ RawEvent.Carries raws v.vault.events ∧
      ∀ query : ActivityQuery, getActivity query (s.activityDeps rt)
        = ((journalRows rt raws v.vault.events).filter
            (shown query (journalRows rt raws v.vault.events))).reverse.take (query.limit.getD 50) := by
  have hboot : Follows rt position (.boot w history configured latest t₀ : Realtime ε) 0 0 := .boot hrec
  obtain ⟨n, k, _, _, _, hs⟩ := hboot.run hr
  obtain ⟨v, hserved⟩ := hs.serves hd hall (reachable_of_live hw hr)
  obtain ⟨raws, hprefix, hcarry, hdecoded⟩ := hserved.log
  refine ⟨v, raws, hserved.reached, hserved.past, hprefix, hcarry, fun query => ?_⟩
  unfold Realtime.activityDeps
  rw [hdecoded]
  exact feed_of_decoded hd hcarry query

/-- The depositor's feed, after one poll. -/
theorem live_feed_is_the_journal_polled :
    (getActivity ⟨some (SoroSense.Address.account 2).strkey, none, none, none⟩
        (polled.activityDeps Runtime.plain)).map FeedEntry.detail
      = ["Allocated USD into the yield pool", "Deposited to USD bucket", "Signed auto-optimize mandate"] ∧
    ∃ v raws, Reachable Genesis (HomeStep fun _ => .usd) v ∧ raws <+: polled.log ∧
      ∀ query : ActivityQuery, getActivity query (polled.activityDeps Runtime.plain)
        = ((journalRows Runtime.plain raws v.vault.events).filter
            (shown query (journalRows Runtime.plain raws v.vault.events))).reverse.take (query.limit.getD 50) := by
  obtain ⟨tr, hr⟩ := polled_run fun _ => 0
  obtain ⟨v, raws, hv, _, hprefix, _, hfeed⟩ := live_feed_is_the_journal Runtime.plain_documented
    placedWorld_reachable (recorded_placed (by decide +kernel)) hr (by decide +kernel)
  exact ⟨by decide +kernel, v, raws, hv, hprefix, hfeed⟩

end SoroSense.Backend
