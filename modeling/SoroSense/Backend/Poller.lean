import SoroSense.Backend.EventReader
import SoroSense.Lib.Transition

/-!
# `Backend.Poller` — the event poll

`backend/src/chain/event-store.ts` and `backend/src/chain/poller.ts`. A poll drains the pages waiting after
the store's cursor into the store, then hands the decode of the whole store on; a source that throws ends
the poll where it stands.

A source is what it answers in one poll: a page or an error, by the number of the call and the cursor it is
called with. The polls of a run come one after the other, each with answers of its own.
-/

namespace SoroSense.Backend

open Fallible Transition

/-! ## The store (`event-store.ts`) -/

/-- One page of raw events, the RPC's latest ledger and the next page's cursor. -/
structure EventPage where
  events       : List RawEvent
  latestLedger : Nat
  cursor       : Option String

/-- `InMemoryEventStore`: the events seen, one an `id`, in order of arrival. -/
structure EventStore where
  byId       : List RawEvent
  nodup      : (byId.map RawEvent.id).Nodup
  nextCursor : Option String
  watermark  : Nat

namespace EventStore

def empty : EventStore := { byId := [], nodup := List.nodup_nil, nextCursor := none, watermark := 0 }

/-- `if (this.byId.has(event.id)) continue; this.byId.set(event.id, event)`. -/
def insert (store : EventStore) (event : RawEvent) : EventStore :=
  if h : event.id ∈ store.byId.map RawEvent.id then store
  else
    { store with
      byId  := store.byId ++ [event]
      nodup := by
        rw [List.map_append, List.map_singleton, ← List.concat_eq_append]
        exact store.nodup.concat h }

def ingest (store : EventStore) (page : EventPage) : EventStore :=
  let filled := page.events.foldl insert store
  { filled with
    watermark  := if filled.watermark < page.latestLedger then page.latestLedger else filled.watermark
    nextCursor := page.cursor.or filled.nextCursor }

/-- Every event seen so far, ledger-ascending, stable within a ledger. -/
def raw (store : EventStore) : List RawEvent := Timeline.sortOn RawEvent.ledger store.byId

def cursor (store : EventStore) : Option String := store.nextCursor

end EventStore

/-! ## The poller (`poller.ts`) -/

def MAX_PAGES_PER_POLL : Nat := 1000

/-- What a source answers in one poll, call by call. -/
abbrev EventSource (ε : Type) := Nat → Option String → Except ε EventPage

section
variable {ε : Type}

/-- The `for` loop of a poll from its page `page`, `left` pages before the cap: the store it leaves, and
    how many events it counted or what the source threw. -/
def drain (source : EventSource ε) : (left page ingested : Nat) → EventStore → EventStore × Except ε Nat
  | 0, _, ingested, store => (store, .ok ingested)
  | left + 1, page, ingested, store =>
      let cursor := store.cursor
      match source page cursor with
      | .error error => (store, .error error)
      | .ok result   =>
          let store := store.ingest result
          let ingested := ingested + result.events.length
          if result.events.length = 0 ∨ result.cursor = none ∨ result.cursor = cursor then
            (store, .ok ingested)
          else drain source left (page + 1) ingested store

/-- A poller: its store, the decode most recently handed to `onUpdate`, and what `onError` was handed. -/
structure Poller (ε : Type) where
  store  : EventStore
  latest : Option DecodedEvents
  errors : List ε

namespace Poller

def fresh : Poller ε := { store := .empty, latest := none, errors := [] }

/-- The drain a poll makes. -/
def drained (maxPages : Option Nat) (source : EventSource ε) (p : Poller ε) : EventStore × Except ε Nat :=
  drain source (maxPages.getD MAX_PAGES_PER_POLL) 0 0 p.store

/-- `poll`. -/
def poll (rt : Runtime) (maxPages : Option Nat) (source : EventSource ε) (p : Poller ε) : Poller ε :=
  match p.drained maxPages source with
  | (store, .error error) => { p with store := store, errors := p.errors ++ [error] }
  | (store, .ok ingested) =>
      if ingested = 0 then { p with store := store }
      else { p with store := store, latest := some (decodeEvents rt store.raw) }

/-- One poll after another. -/
def Step (rt : Runtime) (maxPages : Option Nat) (p : Poller ε) (source : EventSource ε) (p' : Poller ε) :
    Prop := p.poll rt maxPages source = p'

/-- The poll ends without an error. -/
def Clean (maxPages : Option Nat) (p : Poller ε) (source : EventSource ε) : Prop :=
  ∃ ingested, (p.drained maxPages source).2 = .ok ingested

/-- The poll finds nothing: it may read no page, or the first page it reads is empty. -/
def Quiet (maxPages : Option Nat) (p : Poller ε) (source : EventSource ε) : Prop :=
  maxPages = some 0 ∨ ∃ page, source 0 p.store.cursor = .ok page ∧ page.events.length = 0

end Poller

/-! ## What a drain does to the store -/

namespace EventStore

variable {store : EventStore} {page : EventPage}

theorem insert_keeps (event : RawEvent) : store.byId <+: (store.insert event).byId := by
  unfold insert
  split
  · exact List.prefix_refl _
  · exact List.prefix_append _ _

theorem insert_ne_nil (event : RawEvent) : (store.insert event).byId ≠ [] := by
  unfold insert
  split
  case isTrue h  => exact fun hnil => absurd h (by simp [hnil])
  case isFalse h => simp

theorem foldl_insert_keeps (events : List RawEvent) : store.byId <+: (events.foldl insert store).byId := by
  induction events generalizing store with
  | nil               => exact List.prefix_refl _
  | cons event rest ih => exact (insert_keeps event).trans ih

/-- A page only adds to the events seen. -/
theorem ingest_keeps : store.byId <+: (store.ingest page).byId := foldl_insert_keeps page.events

theorem ingest_nil (h : page.events.length = 0) : (store.ingest page).byId = store.byId := by
  unfold ingest
  rw [List.length_eq_zero_iff.mp h]
  rfl

theorem ingest_ne_nil (h : page.events.length ≠ 0) : (store.ingest page).byId ≠ [] := by
  cases hev : page.events with
  | nil => exact absurd (by rw [hev]; rfl) h
  | cons event rest =>
      show (page.events.foldl insert store).byId ≠ []
      rw [hev]
      have hseen : (store.insert event).byId <+: (rest.foldl insert (store.insert event)).byId :=
        foldl_insert_keeps rest
      rw [List.foldl_cons]
      intro hnil
      rw [hnil] at hseen
      exact insert_ne_nil event (List.prefix_nil.mp hseen)

end EventStore

variable {source : EventSource ε} {left page ingested : Nat} {store : EventStore}

/-- The events seen before the drain are still there, in place. -/
theorem drain_keeps : store.byId <+: (drain source left page ingested store).1.byId := by
  fun_induction drain source left page ingested store with
  | case1 => exact List.prefix_refl _
  | case2 => exact List.prefix_refl _
  | case3 => exact EventStore.ingest_keeps
  | case4 _ _ _ _ _ _ _ _ _ _ ih => exact EventStore.ingest_keeps.trans ih

/-- The counter only grows, and a drain that counted an event leaves a store that is not empty. -/
theorem drain_counts {n : Nat} (h : (drain source left page ingested store).2 = .ok n) :
    ingested ≤ n ∧ (ingested < n → (drain source left page ingested store).1.byId ≠ []) := by
  fun_induction drain source left page ingested store with
  | case1 =>
      obtain rfl := ok_eq_ok.mp h
      exact ⟨le_refl _, fun hlt => absurd hlt (lt_irrefl _)⟩
  | case2 => exact absurd h (by simp)
  | case3 left page ingested store cursor result hres store' ingested' hstop =>
      obtain rfl := ok_eq_ok.mp h
      refine ⟨Nat.le_add_right _ _, fun hlt => EventStore.ingest_ne_nil fun hzero => ?_⟩
      exact absurd hlt (by simp [ingested', hzero])
  | case4 left page ingested store cursor result hres store' ingested' hstop ih =>
      have hevents : result.events.length ≠ 0 := fun hzero => hstop (Or.inl hzero)
      refine ⟨le_trans (Nat.le_add_right _ _) (ih h).1, fun _ hnil => ?_⟩
      have hseen : store'.byId <+: (drain source left (page + 1) ingested' store').1.byId := drain_keeps
      rw [hnil] at hseen
      exact EventStore.ingest_ne_nil hevents (List.prefix_nil.mp hseen)

/-! ## What a poll does -/

namespace Poller

variable {rt : Runtime} {maxPages : Option Nat} {p p' : Poller ε} {source : EventSource ε}

/-- **What a poll can do**: fail and hand nothing on, find nothing, or hand on the decode of a store that
    is not empty. No event seen is lost. -/
inductive Effect (rt : Runtime) (maxPages : Option Nat) (p : Poller ε) (source : EventSource ε)
    (p' : Poller ε) : Prop where
  | failed (hclean : ¬ p.Clean maxPages source) (hlatest : p'.latest = p.latest)
      (hseen : p.store.byId <+: p'.store.byId)
  | quiet (hclean : p.Clean maxPages source) (hquiet : p.Quiet maxPages source)
      (hlatest : p'.latest = p.latest) (hseen : p'.store.byId = p.store.byId)
  | published (hclean : p.Clean maxPages source) (hquiet : ¬ p.Quiet maxPages source)
      (hlatest : p'.latest = some (decodeEvents rt p'.store.raw)) (hseen : p.store.byId <+: p'.store.byId)
      (hheld : p'.store.byId ≠ [])

theorem drained_of_quiet (h : p.Quiet maxPages source) :
    (p.drained maxPages source).2 = .ok 0 ∧ (p.drained maxPages source).1.byId = p.store.byId := by
  unfold drained
  rcases h with rfl | ⟨page, hpage, hzero⟩
  · exact ⟨rfl, rfl⟩
  · cases maxPages.getD MAX_PAGES_PER_POLL with
    | zero => exact ⟨rfl, rfl⟩
    | succ left =>
        simp only [drain, hpage, hzero, true_or, if_true]
        exact ⟨trivial, EventStore.ingest_nil hzero⟩

/-- A poll whose first page holds an event counts it. -/
theorem pos_of_not_quiet (h : ¬ p.Quiet maxPages source) {n : Nat}
    (hn : (p.drained maxPages source).2 = .ok n) : 0 < n := by
  unfold drained at hn
  cases hm : maxPages.getD MAX_PAGES_PER_POLL with
  | zero =>
      -- the cap is zero only when it was given as zero
      refine absurd (Or.inl ?_) h
      cases maxPages with
      | none   => exact absurd hm (by decide)
      | some k => exact congrArg some hm
  | succ left =>
      rw [hm, drain] at hn
      cases hpage : source 0 p.store.cursor with
      | error error => simp only [hpage] at hn; exact absurd hn (by simp)
      | ok page =>
          have hevents : page.events.length ≠ 0 := fun hzero => h (Or.inr ⟨page, hpage, hzero⟩)
          simp only [hpage] at hn
          split at hn
          · have hcount : 0 + page.events.length = n := ok_eq_ok.mp hn
            omega
          · have hcount := (drain_counts hn).1
            omega

/-- **A poll does one of the three.** -/
theorem poll_effect : Effect rt maxPages p source (p.poll rt maxPages source) := by
  have hseen : p.store.byId <+: (p.drained maxPages source).1.byId := drain_keeps
  cases hd : p.drained maxPages source with
  | mk store outcome =>
      rw [hd] at hseen
      cases outcome with
      | error error =>
          refine .failed ?_ ?_ ?_
          · rintro ⟨n, hn⟩
            rw [hd] at hn
            exact absurd hn (by simp)
          · simp only [poll, hd]
          · simpa only [poll, hd] using hseen
      | ok n =>
          have hok : (p.drained maxPages source).2 = .ok n := by rw [hd]
          by_cases hquiet : p.Quiet maxPages source
          · obtain ⟨hzero, hsame⟩ := drained_of_quiet hquiet
            obtain rfl : n = 0 := ok_unique hok hzero
            rw [hd] at hsame
            refine .quiet ⟨0, hzero⟩ hquiet ?_ ?_
            · simp only [poll, hd, if_true]
            · simpa only [poll, hd, if_true] using hsame
          · have hpos : n ≠ 0 := Nat.ne_of_gt (pos_of_not_quiet hquiet hok)
            have hheld := (drain_counts hok).2 (pos_of_not_quiet hquiet hok)
            rw [← drained, hd] at hheld
            refine .published ⟨n, hok⟩ hquiet ?_ ?_ ?_
            · simp only [poll, hd, if_neg hpos]
            · simpa only [poll, hd, if_neg hpos] using hseen
            · simpa only [poll, hd, if_neg hpos] using hheld

theorem Step.effect (h : Step rt maxPages p source p') : Effect rt maxPages p source p' :=
  h ▸ poll_effect

end Poller

end

end SoroSense.Backend
