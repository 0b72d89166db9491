import SoroSense.Backend.Poller
import SoroSense.Lib.Pieces

/-!
# `Backend.OneRead` — reading every event at once

`readVaultEvents` of `backend/src/chain/event-reader.ts`: it drains a source page by page into an array of its
own, dropping the `id`s it has seen, then sorts and decodes. It shares no code with the store the poller drains
into; `readLoop_raw` and `drain_byId` bring both back to the pages they read.
-/

namespace SoroSense.Backend

open Fallible

variable {ε : Type}

/-! ## `readVaultEvents` -/

/-- Safety cap on the pages of one read. -/
def MAX_PAGES : Nat := 1000

/-- The locals of `readVaultEvents`. -/
structure Reading where
  seen         : List String
  raw          : List RawEvent
  cursor       : Option String
  latestLedger : Nat

namespace Reading

def start : Reading := { seen := [], raw := [], cursor := none, latestLedger := 0 }

/-- `if (seen.has(ev.id)) continue; seen.add(ev.id); raw.push(ev)`. -/
def add (r : Reading) (ev : RawEvent) : Reading :=
  if ev.id ∈ r.seen then r else { r with seen := r.seen ++ [ev.id], raw := r.raw ++ [ev] }

/-- One page taken in. -/
def take (r : Reading) (result : EventPage) : Reading :=
  { result.events.foldl add r with latestLedger := result.latestLedger }

end Reading

/-- The source signals no further progress: no next cursor, one that did not advance, or an empty page. -/
def EventPage.Last (result : EventPage) (cursor : Option String) : Prop :=
  result.cursor = none ∨ result.cursor = some "" ∨ result.cursor = cursor ∨ result.events.length = 0

instance (result : EventPage) (cursor : Option String) : Decidable (result.Last cursor) :=
  inferInstanceAs (Decidable (_ ∨ _ ∨ _ ∨ _))

/-- The `for` loop from its page `page`, `left` pages before the cap. -/
def readLoop (source : EventSource ε) : (left page : Nat) → Reading → Except ε Reading
  | 0, _, r           => .ok r
  | left + 1, page, r =>
      match source page r.cursor with
      | .error error => .error error
      | .ok result   =>
          if result.Last r.cursor then .ok { r.take result with cursor := result.cursor.or r.cursor }
          else readLoop source left (page + 1) { r.take result with cursor := result.cursor }

/-- The reader's output. -/
structure DecodedVaultEvents extends DecodedEvents where
  latestLedger : Nat
  cursor       : Option String

/-- `readVaultEvents`. -/
def readVaultEvents (rt : Runtime) (source : EventSource ε) : Except ε DecodedVaultEvents := do
  let r ← readLoop source MAX_PAGES 0 .start
  .ok { decodeEvents rt (Timeline.sortOn RawEvent.ledger r.raw) with latestLedger := r.latestLedger, cursor := r.cursor }

/-! ## The pages read -/

/-- The pages `readLoop` takes in. -/
def readPages (source : EventSource ε) : (left page : Nat) → Reading → List EventPage
  | 0, _, _           => []
  | left + 1, page, r =>
      match source page r.cursor with
      | .error _   => []
      | .ok result =>
          if result.Last r.cursor then [result]
          else result :: readPages source left (page + 1) { r.take result with cursor := result.cursor }

/-- The pages `drain` takes in. -/
def drainPages (source : EventSource ε) : (left page : Nat) → EventStore → List EventPage
  | 0, _, _               => []
  | left + 1, page, store =>
      match source page store.cursor with
      | .error _   => []
      | .ok result =>
          if result.events.length = 0 ∨ result.cursor = none ∨ result.cursor = store.cursor then [result]
          else result :: drainPages source left (page + 1) (store.ingest result)

/-- What a reader that drops the `id`s it holds has after these pages. -/
def collect (held : List RawEvent) (pages : List EventPage) : List RawEvent :=
  (pages.map EventPage.events).foldl (Pieces.absorb RawEvent.id) held

theorem collect_cons {held : List RawEvent} {page : EventPage} {pages : List EventPage} :
    collect held (page :: pages) = collect (Pieces.absorb RawEvent.id held page.events) pages := rfl

/-! ## Both drop the `id`s they hold -/

/-- `seen` is the `id`s of `raw`. -/
def Reading.Tracks (r : Reading) : Prop := r.seen = r.raw.map RawEvent.id

theorem Reading.tracks_foldl {r : Reading} (h : r.Tracks) (events : List RawEvent) :
    (events.foldl add r).Tracks ∧ (events.foldl add r).raw = Pieces.absorb RawEvent.id r.raw events := by
  induction events generalizing r with
  | nil => exact ⟨h, rfl⟩
  | cons ev events ih =>
      have hstep : (r.add ev).Tracks ∧ (r.add ev).raw = Pieces.keep RawEvent.id r.raw ev := by
        unfold Reading.add Pieces.keep
        rw [h]
        by_cases hseen : ev.id ∈ r.raw.map RawEvent.id
        · rw [if_pos hseen, if_pos hseen]
          exact ⟨h, rfl⟩
        · rw [if_neg hseen, if_neg hseen]
          refine ⟨?_, rfl⟩
          show r.raw.map RawEvent.id ++ [ev.id] = (r.raw ++ [ev]).map RawEvent.id
          rw [List.map_append, List.map_singleton]
      obtain ⟨htracks, hraw⟩ := ih hstep.1
      refine ⟨htracks, ?_⟩
      rw [List.foldl_cons, hraw, hstep.2]
      rfl

/-- **The array of a read that returned is what its pages collect to.** -/
theorem readLoop_raw {source : EventSource ε} {left page : Nat} {r r' : Reading} (ht : r.Tracks)
    (h : readLoop source left page r = .ok r') : r'.raw = collect r.raw (readPages source left page r) := by
  induction left generalizing page r with
  | zero =>
      obtain rfl := ok_eq_ok.mp h
      rfl
  | succ left ih =>
      unfold readLoop at h
      unfold readPages
      cases hs : source page r.cursor with
      | error error => rw [hs] at h; exact absurd h (by simp)
      | ok result =>
          obtain ⟨htracks, hraw⟩ := Reading.tracks_foldl ht result.events
          simp only [hs] at h ⊢
          by_cases hlast : result.Last r.cursor
          · rw [if_pos hlast] at h ⊢
            obtain rfl := ok_eq_ok.mp h
            exact hraw
          · rw [if_neg hlast] at h ⊢
            rw [collect_cons, ← hraw]
            exact ih (r := { r.take result with cursor := result.cursor }) htracks h

namespace EventStore

variable {store : EventStore}

theorem insert_byId (event : RawEvent) : (store.insert event).byId = Pieces.keep RawEvent.id store.byId event := by
  unfold insert Pieces.keep
  by_cases h : event.id ∈ store.byId.map RawEvent.id
  · rw [dif_pos h, if_pos h]
  · rw [dif_neg h, if_neg h]

theorem insert_watermark (event : RawEvent) : (store.insert event).watermark = store.watermark := by
  unfold insert
  split <;> rfl

theorem foldl_insert (store : EventStore) (events : List RawEvent) :
    (events.foldl insert store).byId = Pieces.absorb RawEvent.id store.byId events ∧
      (events.foldl insert store).watermark = store.watermark := by
  induction events generalizing store with
  | nil => exact ⟨rfl, rfl⟩
  | cons event events ih =>
      obtain ⟨hbyId, hmark⟩ := ih (store.insert event)
      rw [List.foldl_cons, hbyId, hmark, insert_byId, insert_watermark]
      exact ⟨rfl, rfl⟩

theorem ingest_byId (page : EventPage) :
    (store.ingest page).byId = Pieces.absorb RawEvent.id store.byId page.events := (foldl_insert store page.events).1

/-- A page never rewinds the watermark. -/
theorem le_ingest_watermark (store : EventStore) (page : EventPage) : store.watermark ≤ (store.ingest page).watermark := by
  have hmark := (foldl_insert store page.events).2
  show store.watermark
    ≤ if (page.events.foldl insert store).watermark < page.latestLedger then page.latestLedger
      else (page.events.foldl insert store).watermark
  rw [hmark]
  split <;> omega

end EventStore

/-- **The store of a drain is what its pages collect to**, also where the source threw. -/
theorem drain_byId {source : EventSource ε} (left page ingested : Nat) (store : EventStore) :
    (drain source left page ingested store).1.byId = collect store.byId (drainPages source left page store) ∧
      store.watermark ≤ (drain source left page ingested store).1.watermark := by
  induction left generalizing page ingested store with
  | zero => exact ⟨rfl, le_refl _⟩
  | succ left ih =>
      unfold drain drainPages
      cases hs : source page store.cursor with
      | error error =>
          simp only [hs]
          exact ⟨rfl, le_refl _⟩
      | ok result =>
          have hmark := EventStore.le_ingest_watermark store result
          simp only [hs]
          by_cases hstop : result.events.length = 0 ∨ result.cursor = none ∨ result.cursor = store.cursor
          · rw [if_pos hstop, if_pos hstop]
            exact ⟨EventStore.ingest_byId result, hmark⟩
          · rw [if_neg hstop, if_neg hstop]
            obtain ⟨hbyId, hrest⟩ := ih (page + 1) (ingested + result.events.length) (store.ingest result)
            rw [hbyId, collect_cons, EventStore.ingest_byId]
            exact ⟨rfl, le_trans hmark hrest⟩

end SoroSense.Backend
