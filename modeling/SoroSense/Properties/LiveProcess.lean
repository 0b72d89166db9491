import SoroSense.Backend.Realtime
import SoroSense.Properties.Resume
import SoroSense.Properties.Replay

/-!
# `Properties.LiveProcess` — the live process polls one poll at a time

The poll of `Backend.Poller` runs from its first page to its last with nothing in between. In the process it
waits for every page, the timer fires meanwhile, and the other loop and the chain go on. The guard makes up for
it: what a tick does from its start to its end is one poll of `Backend.Poller` (`whole_poll`), so every run of
the process is, for the poller, a run of whole polls (`live_polls_whole`).

With an RPC that answers from the ledger, the process holds a prefix of the vault's log and has handed on the
decode of a prefix of that (`Follows`). A prefix of the whole record is the record of a past of the chain
(`exists_past`), so when no event is older than the start ledger, whatever is served is a state the vault has
been in (`served_is_a_past`).
-/

namespace SoroSense.Backend

open Fallible Transition Timer Pieces

variable {ε : Type} {rt : Runtime} {maxPages : Option Nat} {home : SoroSense.Address → Currency}
  {position : String → Nat} {p p' : Poller ε} {as : List (Except ε EventPage)} {s s' : Realtime ε}
  {x : Happening ε} {w : World} {history : List RawEvent} {configured : Option Int} {latest : Nat} {t₀ : Int}

/-! ## A tick is a poll -/

/-- The source that answers one call after the other. -/
def answering (as : List (Except ε EventPage)) : EventSource ε := fun page _ =>
  (as[page]?).getD (.ok { events := [], latestLedger := 0, cursor := none })

/-- Where a poll of `source` is: waiting for the page after those it has read, or at its end. -/
inductive PollReached (rt : Runtime) (maxPages : Option Nat) (source : EventSource ε) (p : Poller ε) (read : Nat)
    (p' : Poller ε) : Option PollTick → Prop where
  | waiting {t : PollTick} (hpage : t.page = read) (hcap : read < maxPages.getD MAX_PAGES_PER_POLL)
      (hcursor : t.cursor = p'.store.cursor) (hsame : p' = { p with store := p'.store })
      (hdrain : p.drained maxPages source
        = drain source (maxPages.getD MAX_PAGES_PER_POLL - read) read t.ingested p'.store) :
      PollReached rt maxPages source p read p' (some t)
  | ended (hpoll : p.poll rt maxPages source = p') : PollReached rt maxPages source p read p' none

/-- One more page. -/
theorem PollReached.piece {source : EventSource ε} {read : Nat} {t : PollTick} {a : Except ε EventPage}
    (h : PollReached rt maxPages source p read p' (some t)) (ha : ∀ cursor, source read cursor = a) :
    PollReached rt maxPages source p (read + 1) ((pollTick rt maxPages).resume p' t a).1
      ((pollTick rt maxPages).resume p' t a).2 := by
  cases h with
  | waiting hpage hcap hcursor hsame hdrain =>
      obtain ⟨left, hleft⟩ : ∃ left, maxPages.getD MAX_PAGES_PER_POLL - read = left + 1 :=
        ⟨maxPages.getD MAX_PAGES_PER_POLL - read - 1, by omega⟩
      rw [hleft, drain, ha] at hdrain
      cases a with
      | error error =>
          apply PollReached.ended
          simp only [Poller.poll, hdrain]
          show _ = { p' with errors := p'.errors ++ [error] }
          rw [hsame]
      | ok result =>
          dsimp only at hdrain
          have hafter : ({ p' with store := p'.store.ingest result } : Poller ε)
              = { p with store := p'.store.ingest result } := by
            rw [hsame]
          have hended : ∀ n, p.drained maxPages source = (p'.store.ingest result, .ok n) →
              p.poll rt maxPages source
                = Poller.handOn rt ({ p' with store := p'.store.ingest result } : Poller ε) n := by
            intro n hd
            simp only [Poller.poll, hd]
            rw [hafter]
            rfl
          by_cases hstop : result.events.length = 0 ∨ result.cursor = none ∨ result.cursor = p'.store.cursor
          · rw [if_pos hstop] at hdrain
            rw [← hcursor] at hstop
            have hpiece : (pollTick rt maxPages).resume p' t (.ok result)
                = (Poller.handOn rt { p' with store := p'.store.ingest result } (t.ingested + result.events.length),
                    none) := if_pos (Or.inl hstop)
            rw [hpiece]
            exact .ended (hended _ hdrain)
          · rw [if_neg hstop] at hdrain
            rw [← hcursor] at hstop
            by_cases hlast : maxPages.getD MAX_PAGES_PER_POLL ≤ t.page + 1
            · -- the cap ends the poll here
              obtain rfl : left = 0 := by omega
              have hpiece : (pollTick rt maxPages).resume p' t (.ok result)
                  = (Poller.handOn rt { p' with store := p'.store.ingest result }
                      (t.ingested + result.events.length), none) := if_pos (Or.inr hlast)
              rw [hpiece]
              exact .ended (hended _ hdrain)
            · have hpiece : (pollTick rt maxPages).resume p' t (.ok result)
                  = ({ p' with store := p'.store.ingest result },
                      some { page := t.page + 1, ingested := t.ingested + result.events.length,
                             cursor := (p'.store.ingest result).cursor }) :=
                if_neg (not_or.mpr ⟨hstop, hlast⟩)
              rw [hpiece]
              refine .waiting (congrArg (· + 1) hpage) (by omega) rfl hafter ?_
              rw [hdrain]
              congr 1
              omega

/-- Page after page, a tick is where a poll of the answers it got is. -/
theorem goes_poll {n : Option PollTick} {source : EventSource ε} (hcap : 0 < maxPages.getD MAX_PAGES_PER_POLL)
    (h : (pollTick rt maxPages).Goes p { page := 0, ingested := 0, cursor := p.store.cursor } as p' n)
    (hs : ∀ k a, as[k]? = some a → ∀ cursor, source k cursor = a) :
    PollReached rt maxPages source p as.length p' n := by
  induction h with
  | waits => exact .waiting rfl hcap rfl rfl rfl
  | @piece as q t a _ ih =>
      have hfirst : PollReached rt maxPages source p as.length q (some t) := by
        apply ih
        intro k b hk
        apply hs k b
        rw [List.getElem?_append_left (List.getElem?_eq_some_iff.mp hk).1]
        exact hk
      rw [List.length_append, List.length_singleton]
      exact hfirst.piece (hs as.length a (by simp))

theorem start_pollTick {t : PollTick} (h : (pollTick rt maxPages : TickHandler (Poller ε) _ _).start p = some t) :
    0 < maxPages.getD MAX_PAGES_PER_POLL ∧ t = { page := 0, ingested := 0, cursor := p.store.cursor } := by
  have hsome : (if 0 < maxPages.getD MAX_PAGES_PER_POLL then
      some ({ page := 0, ingested := 0, cursor := p.store.cursor } : PollTick) else none) = some t := h
  split at hsome
  case isTrue hcap => exact ⟨hcap, (Option.some.inj hsome).symm⟩
  case isFalse     => exact absurd hsome (by simp)

theorem answering_get {k : Nat} {a : Except ε EventPage} (h : as[k]? = some a) (cursor : Option String) :
    answering as k cursor = a := by
  unfold answering
  rw [h]
  rfl

/-- **A tick from its start to its end is one poll.** -/
theorem whole_poll (h : (pollTick rt maxPages).Whole p as p') : Poller.Step rt maxPages p (answering as) p' := by
  obtain ⟨t, hstart, hgoes⟩ := h
  obtain ⟨hcap, rfl⟩ := start_pollTick hstart
  cases goes_poll hcap hgoes (fun k a hk => answering_get hk) with
  | ended hpoll => exact hpoll

/-- A tick that still waits has handed nothing on, and lost nothing. -/
theorem latest_of_waiting {t₁ t : PollTick} (hstart : (pollTick rt maxPages : TickHandler (Poller ε) _ _).start p = some t₁)
    (h : (pollTick rt maxPages).Goes p t₁ as p' (some t)) : p'.latest = p.latest ∧ p'.errors = p.errors := by
  obtain ⟨hcap, rfl⟩ := start_pollTick hstart
  cases goes_poll hcap h (fun k a hk => answering_get hk) with
  | waiting _ _ _ hsame _ => exact ⟨by rw [hsame], by rw [hsame]⟩

/-! ## One loop of the process -/

theorem polls_of_step (hs : Realtime.Step rt s x s') :
    s'.polls = s.polls ∨ ∃ m, Loop.Step (pollTick rt none) s.polls m s'.polls := by
  cases hs with
  | chain _ _  => exact Or.inl rfl
  | clock _    => exact Or.inl rfl
  | poll hm    => exact Or.inr ⟨_, hm⟩
  | snapshot _ => exact Or.inl rfl

theorem snapshots_of_step (hs : Realtime.Step rt s x s') :
    s'.snapshots = s.snapshots ∨ ∃ m, Loop.Step (snapshotTick ALL_CURRENCIES) s.snapshots m s'.snapshots := by
  cases hs with
  | chain _ _   => exact Or.inl rfl
  | clock _     => exact Or.inl rfl
  | poll _      => exact Or.inl rfl
  | snapshot hm => exact Or.inr ⟨_, hm⟩

/-- **The live process polls one poll at a time.** However the timers fire, whatever the RPC answers and the chain
    does in between: neither loop ever has two ticks at work, and what the polls have done is what a run of
    whole polls does, each from its first page to its last: the readers have what that run handed on, and
    between two polls the poller is in the state it left. -/
theorem live_polls_whole {tr : List (Event (Realtime ε) (Happening ε))}
    (hr : Run (Realtime.Step rt) (.boot w history configured latest t₀) tr s) :
    s.polls.ticks.length ≤ 1 ∧ s.snapshots.ticks.length ≤ 1 ∧
    ∃ tr' p, Run (Poller.Step rt none) .fresh tr' p ∧ s.polls.own.latest = p.latest ∧
      s.polls.own.errors = p.errors ∧ (s.polls.ticks = [] → s.polls.own = p) := by
  obtain ⟨_, hpolls⟩ := hr.observe Realtime.polls (fun _ _ _ => polls_of_step)
  obtain ⟨_, hsnaps⟩ := hr.observe Realtime.snapshots (fun _ _ _ => snapshots_of_step)
  have hidle : (Loop.idle Poller.fresh : Loop (Poller ε) PollTick).Alone := .idle _
  refine ⟨?_, ?_, ?_⟩
  · exact (hpolls.invariant (P := Loop.Alone) (fun _ _ _ h hs => h.step hs) hidle).one
  · exact (hsnaps.invariant (P := Loop.Alone) (fun _ _ _ h hs => h.step hs) (.idle _)).one
  · obtain ⟨tr', p, hwhole, hsince⟩ := whole_ticks hpolls hidle (Or.inl ⟨rfl, rfl⟩)
    have hpolled : ∀ e ∈ tr', Poller.Step rt none e.pre (answering e.label) e.post :=
      fun e he => whole_poll (hwhole.forall_step e he)
    refine ⟨_, p, hwhole.map id (fun e => answering e.label) hpolled, ?_⟩
    rcases hsince with ⟨_, hown⟩ | ⟨t₁, as, t, hticks, hstart, hgoes⟩
    · exact ⟨by rw [hown], by rw [hown], fun _ => hown⟩
    · obtain ⟨hlatest, herrors⟩ := latest_of_waiting hstart hgoes
      exact ⟨hlatest, herrors, fun hnone => absurd (hticks.symm.trans hnone) (by simp)⟩

/-! ## What the process holds and serves -/

/-- What an answer does to the poller: the page is ingested, and its decode handed on at the end or not at all. -/
theorem resume_pollTick_ok (p : Poller ε) (t : PollTick) (page : EventPage) :
    ((pollTick rt maxPages).resume p t (.ok page)).1.store = p.store.ingest page ∧
    (∀ t' ∈ ((pollTick rt maxPages).resume p t (.ok page)).2.toList, t'.cursor = (p.store.ingest page).cursor) ∧
    (((pollTick rt maxPages).resume p t (.ok page)).1.latest = p.latest ∨
      ((pollTick rt maxPages).resume p t (.ok page)).1.latest = some (decodeEvents rt (p.store.ingest page).raw)) := by
  by_cases hend : (page.events.length = 0 ∨ page.cursor = none ∨ page.cursor = t.cursor)
      ∨ maxPages.getD MAX_PAGES_PER_POLL ≤ t.page + 1
  · have hpiece : (pollTick rt maxPages).resume p t (.ok page)
        = (Poller.handOn rt { p with store := p.store.ingest page } (t.ingested + page.events.length), none) :=
      if_pos hend
    rw [hpiece]
    unfold Poller.handOn
    split
    · exact ⟨rfl, fun t' ht' => absurd ht' (by simp), Or.inl rfl⟩
    · exact ⟨rfl, fun t' ht' => absurd ht' (by simp), Or.inr rfl⟩
  · have hpiece : (pollTick rt maxPages).resume p t (.ok page)
        = ({ p with store := p.store.ingest page },
            some { page := t.page + 1, ingested := t.ingested + page.events.length,
                   cursor := (p.store.ingest page).cursor }) := if_neg hend
    rw [hpiece]
    refine ⟨rfl, ?_, Or.inl rfl⟩
    intro t' ht'
    obtain rfl : t' = _ := by simpa using ht'
    rfl

/-- Only the page's own cursor moves the store's. -/
theorem EventStore.foldl_insert_nextCursor (store : EventStore) (events : List RawEvent) :
    (events.foldl insert store).nextCursor = store.nextCursor := by
  induction events generalizing store with
  | nil => rfl
  | cons event events ih =>
      rw [List.foldl_cons, ih]
      unfold insert
      split <;> rfl

theorem take_of_prefix {l l' : List RawEvent} {n : Nat} (h : l <+: l') (hn : n ≤ l.length) : l'.take n = l.take n := by
  obtain ⟨rest, rfl⟩ := h
  exact List.take_append_of_le_length hn

/-- The process holds the first `n` events of the ledger, and has handed on the decode of the first `k`. -/
structure Follows (rt : Runtime) (position : String → Nat) (s : Realtime ε) (n k : Nat) : Prop where
  recorded : Realtime.Recorded s.world s.history
  held     : s.polls.own.store.byId = s.log.take n
  within   : n ≤ s.log.length
  behind   : k ≤ n
  decoded  : s.served rt = decodeEvents rt (s.log.take k)
  /-- It resumes inside what it holds, or right behind it. -/
  resumes  : ∀ c, s.polls.own.store.nextCursor = some c → position c ≤ n
  waiting  : ∀ t ∈ s.polls.ticks, ∀ c, t.cursor = some c → position c ≤ n

/-- What the polls can read is ordered as the ledger is. -/
theorem Realtime.Recorded.ordered (h : Realtime.Recorded s.world s.history) : ChainOrdered s.log :=
  ⟨h.ids.sublist (List.filter_sublist.map RawEvent.id), h.ledgers.sublist List.filter_sublist⟩

theorem Follows.boot (h : Realtime.Recorded w history) :
    Follows rt position (.boot w history configured latest t₀ : Realtime ε) 0 0 where
  recorded := h
  held     := rfl
  within   := Nat.zero_le _
  behind   := le_refl 0
  decoded  := rfl
  resumes c hc := absurd hc (by simp [Realtime.boot, Loop.idle, Poller.fresh, EventStore.empty])
  waiting t ht := absurd ht (by simp [Realtime.boot, Loop.idle])

/-- A page extends what is held to its end. -/
theorem Follows.ingest {n k : Nat} {t : PollTick} {page : EventPage} (h : Follows rt position s n k)
    (ht : t ∈ s.polls.ticks) (ha : page.Answers position s.log t.cursor) :
    ∃ m, n ≤ m ∧ m ≤ s.log.length ∧ (s.polls.own.store.ingest page).byId = s.log.take m ∧
      ∀ c, (s.polls.own.store.ingest page).nextCursor = some c → position c ≤ m := by
  obtain ⟨⟨len, hslice⟩, hnext⟩ := ha
  set start := (t.cursor.map position).getD 0 with hstart
  have hle : start ≤ n := by
    cases hc : t.cursor with
    | none   =>
        rw [hc] at hstart
        exact hstart ▸ Nat.zero_le n
    | some c =>
        rw [hc] at hstart
        exact hstart ▸ h.waiting t ht c hc
  have hlen : page.events.length = min len (s.log.length - start) := by
    rw [hslice, List.length_take, List.length_drop]
  have hwithin := h.within
  have hslice' : page.events = (s.log.drop start).take page.events.length := by
    rw [hlen, ← List.length_drop, ← List.take_eq_take_min]
    exact hslice
  refine ⟨max n (start + page.events.length), le_max_left _ _, max_le hwithin (by omega), ?_, ?_⟩
  · rw [EventStore.ingest_byId, h.held]
    exact (congrArg (absorb RawEvent.id (s.log.take n)) hslice').trans (absorb_slice h.recorded.ordered.1 hle)
  · intro c hc
    have hor : page.cursor.or (page.events.foldl EventStore.insert s.polls.own.store).nextCursor = some c := hc
    have hkept := EventStore.foldl_insert_nextCursor s.polls.own.store page.events
    cases hp : page.cursor with
    | none =>
        rw [hp, Option.none_or, hkept] at hor
        exact le_trans (h.resumes c hor) (le_max_left _ _)
    | some c' =>
        rw [hp, Option.some_or] at hor
        rw [← Option.some.inj hor, hnext c' hp]
        exact le_max_right _ _

/-- What the timer and the calls do to the loop: nothing to the poller, and a tick that starts, starts where the
    poller resumes. -/
theorem Follows.of_same {n k : Nat} {polls : Loop (Poller ε) PollTick} (h : Follows rt position s n k)
    (hown : polls.own = s.polls.own)
    (hticks : ∀ t ∈ polls.ticks, t ∈ s.polls.ticks ∨ t.cursor = s.polls.own.store.cursor) :
    Follows rt position { s with polls := polls } n k where
  recorded := h.recorded
  held     := (congrArg (fun p => p.store.byId) hown).trans h.held
  within   := h.within
  behind   := h.behind
  decoded  := (congrArg (fun p => p.latest.getD (decodeEvents rt [])) hown).trans h.decoded
  resumes c hc := h.resumes c ((congrArg (fun p => p.store.nextCursor) hown).symm.trans hc)
  waiting t ht c hc := by
    rcases hticks t ht with hold | hnew
    · exact h.waiting t hold c hc
    · exact h.resumes c (hnew.symm.trans hc)

theorem cursor_of_start {t : PollTick} (h : t ∈ ((pollTick rt maxPages).start p).toList) :
    t.cursor = p.store.cursor := by
  obtain ⟨_, rfl⟩ := start_pollTick (Option.mem_toList.mp h)
  rfl

/-- **Whatever happens, the process holds a prefix of the ledger's log and serves one, and neither shrinks.** -/
theorem Follows.step {n k : Nat} (h : Follows rt position s n k)
    (hs : Realtime.HonestStep home rt position s x s') :
    ∃ m j, n ≤ m ∧ k ≤ j ∧ s.log <+: s'.log ∧ Follows rt position s' m j := by
  obtain ⟨hs, _, hh⟩ := hs
  cases hs with
  | @chain a w' history' _ hhistory =>
      have hrec : Realtime.Recorded w' history' := hh
      have hlog : s.log <+: ({ s with world := w', history := history' } : Realtime ε).log := hhistory.filter _
      have hn := take_of_prefix hlog h.within
      have hk := take_of_prefix hlog (le_trans h.behind h.within)
      refine ⟨n, k, le_refl n, le_refl k, hlog, ?_⟩
      exact
        { recorded := hrec
          held     := h.held.trans hn.symm
          within   := le_trans h.within hlog.length_le
          behind   := h.behind
          decoded  := h.decoded.trans (congrArg (decodeEvents rt) hk.symm)
          resumes  := h.resumes
          waiting  := h.waiting }
  | clock _ => exact ⟨n, k, le_refl n, le_refl k, List.prefix_refl _, { h with }⟩
  | snapshot _ => exact ⟨n, k, le_refl n, le_refl k, List.prefix_refl _, { h with }⟩
  | poll hm =>
      cases hm with
      | called _ hnone =>
          exact ⟨n, k, le_refl n, le_refl k, List.prefix_refl _,
            h.of_same rfl fun t ht => Or.inr (@cursor_of_start _ rt none s.polls.own t ht)⟩
      | armed _ => exact ⟨n, k, le_refl n, le_refl k, List.prefix_refl _, h.of_same rfl fun t ht => Or.inl ht⟩
      | skipped _ _ => exact ⟨n, k, le_refl n, le_refl k, List.prefix_refl _, h.of_same rfl fun t ht => Or.inl ht⟩
      | fired _ _ =>
          refine ⟨n, k, le_refl n, le_refl k, List.prefix_refl _, h.of_same rfl fun t ht => ?_⟩
          rcases List.mem_append.mp ht with ht | ht
          · exact Or.inl ht
          · exact Or.inr (@cursor_of_start _ rt none s.polls.own t ht)
      | stopped => exact ⟨n, k, le_refl n, le_refl k, List.prefix_refl _, h.of_same rfl fun t ht => Or.inl ht⟩
      | @resumed before after t a hticks =>
          have ht : t ∈ s.polls.ticks := by
            rw [hticks]
            exact List.mem_append_right before List.mem_cons_self
          have hothers : ∀ t' ∈ before ++ after, t' ∈ s.polls.ticks := by
            intro t' ht'
            rw [hticks]
            rcases List.mem_append.mp ht' with hb | ha
            · exact List.mem_append_left _ hb
            · exact List.mem_append_right before (List.mem_cons_of_mem t ha)
          cases a with
          | error error =>
              -- what the source throws ends the poll where it stands
              refine ⟨n, k, le_refl n, le_refl k, List.prefix_refl _, ?_⟩
              refine { h with waiting := fun t' ht' => h.waiting t' (hothers t' ?_) }
              have hrest : t' ∈ before ++ [] ++ after := ht'
              rwa [List.append_nil] at hrest
          | ok page =>
              obtain ⟨m, hnm, hm, hbyId, hcursor⟩ := h.ingest ht (hh t ht)
              obtain ⟨hstore, hnext, hlatest⟩ := @resume_pollTick_ok _ rt none s.polls.own t page
              set own' := ((pollTick rt none).resume s.polls.own t (.ok page)).1 with hown
              have hwaiting : ∀ t' ∈ before ++ ((pollTick rt none).resume s.polls.own t (.ok page)).2.toList ++ after,
                  ∀ c, t'.cursor = some c → position c ≤ m := by
                intro t' ht' c hc
                rw [List.append_assoc, List.mem_append, List.mem_append] at ht'
                rcases ht' with hb | hn | ha
                · exact le_trans (h.waiting t' (hothers t' (List.mem_append_left _ hb)) c hc) hnm
                · exact hcursor c ((hnext t' hn).symm.trans hc)
                · exact le_trans (h.waiting t' (hothers t' (List.mem_append_right _ ha)) c hc) hnm
              have hheld : own'.store.byId = s.log.take m := by
                rw [hstore]
                exact hbyId
              have hresumes : ∀ c, own'.store.nextCursor = some c → position c ≤ m := by
                intro c hc
                rw [hstore] at hc
                exact hcursor c hc
              rcases hlatest with hsame | hdecode
              · refine ⟨m, k, hnm, le_refl k, List.prefix_refl _, ?_⟩
                exact
                  { recorded := h.recorded
                    held     := hheld
                    within   := hm
                    behind   := le_trans h.behind hnm
                    decoded  := (congrArg (fun d => d.getD (decodeEvents rt [])) hsame).trans h.decoded
                    resumes  := hresumes
                    waiting  := hwaiting }
              · refine ⟨m, m, hnm, le_trans h.behind hnm, List.prefix_refl _, ?_⟩
                have hraw : (s.polls.own.store.ingest page).raw = s.log.take m := by
                  unfold EventStore.raw
                  rw [hbyId]
                  exact h.recorded.ordered.sort_take m
                exact
                  { recorded := h.recorded
                    held     := hheld
                    within   := hm
                    behind   := le_refl m
                    decoded  := (congrArg (fun d => d.getD (decodeEvents rt [])) hdecode).trans
                      (congrArg (decodeEvents rt) hraw)
                    resumes  := hresumes
                    waiting  := hwaiting }

/-- Along a run. -/
theorem Follows.run {n k : Nat} {tr : List (Event (Realtime ε) (Happening ε))}
    (hr : Run (Realtime.HonestStep home rt position) s tr s') (h : Follows rt position s n k) :
    ∃ m j, n ≤ m ∧ k ≤ j ∧ s.log <+: s'.log ∧ Follows rt position s' m j := by
  induction hr generalizing n k with
  | nil s => exact ⟨n, k, le_refl n, le_refl k, List.prefix_refl _, h⟩
  | cons hs _ ih =>
      obtain ⟨m, j, hnm, hkj, hlog, hnext⟩ := h.step hs
      obtain ⟨m', j', hm, hj, hlog', hlast⟩ := ih hnext
      exact ⟨m', j', le_trans hnm hm, le_trans hkj hj, hlog.trans hlog', hlast⟩

/-! ## A prefix of the log is a past -/

/-- The world of the process moves by steps of the chain. -/
theorem world_of_step (hs : Realtime.HonestStep home rt position s x s') :
    s'.world = s.world ∨ ∃ a, HomeStep home s.world a s'.world := by
  obtain ⟨hs, hh⟩ := hs
  cases hs with
  | chain _ _  => exact Or.inr ⟨_, hh.1⟩
  | clock _    => exact Or.inl rfl
  | poll _     => exact Or.inl rfl
  | snapshot _ => exact Or.inl rfl

/-- **The first events of a world are all the events of a world it went through.** -/
theorem exists_past (hr : Reachable Genesis (HomeStep home) w) {k : Nat} (hk : k ≤ w.vault.events.length) :
    ∃ v, Reachable Genesis (HomeStep home) v ∧ (∃ tr, Run (HomeStep home) v tr w) ∧
      v.vault.events = w.vault.events.take k := by
  refine hr.induct (P := fun w => ∀ k ≤ w.vault.events.length, ∃ v, Reachable Genesis (HomeStep home) v ∧
    (∃ tr, Run (HomeStep home) v tr w) ∧ v.vault.events = w.vault.events.take k) ?_ ?_ k hk
  · intro v hg k hk
    have hev : v.vault.events = [] := by
      obtain ⟨admin, keeper, config, hv⟩ := hg.constructed
      rw [hv]
      rfl
    exact ⟨v, .of_init hg, ⟨[], .nil v⟩, by rw [hev, List.take_nil]⟩
  · intro v a v' hv ih hs k hk
    have hstep : Run (HomeStep home) v [⟨v, a, v'⟩] v' := .single hs
    have hearlier : ∀ {k : Nat}, k ≤ v.vault.events.length → v'.vault.events.take k = v.vault.events.take k →
        ∃ u, Reachable Genesis (HomeStep home) u ∧ (∃ tr, Run (HomeStep home) u tr v') ∧
          u.vault.events = v'.vault.events.take k := by
      intro k hk htake
      obtain ⟨u, hu, ⟨tr, htr⟩, hev⟩ := ih k hk
      exact ⟨u, hu, ⟨_, htr.append hstep⟩, hev.trans htake.symm⟩
    rcases hs.1.published (reachable_wf (reachable_of_home hv)) with ⟨hev, _⟩ | ⟨e, hev, _⟩
    · rw [hev] at hk
      exact hearlier hk (by rw [hev])
    · by_cases hlast : k = v'.vault.events.length
      · exact ⟨v', hv.tail hs, ⟨[], .nil v'⟩, by rw [hlast, List.take_length]⟩
      · have hlen : v'.vault.events.length = v.vault.events.length + 1 := by
          rw [hev, List.length_append, List.length_singleton]
        have hk' : k ≤ v.vault.events.length := by omega
        refine hearlier hk' ?_
        rw [hev, List.take_append_of_le_length hk']

/-- The served streams are those of a world the chain went through, whose ledger they rebuild. -/
structure ServesPast (home : SoroSense.Address → Currency) (rt : Runtime) (s : Realtime ε) (v : World) : Prop where
  reached : Reachable Genesis (HomeStep home) v
  past    : ∃ tr, Run (HomeStep home) v tr s.world
  log     : ∃ raws, raws <+: s.log ∧ List.Forall₂ RawEvent.Carries raws v.vault.events ∧
    s.served rt = decodeEvents rt raws
  ledger  : ∃ bases, reconstructCostBasis (s.served rt).vaultEvents = .ok bases ∧
    ∀ u c, (basisOf bases (rt.strkey u) c).shares = Vault.balanceOf v u c

/-- When no event is older than the start ledger, the polls can read them all. -/
theorem Realtime.Complete.log_eq (h : s.Complete) : s.log = s.history :=
  List.filter_eq_self.mpr fun event he => decide_eq_true (h event he)

theorem Follows.serves {n k : Nat} (hd : rt.Documented) (h : Follows rt position s n k) (hall : s.Complete)
    (hw : Reachable Genesis (HomeStep home) s.world) : ∃ v, ServesPast home rt s v := by
  have hwithin := le_trans h.behind h.within
  have hlog := hall.log_eq
  have hcarries := h.recorded.carries
  rw [← hlog] at hcarries
  have hlen := hcarries.length_eq
  obtain ⟨v, hv, hpast, hev⟩ := exists_past hw (k := k) (by omega)
  have hcarry : List.Forall₂ RawEvent.Carries (s.log.take k) v.vault.events := by
    rw [hev]
    exact List.forall₂_take k hcarries
  refine ⟨v, hv, hpast, ⟨_, List.take_prefix k _, hcarry, h.decoded⟩, ?_⟩
  obtain ⟨bases, hb⟩ := reconstruct_decoded hd (reachable_of_home hv) hcarry
  refine ⟨bases, ?_, fun u c => (basisOf_mirrors hd (reachable_of_home hv) hcarry hb u c).shares⟩
  rw [h.decoded]
  exact hb

/-- The chain of a process stays reachable. -/
theorem reachable_of_live (hw : Reachable Genesis (HomeStep home) w)
    {tr : List (Event (Realtime ε) (Happening ε))}
    (hr : Run (Realtime.HonestStep home rt position) (.boot w history configured latest t₀) tr s) :
    Reachable Genesis (HomeStep home) s.world := by
  obtain ⟨_, hchain⟩ := hr.observe Realtime.world (fun _ _ _ => world_of_step)
  exact hw.run hchain

/-- **Whatever is served is a past of the chain**, when each pool is named by calls of one currency, the RPC
    answers from the ledger and no event of the vault is older than the start ledger. Whenever a request comes
    in, however the two loops, their answers and the chain have interleaved: the three streams it is served are
    the decode of one prefix of the ledger's record, which is all that the vault had published in a state the
    chain has been in; replaying them rebuilds the share ledger of that state for every holder and currency; and
    what a later request is served extends them. -/
theorem served_is_a_past (hd : rt.Documented) (hw : Reachable Genesis (HomeStep home) w)
    (hrec : Realtime.Recorded w history) {tr tr' : List (Event (Realtime ε) (Happening ε))}
    (hr : Run (Realtime.HonestStep home rt position) (.boot w history configured latest t₀) tr s)
    (hr' : Run (Realtime.HonestStep home rt position) s tr' s') (hall : s'.Complete) :
    (s.served rt).Prefix (s'.served rt) ∧ ∃ v, ServesPast home rt s' v := by
  have hboot : Follows rt position (.boot w history configured latest t₀ : Realtime ε) 0 0 := .boot hrec
  obtain ⟨n, k, _, _, _, hs⟩ := hboot.run hr
  obtain ⟨n', k', _, hk, hlog, hs'⟩ := hs.run hr'
  refine ⟨?_, hs'.serves hd hall (reachable_of_live hw (hr.append hr'))⟩
  rw [hs.decoded, hs'.decoded, ← take_of_prefix hlog (le_trans hs.behind hs.within)]
  exact decodeEvents_take hk

/-! ## A run of the process -/

namespace Realtime

/-- The process after one of its loops made a move. -/
def onPoll (rt : Runtime) (s : Realtime ε) (m : Move (Except ε EventPage)) : Realtime ε :=
  { s with polls := (s.polls.move (pollTick rt none) m).getD s.polls }

def onSnapshot (s : Realtime ε) (m : Move (SnapshotPiece ε)) : Realtime ε :=
  { s with snapshots := (s.snapshots.move (snapshotTick ALL_CURRENCIES) m).getD s.snapshots }

theorem step_onPoll (s : Realtime ε) (m : Move (Except ε EventPage))
    (hm : (s.polls.move (pollTick rt none) m).isSome = true) (hh : s.PageHonest position m) :
    HonestStep home rt position s (.poll m) (s.onPoll rt m) := by
  obtain ⟨polls, hp⟩ := Option.isSome_iff_exists.mp hm
  unfold onPoll
  rw [hp]
  exact ⟨.poll (Loop.step_of_move hp), trivial, hh⟩

theorem step_onSnapshot (s : Realtime ε) (m : Move (SnapshotPiece ε))
    (hm : (s.snapshots.move (snapshotTick ALL_CURRENCIES) m).isSome = true) (hh : s.PriceHonest m) :
    HonestStep home rt position s (.snapshot m) (s.onSnapshot m) := by
  obtain ⟨snapshots, hp⟩ := Option.isSome_iff_exists.mp hm
  unfold onSnapshot
  rw [hp]
  exact ⟨.snapshot (Loop.step_of_move hp), hh, trivial⟩

end Realtime

/-- A deposit put to work, and the same a year later. -/
def placedWorld : World :=
  (World.opening 1000 5000).after
    (setUpPool .usd (.contract 100) 1 1000 ++ joins 2 .usd 1000 ++ [.vault [1] (.allocate (.contract 1) .usd 500)])

def yearLater : World := placedWorld.after [.advance 31536000]

/-- What the vault has published meanwhile, and the ledger's record of it. -/
def placedEvents : List Vault.Event :=
  [.consentSet (.account 2), .deposit (.account 2) .usd 1000 1000, .allocated .usd (.contract 1) 500]

def placedLog : List RawEvent := placedEvents.map fun e => { RawEvent.plain e with ledger := 7 }

theorem placedWorld_reachable : Reachable Genesis (HomeStep fun _ => .usd) placedWorld := by
  refine (Genesis.opening (by decide)).reachable_home ?_
  simp [setUpPool, joins, Action.Respects, Vault.Call.Names]

theorem recorded_placed (h : w.vault.events = placedEvents) : Realtime.Recorded w placedLog where
  carries := h ▸ List.forall₂_map_left_iff.mpr (List.forall₂_same.mpr fun _ _ => ⟨rfl, rfl⟩)
  ids     := by decide +kernel
  ledgers := by simp [placedLog, placedEvents, RawEvent.plain]

/-- One poll of everything there is, at boot. -/
def booted : Realtime String := .boot placedWorld placedLog (some 7) 9 0

def everything : EventPage := { events := placedLog, latestLedger := 1, cursor := none }

def asked : Realtime String := booted.onPoll Runtime.plain .call

def polled : Realtime String := asked.onPoll Runtime.plain (.answer (.ok everything))

theorem polled_run (position : String → Nat) :
    ∃ tr, Run (Realtime.HonestStep (fun _ => .usd) Runtime.plain position) booted tr polled := by
  have hcalled : Realtime.HonestStep (fun _ => .usd) Runtime.plain position booted (.poll .call) asked :=
    Realtime.step_onPoll booted .call rfl trivial
  have hhonest : asked.PageHonest position (.answer (.ok everything)) := by
    intro t ht
    obtain rfl : t = { page := 0, ingested := 0, cursor := none } := List.mem_singleton.mp ht
    refine ⟨⟨3, rfl⟩, fun c hc => absurd hc (by simp [everything])⟩
  have hanswered : Realtime.HonestStep (fun _ => .usd) Runtime.plain position asked
      (.poll (.answer (.ok everything))) polled :=
    Realtime.step_onPoll asked _ rfl hhonest
  exact ⟨_, .cons hcalled (.cons hanswered (.nil _))⟩

/-- Its poll was one whole poll, and the readers have the deposit. -/
theorem live_polls_whole_polled :
    (∃ tr' p, Run (Poller.Step Runtime.plain none) (Poller.fresh : Poller String) tr' p ∧ polled.polls.own = p) ∧
      (polled.served Runtime.plain).vaultEvents.length = 1 := by
  obtain ⟨tr, hr⟩ := polled_run fun _ => 0
  obtain ⟨_, _, tr', p, hrun, _, _, hown⟩ := live_polls_whole (hr.weaken fun _ _ _ hs => hs.1)
  exact ⟨⟨tr', p, hrun, hown rfl⟩, by decide +kernel⟩

/-- What they have is a state the vault has been in. -/
theorem served_is_a_past_polled : ∃ v, ServesPast (fun _ => .usd) Runtime.plain polled v := by
  obtain ⟨tr, hr⟩ := polled_run fun _ => 0
  exact (served_is_a_past Runtime.plain_documented placedWorld_reachable (recorded_placed (by decide +kernel)) hr
    (.nil polled) (by decide +kernel)).2

end SoroSense.Backend
