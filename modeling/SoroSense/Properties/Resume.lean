import SoroSense.Backend.OneRead

/-!
# `Properties.Resume` — polling in pieces is reading once

The poller and `readVaultEvents` deduplicate, order and number the events separately. Over a chain-ordered log
delivered in slices (`Lib.Pieces`) both hold the prefix delivered, so both decode the same.

The decode most recently handed on lags behind the store after a poll that failed: `Heard` is how far.
-/

namespace SoroSense.Backend

open Fallible Transition Pieces

variable {ε ε' : Type} {rt : Runtime} {maxPages : Option Nat} {log : List RawEvent} {n m : Nat}
  {p p' : Poller ε} {tr : List (Event (Poller ε) (EventSource ε))}

/-! ## The log and its delivery -/

/-- A log as the chain has it: one `id` an event, ledgers never descending. -/
structure ChainOrdered (log : List RawEvent) : Prop where
  ids     : (log.map RawEvent.id).Nodup
  ledgers : log.Pairwise fun e e' => e.ledger ≤ e'.ledger

/-- The pages one poll takes in. -/
def Poller.pages (maxPages : Option Nat) (p : Poller ε) (source : EventSource ε) : List EventPage :=
  drainPages source (maxPages.getD MAX_PAGES_PER_POLL) 0 p.store

/-- The pages a run of polls takes in. -/
def polledPages (maxPages : Option Nat) (tr : List (Event (Poller ε) (EventSource ε))) : List EventPage :=
  tr.flatMap fun e => e.pre.pages maxPages e.label

/-- The pages deliver the log from its first `n` events to its first `m`. -/
def PagesDeliver (log : List RawEvent) (n : Nat) (pages : List EventPage) (m : Nat) : Prop :=
  Delivers log n (pages.map EventPage.events) m

/-- Each stream of `d` is a prefix of that of `d'`. -/
structure DecodedEvents.Prefix (d d' : DecodedEvents) : Prop where
  vaultEvents : d.vaultEvents <+: d'.vaultEvents
  userEvents  : d.userEvents <+: d'.userEvents
  agentEvents : d.agentEvents <+: d'.agentEvents

/-! ## Decoding a prefix -/

theorem decodeRows_mono {l l' : List RawEvent} (h : l <+: l') : decodeRows rt l <+: decodeRows rt l' := by
  obtain ⟨rest, rfl⟩ := h
  unfold decodeRows
  rw [List.mapIdx_append]
  exact List.prefix_append _ _

/-- **A longer log decodes to longer streams**: the rows already decoded keep their place and their `seq`. -/
theorem decodeEvents_mono {l l' : List RawEvent} (h : l <+: l') :
    (decodeEvents rt l).Prefix (decodeEvents rt l') where
  vaultEvents := (decodeRows_mono h).filterMap Decoded.vault
  userEvents  := (decodeRows_mono h).filterMap Decoded.user
  agentEvents := (decodeRows_mono h).filterMap Decoded.agent

theorem DecodedEvents.Prefix.refl (d : DecodedEvents) : d.Prefix d :=
  ⟨List.prefix_refl _, List.prefix_refl _, List.prefix_refl _⟩

theorem decodeEvents_take (h : n ≤ m) :
    (decodeEvents rt (log.take n)).Prefix (decodeEvents rt (log.take m)) :=
  decodeEvents_mono (List.take_prefix_take_left h)

theorem ChainOrdered.sort_take (h : ChainOrdered log) (n : Nat) :
    Timeline.sortOn RawEvent.ledger (log.take n) = log.take n :=
  Timeline.sortOn_eq_self (h.ledgers.sublist (List.take_sublist n log))

/-- What collects from a prefix is the prefix delivered. -/
theorem ChainOrdered.collect (h : ChainOrdered log) {pages : List EventPage} (hd : PagesDeliver log n pages m) :
    collect (log.take n) pages = log.take m := absorb_delivered h.ids hd

/-! ## One poll -/

namespace Poller

variable {source : EventSource ε}

/-- A poll leaves the store its drain left, whatever the outcome. -/
theorem poll_store : (p.poll rt maxPages source).store = (p.drained maxPages source).1 := by
  unfold poll
  cases hd : p.drained maxPages source with
  | mk store outcome =>
      cases outcome with
      | error error => rfl
      | ok ingested =>
          dsimp only
          split <;> rfl

theorem poll_byId : (p.poll rt maxPages source).store.byId = collect p.store.byId (p.pages maxPages source) := by
  rw [poll_store]
  exact (drain_byId _ _ _ _).1

theorem watermark_le_poll : p.store.watermark ≤ (p.poll rt maxPages source).store.watermark := by
  rw [poll_store]
  exact (drain_byId _ _ _ _).2

/-- The poller holds the first `n` events. -/
def Holds (log : List RawEvent) (n : Nat) (p : Poller ε) : Prop := p.store.byId = log.take n

theorem Holds.raw (h : p.Holds log n) (hlog : ChainOrdered log) : p.store.raw = log.take n := by
  unfold EventStore.raw
  rw [h]
  exact hlog.sort_take n

theorem Holds.poll (h : p.Holds log n) (hlog : ChainOrdered log)
    (hd : PagesDeliver log n (p.pages maxPages source) m) : (p.poll rt maxPages source).Holds log m := by
  unfold Holds
  rw [poll_byId, h]
  exact hlog.collect hd

/-- What the readers were last handed since the poller `p` held the first `n` of now `m` events: what they had,
    or the decode of a prefix no shorter than that. -/
def Heard (rt : Runtime) (log : List RawEvent) (p : Poller ε) (n : Nat) (p' : Poller ε) (m : Nat) : Prop :=
  p'.latest = p.latest ∨ ∃ k, n ≤ k ∧ k ≤ m ∧ p'.latest = some (decodeEvents rt (log.take k))

/-- A poll hands on the decode of the prefix it holds, or nothing. -/
theorem Holds.latest_poll (h : (p.poll rt maxPages source).Holds log m) (hlog : ChainOrdered log) :
    (p.poll rt maxPages source).latest = p.latest ∨
      (p.poll rt maxPages source).latest = some (decodeEvents rt (log.take m)) := by
  have heff : Effect rt maxPages p source (p.poll rt maxPages source) := poll_effect
  cases heff with
  | failed _ hlatest _         => exact Or.inl hlatest
  | quiet _ _ hlatest _        => exact Or.inl hlatest
  | published _ _ hlatest _ _  =>
      rw [h.raw hlog] at hlatest
      exact Or.inr hlatest

end Poller

/-! ## A run of polls -/

/-- **What a run of polls holds and has handed on.** -/
theorem run_holds (hlog : ChainOrdered log) (hr : Run (Poller.Step rt maxPages) p tr p') (h : p.Holds log n)
    (hd : PagesDeliver log n (polledPages maxPages tr) m) :
    n ≤ m ∧ p'.Holds log m ∧ p.store.watermark ≤ p'.store.watermark ∧ p.Heard rt log n p' m := by
  induction hr generalizing n with
  | nil p =>
      cases hd
      exact ⟨le_refl _, h, le_refl _, Or.inl rfl⟩
  | @cons p p₁ p' source tr hs _ ih =>
      obtain rfl : p.poll rt maxPages source = p₁ := hs
      unfold PagesDeliver polledPages at hd
      rw [List.flatMap_cons, List.map_append] at hd
      obtain ⟨k, hfirst, hrest⟩ := hd.split
      have hn : n ≤ k := hfirst.le
      have hholds : (p.poll rt maxPages source).Holds log k := h.poll hlog hfirst
      obtain ⟨hk, hlast, hmark, hheard⟩ := ih hholds hrest
      refine ⟨le_trans hn hk, hlast, le_trans Poller.watermark_le_poll hmark, ?_⟩
      rcases hheard with hsame | ⟨j, hkj, hjm, hj⟩
      · rcases hholds.latest_poll hlog with hlatest | hlatest
        · exact Or.inl (hsame.trans hlatest)
        · exact Or.inr ⟨k, hn, hk, hsame.trans hlatest⟩
      · exact Or.inr ⟨j, le_trans hn hkj, hjm, hj⟩

theorem Poller.holds_fresh : (Poller.fresh : Poller ε).Holds log 0 := rfl

/-- Every poll without an error leaves the readers with the decode of the store, once one has arrived. -/
theorem latest_of_clean (hr : Run (Poller.Step rt maxPages) p tr p')
    (hclean : ∀ e ∈ tr, e.pre.Clean maxPages e.label)
    (h : p.latest.getD (decodeEvents rt []) = decodeEvents rt p.store.raw) :
    p'.latest.getD (decodeEvents rt []) = decodeEvents rt p'.store.raw := by
  refine (hr.invariant_under
    (I := fun q => q.latest.getD (decodeEvents rt []) = decodeEvents rt q.store.raw) (P := fun _ => True)
    (fun q source q' hq hs hc => ⟨trivial, ?_⟩) h hclean).1
  cases hs.effect with
  | failed hdirty _ _ => exact absurd hc hdirty
  | quiet _ _ hlatest hseen =>
      unfold EventStore.raw at hq ⊢
      rw [hlatest, hseen]
      exact hq
  | published _ _ hlatest _ _ =>
      rw [hlatest]
      rfl

/-- What a read that returned decoded. -/
theorem readVaultEvents_decoded (hlog : ChainOrdered log) {source : EventSource ε'} {d : DecodedVaultEvents}
    (h : readVaultEvents rt source = .ok d) (hd : PagesDeliver log 0 (readPages source MAX_PAGES 0 .start) m) :
    d.toDecodedEvents = decodeEvents rt (log.take m) := by
  obtain ⟨r, hr, hd'⟩ := bind_eq_ok.mp h
  have hraw : r.raw = log.take m := by
    rw [readLoop_raw (r := Reading.start) rfl hr]
    exact hlog.collect hd
  rw [← ok_eq_ok.mp hd']
  show decodeEvents rt (Timeline.sortOn RawEvent.ledger r.raw) = _
  rw [hraw, hlog.sort_take]

/-- **Polling in any number of pieces is reading once.** Over a chain-ordered log, a run of polls that took in
    the first `n₁` events and a later one that took in the first `n₂`, errors and page caps among them: the
    store holds the prefix delivered; the watermark is not rewound; the streams decoded before are prefixes of
    those decoded after, in the store and with the readers; and where no poll met an error, the readers have
    what a `readVaultEvents` that took in as much returns. -/
theorem polled_as_read_once (hlog : ChainOrdered log) {p₁ p₂ : Poller ε}
    {tr₁ tr₂ : List (Event (Poller ε) (EventSource ε))} {n₁ n₂ : Nat}
    (hr₁ : Run (Poller.Step rt maxPages) .fresh tr₁ p₁) (hr₂ : Run (Poller.Step rt maxPages) p₁ tr₂ p₂)
    (hd₁ : PagesDeliver log 0 (polledPages maxPages tr₁) n₁)
    (hd₂ : PagesDeliver log n₁ (polledPages maxPages tr₂) n₂) :
    p₁.store.raw = log.take n₁ ∧ p₂.store.raw = log.take n₂ ∧
    p₁.store.watermark ≤ p₂.store.watermark ∧
    (decodeEvents rt p₁.store.raw).Prefix (decodeEvents rt p₂.store.raw) ∧
    (∀ d₁, p₁.latest = some d₁ → ∃ d₂, p₂.latest = some d₂ ∧ d₁.Prefix d₂) ∧
    (∀ (source : EventSource ε') (d : DecodedVaultEvents),
      (∀ e ∈ tr₁ ++ tr₂, e.pre.Clean maxPages e.label) → readVaultEvents rt source = .ok d →
      PagesDeliver log 0 (readPages source MAX_PAGES 0 .start) n₂ →
      p₂.latest.getD (decodeEvents rt []) = d.toDecodedEvents) := by
  obtain ⟨_, hholds₁, _, hheard₁⟩ := run_holds hlog hr₁ Poller.holds_fresh hd₁
  obtain ⟨hn, hholds₂, hmark, hheard₂⟩ := run_holds hlog hr₂ hholds₁ hd₂
  have hraw₁ := hholds₁.raw hlog
  have hraw₂ := hholds₂.raw hlog
  refine ⟨hraw₁, hraw₂, hmark, ?_, ?_, ?_⟩
  · rw [hraw₁, hraw₂]
    exact decodeEvents_take hn
  · intro d₁ hlatest
    rcases hheard₂ with hsame | ⟨k₂, hk₂, _, hlatest₂⟩
    · exact ⟨d₁, hsame.trans hlatest, .refl d₁⟩
    · refine ⟨_, hlatest₂, ?_⟩
      -- what the readers had is the decode of a prefix too
      rcases hheard₁ with hfresh | ⟨k₁, _, hk₁, hlatest₁⟩
      · exact absurd (hlatest.symm.trans hfresh) (by simp [Poller.fresh])
      · obtain rfl := Option.some.inj (hlatest.symm.trans hlatest₁)
        exact decodeEvents_take (le_trans hk₁ hk₂)
  · intro source d hclean hread hpages
    rw [latest_of_clean (hr₁.append hr₂) hclean rfl, hraw₂, readVaultEvents_decoded hlog hread hpages]

/-- Three freezes in two ledgers. -/
def frozenLog : List RawEvent :=
  [{ RawEvent.plain (.frozen (.contract 1)) with id := "1", ledger := 5 },
    { RawEvent.plain (.frozen (.contract 2)) with id := "2", ledger := 5 },
    { RawEvent.plain (.frozen (.contract 1)) with id := "3", ledger := 6 }]

/-- The first two of them, and the last two. -/
def firstPage : EventPage := { events := frozenLog.take 2, latestLedger := 5, cursor := some "2" }
def secondPage : EventPage := { events := (frozenLog.drop 1).take 2, latestLedger := 6, cursor := none }

/-- A source of one page, and one of both. -/
def onePage (page : EventPage) : EventSource Unit := fun _ _ => .ok page
def bothPages : EventSource Unit := fun call _ => .ok (if call = 0 then firstPage else secondPage)

/-- The poller after a poll of the first page, and after another of the second, one page a poll. -/
def halfRead : Poller Unit := Poller.fresh.poll .plain (some 1) (onePage firstPage)
def allRead : Poller Unit := halfRead.poll .plain (some 1) (onePage secondPage)

/-- The second page repeats the second event, and nothing shows of it. -/
theorem polled_as_read_once_frozenLog :
    allRead.store.raw = frozenLog.take 3 ∧
      allRead.latest.getD (decodeEvents .plain []) = decodeEvents .plain (frozenLog.take 3) := by
  have hlog : ChainOrdered frozenLog := ⟨by decide, by simp [frozenLog]⟩
  have hr₁ : Run (Poller.Step .plain (some 1)) .fresh [⟨.fresh, onePage firstPage, halfRead⟩] halfRead :=
    .single rfl
  have hr₂ : Run (Poller.Step .plain (some 1)) halfRead [⟨halfRead, onePage secondPage, allRead⟩] allRead :=
    .single rfl
  have hd₁ : Delivers frozenLog 0 [(frozenLog.drop 0).take 2] 2 := .piece (by decide) (by decide) (.done 2)
  have hd₂ : Delivers frozenLog 2 [(frozenLog.drop 1).take 2] 3 := .piece (by decide) (by decide) (.done 3)
  have hboth : Delivers frozenLog 0 [(frozenLog.drop 0).take 2, (frozenLog.drop 1).take 2] 3 := hd₁.append hd₂
  obtain ⟨_, hraw, _, _, _, hread⟩ :=
    @polled_as_read_once Unit Unit .plain (some 1) frozenLog hlog halfRead allRead _ _ 2 3 hr₁ hr₂ hd₁ hd₂
  have hclean : ∀ e ∈ [(⟨.fresh, onePage firstPage, halfRead⟩ : Event (Poller Unit) (EventSource Unit)),
      ⟨halfRead, onePage secondPage, allRead⟩], e.pre.Clean (some 1) e.label := by
    intro e he
    rcases List.mem_cons.mp he with rfl | he
    · exact ⟨2, rfl⟩
    · obtain rfl := List.mem_singleton.mp he
      exact ⟨2, rfl⟩
  exact ⟨hraw, hread bothPages _ hclean rfl hboth⟩

end SoroSense.Backend
