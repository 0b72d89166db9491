import SoroSense.Backend.Poller

/-!
# `Properties.Publication` — what polling hands to the readers

The store is filled page by page, but a poll decides once, from the events it counted itself, whether to
hand the decode on. A poll that failed mid-drain has therefore left events behind that a later poll hands
on only if it counts one of its own: `published_iff_nothing_hidden` is exactly when that happens in time.
-/

namespace SoroSense.Backend

open Transition

variable {ε : Type} {rt : Runtime} {maxPages : Option Nat} {p p' : Poller ε} {source : EventSource ε}
  {settled : EventStore}

/-- Whatever the store holds was handed on. -/
def Poller.Published (rt : Runtime) (p : Poller ε) : Prop :=
  p.store.byId ≠ [] → p.latest = some (decodeEvents rt p.store.raw)

/-- The store still decodes as it did when it was last settled. -/
def EventStore.DecodesAs (rt : Runtime) (settled now : EventStore) : Prop :=
  now.byId = [] ∨ settled.byId ≠ [] ∧ decodeEvents rt now.raw = decodeEvents rt settled.raw

/-- In every poll that finds nothing, the polls that failed since the last error-free one have ingested
    nothing that shows. `settled` is the store which that one left. -/
def NothingHidden (rt : Runtime) (maxPages : Option Nat) (settled : EventStore) :
    List (Event (Poller ε) (EventSource ε)) → Prop
  | []      => True
  | e :: tr =>
      (e.pre.Quiet maxPages e.label → settled.DecodesAs rt e.pre.store) ∧
      (e.pre.Clean maxPages e.label → NothingHidden rt maxPages e.post.store tr) ∧
      (¬ e.pre.Clean maxPages e.label → NothingHidden rt maxPages settled tr)

/-! ## Since the last error-free poll -/

/-- The poller since an error-free poll that left the store `settled`: events may have come in, but the
    readers still have the decode of `settled`. -/
structure Poller.Since (rt : Runtime) (settled : EventStore) (p : Poller ε) : Prop where
  seen    : settled.byId <+: p.store.byId
  unheard : settled.byId = [] → p.latest = none
  heard   : settled.byId ≠ [] → p.latest = some (decodeEvents rt settled.raw)

namespace Poller

theorem Since.fresh : Since rt .empty (fresh : Poller ε) where
  seen      := List.prefix_refl _
  unheard _ := rfl
  heard h   := absurd rfl h

/-- A poll that failed leaves the readers where they were. -/
theorem Since.failed (h : p.Since rt settled) (hlatest : p'.latest = p.latest)
    (hseen : p.store.byId <+: p'.store.byId) : p'.Since rt settled where
  seen         := h.seen.trans hseen
  unheard hnil := hlatest.trans (h.unheard hnil)
  heard hheld  := hlatest.trans (h.heard hheld)

/-- What is held has been handed on iff it decodes as the settled store does. -/
theorem Since.published_iff (h : p.Since rt settled) : p.Published rt ↔ settled.DecodesAs rt p.store := by
  by_cases hnow : p.store.byId = []
  · exact ⟨fun _ => Or.inl hnow, fun _ hheld => absurd hnow hheld⟩
  by_cases hsettled : settled.byId = []
  · -- nothing was ever handed on
    constructor
    · intro hpub
      exact absurd ((h.unheard hsettled).symm.trans (hpub hnow)) (by simp)
    · rintro (hnil | ⟨hheld, _⟩)
      · exact absurd hnil hnow
      · exact absurd hsettled hheld
  · constructor
    · intro hpub
      exact Or.inr ⟨hsettled, Option.some.inj ((hpub hnow).symm.trans (h.heard hsettled))⟩
    · rintro (hnil | ⟨_, hsame⟩)
      · exact absurd hnil hnow
      · intro _
        rw [h.heard hsettled, hsame]

/-- A poll that found nothing changes neither side. -/
theorem published_of_quiet (hlatest : p'.latest = p.latest) (hseen : p'.store.byId = p.store.byId) :
    p'.Published rt ↔ p.Published rt := by
  unfold Published EventStore.raw
  rw [hlatest, hseen]

/-- An error-free poll settles the store it leaves, once that is handed on. -/
theorem Since.settle (h : p.Since rt settled) (hs : Step rt maxPages p source p')
    (hclean : p.Clean maxPages source) (hpub : p'.Published rt) : p'.Since rt p'.store where
  seen    := List.prefix_refl _
  heard   := hpub
  unheard := by
    intro hnil
    cases hs.effect with
    | failed hdirty _ _ => exact absurd hclean hdirty
    | quiet _ _ hlatest hseen =>
        -- nothing is held, so nothing was held when the store was last settled
        rw [hlatest]
        apply h.unheard
        have hpre := h.seen
        rw [← hseen, hnil] at hpre
        exact List.prefix_nil.mp hpre
    | published _ _ _ _ hheld => exact absurd hnil hheld

/-- **One error-free poll.** It leaves everything handed on iff, should it find nothing, nothing that shows
    came in before it. -/
theorem Since.clean_iff (h : p.Since rt settled) (hs : Step rt maxPages p source p')
    (hclean : p.Clean maxPages source) :
    p'.Published rt ↔ (p.Quiet maxPages source → settled.DecodesAs rt p.store) := by
  cases hs.effect with
  | failed hdirty _ _ => exact absurd hclean hdirty
  | quiet _ hquiet hlatest hseen =>
      rw [published_of_quiet hlatest hseen, h.published_iff]
      exact ⟨fun hd _ => hd, fun hd => hd hquiet⟩
  | published _ hquiet hlatest _ _ =>
      exact ⟨fun _ hq => absurd hq hquiet, fun _ _ => hlatest⟩

theorem Quiet.clean (h : p.Quiet maxPages source) : p.Clean maxPages source := ⟨0, (drained_of_quiet h).1⟩

/-- Along a run of polls from a poller whose readers have the decode of `settled`. -/
theorem Since.published_iff_nothingHidden {tr : List (Event (Poller ε) (EventSource ε))}
    (hrun : Run (Step rt maxPages) p tr p') (h : p.Since rt settled) :
    (∀ e ∈ tr, e.pre.Clean maxPages e.label → e.post.Published rt) ↔
      NothingHidden rt maxPages settled tr := by
  induction hrun generalizing settled with
  | nil p => simp [NothingHidden]
  | @cons p q r source tr hs _ ih =>
      rw [List.forall_mem_cons]
      show _ ↔ (p.Quiet maxPages source → settled.DecodesAs rt p.store) ∧ _ ∧ _
      -- an error-free head settles the store it leaves, one that failed leaves the readers where they were
      by_cases hclean : p.Clean maxPages source
      · constructor
        · rintro ⟨hhead, htail⟩
          have hpub := hhead hclean
          refine ⟨(h.clean_iff hs hclean).mp hpub, fun _ => ?_, fun hdirty => absurd hclean hdirty⟩
          exact (ih (h.settle hs hclean hpub)).mp htail
        · rintro ⟨hquiet, htail, _⟩
          have hpub := (h.clean_iff hs hclean).mpr hquiet
          exact ⟨fun _ => hpub, (ih (h.settle hs hclean hpub)).mpr (htail hclean)⟩
      · have hnext : q.Since rt settled := by
          cases hs.effect with
          | failed _ hlatest hseen => exact h.failed hlatest hseen
          | quiet hok _ _ _        => exact absurd hok hclean
          | published hok _ _ _ _  => exact absurd hok hclean
        constructor
        · rintro ⟨_, htail⟩
          exact ⟨fun hq => absurd hq.clean hclean, fun hok => absurd hok hclean, fun _ => (ih hnext).mp htail⟩
        · rintro ⟨_, _, htail⟩
          exact ⟨fun hok => absurd hok hclean, (ih hnext).mpr (htail hclean)⟩

end Poller

/-! ## Polling from an empty store -/

/-- **After every error-free poll the readers have what the store holds, exactly when** no poll that finds
    nothing comes after polls that failed having ingested something that shows. -/
theorem published_iff_nothing_hidden {tr : List (Event (Poller ε) (EventSource ε))}
    (hrun : Run (Poller.Step rt maxPages) .fresh tr p) :
    (∀ e ∈ tr, e.pre.Clean maxPages e.label →
        e.post.store.byId ≠ [] → e.post.latest = some (decodeEvents rt e.post.store.raw)) ↔
      NothingHidden rt maxPages .empty tr :=
  Poller.Since.fresh.published_iff_nothingHidden hrun

/-- A source with one event to give, and the end of what has closed behind it. -/
def oneEvent : EventSource String := fun page cursor =>
  if page = 0 then .ok ⟨[.plain (.deposit (.account 2) .usd 1000 1000)], 150, some "c1"⟩
  else .ok ⟨[], 150, cursor⟩

/-- The same, with an RPC that fails once the first page is in. -/
def cutOff : EventSource String := fun page cursor =>
  if page = 0 then oneEvent page cursor else .error "rpc unavailable"

/-- A source with nothing to give. -/
def nothingNew : EventSource String := fun _ cursor => .ok ⟨[], 150, cursor⟩

def afterOneEvent : Poller String := Poller.fresh.poll Runtime.plain none oneEvent

def afterCutOff : Poller String := Poller.fresh.poll Runtime.plain none cutOff

/-- A poll that drains one event, then one that finds nothing: the readers have the event. -/
theorem published_iff_nothing_hidden_oneEvent :
    (afterOneEvent.poll Runtime.plain none nothingNew).latest
      = some (decodeEvents Runtime.plain (afterOneEvent.poll Runtime.plain none nothingNew).store.raw) := by
  have hrun : Run (Poller.Step Runtime.plain none) Poller.fresh
      [⟨.fresh, oneEvent, afterOneEvent⟩, ⟨afterOneEvent, nothingNew, _⟩] _ := .cons rfl (.cons rfl (.nil _))
  have hheld : afterOneEvent.store.byId ≠ [] := by
    apply ne_of_apply_ne List.isEmpty
    decide +kernel
  have hfirst : (Poller.fresh : Poller String).Clean none oneEvent := ⟨1, rfl⟩
  have hlast : afterOneEvent.Quiet none nothingNew := Or.inr ⟨_, rfl, rfl⟩
  have hbusy : ¬ (Poller.fresh : Poller String).Quiet none oneEvent := by
    rintro (hcap | ⟨page, hpage, hzero⟩)
    · exact absurd hcap (by simp)
    · obtain rfl := Except.ok.inj hpage
      exact absurd hzero (by decide)
  refine (published_iff_nothing_hidden hrun).mpr ?_ _ (List.mem_cons_of_mem _ List.mem_cons_self) hlast.clean hheld
  refine ⟨fun hq => absurd hq hbusy, fun _ => ⟨fun _ => Or.inr ⟨hheld, rfl⟩, ?_, ?_⟩, fun hd => absurd hfirst hd⟩
  · intro _
    exact trivial
  · intro hd
    exact absurd hlast.clean hd

/-- The poll that drained the event failed on its second page, and the next one finds nothing new: the store
    holds the event and the readers have nothing. -/
theorem poll_hides_ingested :
    ¬ ∀ (tr : List (Event (Poller String) (EventSource String))) (p : Poller String),
      Run (Poller.Step Runtime.plain none) .fresh tr p → ∀ e ∈ tr, e.pre.Clean none e.label →
        e.post.store.byId ≠ [] → e.post.latest = some (decodeEvents Runtime.plain e.post.store.raw) := by
  intro h
  have hrun : Run (Poller.Step Runtime.plain none) Poller.fresh
      [⟨.fresh, cutOff, afterCutOff⟩, ⟨afterCutOff, nothingNew, _⟩] _ := .cons rfl (.cons rfl (.nil _))
  have hheld : (afterCutOff.poll Runtime.plain none nothingNew).store.byId ≠ [] := by
    apply ne_of_apply_ne List.isEmpty
    decide +kernel
  have hlatest : (afterCutOff.poll Runtime.plain none nothingNew).latest.isNone = true := by decide +kernel
  have hquiet : afterCutOff.Quiet none nothingNew := Or.inr ⟨_, rfl, rfl⟩
  have hpub := h _ _ hrun _ (List.mem_cons_of_mem _ List.mem_cons_self) hquiet.clean hheld
  rw [show (afterCutOff.poll Runtime.plain none nothingNew).latest = _ from hpub] at hlatest
  exact absurd hlatest (by simp)

end SoroSense.Backend
