import SoroSense.Backend.Earnings

/-!
# `Properties.Views` — whose events an earnings view depends on

The view is read off the user's own events (`SameEvents.earningsOf_eq`). Whether it is returned at all is
not: every replay goes over the whole list, and one overdrawn withdrawal of anybody ends it. So two lists
with the same events of `u` serve `u` alike exactly when the others overdraw in both or in neither
(`view_isolated_iff`).
-/

namespace SoroSense.Backend

open Fallible

variable {u : Address} {deps : EarningsDeps} {es es₁ es₂ : List VaultEvent} {rates : Currency → Option ℚ}

/-- The user's events, in replay order. -/
def eventsOf (u : Address) (events : List VaultEvent) : List VaultEvent :=
  (inSeqOrder events).filter fun e => decide (e.depositor = u)

/-- An event without its position. -/
def VaultEvent.content (e : VaultEvent) : VaultEvent := { e with seq := 0 }

/-- The same events of `u`, in the same order. -/
def SameEvents (u : Address) (es₁ es₂ : List VaultEvent) : Prop :=
  (eventsOf u es₁).map VaultEvent.content = (eventsOf u es₂).map VaultEvent.content

instance : Decidable (SameEvents u es₁ es₂) :=
  inferInstanceAs (Decidable ((eventsOf u es₁).map VaultEvent.content = (eventsOf u es₂).map VaultEvent.content))

/-! ## What a replay reads of an event -/

theorem mem_eventsOf {e : VaultEvent} : e ∈ eventsOf u es ↔ e ∈ es ∧ e.depositor = u := by
  unfold eventsOf inSeqOrder
  rw [List.mem_filter, Timeline.mem_sortOn, decide_eq_true_iff]

theorem bucketEvents_eq {c : Currency} :
    bucketEvents u c es = (eventsOf u es).filter fun e => decide (e.currency = c) := by
  unfold bucketEvents eventsOf
  rw [List.filter_filter]
  congr 1
  funext e
  rw [← Bool.decide_and]
  exact decide_eq_decide.mpr and_comm

/-- Selecting by time and selecting by depositor commute. -/
theorem eventsOf_upTo {t : Int} : eventsOf u (upTo t es) = upTo t (eventsOf u es) := by
  unfold eventsOf upTo inSeqOrder
  rw [← Timeline.filter_sortOn, List.filter_comm]

theorem replay_content (e : VaultEvent) (b : CostBasis) :
    (e.content.replay b).toOption = (e.replay b).toOption := by
  unfold VaultEvent.replay VaultEvent.content
  cases e.kind with
  | deposit  => rfl
  | withdraw =>
      unfold failIf
      by_cases h : b.shares < e.shares
      · simp only [if_pos h]
        rfl
      · simp only [if_neg h]

theorem account_content {l : List VaultEvent} {b : CostBasis} :
    (costReplay.account b (l.map VaultEvent.content)).toOption = (costReplay.account b l).toOption := by
  induction l generalizing b with
  | nil => rfl
  | cons e l ih =>
      rw [List.map_cons, Keyed.Replay.account_cons, Keyed.Replay.account_cons]
      have hfirst := replay_content e b
      show (e.content.replay b >>= _).toOption = (e.replay b >>= _).toOption
      -- both events are refused, or both lead to the same basis
      cases hc : e.content.replay b <;> cases he : e.replay b <;> rw [hc, he] at hfirst
      case error.error => rfl
      case error.ok    => exact absurd hfirst (by simp [Except.toOption])
      case ok.error    => exact absurd hfirst (by simp [Except.toOption])
      case ok.ok b₁ b₂ =>
          obtain rfl : b₁ = b₂ := Option.some.inj hfirst
          exact ih

/-- Selecting by what a content keeps. -/
theorem map_content_filter {p : VaultEvent → Bool} (hp : ∀ e, p e.content = p e) (l : List VaultEvent) :
    (l.filter p).map VaultEvent.content = (l.map VaultEvent.content).filter p := by
  rw [List.filter_map]
  congr 2
  funext e
  exact (hp e).symm

namespace SameEvents

theorem symm (h : SameEvents u es₁ es₂) : SameEvents u es₂ es₁ := Eq.symm h

theorem upTo (h : SameEvents u es₁ es₂) (t : Int) : SameEvents u (upTo t es₁) (upTo t es₂) := by
  have hp : ∀ e : VaultEvent, decide (e.content.ts.getD 0 ≤ t) = decide (e.ts.getD 0 ≤ t) := fun _ => rfl
  unfold SameEvents
  rw [eventsOf_upTo, eventsOf_upTo]
  unfold Backend.upTo
  rw [map_content_filter hp, map_content_filter hp, h]

/-- Each bucket of `u` gets the same events. -/
theorem bucket (h : SameEvents u es₁ es₂) (c : Currency) :
    (bucketEvents u c es₁).map VaultEvent.content = (bucketEvents u c es₂).map VaultEvent.content := by
  have hp : ∀ e : VaultEvent, decide (e.content.currency = c) = decide (e.currency = c) := fun _ => rfl
  rw [bucketEvents_eq, bucketEvents_eq, map_content_filter hp, map_content_filter hp, h]

theorem basis (h : SameEvents u es₁ es₂) (c : Currency) :
    basisFrom (bucketEvents u c es₁) = basisFrom (bucketEvents u c es₂) := by
  unfold basisFrom
  rw [← account_content, h.bucket c, account_content]

theorem covered (h : SameEvents u es₁ es₂) (c : Currency) :
    Covered 0 (bucketEvents u c es₁) ↔ Covered 0 (bucketEvents u c es₂) := by
  have hopt : (costReplay.account emptyBasis (bucketEvents u c es₁)).toOption
      = (costReplay.account emptyBasis (bucketEvents u c es₂)).toOption := by
    rw [← account_content, h.bucket c, account_content]
  have hiff : ∀ es, Covered 0 (bucketEvents u c es) ↔
      (costReplay.account emptyBasis (bucketEvents u c es)).toOption ≠ none := by
    intro es
    refine (account_isOk_iff (b := emptyBasis)).symm.trans ?_
    cases costReplay.account emptyBasis (bucketEvents u c es) <;> simp [Except.toOption]
  rw [hiff es₁, hiff es₂, hopt]

/-- An event of `u` in one list has its content in the other. -/
theorem exists_mem (h : SameEvents u es₁ es₂) {e : VaultEvent} (he : e ∈ es₁) (hu : e.depositor = u) :
    ∃ e' ∈ es₂, e'.content = e.content := by
  have hmem : e.content ∈ (eventsOf u es₂).map VaultEvent.content := by
    rw [← show _ = _ from h]
    exact List.mem_map_of_mem (mem_eventsOf.mpr ⟨he, hu⟩)
  obtain ⟨e', he', hc⟩ := List.mem_map.mp hmem
  exact ⟨e', (mem_eventsOf.mp he').1, hc⟩

end SameEvents

/-! ## What the view reads -/

/-- The list of events, changed and nothing else. -/
def EarningsDeps.over (deps : EarningsDeps) (events : List VaultEvent) : EarningsDeps :=
  { deps with events := events }

namespace SameEvents

theorem inView_any (h : SameEvents u es₁ es₂) {c : Currency}
    (ha : (es₁.any fun e => inView u deps e && decide (e.currency = c)) = true) :
    (es₂.any fun e => inView u deps e && decide (e.currency = c)) = true := by
  obtain ⟨e, he, hsel⟩ := List.any_eq_true.mp ha
  obtain ⟨hview, hc⟩ := Bool.and_eq_true_iff.mp hsel
  have huser := (of_decide_eq_true hview).1
  obtain ⟨e', he', hcontent⟩ := h.exists_mem he huser
  refine List.any_eq_true.mpr ⟨e', he', ?_⟩
  show (inView u deps e'.content && decide (e'.content.currency = c)) = true
  rw [hcontent]
  exact hsel

theorem untouched_eq (h : SameEvents u es₁ es₂) (c : Currency) :
    untouched u (deps.over es₁) c = untouched u (deps.over es₂) c := by
  have hany : (es₁.any fun e => inView u deps e && decide (e.currency = c))
      = es₂.any fun e => inView u deps e && decide (e.currency = c) :=
    Bool.eq_iff_iff.mpr ⟨h.inView_any, h.symm.inView_any⟩
  unfold untouched
  exact congrArg (fun b => decide (deps.assetValueOf u c = 0) && !b) hany

theorem resolveRates_eq (h : SameEvents u es₁ es₂) (l : List Currency) :
    resolveRates u (deps.over es₁) rates l = resolveRates u (deps.over es₂) rates l := by
  induction l generalizing rates with
  | nil => rfl
  | cons c l ih =>
      have huntouched : untouched u (deps.over es₁) c = untouched u (deps.over es₂) c := h.untouched_eq c
      simp only [resolveRates, huntouched, ih]
      rfl

theorem mem_times (h : SameEvents u es₁ es₂) {t : Int}
    (ht : t ∈ (es₁.filter (inView u deps)).filterMap VaultEvent.ts) :
    t ∈ (es₂.filter (inView u deps)).filterMap VaultEvent.ts := by
  obtain ⟨e, he, hts⟩ := List.mem_filterMap.mp ht
  obtain ⟨hmem, hview⟩ := List.mem_filter.mp he
  obtain ⟨e', he', hcontent⟩ := h.exists_mem hmem (of_decide_eq_true hview).1
  refine List.mem_filterMap.mpr ⟨e', List.mem_filter.mpr ⟨he', ?_⟩, ?_⟩
  · show inView u deps e'.content = true
    rw [hcontent]
    exact hview
  · show e'.content.ts = some t
    rw [hcontent]
    exact hts

theorem sampleTimes_eq (h : SameEvents u es₁ es₂) :
    sampleTimes u (deps.over es₁) = sampleTimes u (deps.over es₂) := by
  unfold sampleTimes
  apply Timeline.distinct_congr
  intro t
  rw [List.mem_append, List.mem_append]
  exact or_congr_right ⟨h.mem_times, h.symm.mem_times⟩

/-- **The view is read off the user's own events.** -/
theorem earningsOf_eq (h : SameEvents u es₁ es₂) :
    earningsOf u (deps.over es₁) rates = earningsOf u (deps.over es₂) rates := by
  have hstate : stateOf u (deps.over es₁) rates = stateOf u (deps.over es₂) rates := by
    funext t
    unfold stateOf
    simp only [show ∀ c, basisFrom (bucketEvents u c (Backend.upTo t (deps.over es₁).events))
      = basisFrom (bucketEvents u c (Backend.upTo t (deps.over es₂).events)) from fun c => (h.upTo t).basis c]
    rfl
  unfold earningsOf
  rw [h.sampleTimes_eq, hstate]
  simp only [show ∀ c, basisFrom (bucketEvents u c (deps.over es₁).events)
    = basisFrom (bucketEvents u c (deps.over es₂).events) from h.basis]
  rfl

/-- The user's own withdrawals are covered in both or in neither. -/
theorem coveredFor_self (h : SameEvents u es₁ es₂) :
    CoveredFor (· = u) (replayed u (deps.over es₁)) ↔ CoveredFor (· = u) (replayed u (deps.over es₂)) := by
  -- the whole list, or one of the samples, whose times are the same
  have himp : ∀ {es₁ es₂}, SameEvents u es₁ es₂ → CoveredFor (· = u) (replayed u (deps.over es₁)) →
      CoveredFor (· = u) (replayed u (deps.over es₂)) := by
    intro es₁ es₂ h hcov l hl v hv c
    obtain rfl : v = u := hv
    rcases List.mem_cons.mp hl with rfl | hl
    · exact (h.covered c).mp (hcov _ List.mem_cons_self v rfl c)
    · obtain ⟨t, ht, rfl⟩ := List.mem_map.mp hl
      rw [← h.sampleTimes_eq] at ht
      exact ((h.upTo t).covered c).mp
        (hcov _ (List.mem_cons_of_mem _ (List.mem_map.mpr ⟨t, ht, rfl⟩)) v rfl c)
  exact ⟨himp h, himp h.symm⟩

end SameEvents

/-- The FX fails iff a touched bucket has no rate. -/
theorem resolveRates_eq_err {l : List Currency} :
    (∃ code error, resolveRates u deps rates l = .err code error) ↔
      ∃ c ∈ l, untouched u deps c = false ∧ ∃ code error, deps.fx c = .err code error := by
  induction l generalizing rates with
  | nil => simp [resolveRates]
  | cons c l ih =>
      rw [List.exists_mem_cons_iff]
      unfold resolveRates
      cases ht : untouched u deps c with
      | true  => simpa using ih
      | false =>
          cases hfx : deps.fx c with
          | err code error => simp
          | ok rate        => simpa using ih

/-- Everybody's withdrawals are covered iff the user's and the others' are. -/
theorem coveredFor_iff {lists : List (List VaultEvent)} :
    CoveredFor (fun _ => True) lists ↔ CoveredFor (· = u) lists ∧ CoveredFor (· ≠ u) lists := by
  constructor
  · intro h
    exact ⟨fun l hl v _ c => h l hl v trivial c, fun l hl v _ c => h l hl v trivial c⟩
  · rintro ⟨hself, hothers⟩ l hl v _ c
    by_cases hv : v = u
    · exact hself l hl v hv c
    · exact hothers l hl v hv c

/-- The same value, offered under two conditions. -/
theorem ite_some_eq_iff {α : Type} {a : α} {p q : Prop} [Decidable p] [Decidable q] :
    ((if p then some a else none) = if q then some a else none) ↔ (p ↔ q) := by
  by_cases hp : p <;> by_cases hq : q <;> simp [hp, hq]

/-- **Two event lists with the same events of `u` serve `u` alike exactly when** a touched bucket has no
    rate, a withdrawal of `u` itself overdraws, or the others overdraw in both lists or in neither. -/
theorem view_isolated_iff (u : Address) (deps : EarningsDeps) (es₁ es₂ : List VaultEvent)
    (h : SameEvents u es₁ es₂) :
    (getEarnings u (deps.over es₁)).toOption = (getEarnings u (deps.over es₂)).toOption ↔
      (∃ c ∈ deps.inUse, untouched u (deps.over es₁) c = false ∧
          ∃ code error, deps.fx c = .err code error) ∨
        ¬ CoveredFor (· = u) (replayed u (deps.over es₁)) ∨
        (CoveredFor (· ≠ u) (replayed u (deps.over es₁)) ↔
          CoveredFor (· ≠ u) (replayed u (deps.over es₂))) := by
  have hfails : (∃ c ∈ deps.inUse, untouched u (deps.over es₁) c = false ∧
        ∃ code error, deps.fx c = .err code error) ↔
      ∃ code error, resolveRates u (deps.over es₁) (fun _ => none) (deps.over es₁).inUse = .err code error :=
    resolveRates_eq_err.symm
  rw [hfails, getEarnings_toOption, getEarnings_toOption,
    show (deps.over es₂).inUse = (deps.over es₁).inUse from rfl, ← h.resolveRates_eq]
  cases hrates : resolveRates u (deps.over es₁) (fun _ => none) (deps.over es₁).inUse with
  | err code error => simp
  | ok rates =>
      have hfx : ¬ ∃ code error, Result.ok rates = Result.err code error := by simp
      have hall₁ : CoveredFor (fun _ => True) (replayed u (deps.over es₁)) ↔ _ := coveredFor_iff (u := u)
      have hall₂ : CoveredFor (fun _ => True) (replayed u (deps.over es₂)) ↔ _ := coveredFor_iff (u := u)
      rw [← h.coveredFor_self] at hall₂
      -- the views agree, so all that can differ is whether they are served
      simp only [h.earningsOf_eq, ite_some_eq_iff, hall₁, hall₂, hfx, false_or]
      rw [and_congr_right_iff, imp_iff_not_or]

/-! ## Alice and Bob -/

def aliceDeps : EarningsDeps :=
  { assetValueOf := fun _ c => if c = .usd then 1000 else 0
    events       := []
    snapshots    := fun _ => []
    fx           := fun _ => .ok 1
    currencies   := none }

def aliceDeposits : VaultEvent := ⟨.deposit, "alice", .usd, 1000, 1000, 1, some 0⟩

def bobDeposits : VaultEvent := ⟨.deposit, "bob", .usd, 5, 5, 2, some 0⟩

def bobRedeems : VaultEvent := ⟨.withdraw, "bob", .usd, 5, 5, 3, some 0⟩

/-- A list of deposits is covered. -/
theorem covered_of_deposits {l : List VaultEvent} (h : ∀ e ∈ l, e.kind = .deposit) (held : Int) :
    Covered held l := by
  induction l generalizing held with
  | nil => trivial
  | cons e l ih =>
      refine ⟨fun hw => ?_, ih (fun e' he => h e' (List.mem_cons_of_mem e he)) _⟩
      rw [h e List.mem_cons_self] at hw
      exact absurd hw (by decide)

theorem coveredFor_of_deposits (h : ∀ e ∈ deps.events, e.kind = .deposit) (who : Address → Prop) :
    CoveredFor who (replayed u deps) := by
  intro l hl v _ c
  refine covered_of_deposits (fun e he => ?_) 0
  have hmem : e ∈ l := Timeline.mem_sortOn.mp (List.mem_filter.mp he).1
  rcases List.mem_cons.mp hl with rfl | hl
  · exact h e hmem
  · obtain ⟨t, _, rfl⟩ := List.mem_map.mp hl
    exact h e (List.mem_filter.mp hmem).1

/-- A deposit of Bob's changes nothing for Alice. -/
theorem view_isolated_iff_bobDeposits :
    (getEarnings "alice" (aliceDeps.over [aliceDeposits])).toOption
      = (getEarnings "alice" (aliceDeps.over [aliceDeposits, bobDeposits])).toOption := by
  refine (view_isolated_iff "alice" aliceDeps _ _ (by decide +kernel)).mpr (Or.inr (Or.inr ?_))
  have hone : ∀ e ∈ (aliceDeps.over [aliceDeposits]).events, e.kind = .deposit := by decide
  have htwo : ∀ e ∈ (aliceDeps.over [aliceDeposits, bobDeposits]).events, e.kind = .deposit := by decide
  exact ⟨fun _ => coveredFor_of_deposits htwo _, fun _ => coveredFor_of_deposits hone _⟩

/-- A withdrawal of Bob's whose deposit is not in the list takes Alice's view away. -/
theorem view_depends_on_bob :
    ¬ ∀ (u : Address) (deps : EarningsDeps) (es₁ es₂ : List VaultEvent),
      (es₁.map VaultEvent.seq).Nodup → (es₂.map VaultEvent.seq).Nodup → SameEvents u es₁ es₂ →
        (getEarnings u (deps.over es₁)).toOption = (getEarnings u (deps.over es₂)).toOption := by
  intro h
  have heq := h "alice" aliceDeps [aliceDeposits] [aliceDeposits, bobRedeems] (by decide) (by decide)
    (by decide +kernel)
  have hone : (getEarnings "alice" (aliceDeps.over [aliceDeposits])).toOption.isSome = true := by decide +kernel
  have htwo : (getEarnings "alice" (aliceDeps.over [aliceDeposits, bobRedeems])).toOption.isSome = false := by
    decide +kernel
  rw [heq, htwo] at hone
  exact absurd hone (by decide)

end SoroSense.Backend
