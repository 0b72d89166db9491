import Mathlib.Algebra.Order.Group.Defs
import Mathlib.Algebra.BigOperators.Group.List.Basic
import Mathlib.Tactic.Abel

/-!
# `Lib.Transition` — runs of a labelled transition system

A system is a step relation `step : σ → α → σ → Prop`. A **run** records every transition it takes
(`Event`: state before, label, state after), so a fact about a run may speak of its states, its labels
and the order they come in. The rules below are the only inductions over runs a development needs:

* `Run.invariant` / `Run.invariant_events` / `Run.invariant_under` — what one step preserves, a run preserves,
  and what it establishes meanwhile holds all along;
* `Run.pairwise_of_kept` — what a transition leaves behind and no later one clears, each later one finds;
* `Run.const` / `Run.exists_entry` / `Run.exists_change` — what no step changes, no run changes, and what a
  run brought about, one of its steps did;
* `Run.map` — a function that maps steps to steps maps runs to runs;
* `Run.lift` — a relation under which each step of one system is matched by a step of another matches runs;
* `Run.observe` — a part of the state that each step leaves alone or moves by a step of its own makes a run;
* `Run.sum_le` / `Run.sum_eq` — per-step bounds add up along a run;
* `Run.forall_post_iff` — a property holds all along a run exactly when no step breaks it;
* `Run.lingers_iff` — a property that some steps bring about and others clear holds at the end exactly when
  it was brought about and not cleared since;
* `Reachable.induct` — induction over reachable states.
-/

namespace Transition

universe u v w

variable {σ : Type u} {α : Type v}

/-- One transition taken by a run. -/
structure Event (σ : Type u) (α : Type v) where
  pre   : σ
  label : α
  post  : σ

/-- `Run step s tr t`: the transitions `tr`, in order, lead from `s` to `t`. -/
inductive Run (step : σ → α → σ → Prop) : σ → List (Event σ α) → σ → Prop where
  | nil (s : σ) : Run step s [] s
  | cons {s t u : σ} {a : α} {tr : List (Event σ α)} :
      step s a t → Run step t tr u → Run step s (⟨s, a, t⟩ :: tr) u

/-- The states some run from an initial state ends in. -/
def Reachable (init : σ → Prop) (step : σ → α → σ → Prop) (s : σ) : Prop :=
  ∃ i tr, init i ∧ Run step i tr s

variable {step : σ → α → σ → Prop} {init : σ → Prop}

/-! ## Composing runs -/

theorem Run.append {s t u : σ} {tr tr' : List (Event σ α)}
    (h : Run step s tr t) (h' : Run step t tr' u) : Run step s (tr ++ tr') u := by
  induction h with
  | nil s => exact h'
  | cons hs _ ih => exact .cons hs (ih h')

theorem Run.single {s t : σ} {a : α} (h : step s a t) : Run step s [⟨s, a, t⟩] t :=
  .cons h (.nil t)

/-- A run under a step relation is a run under any weaker one. -/
theorem Run.weaken {step' : σ → α → σ → Prop} (h : ∀ s a t, step s a t → step' s a t)
    {s t : σ} {tr : List (Event σ α)} (hr : Run step s tr t) : Run step' s tr t := by
  induction hr with
  | nil s => exact .nil s
  | cons hs _ ih => exact .cons (h _ _ _ hs) ih

/-- A run whose labels all satisfy `Q` is a run of the `Q`-steps. -/
theorem Run.restrict {Q : α → Prop} {s t : σ} {tr : List (Event σ α)} (h : Run step s tr t)
    (hQ : ∀ e ∈ tr, Q e.label) : Run (fun s a t => step s a t ∧ Q a) s tr t := by
  induction h with
  | nil s => exact .nil s
  | cons hs _ ih =>
      have h₁ := hQ _ List.mem_cons_self
      exact .cons ⟨hs, h₁⟩ (ih (fun e he => hQ e (List.mem_cons_of_mem _ he)))

/-- **Simulation by a function.** If `f` maps the states and `g` the labels of every step of `step` to a
    step of `step'`, it maps runs to runs. -/
theorem Run.map {σ' α' : Type w} {step' : σ' → α' → σ' → Prop} (f : σ → σ') (g : Event σ α → α')
    {s t : σ} {tr : List (Event σ α)} (h : Run step s tr t)
    (hstep : ∀ e ∈ tr, step' (f e.pre) (g e) (f e.post)) :
    Run step' (f s) (tr.map fun e => ⟨f e.pre, g e, f e.post⟩) (f t) := by
  induction h with
  | nil s => exact .nil (f s)
  | cons _ _ ih =>
      have h₁ := hstep _ List.mem_cons_self
      exact .cons h₁ (ih (fun e he => hstep e (List.mem_cons_of_mem _ he)))

/-- **Forward simulation.** If from related states every `Q`-step of `step` is matched by a step of `step'` that
    leads to related states, a run of `Q`-steps is matched by a run. -/
theorem Run.lift {σ' α' : Type w} {step' : σ' → α' → σ' → Prop} {R : σ → σ' → Prop} {Q : α → Prop} {f : α → α'}
    (hstep : ∀ s a t x, R s x → step s a t → Q a → ∃ y, step' x (f a) y ∧ R t y)
    {s t : σ} {tr : List (Event σ α)} (h : Run step s tr t) (hQ : ∀ e ∈ tr, Q e.label) {x : σ'} (hx : R s x) :
    ∃ tr' y, Run step' x tr' y ∧ R t y ∧ ∀ e ∈ tr', ∃ a, e.label = f a := by
  induction h generalizing x with
  | nil s => exact ⟨[], x, .nil x, hx, by simp⟩
  | @cons s t u a tr hs _ ih =>
      obtain ⟨hfirst, hrest⟩ := List.forall_mem_cons.mp hQ
      obtain ⟨y, hxy, hy⟩ := hstep s a t x hx hs hfirst
      obtain ⟨tr', z, hyz, hz, hlab⟩ := ih hrest hy
      exact ⟨_, z, .cons hxy hyz, hz, List.forall_mem_cons.mpr ⟨⟨a, rfl⟩, hlab⟩⟩

/-- **A part of a run.** If every step leaves the part `f` alone or moves it by a step of `step'`, a run moves
    it by a run. -/
theorem Run.observe {σ' α' : Type w} {step' : σ' → α' → σ' → Prop} (f : σ → σ')
    (hstep : ∀ s a t, step s a t → f t = f s ∨ ∃ b, step' (f s) b (f t)) {s t : σ} {tr : List (Event σ α)}
    (h : Run step s tr t) : ∃ tr', Run step' (f s) tr' (f t) := by
  induction h with
  | nil s => exact ⟨[], .nil (f s)⟩
  | cons hs _ ih =>
      obtain ⟨tr', hr'⟩ := ih
      rcases hstep _ _ _ hs with hsame | ⟨b, hb⟩
      · exact ⟨tr', hsame ▸ hr'⟩
      · exact ⟨_, .cons hb hr'⟩

/-- Two halves of a run. -/
theorem Run.split {s t : σ} {tr₁ tr₂ : List (Event σ α)} (h : Run step s (tr₁ ++ tr₂) t) :
    ∃ m, Run step s tr₁ m ∧ Run step m tr₂ t := by
  induction tr₁ generalizing s with
  | nil => exact ⟨s, .nil s, h⟩
  | cons e tr₁ ih =>
      cases h with
      | cons hs hr =>
          obtain ⟨m, h₁, h₂⟩ := ih hr
          exact ⟨m, .cons hs h₁, h₂⟩

theorem Reachable.of_init {s : σ} (h : init s) : Reachable init step s := ⟨s, [], h, .nil s⟩

theorem Reachable.run {s t : σ} {tr : List (Event σ α)}
    (h : Reachable init step s) (hr : Run step s tr t) : Reachable init step t := by
  obtain ⟨i, tr₀, hi, h₀⟩ := h
  exact ⟨i, tr₀ ++ tr, hi, h₀.append hr⟩

theorem Reachable.tail {s t : σ} {a : α}
    (h : Reachable init step s) (hs : step s a t) : Reachable init step t :=
  h.run (.single hs)

theorem Reachable.weaken {step' : σ → α → σ → Prop} (h : ∀ s a t, step s a t → step' s a t)
    {s : σ} (hr : Reachable init step s) : Reachable init step' s := by
  obtain ⟨i, tr, hi, hrun⟩ := hr
  exact ⟨i, tr, hi, hrun.weaken h⟩

/-! ## Invariants -/

/-- **Invariant rule.** What every step preserves, a run preserves. -/
theorem Run.invariant {P : σ → Prop} (hP : ∀ s a t, P s → step s a t → P t)
    {s t : σ} {tr : List (Event σ α)} (h : Run step s tr t) (hs : P s) : P t := by
  induction h with
  | nil s => exact hs
  | cons hst _ ih => exact ih (hP _ _ _ hs hst)

/-- Along a run from an invariant state, every transition starts and ends in invariant states. -/
theorem Run.invariant_events {P : σ → Prop} (hP : ∀ s a t, P s → step s a t → P t)
    {s t : σ} {tr : List (Event σ α)} (h : Run step s tr t) (hs : P s) :
    ∀ e ∈ tr, P e.pre ∧ step e.pre e.label e.post ∧ P e.post := by
  induction h with
  | nil s => intro e he; exact absurd he (by simp)
  | cons hst _ ih =>
      intro e he
      have ht := hP _ _ _ hs hst
      rcases List.mem_cons.mp he with rfl | he
      · exact ⟨hs, hst, ht⟩
      · exact ih ht e he

/-- **Invariant rule under a condition.** If every step that meets `Q` in an invariant state establishes `P` and
    keeps the invariant, a run of such steps keeps it and establishes `P` all along. -/
theorem Run.invariant_under {I : σ → Prop} {P Q : Event σ α → Prop}
    (hstep : ∀ s a t, I s → step s a t → Q ⟨s, a, t⟩ → P ⟨s, a, t⟩ ∧ I t)
    {s t : σ} {tr : List (Event σ α)} (h : Run step s tr t) (hs : I s) (hQ : ∀ e ∈ tr, Q e) :
    I t ∧ ∀ e ∈ tr, P e := by
  induction h with
  | nil s => exact ⟨hs, by simp⟩
  | @cons s m _ a _ hst _ ih =>
      obtain ⟨hfirst, hrest⟩ := List.forall_mem_cons.mp hQ
      obtain ⟨hP, hm⟩ := hstep s a m hs hst hfirst
      obtain ⟨ht, htr⟩ := ih hm hrest
      exact ⟨ht, List.forall_mem_cons.mpr ⟨hP, htr⟩⟩

/-- **What a transition leaves behind and no later one clears, each later one finds.** Whether a later one clears
    it may depend on how the two compare. -/
theorem Run.pairwise_of_kept {K : Event σ α → σ → Prop} {C : Event σ α → Event σ α → Prop}
    (hmake : ∀ e : Event σ α, step e.pre e.label e.post → K e e.post)
    (hkeep : ∀ e e' : Event σ α, step e'.pre e'.label e'.post → C e e' → K e e'.pre → K e e'.post)
    {s t : σ} {tr : List (Event σ α)} (h : Run step s tr t) (hC : tr.Pairwise C) :
    tr.Pairwise fun e e' => K e e'.pre := by
  induction h with
  | nil s => exact .nil
  | @cons s m _ a _ hst hrest ih =>
      obtain ⟨hfirst, hlater⟩ := List.pairwise_cons.mp hC
      have hmade : K ⟨s, a, m⟩ m := hmake _ hst
      have hkept := hrest.invariant_under (I := K ⟨s, a, m⟩) (P := fun e' => K ⟨s, a, m⟩ e'.pre) (Q := C ⟨s, a, m⟩)
        (fun s' a' t' hI hs hQ => ⟨hI, hkeep _ ⟨s', a', t'⟩ hs hQ hI⟩) hmade hfirst
      exact List.pairwise_cons.mpr ⟨hkept.2, ih hlater⟩

/-- Every transition of a run is a step. -/
theorem Run.forall_step {s t : σ} {tr : List (Event σ α)} (h : Run step s tr t) :
    ∀ e ∈ tr, step e.pre e.label e.post := by
  intro e he
  exact (h.invariant_events (P := fun _ => True) (fun _ _ _ _ _ => trivial) trivial e he).2.1

/-- **Induction over reachable states**, with reachability of the state before the step at hand. -/
theorem Reachable.induct {P : σ → Prop} (h₀ : ∀ s, init s → P s)
    (hP : ∀ s a t, Reachable init step s → P s → step s a t → P t)
    {s : σ} (h : Reachable init step s) : P s := by
  obtain ⟨i, tr, hi, hr⟩ := h
  have key : Reachable init step s ∧ P s := by
    refine hr.invariant (P := fun s => Reachable init step s ∧ P s) ?_ ⟨.of_init hi, h₀ i hi⟩
    intro s a t hs hst
    exact ⟨hs.1.tail hst, hP s a t hs.1 hs.2 hst⟩
  exact key.2

/-! ## Quantities along a run -/

/-- What no step of the run changes, the run does not change. -/
theorem Run.const {β : Type w} (f : σ → β)
    {s t : σ} {tr : List (Event σ α)} (h : Run step s tr t)
    (hf : ∀ e ∈ tr, f e.post = f e.pre) : f t = f s := by
  induction h with
  | nil s => rfl
  | cons _ _ ih =>
      have h₁ := hf _ List.mem_cons_self
      exact (ih (fun e he => hf e (List.mem_cons_of_mem _ he))).trans h₁

/-- **What a run brought about, one of its steps brought about.** -/
theorem Run.exists_entry {P : σ → Prop} {s t : σ} {tr : List (Event σ α)} (h : Run step s tr t)
    (hs : ¬ P s) (ht : P t) : ∃ e ∈ tr, ¬ P e.pre ∧ P e.post := by
  induction h with
  | nil s => exact absurd ht hs
  | @cons s m _ a _ _ _ ih =>
      by_cases hm : P m
      · exact ⟨⟨s, a, m⟩, List.mem_cons_self, hs, hm⟩
      · obtain ⟨e, he, hpre, hpost⟩ := ih hm ht
        exact ⟨e, List.mem_cons_of_mem _ he, hpre, hpost⟩

/-- **What a run changed, one of its steps changed.** -/
theorem Run.exists_change {β : Type w} (f : σ → β)
    {s t : σ} {tr : List (Event σ α)} (h : Run step s tr t) (hne : f t ≠ f s) :
    ∃ e ∈ tr, f e.post ≠ f e.pre := by
  obtain ⟨e, he, hpre, hpost⟩ := h.exists_entry (P := fun x => f x ≠ f s) (fun hs => hs rfl) hne
  have hstart : f e.pre = f s := not_not.mp hpre
  exact ⟨e, he, hstart.symm ▸ hpost⟩

/-- Per-step bounds on the growth of `f` add up along a run. -/
theorem Run.sum_le {M : Type w} [AddCommGroup M] [PartialOrder M] [IsOrderedAddMonoid M]
    (f : σ → M) (g : Event σ α → M)
    {s t : σ} {tr : List (Event σ α)} (h : Run step s tr t)
    (hf : ∀ e ∈ tr, f e.post ≤ f e.pre + g e) : f t ≤ f s + (tr.map g).sum := by
  induction h with
  | nil s => simp
  | @cons s t u a tr _ _ ih =>
      have h₁ : f t ≤ f s + g ⟨s, a, t⟩ := hf _ List.mem_cons_self
      have h₂ := ih (fun e he => hf e (List.mem_cons_of_mem _ he))
      calc f u ≤ f t + (tr.map g).sum := h₂
        _ ≤ f s + g ⟨s, a, t⟩ + (tr.map g).sum := add_le_add h₁ (le_refl _)
        _ = f s + ((⟨s, a, t⟩ :: tr).map g).sum := by
            rw [List.map_cons, List.sum_cons, add_assoc]

/-- Exact per-step growth adds up along a run. -/
theorem Run.sum_eq {M : Type w} [AddCommGroup M] (f : σ → M) (g : Event σ α → M)
    {s t : σ} {tr : List (Event σ α)} (h : Run step s tr t)
    (hf : ∀ e ∈ tr, f e.post = f e.pre + g e) : f t = f s + (tr.map g).sum := by
  induction h with
  | nil s => simp
  | @cons s t u a tr _ _ ih =>
      have h₁ : f t = f s + g ⟨s, a, t⟩ := hf _ List.mem_cons_self
      rw [ih (fun e he => hf e (List.mem_cons_of_mem _ he)), h₁, List.map_cons, List.sum_cons,
        add_assoc]

/-- Transitions of a kind that occurs in a list have a last one. -/
theorem exists_last {β : Type w} {Q : β → Prop} {l : List β} (h : ∃ x ∈ l, Q x) :
    ∃ l₁ x l₂, l = l₁ ++ x :: l₂ ∧ Q x ∧ ∀ y ∈ l₂, ¬ Q y := by
  induction l with
  | nil =>
      obtain ⟨x, hx, _⟩ := h
      exact absurd hx (by simp)
  | cons y l ih =>
      by_cases hl : ∃ x ∈ l, Q x
      · obtain ⟨l₁, x, l₂, rfl, hx, hlast⟩ := ih hl
        exact ⟨y :: l₁, x, l₂, rfl, hx, hlast⟩
      · obtain ⟨x, hx, hQ⟩ := h
        rcases List.mem_cons.mp hx with rfl | hx
        · exact ⟨[], x, l, rfl, hQ, fun z hz hz' => hl ⟨z, hz, hz'⟩⟩
        · exact absurd ⟨x, hx, hQ⟩ hl

/-! ## Properties that some steps break -/

/-- **Exact breakage.** Suppose, from a state where `P` holds, a step keeps `P` exactly when it is not
    `Bad`. Then `P` holds in every state of a run from a `P`-state iff no step of the run is `Bad`. -/
theorem Run.forall_post_iff {P : σ → Prop} {Bad : σ → α → Prop}
    (hP : ∀ s a t, P s → step s a t → (P t ↔ ¬ Bad s a))
    {s t : σ} {tr : List (Event σ α)} (h : Run step s tr t) (hs : P s) :
    (∀ e ∈ tr, P e.post) ↔ ∀ e ∈ tr, ¬ Bad e.pre e.label := by
  induction h with
  | nil s => simp
  | @cons s t u a tr hst _ ih =>
      simp only [List.forall_mem_cons]
      constructor
      · rintro ⟨ht, htr⟩
        exact ⟨(hP _ _ _ hs hst).mp ht, (ih ht).mp htr⟩
      · rintro ⟨hb, htr⟩
        have ht := (hP _ _ _ hs hst).mpr hb
        exact ⟨ht, (ih ht).mpr htr⟩

/-! ## Properties that some steps bring about and others clear -/

/-- Some transition of the run is `Bad`, and neither it nor any later one is a `Reset`. -/
def Lingers (Reset Bad : σ → α → Prop) : List (Event σ α) → Prop
  | []        => False
  | e :: rest => (Bad e.pre e.label ∧ ∀ e' ∈ e :: rest, ¬ Reset e'.pre e'.label) ∨ Lingers Reset Bad rest

theorem lingers_cons {Reset Bad : σ → α → Prop} {e : Event σ α} {rest : List (Event σ α)} :
    Lingers Reset Bad (e :: rest) ↔
      (Bad e.pre e.label ∧ ¬ Reset e.pre e.label ∧ ∀ e' ∈ rest, ¬ Reset e'.pre e'.label) ∨
        Lingers Reset Bad rest := by
  show ((_ ∧ _) ∨ _) ↔ _
  rw [List.forall_mem_cons]

/-- **Exact lingering.** Suppose a `Reset` clears `P`, and any other step leaves `P` behind exactly when `P`
    held before it or it is `Bad`. Then `P` holds after a run **iff** it held before and nothing cleared it,
    or it lingers. -/
theorem Run.lingers_iff {I P : σ → Prop} {Reset Bad : σ → α → Prop}
    (hI : ∀ s a t, I s → step s a t → I t)
    (hreset : ∀ s a t, I s → step s a t → Reset s a → ¬ P t)
    (hkeep : ∀ s a t, I s → step s a t → ¬ Reset s a → (P t ↔ P s ∨ Bad s a))
    {s t : σ} {tr : List (Event σ α)} (h : Run step s tr t) (hs : I s) :
    P t ↔ (P s ∧ ∀ e ∈ tr, ¬ Reset e.pre e.label) ∨ Lingers Reset Bad tr := by
  induction h with
  | nil s => simp [Lingers]
  | @cons s m u a tr hst _ ih =>
      rw [ih (hI _ _ _ hs hst), lingers_cons, List.forall_mem_cons]
      by_cases hr : Reset s a
      · have hm := hreset _ _ _ hs hst hr
        simp [hm, hr]
      · rw [hkeep _ _ _ hs hst hr]
        show _ ↔ (P s ∧ ¬ Reset s a ∧ _) ∨ (Bad s a ∧ ¬ Reset s a ∧ _) ∨ _
        simp only [hr, not_false_eq_true, true_and]
        rw [or_and_right, or_assoc]

end Transition
