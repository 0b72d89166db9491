import SoroSense.Lib.Transition
import Mathlib.Algebra.Order.Group.Unbundled.Abs
import Mathlib.Algebra.Order.Sub.Basic
import Mathlib.Logic.Function.Basic
import Mathlib.Tactic.Linarith

/-!
# `Lib.Cooldown` — checked before, recorded after

Any number of jobs share one **gate**. A job may start when the last record of its key is at least `gap`
old, and it makes the next record only when it succeeds. While it runs nothing is recorded, so nothing
stops a second job of the key from starting beside it.

* `Inv` — a job that succeeded left a record no older than its own start, and no record is from the future;
* `spaced_iff` — after a run, any two jobs of one key that succeeded started `gap` apart **iff** the run
  never started a job beside a running one of the key, started less than `gap` before it, both of which
  went on to succeed.

The clock only has to be monotone, and jobs take as long as they like.
-/

namespace Cooldown

open Transition

variable {κ τ : Type} [DecidableEq κ]

structure Job (κ τ : Type) where
  key   : κ
  start : τ

inductive Phase (κ τ : Type) where
  | waiting
  | running (job : Job κ τ)
  | done (job : Job κ τ)
  /-- Refused, or failed: nothing was recorded. -/
  | over

structure Gate (κ τ : Type) where
  last  : κ → Option τ
  clock : τ
  jobs  : ℕ → Phase κ τ

inductive Act (κ τ : Type) where
  | pass
  | refuse (i : ℕ)
  | start (i : ℕ) (job : Job κ τ)
  | finish (i : ℕ) (succeeded : Bool)

/-- Nothing recorded, nobody started. -/
def opened (t : τ) : Gate κ τ := ⟨fun _ => none, t, fun _ => .waiting⟩

section Steps

variable [AddCommGroup τ] [LinearOrder τ]

/-- One step. The check reads the clock at `now`, the job's start is a reading not before it. -/
inductive Step (gap : τ) : Gate κ τ → Act κ τ → Gate κ τ → Prop where
  | pass {g : Gate κ τ} {t : τ} : g.clock ≤ t → Step gap g .pass { g with clock := t }
  | refuse {g : Gate κ τ} {i : ℕ} {t : τ} : g.jobs i = .waiting → g.clock ≤ t →
      Step gap g (.refuse i) { g with clock := t, jobs := Function.update g.jobs i .over }
  | start {g : Gate κ τ} {i : ℕ} {job : Job κ τ} {now : τ} : g.jobs i = .waiting → g.clock ≤ now →
      now ≤ job.start → (∀ l, g.last job.key = some l → gap ≤ now - l) →
      Step gap g (.start i job)
        { g with clock := job.start, jobs := Function.update g.jobs i (.running job) }
  | succeed {g : Gate κ τ} {i : ℕ} {job : Job κ τ} {t : τ} : g.jobs i = .running job → g.clock ≤ t →
      Step gap g (.finish i true)
        ⟨Function.update g.last job.key (some t), t, Function.update g.jobs i (.done job)⟩
  | fail {g : Gate κ τ} {i : ℕ} {job : Job κ τ} {t : τ} : g.jobs i = .running job → g.clock ≤ t →
      Step gap g (.finish i false) { g with clock := t, jobs := Function.update g.jobs i .over }

/-! ## What one step does to one job -/

variable {gap : τ} {g g' : Gate κ τ} {a : Act κ τ} {i j : ℕ} {x y : Job κ τ}

omit [DecidableEq κ] [AddCommGroup τ] [LinearOrder τ] in
/-- A job is not the one a step moved, or it is. -/
theorem update_jobs {p q : Phase κ τ} {jobs : ℕ → Phase κ τ}
    (h : Function.update jobs j q i = p) : (i = j ∧ q = p) ∨ (i ≠ j ∧ jobs i = p) := by
  by_cases hij : i = j
  · subst hij
    rw [Function.update_self] at h
    exact .inl ⟨rfl, h⟩
  · rw [Function.update_of_ne hij] at h
    exact .inr ⟨hij, h⟩

/-- A job that is done was done, or the step finished it. -/
theorem Step.of_done (h : Step gap g a g') (hd : g'.jobs i = .done x) :
    g.jobs i = .done x ∨ (g.jobs i = .running x ∧ a = .finish i true) := by
  cases h with
  | pass _ => exact .inl hd
  | refuse _ _ | start _ _ _ _ | fail _ _ =>
      obtain ⟨_, hq⟩ | ⟨_, hi⟩ := update_jobs hd
      · exact absurd hq (by simp)
      · exact .inl hi
  | succeed hr _ =>
      obtain ⟨hij, hq⟩ | ⟨_, hi⟩ := update_jobs hd
      · subst hij
        cases hq
        exact .inr ⟨hr, rfl⟩
      · exact .inl hi

/-- A running job was running, or the step started it. -/
theorem Step.of_running (h : Step gap g a g') (hr : g'.jobs i = .running x) :
    g.jobs i = .running x ∨ (g.jobs i = .waiting ∧ a = .start i x) := by
  cases h with
  | pass _ => exact .inl hr
  | refuse _ _ | succeed _ _ | fail _ _ =>
      obtain ⟨_, hq⟩ | ⟨_, hi⟩ := update_jobs hr
      · exact absurd hq (by simp)
      · exact .inl hi
  | start hw _ _ _ =>
      obtain ⟨hij, hq⟩ | ⟨_, hi⟩ := update_jobs hr
      · subst hij
        cases hq
        exact .inr ⟨hw, rfl⟩
      · exact .inl hi

/-- A running job goes on, or the step finishes it. -/
theorem Step.running (h : Step gap g a g') (hr : g.jobs i = .running x) :
    g'.jobs i = .running x ∨ (g'.jobs i = .done x ∧ a = .finish i true) ∨
      (g'.jobs i = .over ∧ a = .finish i false) := by
  have frame : ∀ {j : ℕ} {p : Phase κ τ}, i ≠ j → Function.update g.jobs j p i = .running x := by
    intro j p hij
    rw [Function.update_of_ne hij]
    exact hr
  cases h with
  | pass _ => exact .inl hr
  | @refuse j _ hw _ | @start j _ _ hw _ _ _ =>
      refine .inl (frame fun hij => ?_)
      subst hij
      rw [hr] at hw
      exact absurd hw (by simp)
  | @succeed j job _ hj _ =>
      by_cases hij : i = j
      · subst hij
        rw [hr] at hj
        cases hj
        exact .inr (.inl ⟨Function.update_self i _ _, rfl⟩)
      · exact .inl (frame hij)
  | @fail j job _ hj _ =>
      by_cases hij : i = j
      · subst hij
        exact .inr (.inr ⟨Function.update_self i _ _, rfl⟩)
      · exact .inl (frame hij)

/-- What is done stays done, -/
theorem Step.done (h : Step gap g a g') (hd : g.jobs i = .done x) : g'.jobs i = .done x := by
  cases h with
  | pass _ => exact hd
  | @refuse j _ hw _ | @start j _ _ hw _ _ _ | @succeed j _ _ hw _ | @fail j _ _ hw _ =>
      have hij : i ≠ j := by
        intro hij
        subst hij
        rw [hd] at hw
        exact absurd hw (by simp)
      exact (Function.update_of_ne hij _ _).trans hd

/-- … and what is over, over. -/
theorem Step.over (h : Step gap g a g') (ho : g.jobs i = .over) : g'.jobs i = .over := by
  cases h with
  | pass _ => exact ho
  | @refuse j _ hw _ | @start j _ _ hw _ _ _ | @succeed j _ _ hw _ | @fail j _ _ hw _ =>
      have hij : i ≠ j := by
        intro hij
        subst hij
        rw [ho] at hw
        exact absurd hw (by simp)
      exact (Function.update_of_ne hij _ _).trans ho

/-- Only a running job finishes. -/
theorem Step.running_of_finish {b : Bool} (h : Step gap g (.finish i b) g') :
    ∃ x, g.jobs i = .running x := by
  cases h with
  | succeed hr _ | fail hr _ => exact ⟨_, hr⟩

/-- Started, and not failed so far. -/
def Started (i : ℕ) (x : Job κ τ) (g : Gate κ τ) : Prop := g.jobs i = .running x ∨ g.jobs i = .done x

theorem Step.of_started (h : Step gap g a g') (hs : Started i x g') :
    Started i x g ∨ (g.jobs i = .waiting ∧ a = .start i x) := by
  rcases hs with hr | hd
  · rcases h.of_running hr with hr | hstart
    · exact .inl (.inl hr)
    · exact .inr hstart
  · rcases h.of_done hd with hd | ⟨hr, _⟩
    · exact .inl (.inr hd)
    · exact .inl (.inl hr)

/-! ## The records -/

/-- What holds between the clock, the records and the jobs. -/
structure Inv (g : Gate κ τ) : Prop where
  last_le    : ∀ k l, g.last k = some l → l ≤ g.clock
  running_le : ∀ i x, g.jobs i = .running x → x.start ≤ g.clock
  recorded   : ∀ i x, g.jobs i = .done x → ∃ l, g.last x.key = some l ∧ x.start ≤ l

omit [DecidableEq κ] [AddCommGroup τ] in
theorem inv_opened (t : τ) : Inv (opened t : Gate κ τ) :=
  ⟨fun _ _ h => absurd h (by simp [opened]), fun _ _ h => absurd h (by simp [opened]),
    fun _ _ h => absurd h (by simp [opened])⟩

theorem Step.clock_le (h : Step gap g a g') : g.clock ≤ g'.clock := by
  cases h with
  | pass ht | refuse _ ht | succeed _ ht | fail _ ht => exact ht
  | start _ hnow hstart _ => exact le_trans hnow hstart

/-- A record a step leaves is the one before it, or is made now. -/
theorem Step.last_cases (h : Step gap g a g') (k : κ) :
    g'.last k = g.last k ∨ g'.last k = some g'.clock := by
  cases h with
  | pass _ | refuse _ _ | start _ _ _ _ | fail _ _ => exact .inl rfl
  | @succeed _ job t _ _ =>
      by_cases hk : k = job.key
      · subst hk
        exact .inr (Function.update_self _ _ _)
      · exact .inl (Function.update_of_ne hk _ _)

theorem Step.inv (h : Step gap g a g') (hg : Inv g) : Inv g' where
  last_le := by
    intro k l hl
    rcases h.last_cases k with hk | hk
    · rw [hk] at hl
      exact le_trans (hg.last_le k l hl) h.clock_le
    · rw [hk] at hl
      exact le_of_eq (Option.some.inj hl).symm
  running_le := by
    intro i x hr
    rcases h.of_running hr with hr | ⟨_, rfl⟩
    · exact le_trans (hg.running_le i x hr) h.clock_le
    · cases h with
      | start _ _ _ _ => exact le_refl x.start
  recorded := by
    intro i x hd
    rcases h.of_done hd with hd | ⟨hr, rfl⟩
    · obtain ⟨l, hl, hle⟩ := hg.recorded i x hd
      rcases h.last_cases x.key with hk | hk
      · exact ⟨l, hk.trans hl, hle⟩
      · exact ⟨_, hk, le_trans hle (le_trans (hg.last_le x.key l hl) h.clock_le)⟩
    · cases h with
      | @succeed _ job t hj ht =>
          rw [hr] at hj
          cases hj
          exact ⟨t, Function.update_self _ _ _, le_trans (hg.running_le i x hr) ht⟩

end Steps

/-! ## Runs -/

section Runs

variable [AddCommGroup τ] [LinearOrder τ]

/-- Job `i` succeeds in what is left of the run. -/
def Succeeds (i : ℕ) (tr : List (Event (Gate κ τ) (Act κ τ))) : Prop :=
  ∃ e ∈ tr, e.label = .finish i true

/-- The transition starts a job beside a running one of its key, started less than `gap` before, and both
    succeed in the rest of the run. -/
def Clashes (gap : τ) (e : Event (Gate κ τ) (Act κ τ)) (rest : List (Event (Gate κ τ) (Act κ τ))) : Prop :=
  ∃ i j x y, e.pre.jobs i = .running x ∧ e.label = .start j y ∧ x.key = y.key ∧
    y.start - x.start < gap ∧ Succeeds i rest ∧ Succeeds j rest

/-- Some transition of the run does. -/
def Clash (gap : τ) : List (Event (Gate κ τ) (Act κ τ)) → Prop
  | []        => False
  | e :: rest => Clashes gap e rest ∨ Clash gap rest

/-- Any two jobs of one key that succeeded started `gap` apart. -/
def Spaced (gap : τ) (g : Gate κ τ) : Prop :=
  ∀ i j x y, i ≠ j → g.jobs i = .done x → g.jobs j = .done y → x.key = y.key → gap ≤ |y.start - x.start|

variable {gap : τ} {g g' : Gate κ τ} {tr : List (Event (Gate κ τ) (Act κ τ))} {i j : ℕ} {x y : Job κ τ}

/-- A job that was running and is done succeeded in between, -/
theorem succeeds_of_done (h : Run (Step gap) g tr g') (hr : g.jobs i = .running x)
    (hd : g'.jobs i = .done x) : Succeeds i tr := by
  have hpre : g.jobs i ≠ .done x := by rw [hr]; simp
  obtain ⟨e, he, hnot, hdone⟩ := h.exists_entry (P := fun g => g.jobs i = .done x) hpre hd
  rcases (h.forall_step e he).of_done hdone with hd | ⟨_, hlabel⟩
  · exact absurd hd hnot
  · exact ⟨e, he, hlabel⟩

theorem not_succeeds_of_over (h : Run (Step gap) g tr g') (ho : g.jobs i = .over) : ¬ Succeeds i tr := by
  rintro ⟨e, he, hlabel⟩
  have hover := h.invariant_events (P := fun g => g.jobs i = .over) (fun _ _ _ ho hs => hs.over ho) ho e he
  obtain ⟨ho', hstep, _⟩ := hover
  rw [hlabel] at hstep
  obtain ⟨x, hr⟩ := hstep.running_of_finish
  rw [ho'] at hr
  exact absurd hr (by simp)

/-- … and a running job that succeeds is done at the end. -/
theorem done_of_succeeds (h : Run (Step gap) g tr g') (hr : g.jobs i = .running x)
    (hs : Succeeds i tr) : g'.jobs i = .done x := by
  induction h with
  | nil g =>
      obtain ⟨e, he, _⟩ := hs
      exact absurd he (by simp)
  | cons hstep hrest ih =>
      rcases hstep.running hr with hr' | ⟨hd, _⟩ | ⟨ho, hfail⟩
      · -- still running, so this step was not its success
        refine ih hr' ?_
        obtain ⟨e, he, hlabel⟩ := hs
        rcases List.mem_cons.mp he with rfl | he
        · cases hlabel
          cases hstep with
          | succeed _ _ => exact absurd ((Function.update_self i _ _).symm.trans hr') (by simp)
        · exact ⟨e, he, hlabel⟩
      · exact hrest.invariant (P := fun g => g.jobs i = .done x) (fun _ _ _ hd hs => hs.done hd) hd
      · obtain ⟨e, he, hlabel⟩ := hs
        rcases List.mem_cons.mp he with rfl | he
        · cases hlabel
          exact absurd hfail (by simp)
        · exact absurd ⟨e, he, hlabel⟩ (not_succeeds_of_over hrest ho)

/-- **A start after the record** is `gap` after it, so `gap` after the job that made it. -/
theorem gap_le_of_done [IsOrderedAddMonoid τ] (h : Step gap g (.start j y) g') (hg : Inv g)
    (hd : g.jobs i = .done x) (hk : x.key = y.key) : gap ≤ y.start - x.start := by
  cases h with
  | start _ _ hnow hcheck =>
      obtain ⟨l, hl, hle⟩ := hg.recorded i x hd
      rw [hk] at hl
      have hgap := hcheck l hl
      exact le_trans hgap (sub_le_sub hnow hle)

/-- **One start.** A job that starts while another of its key has, both to succeed, starts `gap` after it
    unless the two clash. -/
theorem gap_le_of_start [IsOrderedAddMonoid τ] {g₁ : Gate κ τ} {a : Act κ τ} (h : Step gap g a g₁)
    (hrest : Run (Step gap) g₁ tr g') (hg : Inv g) (hclash : ¬ Clashes gap ⟨g, a, g₁⟩ tr)
    (hi : Started i x g) (hw : g.jobs j = .waiting) (ha : a = .start j y) (hk : x.key = y.key)
    (hdi : g'.jobs i = .done x) (hdj : g'.jobs j = .done y) : gap ≤ y.start - x.start := by
  subst ha
  rcases hi with hr | hd
  · by_contra hlt
    have hij : i ≠ j := by
      intro hij
      rw [hij, hw] at hr
      exact absurd hr (by simp)
    have hj : g₁.jobs j = .running y := by
      cases h with
      | start _ _ _ _ => exact Function.update_self j _ _
    have hi₁ : g₁.jobs i = .running x := by
      cases h with
      | start _ _ _ _ => exact (Function.update_of_ne hij _ _).trans hr
    exact hclash ⟨i, j, x, y, hr, rfl, hk, not_le.mp hlt, succeeds_of_done hrest hi₁ hdi,
      succeeds_of_done hrest hj hdj⟩
  · exact gap_le_of_done h hg hd hk

/-- Two jobs that succeeded had both started before the run, or are `gap` apart. -/
theorem started_or_spaced [IsOrderedAddMonoid τ] (h : Run (Step gap) g tr g') (hg : Inv g)
    (hclash : ¬ Clash gap tr) (hij : i ≠ j) (hdi : g'.jobs i = .done x) (hdj : g'.jobs j = .done y)
    (hk : x.key = y.key) :
    (Started i x g ∧ Started j y g) ∨ gap ≤ |y.start - x.start| := by
  induction h with
  | nil g => exact .inl ⟨.inr hdi, .inr hdj⟩
  | cons hstep hrest ih =>
      rcases ih (hstep.inv hg) (fun hc => hclash (.inr hc)) hdi hdj with ⟨hi, hj⟩ | hfar
      · rcases hstep.of_started hi with hi | ⟨hwi, hai⟩
        · rcases hstep.of_started hj with hj | ⟨hwj, haj⟩
          · exact .inl ⟨hi, hj⟩
          · -- `j` starts here, `i` has
            have hgap := gap_le_of_start hstep hrest hg (fun hc => hclash (.inl hc)) hi hwj haj hk hdi hdj
            exact .inr (le_trans hgap (le_abs_self _))
        · rcases hstep.of_started hj with hj | ⟨_, haj⟩
          · -- `i` starts here, `j` has
            have hgap := gap_le_of_start hstep hrest hg (fun hc => hclash (.inl hc)) hj hwi hai hk.symm hdj hdi
            rw [abs_sub_comm]
            exact .inr (le_trans hgap (le_abs_self _))
          · rw [hai] at haj
            cases haj
            exact absurd rfl hij
      · exact .inr hfar

/-- **A clash shows.** -/
theorem not_spaced_of_clash [IsOrderedAddMonoid τ] (h : Run (Step gap) g tr g') (hg : Inv g)
    (hclash : Clash gap tr) : ¬ Spaced gap g' := by
  induction h with
  | nil g => exact absurd hclash (by simp [Clash])
  | @cons g g₁ _ a _ hstep hrest ih =>
      rcases hclash with ⟨i, j, x, y, hr, hlabel, hk, hlt, hsi, hsj⟩ | hclash
      · intro hspaced
        have hlabel : a = .start j y := hlabel
        have hr : g.jobs i = .running x := hr
        subst hlabel
        cases hstep with
        | start hw hclock hnow _ =>
            have hij : i ≠ j := by
              intro hij
              rw [hij, hw] at hr
              exact absurd hr (by simp)
            have hdi := done_of_succeeds hrest ((Function.update_of_ne hij _ _).trans hr) hsi
            have hdj := done_of_succeeds hrest (Function.update_self j _ _) hsj
            have hgap := hspaced i j x y hij hdi hdj hk
            have hle : x.start ≤ y.start := le_trans (hg.running_le i x hr) (le_trans hclock hnow)
            rw [abs_of_nonneg (sub_nonneg.mpr hle)] at hgap
            exact absurd hgap (not_le.mpr hlt)
      · exact ih (hstep.inv hg) hclash

/-- **Spacing, exactly.** -/
theorem spaced_iff [IsOrderedAddMonoid τ] {t : τ} (h : Run (Step gap) (opened t) tr g') :
    Spaced gap g' ↔ ¬ Clash gap tr := by
  constructor
  · intro hspaced hclash
    exact not_spaced_of_clash h (inv_opened t) hclash hspaced
  · intro hclash i j x y hij hdi hdj hk
    rcases started_or_spaced h (inv_opened t) hclash hij hdi hdj hk with ⟨hi, _⟩ | hfar
    · rcases hi with hi | hi <;> exact absurd hi (by simp [opened])
    · exact hfar

end Runs

end Cooldown
