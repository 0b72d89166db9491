import SoroSense.Lib.Fallible
import SoroSense.Lib.Transition

/-!
# `Lib.Execution` — running a list of labels

A system given by a partial function `exec : σ → α → Except ε σ` runs a list of labels by running them in
turn. `trace` and `after` compute the run, `Accepts` decides that every label takes effect, and
`run_trace` turns the computation into a `Run` of any step relation that `exec` refines. Concrete runs
are built with these and never by hand.
-/

namespace Execution

open Fallible Transition

universe u v w

variable {σ : Type u} {α : Type v} {ε : Type w}

/-- The transitions taken, up to the first label that fails. -/
def trace (exec : σ → α → Except ε σ) (s : σ) : List α → List (Event σ α)
  | []      => []
  | a :: as =>
    match exec s a with
    | .ok t    => ⟨s, a, t⟩ :: trace exec t as
    | .error _ => []

/-- The state reached, at the first label that fails or else at the end. -/
def after (exec : σ → α → Except ε σ) (s : σ) : List α → σ
  | []      => s
  | a :: as =>
    match exec s a with
    | .ok t    => after exec t as
    | .error _ => s

/-- Every label takes effect. -/
def Accepts (exec : σ → α → Except ε σ) (s : σ) (as : List α) : Prop :=
  (trace exec s as).length = as.length

instance (exec : σ → α → Except ε σ) (s : σ) (as : List α) : Decidable (Accepts exec s as) :=
  inferInstanceAs (Decidable ((trace exec s as).length = as.length))

variable {exec : σ → α → Except ε σ} {step : σ → α → σ → Prop} {s : σ}

/-- What was computed is a run. -/
theorem run_trace (h : ∀ s a t, exec s a = .ok t → step s a t) (as : List α) :
    Run step s (trace exec s as) (after exec s as) := by
  induction as generalizing s with
  | nil => exact .nil s
  | cons a as ih =>
      unfold trace after
      cases hx : exec s a with
      | ok t    => exact .cons (h s a t hx) ih
      | error e => exact .nil s

/-- A single accepted label returns the state after it. -/
theorem Accepts.single {a : α} (h : Accepts exec s [a]) : exec s a = .ok (after exec s [a]) := by
  unfold Accepts trace at h
  unfold after
  cases hx : exec s a with
  | ok t    => rfl
  | error e => rw [hx] at h; exact absurd h (by simp)

/-- The labels of a trace are the labels it was computed from. -/
theorem trace_labels (as : List α) : ∀ e ∈ trace exec s as, e.label ∈ as := by
  induction as generalizing s with
  | nil => exact fun e he => absurd he (by simp [trace])
  | cons a as ih =>
      intro e he
      unfold trace at he
      cases hx : exec s a with
      | error _ => rw [hx] at he; exact absurd he (by simp)
      | ok t    =>
          rw [hx] at he
          rcases List.mem_cons.mp he with rfl | he
          · exact List.mem_cons_self
          · exact List.mem_cons_of_mem _ (ih e he)

/-- Labels that all satisfy `Q` make a run of the `Q`-steps. -/
theorem run_trace_restrict (step : σ → α → σ → Prop) (Q : α → Prop)
    (h : ∀ s a t, exec s a = .ok t → step s a t) (s : σ) {as : List α} (hQ : ∀ a ∈ as, Q a) :
    Run (fun s a t => step s a t ∧ Q a) s (trace exec s as) (after exec s as) :=
  (run_trace h as).restrict (fun e he => hQ _ (trace_labels as e he))

end Execution
