import Mathlib.Algebra.Module.NatInt

/-!
# `Lib.Schedule` — the integral of a rate that changes in steps

A rate starts at `r₀` at time `t₀` and is changed at the times of a list, each change holding until the next.
`integral` sums every rate times the time it was in force.

* `integral_append_of_le` — a change made later says nothing about the integral so far;
* `integral_of_le` — from the last change on, the integral grows by the rate in force.
-/

namespace Schedule

universe u

variable {M : Type u}

/-- The rate in force after the changes. -/
def current (r₀ : M) : List (Nat × M) → M
  | []          => r₀
  | (_, r) :: l => current r l

theorem current_append {t : Nat} {r₀ r : M} {l : List (Nat × M)} : current r₀ (l ++ [(t, r)]) = r := by
  induction l generalizing r₀ with
  | nil => rfl
  | cons c l ih => exact ih

variable [AddCommMonoid M]

/-- Every rate times how long it was in force, up to `t`. -/
def integral (t₀ : Nat) (r₀ : M) : List (Nat × M) → Nat → M
  | [], t           => (t - t₀) • r₀
  | (t₁, r₁) :: l, t => (min t t₁ - t₀) • r₀ + integral t₁ r₁ l t

variable {t₀ t t' : Nat} {r₀ r : M} {l : List (Nat × M)}

/-- Nothing has been summed at the start. -/
theorem integral_self : integral t₀ r₀ [] t₀ = 0 := by
  rw [integral, Nat.sub_self, zero_smul]

/-- **A change is not retroactive.** -/
theorem integral_append_of_le (h : t ≤ t') : integral t₀ r₀ (l ++ [(t', r)]) t = integral t₀ r₀ l t := by
  induction l generalizing t₀ r₀ with
  | nil =>
      show (min t t' - t₀) • r₀ + (t - t') • r = (t - t₀) • r₀
      rw [min_eq_left h, Nat.sub_eq_zero_of_le h, zero_smul, add_zero]
  | cons c l ih =>
      show (min t c.1 - t₀) • r₀ + integral c.1 c.2 (l ++ [(t', r)]) t = (min t c.1 - t₀) • r₀ + _
      rw [ih]

/-- **After the last change the integral grows by the rate in force.** -/
theorem integral_of_le (h₀ : t₀ ≤ t) (hl : ∀ c ∈ l, c.1 ≤ t) (h : t ≤ t') :
    integral t₀ r₀ l t' = integral t₀ r₀ l t + (t' - t) • current r₀ l := by
  induction l generalizing t₀ r₀ with
  | nil =>
      show (t' - t₀) • r₀ = (t - t₀) • r₀ + (t' - t) • r₀
      rw [← add_smul]
      congr 1
      omega
  | cons c l ih =>
      have hc : c.1 ≤ t := hl c List.mem_cons_self
      have hrest := @ih c.1 c.2 hc (fun d hd => hl d (List.mem_cons_of_mem _ hd))
      show (min t' c.1 - t₀) • r₀ + _ = (min t c.1 - t₀) • r₀ + _ + _
      rw [hrest, min_eq_right hc, min_eq_right (le_trans hc h), add_assoc]
      rfl

end Schedule
