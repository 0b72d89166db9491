import Mathlib.Algebra.BigOperators.Group.List.Basic
import Mathlib.Algebra.Ring.Int.Defs

/-!
# `Lib.Fallible` — reading a successful computation backwards

Vocabulary for programs that stop at the first failed check. A program is an `Except ε` term built
from `failIf`, `orFail` and `inRange`; every lemma here has the form *this term returned `.ok` **iff***,
so one `simp only` over a program yields its whole guard list, in both directions.

* `bind_eq_ok` — a sequence succeeds exactly when its parts do, in order;
* `failIf_eq_ok` / `orFail_eq_ok` / `inRange_eq_ok` — the three checks;
* `foldlM_eq_ok` — a fallible loop that succeeds computed the pure loop it stands for;
* `Avoids` — a program that does not stop with an error of a given kind, whatever else stops it.

Nothing here names a particular program.
-/

namespace Fallible

variable {ε α β : Type}

/-- Stop with `e` when `p` holds. -/
def failIf (p : Prop) [Decidable p] (e : ε) : Except ε Unit :=
  if p then .error e else .ok ()

/-- The value of an optional entry, or stop with `e` when it is absent. -/
def orFail (o : Option α) (e : ε) : Except ε α :=
  match o with
  | some a => .ok a
  | none   => .error e

/-- `x` itself when it lies in `[lo, hi]`, otherwise stop with `e`. -/
def inRange (lo hi : Int) (e : ε) (x : Int) : Except ε Int :=
  if lo ≤ x ∧ x ≤ hi then .ok x else .error e

theorem bind_eq_ok {x : Except ε α} {f : α → Except ε β} {b : β} :
    x >>= f = .ok b ↔ ∃ a, x = .ok a ∧ f a = .ok b := by
  cases x with
  | error e => simp [bind, Except.bind]
  | ok a    => simp [bind, Except.bind]

theorem pure_eq_ok {a b : α} : (pure a : Except ε α) = .ok b ↔ a = b := by
  simp [pure, Except.pure]

theorem ok_eq_ok {a b : α} : (Except.ok a : Except ε α) = .ok b ↔ a = b := by simp

theorem failIf_eq_ok {p : Prop} [Decidable p] {e : ε} {u : Unit} :
    failIf p e = .ok u ↔ ¬ p := by
  unfold failIf
  by_cases hp : p <;> simp [hp]

theorem orFail_eq_ok {o : Option α} {e : ε} {a : α} : orFail o e = .ok a ↔ o = some a := by
  cases o <;> simp [orFail]

theorem inRange_eq_ok {lo hi x y : Int} {e : ε} :
    inRange lo hi e x = .ok y ↔ (lo ≤ x ∧ x ≤ hi) ∧ x = y := by
  unfold inRange
  by_cases h : lo ≤ x ∧ x ≤ hi <;> simp [h]

/-- A computation returns, -/
theorem isOk_iff {x : Except ε α} : x.isOk = true ↔ ∃ a, x = .ok a := by
  cases x <;> simp [Except.isOk, Except.toBool]

/-- … or it does not. -/
theorem isOk_eq_false_iff {x : Except ε α} : x.isOk = false ↔ ∀ a, x ≠ .ok a := by
  cases x <;> simp [Except.isOk, Except.toBool]

/-- The result of a computation that returned is the result any other evaluation of it returned. -/
theorem ok_unique {x : Except ε α} {a b : α} (ha : x = .ok a) (hb : x = .ok b) : a = b :=
  Except.ok.inj (ha.symm.trans hb)

/-- **A fallible loop that returned ran the pure loop.** If one fallible round, whenever it returns,
    returns what `g` computes, then so does the whole loop. -/
theorem foldlM_eq_ok {f : β → α → Except ε β} {g : β → α → β}
    (h : ∀ b a b', f b a = .ok b' → b' = g b a) :
    ∀ (l : List α) (b b' : β), l.foldlM f b = .ok b' → b' = l.foldl g b := by
  intro l
  induction l with
  | nil =>
      intro b b' hb
      rw [List.foldlM_nil, pure_eq_ok] at hb
      exact hb.symm
  | cons a l ih =>
      intro b b' hb
      rw [List.foldlM_cons, bind_eq_ok] at hb
      obtain ⟨c, hc, hb⟩ := hb
      rw [List.foldl_cons, ← h b a c hc]
      exact ih c b' hb

/-- **A fallible map whose parts return** returns what they return. -/
theorem mapM_eq_ok {f : α → Except ε β} {g : α → β} {l : List α} (h : ∀ a ∈ l, f a = .ok (g a)) :
    l.mapM f = .ok (l.map g) := by
  induction l with
  | nil => rfl
  | cons a l ih =>
      have hl := ih fun b hb => h b (List.mem_cons_of_mem a hb)
      rw [List.mapM_cons, h a List.mem_cons_self, hl]
      rfl

/-- In a fallible map that returned, every part returned. -/
theorem isOk_of_mapM {f : α → Except ε β} {l : List α} {bs : List β} (h : l.mapM f = .ok bs) :
    ∀ a ∈ l, ∃ b, f a = .ok b := by
  induction l generalizing bs with
  | nil => exact fun a ha => absurd ha (by simp)
  | cons x l ih =>
      rw [List.mapM_cons, bind_eq_ok] at h
      obtain ⟨b, hb, h⟩ := h
      obtain ⟨bs', hbs, _⟩ := bind_eq_ok.mp h
      intro a ha
      rcases List.mem_cons.mp ha with rfl | ha
      · exact ⟨b, hb⟩
      · exact ih hbs a ha

/-- A running total started at `i` is `i` plus the sum. -/
theorem foldl_add_eq_sum (v : α → Int) :
    ∀ (l : List α) (i : Int), l.foldl (fun t a => t + v a) i = i + (l.map v).sum := by
  intro l
  induction l with
  | nil => intro i; simp
  | cons a l ih => intro i; rw [List.foldl_cons, ih, List.map_cons, List.sum_cons, add_assoc]

/-! ## Errors a program does not stop with -/

/-- `x` does not stop with a `Bad` error. -/
def Avoids (Bad : ε → Prop) (x : Except ε α) : Prop := ∀ e, x = .error e → ¬ Bad e

variable {Bad : ε → Prop}

/-- A program that returns stops with nothing. -/
theorem Avoids.of_eq_ok {x : Except ε α} {a : α} (h : x = .ok a) : Avoids Bad x := by
  intro e he
  rw [h] at he
  exact absurd he (by simp)

theorem avoids_ok {a : α} : Avoids Bad (.ok a : Except ε α) := .of_eq_ok rfl

/-- **Sequence rule.** The second part only has to avoid the error on what the first part returned. -/
theorem Avoids.bind {x : Except ε α} {f : α → Except ε β} (hx : Avoids Bad x)
    (hf : ∀ a, x = .ok a → Avoids Bad (f a)) : Avoids Bad (x >>= f) := by
  intro e he
  cases x with
  | error e' => exact hx e (congrArg _ (Except.error.inj he))
  | ok a     => exact hf a rfl e he

/-- **A part that is known to return** leaves the rest to see to. -/
theorem Avoids.bind_ok {x : Except ε α} {f : α → Except ε β} {a : α} (hx : x = .ok a)
    (hf : Avoids Bad (f a)) : Avoids Bad (x >>= f) := by
  rw [hx]
  exact hf

theorem avoids_failIf {p : Prop} [Decidable p] {e : ε} (h : p → ¬ Bad e) : Avoids Bad (failIf p e) := by
  intro e' he
  unfold failIf at he
  split at he
  · rename_i hp
    rw [← Except.error.inj he]
    exact h hp
  · exact absurd he (by simp)

/-- A check that passes leaves the rest to see to. -/
theorem Avoids.bind_check {p : Prop} [Decidable p] {e : ε} {f : Unit → Except ε β} (hp : ¬ p)
    (hf : Avoids Bad (f ())) : Avoids Bad (failIf p e >>= f) := .bind_ok (failIf_eq_ok.mpr hp) hf

theorem avoids_orFail {o : Option α} {e : ε} (h : o = none → ¬ Bad e) : Avoids Bad (orFail o e) := by
  intro e' he
  cases o with
  | none   => rw [← Except.error.inj he]; exact h rfl
  | some a => exact absurd he (by simp [orFail])

theorem avoids_inRange {lo hi x : Int} {e : ε} (h : ¬ (lo ≤ x ∧ x ≤ hi) → ¬ Bad e) :
    Avoids Bad (inRange lo hi e x) := by
  intro e' he
  unfold inRange at he
  split at he
  · exact absurd he (by simp)
  · rename_i hx
    rw [← Except.error.inj he]
    exact h hx

/-- A program that stops with neither kind of error returns. -/
theorem Avoids.exists_ok {x : Except ε α} (h : Avoids Bad x) (h' : Avoids (fun e => ¬ Bad e) x) :
    ∃ a, x = .ok a := by
  cases hx : x with
  | ok a    => exact ⟨a, rfl⟩
  | error e => exact absurd (h e hx) (h' e hx)

/-- A fold each of whose steps avoids the error. -/
theorem avoids_foldlM {f : β → α → Except ε β} {l : List α} (h : ∀ a ∈ l, ∀ b, Avoids Bad (f b a)) (b : β) :
    Avoids Bad (l.foldlM f b) := by
  induction l generalizing b with
  | nil => exact avoids_ok
  | cons a l ih =>
      rw [List.foldlM_cons]
      exact .bind (h a List.mem_cons_self b)
        (fun b' _ => ih (fun a' ha' => h a' (List.mem_cons_of_mem _ ha')) b')

end Fallible
