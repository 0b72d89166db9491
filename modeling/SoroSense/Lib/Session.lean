import Mathlib.Logic.Basic

/-!
# `Lib.Session` — programs whose failures keep their effects

Vocabulary for a program that talks to a world it cannot roll back: an `EStateM ε σ` term that stops at
its first error and leaves behind whatever it had already done.

* `run_bind_eq_ok` — a sequence read backwards, from its result;
* `after` — the state a program leaves, however it ended;
* `Keeps R x` — wherever `x` starts, it ends in an `R`-related state. The sequence rule asks for a
  reflexive and transitive `R`;
* `onFst` / `privately` — a program run on one half of a pair of states, and a program given a second half of
  its own;
* `Notes φ x y` — `y` is `x` with a log, in which it notes `φ`-things only. `Notes.erase` forgets the log again.

Nothing here names a particular program.
-/

namespace Session

variable {ε σ τ κ α β : Type}

/-! ## Reading a sequence backwards -/

theorem run_bind_eq_ok {x : EStateM ε σ α} {f : α → EStateM ε σ β} {s u : σ} {b : β} :
    (x >>= f).run s = .ok b u ↔ ∃ a t, x.run s = .ok a t ∧ (f a).run t = .ok b u := by
  rw [EStateM.run_bind]
  cases x.run s with
  | ok a t =>
      constructor
      · intro h
        exact ⟨a, t, rfl, h⟩
      · rintro ⟨a', t', h, hf⟩
        injection h with ha ht
        rw [ha, ht]
        exact hf
  | error e t => simp

/-- A first part that returned leaves the rest to run. -/
theorem run_bind_of_ok {x : EStateM ε σ α} {f : α → EStateM ε σ β} {s t : σ} {a : α}
    (h : x.run s = .ok a t) : (x >>= f).run s = (f a).run t := by
  rw [EStateM.run_bind, h]

/-- A first part that failed is where the sequence ends. -/
theorem run_bind_of_error {x : EStateM ε σ α} {f : α → EStateM ε σ β} {s t : σ} {e : ε}
    (h : x.run s = .error e t) : (x >>= f).run s = .error e t := by
  rw [EStateM.run_bind, h]

theorem run_pure_eq_ok {s t : σ} {a b : α} : (pure a : EStateM ε σ α).run s = .ok b t ↔ a = b ∧ s = t := by
  rw [EStateM.run_pure]
  constructor
  · intro h
    injection h with ha hs
    exact ⟨ha, hs⟩
  · rintro ⟨rfl, rfl⟩
    rfl

/-- A computation without effects, run as a program. -/
def lift (x : Except ε α) : EStateM ε σ α := fun s =>
  match x with
  | .ok a    => .ok a s
  | .error e => .error e s

theorem run_lift_eq_ok {x : Except ε α} {s t : σ} {a : α} :
    (lift x).run s = .ok a t ↔ x = .ok a ∧ s = t := by
  cases x with
  | ok b =>
      constructor
      · intro h
        injection h with hb hs
        exact ⟨congrArg _ hb, hs⟩
      · rintro ⟨h, rfl⟩
        rw [Except.ok.inj h]
        rfl
  | error e =>
      constructor
      · intro h
        injection h
      · intro h
        exact absurd h.1 (by simp)

/-! ## What a program leaves behind -/

/-- The state a program leaves, whether it returned or failed. -/
def after (x : EStateM ε σ α) (s : σ) : σ :=
  match x.run s with
  | .ok _ t    => t
  | .error _ t => t

theorem after_of_ok {x : EStateM ε σ α} {s t : σ} {a : α} (h : x.run s = .ok a t) : after x s = t := by
  rw [after, h]

theorem after_of_error {x : EStateM ε σ α} {s t : σ} {e : ε} (h : x.run s = .error e t) : after x s = t := by
  rw [after, h]

theorem after_bind_of_ok {x : EStateM ε σ α} {f : α → EStateM ε σ β} {s t : σ} {a : α}
    (h : x.run s = .ok a t) : after (x >>= f) s = after (f a) t := by
  unfold after
  rw [run_bind_of_ok h]

theorem after_bind_of_error {x : EStateM ε σ α} {f : α → EStateM ε σ β} {s t : σ} {e : ε}
    (h : x.run s = .error e t) : after (x >>= f) s = t := after_of_error (run_bind_of_error h)

/-- What a program returned, if it did. -/
def returned (x : EStateM ε σ α) (s : σ) : Option α :=
  match x.run s with
  | .ok a _    => some a
  | .error _ _ => none

theorem run_of_returned {x : EStateM ε σ α} {s : σ} {a : α} (h : returned x s = some a) :
    x.run s = .ok a (after x s) := by
  unfold returned at h
  unfold after
  cases hr : x.run s with
  | ok b t =>
      rw [hr] at h
      rw [Option.some.inj h]
  | error e t =>
      rw [hr] at h
      exact absurd h (by simp)

/-- Wherever `x` starts, it ends in an `R`-related state. -/
def Keeps (R : σ → σ → Prop) (x : EStateM ε σ α) : Prop := ∀ s, R s (after x s)

section Keeps

variable {R : σ → σ → Prop}

theorem keeps_pure (hrefl : ∀ s, R s s) (a : α) : Keeps R (pure a : EStateM ε σ α) := hrefl

/-- **Sequence rule.** -/
theorem Keeps.bind (htrans : ∀ s t u, R s t → R t u → R s u) {x : EStateM ε σ α} {f : α → EStateM ε σ β}
    (hx : Keeps R x) (hf : ∀ a, Keeps R (f a)) : Keeps R (x >>= f) := by
  intro s
  have hs := hx s
  cases hr : x.run s with
  | error e t =>
      rw [after_of_error hr] at hs
      rw [after_bind_of_error hr]
      exact hs
  | ok a t =>
      rw [after_of_ok hr] at hs
      rw [after_bind_of_ok hr]
      exact htrans s t _ hs (hf a t)

end Keeps

/-! ## Parts of a state -/

/-- A program run on the first half of the state. -/
def onFst (x : EStateM ε σ α) : EStateM ε (σ × τ) α := fun s =>
  match x.run s.1 with
  | .ok a t    => .ok a (t, s.2)
  | .error e t => .error e (t, s.2)

/-- A program run with a second half of its own, which nobody sees afterwards. -/
def privately (own : τ) (x : EStateM ε (σ × τ) α) : EStateM ε σ α := fun s =>
  match x.run (s, own) with
  | .ok a t    => .ok a t.1
  | .error e t => .error e t.1

theorem run_onFst_of_ok {x : EStateM ε σ α} {s : σ × τ} {t : σ} {a : α} (h : x.run s.1 = .ok a t) :
    (onFst x).run s = .ok a (t, s.2) := by
  show onFst x s = _
  rw [onFst, h]

theorem run_onFst_of_error {x : EStateM ε σ α} {s : σ × τ} {t : σ} {e : ε} (h : x.run s.1 = .error e t) :
    (onFst x).run s = .error e (t, s.2) := by
  show onFst x s = _
  rw [onFst, h]

theorem run_privately_of_ok {x : EStateM ε (σ × τ) α} {own : τ} {s : σ} {t : σ × τ} {a : α}
    (h : x.run (s, own) = .ok a t) : (privately own x).run s = .ok a t.1 := by
  show privately own x s = _
  rw [privately, h]

theorem run_privately_of_error {x : EStateM ε (σ × τ) α} {own : τ} {s : σ} {t : σ × τ} {e : ε}
    (h : x.run (s, own) = .error e t) : (privately own x).run s = .error e t.1 := by
  show privately own x s = _
  rw [privately, h]

theorem after_privately (x : EStateM ε (σ × τ) α) (own : τ) (s : σ) :
    after (privately own x) s = (after x (s, own)).1 := by
  cases hr : x.run (s, own) with
  | ok a t    => rw [after_of_ok (run_privately_of_ok hr), after_of_ok hr]
  | error e t => rw [after_of_error (run_privately_of_error hr), after_of_error hr]

theorem run_privately_eq_ok {x : EStateM ε (σ × τ) α} {own : τ} {s u : σ} {a : α} :
    (privately own x).run s = .ok a u ↔ ∃ own', x.run (s, own) = .ok a (u, own') := by
  cases hr : x.run (s, own) with
  | ok b t =>
      rw [run_privately_of_ok hr]
      constructor
      · intro h
        injection h with hb hu
        exact ⟨t.2, by rw [hb, ← hu]⟩
      · rintro ⟨own', h⟩
        injection h with hb ht
        rw [hb, ht]
  | error e t =>
      rw [run_privately_of_error hr]
      exact ⟨fun h => absurd h (by simp), fun ⟨_, h⟩ => absurd h (by simp)⟩

/-! ## Programs that keep a log -/

/-- A result whose state comes with a second half. -/
def alongside (own : τ) : EStateM.Result ε σ α → EStateM.Result ε (σ × τ) α
  | .ok a t    => .ok a (t, own)
  | .error e t => .error e (t, own)

theorem alongside_eq_ok {own own' : τ} {r : EStateM.Result ε σ α} {t : σ} {a : α} :
    alongside own r = .ok a (t, own') ↔ r = .ok a t ∧ own = own' := by
  cases r with
  | ok b s =>
      constructor
      · intro h
        injection h with hb hs
        injection hs with hs hown
        exact ⟨by rw [hb, hs], hown⟩
      · rintro ⟨h, rfl⟩
        injection h with hb hs
        rw [hb, hs]
        rfl
  | error e s =>
      constructor
      · intro h
        injection h
      · intro h
        exact absurd h.1 (by simp)

/-- Note `n`, and run `x`. -/
def noting (n : κ) (x : EStateM ε σ α) : EStateM ε (σ × List κ) α := fun s => alongside (s.2 ++ [n]) (x.run s.1)

theorem run_noting_eq_ok {n : κ} {x : EStateM ε σ α} {s t : σ} {log log' : List κ} {a : α} :
    (noting n x).run (s, log) = .ok a (t, log') ↔ x.run s = .ok a t ∧ log ++ [n] = log' := alongside_eq_ok

/-- `y` does what `x` does, and notes `φ`-things while it does. -/
def Notes (φ : κ → Prop) (x : EStateM ε σ α) (y : EStateM ε (σ × List κ) α) : Prop :=
  ∀ s log, ∃ made, (∀ n ∈ made, φ n) ∧ y.run (s, log) = alongside (log ++ made) (x.run s)

section Notes

variable {φ : κ → Prop} {x : EStateM ε σ α} {y : EStateM ε (σ × List κ) α}

theorem notes_pure (a : α) : Notes φ (pure a : EStateM ε σ α) (pure a) := by
  intro s log
  refine ⟨[], by simp, ?_⟩
  rw [List.append_nil]
  rfl

/-- A program that knows nothing of the log notes nothing. -/
theorem notes_onFst (x : EStateM ε σ α) : Notes φ x (onFst x) := by
  intro s log
  refine ⟨[], by simp, ?_⟩
  rw [List.append_nil]
  cases hx : x.run s with
  | ok a t    => exact run_onFst_of_ok hx
  | error e t => exact run_onFst_of_error hx

theorem notes_noting {n : κ} (hn : φ n) (x : EStateM ε σ α) : Notes φ x (noting n x) := by
  intro s log
  refine ⟨[n], ?_, rfl⟩
  intro m hm
  rw [List.mem_singleton.mp hm]
  exact hn

/-- **Sequence rule.** -/
theorem Notes.bind {f : α → EStateM ε σ β} {g : α → EStateM ε (σ × List κ) β} (h : Notes φ x y)
    (hf : ∀ a, Notes φ (f a) (g a)) : Notes φ (x >>= f) (y >>= g) := by
  intro s log
  obtain ⟨made, hmade, hy⟩ := h s log
  cases hx : x.run s with
  | error e t =>
      rw [hx] at hy
      refine ⟨made, hmade, ?_⟩
      rw [run_bind_of_error hx, run_bind_of_error hy]
      rfl
  | ok a t =>
      rw [hx] at hy
      obtain ⟨more, hmore, hg⟩ := hf a t (log ++ made)
      refine ⟨made ++ more, ?_, ?_⟩
      · intro n hn
        rcases List.mem_append.mp hn with hn | hn
        · exact hmade n hn
        · exact hmore n hn
      · rw [run_bind_of_ok hx, run_bind_of_ok hy, hg, List.append_assoc]

/-- **Forgetting the log** leaves the program. -/
theorem Notes.erase (h : Notes φ x y) (log : List κ) {s t : σ} {a : α} :
    (∃ log', y.run (s, log) = .ok a (t, log')) ↔ x.run s = .ok a t := by
  obtain ⟨made, _, hy⟩ := h s log
  rw [hy]
  constructor
  · rintro ⟨log', hlog⟩
    exact (alongside_eq_ok.mp hlog).1
  · intro hx
    exact ⟨_, alongside_eq_ok.mpr ⟨hx, rfl⟩⟩

/-- What was noted, beginning with an empty log. -/
theorem Notes.noted (h : Notes φ x y) {s t : σ} {made : List κ} {a : α} (hy : y.run (s, []) = .ok a (t, made)) :
    ∀ n ∈ made, φ n := by
  obtain ⟨made', hmade, hrun⟩ := h s []
  obtain ⟨_, rfl⟩ := alongside_eq_ok.mp (hrun.symm.trans hy)
  exact hmade

end Notes

end Session
