import SoroSense.Lib.Transition

/-!
# `Lib.Inquiry` — asking a world that moves on meanwhile

An **inquiry** asks the world one question after the other. Between two answers the world moves on by a relation `R`.
`p.Yields R Q w`: an inquiry `p` that stands at the world `w` ends, whatever happens meanwhile, in a result of which
`Q` holds where it ends, or it throws.

* `Yields.bind` / `yields_pure` / `yields_read` — the rules of an inquiry's parts;
* `Yields.later` / `Yields.answer` — what is promised lasts, and an answer keeps it;
* `now` — what an inquiry finds while the world stands still; `now_bind` / `now_read` its parts.

A **viewer** shows the result of one inquiry and may have others under way. An inquiry started anew cancels those
before it: they run on and their results are dropped.

* `Holds.rerun` / `Holds.step` / `Holds.later` — what every inquiry of a viewer yields, what is shown satisfies;
* `run_now` — undisturbed, a viewer shows what its one inquiry finds.
-/

universe u v

/-- A read that awaits the world again and again, and may throw. -/
inductive Inquiry (W : Type u) (α : Type v) where
  | done (a : α)
  | thrown
  | ask (next : W → Inquiry W α)

namespace Inquiry

variable {W : Type u} {α β : Type v}

def bind : Inquiry W α → (α → Inquiry W β) → Inquiry W β
  | .done a, f   => f a
  | .thrown, _   => .thrown
  | .ask next, f => .ask fun w => (next w).bind f

instance : Monad (Inquiry W) where
  pure := .done
  bind := bind

/-- One question, whose answer may be an error. -/
def read {ε : Type} (f : W → Except ε α) : Inquiry W α :=
  .ask fun w => match f w with
    | .ok a    => .done a
    | .error _ => .thrown

/-- What holds of the result where the inquiry ends. -/
def Yields (R : W → W → Prop) (Q : W → α → Prop) : Inquiry W α → W → Prop
  | .done a, w   => Q w a
  | .thrown, _   => True
  | .ask next, w => ∀ w', R w w' → (next w').Yields R Q w'

/-- What it finds while the world stands still, if it does not throw. -/
def now (w : W) : Inquiry W α → Option α
  | .done a   => some a
  | .thrown   => none
  | .ask next => (next w).now w

variable {R : W → W → Prop} {Q Q' : W → α → Prop} {p : Inquiry W α} {w w' : W}

theorem yields_pure {a : α} (h : Q w a) : (pure a : Inquiry W α).Yields R Q w := h

theorem yields_read {ε : Type} {f : W → Except ε α} (h : ∀ w' a, R w w' → f w' = .ok a → Q w' a) :
    (read f).Yields R Q w := by
  intro w' hw
  show Yields R Q (match f w' with | .ok a => .done a | .error _ => .thrown) w'
  cases hf : f w' with
  | ok a    => exact h w' a hw hf
  | error _ => trivial

theorem Yields.bind {Q : W → β → Prop} {f : α → Inquiry W β}
    (h : p.Yields R (fun w a => (f a).Yields R Q w) w) : (p >>= f).Yields R Q w := by
  induction p generalizing w with
  | done a      => exact h
  | thrown      => trivial
  | ask next ih => exact fun w' hw => ih w' (h w' hw)

theorem Yields.mono (h : p.Yields R Q w) (hQ : ∀ w a, Q w a → Q' w a) : p.Yields R Q' w := by
  induction p generalizing w with
  | done a      => exact hQ w a h
  | thrown      => trivial
  | ask next ih => exact fun w' hw => ih w' (h w' hw)

/-- **What is promised lasts**, if the result's property does. -/
theorem Yields.later (h : p.Yields R Q w) (hR : ∀ u v x, R u v → R v x → R u x)
    (hQ : ∀ u v a, Q u a → R u v → Q v a) (hw : R w w') : p.Yields R Q w' := by
  cases p with
  | done a   => exact hQ w w' a h hw
  | thrown   => trivial
  | ask next => exact fun x hx => h x (hR w w' x hw hx)

theorem yields_of_forall (h : ∀ w a, Q w a) : p.Yields R Q w := by
  induction p generalizing w with
  | done a      => exact h w a
  | thrown      => trivial
  | ask next ih => exact fun w' _ => ih w'

theorem Yields.answer {next : W → Inquiry W α} (h : (ask next).Yields R Q w) (hR : R w w) :
    (next w).Yields R Q w := h w hR

/-! ## While the world stands still -/

theorem now_bind (w : W) (p : Inquiry W α) (f : α → Inquiry W β) :
    (p >>= f).now w = (p.now w).bind fun a => (f a).now w := by
  induction p with
  | done a      => rfl
  | thrown      => rfl
  | ask next ih => exact ih w

theorem now_read {ε : Type} {f : W → Except ε α} {a : α} (h : f w = .ok a) : (read f).now w = some a := by
  unfold read
  simp only [now, h]

end Inquiry

/-- An inquiry under way; one that is not live was cancelled. -/
structure Viewing (W : Type u) (α : Type v) where
  inquiry : Inquiry W α
  live    : Bool

/-- What is shown, and the inquiries under way. -/
structure Viewer (W : Type u) (α : Type v) where
  shown    : α
  viewings : List (Viewing W α)

namespace Viewer

variable {W : Type u} {α : Type v} {R : W → W → Prop} {Q : W → α → Prop} {v v' : Viewer W α} {p : Inquiry W α}
  {w w' : W}

/-- Every inquiry under way is cancelled. -/
def cancelled (v : Viewer W α) : Viewer W α :=
  { v with viewings := v.viewings.map fun t => { t with live := false } }

/-- An inquiry is started anew. -/
def rerun (v : Viewer W α) (p : Inquiry W α) : Viewer W α :=
  { v.cancelled with viewings := v.cancelled.viewings ++ [⟨p, true⟩] }

/-- One inquiry goes on, in a world. -/
inductive Step (w : W) (v : Viewer W α) : Viewer W α → Prop where
  | answered {i : ℕ} {next : W → Inquiry W α} {live : Bool} (hi : v.viewings[i]? = some ⟨.ask next, live⟩) :
      Step w v { v with viewings := v.viewings.set i ⟨next w, live⟩ }
  /-- A question that is asked may throw. -/
  | failed {i : ℕ} {next : W → Inquiry W α} {live : Bool} (hi : v.viewings[i]? = some ⟨.ask next, live⟩) :
      Step w v { v with viewings := v.viewings.eraseIdx i }
  | threw {i : ℕ} {live : Bool} (hi : v.viewings[i]? = some ⟨.thrown, live⟩) :
      Step w v { v with viewings := v.viewings.eraseIdx i }
  | settled {i : ℕ} {a : α} {live : Bool} (hi : v.viewings[i]? = some ⟨.done a, live⟩) :
      Step w v { shown := if live = true then a else v.shown, viewings := v.viewings.eraseIdx i }

/-- **What is shown satisfies `Q`**, and what is under way will. -/
structure Holds (R : W → W → Prop) (Q : W → α → Prop) (w : W) (v : Viewer W α) : Prop where
  shown    : Q w v.shown
  viewings : ∀ t ∈ v.viewings, t.inquiry.Yields R Q w

theorem Holds.fresh {a : α} (h : Q w a) : Holds R Q w ⟨a, []⟩ := ⟨h, by simp⟩

theorem Holds.cancelled (h : Holds R Q w v) : Holds R Q w v.cancelled := by
  refine ⟨h.shown, fun t ht => ?_⟩
  obtain ⟨u, hu, rfl⟩ := List.mem_map.mp ht
  exact h.viewings u hu

theorem Holds.rerun (h : Holds R Q w v) (hp : p.Yields R Q w) : Holds R Q w (v.rerun p) := by
  refine ⟨h.shown, fun t ht => ?_⟩
  rcases List.mem_append.mp ht with ht | ht
  · exact h.cancelled.viewings t ht
  · rw [List.mem_singleton.mp ht]
    exact hp

theorem Holds.step (h : Holds R Q w v) (hR : R w w) (hs : Step w v v') : Holds R Q w v' := by
  cases hs with
  | answered hi =>
      refine ⟨h.shown, fun t ht => ?_⟩
      rcases List.mem_or_eq_of_mem_set ht with ht | rfl
      · exact h.viewings t ht
      · exact Inquiry.Yields.answer (h.viewings _ (List.mem_of_getElem? hi)) hR
  | failed _ => exact ⟨h.shown, fun t ht => h.viewings t (List.mem_of_mem_eraseIdx ht)⟩
  | threw _  => exact ⟨h.shown, fun t ht => h.viewings t (List.mem_of_mem_eraseIdx ht)⟩
  | @settled i a live hi =>
      refine ⟨?_, fun t ht => h.viewings t (List.mem_of_mem_eraseIdx ht)⟩
      show Q w (if live = true then a else v.shown)
      split
      · exact h.viewings _ (List.mem_of_getElem? hi)
      · exact h.shown

theorem Holds.later (h : Holds R Q w v) (hR : ∀ u v x, R u v → R v x → R u x)
    (hQ : ∀ u v a, Q u a → R u v → Q v a) (hw : R w w') : Holds R Q w' v :=
  ⟨hQ w w' _ h.shown hw, fun t ht => (h.viewings t ht).later hR hQ hw⟩

/-- **Undisturbed, a viewer shows what its one inquiry finds**, and what it showed before if that throws. -/
theorem run_now (w : W) (x : α) (p : Inquiry W α) :
    ∃ tr, Transition.Run (fun v (_ : Unit) v' => Step w v v') ⟨x, [⟨p, true⟩]⟩ tr ⟨(p.now w).getD x, []⟩ := by
  induction p with
  | done a =>
      have hs : Step w ⟨x, [⟨.done a, true⟩]⟩ ⟨a, []⟩ := Step.settled (v := ⟨x, [⟨.done a, true⟩]⟩) (i := 0) rfl
      exact ⟨_, .single (a := ()) hs⟩
  | thrown =>
      have hs : Step w ⟨x, [⟨.thrown, true⟩]⟩ ⟨x, []⟩ := Step.threw (v := ⟨x, [⟨.thrown, true⟩]⟩) (i := 0) rfl
      exact ⟨_, .single (a := ()) hs⟩
  | ask next ih =>
      obtain ⟨tr, hr⟩ := ih w
      have hs : Step w ⟨x, [⟨.ask next, true⟩]⟩ ⟨x, [⟨next w, true⟩]⟩ :=
        Step.answered (v := ⟨x, [⟨.ask next, true⟩]⟩) (i := 0) rfl
      exact ⟨_, .cons (a := ()) hs hr⟩

end Viewer
