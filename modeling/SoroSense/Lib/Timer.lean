import SoroSense.Lib.Transition

/-!
# `Lib.Timer` — a timer that skips a tick while one is running

An asynchronous handler runs in pieces: between two of them it waits for an answer, and anything else may
happen. A timer starts it again and again, and a flag keeps it from starting a tick while one has not ended.
The handler may also be called, and awaited, before the timer is set.

* `TickHandler` — the pieces: up to the first wait, and from an answer to the next wait or to the end;
* `Loop.Step` — one call, firing, piece or stop, and `Loop.move`, which computes it;
* `Loop.Alone` — never two ticks at once, whatever the order of the answers and the firings;
* `TickHandler.Whole` — a tick that runs from its start to its end with nothing in between;
* `whole_ticks` — every run is a run of whole ticks, and of one that is still waiting.
-/

namespace Timer

open Transition

variable {ω τ α : Type}

/-- What the ticks of a handler do to the state `ω` that only they change. -/
structure TickHandler (ω τ α : Type) where
  /-- Where it first waits, unless it ends before. -/
  start  : ω → Option τ
  /-- From an answer to where it waits next, unless it ends. -/
  resume : ω → τ → α → ω × Option τ

/-- A handler under a timer: the timer is set, the flag of the guard, and the ticks that have not ended. -/
structure Loop (ω τ : Type) where
  own     : ω
  armed   : Bool
  running : Bool
  ticks   : List τ

/-- What happens to a handler. -/
inductive Move (α : Type) where
  /-- It is called and awaited, with no timer set. -/
  | call
  /-- The timer is set. -/
  | arm
  /-- The interval is over. -/
  | fire
  /-- One of the ticks gets the answer it waits for. -/
  | answer (a : α)
  /-- The timer is cleared. -/
  | stop

namespace Loop

variable {h : TickHandler ω τ α} {s s' : Loop ω τ} {m : Move α}

def idle (o : ω) : Loop ω τ := { own := o, armed := false, running := false, ticks := [] }

/-- A tick starts: the flag is set until it has ended, which may be at once. -/
def started (h : TickHandler ω τ α) (s : Loop ω τ) : Loop ω τ :=
  { s with running := (h.start s.own).isSome, ticks := s.ticks ++ (h.start s.own).toList }

/-- The tick `t`, between the ticks `before` and `after`, goes on; if it ends, the flag is cleared. -/
def resumed (h : TickHandler ω τ α) (s : Loop ω τ) (before after : List τ) (t : τ) (a : α) : Loop ω τ :=
  { own     := (h.resume s.own t a).1
    armed   := s.armed
    running := s.running && (h.resume s.own t a).2.isSome
    ticks   := before ++ (h.resume s.own t a).2.toList ++ after }

inductive Step (h : TickHandler ω τ α) (s : Loop ω τ) : Move α → Loop ω τ → Prop where
  | called (hunset : s.armed = false) (hnone : s.ticks = []) :
      Step h s .call { s with ticks := (h.start s.own).toList }
  | armed (hnone : s.ticks = []) : Step h s .arm { s with armed := true, running := false }
  | skipped (hset : s.armed = true) (hbusy : s.running = true) : Step h s .fire s
  | fired (hset : s.armed = true) (hfree : s.running = false) : Step h s .fire (s.started h)
  | resumed {before after : List τ} {t : τ} {a : α} (hticks : s.ticks = before ++ t :: after) :
      Step h s (.answer a) (s.resumed h before after t a)
  | stopped : Step h s .stop { s with armed := false }

/-- The step, computed; an answer goes to the tick that started first. -/
def move (h : TickHandler ω τ α) (s : Loop ω τ) : Move α → Option (Loop ω τ)
  | .call     => if s.armed = false ∧ s.ticks.isEmpty = true then some { s with ticks := (h.start s.own).toList } else none
  | .arm      => if s.ticks.isEmpty then some { s with armed := true, running := false } else none
  | .fire     => if s.armed then some (if s.running then s else s.started h) else none
  | .answer a =>
      match s.ticks with
      | []        => none
      | t :: rest => some (s.resumed h [] rest t a)
  | .stop     => some { s with armed := false }

theorem step_of_move (hm : s.move h m = some s') : Step h s m s' := by
  cases m with
  | call =>
      obtain ⟨⟨hunset, hnone⟩, hs⟩ := Option.ite_none_right_eq_some.mp hm
      obtain rfl := Option.some.inj hs
      exact .called hunset (List.isEmpty_iff.mp hnone)
  | arm =>
      obtain ⟨hnone, hs⟩ := Option.ite_none_right_eq_some.mp hm
      obtain rfl := Option.some.inj hs
      exact .armed (List.isEmpty_iff.mp hnone)
  | fire =>
      obtain ⟨hset, hs⟩ := Option.ite_none_right_eq_some.mp hm
      obtain rfl := Option.some.inj hs
      split
      case isTrue hbusy  => exact .skipped hset hbusy
      case isFalse hfree => exact .fired hset (Bool.eq_false_iff.mpr hfree)
  | answer a =>
      unfold move at hm
      cases hticks : s.ticks with
      | nil =>
          simp only [hticks] at hm
          exact absurd hm (by simp)
      | cons t rest =>
          simp only [hticks] at hm
          obtain rfl := Option.some.inj hm
          exact .resumed hticks
  | stop =>
      obtain rfl := Option.some.inj hm
      exact .stopped

/-- **At most one tick**, and with the timer set none unless the flag says so. -/
structure Alone (s : Loop ω τ) : Prop where
  one     : s.ticks.length ≤ 1
  flagged : s.armed = true → s.running = false → s.ticks = []

theorem Alone.idle (o : ω) : (idle o : Loop ω τ).Alone := ⟨Nat.zero_le 1, fun _ _ => rfl⟩

theorem length_toList_le (n : Option τ) : n.toList.length ≤ 1 := by
  cases n with
  | none   => exact Nat.zero_le 1
  | some t => exact le_refl 1

/-- The tick that gets an answer is the only one. -/
theorem Alone.only {before after : List τ} {t : τ} (hs : s.Alone) (hticks : s.ticks = before ++ t :: after) :
    before = [] ∧ after = [] := by
  have hlen := hs.one
  rw [hticks, List.length_append, List.length_cons] at hlen
  constructor
  · exact List.eq_nil_of_length_eq_zero (by omega)
  · exact List.eq_nil_of_length_eq_zero (by omega)

/-- **No step starts a second tick.** -/
theorem Alone.step (hs : s.Alone) (hstep : Step h s m s') : s'.Alone := by
  cases hstep with
  | called hunset _ =>
      refine ⟨length_toList_le _, ?_⟩
      intro hset
      exact absurd (hset.symm.trans hunset) (by simp)
  | armed hnone =>
      refine ⟨hs.one, ?_⟩
      intro _ _
      exact hnone
  | skipped => exact hs
  | fired hset hfree =>
      have hnone := hs.flagged hset hfree
      constructor
      · show (s.ticks ++ _).length ≤ 1
        rw [hnone, List.nil_append]
        exact length_toList_le _
      · intro _ hflag
        show s.ticks ++ (h.start s.own).toList = []
        have hended : h.start s.own = none := Option.isSome_eq_false_iff.mp hflag |> Option.isNone_iff_eq_none.mp
        rw [hnone, hended]
        rfl
  | @resumed before after t a hticks =>
      obtain ⟨rfl, rfl⟩ := hs.only hticks
      constructor
      · show ([] ++ (h.resume s.own t a).2.toList ++ []).length ≤ 1
        rw [List.nil_append, List.append_nil]
        exact length_toList_le _
      · intro hset hflag
        show [] ++ (h.resume s.own t a).2.toList ++ [] = []
        -- the flag was set, for there was a tick: it is clear now because that one ended
        have hbusy : s.running = true := by
          by_contra hfree
          have := hs.flagged hset (Bool.eq_false_iff.mpr hfree)
          exact absurd (hticks.symm.trans this) (by simp)
        have hboth : (s.running && (h.resume s.own t a).2.isSome) = false := hflag
        rw [hbusy, Bool.true_and, Option.isSome_eq_false_iff, Option.isNone_iff_eq_none] at hboth
        rw [hboth]
        rfl
  | stopped =>
      refine ⟨hs.one, ?_⟩
      intro hset
      exact absurd hset (by simp)

end Loop

/-! ## Whole ticks -/

/-- From where the tick waits at `t` the answers `as` bring it to where it waits next, or to its end. -/
inductive TickHandler.Goes (h : TickHandler ω τ α) (o : ω) (t : τ) : List α → ω → Option τ → Prop where
  | waits : Goes h o t [] o (some t)
  | piece {as : List α} {o' : ω} {t' : τ} {a : α} (hsofar : Goes h o t as o' (some t')) :
      Goes h o t (as ++ [a]) (h.resume o' t' a).1 (h.resume o' t' a).2

/-- A tick from its start to its end. -/
def TickHandler.Whole (h : TickHandler ω τ α) (o : ω) (as : List α) (o' : ω) : Prop :=
  ∃ t, h.start o = some t ∧ h.Goes o t as o' none

/-- The ticks that have ended left `o`; what one that is still waiting has done since is on top. -/
def Loop.Since (h : TickHandler ω τ α) (o : ω) (s : Loop ω τ) : Prop :=
  (s.ticks = [] ∧ s.own = o) ∨
    ∃ t₀ as t, s.ticks = [t] ∧ h.start o = some t₀ ∧ h.Goes o t₀ as s.own (some t)

theorem Loop.Since.start {h : TickHandler ω τ α} {s s' : Loop ω τ} (hown : s'.own = s.own)
    (hticks : s'.ticks = (h.start s.own).toList) : s'.Since h s.own := by
  cases hn : h.start s.own with
  | none =>
      left
      rw [hticks, hn]
      exact ⟨rfl, hown⟩
  | some t =>
      right
      refine ⟨t, [], t, ?_, hn, ?_⟩
      · rw [hticks, hn]
        rfl
      · rw [hown]
        exact .waits

/-- **One step ends the tick that was waiting, or none.** -/
theorem Loop.Since.step {h : TickHandler ω τ α} {s s' : Loop ω τ} {m : Move α} {o : ω} (hs : s.Alone)
    (hsince : s.Since h o) (hstep : Loop.Step h s m s') :
    ∃ tr o', Run h.Whole o tr o' ∧ s'.Since h o' := by
  have hown : s.ticks = [] → s.own = o := by
    intro hnone
    rcases hsince with ⟨_, ho⟩ | ⟨_, _, t, ht, _⟩
    · exact ho
    · exact absurd (ht.symm.trans hnone) (by simp)
  cases hstep with
  | called _ hnone =>
      refine ⟨[], o, .nil o, ?_⟩
      rw [← hown hnone]
      exact .start rfl rfl
  | armed hnone => exact ⟨[], o, .nil o, hsince⟩
  | skipped => exact ⟨[], o, .nil o, hsince⟩
  | fired hset hfree =>
      have hnone := hs.flagged hset hfree
      refine ⟨[], o, .nil o, ?_⟩
      rw [← hown hnone]
      refine .start rfl ?_
      show s.ticks ++ _ = _
      rw [hnone, List.nil_append]
  | @resumed before after t a hticks =>
      obtain ⟨rfl, rfl⟩ := hs.only hticks
      rcases hsince with ⟨hnone, _⟩ | ⟨t₀, as, t', ht, hstart, hgoes⟩
      · exact absurd (hticks.symm.trans hnone) (by simp)
      · obtain rfl : t = t' := by simpa using hticks.symm.trans ht
        have hon := hgoes.piece (a := a)
        cases hnext : (h.resume s.own t a).2 with
        | none =>
            -- the tick ended: it ran whole
            rw [hnext] at hon
            refine ⟨_, _, .single ⟨t₀, hstart, hon⟩, Or.inl ⟨?_, rfl⟩⟩
            show [] ++ (h.resume s.own t a).2.toList ++ [] = []
            rw [hnext]
            rfl
        | some t' =>
            rw [hnext] at hon
            refine ⟨[], o, .nil o, Or.inr ⟨t₀, _, t', ?_, hstart, hon⟩⟩
            show [] ++ (h.resume s.own t a).2.toList ++ [] = [t']
            rw [hnext]
            rfl
  | stopped => exact ⟨[], o, .nil o, hsince⟩

/-- **Every run is a run of whole ticks**, one after the other, and of one that is still waiting. -/
theorem whole_ticks {h : TickHandler ω τ α} {s s' : Loop ω τ} {tr : List (Event (Loop ω τ) (Move α))} {o : ω}
    (hr : Run (Loop.Step h) s tr s') (hs : s.Alone) (hsince : s.Since h o) :
    ∃ tr' o', Run h.Whole o tr' o' ∧ s'.Since h o' := by
  induction hr generalizing o with
  | nil s => exact ⟨[], o, .nil o, hsince⟩
  | cons hstep _ ih =>
      obtain ⟨tr₁, o₁, hrun₁, hsince₁⟩ := hsince.step hs hstep
      obtain ⟨tr₂, o₂, hrun₂, hsince₂⟩ := ih (hs.step hstep) hsince₁
      exact ⟨tr₁ ++ tr₂, o₂, hrun₁.append hrun₂, hsince₂⟩

end Timer
