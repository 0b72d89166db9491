import SoroSense.Lib.Transition
import Mathlib.Data.List.Nodup
import Mathlib.Logic.Function.Basic

/-!
# `Lib.Tickets` — numbered tickets, one open ticket per slot

A desk hands out tickets numbered by one counter. Each slot holds at most one open ticket: issuing a ticket
for a slot puts it in place of whatever was open there, redeeming an open ticket closes it.

* `Sound` — open tickets carry numbers already handed out, and no two slots share one;
* `issued_pairwise` — the numbers of a run strictly increase;
* `redeemed_nodup` — no number is redeemed twice;
* `Spent.not_redeemed` — a number handed out and no longer open, whether redeemed or superseded, is never
  redeemed again;
* `Known.step` — a ticket that was open once is the only one ever open under its number.
-/

namespace Tickets

open Transition

universe u v

variable {κ : Type u} {τ : Type v}

/-- The counter and the open tickets. -/
structure Desk (κ : Type u) (τ : Type v) where
  counter : Nat
  slot    : κ → Option τ

/-- What happens at the desk. -/
inductive Move (κ : Type u) (τ : Type v) where
  | issue (k : κ) (t : τ)
  | redeem (k : κ) (t : τ)
  | idle

/-- One move. -/
inductive Step [DecidableEq κ] (number : τ → Nat) (d : Desk κ τ) : Move κ τ → Desk κ τ → Prop where
  | issue {k : κ} {t : τ} (hn : number t = d.counter + 1) :
      Step number d (.issue k t) ⟨d.counter + 1, Function.update d.slot k (some t)⟩
  | redeem {k : κ} {t : τ} (ho : d.slot k = some t) :
      Step number d (.redeem k t) ⟨d.counter, Function.update d.slot k none⟩
  | idle : Step number d .idle d

/-- The number a transition hands out. -/
def issued (number : τ → Nat) (e : Event (Desk κ τ) (Move κ τ)) : Option Nat :=
  match e.label with
  | .issue _ t => some (number t)
  | _          => none

/-- The number a transition redeems. -/
def redeemed (number : τ → Nat) (e : Event (Desk κ τ) (Move κ τ)) : Option Nat :=
  match e.label with
  | .redeem _ t => some (number t)
  | _           => none

/-- Open tickets carry numbers already handed out, each its own. -/
structure Sound (number : τ → Nat) (d : Desk κ τ) : Prop where
  bounded  : ∀ k t, d.slot k = some t → number t ≤ d.counter
  distinct : ∀ k l t t', d.slot k = some t → d.slot l = some t' → number t = number t' → k = l

/-- The number was handed out, and no open ticket carries it. -/
structure Spent (number : τ → Nat) (n : Nat) (d : Desk κ τ) : Prop where
  le   : n ≤ d.counter
  gone : ∀ k t, d.slot k = some t → number t ≠ n

/-- The ticket was handed out, and no other is open under its number. -/
structure Known (number : τ → Nat) (k : κ) (t : τ) (d : Desk κ τ) : Prop where
  le   : number t ≤ d.counter
  only : ∀ l u, d.slot l = some u → number u = number t → l = k ∧ u = t

variable [DecidableEq κ] {number : τ → Nat} {d d' : Desk κ τ} {m : Move κ τ} {k : κ} {t t' : τ} {n : Nat}
  {tr : List (Event (Desk κ τ) (Move κ τ))}

/-! ## One move -/

/-- What is open after a ticket was issued. -/
theorem slot_issue {l : κ} (h : Function.update d.slot k (some t) l = some t') :
    (l = k ∧ t' = t) ∨ (l ≠ k ∧ d.slot l = some t') := by
  by_cases hl : l = k
  · subst hl
    rw [Function.update_self] at h
    exact Or.inl ⟨rfl, (Option.some.inj h).symm⟩
  · rw [Function.update_of_ne hl] at h
    exact Or.inr ⟨hl, h⟩

/-- What is open after a ticket was closed. -/
theorem slot_redeem {l : κ} (h : Function.update d.slot k none l = some t') : l ≠ k ∧ d.slot l = some t' := by
  by_cases hl : l = k
  · subst hl
    rw [Function.update_self] at h
    exact absurd h (by simp)
  · rw [Function.update_of_ne hl] at h
    exact ⟨hl, h⟩

theorem Sound.step (h : Sound number d) (hs : Step number d m d') : Sound number d' := by
  cases hs with
  | idle => exact h
  | @issue k t hn =>
      refine ⟨fun l u hu => ?_, fun l l' u u' hu hu' he => ?_⟩
      · show number u ≤ d.counter + 1
        rcases slot_issue hu with ⟨_, rfl⟩ | ⟨_, hold⟩
        · exact le_of_eq hn
        · exact Nat.le_succ_of_le (h.bounded l u hold)
      · -- the new number is above every number handed out before
        rcases slot_issue hu with ⟨hl, rfl⟩ | ⟨_, hold⟩ <;> rcases slot_issue hu' with ⟨hl', rfl⟩ | ⟨_, hold'⟩
        · rw [hl, hl']
        · have := h.bounded l' u' hold'
          omega
        · have := h.bounded l u hold
          omega
        · exact h.distinct l l' u u' hold hold' he
  | redeem _ =>
      exact ⟨fun l u hu => h.bounded l u (slot_redeem hu).2,
        fun l l' u u' hu hu' => h.distinct l l' u u' (slot_redeem hu).2 (slot_redeem hu').2⟩

/-- The counter only counts up. -/
theorem Step.counter_le (hs : Step number d m d') : d.counter ≤ d'.counter := by
  cases hs with
  | issue _  => exact Nat.le_succ _
  | redeem _ => exact le_refl _
  | idle     => exact le_refl _

/-- A spent number stays spent. -/
theorem Spent.step (h : Spent number n d) (hs : Step number d m d') : Spent number n d' := by
  refine ⟨le_trans h.le hs.counter_le, fun l u hu => ?_⟩
  cases hs with
  | idle     => exact h.gone l u hu
  | redeem _ => exact h.gone l u (slot_redeem hu).2
  | issue hn =>
      rcases slot_issue hu with ⟨_, rfl⟩ | ⟨_, hold⟩
      · have := h.le
        omega
      · exact h.gone l u hold

/-- Redeeming a ticket spends its number. -/
theorem Sound.spent_of_redeem (h : Sound number d) (hs : Step number d (.redeem k t) d') :
    Spent number (number t) d' := by
  cases hs with
  | redeem ho =>
      refine ⟨h.bounded k t ho, fun l u hu he => ?_⟩
      obtain ⟨hl, hold⟩ := slot_redeem hu
      exact hl (h.distinct l k u t hold ho he)

/-- So does issuing another one in its place. -/
theorem Sound.spent_of_issue (h : Sound number d) (hs : Step number d (.issue k t') d')
    (ho : d.slot k = some t) : Spent number (number t) d' := by
  have hle := h.bounded k t ho
  cases hs with
  | issue hn =>
      refine ⟨Nat.le_succ_of_le hle, fun l u hu he => ?_⟩
      rcases slot_issue hu with ⟨_, rfl⟩ | ⟨hl, hold⟩
      · omega
      · exact hl (h.distinct l k u t hold ho he)

omit [DecidableEq κ] in
/-- An open ticket is known by its number. -/
theorem Sound.known (h : Sound number d) (ho : d.slot k = some t) : Known number k t d := by
  refine ⟨h.bounded k t ho, fun l u hu hn => ?_⟩
  obtain rfl := h.distinct l k u t hu ho hn
  exact ⟨rfl, Option.some.inj (hu.symm.trans ho)⟩

/-- **A known ticket stays known**, whatever is issued and redeemed. -/
theorem Known.step (h : Known number k t d) (hs : Step number d m d') : Known number k t d' := by
  refine ⟨le_trans h.le hs.counter_le, fun l u hu hn => ?_⟩
  cases hs with
  | idle     => exact h.only l u hu hn
  | redeem _ => exact h.only l u (slot_redeem hu).2 hn
  | issue hi =>
      rcases slot_issue hu with ⟨_, rfl⟩ | ⟨_, hold⟩
      · have := h.le
        omega
      · exact h.only l u hold hn

/-- **What issuing says**: the ticket has the next number, lies open in its slot, and no other slot changed. -/
theorem Step.of_issue (hs : Step number d (.issue k t) d') :
    number t = d.counter + 1 ∧ d'.slot k = some t ∧ ∀ l, l ≠ k → d'.slot l = d.slot l := by
  cases hs with
  | issue hn =>
      refine ⟨hn, ?_, fun l hl => ?_⟩
      · exact Function.update_self ..
      · exact Function.update_of_ne hl ..

/-- **What redeeming says**: the ticket lay open in its slot, which is empty now, and no other changed. -/
theorem Step.of_redeem (hs : Step number d (.redeem k t) d') :
    d.slot k = some t ∧ d'.slot k = none ∧ ∀ l, l ≠ k → d'.slot l = d.slot l := by
  cases hs with
  | redeem ho =>
      refine ⟨ho, ?_, fun l hl => ?_⟩
      · exact Function.update_self ..
      · exact Function.update_of_ne hl ..

theorem Step.of_idle (hs : Step number d .idle d') : d' = d := by
  cases hs with
  | idle => rfl

/-- What a move redeems was open. -/
theorem Step.open_of_redeemed (hs : Step number d m d') (hn : redeemed number ⟨d, m, d'⟩ = some n) :
    ∃ k t, d.slot k = some t ∧ number t = n := by
  cases hs with
  | issue _        => exact absurd hn (by simp [redeemed])
  | idle           => exact absurd hn (by simp [redeemed])
  | @redeem k t ho => exact ⟨k, t, ho, by simpa [redeemed] using hn⟩

/-- A move hands out the next number. -/
theorem Step.issued_eq (hs : Step number d m d') (hn : issued number ⟨d, m, d'⟩ = some n) :
    n = d.counter + 1 := by
  cases hs with
  | redeem _      => exact absurd hn (by simp [issued])
  | idle          => exact absurd hn (by simp [issued])
  | @issue k t ht =>
      have ht' : number t = n := by simpa [issued] using hn
      exact ht'.symm.trans ht

/-! ## Every run -/

/-- **What is spent is never redeemed again.** -/
theorem Spent.not_redeemed (h : Spent number n d) (hr : Run (Step number) d tr d') :
    ∀ e ∈ tr, redeemed number e ≠ some n := by
  intro e he hn
  obtain ⟨hs, hst, _⟩ := hr.invariant_events (P := Spent number n) (fun _ _ _ hs hst => hs.step hst) h e he
  obtain ⟨k, t, ho, ht⟩ := hst.open_of_redeemed hn
  exact hs.gone k t ho ht

/-- **No number is redeemed twice.** -/
theorem redeemed_nodup (h : Sound number d) (hr : Run (Step number) d tr d') :
    (tr.filterMap (redeemed number)).Nodup := by
  induction hr with
  | nil d => exact List.nodup_nil
  | @cons d s d' m tr hs hrest ih =>
      have hnd := ih (h.step hs)
      cases m with
      | issue k t => exact hnd
      | idle      => exact hnd
      | redeem k t =>
          show (number t :: tr.filterMap (redeemed number)).Nodup
          refine List.nodup_cons.mpr ⟨fun hmem => ?_, hnd⟩
          obtain ⟨e, he, hn⟩ := List.mem_filterMap.mp hmem
          exact (h.spent_of_redeem hs).not_redeemed hrest e he hn

/-- The numbers of a run are above the counter it starts from. -/
theorem counter_lt_issued (hr : Run (Step number) d tr d') :
    ∀ n ∈ tr.filterMap (issued number), d.counter < n := by
  intro n hn
  obtain ⟨e, he, hn⟩ := List.mem_filterMap.mp hn
  obtain ⟨hle, hst, _⟩ := hr.invariant_events (P := fun s => d.counter ≤ s.counter)
    (fun _ _ _ hs hst => le_trans hs hst.counter_le) (le_refl _) e he
  have heq := hst.issued_eq hn
  omega

/-- **Numbers strictly increase.** -/
theorem issued_pairwise (hr : Run (Step number) d tr d') :
    (tr.filterMap (issued number)).Pairwise (· < ·) := by
  induction hr with
  | nil d => exact List.Pairwise.nil
  | @cons d s d' m tr hs hrest ih =>
      cases hs with
      | redeem _      => exact ih
      | idle          => exact ih
      | @issue k t hn =>
          show (number t :: tr.filterMap (issued number)).Pairwise (· < ·)
          refine List.Pairwise.cons (fun n hmem => ?_) ih
          have hlt : d.counter + 1 < n := counter_lt_issued hrest n hmem
          omega

end Tickets
