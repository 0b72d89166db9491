import SoroSense.Lib.Fallible
import Mathlib.Logic.Function.Basic
import Mathlib.Data.List.Basic

/-!
# `Lib.Keyed` — a log replayed into accounts, key by key

A **replay** folds a log of records into a map from keys to accounts: each record names one key and
rewrites that key's account, or refuses. The whole replay stops at the first refusal.

* `Replay.run_eq_ok` — in a replay that returned, every account is the one its own records rebuild alone;
* `Replay.run_isOk_iff` — the replay returns **iff** each key's own records replay.

So what is rebuilt for a key depends on that key's records only, but *whether* anything is rebuilt depends
on everybody's.
-/

namespace Keyed

open Fallible

/-- What the records of a log do to accounts. -/
structure Replay (α κ β : Type) (ε : Type) where
  key   : α → κ
  start : β
  apply : α → β → Except ε β

namespace Replay

variable {α κ β ε : Type} [DecidableEq κ] (R : Replay α κ β ε)

/-- The account of one key, `start` when the map has none. -/
def read (m : κ → Option β) (k : κ) : β := (m k).getD R.start

/-- One record replayed into the map. -/
def step (m : κ → Option β) (a : α) : Except ε (κ → Option β) := do
  let b ← R.apply a (R.read m (R.key a))
  .ok (Function.update m (R.key a) (some b))

/-- A log replayed into the empty map. -/
def run (l : List α) : Except ε (κ → Option β) := l.foldlM R.step (fun _ => none)

/-- The records of one key. -/
def records (l : List α) (k : κ) : List α := l.filter fun a => decide (R.key a = k)

/-- One account rebuilt from `b` by its own records. -/
def account (b : β) (l : List α) : Except ε β := l.foldlM (fun b a => R.apply a b) b

variable {R}

theorem records_cons_self {a : α} {l : List α} : R.records (a :: l) (R.key a) = a :: R.records l (R.key a) := by
  unfold records
  rw [List.filter_cons_of_pos (by simp)]

theorem records_cons_ne {a : α} {l : List α} {k : κ} (h : R.key a ≠ k) :
    R.records (a :: l) k = R.records l k := by
  unfold records
  rw [List.filter_cons_of_neg (by simpa using h)]

omit [DecidableEq κ] in
theorem account_cons {a : α} {l : List α} {b : β} :
    R.account b (a :: l) = R.apply a b >>= fun b' => R.account b' l := List.foldlM_cons

omit [DecidableEq κ] in
theorem account_append {l l' : List α} {b : β} :
    R.account b (l ++ l') = R.account b l >>= fun b' => R.account b' l' := List.foldlM_append

/-- The record's own account is rewritten, -/
theorem read_update_self {m : κ → Option β} {k : κ} {b : β} :
    R.read (Function.update m k (some b)) k = b := by
  unfold read
  rw [Function.update_self]
  rfl

/-- … and no other. -/
theorem read_update_ne {m : κ → Option β} {k k' : κ} {b : β} (h : k' ≠ k) :
    R.read (Function.update m k (some b)) k' = R.read m k' := by
  unfold read
  rw [Function.update_of_ne h]

theorem step_eq_ok {m m' : κ → Option β} {a : α} :
    R.step m a = .ok m' ↔
      ∃ b, R.apply a (R.read m (R.key a)) = .ok b ∧ Function.update m (R.key a) (some b) = m' := by
  unfold step
  simp only [bind_eq_ok, ok_eq_ok]

/-! ## From any map -/

/-- In a replay that returned, each account is the one its own records rebuild. -/
theorem foldlM_eq_ok {l : List α} {m m' : κ → Option β} (h : l.foldlM R.step m = .ok m') (k : κ) :
    R.account (R.read m k) (R.records l k) = .ok (R.read m' k) := by
  induction l generalizing m with
  | nil =>
      rw [List.foldlM_nil, pure_eq_ok] at h
      subst h
      rfl
  | cons a l ih =>
      rw [List.foldlM_cons, bind_eq_ok] at h
      obtain ⟨m₁, hstep, hrest⟩ := h
      obtain ⟨b, hb, rfl⟩ := step_eq_ok.mp hstep
      have hk := ih hrest
      by_cases hak : R.key a = k
      · subst hak
        rw [read_update_self] at hk
        rw [records_cons_self, account_cons, hb]
        exact hk
      · rw [read_update_ne (fun h => hak h.symm)] at hk
        rw [records_cons_ne hak]
        exact hk

/-- The map has an account for a key exactly when it had one, or the log has a record of it. -/
theorem isSome_of_foldlM {l : List α} {m m' : κ → Option β} (h : l.foldlM R.step m = .ok m') (k : κ) :
    (m' k).isSome = ((m k).isSome || !(R.records l k).isEmpty) := by
  induction l generalizing m with
  | nil =>
      rw [List.foldlM_nil, pure_eq_ok] at h
      subst h
      simp [records]
  | cons a l ih =>
      rw [List.foldlM_cons, bind_eq_ok] at h
      obtain ⟨m₁, hstep, hrest⟩ := h
      obtain ⟨b, _, rfl⟩ := step_eq_ok.mp hstep
      rw [ih hrest]
      by_cases hak : R.key a = k
      · subst hak
        rw [records_cons_self, Function.update_self]
        simp
      · rw [records_cons_ne hak, Function.update_of_ne (fun h => hak h.symm)]

/-- If each key's own records replay, so does the log. -/
theorem foldlM_isOk {l : List α} {m : κ → Option β}
    (h : ∀ k, ∃ b, R.account (R.read m k) (R.records l k) = .ok b) : ∃ m', l.foldlM R.step m = .ok m' := by
  induction l generalizing m with
  | nil => exact ⟨m, rfl⟩
  | cons a l ih =>
      obtain ⟨b, hb⟩ := h (R.key a)
      rw [records_cons_self, account_cons, bind_eq_ok] at hb
      obtain ⟨b₁, hfirst, hb⟩ := hb
      have hrest : ∀ k, ∃ b, R.account (R.read (Function.update m (R.key a) (some b₁)) k) (R.records l k)
          = .ok b := by
        intro k
        by_cases hak : R.key a = k
        · subst hak
          rw [read_update_self]
          exact ⟨b, hb⟩
        · rw [read_update_ne (fun h => hak h.symm), ← records_cons_ne hak]
          exact h k
      obtain ⟨m', hm'⟩ := ih hrest
      refine ⟨m', ?_⟩
      rw [List.foldlM_cons, bind_eq_ok]
      exact ⟨_, step_eq_ok.mpr ⟨b₁, hfirst, rfl⟩, hm'⟩

/-! ## From the empty map -/

/-- **What is rebuilt for a key depends on that key's records only.** -/
theorem run_eq_ok {l : List α} {m : κ → Option β} (h : R.run l = .ok m) (k : κ) :
    R.account R.start (R.records l k) = .ok (R.read m k) := foldlM_eq_ok h k

/-- Two replays that returned rebuilt one entry for a key of the same records. -/
theorem run_congr {l l' : List α} {m m' : κ → Option β} (h : R.run l = .ok m) (h' : R.run l' = .ok m') {k : κ}
    (hk : R.records l k = R.records l' k) : m k = m' k := by
  have hread : R.read m k = R.read m' k := by
    have hacc := run_eq_ok h k
    rw [hk] at hacc
    exact ok_unique hacc (run_eq_ok h' k)
  have hsome : (m k).isSome = (m' k).isSome := by
    rw [isSome_of_foldlM h k, isSome_of_foldlM h' k, hk]
  unfold read at hread
  cases hm : m k with
  | none =>
      rw [hm] at hsome
      exact (Option.isNone_iff_eq_none.mp (Option.isSome_eq_false_iff.mp hsome.symm)).symm
  | some b =>
      cases hm' : m' k with
      | none    => rw [hm, hm'] at hsome; exact absurd hsome (by simp)
      | some b' => rw [hm, hm'] at hread; exact congrArg some hread

/-- **Whether anything is rebuilt depends on every key's records.** -/
theorem run_isOk_iff {l : List α} :
    (∃ m, R.run l = .ok m) ↔ ∀ k, ∃ b, R.account R.start (R.records l k) = .ok b :=
  ⟨fun ⟨_, h⟩ k => ⟨_, run_eq_ok h k⟩, fun h => foldlM_isOk h⟩

end Replay
end Keyed
