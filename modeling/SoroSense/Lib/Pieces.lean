import Mathlib.Data.List.Basic
import Mathlib.Data.List.Nodup
import Mathlib.Order.MinMax

/-!
# `Lib.Pieces` — a log delivered in overlapping pieces

A reader that keeps one record a key, in order of arrival (`absorb`), and a log that comes in pieces: each a
contiguous slice that starts inside what was delivered already, or right after it (`Delivers`). However the
slices overlap, repeat or come out empty, the reader holds exactly the prefix delivered, in order:
`absorb_delivered`.
-/

namespace Pieces

variable {α κ : Type} [DecidableEq κ] {key : α → κ}

/-- One record a key: a record whose key is held is dropped. -/
def keep (key : α → κ) (held : List α) (a : α) : List α := if key a ∈ held.map key then held else held ++ [a]

/-- What is held after a piece. -/
def absorb (key : α → κ) (held piece : List α) : List α := piece.foldl (keep key) held

/-- The pieces take a reader that has the first `n` records of the log to the first `m`. -/
inductive Delivers (log : List α) : Nat → List (List α) → Nat → Prop where
  | done (n : Nat) : Delivers log n [] n
  | piece {n start len m : Nat} {pieces : List (List α)} (hstart : start ≤ n)
      (hlen : start + len ≤ log.length) (hrest : Delivers log (max n (start + len)) pieces m) :
      Delivers log n ((log.drop start).take len :: pieces) m

variable {log held piece : List α} {n m start len : Nat} {pieces pieces' : List (List α)}

/-! ## One piece -/

/-- A piece of records held already changes nothing. -/
theorem absorb_of_held (h : ∀ a ∈ piece, key a ∈ held.map key) : absorb key held piece = held := by
  induction piece with
  | nil => rfl
  | cons a piece ih =>
      have hkeep : keep key held a = held := if_pos (h a List.mem_cons_self)
      show absorb key (keep key held a) piece = held
      rw [hkeep]
      exact ih fun b hb => h b (List.mem_cons_of_mem a hb)

/-- A piece of new records is appended. -/
theorem absorb_of_fresh (h : ((held ++ piece).map key).Nodup) : absorb key held piece = held ++ piece := by
  induction piece generalizing held with
  | nil => exact (List.append_nil held).symm
  | cons a piece ih =>
      have hnew : key a ∉ held.map key := by
        rw [List.map_append] at h
        intro hmem
        exact List.disjoint_of_nodup_append h hmem List.mem_cons_self
      have hkeep : keep key held a = held ++ [a] := if_neg hnew
      show absorb key (keep key held a) piece = held ++ a :: piece
      rw [hkeep, ih (by rwa [List.append_assoc, List.singleton_append]), List.append_assoc,
        List.singleton_append]

/-- **A slice that starts inside the prefix held extends it to the slice's end**, or not at all. -/
theorem absorb_slice (hnd : (log.map key).Nodup) (hstart : start ≤ n) :
    absorb key (log.take n) ((log.drop start).take len) = log.take (max n (start + len)) := by
  rcases le_total (start + len) n with hle | hle
  · -- the slice ends inside the prefix: everything in it is held
    rw [max_eq_left hle]
    apply absorb_of_held
    intro a ha
    rw [List.take_drop] at ha
    exact List.mem_map_of_mem ((List.take_subset_take_left log hle) (List.mem_of_mem_drop ha))
  · -- the slice is an overlap with the prefix and the records right after it
    obtain ⟨k, hk⟩ : ∃ k, start + len = n + k := ⟨start + len - n, by omega⟩
    have hlen : len = n - start + k := by omega
    have hdrop : (log.drop start).drop (n - start) = log.drop n := by
      rw [List.drop_drop]
      congr 1
      omega
    have hheld : absorb key (log.take n) ((log.drop start).take (n - start)) = log.take n := by
      apply absorb_of_held
      intro a ha
      rw [List.take_drop] at ha
      have hsub : log.take (start + (n - start)) = log.take n := by
        congr 1
        omega
      rw [hsub] at ha
      exact List.mem_map_of_mem (List.mem_of_mem_drop ha)
    rw [max_eq_right hle, hk, hlen, List.take_add, hdrop, List.take_add (l := log)]
    show List.foldl (keep key) (log.take n) _ = _
    rw [List.foldl_append]
    show absorb key (absorb key (log.take n) ((log.drop start).take (n - start))) ((log.drop n).take k) = _
    rw [hheld]
    apply absorb_of_fresh
    rw [← List.take_add]
    exact hnd.sublist ((List.take_sublist _ _).map key)

/-! ## Any number of pieces -/

theorem Delivers.le (h : Delivers log n pieces m) : n ≤ m := by
  induction h with
  | done n => exact le_refl n
  | piece _ _ _ ih => exact le_trans (le_max_left _ _) ih

/-- **What is held is the prefix delivered**, in order, once each. -/
theorem absorb_delivered (hnd : (log.map key).Nodup) (h : Delivers log n pieces m) :
    pieces.foldl (absorb key) (log.take n) = log.take m := by
  induction h with
  | done n => rfl
  | piece hstart _ _ ih =>
      rw [List.foldl_cons, absorb_slice hnd hstart]
      exact ih

/-- Pieces delivered one after the other. -/
theorem Delivers.append {k : Nat} (h : Delivers log n pieces k) (h' : Delivers log k pieces' m) :
    Delivers log n (pieces ++ pieces') m := by
  induction h with
  | done n => exact h'
  | piece hstart hlen _ ih => exact .piece hstart hlen (ih h')

/-- … and cut again. -/
theorem Delivers.split (h : Delivers log n (pieces ++ pieces') m) :
    ∃ k, Delivers log n pieces k ∧ Delivers log k pieces' m := by
  induction pieces generalizing n with
  | nil => exact ⟨n, .done n, h⟩
  | cons p pieces ih =>
      cases h with
      | piece hstart hlen hrest =>
          obtain ⟨k, hfirst, hsecond⟩ := ih hrest
          exact ⟨k, .piece hstart hlen hfirst, hsecond⟩

end Pieces
