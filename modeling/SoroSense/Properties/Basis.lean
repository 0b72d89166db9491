import SoroSense.Backend.CostBasis

/-!
# `Properties.Basis` — how exact the replayed cost basis is

The basis of a bucket loses a fraction of a base unit at each withdrawal, to the depositor's side: what is
taken out of the contributions is rounded down. `exactBasis` is the same replay over the rationals, and counts
the withdrawals since the bucket last held no shares. `Near` carries the distance between the two through
deposits and withdrawals; an emptied bucket starts again from nothing.

The order of the list and the events of other buckets play no part.
-/

namespace SoroSense.Backend

open Fallible

/-! ## The exact replay -/

/-- A bucket over the rationals, and its withdrawals since it last held no shares. -/
structure ExactBasis where
  shares      : Int
  contributed : ℚ
  withdrawals : Nat
deriving DecidableEq

/-- One event: a withdrawal of `s` of `S` shares multiplies the contributions by `1 - s / S`. -/
def VaultEvent.exact (ev : VaultEvent) (b : ExactBasis) : ExactBasis :=
  match ev.kind with
  | .deposit =>
      { b with shares := b.shares + ev.shares, contributed := b.contributed + ev.amount }
  | .withdraw =>
      { shares      := b.shares - ev.shares
        contributed := b.contributed * (1 - ev.shares / b.shares)
        withdrawals := if b.shares = ev.shares then 0 else b.withdrawals + 1 }

/-- The exact basis that one bucket's events leave, in replay order. -/
def exactBasis (l : List VaultEvent) : ExactBasis := l.foldl (fun b ev => ev.exact b) ⟨0, 0, 0⟩

/-! ## The event lists -/

/-- Distinct `seq`s, no negative amount, every move of a positive number of shares, and no bucket ever burning
    more than it holds. -/
structure Replayable (events : List VaultEvent) : Prop where
  seqs    : (events.map VaultEvent.seq).Nodup
  amounts : ∀ ev ∈ events, 0 ≤ ev.amount
  shares  : ∀ ev ∈ events, 0 < ev.shares
  covered : ∀ u c, Covered 0 (bucketEvents u c events)

/-- The event is of this bucket. -/
def VaultEvent.inBucket (u : Address) (c : Currency) (ev : VaultEvent) : Bool :=
  decide (ev.depositor = u ∧ ev.currency = c)

variable {events events' : List VaultEvent} {u : Address} {c : Currency}

/-- A bucket's events in replay order are its own events, put in order. -/
theorem bucketEvents_eq_sortOn :
    bucketEvents u c events = Timeline.sortOn VaultEvent.seq (events.filter (VaultEvent.inBucket u c)) :=
  Timeline.filter_sortOn events

/-- Two lists with one bucket's events, in any order, replay that bucket alike. -/
theorem bucketEvents_perm (hnd : (events.map VaultEvent.seq).Nodup)
    (h : (events.filter (VaultEvent.inBucket u c)).Perm (events'.filter (VaultEvent.inBucket u c))) :
    bucketEvents u c events = bucketEvents u c events' := by
  rw [bucketEvents_eq_sortOn, bucketEvents_eq_sortOn]
  apply Timeline.sortOn_perm h
  exact hnd.sublist (List.filter_sublist.map VaultEvent.seq)

theorem Replayable.fair (h : Replayable events) : ∀ ev ∈ events, ev.Fair := fun ev hev =>
  ⟨h.shares ev hev, fun _ => h.amounts ev hev⟩

/-! ## Order and buckets -/

/-- The replay is a function of the set of events. -/
theorem reconstruct_perm (hnd : (events.map VaultEvent.seq).Nodup) (h : events.Perm events') :
    reconstructCostBasis events' = reconstructCostBasis events := by
  have horder : inSeqOrder events = inSeqOrder events' := Timeline.sortOn_perm h hnd
  rw [reconstructCostBasis_eq, reconstructCostBasis_eq, horder]

/-- A bucket's entry is rebuilt from its own events. -/
theorem entry_congr {bases bases' : String → Option CostBasis} (h : reconstructCostBasis events = .ok bases)
    (h' : reconstructCostBasis events' = .ok bases')
    (hk : bucketEvents u c events = bucketEvents u c events') :
    bases (bucketKey u c) = bases' (bucketKey u c) := by
  apply Keyed.Replay.run_congr (R := costReplay) h h'
  rw [records_inSeqOrder, records_inSeqOrder, hk]

/-! ## The rounding -/

/-- The replayed basis next to the exact one. -/
structure Near (b : CostBasis) (e : ExactBasis) : Prop where
  shares : b.shares = e.shares
  exact  : e.withdrawals = 0 → (b.contributed : ℚ) = e.contributed
  le     : e.contributed ≤ b.contributed
  lt     : e.withdrawals ≠ 0 → (b.contributed : ℚ) < e.contributed + e.withdrawals

variable {ev : VaultEvent} {b b' : CostBasis} {e : ExactBasis} {l : List VaultEvent}

/-- Near, at any count of withdrawals. -/
theorem Near.le_add (h : Near b e) : (b.contributed : ℚ) ≤ e.contributed + e.withdrawals := by
  by_cases hn : e.withdrawals = 0
  · rw [h.exact hn, hn]
    simp
  · exact le_of_lt (h.lt hn)

/-- A deposit moves both by the same amount. -/
theorem Near.deposit (h : Near b e) (hk : ev.kind = .deposit) :
    Near ⟨b.shares + ev.shares, b.contributed + ev.amount⟩ (ev.exact e) := by
  unfold VaultEvent.exact
  rw [hk]
  refine ⟨?_, fun hn => ?_, ?_, fun hn => ?_⟩
  · exact congrArg (· + ev.shares) h.shares
  · push_cast
    rw [h.exact hn]
  · push_cast
    exact add_le_add h.le (le_refl _)
  · push_cast
    have hlt := h.lt hn
    linarith

/-- **A withdrawal drops less than one unit**, and what was dropped before shrinks with the position. -/
theorem Near.withdraw (h : Near b e) (hs : b.Sound) (hf : ev.Fair) (hk : ev.kind = .withdraw)
    (hle : ev.shares ≤ b.shares) :
    Near ⟨b.shares - ev.shares, AverageCost.left b.contributed ev.shares b.shares⟩ (ev.exact e) := by
  have hpos := hf.shares_pos
  have hc := hs.contributed_nonneg
  have hlow := AverageCost.exact_le_left hc hpos hle
  have hhigh := AverageCost.left_lt_exact_add_one hc hpos hle
  have hS : (0 : ℚ) < b.shares := by exact_mod_cast lt_of_lt_of_le hpos hle
  have hsq : (ev.shares : ℚ) ≤ b.shares := by exact_mod_cast hle
  have hs₀ : (0 : ℚ) ≤ ev.shares := by exact_mod_cast le_of_lt hpos
  -- the fraction that stays is between none and all
  have hkept : (0 : ℚ) ≤ 1 - ev.shares / b.shares := sub_nonneg.mpr ((div_le_one hS).mpr hsq)
  have hpart : (1 : ℚ) - ev.shares / b.shares ≤ 1 := sub_le_self 1 (div_nonneg hs₀ (le_of_lt hS))
  have hbelow : e.contributed * (1 - ev.shares / b.shares) ≤ b.contributed * (1 - ev.shares / b.shares) :=
    mul_le_mul_of_nonneg_right h.le hkept
  have habove : (b.contributed : ℚ) * (1 - ev.shares / b.shares)
      ≤ e.contributed * (1 - ev.shares / b.shares) + e.withdrawals := by
    have hn₀ : (0 : ℚ) ≤ e.withdrawals := Nat.cast_nonneg _
    calc (b.contributed : ℚ) * (1 - ev.shares / b.shares)
        ≤ (e.contributed + e.withdrawals) * (1 - ev.shares / b.shares) :=
          mul_le_mul_of_nonneg_right h.le_add hkept
      _ = e.contributed * (1 - ev.shares / b.shares) + e.withdrawals * (1 - ev.shares / b.shares) := by ring
      _ ≤ e.contributed * (1 - ev.shares / b.shares) + e.withdrawals := by
          have hmul := mul_le_mul_of_nonneg_left hpart hn₀
          linarith
  unfold VaultEvent.exact
  rw [hk]
  refine ⟨congrArg (· - ev.shares) h.shares, fun hn => ?_, ?_, fun hn => ?_⟩
  · -- only a sale of everything resets the count
    have hall : e.shares = ev.shares := by
      by_contra hne
      simp [hne] at hn
    have hall' : b.shares = ev.shares := h.shares.trans hall
    show ((AverageCost.left b.contributed ev.shares b.shares : Int) : ℚ)
      = e.contributed * (1 - ev.shares / e.shares)
    rw [hall', hall, AverageCost.left_all hc hpos, div_self (by exact_mod_cast ne_of_gt hpos)]
    simp
  · show e.contributed * (1 - ev.shares / e.shares) ≤ _
    rw [← h.shares]
    exact le_trans hbelow hlow
  · have hne : ¬ e.shares = ev.shares := by
      intro hall
      simp [hall] at hn
    show ((AverageCost.left b.contributed ev.shares b.shares : Int) : ℚ)
      < e.contributed * (1 - ev.shares / e.shares)
        + ((if e.shares = ev.shares then 0 else e.withdrawals + 1 : Nat) : ℚ)
    rw [if_neg hne, ← h.shares]
    push_cast
    linarith

theorem Near.replay (h : Near b e) (hs : b.Sound) (hf : ev.Fair) (hr : ev.replay b = .ok b') :
    Near b' (ev.exact e) := by
  cases hk : ev.kind with
  | deposit =>
      obtain rfl := ok_unique hr (replay_deposit hk b)
      exact h.deposit hk
  | withdraw =>
      have hle := (replay_eq_ok hr).1 hk
      obtain rfl := ok_unique hr (replay_withdraw hk hf.shares_pos hle)
      exact h.withdraw hs hf hk hle

/-- The distance after any number of events. -/
theorem Near.account (h : Near b e) (hs : b.Sound) (hf : ∀ ev ∈ l, ev.Fair)
    (hr : costReplay.account b l = .ok b') : Near b' (l.foldl (fun e ev => ev.exact e) e) := by
  induction l generalizing b e with
  | nil =>
      obtain rfl := ok_eq_ok.mp hr
      exact h
  | cons ev l ih =>
      rw [Keyed.Replay.account_cons] at hr
      obtain ⟨b₁, hfirst, hrest⟩ := bind_eq_ok.mp hr
      have hev := hf ev List.mem_cons_self
      exact ih (h.replay hs hev hfirst) (hs.replay hev hfirst)
        (fun x hx => hf x (List.mem_cons_of_mem ev hx)) hrest

/-- A bucket that was never touched is exact. -/
theorem near_empty : Near emptyBasis ⟨0, 0, 0⟩ :=
  ⟨rfl, fun _ => by simp [emptyBasis], by simp [emptyBasis], fun hn => absurd rfl hn⟩

/-- **The replay is order-free, bucket-local and near-exact.** -/
theorem reconstruct_near_exact (h : Replayable events) :
    ∃ bases, reconstructCostBasis events = .ok bases ∧
      (∀ events', events.Perm events' → reconstructCostBasis events' = .ok bases) ∧
      (∀ events' bases' u c, reconstructCostBasis events' = .ok bases' →
        (events.filter (VaultEvent.inBucket u c)).Perm (events'.filter (VaultEvent.inBucket u c)) →
        bases' (bucketKey u c) = bases (bucketKey u c)) ∧
      ∀ u c, ∃ b, costBasisOf events u c = .ok b ∧
        ((exactBasis (bucketEvents u c events)).withdrawals = 0 →
          (b.contributed : ℚ) = (exactBasis (bucketEvents u c events)).contributed) ∧
        ((exactBasis (bucketEvents u c events)).withdrawals ≠ 0 →
          (exactBasis (bucketEvents u c events)).contributed ≤ b.contributed ∧
          (b.contributed : ℚ) < (exactBasis (bucketEvents u c events)).contributed
            + (exactBasis (bucketEvents u c events)).withdrawals) ∧
        (b.shares = 0 → b.contributed = 0) := by
  obtain ⟨bases, hb⟩ := reconstruct_isOk_iff_covered.mpr h.covered
  refine ⟨bases, hb, fun events' hp => ?_, fun events' bases' u c hb' hp => ?_, fun u c => ?_⟩
  · rw [reconstruct_perm h.seqs hp, hb]
  · exact (entry_congr hb hb' (bucketEvents_perm h.seqs hp)).symm
  · have hacc := account_of_reconstruct hb u c
    have hf : ∀ ev ∈ bucketEvents u c events, ev.Fair := fun ev hev => h.fair ev (mem_of_bucketEvents hev)
    have hnear : Near (basisOf bases u c) (exactBasis (bucketEvents u c events)) :=
      near_empty.account emptyBasis_sound hf hacc
    have hsound := emptyBasis_sound.account hf hacc
    refine ⟨basisOf bases u c, bind_eq_ok.mpr ⟨bases, hb, rfl⟩, hnear.exact, ?_, hsound.closed⟩
    intro hn
    exact ⟨hnear.le, hnear.lt hn⟩

/-- Ten units for three shares, one share sold, three more bought, one more sold. -/
def roundedEvents : List VaultEvent :=
  [⟨.deposit, "G1", .usd, 10, 3, 1, none⟩, ⟨.withdraw, "G1", .usd, 4, 1, 2, none⟩,
    ⟨.deposit, "G1", .usd, 5, 3, 3, none⟩, ⟨.withdraw, "G1", .usd, 3, 1, 4, none⟩]

theorem roundedEvents_replayable : Replayable roundedEvents where
  seqs    := by decide
  amounts := by decide
  shares  := by decide
  covered := by
    intro u c
    rw [bucketEvents_eq_sortOn]
    by_cases hb : "G1" = u ∧ Currency.usd = c
    · obtain ⟨rfl, rfl⟩ := hb
      decide
    · have hnone : roundedEvents.filter (VaultEvent.inBucket u c) = [] := by
        apply List.filter_eq_nil_iff.mpr
        intro ev hev
        simp only [roundedEvents, List.mem_cons, List.not_mem_nil, or_false] at hev
        rcases hev with rfl | rfl | rfl | rfl <;> simpa [VaultEvent.inBucket] using hb
      rw [hnone]
      trivial

/-- Two withdrawals: 10 against the exact 28/3. -/
theorem reconstruct_near_exact_rounded :
    ∃ b, costBasisOf roundedEvents "G1" .usd = .ok b ∧
      (exactBasis (bucketEvents "G1" .usd roundedEvents)).contributed ≤ b.contributed ∧
      (b.contributed : ℚ) < (exactBasis (bucketEvents "G1" .usd roundedEvents)).contributed + 2 := by
  obtain ⟨_, _, _, _, hnear⟩ := reconstruct_near_exact roundedEvents_replayable
  obtain ⟨b, hb, _, hlt, _⟩ := hnear "G1" .usd
  have hn : (exactBasis (bucketEvents "G1" .usd roundedEvents)).withdrawals = 2 := by decide +kernel
  have hbounds := hlt (by rw [hn]; decide)
  rw [hn] at hbounds
  exact ⟨b, hb, hbounds⟩

end SoroSense.Backend
