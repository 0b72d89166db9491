import SoroSense.Properties.Replay
import SoroSense.Properties.Shares

/-!
# `Properties.EntryPrice` — what a depositor's history costs against the share price

The vault rounds every trade down: a deposit mints shares for all of its amount but less than the price of one,
a withdrawal pays all its shares are worth but less than one unit (`HomeStep.rounded`). As the price never falls
(`ratio_le_step`), these roundings are all that a depositor can have paid above what the shares are worth: the
contributions that the backend rebuilds exceed the value of the shares by the roundings at most, and so do the
deposits exceed the contributions and the withdrawals (`entered`).
-/

namespace SoroSense

open Fallible Transition Backend

variable {rt : Runtime} {home : Address → Currency} {w w' : World} {a : Action} {u : Address} {c d : Currency}
  {raws : List RawEvent} {raw : RawEvent} {e : Vault.Event} {l : List VaultEvent} {b : CostBasis} {p p' : ℚ}

/-! ## One trade -/

/-- A published trade was rounded down at the price before it. -/
def Vault.Event.Rounded (w : World) : Vault.Event → Prop
  | .deposit u c amount shares  => (ProRata.Move.deposit u (amount : ℚ) shares).Rounded (w.ratio c)
  | .withdraw u c amount shares => (ProRata.Move.redeem u (shares : ℚ) amount).Rounded (w.ratio c)
  | _                           => True

/-- **Every trade is rounded down.** -/
theorem HomeStep.rounded (hr : Reachable Genesis (HomeStep home) w) (hv : 0 < w.vault.config.virtualOffset)
    (hs : HomeStep home w a w') (hev : w'.vault.events = w.vault.events ++ [e]) (hbooks : e.Books w w') :
    e.Rounded w := by
  have h := reachable_wf (reachable_of_home hr)
  have h' := hs.1.wf h
  have hv' : 0 < w'.vault.config.virtualOffset := hs.1.config h ▸ hv
  -- whoever's shares moved has traded, and the trade published the event
  have htrade : ∀ u d δ, δ ≠ 0 → (w'.bucket d).shares u = (w.bucket d).shares u + δ → Trades u d ⟨w, a, w'⟩ :=
    fun u d δ hδ hmoved => hs.1.trades_of_ne h (by rw [hmoved]; omega)
  cases e with
  | deposit u d amount shares =>
      obtain ⟨_, hpos, hmoved⟩ := hbooks
      have hself := hmoved u d
      rw [if_pos ⟨rfl, rfl⟩] at hself
      obtain ⟨hx, ids, _, ⟨amount', rfl⟩ | ⟨burned, rfl⟩⟩ := htrade u d shares (ne_of_gt hpos) hself
      · have hx : Vault.deposit (Auth.signers ids) w u d amount' = .ok w' := hx
        obtain ⟨minted, token, g, rfl⟩ := Vault.deposit_eq_ok.mp hx
        have hlast : Vault.Event.deposit u d amount' minted = .deposit u d amount shares :=
          List.singleton_inj.mp (List.append_cancel_left hev)
        obtain ⟨_, _, rfl, rfl⟩ := Vault.Event.deposit.inj hlast
        have hstep : ProRata.Step (w.fund h hv d) _ ((w.deposited u d amount' minted token).fund h' hv' d) :=
          World.fund_deposited g
        exact hstep.rounded
      · have hx : Vault.withdraw (Auth.signers ids) w u d burned = .ok w' := hx
        obtain ⟨assets, token, g, rfl⟩ := (Vault.withdraw_eq_ok h).mp hx
        rw [events_redeemed h g] at hev
        exact absurd (List.singleton_inj.mp (List.append_cancel_left hev)) (by simp)
  | withdraw u d amount shares =>
      obtain ⟨_, hpos, _, hmoved⟩ := hbooks
      have hself := hmoved u d
      rw [if_pos ⟨rfl, rfl⟩] at hself
      obtain ⟨hx, ids, _, ⟨amount', rfl⟩ | ⟨burned, rfl⟩⟩ := htrade u d (-shares) (by omega) hself
      · have hx : Vault.deposit (Auth.signers ids) w u d amount' = .ok w' := hx
        obtain ⟨minted, token, g, rfl⟩ := Vault.deposit_eq_ok.mp hx
        have hlast : Vault.Event.deposit u d amount' minted = .withdraw u d amount shares :=
          List.singleton_inj.mp (List.append_cancel_left hev)
        exact absurd hlast (by simp)
      · have hx : Vault.withdraw (Auth.signers ids) w u d burned = .ok w' := hx
        obtain ⟨assets, token, g, rfl⟩ := (Vault.withdraw_eq_ok h).mp hx
        rw [events_redeemed h g] at hev
        obtain ⟨_, _, rfl, rfl⟩ := Vault.Event.withdraw.inj (List.singleton_inj.mp (List.append_cancel_left hev))
        have hstep : ProRata.Step (w.fund h hv d) _ ((w.redeemed u d burned assets token).fund h' hv' d) :=
          World.fund_redeemed (Home.reachable_inv hr) g
        exact hstep.rounded
  | _ => trivial

/-! ## A depositor's history -/

/-- What roundings may have cost over a bucket's events, at price `p`: a share for each deposit, one unit for
    each withdrawal. -/
def roundings (l : List VaultEvent) (p : ℚ) : ℚ :=
  (l.map fun ev => match ev.kind with
    | .deposit  => p
    | .withdraw => 1).sum

theorem roundings_mono (hp : p ≤ p') : roundings l p ≤ roundings l p' := by
  apply List.sum_le_sum
  intro ev _
  cases ev.kind with
  | deposit  => exact hp
  | withdraw => exact le_refl 1

theorem roundings_concat (ev : VaultEvent) : roundings (l ++ [ev]) p = roundings l p + match ev.kind with
    | .deposit  => p
    | .withdraw => 1 := by
  unfold roundings
  rw [List.map_append, List.sum_append, List.map_singleton, List.sum_singleton]

/-- What the history `l` of `u` in `c`, with basis `b`, has cost against the price of a share now. -/
structure Entered (w : World) (u : Address) (c : Currency) (l : List VaultEvent) (b : CostBasis) : Prop where
  /-- The contributions exceed the value of the shares by the roundings at most. -/
  overpaid : AverageCost.overpaid b.contributed b.shares (w.ratio c) ≤ roundings l (w.ratio c)
  /-- With that excess, so do the deposits the withdrawals and the contributions. -/
  spent    : (depositsOf u c w.vault.events : ℚ) - withdrawalsOf u c w.vault.events - b.contributed
    + AverageCost.overpaid b.contributed b.shares (w.ratio c) ≤ roundings l (w.ratio c)
  /-- No deposit was more than its shares and one more are worth now. -/
  bought   : ∀ ev ∈ l, ev.kind = .deposit → 0 ≤ ev.shares ∧ (ev.amount : ℚ) ≤ (ev.shares + 1) * w.ratio c

theorem withdrawalsOf_concat {events : List Vault.Event} :
    withdrawalsOf u c (events ++ [e]) = withdrawalsOf u c events + e.paidOut u c := by
  unfold withdrawalsOf
  rw [List.map_append, List.sum_append, List.map_singleton, List.sum_singleton]

theorem World.ratio_nonneg (h : w.WF) (hv : 0 < w.vault.config.virtualOffset) : 0 ≤ w.ratio c :=
  le_of_lt (w.fund h hv c).price_pos

/-- The bound on one deposit, at a risen price. -/
theorem bought_mono {amount shares : Int} (hs : 0 ≤ shares) (hp : p ≤ p') (ha : (amount : ℚ) ≤ (shares + 1) * p) :
    (amount : ℚ) ≤ (shares + 1) * p' := by
  have hq : (0 : ℚ) ≤ (shares : ℚ) + 1 := by exact_mod_cast add_nonneg hs zero_le_one
  exact le_trans ha (mul_le_mul_of_nonneg_left hp hq)

/-- An event that moves no shares of `u` in `c`, at a price that has not fallen. -/
theorem Entered.other (h : Entered w u c l b) (hs : b.Sound) (hp : w.ratio c ≤ w'.ratio c)
    (hdep : depositsOf u c w'.vault.events = depositsOf u c w.vault.events)
    (hwd : withdrawalsOf u c w'.vault.events = withdrawalsOf u c w.vault.events) : Entered w' u c l b := by
  have hover := AverageCost.overpaid_mono (k := b.contributed) hs.shares_nonneg hp
  have hround := roundings_mono (l := l) hp
  refine ⟨le_trans hover (le_trans h.overpaid hround), ?_, fun ev hev hk => ?_⟩
  · have hspent := h.spent
    rw [hdep, hwd]
    linarith
  · obtain ⟨hnn, hbought⟩ := h.bought ev hev hk
    exact ⟨hnn, bought_mono hnn hp hbought⟩

/-- A deposit. -/
theorem Entered.deposit {amount shares seq : Int} (h : Entered w u c l b) (hs : b.Sound) (hp₀ : 0 ≤ w.ratio c)
    (hp : w.ratio c ≤ w'.ratio c) (hpos : 0 < shares)
    (hround : (ProRata.Move.deposit u (amount : ℚ) shares).Rounded (w.ratio c))
    (hev : w'.vault.events = w.vault.events ++ [.deposit u c amount shares]) :
    Entered w' u c (l ++ [.ofMove rt raw .deposit u c amount shares seq])
      ⟨b.shares + shares, b.contributed + amount⟩ := by
  have hpaid : (amount : ℚ) ≤ (shares + 1) * w.ratio c := le_of_lt hround.2
  have hbuy := AverageCost.overpaid_buy (k := b.contributed) hs.shares_nonneg (le_of_lt hpos) hp₀ hp hpaid
  have hmono := roundings_mono (l := l) hp
  have hlast : roundings (l ++ [.ofMove rt raw .deposit u c amount shares seq]) (w'.ratio c)
      = roundings l (w'.ratio c) + w'.ratio c := roundings_concat _
  refine ⟨?_, ?_, ?_⟩
  · have hover := h.overpaid
    rw [hlast]
    linarith
  · have hspent := h.spent
    have hdep : depositsOf u c w'.vault.events = depositsOf u c w.vault.events + amount := by
      rw [hev, depositsOf_concat, Vault.Event.paidIn, if_pos ⟨rfl, rfl⟩]
    have hwd : withdrawalsOf u c w'.vault.events = withdrawalsOf u c w.vault.events := by
      rw [hev, withdrawalsOf_concat]
      exact add_zero _
    rw [hlast, hdep, hwd]
    push_cast
    linarith
  · intro ev hmem hk
    rcases List.mem_append.mp hmem with hold | hnew
    · obtain ⟨hnn, hbought⟩ := h.bought ev hold hk
      exact ⟨hnn, bought_mono hnn hp hbought⟩
    · rw [List.mem_singleton.mp hnew]
      exact ⟨le_of_lt hpos, bought_mono (le_of_lt hpos) hp hpaid⟩

/-- A withdrawal. -/
theorem Entered.withdraw {amount shares seq : Int} (h : Entered w u c l b) (hs : b.Sound)
    (hp : w.ratio c ≤ w'.ratio c) (hpos : 0 < shares) (hle : shares ≤ b.shares)
    (hround : (ProRata.Move.redeem u (shares : ℚ) amount).Rounded (w.ratio c))
    (hev : w'.vault.events = w.vault.events ++ [.withdraw u c amount shares]) :
    Entered w' u c (l ++ [.ofMove rt raw .withdraw u c amount shares seq])
      ⟨b.shares - shares, AverageCost.left b.contributed shares b.shares⟩ := by
  have hk := hs.contributed_nonneg
  have hmono := roundings_mono (l := l) hp
  have hlast : roundings (l ++ [.ofMove rt raw .withdraw u c amount shares seq]) (w'.ratio c)
      = roundings l (w'.ratio c) + 1 := roundings_concat _
  refine ⟨?_, ?_, ?_⟩
  · have hsell := AverageCost.overpaid_sell hk hpos hle hp
    have hover := h.overpaid
    rw [hlast]
    exact le_trans hsell (by linarith)
  · have hsold := AverageCost.overpaid_add_sold_le hk hpos hle hp (le_of_lt hround.2)
    have hspent := h.spent
    have hdep : depositsOf u c w'.vault.events = depositsOf u c w.vault.events := by
      rw [hev, depositsOf_concat]
      exact add_zero _
    have hwd : withdrawalsOf u c w'.vault.events = withdrawalsOf u c w.vault.events + amount := by
      rw [hev, withdrawalsOf_concat, Vault.Event.paidOut, if_pos ⟨rfl, rfl⟩]
    rw [hlast, hdep, hwd]
    push_cast
    linarith
  · intro ev hmem hkind
    rcases List.mem_append.mp hmem with hold | hnew
    · obtain ⟨hnn, hbought⟩ := h.bought ev hold hkind
      exact ⟨hnn, bought_mono hnn hp hbought⟩
    · rw [List.mem_singleton.mp hnew] at hkind
      exact absurd hkind (by simp [VaultEvent.ofMove])

/-- One published event. -/
theorem Entered.concat (h : rt.Documented) (hm : Mirrors w u c b)
    (hb : costReplay.account emptyBasis (ownEvents rt (rt.strkey u) c raws) = .ok b)
    (hen : Entered w u c (ownEvents rt (rt.strkey u) c raws) b) (hr : raw.Carries e) (hp₀ : 0 ≤ w.ratio c)
    (hp : w.ratio c ≤ w'.ratio c) (he : w'.vault.events = w.vault.events ++ [e]) (hbooks : e.Books w w')
    (hround : e.Rounded w) :
    ∃ b', costReplay.account emptyBasis (ownEvents rt (rt.strkey u) c (raws ++ [raw])) = .ok b' ∧
      Entered w' u c (ownEvents rt (rt.strkey u) c (raws ++ [raw])) b' := by
  by_cases ho : e.Of u c
  · cases e with
    | deposit v d amount shares =>
        obtain ⟨rfl, rfl⟩ := ho
        have hlast : (VaultEvent.ofMove rt raw .deposit v d amount shares raws.length).replay b = .ok _ :=
          replay_deposit rfl b
        rw [ownEvents_deposit h hr, Keyed.Replay.account_append, hb]
        exact ⟨_, bind_eq_ok.mpr ⟨b, rfl, bind_eq_ok.mpr ⟨_, hlast, rfl⟩⟩,
          hen.deposit hm.sound hp₀ hp hbooks.2.1 hround he⟩
    | withdraw v d amount shares =>
        obtain ⟨rfl, rfl⟩ := ho
        obtain ⟨_, hpos, howned, _⟩ := hbooks
        have hle : shares ≤ b.shares := hm.shares ▸ howned
        have hlast : (VaultEvent.ofMove rt raw .withdraw v d amount shares raws.length).replay b = .ok _ :=
          replay_withdraw rfl hpos hle
        rw [ownEvents_withdraw h hr, Keyed.Replay.account_append, hb]
        exact ⟨_, bind_eq_ok.mpr ⟨b, rfl, bind_eq_ok.mpr ⟨_, hlast, rfl⟩⟩,
          hen.withdraw hm.sound hp hpos hle hround he⟩
    | _ => exact absurd ho id
  · have hpaid : e.paidIn u c = 0 ∧ e.paidOut u c = 0 := by
      cases e with
      | deposit v d amount shares  => exact ⟨if_neg ho, rfl⟩
      | withdraw v d amount shares => exact ⟨rfl, if_neg ho⟩
      | _                          => exact ⟨rfl, rfl⟩
    rw [ownEvents_other h hr ho]
    refine ⟨b, hb, hen.other hm.sound hp ?_ ?_⟩
    · rw [he, depositsOf_concat, hpaid.1, add_zero]
    · rw [he, withdrawalsOf_concat, hpaid.2, add_zero]

/-- **Along a run a depositor's history costs what the roundings do.** -/
theorem entered (h : rt.Documented) (hr : Reachable Genesis (HomeStep home) w)
    (hv : 0 < w.vault.config.virtualOffset) (hraw : List.Forall₂ RawEvent.Carries raws w.vault.events)
    (hb : costReplay.account emptyBasis (ownEvents rt (rt.strkey u) c raws) = .ok b) :
    Entered w u c (ownEvents rt (rt.strkey u) c raws) b := by
  suffices hall : List.Forall₂ RawEvent.Carries raws w.vault.events ∧ (0 < w.vault.config.virtualOffset →
      ∃ b, costReplay.account emptyBasis (ownEvents rt (rt.strkey u) c raws) = .ok b ∧
        Entered w u c (ownEvents rt (rt.strkey u) c raws) b) by
    obtain ⟨b', hb', hen⟩ := hall.2 hv
    rwa [ok_unique hb hb']
  refine log_induct (Q := fun w raws => List.Forall₂ RawEvent.Carries raws w.vault.events ∧
    (0 < w.vault.config.virtualOffset → ∃ b, costReplay.account emptyBasis (ownEvents rt (rt.strkey u) c raws)
      = .ok b ∧ Entered w u c (ownEvents rt (rt.strkey u) c raws) b)) And.left hr hraw ?_ ?_ ?_
  · intro v hg
    obtain ⟨admin, keeper, config, hv⟩ := hg.constructed
    have hev : v.vault.events = [] := by rw [hv]; rfl
    refine ⟨hev ▸ .nil, fun _ => ⟨emptyBasis, rfl, ?_, ?_, fun ev hmem => absurd hmem ?_⟩⟩
    · simp [AverageCost.overpaid, roundings, emptyBasis, ownEvents, decodeEvents, decodeRows, bucketEvents, inSeqOrder, Timeline.sortOn]
    · rw [hev]
      simp [AverageCost.overpaid, roundings, emptyBasis, depositsOf, withdrawalsOf, ownEvents, decodeEvents, decodeRows, bucketEvents, inSeqOrder, Timeline.sortOn]
    · simp [ownEvents, decodeEvents, decodeRows, bucketEvents, inSeqOrder, Timeline.sortOn]
  · rintro v a v' raws hrv hs hev hsame ⟨hcarry, ih⟩
    refine ⟨hev ▸ hcarry, fun hv' => ?_⟩
    have hwf := reachable_wf (reachable_of_home hrv)
    have hv : 0 < v.vault.config.virtualOffset := hs.1.config hwf ▸ hv'
    obtain ⟨b, hb, hen⟩ := ih hv
    obtain ⟨b', hb', hm⟩ := replay_mirrors h (reachable_of_home hrv) hcarry (u := u) (c := c)
    obtain rfl := ok_unique hb hb'
    exact ⟨b, hb, hen.other hm.sound (ratio_le_step hrv hv hs) (by rw [hev]) (by rw [hev])⟩
  · rintro v a v' raws raw e hrv hs hev hbooks hraw ⟨hcarry, ih⟩
    refine ⟨hev ▸ List.rel_append hcarry (.cons hraw .nil), fun hv' => ?_⟩
    have hwf := reachable_wf (reachable_of_home hrv)
    have hv : 0 < v.vault.config.virtualOffset := hs.1.config hwf ▸ hv'
    obtain ⟨b, hb, hen⟩ := ih hv
    obtain ⟨b', hb', hm⟩ := replay_mirrors h (reachable_of_home hrv) hcarry (u := u) (c := c)
    obtain rfl := ok_unique hb hb'
    exact hen.concat h hm hb hraw (World.ratio_nonneg hwf hv) (ratio_le_step hrv hv hs) hev hbooks
      (HomeStep.rounded hrv hv hs hev hbooks)

end SoroSense
