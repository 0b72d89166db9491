import SoroSense.Properties.LiveProcess
import SoroSense.Properties.Truncation
import SoroSense.Properties.EarningsTimeline

/-!
# `Properties.LivePrices` — the sampled prices only rise

`share_price` is the exact ratio rounded down, and no step of the chain lowers the ratio. A sample is taken in
two pieces, though: the RPC reads the price, and only later is it received, stamped and stored. The samples
still rise, because no second tick runs in between (`Sampled`): what is stored was never above the price on
the chain when the waiting reply was read, so the reply is no lower than what is stored.

The chart's value line is the shares at the sampled price, so it falls only where the user withdrew
(`value_line_falls_only_on_withdrawal`).
-/

namespace SoroSense

open Fallible Transition

variable {home : Address → Currency} {w w' : World} {c : Currency}

/-! ## The price on the chain -/

/-- What `share_price` returns, if it returns. -/
def World.quotedPrice (w : World) (c : Currency) : Int :=
  Vault.proRata Vault.sharePriceScale (w.navOf c) (w.bucket c).totalShares w.vault.config.virtualOffset

theorem quotedPrice_of_sharePrice (h : w.WF) {price : Int} (hp : Vault.sharePrice w c = .ok price) :
    price = w.quotedPrice c := ((Vault.sharePriceOf_eq_ok h).mp hp).2.2.symm

/-- It is the scale times the exact ratio, rounded down. -/
theorem quotedPrice_bounds (h : w.WF) (hv : 0 < w.vault.config.virtualOffset) (c : Currency) :
    (w.quotedPrice c : ℚ) ≤ Vault.sharePriceScale * w.ratio c ∧
      Vault.sharePriceScale * w.ratio c < w.quotedPrice c + 1 := by
  have hn := h.navOf_nonneg c
  have ht := h.supply_nonneg c
  exact Vault.proRata_bounds_div (by decide) (by omega) (by omega)

/-- **A higher ratio is quoted no lower.** -/
theorem quotedPrice_mono (h : w.WF) (h' : w'.WF) (hv : 0 < w.vault.config.virtualOffset)
    (hv' : 0 < w'.vault.config.virtualOffset) (hle : w.ratio c ≤ w'.ratio c) :
    w.quotedPrice c ≤ w'.quotedPrice c := by
  have hscale : (0 : ℚ) ≤ Vault.sharePriceScale := by norm_num [Vault.sharePriceScale]
  have hlt : (w.quotedPrice c : ℚ) < w'.quotedPrice c + 1 := by
    have hlow := (quotedPrice_bounds h hv c).1
    have hup := (quotedPrice_bounds h' hv' c).2
    have hmul := mul_le_mul_of_nonneg_left hle hscale
    linarith
  exact Int.lt_add_one_iff.mp (by exact_mod_cast hlt)

end SoroSense

namespace SoroSense.Backend

open Fallible Transition Timer

variable {ε : Type} {rt : Runtime} {home : SoroSense.Address → Currency} {position : String → Nat}
  {s s' : Realtime ε} {x : Happening ε} {w : World} {history : List RawEvent} {configured : Option Int} {latest : Nat}
  {t₀ : Int} {c : Currency}
  {user : Address}

/-! ## The samples -/

/-- The samples rise; none is later than the clock or above the price on the chain; and a reply that waits to be
    received is at least what is stored. -/
structure Sampled (home : SoroSense.Address → Currency) (s : Realtime ε) : Prop where
  reached : Reachable Genesis (HomeStep home) s.world
  offset  : 0 < s.world.vault.config.virtualOffset
  alone   : s.snapshots.Alone
  rising  : ∀ c, (s.snapshots.own.series c).Pairwise fun a b => a.ts ≤ b.ts ∧ a.price ≤ b.price
  stored  : ∀ c, ∀ a ∈ s.snapshots.own.series c,
    a.ts ≤ s.now ∧ SHARE_PRICE_SCALE ≤ a.price ∧ a.price ≤ s.world.quotedPrice c
  awaited : ∀ t ∈ s.snapshots.ticks, ∀ price, t.reply = some (.ok price) →
    SHARE_PRICE_SCALE ≤ price ∧ price ≤ s.world.quotedPrice t.currency ∧
      ∀ a ∈ s.snapshots.own.series t.currency, a.price ≤ price

theorem Sampled.boot (hw : Reachable Genesis (HomeStep home) w) (hv : 0 < w.vault.config.virtualOffset) :
    Sampled home (.boot w history configured latest t₀ : Realtime ε) where
  reached := hw
  offset  := hv
  alone   := .idle _
  rising c := .nil
  stored c a ha := absurd ha (by simp [Realtime.boot, Loop.idle, SnapshotStore.series, SnapshotStore.empty])
  awaited t ht := absurd ht (by simp [Realtime.boot, Loop.idle])

/-- A tick that has just asked has no reply. -/
theorem reply_of_snapshotFrom {l : List Currency} {t : SnapshotTick ε} (h : t ∈ (snapshotFrom l).toList) :
    t.reply = none := by
  cases l with
  | nil => exact absurd h (by simp [snapshotFrom])
  | cons c rest =>
      obtain rfl : t = { currency := c, reply := none, rest := rest } := by simpa [snapshotFrom] using h
      rfl

/-- The loop did not touch the store, and no reply came in. -/
theorem Sampled.of_same {snapshots : Loop SnapshotStore (SnapshotTick ε)} (h : Sampled home s)
    (halone : snapshots.Alone) (hown : snapshots.own = s.snapshots.own)
    (hticks : ∀ t ∈ snapshots.ticks, t ∈ s.snapshots.ticks ∨ t.reply = none) :
    Sampled home { s with snapshots := snapshots } where
  reached  := h.reached
  offset   := h.offset
  alone    := halone
  rising c := by
    show (snapshots.own.series c).Pairwise _
    rw [hown]
    exact h.rising c
  stored c a ha := by
    have ha' : a ∈ snapshots.own.series c := ha
    rw [hown] at ha'
    exact h.stored c a ha'
  awaited t ht price hp := by
    show _ ∧ _ ∧ ∀ a ∈ snapshots.own.series t.currency, _
    rw [hown]
    rcases hticks t ht with hold | hnone
    · exact h.awaited t hold price hp
    · exact absurd (hnone.symm.trans hp) (by simp)

/-- The RPC's reply is the price on the chain, and nothing stored is above that. -/
theorem Sampled.replied {before after : List (SnapshotTick ε)} {t : SnapshotTick ε} {currency : Currency}
    {reply : Except ε Int} (h : Sampled home s) (hticks : s.snapshots.ticks = before ++ t :: after)
    (halone : (s.snapshots.resumed (snapshotTick ALL_CURRENCIES) before after t (.replied currency reply)).Alone)
    (hh : s.PriceHonest (.answer (.replied currency reply))) :
    Sampled home { s with
      snapshots := s.snapshots.resumed (snapshotTick ALL_CURRENCIES) before after t (.replied currency reply) } := by
  obtain ⟨rfl, rfl⟩ := h.alone.only hticks
  have ht : t ∈ s.snapshots.ticks := by simp [hticks]
  refine { h with alone := halone, awaited := ?_ }
  intro t' ht' price hp
  have hmem : t' = if currency = t.currency ∧ t.reply = none then { t with reply := some reply } else t := by
    have hone : t' ∈ [] ++ (some (if currency = t.currency ∧ t.reply = none then { t with reply := some reply }
      else t)).toList ++ [] := ht'
    simpa using hone
  by_cases hnew : currency = t.currency ∧ t.reply = none
  · rw [if_pos hnew] at hmem
    subst hmem
    obtain rfl : reply = .ok price := Option.some.inj hp
    have hwf := reachable_wf (reachable_of_home h.reached)
    have hprice : Vault.sharePrice s.world currency = .ok price := hh
    have hpar := scale_le_sharePrice hwf h.offset (totalShares_le_navOf h.reached h.offset) hprice
    have hquoted := quotedPrice_of_sharePrice hwf hprice
    rw [hnew.1] at hquoted
    refine ⟨hpar, le_of_eq hquoted, fun a ha => ?_⟩
    rw [hquoted]
    exact (h.stored _ a ha).2.2
  · rw [if_neg hnew] at hmem
    subst hmem
    exact h.awaited t' ht price hp

/-- What is received is stored last, and is no lower than anything stored before. -/
theorem Sampled.received {before after : List (SnapshotTick ε)} {t : SnapshotTick ε}
    (h : Sampled home s) (hticks : s.snapshots.ticks = before ++ t :: after)
    (halone : (s.snapshots.resumed (snapshotTick ALL_CURRENCIES) before after t (.received s.now)).Alone) :
    Sampled home { s with
      snapshots := s.snapshots.resumed (snapshotTick ALL_CURRENCIES) before after t (.received s.now) } := by
  obtain ⟨rfl, rfl⟩ := h.alone.only hticks
  have ht : t ∈ s.snapshots.ticks := by simp [hticks]
  rcases hreply : t.reply with _ | _ | price
  · -- nothing has come in yet
    have hpiece : (snapshotTick ALL_CURRENCIES).resume s.snapshots.own t (.received s.now)
        = (s.snapshots.own, some t) := by simp only [snapshotTick, hreply]
    refine h.of_same halone (congrArg Prod.fst hpiece) fun t' ht' => Or.inl ?_
    have hone : t' ∈ [] ++ ((snapshotTick ALL_CURRENCIES).resume s.snapshots.own t (.received s.now)).2.toList ++ [] :=
      ht'
    rw [hpiece] at hone
    obtain rfl : t' = t := by simpa using hone
    exact ht
  · -- the read threw: the tick is over
    have hpiece : (snapshotTick ALL_CURRENCIES).resume s.snapshots.own t (.received s.now)
        = (s.snapshots.own, none) := by simp only [snapshotTick, hreply]
    refine h.of_same halone (congrArg Prod.fst hpiece) fun t' ht' => ?_
    have hone : t' ∈ [] ++ ((snapshotTick ALL_CURRENCIES).resume s.snapshots.own t (.received s.now)).2.toList ++ [] :=
      ht'
    rw [hpiece] at hone
    exact absurd hone (by simp)
  · have hpiece : (snapshotTick ALL_CURRENCIES).resume s.snapshots.own t (.received s.now)
        = (s.snapshots.own.append { currency := t.currency, price := price, ts := s.now }, snapshotFrom t.rest) := by
      simp only [snapshotTick, hreply]
    obtain ⟨hpar, hprice, habove⟩ := h.awaited t ht price hreply
    have hown : (s.snapshots.resumed (snapshotTick ALL_CURRENCIES) [] [] t (.received s.now)).own
        = s.snapshots.own.append { currency := t.currency, price := price, ts := s.now } := congrArg Prod.fst hpiece
    refine { h with alone := halone, rising := fun c => ?_, stored := fun c a ha => ?_, awaited := ?_ }
    · show (SnapshotStore.series (s.snapshots.resumed (snapshotTick ALL_CURRENCIES) [] [] t
        (.received s.now)).own c).Pairwise _
      rw [hown]
      rcases eq_or_ne c t.currency with rfl | hc
      · rw [SnapshotStore.series_append_self (s := { currency := t.currency, price := price, ts := s.now })]
        refine List.pairwise_append.mpr ⟨h.rising t.currency, List.pairwise_singleton _ _, ?_⟩
        intro a ha b hb
        obtain rfl := List.mem_singleton.mp hb
        exact ⟨(h.stored _ a ha).1, habove a ha⟩
      · rw [SnapshotStore.series_append_ne _ hc]
        exact h.rising c
    · have ha' : a ∈ SnapshotStore.series (s.snapshots.resumed (snapshotTick ALL_CURRENCIES) [] [] t
        (.received s.now)).own c := ha
      rw [hown] at ha'
      rcases eq_or_ne c t.currency with rfl | hc
      · rw [SnapshotStore.series_append_self (s := { currency := t.currency, price := price, ts := s.now })] at ha'
        rcases List.mem_append.mp ha' with hold | hnew
        · exact h.stored _ a hold
        · obtain rfl := List.mem_singleton.mp hnew
          exact ⟨le_refl _, hpar, hprice⟩
      · rw [SnapshotStore.series_append_ne _ hc] at ha'
        exact h.stored c a ha'
    · intro t' ht' price' hp
      have hone : t' ∈ [] ++ ((snapshotTick ALL_CURRENCIES).resume s.snapshots.own t
        (.received s.now)).2.toList ++ [] := ht'
      rw [hpiece, List.nil_append, List.append_nil] at hone
      exact absurd ((reply_of_snapshotFrom hone).symm.trans hp) (by simp)

/-- **Whatever happens, the samples keep rising.** -/
theorem Sampled.step (h : Sampled home s) (hs : Realtime.PricedStep home rt s x s') :
    Sampled home s' := by
  obtain ⟨hs, hh⟩ := hs
  cases hs with
  | @chain a w' _ _ _ =>
      have hs : HomeStep home s.world a w' := hh
      have hwf := reachable_wf (reachable_of_home h.reached)
      have hwf' := hs.1.wf hwf
      have hoff := hs.1.config hwf ▸ h.offset
      have hup : ∀ c, s.world.quotedPrice c ≤ _ := fun c =>
        quotedPrice_mono hwf hwf' h.offset hoff (ratio_le_step h.reached h.offset hs)
      refine { h with reached := h.reached.tail hs, offset := hoff, stored := ?_, awaited := ?_ }
      · intro c a ha
        obtain ⟨hts, hpar, hle⟩ := h.stored c a ha
        exact ⟨hts, hpar, le_trans hle (hup c)⟩
      · intro t ht price hp
        obtain ⟨hpar, hle, habove⟩ := h.awaited t ht price hp
        exact ⟨hpar, le_trans hle (hup _), habove⟩
  | clock hle =>
      refine { h with stored := fun c a ha => ?_ }
      obtain ⟨hts, hrest⟩ := h.stored c a ha
      exact ⟨le_trans hts hle, hrest⟩
  | poll _ => exact { h with }
  | snapshot hm =>
      have halone := h.alone.step hm
      cases hm with
      | called _ _ => exact h.of_same halone rfl fun t ht => Or.inr (@reply_of_snapshotFrom ε ALL_CURRENCIES t ht)
      | armed _    => exact h.of_same halone rfl fun t ht => Or.inl ht
      | skipped    => exact h.of_same halone rfl fun t ht => Or.inl ht
      | fired _ _  =>
          refine h.of_same halone rfl fun t ht => ?_
          rcases List.mem_append.mp ht with ht | ht
          · exact Or.inl ht
          · exact Or.inr (@reply_of_snapshotFrom ε ALL_CURRENCIES t ht)
      | stopped    => exact h.of_same halone rfl fun t ht => Or.inl ht
      | @resumed before after t a hticks =>
          cases a with
          | replied currency reply => exact h.replied hticks halone hh
          | received ts =>
              obtain rfl : ts = s.now := hh
              exact h.received hticks halone

theorem Sampled.run {tr : List (Event (Realtime ε) (Happening ε))} (h : Sampled home s)
    (hr : Run (Realtime.PricedStep home rt) s tr s') : Sampled home s' :=
  hr.invariant (P := Sampled home) (fun _ _ _ h hs => h.step hs) h

/-- A price that is no higher than any sample's is no higher than the price at any time. -/
theorem le_priceFrom {l : List Snapshot} {ts price : Int} (hrising : l.Pairwise fun a b => a.price ≤ b.price)
    (hfloor : ∀ a ∈ l, price ≤ a.price) : price ≤ priceFrom ts price l := by
  induction l generalizing price with
  | nil => exact le_refl price
  | cons a l ih =>
      obtain ⟨ha, hl⟩ := List.pairwise_cons.mp hrising
      unfold priceFrom
      split
      · exact le_trans (hfloor a List.mem_cons_self) (ih hl ha)
      · exact le_refl price

/-- The price of a later time is no lower. -/
theorem priceFrom_mono {l : List Snapshot} {ts ts' price : Int} (hts : ts ≤ ts')
    (hrising : l.Pairwise fun a b => a.price ≤ b.price) (hfloor : ∀ a ∈ l, price ≤ a.price) :
    priceFrom ts price l ≤ priceFrom ts' price l := by
  induction l generalizing price with
  | nil => exact le_refl price
  | cons a l ih =>
      obtain ⟨ha, hl⟩ := List.pairwise_cons.mp hrising
      by_cases hin : a.ts ≤ ts
      · unfold priceFrom
        rw [if_pos hin, if_pos (le_trans hin hts)]
        exact ih hl ha
      · -- the earlier time stops here, at a price nothing later is below
        have hstop : priceFrom ts price (a :: l) = price := if_neg hin
        rw [hstop]
        exact le_priceFrom hrising hfloor

/-- `priceAt` rises with time. -/
theorem Sampled.priceAt_mono (h : Sampled home s) {t t' : Int} (ht : t ≤ t') (c : Currency) :
    SHARE_PRICE_SCALE ≤ priceAt s.snapshots.own.series c t ∧
      priceAt s.snapshots.own.series c t ≤ priceAt s.snapshots.own.series c t' := by
  have hrising := (h.rising c).imp fun h => h.2
  have hfloor : ∀ a ∈ s.snapshots.own.series c, SHARE_PRICE_SCALE ≤ a.price := fun a ha => (h.stored c a ha).2.1
  exact ⟨le_priceFrom hrising hfloor, priceFrom_mono ht hrising hfloor⟩

/-- The shares a replay ends with. -/
theorem shares_account {l : List VaultEvent} {b b' : CostBasis} (h : costReplay.account b l = .ok b') :
    b'.shares = b.shares + (l.map VaultEvent.delta).sum := by
  induction l generalizing b with
  | nil =>
      obtain rfl := ok_eq_ok.mp h
      simp
  | cons ev l ih =>
      rw [Keyed.Replay.account_cons] at h
      obtain ⟨b₁, hfirst, hrest⟩ := bind_eq_ok.mp h
      rw [ih hrest, (replay_eq_ok hfirst).2, List.map_cons, List.sum_cons, add_assoc]

/-- Selecting more, of what adds, adds up to more. -/
theorem sum_filter_le {α : Type} {f : α → Int} {p q : α → Bool} {l : List α} (hpq : ∀ a ∈ l, p a = true → q a = true)
    (hadds : ∀ a ∈ l, q a = true → p a = false → 0 ≤ f a) :
    ((l.filter p).map f).sum ≤ ((l.filter q).map f).sum := by
  induction l with
  | nil => exact le_refl 0
  | cons a l ih =>
      have hrest := ih (fun b hb => hpq b (List.mem_cons_of_mem a hb)) (fun b hb => hadds b (List.mem_cons_of_mem a hb))
      have ha := hpq a List.mem_cons_self
      have hadd := hadds a List.mem_cons_self
      cases hp : p a with
      | true =>
          rw [List.filter_cons_of_pos hp, List.filter_cons_of_pos (ha hp), List.map_cons, List.map_cons,
            List.sum_cons, List.sum_cons]
          omega
      | false =>
          rw [List.filter_cons_of_neg (by simp [hp])]
          cases hq : q a with
          | false =>
              rw [List.filter_cons_of_neg (by simp [hq])]
              exact hrest
          | true =>
              have hnn := hadd hq hp
              rw [List.filter_cons_of_pos hq, List.map_cons, List.sum_cons]
              omega

theorem valueUsd_mono {b b' : CostBasis} {price price' : Int} {rate : ℚ} (hshares : 0 ≤ b.shares)
    (hle : b.shares ≤ b'.shares) (hprice : 0 ≤ price) (hprices : price ≤ price') (hrate : 0 ≤ rate) :
    (bucketState b price rate).valueUsd ≤ (bucketState b' price' rate).valueUsd := by
  have hscale : (0 : Int) < SHARE_PRICE_SCALE := by decide
  have hmul : b.shares * price ≤ b'.shares * price' := mul_le_mul hle hprices hprice (le_trans hshares hle)
  have htdiv := Int.tdiv_le_tdiv hscale hmul
  show toUsd _ rate ≤ toUsd _ rate
  rw [← sub_nonneg, toUsd_sub]
  exact toUsd_nonneg (by omega) hrate

/-- The chart keeps the value of each sample as it is. -/
theorem values_chartFrom (floor : ℚ) (states : List (Int × UsdState)) :
    (chartFrom floor states).map (fun p => (p.ts, p.valueUsd)) = states.map fun p => (p.1, p.2.valueUsd) := by
  induction states generalizing floor with
  | nil => rfl
  | cons p rest ih =>
      show _ :: (chartFrom _ rest).map _ = _ :: rest.map _
      rw [ih]

/-- The user withdraws between `t` and `t'`. -/
def WithdrawsBetween (user : Address) (events : List VaultEvent) (t t' : Int) : Prop :=
  ∃ e ∈ events, e.depositor = user ∧ e.kind = .withdraw ∧ t < e.ts.getD 0 ∧ e.ts.getD 0 ≤ t'

/-- One bucket's value does not fall while the user withdraws nothing. -/
theorem Sampled.bucket_mono {events : List VaultEvent} {t t' : Int} {rate : ℚ} (h : Sampled home s)
    (hfair : ∀ e ∈ events, e.Fair) (hcov : ∀ t₁ ∈ [t, t'], Covered 0 (bucketEvents user c (upTo t₁ events)))
    (ht : t ≤ t') (hkept : ¬ WithdrawsBetween user events t t') (hrate : 0 ≤ rate) :
    (bucketState (basisFrom (bucketEvents user c (upTo t events))) (priceAt s.snapshots.own.series c t) rate).valueUsd
      ≤ (bucketState (basisFrom (bucketEvents user c (upTo t' events)))
          (priceAt s.snapshots.own.series c t') rate).valueUsd := by
  obtain ⟨b, hb⟩ := (account_isOk_iff (b := emptyBasis)).mpr (hcov t (by simp))
  obtain ⟨b', hb'⟩ := (account_isOk_iff (b := emptyBasis)).mpr (hcov t' (by simp))
  have hsound : b.Sound := emptyBasis_sound.account
    (fun e he => hfair e (List.mem_filter.mp (mem_of_bucketEvents he)).1) hb
  obtain ⟨hpar, hprices⟩ := h.priceAt_mono ht c
  have hprice : 0 ≤ priceAt s.snapshots.own.series c t := le_trans (by decide) hpar
  -- in between the user only deposits
  have hle : b.shares ≤ b'.shares := by
    rw [shares_account hb, shares_account hb', bucketEvents_upTo, bucketEvents_upTo]
    apply Int.add_le_add_left
    apply sum_filter_le
    · intro e _ he
      exact decide_eq_true (le_trans (of_decide_eq_true he) ht)
    · intro e he hin hout
      have hmem := mem_of_bucketEvents he
      have hown := (of_decide_eq_true (List.mem_filter.mp he).2).1
      have hpos := (hfair e hmem).shares_pos
      cases hk : e.kind with
      | deposit =>
          unfold VaultEvent.delta
          rw [hk]
          exact le_of_lt hpos
      | withdraw =>
          have hlate := of_decide_eq_false hout
          exact absurd ⟨e, hmem, hown, hk, not_le.mp hlate, of_decide_eq_true hin⟩ hkept
  rw [basisFrom_eq hb, basisFrom_eq hb']
  exact valueUsd_mono hsound.shares_nonneg hle hprice hprices hrate

/-- In a returned view no withdrawal of the user exceeds its shares, at any of the sample times. -/
theorem covered_at {deps : EarningsDeps} {view : EarningsView} (h : getEarnings user deps = .ok (.ok view))
    {t : Int} (ht : t ∈ sampleTimes user deps) (c : Currency) : Covered 0 (bucketEvents user c (upTo t deps.events)) := by
  cases hr : resolveRates user deps (fun _ => none) deps.inUse with
  | err code error => exact absurd (ok_unique (getEarnings_of_err hr) h) (by simp)
  | ok rates =>
      have hmem : upTo t deps.events ∈ replayed user deps := List.mem_cons_of_mem _ (List.mem_map_of_mem ht)
      exact covered_of_getEarnings hr h _ hmem user trivial c

/-- A move the process serves is one of the vault's. -/
theorem Follows.fair {n k : Nat} (hd : rt.Documented) (h : Follows rt position s n k)
    (hw : Reachable Genesis (HomeStep home) s.world) {e : VaultEvent} (he : e ∈ (s.served rt).vaultEvents) :
    e.Fair := by
  -- what the polls can read is the end of the ledger's record, and what is served the beginning of that
  have hsplit : eventsBefore s.startLedger s.history ++ eventsFrom s.startLedger s.history = s.history :=
    eventsBefore_append_eventsFrom h.recorded.ledgers
  have hcarries := h.recorded.carries
  rw [← hsplit] at hcarries
  have hlog := List.forall₂_drop (eventsBefore s.startLedger s.history).length hcarries
  rw [List.drop_left] at hlog
  have hpositive := positive_of_reachable (reachable_of_home hw)
  rw [h.decoded] at he
  exact fair_decoded hd (fun ev hev => hpositive ev (List.mem_of_mem_drop (List.mem_of_mem_take hev)))
    (List.forall₂_take k hlog) he

/-- **The value line falls only where the user withdrew**, where prices on the chain never fall (a virtual offset,
    pools each named by calls of one currency), the RPC is honest and every FX rate is positive. In the chart of
    every view served by the live process, whatever the order of chain steps, polls and snapshots it has lived
    through, a later point is lower than an earlier one only if the user has withdrawn in between. -/
theorem value_line_falls_only_on_withdrawal (hd : rt.Documented) (hw : Reachable Genesis (HomeStep home) w)
    (hv : 0 < w.vault.config.virtualOffset) (hrec : Realtime.Recorded w history)
    {tr : List (Event (Realtime ε) (Happening ε))}
    (hr : Run (Realtime.HonestStep home rt position) (.boot w history configured latest t₀) tr s)
    {assetValueOf : Address → Currency → Int} {fx : Currency → Result ℚ}
    (hfx : ∀ c rate, fx c = .ok rate → 0 < rate) {view : EarningsView}
    (hview : getEarnings user (s.earningsDeps rt assetValueOf fx) = .ok (.ok view)) :
    view.chart.Pairwise fun p p' =>
      p'.valueUsd < p.valueUsd → WithdrawsBetween user (s.served rt).vaultEvents p.ts p'.ts := by
  set deps := s.earningsDeps rt assetValueOf fx with hdeps
  have hboot : Sampled home (.boot w history configured latest t₀ : Realtime ε) := .boot hw hv
  have hsampled := hboot.run (hr.weaken fun _ _ _ hs => hs.priced)
  have hfollows : Follows rt position (.boot w history configured latest t₀ : Realtime ε) 0 0 := .boot hrec
  obtain ⟨n, k, _, _, _, hs⟩ := hfollows.run hr
  have hfair : ∀ e ∈ deps.events, e.Fair := fun e he => hs.fair hd (reachable_of_live hw hr) he
  have hrises : ∀ t ∈ sampleTimes user deps, ∀ t' ∈ sampleTimes user deps, t ≤ t' →
      ¬ WithdrawsBetween user deps.events t t' →
      (stateOf user deps deps.quoted t).valueUsd ≤ (stateOf user deps deps.quoted t').valueUsd := by
    intro t ht t' ht' hle hkept
    show ((deps.inUse.map _).map UsdState.valueUsd).sum ≤ ((deps.inUse.map _).map UsdState.valueUsd).sum
    rw [List.map_map, List.map_map]
    apply List.sum_le_sum
    intro c _
    refine hsampled.bucket_mono hfair ?_ hle hkept (rate_nonneg hfx c)
    intro t₁ ht₁
    rcases List.mem_cons.mp ht₁ with rfl | ht₁
    · exact covered_at hview ht c
    · rw [List.mem_singleton.mp ht₁]
      exact covered_at hview ht' c
  have hchart : view.chart.map (fun p => (p.ts, p.valueUsd))
      = (sampleTimes user deps).map fun t => (t, (stateOf user deps deps.quoted t).valueUsd) := by
    rw [view_eq hview]
    show (chartFrom 0 _).map _ = _
    rw [values_chartFrom, List.map_map]
    rfl
  have hpairs : (view.chart.map fun p => (p.ts, p.valueUsd)).Pairwise fun p p' =>
      p'.2 < p.2 → WithdrawsBetween user deps.events p.1 p'.1 := by
    rw [hchart, List.pairwise_map]
    refine (Timeline.pairwise_distinct _).imp_of_mem ?_
    intro t t' ht ht' hlt hfall
    by_contra hkept
    exact absurd (hrises t ht t' ht' (le_of_lt hlt) hkept) (not_le.mpr hfall)
  exact List.pairwise_map.mp hpairs

/-! ## A run with samples in it -/

/-- The price is read at par and received after a year; the read after it fails and ends the tick. -/
def readAtPar : Realtime String := (polled.onSnapshot .call).onSnapshot (.answer (.replied .usd (.ok 1000000000)))

def aYearOn : Realtime String := { readAtPar with world := yearLater, now := 5 }

def sampledOnce : Realtime String :=
  ((aYearOn.onSnapshot (.answer (.received 5))).onSnapshot (.answer (.replied .eur (.error "timeout")))).onSnapshot
    (.answer (.received 5))

/-- Later the timer starts another tick. -/
def readAgain : Realtime String :=
  ((sampledOnce.onSnapshot .arm).onSnapshot .fire).onSnapshot (.answer (.replied .usd (.ok 1049950049)))

def sampledTwice : Realtime String :=
  ({ readAgain with now := 9 } : Realtime String).onSnapshot (.answer (.received 9))

theorem sampledTwice_run (position : String → Nat) :
    ∃ tr, Run (Realtime.HonestStep (fun _ => .usd) Runtime.plain position) booted tr sampledTwice := by
  obtain ⟨tr, hpolled⟩ := polled_run position
  have hyear : HomeStep (fun _ => .usd) placedWorld (.advance 31536000) yearLater :=
    ⟨.done (World.Accepts.exec (by decide +kernel)), trivial⟩
  have hrec : Realtime.Recorded yearLater placedLog := recorded_placed (by decide +kernel)
  have hpar : Vault.sharePrice placedWorld .usd = .ok 1000000000 := by decide +kernel
  have hyield : Vault.sharePrice yearLater .usd = .ok 1049950049 := by decide +kernel
  have hread : Run (Realtime.HonestStep (fun _ => .usd) Runtime.plain position) polled _ readAtPar :=
    .cons (Realtime.step_onSnapshot polled .call rfl trivial)
      (.cons (Realtime.step_onSnapshot _ (.answer (.replied .usd (.ok 1000000000))) rfl hpar) (.nil _))
  have hwait : Run (Realtime.HonestStep (fun _ => .usd) Runtime.plain position) readAtPar _ aYearOn :=
    .cons ⟨.chain hyear.1 (List.prefix_refl _), hyear, hrec⟩
      (.cons ⟨@Realtime.Step.clock _ _ { readAtPar with world := yearLater } 5 (by decide), trivial, trivial⟩ (.nil _))
  have honce : Run (Realtime.HonestStep (fun _ => .usd) Runtime.plain position) aYearOn _ sampledOnce :=
    .cons (Realtime.step_onSnapshot aYearOn (.answer (.received 5)) rfl rfl)
      (.cons (Realtime.step_onSnapshot _ (.answer (.replied .eur (.error "timeout"))) rfl trivial)
        (.cons (Realtime.step_onSnapshot _ (.answer (.received 5)) rfl rfl) (.nil _)))
  have hagain : Run (Realtime.HonestStep (fun _ => .usd) Runtime.plain position) sampledOnce _ readAgain :=
    .cons (Realtime.step_onSnapshot sampledOnce .arm rfl trivial)
      (.cons (Realtime.step_onSnapshot _ .fire rfl trivial)
        (.cons (Realtime.step_onSnapshot _ (.answer (.replied .usd (.ok 1049950049))) rfl hyield) (.nil _)))
  have hlater : Realtime.HonestStep (fun _ => .usd) Runtime.plain position readAgain (.clock 9)
      { readAgain with now := 9 } := ⟨.clock (by decide), trivial, trivial⟩
  have htwice : Run (Realtime.HonestStep (fun _ => .usd) Runtime.plain position) readAgain _ sampledTwice :=
    .cons hlater (.cons (Realtime.step_onSnapshot _ (.answer (.received 9)) rfl rfl) (.nil _))
  exact ⟨_, hpolled.append (hread.append (hwait.append (honce.append (hagain.append htwice))))⟩

/-- What the depositor is then served. -/
def depositorsDeps : EarningsDeps := sampledTwice.earningsDeps Runtime.plain (fun _ _ => 1049) fun _ => .ok 1

theorem value_line_falls_only_on_withdrawal_sampledTwice :
    ∃ view, getEarnings (SoroSense.Address.account 2).strkey depositorsDeps = .ok (.ok view) ∧
      view.chart.Pairwise fun p p' => p'.valueUsd < p.valueUsd →
        WithdrawsBetween (SoroSense.Address.account 2).strkey depositorsDeps.events p.ts p'.ts := by
  obtain ⟨tr, hr⟩ := sampledTwice_run fun _ => 0
  obtain ⟨view, hview⟩ := exists_view (SoroSense.Address.account 2).strkey depositorsDeps (by decide +kernel)
  refine ⟨view, hview, ?_⟩
  exact value_line_falls_only_on_withdrawal Runtime.plain_documented placedWorld_reachable (by decide +kernel)
    (recorded_placed (by decide +kernel)) hr (fun c rate h => (Result.ok.inj h) ▸ zero_lt_one) hview

end SoroSense.Backend
