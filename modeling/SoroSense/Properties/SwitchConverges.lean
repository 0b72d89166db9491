import SoroSense.Frontend.AutoCompound
import SoroSense.Lib.Execution

/-!
# `Properties.SwitchConverges` — the switch and the chain

Reads and writes share one generation counter, and only the newest generation may answer. Once the hook
has answered, the answer is right until the preference changes under it (`Stale`): a press retires the
reads before it, so the one step that can do that is a write landing after an effect that ran during it has
sampled its read (`Overtakes`). The read has by then retired the write, whose settlement neither shows nor
bumps, and nothing is asked again. `converges_iff` is the exact law.
-/

namespace SoroSense.Frontend.Switch

open Transition

def Step (s : Switch) (a : Act) (t : Switch) : Prop := s.exec a = .ok t

/-! ## Statements -/

/-- The read or the write succeeded, where the step ends one. -/
def Act.Succeeds : Act → Prop
  | .readFailed _ | .writeSettled .rejected | .writeSettled (.threw _) => False
  | _                                                                 => True

/-- No read or write in flight, everything rendered, no effect due. -/
structure Quiet (s : Switch) : Prop where
  no_read  : ∀ n, s.reads n = none
  no_write : s.write = none
  rendered : s.rendered = ⟨s.wallet, s.version, s.view, s.pending⟩
  ran      : ¬ s.EffectDue

/-- The switch is live and shows `v`. -/
def Shows (s : Switch) (v : Bool) : Prop := s.rendered.view = ⟨false, v⟩

/-- The effect is asked for again, or a write retires its answer. -/
def Restarts (s : Switch) : Act → Prop
  | .bump | .effect => True
  | .press          => s.pressed ≠ none
  | _               => False

/-- A write lands and changes the preference of the address shown, after an effect that ran during the write
    has sampled its read. -/
def Overtakes (s : Switch) (a : Act) : Prop :=
  a = .land ∧ ∃ w e, s.write = some w ∧ w.mine ≠ s.gen ∧ s.ran = some e ∧ e.version = s.version ∧
    e.wallet = some w.address ∧ (∀ r, s.reads s.gen = some r → r.sampled ≠ none) ∧
    w.next ≠ s.chain w.address

/-! ## The answer of the newest generation -/

/-- The effect ran since the last bump and no press came after it. -/
structure Asked (s : Switch) (e : EffectRun) : Prop where
  ran    : s.ran = some e
  latest : e.version = s.version
  newest : ∀ w, s.write = some w → w.mine ≠ s.gen

/-- Its read sampled `v`, or settled and left `v` in the view. -/
def Answered (s : Switch) (v : Bool) : Prop :=
  (∃ r, s.reads s.gen = some r ∧ r.sampled = some v) ∨ (s.reads s.gen = none ∧ s.view.enabled = v)

/-- It answered what the chain does not say. -/
def Stale (s : Switch) : Prop :=
  ∃ e a v, s.Asked e ∧ e.wallet = some a ∧ s.Answered v ∧ v ≠ s.chain a

/-- What holds between the counter, the flights and the chain. -/
structure Inv (s : Switch) : Prop where
  reads_le     : ∀ n r, s.reads n = some r → n ≤ s.gen
  cancelled_lt : ∀ n r, s.reads n = some r → r.cancelled = true → n < s.gen
  newest_read  : ∀ r, s.reads s.gen = some r → ∃ e, s.ran = some e ∧ e.wallet = some r.address
  ran_le       : ∀ e, s.ran = some e → e.version ≤ s.version
  rendered_le  : s.rendered.version ≤ s.version
  write_le     : ∀ w, s.write = some w → w.mine ≤ s.gen
  write_apart  : ∀ w, s.write = some w → s.reads w.mine = none
  landed       : ∀ w, s.write = some w → w.landed = true → s.chain w.address = w.next
  unlanded     : ∀ w, s.write = some w → w.landed = false → ¬ s.Stale
  settled      : ∀ e, s.Asked e → s.reads s.gen = none → s.view.loading = false

variable {s t : Switch} {a : Act} {n : ℕ}

/-- Only one answer is given. -/
theorem Answered.of_sampled {v : Bool} {r : Read} (h : s.Answered v) (hr : s.reads s.gen = some r) :
    r.sampled = some v := by
  rcases h with ⟨r', hr', hv⟩ | ⟨hnone, _⟩
  · rw [hr] at hr'
    cases hr'
    exact hv
  · rw [hr] at hnone
    exact absurd hnone (by simp)

/-- The newest generation has answered unless its read has yet to sample. -/
theorem exists_answered_iff :
    (∃ v, s.Answered v) ↔ ∀ r, s.reads s.gen = some r → r.sampled ≠ none := by
  constructor
  · rintro ⟨v, hans⟩ r hr hnone
    have hs := hans.of_sampled hr
    rw [hnone] at hs
    exact absurd hs (by simp)
  · intro hsampled
    cases hr : s.reads s.gen with
    | none   => exact ⟨s.view.enabled, .inr ⟨hr, rfl⟩⟩
    | some r =>
        obtain ⟨v, hv⟩ := Option.ne_none_iff_exists'.mp (hsampled r hr)
        exact ⟨v, .inl ⟨r, hr, hv⟩⟩

/-- An answer that is not stale is what the chain says. -/
theorem eq_of_not_stale {e : EffectRun} {address : String} {v : Bool} (h : ¬ s.Stale) (hasked : s.Asked e)
    (ha : e.wallet = some address) (hans : s.Answered v) : v = s.chain address := by
  by_contra hne
  exact h ⟨e, address, v, hasked, ha, hans, hne⟩

theorem not_stale_of_unsampled {r : Read} (hr : s.reads s.gen = some r) (hn : r.sampled = none) :
    ¬ s.Stale := by
  rintro ⟨e, a, v, _, _, hv, _⟩
  have hs := hv.of_sampled hr
  rw [hn] at hs
  exact absurd hs (by simp)

theorem not_stale_of_write {w : Write} (hw : s.write = some w) (hm : w.mine = s.gen) : ¬ s.Stale := by
  rintro ⟨e, _, _, hasked, _⟩
  exact hasked.newest w hw hm

/-- Two states that were asked alike, answered alike and look at one chain are stale alike. -/
theorem stale_congr (hasked : ∀ e, t.Asked e ↔ s.Asked e) (hans : ∀ v, t.Answered v ↔ s.Answered v)
    (hchain : t.chain = s.chain) : t.Stale ↔ s.Stale := by
  unfold Stale
  simp only [hasked, hans, hchain]

theorem asked_congr (hran : t.ran = s.ran) (hversion : t.version = s.version)
    (hnew : (∀ w, t.write = some w → w.mine ≠ t.gen) ↔ ∀ w, s.write = some w → w.mine ≠ s.gen)
    (e : EffectRun) : t.Asked e ↔ s.Asked e := by
  constructor
  · rintro ⟨h₁, h₂, h₃⟩
    exact ⟨hran ▸ h₁, hversion ▸ h₂, hnew.mp h₃⟩
  · rintro ⟨h₁, h₂, h₃⟩
    exact ⟨hran.symm ▸ h₁, hversion.symm ▸ h₂, hnew.mpr h₃⟩

theorem answered_congr (hreads : t.reads t.gen = s.reads s.gen) (hview : t.view = s.view) (v : Bool) :
    t.Answered v ↔ s.Answered v := by
  unfold Answered
  rw [hreads, hview]

/-! ## What each step does to it -/

/-- A bump clears it: the effect is due, -/
theorem not_stale_bumped (hI : s.Inv) : ¬ Stale { s with version := s.version + 1 } := by
  rintro ⟨e, _, _, hasked, _⟩
  have hle := hI.ran_le e hasked.ran
  have hlatest : e.version = s.version + 1 := hasked.latest
  omega

/-- … an effect does: its read is not sampled, -/
theorem not_stale_runEffect : ¬ s.runEffect.Stale := by
  unfold runEffect
  cases s.rendered.wallet with
  | none =>
      rintro ⟨e, a, _, hasked, ha, _⟩
      cases hasked.ran
      exact absurd ha (by simp)
  | some address =>
      exact not_stale_of_unsampled (Function.update_self (s.gen + 1) _ _) rfl

/-- … and so does the start of a write. -/
theorem not_stale_startWrite {address : String} {next : Bool} : ¬ (s.startWrite address next).Stale :=
  not_stale_of_write rfl rfl

theorem stale_connect {wallet : Option String} : Stale { s with wallet := wallet } ↔ s.Stale :=
  stale_congr (asked_congr rfl rfl Iff.rfl) (answered_congr rfl rfl) rfl

theorem stale_render {r : Rendered} : Stale { s with rendered := r } ↔ s.Stale :=
  stale_congr (asked_congr rfl rfl Iff.rfl) (answered_congr rfl rfl) rfl

/-- A sample agrees with the chain. -/
theorem stale_sampled {r : Read} (hI : s.Inv) (hr : s.reads n = some r) (hn : r.sampled = none) :
    Stale { s with reads := Function.update s.reads n (some { r with sampled := some (s.chain r.address) }) }
      ↔ s.Stale := by
  by_cases hgen : s.gen = n
  · subst hgen
    refine iff_of_false ?_ (not_stale_of_unsampled hr hn)
    rintro ⟨e, a, v, hasked, ha, hv, hne⟩
    obtain ⟨e', he', ha'⟩ := hI.newest_read r hr
    have hran : s.ran = some e := hasked.ran
    rw [he'] at hran
    cases hran
    rw [ha'] at ha
    cases ha
    have hs := hv.of_sampled (Function.update_self s.gen _ _)
    exact hne (Option.some.inj hs).symm
  · exact stale_congr (asked_congr rfl rfl Iff.rfl) (answered_congr (Function.update_of_ne hgen _ _) rfl) rfl

/-- A settled read leaves in the view what it sampled, if it is the newest, and nothing otherwise. -/
theorem stale_settleRead {r : Read} {enabled : Bool} (hI : s.Inv) (hr : s.reads n = some r)
    (hv : r.sampled = some enabled) : (s.settleRead n r enabled).Stale ↔ s.Stale := by
  unfold settleRead
  split
  · rename_i hfresh
    obtain ⟨_, rfl⟩ := hfresh
    refine stale_congr (asked_congr rfl rfl Iff.rfl) ?_ rfl
    intro v
    have hnone : Function.update s.reads s.gen none s.gen = none := Function.update_self _ _ _
    constructor
    · rintro (⟨r', hr', _⟩ | ⟨_, hv'⟩)
      · exact absurd (hnone.symm.trans hr') (by simp)
      · have hv' : enabled = v := hv'
        subst hv'
        exact .inl ⟨r, hr, hv⟩
    · intro hans
      have hv' := hans.of_sampled hr
      rw [hv] at hv'
      exact .inr ⟨hnone, Option.some.inj hv'⟩
  · rename_i hstale
    refine stale_congr (asked_congr rfl rfl Iff.rfl) (answered_congr ?_ rfl) rfl
    refine Function.update_of_ne ?_ _ _
    intro hgen
    have hgen : s.gen = n := hgen
    -- the newest read was never cancelled
    have hlive : r.cancelled ≠ true := by
      intro hc
      have hlt := hI.cancelled_lt n r hr hc
      omega
    exact hstale ⟨Bool.eq_false_iff.mpr hlive, hgen⟩

/-- What a write that is under way asks of the newest generation. -/
theorem newest_iff {w : Write} (hw : s.write = some w) :
    (∀ w', s.write = some w' → w'.mine ≠ s.gen) ↔ w.mine ≠ s.gen := by
  constructor
  · intro h
    exact h w hw
  · intro h w' hw'
    rw [hw] at hw'
    cases hw'
    exact h

/-- **A landing** makes the answer wrong exactly when it overtakes it. -/
theorem stale_landWrite {w : Write} (hI : s.Inv) (hw : s.write = some w) (hl : w.landed = false) :
    (s.landWrite w).Stale ↔ s.Stale ∨ s.Overtakes .land := by
  have hfresh := hI.unlanded w hw hl
  rw [or_iff_right hfresh]
  have hlanded : (s.landWrite w).write = some { w with landed := true } := rfl
  have hasked : ∀ e, (s.landWrite w).Asked e ↔ s.Asked e :=
    asked_congr rfl rfl ((newest_iff hlanded).trans (newest_iff hw).symm)
  have hchain : (s.landWrite w).chain w.address = w.next := Function.update_self _ _ _
  constructor
  · rintro ⟨e, a, v, hnow, ha, hans, hne⟩
    have hthen := (hasked e).mp hnow
    -- before the landing the answer was right
    have hright : v = s.chain a := eq_of_not_stale hfresh hthen ha hans
    have haddr : w.address = a := by
      by_contra hother
      have hkept : (s.landWrite w).chain a = s.chain a := Function.update_of_ne (Ne.symm hother) _ _
      exact hne (hkept ▸ hright)
    subst haddr
    rw [hchain, hright] at hne
    exact ⟨rfl, w, e, hw, hthen.newest w hw, hthen.ran, hthen.latest, ha, exists_answered_iff.mp ⟨v, hans⟩,
      hne.symm⟩
  · rintro ⟨_, w', e, hw', hmine, hran, hlatest, ha, hsampled, hne⟩
    rw [hw] at hw'
    cases hw'
    have hthen : s.Asked e := ⟨hran, hlatest, (newest_iff hw).mpr hmine⟩
    obtain ⟨v, hans⟩ := exists_answered_iff.mpr hsampled
    have hright : v = s.chain w.address := eq_of_not_stale hfresh hthen ha hans
    refine ⟨e, w.address, v, (hasked e).mpr hthen, ha, hans, ?_⟩
    rw [hchain, hright]
    exact hne.symm

/-- A write that settles is silent when it was retired, and asks again when it was not. -/
theorem stale_settleWrite {w : Write} (hI : s.Inv) (hw : s.write = some w) :
    (s.settleWrite w .success).Stale ↔ s.Stale := by
  simp only [settleWrite]
  split
  · rename_i hmine
    refine stale_congr (asked_congr rfl rfl ?_) (answered_congr rfl rfl) rfl
    constructor
    · intro _ w' hw'
      rw [hw] at hw'
      cases hw'
      exact Ne.symm hmine
    · intro _ w' hw'
      exact absurd hw' (by simp [endWrite])
  · rename_i hmine
    refine iff_of_false ?_ (not_stale_of_write hw (not_not.mp hmine).symm)
    rintro ⟨e, _, _, hasked, _⟩
    have hle := hI.ran_le e hasked.ran
    have hlatest : e.version = s.version + 1 := hasked.latest
    omega

/-! ## The invariant -/

theorem inv_mounted (chain : String → Bool) (wallet : Option String) (version : ℕ) :
    (mounted chain wallet version).Inv where
  reads_le _ _ h     := absurd h (by simp [mounted])
  cancelled_lt _ _ h := absurd h (by simp [mounted])
  newest_read _ h    := absurd h (by simp [mounted])
  ran_le _ h         := absurd h (by simp [mounted])
  rendered_le        := le_refl version
  write_le _ h       := absurd h (by simp [mounted])
  write_apart _ h    := absurd h (by simp [mounted])
  landed _ h         := absurd h (by simp [mounted])
  unlanded _ h       := absurd h (by simp [mounted])
  settled _ h        := absurd h.ran (by simp [mounted])

theorem inv_connect {wallet : Option String} (hI : s.Inv) : Inv { s with wallet := wallet } :=
  ⟨hI.reads_le, hI.cancelled_lt, hI.newest_read, hI.ran_le, hI.rendered_le, hI.write_le, hI.write_apart,
    hI.landed, fun w hw hl hst => hI.unlanded w hw hl (stale_connect.mp hst), fun e h hr => hI.settled e ⟨h.ran, h.latest, h.newest⟩ hr⟩

theorem inv_bump (hI : s.Inv) : Inv { s with version := s.version + 1 } where
  reads_le     := hI.reads_le
  cancelled_lt := hI.cancelled_lt
  newest_read  := hI.newest_read
  ran_le e h   := le_trans (hI.ran_le e h) (Nat.le_succ s.version)
  rendered_le  := le_trans hI.rendered_le (Nat.le_succ s.version)
  write_le     := hI.write_le
  write_apart  := hI.write_apart
  landed       := hI.landed
  unlanded _ _ _ := not_stale_bumped hI
  settled e h _  := by
    have hle := hI.ran_le e h.ran
    have hlatest : e.version = s.version + 1 := h.latest
    omega

theorem inv_render (hI : s.Inv) : Inv { s with rendered := ⟨s.wallet, s.version, s.view, s.pending⟩ } :=
  ⟨hI.reads_le, hI.cancelled_lt, hI.newest_read, hI.ran_le, le_refl s.version, hI.write_le, hI.write_apart,
    hI.landed, fun w hw hl hst => hI.unlanded w hw hl (stale_render.mp hst), fun e h hr => hI.settled e ⟨h.ran, h.latest, h.newest⟩ hr⟩

/-- The cleanup adds no read, -/
theorem of_cleanedUp {r : Read} (h : s.cleanedUp n = some r) : ∃ r', s.reads n = some r' := by
  unfold cleanedUp at h
  cases hran : s.ran with
  | none =>
      simp only [hran] at h
      exact ⟨r, h⟩
  | some e =>
      simp only [hran] at h
      by_cases hn : n = e.mine
      · subst hn
        rw [Function.update_self] at h
        obtain ⟨r', hr', _⟩ := Option.map_eq_some_iff.mp h
        exact ⟨r', hr'⟩
      · rw [Function.update_of_ne hn] at h
        exact ⟨r, h⟩

/-- … and none is of a generation to come. -/
theorem cleanedUp_le {r : Read} (hI : s.Inv) (h : s.cleanedUp n = some r) : n ≤ s.gen := by
  obtain ⟨r', hr'⟩ := of_cleanedUp h
  exact hI.reads_le n r' hr'

theorem cleanedUp_eq_none (h : s.reads n = none) : s.cleanedUp n = none := by
  cases hc : s.cleanedUp n with
  | none   => rfl
  | some r =>
      obtain ⟨r', hr'⟩ := of_cleanedUp hc
      rw [h] at hr'
      exact absurd hr' (by simp)

theorem inv_runEffect (hI : s.Inv) : s.runEffect.Inv := by
  have hstale : ¬ s.runEffect.Stale := not_stale_runEffect
  unfold runEffect at hstale ⊢
  cases hw : s.rendered.wallet with
  | none =>
      rw [hw] at hstale
      refine ⟨?_, ?_, ?_, ?_, hI.rendered_le, ?_, ?_, hI.landed, fun _ _ _ => hstale, fun _ _ _ => rfl⟩
      · intro n r h
        exact le_trans (cleanedUp_le hI h) (Nat.le_succ s.gen)
      · intro n r h _
        exact Nat.lt_succ_of_le (cleanedUp_le hI h)
      · intro r h
        exact absurd (cleanedUp_le hI h) (Nat.not_succ_le_self s.gen)
      · intro e h
        cases h
        exact hI.rendered_le
      · intro w h
        exact le_trans (hI.write_le w h) (Nat.le_succ s.gen)
      · intro w h
        exact cleanedUp_eq_none (hI.write_apart w h)
  | some address =>
      rw [hw] at hstale
      have hold : ∀ {n : ℕ} {r : Read}, n ≠ s.gen + 1 →
          Function.update s.cleanedUp (s.gen + 1) (some ⟨address, false, none⟩) n = some r → n ≤ s.gen := by
        intro n r hn h
        rw [Function.update_of_ne hn] at h
        exact cleanedUp_le hI h
      refine ⟨?_, ?_, ?_, ?_, hI.rendered_le, ?_, ?_, hI.landed, fun _ _ _ => hstale, ?_⟩
      · intro n r h
        by_cases hn : n = s.gen + 1
        · exact le_of_eq hn
        · exact le_trans (hold hn h) (Nat.le_succ s.gen)
      · intro n r h hc
        by_cases hn : n = s.gen + 1
        · subst hn
          have hr := (Function.update_self (s.gen + 1) _ _).symm.trans h
          cases hr
          exact absurd hc (by simp)
        · exact Nat.lt_succ_of_le (hold hn h)
      · intro r h
        have hr := (Function.update_self (s.gen + 1) _ _).symm.trans h
        cases hr
        exact ⟨_, rfl, rfl⟩
      · intro e h
        cases h
        exact hI.rendered_le
      · intro w h
        exact le_trans (hI.write_le w h) (Nat.le_succ s.gen)
      · intro w h
        have hle := hI.write_le w h
        have hne : w.mine ≠ s.gen + 1 := by omega
        exact (Function.update_of_ne hne _ _).trans (cleanedUp_eq_none (hI.write_apart w h))
      · intro e _ hnone
        exact absurd ((Function.update_self (s.gen + 1) _ _).symm.trans hnone) (by simp)

theorem inv_sampled {r : Read} (hI : s.Inv) (hr : s.reads n = some r) (hn : r.sampled = none) :
    Inv { s with reads := Function.update s.reads n (some { r with sampled := some (s.chain r.address) }) } := by
  have hold : ∀ {k : ℕ} {r' : Read},
      Function.update s.reads n (some { r with sampled := some (s.chain r.address) }) k = some r' →
        ∃ r₀, s.reads k = some r₀ ∧ r'.address = r₀.address ∧ r'.cancelled = r₀.cancelled := by
    intro k r' h
    by_cases hk : k = n
    · subst hk
      rw [Function.update_self] at h
      cases h
      exact ⟨r, hr, rfl, rfl⟩
    · rw [Function.update_of_ne hk] at h
      exact ⟨r', h, rfl, rfl⟩
  refine ⟨?_, ?_, ?_, hI.ran_le, hI.rendered_le, hI.write_le, ?_, hI.landed, ?_, ?_⟩
  · intro k r' h
    obtain ⟨r₀, h₀, _⟩ := hold h
    exact hI.reads_le k r₀ h₀
  · intro k r' h hc
    obtain ⟨r₀, h₀, _, hc₀⟩ := hold h
    exact hI.cancelled_lt k r₀ h₀ (hc₀ ▸ hc)
  · intro r' h
    obtain ⟨r₀, h₀, ha, _⟩ := hold h
    rw [ha]
    exact hI.newest_read r₀ h₀
  · intro w hw
    have hnone := hI.write_apart w hw
    have hne : w.mine ≠ n := by
      intro hmine
      rw [hmine, hr] at hnone
      exact absurd hnone (by simp)
    exact (Function.update_of_ne hne _ _).trans hnone
  · intro w hw hl hst
    exact hI.unlanded w hw hl ((stale_sampled hI hr hn).mp hst)
  · intro e h hnone
    refine hI.settled e ⟨h.ran, h.latest, h.newest⟩ ?_
    by_cases hk : s.gen = n
    · subst hk
      exact absurd ((Function.update_self s.gen _ _).symm.trans hnone) (by simp)
    · exact (Function.update_of_ne hk _ _).symm.trans hnone

theorem reads_forget {k : ℕ} {r : Read} (h : (s.forget n).reads k = some r) : s.reads k = some r := by
  by_cases hk : k = n
  · subst hk
    exact absurd ((Function.update_self k _ _).symm.trans h) (by simp)
  · exact (Function.update_of_ne hk _ _).symm.trans h

theorem inv_settleRead {r : Read} {enabled : Bool} (hI : s.Inv) (hr : s.reads n = some r)
    (hv : r.sampled = some enabled) : (s.settleRead n r enabled).Inv := by
  have hstale := stale_settleRead hI hr hv
  have hapart : ∀ w, s.write = some w → (s.forget n).reads w.mine = none := by
    intro w hw
    by_cases hk : w.mine = n
    · subst hk
      exact Function.update_self _ _ _
    · exact (Function.update_of_ne hk _ _).trans (hI.write_apart w hw)
  unfold settleRead at hstale ⊢
  split
  · rename_i hfresh
    rw [if_pos hfresh] at hstale
    exact ⟨fun k r' h => hI.reads_le k r' (reads_forget h),
      fun k r' h => hI.cancelled_lt k r' (reads_forget h), fun r' h => hI.newest_read r' (reads_forget h),
      hI.ran_le, hI.rendered_le, hI.write_le, hapart, hI.landed,
      fun w hw hl hst => hI.unlanded w hw hl (hstale.mp hst), fun _ _ _ => rfl⟩
  · rename_i hold
    rw [if_neg hold] at hstale
    refine ⟨fun k r' h => hI.reads_le k r' (reads_forget h),
      fun k r' h => hI.cancelled_lt k r' (reads_forget h), fun r' h => hI.newest_read r' (reads_forget h),
      hI.ran_le, hI.rendered_le, hI.write_le, hapart, hI.landed,
      fun w hw hl hst => hI.unlanded w hw hl (hstale.mp hst), ?_⟩
    intro e h hnone
    refine hI.settled e ⟨h.ran, h.latest, h.newest⟩ ?_
    by_cases hk : s.gen = n
    · -- the newest read is fresh
      subst hk
      have hlive : r.cancelled ≠ true := by
        intro hc
        exact absurd (hI.cancelled_lt s.gen r hr hc) (lt_irrefl s.gen)
      exact absurd ⟨Bool.eq_false_iff.mpr hlive, rfl⟩ hold
    · exact (Function.update_of_ne hk _ _).symm.trans hnone

theorem inv_startWrite {address : String} {next : Bool} (hI : s.Inv) : (s.startWrite address next).Inv := by
  have hnone : s.reads (s.gen + 1) = none := by
    cases hr : s.reads (s.gen + 1) with
    | none   => rfl
    | some r => exact absurd (hI.reads_le _ r hr) (Nat.not_succ_le_self s.gen)
  refine ⟨?_, ?_, ?_, hI.ran_le, hI.rendered_le, ?_, ?_, ?_, fun _ _ _ => not_stale_startWrite, ?_⟩
  · intro k r h
    exact le_trans (hI.reads_le k r h) (Nat.le_succ s.gen)
  · intro k r h _
    exact Nat.lt_succ_of_le (hI.reads_le k r h)
  · intro r h
    exact absurd (hnone.symm.trans h) (by simp)
  · intro w h
    cases h
    exact le_refl (s.gen + 1)
  · intro w h
    cases h
    exact hnone
  · intro w h hl
    cases h
    exact absurd hl (by simp)
  · intro e h _
    exact absurd rfl (h.newest _ rfl)

theorem inv_landWrite {w : Write} (hI : s.Inv) (hw : s.write = some w) : (s.landWrite w).Inv := by
  refine ⟨hI.reads_le, hI.cancelled_lt, hI.newest_read, hI.ran_le, hI.rendered_le, ?_, ?_, ?_, ?_, ?_⟩
  · intro w' h
    cases h
    exact hI.write_le w hw
  · intro w' h
    cases h
    exact hI.write_apart w hw
  · intro w' h _
    cases h
    exact Function.update_self _ _ _
  · intro w' h hl
    cases h
    exact absurd hl (by simp)
  · intro e h hnone
    refine hI.settled e ⟨h.ran, h.latest, ?_⟩ hnone
    intro w' hw'
    rw [hw] at hw'
    cases hw'
    exact h.newest { w with landed := true } rfl

theorem inv_settleWrite {w : Write} (hI : s.Inv) (hw : s.write = some w) : (s.settleWrite w .success).Inv := by
  simp only [settleWrite]
  split
  · rename_i hmine
    refine ⟨hI.reads_le, hI.cancelled_lt, hI.newest_read, hI.ran_le, hI.rendered_le,
      fun _ h => absurd h (by simp [endWrite]), fun _ h => absurd h (by simp [endWrite]),
      fun _ h => absurd h (by simp [endWrite]), fun _ h => absurd h (by simp [endWrite]), ?_⟩
    intro e h hnone
    refine hI.settled e ⟨h.ran, h.latest, ?_⟩ hnone
    intro w' hw'
    rw [hw] at hw'
    cases hw'
    exact Ne.symm hmine
  · exact ⟨hI.reads_le, hI.cancelled_lt, hI.newest_read,
      fun e h => le_trans (hI.ran_le e h) (Nat.le_succ s.version),
      le_trans hI.rendered_le (Nat.le_succ s.version), fun _ h => absurd h (by simp [endWrite]),
      fun _ h => absurd h (by simp [endWrite]), fun _ h => absurd h (by simp [endWrite]),
      fun _ h => absurd h (by simp [endWrite]), fun _ _ _ => rfl⟩

/-- **Step lemma.** A step that succeeds keeps the invariant, -/
theorem Step.inv (h : Step s a t) (hs : a.Succeeds) (hI : s.Inv) : t.Inv := by
  cases a with
  | connect wallet =>
      cases h
      exact inv_connect hI
  | bump =>
      cases h
      exact inv_bump hI
  | render =>
      cases h
      exact inv_render hI
  | effect =>
      obtain ⟨_, rfl⟩ := exec_effect h
      exact inv_runEffect hI
  | sample n =>
      obtain ⟨r, hr, hn, rfl⟩ := exec_sample h
      exact inv_sampled hI hr hn
  | readSettled n =>
      obtain ⟨r, enabled, hr, hv, rfl⟩ := exec_readSettled h
      exact inv_settleRead hI hr hv
  | readFailed n => exact absurd hs id
  | press =>
      rcases exec_press h with ⟨address, next, _, rfl⟩ | ⟨_, rfl⟩
      · exact inv_startWrite hI
      · exact hI
  | land =>
      obtain ⟨w, hw, _, rfl⟩ := exec_land h
      exact inv_landWrite hI hw
  | writeSettled outcome =>
      cases outcome with
      | success =>
          obtain ⟨w, hw, _, rfl⟩ := exec_writeSettled h
          exact inv_settleWrite hI hw
      | rejected => exact absurd hs id
      | threw e => exact absurd hs id

/-- … clears a wrong answer when it restarts the hook, -/
theorem Step.not_stale (h : Step s a t) (hI : s.Inv) (hr : s.Restarts a) : ¬ t.Stale := by
  cases a with
  | bump =>
      cases h
      exact not_stale_bumped hI
  | effect =>
      obtain ⟨_, rfl⟩ := exec_effect h
      exact not_stale_runEffect
  | press =>
      rcases exec_press h with ⟨address, next, _, rfl⟩ | ⟨hnone, _⟩
      · exact not_stale_startWrite
      · exact absurd hnone hr
  | connect _ | render | sample _ | readSettled _ | readFailed _ | land | writeSettled _ => exact absurd hr id

/-- … and makes the answer wrong only by overtaking it. -/
theorem Step.stale_iff (h : Step s a t) (hs : a.Succeeds) (hI : s.Inv) (hr : ¬ s.Restarts a) :
    t.Stale ↔ s.Stale ∨ s.Overtakes a := by
  have hother : a ≠ .land → (s.Stale ∨ s.Overtakes a ↔ s.Stale) := by
    intro hne
    exact or_iff_left fun ho => hne ho.1
  cases a with
  | connect wallet =>
      cases h
      rw [hother (by simp)]
      exact stale_connect
  | bump => exact absurd trivial hr
  | render =>
      cases h
      rw [hother (by simp)]
      exact stale_render
  | effect => exact absurd trivial hr
  | sample n =>
      obtain ⟨r, hread, hn, rfl⟩ := exec_sample h
      rw [hother (by simp)]
      exact stale_sampled hI hread hn
  | readSettled n =>
      obtain ⟨r, enabled, hread, hv, rfl⟩ := exec_readSettled h
      rw [hother (by simp)]
      exact stale_settleRead hI hread hv
  | readFailed n => exact absurd hs id
  | press =>
      rcases exec_press h with ⟨address, next, hp, _⟩ | ⟨_, rfl⟩
      · exact absurd (by show s.pressed ≠ none; rw [hp]; simp) hr
      · exact (hother (by simp)).symm
  | land =>
      obtain ⟨w, hw, hl, rfl⟩ := exec_land h
      exact stale_landWrite hI hw hl
  | writeSettled outcome =>
      cases outcome with
      | success =>
          obtain ⟨w, hw, _, rfl⟩ := exec_writeSettled h
          rw [hother (by simp)]
          exact stale_settleWrite hI hw
      | rejected => exact absurd hs id
      | threw e => exact absurd hs id

/-! ## Runs -/

/-- When all is quiet the hook shows the chain **iff** its answer is not stale. -/
theorem shows_iff_not_stale {address : String} (hI : s.Inv) (hq : s.Quiet) (hw : s.wallet = some address) :
    s.Shows (s.chain address) ↔ ¬ s.Stale := by
  obtain ⟨e, he, hdeps⟩ : ∃ e, s.ran = some e ∧ (e.wallet, e.version) = (some address, s.version) := by
    have hran := not_not.mp hq.ran
    rw [hq.rendered, hw] at hran
    exact Option.map_eq_some_iff.mp hran
  obtain ⟨hwallet, hversion⟩ := Prod.mk.inj hdeps
  have hasked : s.Asked e := ⟨he, hversion, fun w h => absurd (hq.no_write.symm.trans h) (by simp)⟩
  have hloading := hI.settled e hasked (hq.no_read s.gen)
  have hshown : s.Shows (s.chain address) ↔ s.view.enabled = s.chain address := by
    show s.rendered.view = ⟨false, s.chain address⟩ ↔ _
    rw [hq.rendered]
    show s.view = ⟨false, s.chain address⟩ ↔ _
    constructor
    · intro h
      rw [h]
    · intro h
      rw [← hloading, ← h]
  rw [hshown]
  constructor
  · rintro h ⟨e', a, v, hasked', ha, hans, hne⟩
    have hran := hasked'.ran
    rw [he] at hran
    cases hran
    rw [hwallet] at ha
    cases ha
    rcases hans with ⟨r, hr, _⟩ | ⟨_, hv⟩
    · exact absurd ((hq.no_read s.gen).symm.trans hr) (by simp)
    · exact hne (hv.symm.trans h)
  · intro hfresh
    exact eq_of_not_stale hfresh hasked hwallet (.inr ⟨hq.no_read s.gen, rfl⟩)

theorem not_stale_mounted {chain : String → Bool} {wallet : Option String} {version : ℕ} :
    ¬ (mounted chain wallet version).Stale := by
  rintro ⟨e, _, _, hasked, _⟩
  exact absurd hasked.ran (by simp [mounted])

variable {tr : List (Event Switch Act)}

/-- **The switch converges, exactly.** Take any run of reads, bumps, presses, renders and account switches
    in which every read and write succeeds. When all is quiet at the end, the switch shows what the chain
    stores for the connected address **iff** no write overtook a sampled read without a bump, an effect or
    a new write after it. -/
theorem converges_iff {chain : String → Bool} {wallet : Option String} {version : ℕ} {address : String}
    (h : Run Step (mounted chain wallet version) tr t) (hs : ∀ e ∈ tr, e.label.Succeeds)
    (hq : t.Quiet) (hw : t.wallet = some address) :
    t.Shows (t.chain address) ↔ ¬ Lingers Restarts Overtakes tr := by
  have hrun := h.restrict hs
  have hinv : ∀ s a t, Inv s → (Step s a t ∧ a.Succeeds) → t.Inv := fun _ _ _ hI hst => hst.1.inv hst.2 hI
  have hI : t.Inv := hrun.invariant hinv (inv_mounted chain wallet version)
  rw [shows_iff_not_stale hI hq hw]
  have hlingers := hrun.lingers_iff (P := Stale) hinv (fun _ _ _ hI hst hr => hst.1.not_stale hI hr)
    (fun _ _ _ hI hst hr => hst.1.stale_iff hst.2 hI hr) (inv_mounted chain wallet version)
  rw [hlingers, or_iff_right (fun hst => not_stale_mounted hst.1)]

/-! ## Two runs -/

/-- A depositor who never set the preference: it is on. -/
def fresh : Switch := mounted (fun _ => true) (some "GUSER") 0

/-- Read, switched off, read again. -/
def switchedOff : List Act :=
  [.effect, .sample 1, .readSettled 1, .render, .press, .render, .land, .writeSettled .success, .render,
    .effect, .sample 3, .readSettled 3, .render]

theorem converges_switchedOff :
    (Execution.after exec fresh switchedOff).rendered.view = ⟨false, false⟩ ∧
      ¬ Lingers Restarts Overtakes (Execution.trace exec fresh switchedOff) := by
  refine ⟨by decide, (converges_iff (Execution.run_trace (fun _ _ _ h => h) switchedOff) ?_ ?_ rfl).mp ?_⟩
  · intro e he
    have hlabel := Execution.trace_labels switchedOff e he
    generalize e.label = a at hlabel
    simp only [switchedOff, List.mem_cons, List.not_mem_nil, or_false] at hlabel
    rcases hlabel with rfl | rfl | rfl | rfl | rfl | rfl | rfl | rfl | rfl | rfl | rfl | rfl | rfl <;> trivial
  · refine ⟨?_, rfl, by decide, by decide⟩
    intro n
    match n with
    | 0 | 1 | 2 | 3 => rfl
    | _ + 4         => rfl
  · unfold Shows
    decide

/-- Switched off; a bump while the signature is open reads the preference again, and the write lands
    after that. -/
def overtaken : List Act :=
  [.effect, .sample 1, .readSettled 1, .render, .press, .bump, .render, .effect, .sample 3, .readSettled 3,
    .land, .writeSettled .success, .render]

/-- **A bump during a write leaves the switch on, the preference off.** -/
theorem not_converges_overtaken :
    ∃ tr t, Run Step fresh tr t ∧ (∀ e ∈ tr, e.label.Succeeds) ∧ t.Quiet ∧ t.wallet = some "GUSER" ∧
      t.chain "GUSER" = false ∧ ¬ t.Shows (t.chain "GUSER") := by
  refine ⟨Execution.trace exec fresh overtaken, Execution.after exec fresh overtaken,
    Execution.run_trace (fun _ _ _ h => h) overtaken, ?_, ?_, rfl, rfl, ?_⟩
  · intro e he
    have hlabel := Execution.trace_labels overtaken e he
    generalize e.label = a at hlabel
    simp only [overtaken, List.mem_cons, List.not_mem_nil, or_false] at hlabel
    rcases hlabel with rfl | rfl | rfl | rfl | rfl | rfl | rfl | rfl | rfl | rfl | rfl | rfl | rfl <;> trivial
  · refine ⟨?_, rfl, by decide, by decide⟩
    intro n
    match n with
    | 0 | 1 | 2 | 3 => rfl
    | _ + 4         => rfl
  · show ¬ ((Execution.after exec fresh overtaken).rendered.view
      = ⟨false, (Execution.after exec fresh overtaken).chain "GUSER"⟩)
    decide

end SoroSense.Frontend.Switch
