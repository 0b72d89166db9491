import SoroSense.Journal
import SoroSense.Backend.EventReader
import SoroSense.Properties.SharePrice

/-!
# `Properties.Replay` — the backend's replay and the share ledger

The backend rebuilds every holder's shares and cost basis from the vault's events alone. Decoding recovers
each deposit and withdrawal in order (`ownEvents_deposit`, `ownEvents_withdraw`), and each of them does to
the rebuilt bucket what the step that published it did to the ledger (`Mirrors.concat`), so along a run the
two stay equal (`replay_mirrors`).
-/

namespace SoroSense

open Fallible Transition Backend

variable {rt : Runtime} {w w' : World} {u : Address} {c : Currency} {raws : List RawEvent} {raw : RawEvent}
  {e : Vault.Event}

/-- The decoded events of one bucket, in replay order. -/
def ownEvents (rt : Runtime) (user : String) (c : Currency) (raws : List RawEvent) : List VaultEvent :=
  bucketEvents user c (decodeEvents rt raws).vaultEvents

/-- The event moves shares of `u` in bucket `c`. -/
def Vault.Event.Of (u : Address) (c : Currency) : Vault.Event → Prop
  | .deposit v d _ _  => v = u ∧ d = c
  | .withdraw v d _ _ => v = u ∧ d = c
  | _                 => False

/-! ## Decoding one more event -/

theorem ownEvents_concat {user : String} :
    ownEvents rt user c (raws ++ [raw]) = ownEvents rt user c raws
      ++ (decodeEvent rt raw raws.length).vault.toList.filter
          fun ev => decide (ev.depositor = user ∧ ev.currency = c) := by
  unfold ownEvents bucketEvents
  rw [inSeqOrder_decoded, inSeqOrder_decoded, vaultEvents_concat, List.filter_append]

/-- A deposit or withdrawal of `v` in `d`, selected for `u` and `c`. -/
theorem filter_ofMove (h : rt.Documented) {kind : VaultEventKind} {v : Address} {d : Currency}
    {amount shares seq : Int} :
    [VaultEvent.ofMove rt raw kind v d amount shares seq].filter
        (fun ev => decide (ev.depositor = rt.strkey u ∧ ev.currency = c))
      = if v = u ∧ d = c then [.ofMove rt raw kind v d amount shares seq] else [] := by
  have hkey : rt.strkey v = rt.strkey u ↔ v = u := h.strkey_injective.eq_iff
  unfold VaultEvent.ofMove
  by_cases hv : v = u ∧ d = c
  · rw [if_pos hv, List.filter_cons_of_pos (by simp [hv.1, hv.2]), List.filter_nil]
  · rw [if_neg hv, List.filter_cons_of_neg (by simpa [hkey] using hv), List.filter_nil]

/-- An event that is not the bucket's adds nothing to its events. -/
theorem ownEvents_other (h : rt.Documented) (hr : raw.Carries e) (ho : ¬ e.Of u c) :
    ownEvents rt (rt.strkey u) c (raws ++ [raw]) = ownEvents rt (rt.strkey u) c raws := by
  rw [ownEvents_concat]
  cases e with
  | deposit v d amount shares =>
      have hne : ¬ (v = u ∧ d = c) := ho
      rw [vault_of_deposit h hr, Option.toList_some, filter_ofMove h, if_neg hne, List.append_nil]
  | withdraw v d amount shares =>
      have hne : ¬ (v = u ∧ d = c) := ho
      rw [vault_of_withdraw h hr, Option.toList_some, filter_ofMove h, if_neg hne, List.append_nil]
  | _ =>
      rw [vault_of_other h hr id, Option.toList_none, List.filter_nil, List.append_nil]

theorem ownEvents_deposit (h : rt.Documented) {amount shares : Int}
    (hr : raw.Carries (.deposit u c amount shares)) :
    ownEvents rt (rt.strkey u) c (raws ++ [raw])
      = ownEvents rt (rt.strkey u) c raws ++ [.ofMove rt raw .deposit u c amount shares raws.length] := by
  rw [ownEvents_concat, vault_of_deposit h hr, Option.toList_some, filter_ofMove h, if_pos ⟨rfl, rfl⟩]

theorem ownEvents_withdraw (h : rt.Documented) {amount shares : Int}
    (hr : raw.Carries (.withdraw u c amount shares)) :
    ownEvents rt (rt.strkey u) c (raws ++ [raw])
      = ownEvents rt (rt.strkey u) c raws ++ [.ofMove rt raw .withdraw u c amount shares raws.length] := by
  rw [ownEvents_concat, vault_of_withdraw h hr, Option.toList_some, filter_ofMove h, if_pos ⟨rfl, rfl⟩]

/-! ## One bucket along a run -/

/-- The rebuilt bucket of `u` in `c` agrees with the ledger. -/
structure Mirrors (w : World) (u : Address) (c : Currency) (b : CostBasis) : Prop where
  sound       : b.Sound
  shares      : b.shares = Vault.balanceOf w u c
  contributed : b.contributed ≤ depositsOf u c w.vault.events

/-- **One published event does to the rebuilt bucket what its step did to the ledger.** -/
theorem Mirrors.concat (h : rt.Documented) {b : CostBasis} (hm : Mirrors w u c b)
    (hb : costReplay.account emptyBasis (ownEvents rt (rt.strkey u) c raws) = .ok b)
    (hr : raw.Carries e) (he : w'.vault.events = w.vault.events ++ [e]) (hbooks : e.Books w w') :
    ∃ b', costReplay.account emptyBasis (ownEvents rt (rt.strkey u) c (raws ++ [raw])) = .ok b' ∧
      Mirrors w' u c b' := by
  have hdep : depositsOf u c w'.vault.events = depositsOf u c w.vault.events + e.paidIn u c := by
    rw [he, depositsOf_concat]
  by_cases ho : e.Of u c
  · cases e with
    | deposit v d amount shares =>
        obtain ⟨rfl, rfl⟩ := ho
        obtain ⟨hamount, hshares, hmoved⟩ := hbooks
        have hu := hmoved v d
        rw [if_pos ⟨rfl, rfl⟩] at hu
        rw [Vault.Event.paidIn, if_pos ⟨rfl, rfl⟩] at hdep
        have hlast : (VaultEvent.ofMove rt raw .deposit v d amount shares raws.length).replay b = .ok _ :=
          replay_deposit rfl b
        refine ⟨_, ?_, hm.sound.replay ⟨hshares, fun _ => le_of_lt hamount⟩ hlast, ?_, ?_⟩
        · rw [ownEvents_deposit h hr, Keyed.Replay.account_append, hb]
          exact bind_eq_ok.mpr ⟨b, rfl, bind_eq_ok.mpr ⟨_, hlast, rfl⟩⟩
        · show b.shares + shares = (w'.bucket d).shares v
          rw [hu, hm.shares]
          rfl
        · rw [hdep]
          exact add_le_add hm.contributed (le_refl amount)
    | withdraw v d amount shares =>
        obtain ⟨rfl, rfl⟩ := ho
        obtain ⟨_, hshares, howned, hmoved⟩ := hbooks
        have hu := hmoved v d
        rw [if_pos ⟨rfl, rfl⟩] at hu
        have hle : shares ≤ b.shares := hm.shares ▸ howned
        have hlast : (VaultEvent.ofMove rt raw .withdraw v d amount shares raws.length).replay b = .ok _ :=
          replay_withdraw rfl hshares hle
        refine ⟨_, ?_, hm.sound.replay ⟨hshares, fun hd => absurd hd (by simp [VaultEvent.ofMove])⟩ hlast, ?_, ?_⟩
        · rw [ownEvents_withdraw h hr, Keyed.Replay.account_append, hb]
          exact bind_eq_ok.mpr ⟨b, rfl, bind_eq_ok.mpr ⟨_, hlast, rfl⟩⟩
        · show b.shares - shares = (w'.bucket d).shares v
          rw [hu, hm.shares]
          rfl
        · rw [hdep]
          have hless := AverageCost.left_le hm.sound.contributed_nonneg hshares hle
          exact le_trans hless (le_trans hm.contributed (le_of_eq (add_zero _).symm))
    | _ => exact absurd ho id
  · have hsame : (w'.bucket c).shares u = (w.bucket c).shares u ∧ e.paidIn u c = 0 := by
      cases e with
      | deposit v d amount shares =>
          have hne : ¬ (u = v ∧ c = d) := fun hx => ho ⟨hx.1.symm, hx.2.symm⟩
          exact ⟨by rw [hbooks.2.2 u c, if_neg hne, add_zero], if_neg ho⟩
      | withdraw v d amount shares =>
          have hne : ¬ (u = v ∧ c = d) := fun hx => ho ⟨hx.1.symm, hx.2.symm⟩
          exact ⟨by rw [hbooks.2.2.2 u c, if_neg hne, add_zero], rfl⟩
      | _ => exact ⟨hbooks u c, rfl⟩
    refine ⟨b, by rw [ownEvents_other h hr ho, hb], hm.sound, ?_, ?_⟩
    · rw [hm.shares]
      exact hsame.1.symm
    · rw [hdep, hsame.2, add_zero]
      exact hm.contributed

/-- **Induction along a run and its log**: the raw events carry, one each, what the steps have published. -/
theorem log_induct {step : World → Action → World → Prop} {Q : World → List RawEvent → Prop}
    (hstep : ∀ {v a v'}, step v a v' → Step v a v') (hr : Reachable Genesis step w)
    (hraw : List.Forall₂ RawEvent.Carries raws w.vault.events) (h₀ : ∀ v, Genesis v → Q v [])
    (hkept : ∀ {v a v' raws}, Reachable Genesis step v → step v a v' → v'.vault.events = v.vault.events →
      SameShares v v' → Q v raws → Q v' raws)
    (hnew : ∀ {v a v' raws raw e}, Reachable Genesis step v → step v a v' →
      v'.vault.events = v.vault.events ++ [e] → e.Books v v' → raw.Carries e → Q v raws → Q v' (raws ++ [raw])) :
    Q w raws := by
  refine hr.induct (P := fun w => ∀ raws, List.Forall₂ RawEvent.Carries raws w.vault.events → Q w raws)
    ?_ ?_ raws hraw
  · intro v hg raws hraw
    obtain ⟨admin, keeper, config, hv⟩ := hg.constructed
    have hev : v.vault.events = [] := by rw [hv]; rfl
    rw [hev] at hraw
    cases hraw
    exact h₀ v hg
  · intro v a v' hv ih hs raws hraw
    have hwf := reachable_wf (hv.weaken fun _ _ _ => hstep)
    rcases (hstep hs).published hwf with ⟨hev, hsame⟩ | ⟨e, hev, hbooks⟩
    · exact hkept hv hs hev hsame (ih raws (hev ▸ hraw))
    · -- the last raw event carries the event this step published
      rw [hev] at hraw
      have hinit := List.forall₂_take_append raws _ _ hraw
      have hlast := List.forall₂_drop_append raws _ _ hraw
      obtain ⟨raw, hcarry, hdrop⟩ : ∃ raw, raw.Carries e ∧ raws.drop v.vault.events.length = [raw] := by
        cases hd : raws.drop v.vault.events.length with
        | nil => rw [hd] at hlast; cases hlast
        | cons raw rest =>
            rw [hd] at hlast
            cases hlast with
            | cons hcarry hrest =>
                cases hrest
                exact ⟨raw, hcarry, rfl⟩
      have hsplit : raws = raws.take v.vault.events.length ++ [raw] := by
        rw [← hdrop, List.take_append_drop]
      rw [hsplit]
      exact hnew hv hs hev hbooks hcarry (ih _ hinit)

/-- **Along a run the rebuilt bucket mirrors the ledger.** -/
theorem replay_mirrors (h : rt.Documented) (hr : Reachable Genesis Step w)
    (hraw : List.Forall₂ RawEvent.Carries raws w.vault.events) :
    ∃ b, costReplay.account emptyBasis (ownEvents rt (rt.strkey u) c raws) = .ok b ∧ Mirrors w u c b := by
  refine log_induct (Q := fun w raws => ∃ b, costReplay.account emptyBasis
    (ownEvents rt (rt.strkey u) c raws) = .ok b ∧ Mirrors w u c b) id hr hraw ?_ ?_ ?_
  · intro v hg
    refine ⟨emptyBasis, rfl, emptyBasis_sound, ?_, ?_⟩
    · show 0 = (v.bucket c).shares u
      rw [hg.bucket_eq]
      rfl
    · obtain ⟨admin, keeper, config, hv⟩ := hg.constructed
      rw [hv]
      exact le_refl 0
  · rintro v a v' raws _ _ hev hsame ⟨b, hb, hm⟩
    refine ⟨b, hb, hm.sound, hm.shares.trans (hsame u c).symm, ?_⟩
    rw [hev]
    exact hm.contributed
  · rintro v a v' raws raw e _ _ hev hbooks hcarry ⟨b, hb, hm⟩
    exact hm.concat h hb hcarry hev hbooks

/-! ## Every bucket -/

/-- The depositor of a decoded event is an address of the ledger. -/
theorem depositor_decoded (h : rt.Documented) {events : List Vault.Event}
    (hraw : List.Forall₂ RawEvent.Carries raws events) {ev : VaultEvent}
    (hev : ev ∈ (decodeEvents rt raws).vaultEvents) : ∃ u, ev.depositor = rt.strkey u := by
  obtain ⟨row, hrow, hvault⟩ := List.mem_filterMap.mp hev
  obtain ⟨i, hi, rfl⟩ := List.mem_mapIdx.mp hrow
  have he : i < events.length := hraw.length_eq ▸ hi
  have hcarry : raws[i].Carries events[i] := hraw.get hi he
  cases hk : events[i] with
  | deposit v d amount shares =>
      rw [hk] at hcarry
      rw [vault_of_deposit h hcarry] at hvault
      exact ⟨v, (congrArg VaultEvent.depositor (Option.some.inj hvault)).symm⟩
  | withdraw v d amount shares =>
      rw [hk] at hcarry
      rw [vault_of_withdraw h hcarry] at hvault
      exact ⟨v, (congrArg VaultEvent.depositor (Option.some.inj hvault)).symm⟩
  | _ =>
      rw [hk] at hcarry
      rw [vault_of_other h hcarry id] at hvault
      exact absurd hvault (by simp)

/-- The replay of a run's events returns. -/
theorem reconstruct_decoded (h : rt.Documented) (hr : Reachable Genesis Step w)
    (hraw : List.Forall₂ RawEvent.Carries raws w.vault.events) :
    ∃ bases, reconstructCostBasis (decodeEvents rt raws).vaultEvents = .ok bases := by
  apply reconstruct_isOk_iff.mpr
  intro user c
  by_cases hu : ∃ u, user = rt.strkey u
  · obtain ⟨u, rfl⟩ := hu
    obtain ⟨b, hb, _⟩ := replay_mirrors h hr hraw (u := u) (c := c)
    exact ⟨b, hb⟩
  · -- no event is of a depositor that is no address
    have hnil : ownEvents rt user c raws = [] := by
      apply List.filter_eq_nil_iff.mpr
      intro ev hev hsel
      obtain ⟨u, hdep⟩ := depositor_decoded h hraw (Timeline.mem_sortOn.mp hev)
      exact hu ⟨u, (of_decide_eq_true hsel).1.symm.trans hdep⟩
    refine ⟨emptyBasis, ?_⟩
    show costReplay.account emptyBasis (ownEvents rt user c raws) = .ok emptyBasis
    rw [hnil]
    rfl

/-- Each rebuilt basis mirrors the ledger. -/
theorem basisOf_mirrors (h : rt.Documented) (hr : Reachable Genesis Step w)
    (hraw : List.Forall₂ RawEvent.Carries raws w.vault.events) {bases : String → Option CostBasis}
    (hb : reconstructCostBasis (decodeEvents rt raws).vaultEvents = .ok bases) (u : Address) (c : Currency) :
    Mirrors w u c (basisOf bases (rt.strkey u) c) := by
  obtain ⟨b, haccount, hm⟩ := replay_mirrors h hr hraw (u := u) (c := c)
  have hbasis : basisOf bases (rt.strkey u) c = b :=
    ok_unique (account_of_reconstruct hb (rt.strkey u) c) haccount
  rw [hbasis]
  exact hm

/-- **Replaying the published events rebuilds the share ledger.** -/
theorem replay_rebuilds_ledger (rt : Runtime) (h : rt.Documented) (w : World)
    (hr : Reachable Genesis Step w) (raws : List RawEvent)
    (hraw : List.Forall₂ RawEvent.Carries raws w.vault.events) :
    ∃ bases, reconstructCostBasis (decodeEvents rt raws).vaultEvents = .ok bases ∧
      ∀ u c, (basisOf bases (rt.strkey u) c).shares = Vault.balanceOf w u c ∧
        0 ≤ (basisOf bases (rt.strkey u) c).contributed ∧
        (basisOf bases (rt.strkey u) c).contributed ≤ depositsOf u c w.vault.events ∧
        ((basisOf bases (rt.strkey u) c).shares = 0 → (basisOf bases (rt.strkey u) c).contributed = 0) := by
  obtain ⟨bases, hb⟩ := reconstruct_decoded h hr hraw
  refine ⟨bases, hb, fun u c => ?_⟩
  have hm := basisOf_mirrors h hr hraw hb u c
  exact ⟨hm.shares, hm.sound.contributed_nonneg, hm.contributed, hm.sound.closed⟩

/-- A year of yield in, a depositor who withdraws 700 of its 1000 shares. -/
def leavingRun : List Action := yieldRun ++ [.vault [2] (.withdraw (.account 2) .usd 700)]

/-- The replay rebuilds the 300 shares it keeps. -/
theorem replay_rebuilds_ledger_leavingRun :
    ∃ bases, reconstructCostBasis (decodeEvents Runtime.plain
        (((World.opening 1000 5000).after leavingRun).vault.events.map RawEvent.plain)).vaultEvents = .ok bases ∧
      (basisOf bases (Address.strkey (.account 2)) .usd).shares = 300 := by
  have hg : Genesis (World.opening 1000 5000) := Genesis.opening (by decide)
  obtain ⟨bases, hb, hall⟩ := replay_rebuilds_ledger Runtime.plain Runtime.plain_documented _
    (hg.reachable leavingRun) _ (RawEvent.plain_carries _)
  refine ⟨bases, hb, (hall (.account 2) .usd).1.trans ?_⟩
  decide +kernel

end SoroSense
