import SoroSense.Flags
import SoroSense.Properties.SharePrice

/-!
# `Properties.Shares` — the share ledger

Two calls write the share ledger, each for the one holder who signed it: a deposit, which the vault only
takes from a holder who has consented, and a withdrawal. So the entries add up to the total, whoever holds
shares has consented, and an entry moves only under its owner's signature (`share_ledger_sound`).
-/

namespace SoroSense

open Fallible Sums Transition

variable {w w' : World} {a : Action} {u x : Address} {c : Currency}

/-- A deposit or withdrawal of `u` in bucket `c`, signed by `u`, that took effect. -/
def Trades (u : Address) (c : Currency) (e : Event World Action) : Prop :=
  e.label.exec e.pre = .ok e.post ∧ ∃ ids, Auth.signers ids u = true ∧
    ((∃ amount, e.label = .vault ids (.deposit u c amount)) ∨
      ∃ shares, e.label = .vault ids (.withdraw u c shares))

/-! ## One step -/

/-- **What a step does to the share ledger of a bucket**: nothing, or one signed trade moves the entry of
    the trader and the total. -/
theorem Step.ledger (h : w.WF) (hs : Step w a w') (c : Currency) :
    ((w'.bucket c).shares = (w.bucket c).shares ∧
      (w'.bucket c).totalShares = (w.bucket c).totalShares) ∨
    ∃ u, Trades u c ⟨w, a, w'⟩ ∧ ∀ x, x ≠ u → (w'.bucket c).shares x = (w.bucket c).shares x := by
  have hout := (hs.effect h).outside h
  cases hs.effect h with
  | reverted _ => exact Or.inl ⟨rfl, rfl⟩
  | quiet _ q =>
      left
      rw [congrFun q.bucket c]
      exact ⟨rfl, rfl⟩
  | tokenSet =>
      exact Or.inl ⟨World.bucketField_updateBucket Vault.Bucket.shares rfl,
        World.bucketField_updateBucket Vault.Bucket.totalShares rfl⟩
  | poolConfigured =>
      exact Or.inl ⟨World.bucketField_updateBucket Vault.Bucket.shares rfl,
        World.bucketField_updateBucket Vault.Bucket.totalShares rfl⟩
  | proposed => exact Or.inl World.books_proposed
  | @deposited ids u d amount minted token g =>
      rcases eq_or_ne c d with rfl | hd
      · right
        refine ⟨u, ⟨Vault.deposit_eq_ok.mpr ⟨minted, token, g, rfl⟩, ids, g.signed,
          Or.inl ⟨amount, rfl⟩⟩, fun x hx => ?_⟩
        rw [World.bucket_deposited, if_pos rfl]
        exact Function.update_of_ne hx ..
      · left
        rw [World.bucket_deposited, if_neg hd]
        exact ⟨rfl, rfl⟩
  | @redeemed ids u d shares assets token g =>
      rcases eq_or_ne c d with rfl | hd
      · right
        refine ⟨u, ⟨(Vault.withdraw_eq_ok h).mpr ⟨assets, token, g, rfl⟩, ids, g.signed,
          Or.inr ⟨shares, rfl⟩⟩, fun x hx => ?_⟩
        rw [(World.books_redeemed h g).1]
        exact Function.update_of_ne hx ..
      · left
        rw [World.bucket_redeemed_ne h g hd]
        exact ⟨rfl, rfl⟩
  | exited g => exact Or.inl World.books_exited
  | allocated g =>
      exact Or.inl ⟨World.bucketField_supplied Vault.Bucket.shares rfl,
        World.bucketField_supplied Vault.Bucket.totalShares rfl⟩
  | deallocated g =>
      exact Or.inl ⟨World.bucketField_pulled Vault.Bucket.shares (fun _ => rfl),
        World.bucketField_pulled Vault.Bucket.totalShares (fun _ => rfl)⟩
  | _ =>
      left
      rw [(hout (by simp)).bucket c]
      exact ⟨rfl, rfl⟩

/-- An entry that a step moved was traded by its owner. -/
theorem Step.trades_of_ne (h : w.WF) (hs : Step w a w')
    (hne : (w'.bucket c).shares u ≠ (w.bucket c).shares u) : Trades u c ⟨w, a, w'⟩ := by
  rcases hs.ledger h c with ⟨hsame, _⟩ | ⟨v, ht, hother⟩
  · exact absurd (congrFun hsame u) hne
  · by_cases hu : u = v
    · subst hu; exact ht
    · exact absurd (hother u hu) hne

/-- Whoever trades with effect has consented, or held shares already. -/
theorem Trades.consented (h : w.WF) (ht : Trades u c ⟨w, a, w'⟩) :
    w.vault.consent u = true ∨ 0 < (w.bucket c).shares u := by
  obtain ⟨hx, ids, _, ⟨amount, rfl⟩ | ⟨shares, rfl⟩⟩ := ht
  · obtain ⟨_, _, g, _⟩ := Vault.deposit_eq_ok.mp hx
    exact Or.inl g.consented
  · obtain ⟨_, _, g, _⟩ := (Vault.withdraw_eq_ok h).mp hx
    exact Or.inr (lt_of_lt_of_le g.pos g.owned)

/-! ## Every run -/

/-- **Whoever holds shares has consented.** -/
theorem consented_of_shares (hr : Reachable Genesis Step w) (hu : 0 < (w.bucket c).shares u) :
    w.vault.consent u = true := by
  refine hr.induct (P := fun v => 0 < (v.bucket c).shares u → v.vault.consent u = true) ?_ ?_ hu
  · intro v hg hpos
    rw [hg.bucket_eq] at hpos
    exact absurd hpos (lt_irrefl 0)
  · intro v a v' hv ih hs hpos
    have h := reachable_wf hv
    apply hs.consent h
    by_cases hsame : (v'.bucket c).shares u = (v.bucket c).shares u
    · exact ih (hsame ▸ hpos)
    · exact (Trades.consented h (hs.trades_of_ne h hsame)).elim id ih

/-- **The share ledger is sound.** In every reachable state, of every bucket: the entries are non-negative
    and, all but finitely many of them zero, add up to the total; whoever holds shares has consented. From
    there on, whatever anybody does: a consent stays recorded, an entry that differs later was moved by a
    deposit or withdrawal its owner signed in between, and a call that fails changes nothing. -/
theorem share_ledger_sound (hr : Reachable Genesis Step w) :
    (∀ c, SumsTo (w.bucket c).shares (w.bucket c).totalShares) ∧
    (∀ c u, 0 ≤ (w.bucket c).shares u) ∧
    (∀ c u, 0 < (w.bucket c).shares u → w.vault.consent u = true) ∧
    (∀ tr w', Run Step w tr w' →
      (∀ u, w.vault.consent u = true → w'.vault.consent u = true) ∧
      ∀ c u, (w'.bucket c).shares u ≠ (w.bucket c).shares u → ∃ e ∈ tr, Trades u c e) ∧
    (∀ a w' e, Step w a w' → a.exec w = .error e → w' = w) := by
  have h := reachable_wf hr
  refine ⟨fun c => (h.bucket_wf c).shares_sum, fun c u => (h.bucket_wf c).shares_nonneg u,
    fun c u hu => consented_of_shares hr hu, fun tr w' hrun => ⟨fun u hu => ?_, fun c u hne => ?_⟩, ?_⟩
  · have hstep : ∀ v a v', v.WF ∧ v.vault.consent u = true → Step v a v' →
        v'.WF ∧ v'.vault.consent u = true := fun _ _ _ hv hs => ⟨hs.wf hv.1, hs.consent hv.1 hv.2⟩
    exact (hrun.invariant hstep ⟨h, hu⟩).2
  · obtain ⟨e, he, hmoved⟩ := hrun.exists_change (fun v => (v.bucket c).shares u) hne
    obtain ⟨hw, hs, _⟩ := run_events h hrun e he
    exact ⟨e, he, hs.trades_of_ne hw hmoved⟩
  · intro a w' e hs he
    cases hs with
    | reverted _ => rfl
    | done hx    => rw [he] at hx; exact absurd hx (by simp)

/-- A deposit and a year of yield later, the total is what the one holder has, and the holder consented. -/
theorem share_ledger_sound_yieldRun :
    SumsTo (((World.opening 1000 5000).after yieldRun).bucket .usd).shares
      (((World.opening 1000 5000).after yieldRun).bucket .usd).totalShares ∧
    ((World.opening 1000 5000).after yieldRun).vault.consent (.account 2) = true := by
  have hr : Reachable Genesis Step ((World.opening 1000 5000).after yieldRun) :=
    (Genesis.opening (by decide)).reachable yieldRun
  exact ⟨(share_ledger_sound hr).1 .usd, (share_ledger_sound hr).2.2.1 .usd (.account 2) (by decide +kernel)⟩

end SoroSense
