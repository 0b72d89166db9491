import SoroSense.Flags
import SoroSense.Properties.SharePrice

/-!
# `Properties.Pause` — what an emergency pause stops

There is no central gate: each entrypoint that moves money checks the flag itself, and `deallocate` does
not. `pause_stops_funds_iff` is the whole of it: while paused, the books and the tokens stand exactly
through the steps that are not an accepted deallocation.
-/

namespace SoroSense

open Fallible Transition

variable {w w' : World} {a : Action} {ids : List Nat}

/-- No share, no balance and no pool record of the vault changed, and no vault call moved a token. -/
structure Stands (w : World) (a : Action) (w' : World) : Prop where
  shares       : ∀ c, (w'.bucket c).shares = (w.bucket c).shares
  totalShares  : ∀ c, (w'.bucket c).totalShares = (w.bucket c).totalShares
  totalAssets  : ∀ c, (w'.bucket c).totalAssets = (w.bucket c).totalAssets
  poolHoldings : ∀ c, (w'.bucket c).poolHoldings = (w.bucket c).poolHoldings
  poolList     : ∀ c, (w'.bucket c).poolList = (w.bucket c).poolList
  activePool   : ∀ c, (w'.bucket c).activePool = (w.bucket c).activePool
  tokens       : ∀ ids call, a = .vault ids call → w'.tokens = w.tokens

/-- A deallocation that the vault accepts. -/
def Deallocates (w : World) (a : Action) : Prop :=
  ∃ ids p c amount, a = .vault ids (.deallocate p c amount) ∧
    Vault.DeallocateGuard w (Auth.signers ids) p c amount

/-- Books rewritten in none of the six records stand. -/
theorem Stands.of_updateBucket {c : Currency} {f : Vault.Bucket → Vault.Bucket}
    (hf : ∀ b : Vault.Bucket, (f b).shares = b.shares ∧ (f b).totalShares = b.totalShares ∧
      (f b).totalAssets = b.totalAssets ∧ (f b).poolHoldings = b.poolHoldings ∧
      (f b).poolList = b.poolList ∧ (f b).activePool = b.activePool) :
    Stands w a (w.updateBucket c f) := by
  obtain ⟨h₁, h₂, h₃, h₄, h₅, h₆⟩ := hf (w.bucket c)
  exact ⟨fun _ => World.bucketField_updateBucket Vault.Bucket.shares h₁,
    fun _ => World.bucketField_updateBucket Vault.Bucket.totalShares h₂,
    fun _ => World.bucketField_updateBucket Vault.Bucket.totalAssets h₃,
    fun _ => World.bucketField_updateBucket Vault.Bucket.poolHoldings h₄,
    fun _ => World.bucketField_updateBucket Vault.Bucket.poolList h₅,
    fun _ => World.bucketField_updateBucket Vault.Bucket.activePool h₆, fun _ _ _ => rfl⟩

/-- An accepted deallocation raises idle. -/
theorem not_stands_of_deallocates (h : w.WF) (hs : Step w a w') (hd : Deallocates w a) : ¬ Stands w a w' := by
  obtain ⟨ids, p, c, amount, rfl, g⟩ := hd
  obtain rfl := hs.eq_of_ok ((Vault.deallocate_eq_ok h).mpr ⟨g, rfl⟩)
  intro hst
  have hidle := hst.totalAssets c
  have hpos := g.pulls.pos
  rw [World.bucket_publish, World.bucket_pulled, if_pos rfl] at hidle
  simp only [Vault.Bucket.pulled] at hidle
  omega

/-- **While paused, everything stands but through an accepted deallocation.** -/
theorem stands_iff (h : w.WF) (hp : w.vault.paused = true) (hs : Step w a w') :
    Stands w a w' ↔ ¬ Deallocates w a := by
  refine ⟨fun hst hd => not_stands_of_deallocates h hs hd hst, fun hd => ?_⟩
  have hout := (hs.effect h).outside h
  have hunp : ∀ {b : Prop}, w.vault.paused = false → b := fun hf => absurd (hp.symm.trans hf) (by simp)
  have hkeep : ∀ {v : World}, (∀ c, v.bucket c = w.bucket c) →
      (∀ ids call, a = .vault ids call → v.tokens = w.tokens) → Stands w a v := fun hb ht =>
    ⟨fun c => by rw [hb], fun c => by rw [hb], fun c => by rw [hb], fun c => by rw [hb],
      fun c => by rw [hb], fun c => by rw [hb], ht⟩
  cases hs.effect h with
  | reverted _ => exact hkeep (fun _ => rfl) (fun _ _ _ => rfl)
  | quiet _ q => exact hkeep (fun c => congrFun q.bucket c) (fun _ _ _ => q.tokens)
  | tokenSet => exact .of_updateBucket (fun _ => ⟨rfl, rfl, rfl, rfl, rfl, rfl⟩)
  | poolConfigured => exact .of_updateBucket (fun _ => ⟨rfl, rfl, rfl, rfl, rfl, rfl⟩)
  | proposed =>
      exact ⟨fun _ => World.bucketField_proposed Vault.Bucket.shares (fun _ _ => rfl),
        fun _ => World.bucketField_proposed Vault.Bucket.totalShares (fun _ _ => rfl),
        fun _ => World.bucketField_proposed Vault.Bucket.totalAssets (fun _ _ => rfl),
        fun _ => World.bucketField_proposed Vault.Bucket.poolHoldings (fun _ _ => rfl),
        fun _ => World.bucketField_proposed Vault.Bucket.poolList (fun _ _ => rfl),
        fun _ => World.bucketField_proposed Vault.Bucket.activePool (fun _ _ => rfl), fun _ _ _ => rfl⟩
  -- the four entrypoints that check the flag are refused
  | deposited g => exact hunp g.unpaused
  | redeemed g => exact hunp g.unpaused
  | exited g => exact hunp g.unpaused
  | allocated g => exact hunp g.unpaused
  | @deallocated ids p c amount g => exact absurd ⟨ids, p, c, amount, rfl, g⟩ hd
  | _ => exact hkeep (hout (by simp)).bucket (by simp)

/-- **When a pause stops every movement of funds.** In every run that starts with an accepted pause and
    holds no unpause: no share, balance or pool record changes and no vault call moves a token, **iff** the
    run holds no accepted deallocation. -/
theorem pause_stops_funds_iff {w₀ : World} (hr : Reachable Genesis Step w)
    (hp : Vault.pause (Auth.signers ids) w = .ok w₀) {tr : List (Event World Action)}
    (hrun : Run Step w₀ tr w') (hu : ∀ e ∈ tr, ∀ ids, e.label ≠ .vault ids .unpause) :
    (∀ e ∈ tr, Stands e.pre e.label e.post) ↔ ∀ e ∈ tr, ¬ Deallocates e.pre e.label := by
  have h := reachable_wf hr
  have h₀ : w₀.WF := Step.wf h (.done (a := .vault ids .pause) hp)
  have hrun' := hrun.restrict (Q := fun a => ∀ ids, a ≠ .vault ids .unpause) hu
  have hev := hrun'.invariant_events (P := fun v => v.WF ∧ v.vault.paused = true)
    (fun _ _ _ hv hs => ⟨hs.1.wf hv.1, hs.1.paused hv.1 hv.2 hs.2⟩) ⟨h₀, paused_of_pause hp⟩
  refine forall₂_congr (fun e he => ?_)
  obtain ⟨⟨hw, hpaused⟩, ⟨hs, _⟩, _⟩ := hev e he
  exact stands_iff hw hpaused hs

/-- A year of yield, then an emergency pause. -/
def pausedWorld : World := ((World.opening 1000 5000).after yieldRun).after [.vault [0] .pause]

/-- A deposit tried under the pause is refused, and everything stands. -/
theorem pause_stops_funds_pausedWorld :
    Stands pausedWorld (.vault [2] (.deposit (.account 2) .usd 100)) pausedWorld := by
  have hok : ((World.opening 1000 5000).after yieldRun).Accepts [.vault [0] .pause] := by decide +kernel
  have hrefused : Step pausedWorld (.vault [2] (.deposit (.account 2) .usd 100)) pausedWorld :=
    .refused (by decide +kernel)
  refine (pause_stops_funds_iff ((Genesis.opening (by decide)).reachable yieldRun) hok.exec
    (.single hrefused) ?_).mpr ?_ _ List.mem_cons_self
  · simp
  · simp [Deallocates]

/-- **The keeper still moves money under a pause.** With the vault paused, it deallocates 500 from pool 1:
    the vault's tokens and the idle balance go from 500 to 1000. -/
theorem deallocation_moves_funds_under_pause :
    Reachable Genesis Step ((World.opening 1000 5000).after yieldRun) ∧
    ((World.opening 1000 5000).after yieldRun).Accepts [.vault [0] .pause] ∧
    pausedWorld.vault.paused = true ∧
    pausedWorld.Accepts [.vault [1] (.deallocate (.contract 1) .usd 500)] ∧
    (pausedWorld.bucket .usd).totalAssets = 500 ∧
    pausedWorld.tokens (.contract 100) vaultAddress = 500 ∧
    ((pausedWorld.after [.vault [1] (.deallocate (.contract 1) .usd 500)]).bucket .usd).totalAssets
      = 1000 ∧
    (pausedWorld.after [.vault [1] (.deallocate (.contract 1) .usd 500)]).tokens (.contract 100) vaultAddress
      = 1000 :=
  ⟨(Genesis.opening (by decide)).reachable _, by decide +kernel, by decide +kernel, by decide +kernel,
    by decide +kernel, by decide +kernel, by decide +kernel, by decide +kernel⟩

end SoroSense
