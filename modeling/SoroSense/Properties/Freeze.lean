import SoroSense.Flags
import SoroSense.Properties.SharePrice

/-!
# `Properties.Freeze` — what moves while a pool is frozen

The freeze flag is read on the inbound path only. Four calls reach `withdraw_from_pool`: two of them, the
payout of a withdrawal and the exit, carry a depositor's signature; `deallocate` carries the keeper's.
`freeze_kept_iff`: in a frozen window, the position stands but for signed falls exactly when no
deallocation of the pool is accepted.
-/

namespace SoroSense

open Fallible Transition

variable {w w' : World} {a : Action} {ids : List Nat} {p q u token : Address} {c d : Currency}
  {amount shares assets : Int} {call : Vault.Call}

/-! ## The property of one call -/

/-- The call moves money under the signature of somebody who holds shares in the bucket. -/
def Vault.Call.DepositorSigned (w : World) (ids : List Nat) : Vault.Call → Prop
  | .withdraw u c _       => Auth.signers ids u = true ∧ 0 < (w.bucket c).shares u
  | .approveExit u exitId => Auth.signers ids u = true ∧
      ∃ c e, Vault.findExit w exitId = some (c, e) ∧ 0 < (w.bucket c).shares u
  | _                     => False

/-- The vault's position in `p`, its bookings there, or the tokens of the pool went down. -/
def Falls (p : Address) (w w' : World) : Prop :=
  w'.position p < w.position p ∨ (∃ c, (w'.bucket c).poolHoldings p < (w.bucket c).poolHoldings p) ∨
    ((w.pools p).isSome = true ∧ ∃ token, w'.tokens token p < w.tokens token p)

/-- A call raised nothing the vault has in `p`, and what it lowered, a depositor signed for. -/
structure FreezeKept (p : Address) (w : World) (ids : List Nat) (call : Vault.Call) (w' : World) : Prop where
  position_le : w'.position p ≤ w.position p
  booked_le   : ∀ c, (w'.bucket c).poolHoldings p ≤ (w.bucket c).poolHoldings p
  signed      : Falls p w w' → call.DepositorSigned w ids

/-- A deallocation from `p` that the vault accepts. -/
def DeallocatesFrom (p : Address) (w : World) (a : Action) : Prop :=
  ∃ ids c amount, a = .vault ids (.deallocate p c amount) ∧
    Vault.DeallocateGuard w (Auth.signers ids) p c amount

/-- A call that changes nothing at `p` keeps it. -/
theorem FreezeKept.of_eq (hp : w'.position p = w.position p)
    (hb : ∀ c, (w'.bucket c).poolHoldings p = (w.bucket c).poolHoldings p)
    (ht : ∀ s, w.pools p = some s → ∀ token, w'.tokens token p = w.tokens token p) :
    FreezeKept p w ids call w' := by
  refine ⟨le_of_eq hp, fun c => le_of_eq (hb c), ?_⟩
  rintro (hlt | ⟨c, hlt⟩ | ⟨hs, token, hlt⟩)
  · omega
  · have := hb c
    omega
  · obtain ⟨s, hs⟩ := Option.isSome_iff_exists.mp hs
    have := ht s hs token
    omega

/-- A signed call only has to raise nothing. -/
theorem FreezeKept.of_signed (hp : w'.position p ≤ w.position p)
    (hb : ∀ c, (w'.bucket c).poolHoldings p ≤ (w.bucket c).poolHoldings p)
    (hs : call.DepositorSigned w ids) : FreezeKept p w ids call w' :=
  ⟨hp, hb, fun _ => hs⟩

/-! ## The property -/

/-- An accepted deallocation from `p` lowers the position under the keeper's signature alone. -/
theorem not_freezeKept_of_deallocates (h : w.WF) (hs : Step w (.vault ids call) w')
    (hd : DeallocatesFrom p w (.vault ids call)) : ¬ FreezeKept p w ids call w' := by
  obtain ⟨_, c, amount, ha, g⟩ := hd
  obtain ⟨rfl, rfl⟩ := Action.vault.inj ha
  obtain rfl := hs.eq_of_ok ((Vault.deallocate_eq_ok h).mpr ⟨g, rfl⟩)
  intro hk
  refine hk.signed (Or.inl ?_)
  have hpos := g.pulls.pos
  rw [World.position_publish, World.position_pulled g.pulls.hosted g.pulls.covered, if_pos rfl]
  omega

/-- **While frozen, a call keeps the pool unless it is an accepted deallocation from it.** -/
theorem freezeKept_iff (h : w.WF) (hf : w.vault.frozen p = true) (hs : Step w (.vault ids call) w') :
    FreezeKept p w ids call w' ↔ ¬ DeallocatesFrom p w (.vault ids call) := by
  refine ⟨fun hk hd => not_freezeKept_of_deallocates h hs hd hk, fun hd => ?_⟩
  have hvault : ∀ {s}, w.pools p = some s → p ≠ vaultAddress := fun hp => h.pool_ne_vault hp
  have hunfrozen : ∀ {q}, w.vault.frozen q = false → p ≠ q := fun hq he => by
    rw [← he, hf] at hq
    exact Bool.noConfusion hq
  cases hs.effect h with
  | reverted _ => exact .of_eq rfl (fun _ => rfl) (fun _ _ _ => rfl)
  | quiet _ q =>
      exact .of_eq (World.position_congr q.timestamp (congrFun q.pools p))
        (fun c => by rw [congrFun q.bucket c]) (fun _ _ _ => by rw [q.tokens])
  | tokenSet =>
      exact .of_eq rfl (fun _ => World.bucketField_updateBucket (fun b => b.poolHoldings p) rfl)
        (fun _ _ _ => rfl)
  | poolConfigured =>
      exact .of_eq rfl (fun _ => World.bucketField_updateBucket (fun b => b.poolHoldings p) rfl)
        (fun _ _ _ => rfl)
  | proposed =>
      exact .of_eq rfl (fun _ => World.bucketField_proposed (fun b => b.poolHoldings p) (fun _ _ => rfl))
        (fun _ _ _ => rfl)
  | @deposited ids u c amount minted token g =>
      refine .of_eq rfl (fun _ => World.bucketField_deposited (fun b => b.poolHoldings p) rfl)
        (fun s hp tok => ?_)
      obtain ⟨id, rfl⟩ := Auth.account_of_signers g.signed
      exact Tokens.move_of_ne tok (h.account_ne_pool hp id) (hvault hp)
  -- the outbound calls of a depositor may lower the pool, under that signature
  | @redeemed ids u c shares assets token g =>
      obtain ⟨hp, hb⟩ := World.redeemed_le (p := p) h g
      have hown := g.owned
      have hpos := g.pos
      exact .of_signed hp hb ⟨g.signed, by omega⟩
  | @exited ids u exitId c e token g =>
      have hto : p ≠ e.toPool := hunfrozen g.supplies.unfrozen
      refine .of_signed ?_ (fun d => ?_) ⟨g.signed, c, e, g.found, g.stakeholder⟩
      · rw [World.exited, World.position_publish, World.position_updateBucket, World.position_supplied_ne hto]
        exact World.position_pulled_le g.pulls
      · rw [World.exited, World.bucket_publish,
          World.bucketField_updateBucket (fun b => b.poolHoldings p) rfl, World.holdings_supplied_ne hto]
        exact World.holdings_pulled_le h g.pulls
  -- the flag keeps allocations out, and nothing keeps deallocations in
  | @allocated ids q c amount token g =>
      have hq : p ≠ q := hunfrozen g.supplies.unfrozen
      exact .of_eq (World.position_supplied_ne (c := c) hq) (fun _ => World.holdings_supplied_ne hq)
        (fun s hp tok => Tokens.move_of_ne tok (hvault hp) hq)
  | @deallocated ids q c amount g =>
      have hq : p ≠ q := fun he => hd ⟨ids, c, amount, by rw [he], he ▸ g⟩
      exact .of_eq (World.position_pulled_ne (c := c) hq) (fun _ => World.holdings_pulled_ne hq)
        (fun s hp tok => Tokens.move_of_ne tok hq (hvault hp))

/-- **When funds leave a frozen pool only under a depositor's signature.** In every run between an accepted
    `freeze(p)` and the next `unfreeze(p)`: no vault call raises the vault's position or bookings in `p`,
    and one that lowers them, or the pool's tokens, is a withdrawal or an exit approval signed by a holder
    of shares in the bucket, **iff** the run holds no accepted deallocation from `p`. -/
theorem freeze_kept_iff {w₀ : World} (hr : Reachable Genesis Step w)
    (hf : Vault.freeze (Auth.signers ids) w p = .ok w₀) {tr : List (Event World Action)}
    (hrun : Run Step w₀ tr w') (hu : ∀ e ∈ tr, ∀ ids, e.label ≠ .vault ids (.unfreeze p)) :
    (∀ e ∈ tr, ∀ ids call, e.label = .vault ids call → FreezeKept p e.pre ids call e.post) ↔
      ∀ e ∈ tr, ¬ DeallocatesFrom p e.pre e.label := by
  have h := reachable_wf hr
  have h₀ : w₀.WF := Step.wf h (.done (a := .vault ids (.freeze p)) hf)
  have hrun' := hrun.restrict (Q := fun a => ∀ ids, a ≠ .vault ids (.unfreeze p)) hu
  have hev := hrun'.invariant_events (P := fun v => v.WF ∧ v.vault.frozen p = true)
    (fun _ _ _ hv hs => ⟨hs.1.wf hv.1, hs.1.frozen hv.1 hv.2 hs.2⟩) ⟨h₀, frozen_of_freeze hf⟩
  refine forall₂_congr (fun e he => ?_)
  obtain ⟨⟨hw, hfrozen⟩, ⟨hs, _⟩, _⟩ := hev e he
  obtain ⟨v, a, v'⟩ := e
  constructor
  · rintro hk ⟨ids', c, amount, rfl, g⟩
    exact (freezeKept_iff hw hfrozen hs).mp (hk ids' _ rfl) ⟨ids', c, amount, rfl, g⟩
  · rintro hd ids' call rfl
    exact (freezeKept_iff hw hfrozen hs).mpr hd

/-- A year of yield, then the keeper freezes the pool that earned it. -/
def frozenWorld : World := ((World.opening 1000 5000).after yieldRun).after [.vault [1] (.freeze (.contract 1))]

/-- A withdrawal by the depositor may empty the frozen pool, and keeps to the rule. -/
theorem freeze_kept_frozenWorld :
    FreezeKept (.contract 1) frozenWorld [2] (.withdraw (.account 2) .usd 900)
      (frozenWorld.after [.vault [2] (.withdraw (.account 2) .usd 900)]) := by
  have hok : ((World.opening 1000 5000).after yieldRun).Accepts [.vault [1] (.freeze (.contract 1))] := by
    decide +kernel
  have hpaid : frozenWorld.Accepts [.vault [2] (.withdraw (.account 2) .usd 900)] := by decide +kernel
  refine (freeze_kept_iff ((Genesis.opening (by decide)).reachable yieldRun) hok.exec
    (.single (.done hpaid.exec)) ?_).mpr ?_ _ List.mem_cons_self [2] _ rfl
  · simp
  · simp [DeallocatesFrom]

/-- **The keeper empties a frozen pool alone.** Account 1, the keeper, holds no shares; it deallocates the
    500 booked in the frozen pool 1, and the vault's position there falls from 550 to 50. -/
theorem keeper_deallocates_from_frozen :
    Reachable Genesis Step ((World.opening 1000 5000).after yieldRun) ∧
    ((World.opening 1000 5000).after yieldRun).Accepts [.vault [1] (.freeze (.contract 1))] ∧
    frozenWorld.vault.frozen (.contract 1) = true ∧
    frozenWorld.Accepts [.vault [1] (.deallocate (.contract 1) .usd 500)] ∧
    frozenWorld.position (.contract 1) = 550 ∧
    (frozenWorld.after [.vault [1] (.deallocate (.contract 1) .usd 500)]).position (.contract 1) = 50 ∧
    frozenWorld.tokens (.contract 100) (.contract 1) = 500 ∧
    (frozenWorld.after [.vault [1] (.deallocate (.contract 1) .usd 500)]).tokens (.contract 100) (.contract 1)
      = 0 :=
  ⟨(Genesis.opening (by decide)).reachable _, by decide +kernel, by decide +kernel, by decide +kernel,
    by decide +kernel, by decide +kernel, by decide +kernel, by decide +kernel⟩

end SoroSense
