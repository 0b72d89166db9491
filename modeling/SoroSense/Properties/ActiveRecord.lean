import SoroSense.Backend.RunnerSpec
import SoroSense.Properties.SharePrice

/-!
# `Properties.ActiveRecord` — the store's record of the active pool

A tick that decides a rebalance pulls the bucket out of one pool and places it in another, two writes of
which the second needs the first. Each may succeed, resolve without success, or throw.

The store is written whenever neither write throws, so a write that resolves without success is recorded
as a completed move. `store_follows_chain_iff` is the exact condition.
-/

namespace SoroSense
namespace Backend

open Session KeeperRunner

variable {k : KeeperRunner} {c : Currency} {input : RunTickInput} {source target : PoolId}
  {s : Live × BucketStore}

/-- Both writes of the move succeeded on chain. -/
def BothLanded (k : KeeperRunner) (c : Currency) (source target : PoolId) (s : Live) : Prop :=
  ∃ u, k.Writes c source target s ⟨true⟩ ⟨true⟩ u

/-- The store records the move, and the tick reports it, exactly when both its writes succeeded. -/
structure StoreFollowsChain (k : KeeperRunner) (c : Currency) (input : RunTickInput) (source target : PoolId)
    (s : Live × BucketStore) : Prop where
  recorded : BothLanded k c source target s.1.ticked →
    returned (k.runTickOn c input) s = some (.rebalance c source target) ∧
      (after (k.runTickOn c input) s).2 = s.2.rebalanced c target (some (s.1.clock 0))
  moves    : (after (k.runTickOn c input) s).2.active c ≠ s.2.active c ↔
    BothLanded k c source target s.1.ticked
  kept     : ¬ BothLanded k c source target s.1.ticked → (after (k.runTickOn c input) s).2 = s.2
  reported : ¬ BothLanded k c source target s.1.ticked →
    ∃ message u, (k.runTickOn c input).run s = .error message u

/-- A tick moves to a pool the store does not already have. -/
theorem active_ne_of_decision {now : ℚ} {store : BucketStore}
    (hd : k.decision c input now store = .rebalance c source target) : store.active c ≠ some target := by
  obtain ⟨_, _, _, best, hs, _, rfl⟩ := classifyBucket_eq_rebalance.mp hd
  exact (ClassifyInput.switchTarget_eq_some.mp hs).2.1

theorem active_rebalanced (store : BucketStore) (c : Currency) (target : PoolId) (nowMs : Option ℚ) :
    (store.rebalanced c target nowMs).active c = some target := by
  cases nowMs with
  | none   => exact Function.update_self ..
  | some _ => exact Function.update_self ..

/-- **A deciding tick resolves** when both its writes do. -/
theorem runTickOn_of_rebalance (hown : input.effects = none)
    (hd : k.decision c input (s.1.clock 0) s.2 = .rebalance c source target) {d : Decision}
    {u : Live × BucketStore} :
    (k.runTickOn c input).run s = .ok d u ↔ d = .rebalance c source target ∧
      (∃ r₁ r₂, k.Writes c source target s.1.ticked r₁ r₂ u.1) ∧
      u.2 = s.2.rebalanced c target (some (s.1.clock 0)) := by
  rw [runTickOn_eq_ok, hd]
  constructor
  · rintro ⟨rfl, hx, hu⟩
    rw [effect_rebalance hown] at hx
    exact ⟨rfl, rebalance_eq_ok.mp hx, hu⟩
  · rintro ⟨rfl, hw, hu⟩
    refine ⟨rfl, ?_, hu⟩
    rw [effect_rebalance hown]
    exact rebalance_eq_ok.mpr hw

/-- **The record follows the chain exactly when a write that fails also throws**: for every tick that
    decides a rebalance, unless both its writes resolve and one of them without success. -/
theorem store_follows_chain_iff (hown : input.effects = none)
    (hd : k.decision c input (s.1.clock 0) s.2 = .rebalance c source target) :
    StoreFollowsChain k c input source target s ↔
      ∀ r₁ r₂ u, k.Writes c source target s.1.ticked r₁ r₂ u → r₁.success = true ∧ r₂.success = true := by
  constructor
  · intro h r₁ r₂ u hw
    -- the tick resolved, so by `reported` both writes had landed
    have hrun := (runTickOn_of_rebalance (u := (u, s.2.rebalanced c target (some (s.1.clock 0)))) hown hd).mpr
      ⟨rfl, ⟨r₁, r₂, hw⟩, rfl⟩
    have hboth : BothLanded k c source target s.1.ticked := by
      by_contra hnot
      obtain ⟨_, _, he⟩ := h.reported hnot
      rw [hrun] at he
      exact absurd he (by simp)
    obtain ⟨u', hw'⟩ := hboth
    obtain ⟨rfl, rfl, _⟩ := hw'.unique hw
    exact ⟨rfl, rfl⟩
  · intro h
    -- a tick whose writes did not both land threw, as neither resolves without success
    have hkept : ¬ BothLanded k c source target s.1.ticked →
        ∃ message u, (k.runTickOn c input).run s = .error message u ∧ u.2 = s.2 := by
      intro hnot
      cases hrun : (k.runTickOn c input).run s with
      | ok d u =>
          obtain ⟨_, ⟨⟨b₁⟩, ⟨b₂⟩, hw⟩, _⟩ := (runTickOn_of_rebalance hown hd).mp hrun
          obtain ⟨rfl, rfl⟩ := h _ _ _ hw
          exact absurd ⟨_, hw⟩ hnot
      | error message u => exact ⟨message, u, rfl, store_of_runAllocatorTick_error hrun⟩
    have hrec : BothLanded k c source target s.1.ticked →
        ∃ u, (k.runTickOn c input).run s = .ok (.rebalance c source target) u ∧
          u.2 = s.2.rebalanced c target (some (s.1.clock 0)) := by
      rintro ⟨u, hw⟩
      exact ⟨(u, _), (runTickOn_of_rebalance hown hd).mpr ⟨rfl, ⟨_, _, hw⟩, rfl⟩, rfl⟩
    constructor
    · intro hboth
      obtain ⟨u, hrun, hu⟩ := hrec hboth
      rw [after_of_ok hrun, returned, hrun]
      exact ⟨rfl, hu⟩
    · constructor
      · intro hne
        by_contra hnot
        obtain ⟨_, u, hrun, hu⟩ := hkept hnot
        rw [after_of_error hrun, hu] at hne
        exact hne rfl
      · intro hboth
        obtain ⟨u, hrun, hu⟩ := hrec hboth
        rw [after_of_ok hrun, hu, active_rebalanced]
        intro he
        exact active_ne_of_decision hd he.symm
    · intro hnot
      obtain ⟨_, u, hrun, hu⟩ := hkept hnot
      rw [after_of_error hrun, hu]
    · intro hnot
      obtain ⟨message, u, hrun, _⟩ := hkept hnot
      exact ⟨message, u, hrun⟩

/-! ## A placement that is rejected -/

/-- A bucket in `defindex-usdc`, as a store has it. -/
def pooledStore : BucketStore := BucketStore.empty.setActivePool .usd "defindex-usdc"

/-- A rival that clears the threshold. -/
def rivalInput : RunTickInput :=
  { candidates := [⟨"defindex-usdc", 81 / 10⟩, ⟨"sorosense-usd", 105 / 10⟩], activeRay := some (81 / 10) }

/-- A bucket with half its funds in `defindex-usdc`. -/
def pooledWorld : World := (World.opening 1000 5000).after yieldRun

/-- The deallocation lands, the placement that follows does not. -/
def halfway : Live := { Live.calm pooledWorld with replies := fun n => if n = 0 then .lands else .rejected }

/-- The same beside a second allowed pool. -/
def rivalWorld : World := pooledWorld.after
  [.deployPool 2 (.account 0) (.contract 100) 1000, .vault [0] (.setPoolAllowed (.contract 2) true)]

/-- Both writes land, and the store follows. -/
theorem store_follows_chain_iff_calm :
    (demoRunner 500).decision .usd rivalInput 0 pooledStore = .rebalance .usd "defindex-usdc" "sorosense-usd" ∧
      StoreFollowsChain (demoRunner 500) .usd rivalInput "defindex-usdc" "sorosense-usd"
        (Live.calm rivalWorld, pooledStore) := by
  refine ⟨by decide +kernel, (store_follows_chain_iff rfl (by decide +kernel)).mpr ?_⟩
  intro r₁ r₂ u hw
  obtain ⟨amount, t, hamount, hpull, hplace⟩ := hw.run
  have hread : returned ((demoRunner 500).amountToMove .usd "defindex-usdc") (Live.calm rivalWorld).ticked
      = some amount := by
    unfold returned
    rw [hamount]
  obtain rfl := Option.some.inj (hread.symm.trans
    (show _ = some 500 by decide +kernel))
  -- both writes resolve, and with success
  obtain ⟨rfl, rfl⟩ := EStateM.Result.ok.inj ((run_of_returned (a := ⟨true⟩) (by decide +kernel)).symm.trans hpull)
  obtain ⟨rfl, _⟩ := EStateM.Result.ok.inj ((run_of_returned (a := ⟨true⟩) (by decide +kernel)).symm.trans hplace)
  exact ⟨rfl, rfl⟩

/-- The funds sit idle, the store says `sorosense-usd`, and the tick reports a completed move. -/
theorem rejected_placement_recorded :
    (demoRunner 500).decision .usd rivalInput 0 pooledStore = .rebalance .usd "defindex-usdc" "sorosense-usd" ∧
      ¬ StoreFollowsChain (demoRunner 500) .usd rivalInput "defindex-usdc" "sorosense-usd" (halfway, pooledStore) := by
  refine ⟨by decide +kernel, fun h => ?_⟩
  have hnot : ¬ BothLanded (demoRunner 500) .usd "defindex-usdc" "sorosense-usd" halfway.ticked := by
    rintro ⟨u, hw⟩
    obtain ⟨m, t, _, h₁, h₂⟩ := hw.run
    obtain ⟨_, w, _, rfl⟩ := landing_of_success h₁
    obtain ⟨_, _, hl, _⟩ := landing_of_success h₂
    have hrejected : (halfway.ticked.answered w).replies 0 = .rejected := rfl
    exact absurd (hrejected.symm.trans hl.reply) (by decide)
  obtain ⟨message, u, he⟩ := h.reported hnot
  have hok : (returned ((demoRunner 500).runTickOn .usd rivalInput) (halfway, pooledStore)).isSome = true := by
    decide +kernel
  rw [returned, he] at hok
  exact absurd hok (by simp)

end Backend
end SoroSense
