import SoroSense.Backend.EventReader
import SoroSense.Backend.Runner
import SoroSense.Effects

/-!
# `Backend.RunnerSpec` — the runner, part by part

What each part of the keeper runner does, so that no property unfolds one.

* `submit_cases` — the three ends of a write: it throws, it resolves without success, the vault ran it;
* `rebalance_eq_ok` — a rebalance returns as soon as both its writes resolve;
* `runTickOn_eq_ok`, `run_runTick`, `decision_of_runTick` — a tick with a store, and one without;
* `keeps_runTickOn`, `keeps_runTick` — a tick keeps whatever the calls it may run keep.
-/

namespace SoroSense
namespace Backend

open Session

/-! ## What the runner's parts do -/

namespace KeeperRunner

variable {k : KeeperRunner} {c : Currency} {input : RunTickInput} {s u : Live} {d : Decision}

/-- A submission the vault executes. -/
structure Landing (k : KeeperRunner) (build : Except String PreparedTx) (s : Live) (call : Vault.Call)
    (w : World) : Prop where
  live  : k.integration = true
  lands : ∃ tx signer, build = .ok tx ∧ k.signer = .ok signer ∧ VaultClient.Lands tx signer s call w

/-- The guard of a live runner. -/
theorem run_requireLive (hlive : k.integration = true) :
    (lift k.requireLive : EStateM String Live Unit).run s = .ok () s := by
  apply run_lift_eq_ok.mpr
  rw [requireLive, if_pos hlive]
  exact ⟨rfl, rfl⟩

/-- The program of a submission, its guards behind it. -/
theorem run_submit {build : Except String PreparedTx} {tx : PreparedTx} {signer : Signer}
    (hlive : k.integration = true) (hb : build = .ok tx) (hs : k.signer = .ok signer) :
    (k.submit build).run s = (k.client.signAndSubmit tx signer).run s := by
  unfold submit
  rw [run_bind_of_ok (run_requireLive hlive), run_bind_of_ok (run_lift_eq_ok.mpr ⟨hb, rfl⟩),
    run_bind_of_ok (run_lift_eq_ok.mpr ⟨hs, rfl⟩)]

/-- **The three ends of a write of the runner.** -/
theorem submit_cases (k : KeeperRunner) (build : Except String PreparedTx) (s : Live) :
    (∃ message t, (k.submit build).run s = .error message t ∧ t.world = s.world) ∨
      (s.replies 0 = .rejected ∧ (k.submit build).run s = .ok ⟨false⟩ (s.answered s.world)) ∨
      ∃ call w, k.Landing build s call w ∧ (k.submit build).run s = .ok ⟨true⟩ (s.answered w) := by
  by_cases hlive : k.integration = true
  · cases hb : build with
    | error message =>
        refine .inl ⟨message, s, ?_, rfl⟩
        unfold submit
        rw [run_bind_of_ok (run_requireLive hlive)]
        rfl
    | ok tx =>
        cases hs : k.signer with
        | error message =>
            refine .inl ⟨message, s, ?_, rfl⟩
            unfold submit
            rw [run_bind_of_ok (run_requireLive hlive), hs]
            rfl
        | ok signer =>
            rw [run_submit hlive rfl hs]
            rcases k.client.signAndSubmit_cases tx signer s with h | h | ⟨call, w, hl, hr⟩
            · exact .inl h
            · exact .inr (.inl h)
            · exact .inr (.inr ⟨call, w, ⟨hlive, tx, signer, rfl, hs, hl⟩, hr⟩)
  · refine .inl ⟨MOCK_MODE_MESSAGE, s, ?_, rfl⟩
    unfold submit requireLive
    rw [if_neg hlive]
    rfl

/-- **A write reported as a success was executed by the vault.** -/
theorem landing_of_success {build : Except String PreparedTx} {t : Live}
    (h : (k.submit build).run s = .ok ⟨true⟩ t) : ∃ call w, k.Landing build s call w ∧ t = s.answered w := by
  rcases k.submit_cases build s with ⟨m, t', hrun, _⟩ | ⟨_, hrun⟩ | ⟨call, w, hl, hrun⟩
  · rw [hrun] at h
    exact absurd h (by simp)
  · -- it resolved, but as rejected
    rw [hrun] at h
    exact absurd h (by simp)
  · rw [hrun] at h
    injection h with _ ht
    exact ⟨call, w, hl, ht.symm⟩

/-- A write that threw did not move the ledger. -/
theorem world_of_submit_error {build : Except String PreparedTx} {message : String} {t : Live}
    (h : (k.submit build).run s = .error message t) : t.world = s.world := by
  rcases k.submit_cases build s with ⟨m, t', hrun, ht⟩ | ⟨_, hrun⟩ | ⟨call, w, _, hrun⟩
  · rw [hrun] at h
    injection h with _ h
    rw [← h, ht]
  · exact absurd (hrun.symm.trans h) (by simp)
  · exact absurd (hrun.symm.trans h) (by simp)

/-- A write that resolved without success did not move the ledger. -/
theorem world_of_submit_rejected {build : Except String PreparedTx} {t : Live}
    (h : (k.submit build).run s = .ok ⟨false⟩ t) : t.world = s.world := by
  rcases k.submit_cases build s with ⟨m, t', hrun, ht⟩ | ⟨_, hrun⟩ | ⟨call, w, _, hrun⟩
  · exact absurd (hrun.symm.trans h) (by simp)
  · rw [hrun] at h
    injection h with _ h
    rw [← h]
    rfl
  · rw [hrun] at h
    injection h with h _
    exact absurd h (by simp)

theorem Landing.reply {build : Except String PreparedTx} {call : Vault.Call} {w : World}
    (h : k.Landing build s call w) : s.replies 0 = .lands := by
  obtain ⟨_, _, _, _, hl⟩ := h.lands
  exact hl.reply

/-- **A one-pool write that landed** ran its call on the pool it names, signed by the runner. -/
theorem Landing.poolWrite {pool : PoolId} {call : SoroSense.Address → Vault.Call} {run : Vault.Call} {w : World}
    (h : k.Landing (k.client.poolWrite pool call) s run w) :
    ∃ p signer, k.client.Names pool p ∧ k.signer = .ok signer ∧ run = call p ∧
      (call p).exec (Auth.signers [signer.account]) s.world = .ok w := by
  obtain ⟨tx, signer, hb, hs, hl⟩ := h.lands
  obtain ⟨p, hp, rfl⟩ := k.client.assemble_poolWrite hb hl.assemble
  exact ⟨p, signer, hp, hs, rfl, hl.exec⟩

/-- **A proposal that landed** was filed between the two pools it names. -/
theorem Landing.proposeExit {pool target : PoolId} {run : Vault.Call} {w : World}
    (h : k.Landing (k.client.proposeExit c pool target) s run w) :
    ∃ p q, ∃ signer : Signer, k.client.Names pool p ∧ run = .proposeExit c p q ∧
      (Vault.Call.proposeExit c p q).exec (Auth.signers [signer.account]) s.world = .ok w := by
  obtain ⟨tx, signer, hb, _, hl⟩ := h.lands
  obtain ⟨p, q, hp, _, rfl⟩ := k.client.assemble_proposeExit hb hl.assemble
  exact ⟨p, q, signer, hp, rfl, hl.exec⟩

/-- **A write of the runner keeps what its call keeps.** -/
theorem keeps_submit {R : World → World → Prop} (hrefl : ∀ w, R w w) {build : Except String PreparedTx}
    (h : ∀ s call w, k.Landing build s call w → R s.world w) :
    Keeps (VaultClient.OnWorld R) (k.submit build) := by
  intro s
  rcases k.submit_cases build s with ⟨m, t, hrun, ht⟩ | ⟨_, hrun⟩ | ⟨call, w, hl, hrun⟩
  · rw [after_of_error hrun]
    show R s.world t.world
    rw [ht]
    exact hrefl s.world
  · rw [after_of_ok hrun]
    exact hrefl s.world
  · rw [after_of_ok hrun]
    exact h s call w hl

/-- The amount read leaves everything as it was. -/
theorem amountToMove_cases (k : KeeperRunner) (c : Currency) (pool : PoolId) (s : Live) :
    (∃ message, (k.amountToMove c pool).run s = .error message s) ∨
      ∃ amount, (k.amountToMove c pool).run s = .ok amount s := by
  show (∃ message, k.amountToMove c pool s = .error message s) ∨ ∃ amount, k.amountToMove c pool s = .ok amount s
  unfold amountToMove
  cases k.moveAmount with
  | none => exact .inl ⟨_, rfl⟩
  | some moveAmount =>
      show (∃ message, (lift (moveAmount s.world c pool)).run s = .error message s) ∨
        ∃ amount, (lift (moveAmount s.world c pool)).run s = .ok amount s
      cases moveAmount s.world c pool with
      | error message => exact .inl ⟨message, rfl⟩
      | ok amount     => exact .inr ⟨amount, rfl⟩

/-- An amount source that answers. -/
theorem run_amountToMove {pool : PoolId} {amount : Int}
    (h : (k.moveAmount.map fun moveAmount => moveAmount s.world c pool) = some (.ok amount)) :
    (k.amountToMove c pool).run s = .ok amount s := by
  obtain ⟨moveAmount, hk, ha⟩ := Option.map_eq_some_iff.mp h
  show k.amountToMove c pool s = .ok amount s
  unfold amountToMove
  rw [hk]
  exact run_lift_eq_ok.mpr ⟨ha, rfl⟩

/-- Both writes of a rebalance resolve, as `r₁` and `r₂`. -/
structure Writes (k : KeeperRunner) (c : Currency) (source target : PoolId) (s : Live) (r₁ r₂ : TxResult)
    (u : Live) : Prop where
  run : ∃ amount t, (k.amountToMove c source).run s = .ok amount s ∧
    (k.submit (k.client.deallocate source c amount)).run s = .ok r₁ t ∧
    (k.submit (k.client.allocate target c amount)).run t = .ok r₂ u

/-- **A rebalance returns** as soon as both its writes resolve, whatever they resolve to. -/
theorem rebalance_eq_ok {source target : PoolId} :
    (k.rebalance c source target).run s = .ok () u ↔ ∃ r₁ r₂, k.Writes c source target s r₁ r₂ u := by
  unfold rebalance
  constructor
  · intro h
    obtain ⟨amount, s', ha, h⟩ := run_bind_eq_ok.mp h
    obtain ⟨r₁, t, h₁, h⟩ := run_bind_eq_ok.mp h
    obtain ⟨r₂, v, h₂, h⟩ := run_bind_eq_ok.mp h
    obtain ⟨_, rfl⟩ := run_pure_eq_ok.mp h
    -- the amount is read before anything is written
    rcases k.amountToMove_cases c source s with ⟨m, hm⟩ | ⟨m, hm⟩
    · rw [hm] at ha
      exact absurd ha (by simp)
    · have hs := hm.symm.trans ha
      injection hs with _ hs
      subst hs
      exact ⟨r₁, r₂, ⟨amount, t, ha, h₁, h₂⟩⟩
  · rintro ⟨r₁, r₂, ⟨amount, t, ha, h₁, h₂⟩⟩
    rw [run_bind_of_ok ha, run_bind_of_ok h₁, run_bind_of_ok h₂]
    rfl

/-- The outcomes of the two writes are determined. -/
theorem Writes.unique {source target : PoolId} {r₁ r₂ r₁' r₂' : TxResult} {u' : Live}
    (h : k.Writes c source target s r₁ r₂ u) (h' : k.Writes c source target s r₁' r₂' u') :
    r₁' = r₁ ∧ r₂' = r₂ ∧ u' = u := by
  obtain ⟨m, t, ha, h₁, h₂⟩ := h.run
  obtain ⟨m', t', ha', h₁', h₂'⟩ := h'.run
  have hm := ha.symm.trans ha'
  injection hm with hm _
  subst hm
  have h := h₁.symm.trans h₁'
  injection h with hr ht
  subst hr ht
  have h := h₂.symm.trans h₂'
  injection h with hr hu
  subst hr hu
  exact ⟨rfl, rfl, rfl⟩

/-- **A freeze-exit returns** as soon as the writes it makes resolve, whatever they resolve to. -/
theorem freezeExit_eq_ok {pool : PoolId} {toPool : Option PoolId} :
    (k.freezeExit c pool toPool).run s = .ok () u ↔
      ∃ r₁ t, (k.submit (k.client.freeze pool)).run s = .ok r₁ t ∧
        match exitTarget toPool with
        | none        => t = u
        | some target => ∃ r₂, (k.submit (k.client.proposeExit c pool target)).run t = .ok r₂ u := by
  unfold freezeExit
  rw [run_bind_eq_ok]
  apply exists_congr
  intro r₁
  apply exists_congr
  intro t
  apply and_congr_right
  intro _
  cases exitTarget toPool with
  | none =>
      constructor
      · intro h
        exact (run_pure_eq_ok.mp h).2
      · intro h
        exact run_pure_eq_ok.mpr ⟨rfl, h⟩
  | some target =>
      constructor
      · intro h
        obtain ⟨r₂, v, h₂, hv⟩ := run_bind_eq_ok.mp h
        obtain ⟨_, rfl⟩ := run_pure_eq_ok.mp hv
        exact ⟨r₂, h₂⟩
      · rintro ⟨r₂, h₂⟩
        exact run_bind_eq_ok.mpr ⟨r₂, u, h₂, rfl⟩

/-! ## A tick, from its reads on -/

theorem readNow_tickContext (k : KeeperRunner) (c : Currency) (input : RunTickInput) (s : Live) :
    (k.tickContext c input).readNow.run s = .ok (some (s.clock 0)) s.ticked := rfl

/-- What a tick on a store decides. -/
def decision (k : KeeperRunner) (c : Currency) (input : RunTickInput) (now : ℚ) (store : BucketStore) :
    Decision :=
  classifyBucket ((k.tickContext c input).classifyInput (some now) store)

theorem currency_decision (k : KeeperRunner) (c : Currency) (input : RunTickInput) (now : ℚ)
    (store : BucketStore) : (k.decision c input now store).currency = c := currency_classifyBucket _

section Own

variable (hown : input.effects = none)
include hown

theorem effects_of_own : (k.tickContext c input).effects = k.effects := by
  show input.effects.getD k.effects = k.effects
  rw [hown]
  rfl

/-- The runner gates no compounding, so it reinvests for nobody in particular. -/
theorem effect_compound {e : Currency} {pool : PoolId} :
    (k.tickContext c input).effect (.compound e pool) = k.compound e pool none := by
  show (k.tickContext c input).effects.compound e pool none = _
  rw [effects_of_own hown]
  rfl

theorem effect_rebalance {e : Currency} {source target : PoolId} :
    (k.tickContext c input).effect (.rebalance e source target) = k.rebalance e source target := by
  show (k.tickContext c input).effects.rebalance e source target = _
  rw [effects_of_own hown]
  rfl

theorem effect_freezeExit {e : Currency} {pool : PoolId} {toPool : Option PoolId} :
    (k.tickContext c input).effect (.freezeExit e pool toPool) = k.freezeExit e pool toPool := by
  show (k.tickContext c input).effects.freezeExit e pool toPool = _
  rw [effects_of_own hown]
  rfl

end Own

section Shared

variable {s u : Live × BucketStore}

/-- **A tick on a store, when it resolves.** -/
theorem runTickOn_eq_ok :
    (k.runTickOn c input).run s = .ok d u ↔ k.decision c input (s.1.clock 0) s.2 = d ∧
      ((k.tickContext c input).effect d).run s.1.ticked = .ok () u.1 ∧
      u.2 = d.record (some (s.1.clock 0)) s.2 := by
  unfold runTickOn
  rw [runAllocatorTick_eq_ok]
  constructor
  · rintro ⟨now, t, hnow, hd, hx, hu⟩
    rw [readNow_tickContext] at hnow
    injection hnow with hn ht
    subst hn ht
    exact ⟨hd, hx, hu⟩
  · rintro ⟨hd, hx, hu⟩
    exact ⟨_, _, readNow_tickContext k c input s.1, hd, hx, hu⟩

/-- A tick on a store whose effect throws. -/
theorem runTickOn_of_error {message : String} {t : Live}
    (h : ((k.tickContext c input).effect (k.decision c input (s.1.clock 0) s.2)).run s.1.ticked
      = .error message t) : (k.runTickOn c input).run s = .error message (t, s.2) := by
  unfold runTickOn
  rw [run_runAllocatorTick (readNow_tickContext k c input s.1)]
  unfold decision at h
  rw [h]

/-- **A tick on a store leaves the chain** where the effect of its decision does. -/
theorem fst_after_runTickOn :
    (after (k.runTickOn c input) s).1 =
      after ((k.tickContext c input).effect (k.decision c input (s.1.clock 0) s.2)) s.1.ticked :=
  fst_after_runAllocatorTick (readNow_tickContext k c input s.1)

end Shared

/-- The state in front of a tick once its two reads were answered. -/
def afterReads (s : Live) : Live := (s.answered s.world).answered s.world

/-- The store a tick without one starts from. -/
def freshStore (k : KeeperRunner) (c : Currency) (w : World) : BucketStore :=
  seeded c (k.client.activeSlug w c) ((Vault.pendingExit w c).map k.client.exitOf)

theorem seedPending_eq (c : Currency) (pending : Option ExitProposal) (store : BucketStore) :
    seedPending c pending store = store ∨ seedPending c pending store = store.setPendingExit c true := by
  cases pending with
  | none   => exact .inl rfl
  | some _ => exact .inr rfl

theorem seedActive_eq (c : Currency) (active : Option PoolId) (store : BucketStore) :
    seedActive c active store = store ∨ ∃ pool, seedActive c active store = store.setActivePool c pool := by
  unfold seedActive
  cases active.filter (· ≠ "") with
  | none      => exact .inl rfl
  | some pool => exact .inr ⟨pool, rfl⟩

theorem active_freshStore (k : KeeperRunner) (c : Currency) (w : World) :
    (k.freshStore c w).active c = k.client.activeSlug w c := by
  have hp : (k.freshStore c w).active = (seedActive c (k.client.activeSlug w c) BucketStore.empty).active := by
    unfold freshStore seeded
    rcases seedPending_eq c ((Vault.pendingExit w c).map k.client.exitOf)
      (seedActive c (k.client.activeSlug w c) BucketStore.empty) with h | h
    · rw [h]
    · rw [h]; rfl
  rw [hp]
  unfold seedActive
  cases ha : k.client.activeSlug w c with
  | none => rfl
  | some slug =>
      -- a decoded slug is never the empty string
      rw [Option.filter_some, if_pos (decide_eq_true (k.client.activeSlug_ne_empty ha))]
      exact Function.update_self ..

theorem pending_freshStore (k : KeeperRunner) (c : Currency) (w : World) :
    (k.freshStore c w).pending c = (Vault.pendingExit w c).isSome := by
  unfold freshStore seeded
  cases Vault.pendingExit w c with
  | some x => exact Function.update_self ..
  | none =>
      rcases seedActive_eq c (k.client.activeSlug w c) BucketStore.empty with h | ⟨pool, h⟩
      · rw [h]; rfl
      · rw [h]; rfl

/-- **A fresh store remembers no move.** -/
theorem lastMove_freshStore (k : KeeperRunner) (c : Currency) (w : World) :
    (k.freshStore c w).lastMove c = none := by
  have ha : (seedActive c (k.client.activeSlug w c) BucketStore.empty).lastMove c = none := by
    rcases seedActive_eq c (k.client.activeSlug w c) BucketStore.empty with h | ⟨pool, h⟩
    · rw [h]; rfl
    · rw [h]; rfl
  unfold freshStore seeded
  rcases seedPending_eq c ((Vault.pendingExit w c).map k.client.exitOf)
    (seedActive c (k.client.activeSlug w c) BucketStore.empty) with h | h
  · rw [h]; exact ha
  · rw [h]; exact ha

section Fresh

variable {w : World} (input : RunTickInput) (now : Option ℚ)

/-- The classifier is told of the pool the chain has. -/
theorem activePool_freshStore {slug : PoolId} (hactive : k.client.activeSlug w c = some slug) :
    ((k.tickContext c input).classifyInput now (k.freshStore c w)).activePool = some slug :=
  (active_freshStore k c w).trans hactive

/-- And that no exit waits, where none is pending. -/
theorem hasPendingExit_freshStore (hexit : Vault.pendingExit w c = none) :
    ((k.tickContext c input).classifyInput now (k.freshStore c w)).hasPendingExit = false := by
  apply (pending_freshStore k c w).trans
  rw [hexit]
  rfl

end Fresh

theorem run_simulate_cases {α : Type} (read : World → α) (s : Live) :
    (∃ message, s.replies 0 = .throws message ∧
        (simulate read).run s = .error message (s.answered s.world)) ∨
      (∀ message, s.replies 0 ≠ .throws message) ∧
        (simulate read).run s = .ok (read s.world) (s.answered s.world) := by
  unfold EStateM.run simulate
  cases hr : s.replies 0 with
  | throws message => exact .inl ⟨message, rfl, rfl⟩
  | lands          => exact .inr ⟨by simp, rfl⟩
  | rejected       => exact .inr ⟨by simp, rfl⟩

/-- Both reads of a tick answer. -/
def ReadsAnswer (s : Live) : Prop := ∀ message, s.replies 0 ≠ .throws message ∧ s.replies 1 ≠ .throws message

/-- A tick without a store, its reads answered. -/
theorem run_runTick (h : ReadsAnswer s) :
    (k.runTick c input).run s =
      (privately (k.freshStore c s.world) (k.runTickOn c input)).run (afterReads s) := by
  have h₀ : (k.client.activePool c).run s = .ok (k.client.activeSlug s.world c) (s.answered s.world) := by
    rcases run_simulate_cases (fun w => k.client.activeSlug w c) s with ⟨m, hm, _⟩ | ⟨_, hr⟩
    · exact absurd hm (h m).1
    · exact hr
  have h₁ : (k.client.pendingExit c).run (s.answered s.world)
      = .ok ((Vault.pendingExit s.world c).map k.client.exitOf) (afterReads s) := by
    rcases run_simulate_cases (fun w => (Vault.pendingExit w c).map k.client.exitOf) (s.answered s.world) with
      ⟨m, hm, _⟩ | ⟨_, hr⟩
    · exact absurd hm (h m).2
    · exact hr
  unfold runTick
  rw [run_bind_of_ok h₀, run_bind_of_ok h₁]
  rfl

theorem after_runTick (h : ReadsAnswer s) :
    after (k.runTick c input) s = (after (k.runTickOn c input) (afterReads s, k.freshStore c s.world)).1 := by
  rw [← after_privately]
  unfold after
  rw [run_runTick h]

/-- A tick without a store, a read of which threw, did nothing. -/
theorem run_runTick_of_not_readsAnswer (k : KeeperRunner) (c : Currency) (input : RunTickInput)
    (h : ¬ ReadsAnswer s) :
    ∃ message t, (k.runTick c input).run s = .error message t ∧ t.world = s.world := by
  unfold runTick
  rcases run_simulate_cases (fun w => k.client.activeSlug w c) s with ⟨m, hm, hr⟩ | ⟨hm, hr⟩
  · exact ⟨m, _, run_bind_of_error hr, rfl⟩
  · rcases run_simulate_cases (fun w => (Vault.pendingExit w c).map k.client.exitOf) (s.answered s.world) with
      ⟨m, _, hr'⟩ | ⟨hm', _⟩
    · have hr₁ : (k.client.pendingExit c).run (s.answered s.world) = .error m (afterReads s) := hr'
      exact ⟨m, afterReads s, (run_bind_of_ok hr).trans (run_bind_of_error hr₁), rfl⟩
    · exact absurd (fun m => ⟨hm m, hm' m⟩) h

/-- A tick without a store whose effect returns. -/
theorem runTick_of_ok (hr : ReadsAnswer s) (hd : k.decision c input (s.clock 0) (k.freshStore c s.world) = d)
    (hx : ((k.tickContext c input).effect d).run (afterReads s).ticked = .ok () u) :
    (k.runTick c input).run s = .ok d u := by
  rw [run_runTick hr, run_privately_eq_ok]
  exact ⟨_, runTickOn_eq_ok.mpr ⟨hd, hx, rfl⟩⟩

/-- A tick without a store whose effect throws. -/
theorem runTick_of_error {message : String} (hr : ReadsAnswer s)
    (hd : k.decision c input (s.clock 0) (k.freshStore c s.world) = d)
    (hx : ((k.tickContext c input).effect d).run (afterReads s).ticked = .error message u) :
    (k.runTick c input).run s = .error message u := by
  rw [run_runTick hr]
  rw [← hd] at hx
  exact run_privately_of_error (runTickOn_of_error (s := (afterReads s, _)) hx)

/-- **A tick without a store, when it resolves**, decided on a fresh one. -/
theorem decision_of_runTick (h : (k.runTick c input).run s = .ok d u) :
    k.decision c input (s.clock 0) (k.freshStore c s.world) = d := by
  by_cases hr : ReadsAnswer s
  · rw [run_runTick hr, run_privately_eq_ok] at h
    obtain ⟨_, h⟩ := h
    exact (runTickOn_eq_ok.mp h).1
  · obtain ⟨_, _, he, _⟩ := run_runTick_of_not_readsAnswer k c input hr
    rw [he] at h
    exact absurd h (by simp)

/-! ## What a tick can do to the chain -/

/-- The calls a tick on a currency may run. -/
def TickCall (c : Currency) : Vault.Call → Prop
  | .allocate _ d _    => d = c
  | .deallocate _ d _  => d = c
  | .freeze _          => True
  | .proposeExit d _ _ => d = c
  | _                  => False

section Keeps

variable {R : World → World → Prop} (hrefl : ∀ w, R w w) (htrans : ∀ w v x, R w v → R v x → R w x)

/-- `R` holds across every call a tick on `c` may run. -/
def Holds (R : World → World → Prop) (c : Currency) : Prop :=
  ∀ ids call w w', TickCall c call → call.exec (Auth.signers ids) w = .ok w' → R w w'

include hrefl in
theorem keeps_poolWrite (hR : Holds R c) {pool : PoolId} (call : SoroSense.Address → Vault.Call)
    (hcall : ∀ p, TickCall c (call p)) :
    Keeps (VaultClient.OnWorld R) (k.submit (k.client.poolWrite pool call)) := by
  apply keeps_submit hrefl
  intro s run w hl
  obtain ⟨p, signer, _, _, _, hx⟩ := hl.poolWrite
  exact hR _ _ _ _ (hcall p) hx

include hrefl in
theorem keeps_proposeExit (hR : Holds R c) {pool target : PoolId} :
    Keeps (VaultClient.OnWorld R) (k.submit (k.client.proposeExit c pool target)) := by
  apply keeps_submit hrefl
  intro s run w hl
  obtain ⟨p, q, signer, _, _, hx⟩ := hl.proposeExit
  exact hR _ (.proposeExit c p q) _ _ rfl hx

include hrefl in
theorem keeps_amountToMove {pool : PoolId} : Keeps (VaultClient.OnWorld R) (k.amountToMove c pool) := by
  intro s
  rcases k.amountToMove_cases c pool s with ⟨m, h⟩ | ⟨m, h⟩
  · rw [after_of_error h]; exact hrefl s.world
  · rw [after_of_ok h]; exact hrefl s.world

include hrefl htrans in
/-- **The effect of a decision keeps what its calls keep.** -/
theorem keeps_effect (hown : input.effects = none) {d : Decision} (hR : Holds R d.currency) :
    Keeps (VaultClient.OnWorld R) ((k.tickContext c input).effect d) := by
  have hr : ∀ s, VaultClient.OnWorld R s s := fun s => hrefl s.world
  have ht : ∀ s t u, VaultClient.OnWorld R s t → VaultClient.OnWorld R t u → VaultClient.OnWorld R s u :=
    fun _ _ _ h₁ h₂ => htrans _ _ _ h₁ h₂
  have hpure : Keeps (VaultClient.OnWorld R) (pure () : EStateM String Live Unit) := keeps_pure hr ()
  cases d with
  | noop e reason => exact hpure
  | compound e pool =>
      rw [effect_compound hown]
      exact (keeps_amountToMove hrefl).bind ht fun amount =>
        (keeps_poolWrite hrefl hR (fun p => .allocate p e amount) fun _ => rfl).bind ht fun _ => hpure
  | rebalance e source target =>
      rw [effect_rebalance hown]
      exact (keeps_amountToMove hrefl).bind ht fun amount =>
        (keeps_poolWrite hrefl hR (fun p => .deallocate p e amount) fun _ => rfl).bind ht fun _ =>
          (keeps_poolWrite hrefl hR (fun p => .allocate p e amount) fun _ => rfl).bind ht fun _ => hpure
  | freezeExit e pool toPool =>
      rw [effect_freezeExit hown]
      refine (keeps_poolWrite hrefl hR (fun p => .freeze p) fun _ => trivial).bind ht fun _ => ?_
      cases exitTarget toPool with
      | none        => exact hpure
      | some target => exact (keeps_proposeExit hrefl hR).bind ht fun _ => hpure

include hrefl htrans in
/-- **A tick keeps what its calls keep**, on any store. -/
theorem keeps_runTickOn (hown : input.effects = none) (hR : Holds R c) (s : Live) (store : BucketStore) :
    R s.world (after (k.runTickOn c input) (s, store)).1.world := by
  rw [fst_after_runTickOn]
  exact keeps_effect hrefl htrans hown
    (by rw [currency_decision]; exact hR) s.ticked

include hrefl htrans in
/-- **A tick without a store keeps what its calls keep.** -/
theorem keeps_runTick (hown : input.effects = none) (hR : Holds R c) (s : Live) :
    R s.world (after (k.runTick c input) s).world := by
  by_cases hreads : ReadsAnswer s
  · rw [after_runTick hreads]
    exact keeps_runTickOn hrefl htrans hown hR (afterReads s) _
  · obtain ⟨_, t, hrun, ht⟩ := run_runTick_of_not_readsAnswer k c input hreads
    rw [after_of_error hrun, ht]
    exact hrefl s.world

end Keeps

/-- Every call a tick runs is a step of the chain. -/
theorem holds_reachable (c : Currency) :
    Holds (fun w w' => Transition.Reachable Genesis Step w → Transition.Reachable Genesis Step w') c :=
  fun ids call _ _ _ hx hw => hw.tail (a := .vault ids call) (.done hx)

/-- What a tick reaches from a reachable ledger is reachable. -/
theorem reachable_runTickOn (hown : input.effects = none) {s : Live} (store : BucketStore)
    (h : Transition.Reachable Genesis Step s.world) :
    Transition.Reachable Genesis Step (after (k.runTickOn c input) (s, store)).1.world :=
  keeps_runTickOn (fun _ hw => hw) (fun _ _ _ h₁ h₂ hw => h₂ (h₁ hw)) hown (holds_reachable c) s store h

theorem reachable_runTick (hown : input.effects = none) {s : Live}
    (h : Transition.Reachable Genesis Step s.world) :
    Transition.Reachable Genesis Step (after (k.runTick c input) s).world :=
  keeps_runTick (fun _ hw => hw) (fun _ _ _ h₁ h₂ hw => h₂ (h₁ hw)) hown (holds_reachable c) s h

end KeeperRunner

/-! ## A runner

Live, signing with the keeper of the examples, over two registered pools of US dollars. -/

/-- An address, read back from its strokes. -/
def addressOf (text : Address) : Except String SoroSense.Address :=
  match text.toList with
  | 'G' :: strokes => .ok (.account strokes.length)
  | 'C' :: strokes => .ok (.contract strokes.length)
  | _              => .error "unsupported address type"

theorem addressOf_strkey (a : SoroSense.Address) : addressOf a.strkey = .ok a := by
  cases a <;> simp [addressOf, SoroSense.Address.strkey]

theorem strkey_ne_empty (a : SoroSense.Address) : a.strkey ≠ "" := by
  intro h
  have hl := congrArg String.toList h
  cases a <;> simp [SoroSense.Address.strkey] at hl

def demoClient : VaultClient :=
  { strkey :=
      { text := SoroSense.Address.strkey, parse := addressOf, parse_text := addressOf_strkey,
        text_ne := strkey_ne_empty }
    resolvePool := some fun slug =>
      if slug = "defindex-usdc" then some (SoroSense.Address.contract 1).strkey
      else if slug = "sorosense-usd" then some (SoroSense.Address.contract 2).strkey
      else none
    poolIdFor := some fun address =>
      if address = (SoroSense.Address.contract 1).strkey then some "defindex-usdc"
      else if address = (SoroSense.Address.contract 2).strkey then some "sorosense-usd"
      else none
    refusal := fun _ => "HostError" }

/-- The runner of the examples; it moves `amount`. -/
def demoRunner (amount : Int) : KeeperRunner :=
  { client := demoClient, signer := .ok ⟨.keeper, 1⟩, integration := true, poolFor := demoPoolFor,
    moveAmount := some fun _ _ _ => .ok amount }

/-- A chain that takes every request, and a clock that shows hour `n` at its `n`th reading. -/
def Live.calm (w : World) : Live := ⟨w, fun _ => .lands, fun n => 3600000 * n⟩

end Backend
end SoroSense
