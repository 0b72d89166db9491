import SoroSense.Backend.RunnerSpec
import SoroSense.Properties.SharePrice

/-!
# `Properties.SwitchGate` — the cron and the anti-churn gate

The cron is to move an allocated bucket only when the best candidate beats the active pool by more than the
threshold. It hands the tick candidates but no yield of the active pool, and the gate takes an unknown yield
for an unallocated bucket: every rival passes, by whatever margin.

`cron_moves_only_if_it_pays_iff` is the exact condition, for every visit of every pass.
-/

namespace SoroSense
namespace Backend

open Session KeeperRunner Transition

variable {k : KeeperRunner} {catalog : Currency → List CatalogEntry} {c : Currency} {cs : List Currency}
  {s : Live} {active : PoolId} {best : Candidate} {entry : CatalogEntry}

/-! ## The visits of a pass -/

/-- The input the cron gives a tick. -/
def cronInput (catalog : Currency → List CatalogEntry) (c : Currency) : RunTickInput :=
  { candidates := candidatesFor catalog c }

/-- The currencies of a pass, each with what its tick is in front of. -/
def cronVisits (k : KeeperRunner) (catalog : Currency → List CatalogEntry) :
    List Currency → Live → List (Currency × Live)
  | [], _      => []
  | c :: cs, s => (c, s) :: cronVisits k catalog cs (cronTick k catalog c s).2

theorem snd_cronTick (c : Currency) (s : Live) :
    (cronTick k catalog c s).2 = after (k.runTick c (cronInput catalog c)) s := by
  unfold cronTick after cronInput
  cases (k.runTick c { candidates := candidatesFor catalog c }).run s with
  | ok d t    => rfl
  | error e t => rfl

/-- Every visit of a pass over a reachable ledger is in front of a reachable ledger. -/
theorem reachable_of_mem_cronVisits (h : Reachable Genesis Step s.world) :
    ∀ v ∈ cronVisits k catalog cs s, Reachable Genesis Step v.2.world := by
  induction cs generalizing s with
  | nil => exact fun v hv => absurd hv (by simp [cronVisits])
  | cons c cs ih =>
      intro v hv
      rcases List.mem_cons.mp hv with rfl | hv
      · exact h
      · refine ih ?_ v hv
        rw [snd_cronTick]
        exact reachable_runTick rfl h

/-! ## Moves -/

/-- The visit rebalances: the pass reports a rebalance, or the ledger is not as before. -/
def Moved (k : KeeperRunner) (catalog : Currency → List CatalogEntry) (c : Currency) (s : Live) : Prop :=
  (∃ source target, (cronTick k catalog c s).1 = .rebalance c source target) ∨
    (cronTick k catalog c s).2.world ≠ s.world

/-- The bucket is rebalanced only if the best candidate's APY clears the threshold over the active
    pool's, and is left in place otherwise. -/
def MovesOnlyIfItPays (k : KeeperRunner) (catalog : Currency → List CatalogEntry) (c : Currency) (s : Live)
    (entry : CatalogEntry) (best : Candidate) : Prop :=
  Moved k catalog c s → exceedsRebalanceThreshold entry.apy best.ray DEFAULT_THRESHOLD_PCT = true

/-- The move stops before anything lands: the amount cannot be read, the pull throws, or it comes back
    without success and the placement throws. -/
def Stopped (k : KeeperRunner) (c : Currency) (source target : PoolId) (s : Live) : Prop :=
  (∃ message, (k.amountToMove c source).run s = .error message s) ∨
    ∃ m, (k.amountToMove c source).run s = .ok m s ∧
      ((∃ message t, (k.submit (k.client.deallocate source c m)).run s = .error message t) ∨
        ∃ t, (k.submit (k.client.deallocate source c m)).run s = .ok ⟨false⟩ t ∧
          ∃ message u, (k.submit (k.client.allocate target c m)).run t = .error message u)

/-- **A rebalance that stops** throws and leaves the ledger as it was. -/
theorem Stopped.run {source target : PoolId} (h : Stopped k c source target s) :
    ∃ message t, (k.rebalance c source target).run s = .error message t ∧ t.world = s.world := by
  unfold rebalance
  rcases h with ⟨message, ha⟩ | ⟨m, ha, ⟨message, t, hpull⟩ | ⟨t, hpull, message, u, hput⟩⟩
  · exact ⟨message, s, run_bind_of_error ha, rfl⟩
  · exact ⟨message, t, (run_bind_of_ok ha).trans (run_bind_of_error hpull), world_of_submit_error hpull⟩
  · exact ⟨message, u, (run_bind_of_ok ha).trans ((run_bind_of_ok hpull).trans (run_bind_of_error hput)),
      (world_of_submit_error hput).trans (world_of_submit_rejected hpull)⟩

/-- **A pull that lands moves the ledger**: the vault publishes it. -/
theorem events_lt_of_landing {source : PoolId} {m : Int} (h : Reachable Genesis Step s.world) {call : Vault.Call}
    {w : World} (hl : k.Landing (k.client.deallocate source c m) s call w) :
    s.world.vault.events.length < w.vault.events.length := by
  obtain ⟨p, signer, _, _, _, hx⟩ := hl.poolWrite
  obtain ⟨_, rfl⟩ := (Vault.deallocate_eq_ok (reachable_wf h)).mp hx
  show _ < (s.world.vault.events ++ [_]).length
  rw [List.length_append]
  exact Nat.lt_succ_self _

/-- **A rebalance that does not stop** resolves, or leaves a moved ledger behind. -/
theorem moves_of_not_stopped {source target : PoolId} (h : Reachable Genesis Step s.world)
    (hs : ¬ Stopped k c source target s) :
    (∃ u, (k.rebalance c source target).run s = .ok () u) ∨
      (after (k.rebalance c source target) s).world ≠ s.world := by
  rcases k.amountToMove_cases c source s with ha | ⟨m, ha⟩
  · exact absurd (.inl ha) hs
  rcases k.submit_cases (k.client.deallocate source c m) s with ⟨message, t, hpull, _⟩ | ⟨_, hpull⟩ |
    ⟨call, w, hl, hpull⟩
  · exact absurd (.inr ⟨m, ha, .inl ⟨message, t, hpull⟩⟩) hs
  · -- the pull moved nothing and is overlooked, so the placement has to throw for the move to stop
    left
    rcases k.submit_cases (k.client.allocate target c m) (s.answered s.world) with ⟨message, u, hput, _⟩ |
      ⟨_, hput⟩ | ⟨_, _, _, hput⟩
    · exact absurd (.inr ⟨m, ha, .inr ⟨_, hpull, message, u, hput⟩⟩) hs
    · exact ⟨_, rebalance_eq_ok.mpr ⟨_, _, ⟨m, _, ha, hpull, hput⟩⟩⟩
    · exact ⟨_, rebalance_eq_ok.mpr ⟨_, _, ⟨m, _, ha, hpull, hput⟩⟩⟩
  · rcases k.submit_cases (k.client.allocate target c m) (s.answered w) with ⟨message, u, hput, hu⟩ |
      ⟨_, hput⟩ | ⟨_, _, _, hput⟩
    · -- the funds were pulled, and stay where the throwing placement leaves them
      right
      intro he
      have hafter : after (k.rebalance c source target) s = u := by
        unfold rebalance
        exact after_of_error ((run_bind_of_ok ha).trans ((run_bind_of_ok hpull).trans (run_bind_of_error hput)))
      have hlt := events_lt_of_landing h hl
      rw [hafter, hu, Live.world_answered] at he
      rw [he] at hlt
      exact absurd hlt (lt_irrefl _)
    · exact .inl ⟨_, rebalance_eq_ok.mpr ⟨_, _, ⟨m, _, ha, hpull, hput⟩⟩⟩
    · exact .inl ⟨_, rebalance_eq_ok.mpr ⟨_, _, ⟨m, _, ha, hpull, hput⟩⟩⟩

/-! ## What a visit decides -/

/-- **The gate lets every rival pass**, the yield of the active pool being unknown to it. -/
theorem decision_of_cron (hactive : k.client.activeSlug s.world c = some active)
    (hexit : Vault.pendingExit s.world c = none) (hbest : bestOf (candidatesFor catalog c) none = some best)
    (now : ℚ) :
    k.decision c (cronInput catalog c) now (k.freshStore c s.world) =
      if best.poolId = active then .noop c NO_SWITCH else .rebalance c active best.poolId := by
  have hact := activePool_freshStore (cronInput catalog c) (some now) hactive
  have hpend := hasPendingExit_freshStore (k := k) (cronInput catalog c) (some now) hexit
  split
  · rename_i he
    -- the best candidate is the pool the bucket is in
    apply classifyBucket_of_quiet hpend rfl _ rfl
    apply ClassifyInput.switchTarget_of_held hbest
    rw [hact, he]
  · rename_i hne
    apply classifyBucket_eq_rebalance.mpr
    refine ⟨hpend, rfl, rfl, best, ClassifyInput.switchTarget_eq_some.mpr ⟨hbest, ?_, ?_⟩, ?_, rfl⟩
    · rw [hact]
      intro he
      exact hne (Option.some.inj he).symm
    · exact ClassifyInput.shouldRebalance_of_unknown rfl
    · rw [hact]
      rfl

section Visit

variable {d : Decision} {u : Live} {message : String}

/-- A visit whose tick resolves. -/
theorem cronTick_of_ok (hrun : (k.runTick c (cronInput catalog c)).run s = .ok d u) :
    cronTick k catalog c s = (d, u) := by
  unfold cronInput at hrun
  rw [cronTick, hrun]

/-- A visit whose tick throws. -/
theorem cronTick_of_error (hrun : (k.runTick c (cronInput catalog c)).run s = .error message u) :
    cronTick k catalog c s = (.noop c ("cron error: " ++ message), u) := by
  unfold cronInput at hrun
  rw [cronTick, hrun]

/-- A visit reported as a no-op that left the ledger alone is none. -/
theorem not_moved_of_quiet {reason : String} (he : cronTick k catalog c s = (.noop c reason, u))
    (hu : u.world = s.world) : ¬ Moved k catalog c s := by
  unfold Moved
  rw [he]
  rintro (⟨_, _, hm⟩ | hm)
  · exact absurd hm (by simp)
  · exact hm hu

end Visit

theorem not_moved_of_not_readsAnswer (hr : ¬ ReadsAnswer s) : ¬ Moved k catalog c s := by
  obtain ⟨message, t, hrun, ht⟩ := run_runTick_of_not_readsAnswer k c (cronInput catalog c) hr
  exact not_moved_of_quiet (cronTick_of_error hrun) ht

section Decided

variable (hr : ReadsAnswer s)
include hr

theorem not_moved_of_noop {reason : String}
    (hd : k.decision c (cronInput catalog c) (s.clock 0) (k.freshStore c s.world) = .noop c reason) :
    ¬ Moved k catalog c s := by
  have hrun : (k.runTick c (cronInput catalog c)).run s = .ok (.noop c reason) (afterReads s).ticked :=
    runTick_of_ok hr hd rfl
  exact not_moved_of_quiet (cronTick_of_ok hrun) rfl

variable {target : PoolId}
  (hd : k.decision c (cronInput catalog c) (s.clock 0) (k.freshStore c s.world) = .rebalance c active target)
include hd

theorem not_moved_of_stopped (hs : Stopped k c active target (afterReads s).ticked) :
    ¬ Moved k catalog c s := by
  obtain ⟨message, t, hx, ht⟩ := hs.run
  have hrun : (k.runTick c (cronInput catalog c)).run s = .error message t := by
    apply runTick_of_error hr hd
    rw [effect_rebalance rfl]
    exact hx
  exact not_moved_of_quiet (cronTick_of_error hrun) ht

theorem moved_of_not_stopped (h : Reachable Genesis Step s.world)
    (hs : ¬ Stopped k c active target (afterReads s).ticked) : Moved k catalog c s := by
  rcases moves_of_not_stopped (s := (afterReads s).ticked) h hs with ⟨u, hx⟩ | hne
  · left
    have hrun : (k.runTick c (cronInput catalog c)).run s = .ok (.rebalance c active target) u := by
      apply runTick_of_ok hr hd
      rw [effect_rebalance rfl]
      exact hx
    rw [cronTick_of_ok hrun]
    exact ⟨_, _, rfl⟩
  · right
    have hd' : k.decision c (cronInput catalog c) ((afterReads s).clock 0) (k.freshStore c s.world)
        = .rebalance c active target := hd
    rw [snd_cronTick, after_runTick hr, fst_after_runTickOn, hd', effect_rebalance rfl]
    exact hne

end Decided

/-- **A visit moves** exactly when the best candidate is another pool, the reads answer and nothing stops
    the move. -/
theorem moved_iff (h : Reachable Genesis Step s.world) (hactive : k.client.activeSlug s.world c = some active)
    (hexit : Vault.pendingExit s.world c = none) (hbest : bestOf (candidatesFor catalog c) none = some best) :
    Moved k catalog c s ↔ best.poolId ≠ active ∧ ReadsAnswer s ∧
      ¬ Stopped k c active best.poolId (afterReads s).ticked := by
  by_cases hr : ReadsAnswer s
  · have hd := decision_of_cron hactive hexit hbest (s.clock 0)
    by_cases hb : best.poolId = active
    · rw [if_pos hb] at hd
      have hstay := not_moved_of_noop hr hd
      exact ⟨fun hm => absurd hm hstay, fun hm => absurd hb hm.1⟩
    · rw [if_neg hb] at hd
      by_cases hs : Stopped k c active best.poolId (afterReads s).ticked
      · have hstay := not_moved_of_stopped hr hd hs
        exact ⟨fun hm => absurd hm hstay, fun hm => absurd hs hm.2.2⟩
      · have hmove := moved_of_not_stopped hr hd h hs
        exact ⟨fun _ => ⟨hb, hr, hs⟩, fun _ => hmove⟩
  · have hstay : ¬ Moved k catalog c s := not_moved_of_not_readsAnswer hr
    exact ⟨fun hm => absurd hm hstay, fun hm => absurd hm.2.1 hr⟩

/-- **The cron moves only when it pays, exactly when one of these keeps it from moving or the margin is
    there**: for every visit of every pass whose bucket is allocated to a catalogued pool with no exit
    pending, the best candidate is the active pool, or beats it by more than the threshold, or a read of the
    tick throws, or the move stops before anything lands. -/
theorem cron_moves_only_if_it_pays_iff (h : Reachable Genesis Step s.world) :
    ∀ v ∈ cronVisits k catalog cs s, ∀ active entry best,
      k.client.activeSlug v.2.world v.1 = some active → Vault.pendingExit v.2.world v.1 = none →
      entry ∈ catalog v.1 → entry.id = active → bestOf (candidatesFor catalog v.1) none = some best →
      (MovesOnlyIfItPays k catalog v.1 v.2 entry best ↔
        best.poolId = active ∨ exceedsRebalanceThreshold entry.apy best.ray DEFAULT_THRESHOLD_PCT = true ∨
          ¬ ReadsAnswer v.2 ∨ Stopped k v.1 active best.poolId (afterReads v.2).ticked) := by
  intro v hv active entry best hactive hexit _ _ hbest
  unfold MovesOnlyIfItPays
  rw [moved_iff (reachable_of_mem_cronVisits h v hv) hactive hexit hbest]
  constructor
  · intro hpays
    by_cases hb : best.poolId = active
    · exact .inl hb
    by_cases hr : ReadsAnswer v.2
    · by_cases hs : Stopped k v.1 active best.poolId (afterReads v.2).ticked
      · exact .inr (.inr (.inr hs))
      · exact .inr (.inl (hpays ⟨hb, hr, hs⟩))
    · exact .inr (.inr (.inl hr))
  · rintro (hb | hpays | hr | hs)
    · intro hm
      exact absurd hb hm.1
    · intro _
      exact hpays
    · intro hm
      exact absurd hm.2.1 hr
    · intro hm
      exact absurd hs hm.2.2

/-! ## A move for less than the threshold -/

/-- Half a deposit in `defindex-usdc`, and `sorosense-usd` allowlisted beside it. -/
def twoPools : World :=
  (World.opening 1000 5000).after (yieldRun ++
    [.deployPool 2 (.account 0) (.contract 100) 1000, .vault [0] (.setPoolAllowed (.contract 2) true)])

/-- The vetted catalog, currency by currency. -/
def vetted (c : Currency) : List CatalogEntry := getCatalog (some c)

/-- The same chain behind a network that answers nothing. -/
def silentTwoPools : Live := { Live.calm twoPools with replies := fun _ => .throws "timeout" }

/-- Then nothing moves. -/
theorem cron_moves_only_if_it_pays_iff_twoPools :
    MovesOnlyIfItPays (demoRunner 500) vetted .usd silentTwoPools ⟨"defindex-usdc", .usd, 859 / 100⟩
      ⟨"sorosense-usd", 10⟩ :=
  (@cron_moves_only_if_it_pays_iff (demoRunner 500) vetted DEFAULT_CURRENCIES silentTwoPools
    ((Genesis.opening (by decide)).reachable _) (.usd, silentTwoPools)
    List.mem_cons_self "defindex-usdc" ⟨"defindex-usdc", .usd, 859 / 100⟩ ⟨"sorosense-usd", 10⟩
    (by decide +kernel) (by decide +kernel) (by decide +kernel) rfl (by decide +kernel)).mpr
    (.inr (.inr (.inl fun h => (h "timeout").1 rfl)))

/-- With the vetted catalog and every request reaching the chain, a pass moves the bucket from 8.59 % to
    10 %, for less than the threshold of 1.5 points. -/
theorem cron_moves_below_threshold :
    (Vault.activePool twoPools .usd = some (.contract 1) ∧ Vault.pendingExit twoPools .usd = none ∧
      (⟨"defindex-usdc", .usd, 859 / 100⟩ : CatalogEntry) ∈ vetted .usd ∧
      bestOf (candidatesFor vetted .usd) none = some ⟨"sorosense-usd", 10⟩) ∧
      Vault.activePool (runKeeperCronOnce (demoRunner 500) vetted DEFAULT_CURRENCIES (Live.calm twoPools)).2.world .usd
        = some (.contract 2) ∧
      ¬ MovesOnlyIfItPays (demoRunner 500) vetted .usd (Live.calm twoPools) ⟨"defindex-usdc", .usd, 859 / 100⟩
        ⟨"sorosense-usd", 10⟩ := by
  refine ⟨⟨by decide +kernel, by decide +kernel, by decide +kernel, by decide +kernel⟩, by decide +kernel, ?_⟩
  intro h
  have hmove : (cronTick (demoRunner 500) vetted .usd (Live.calm twoPools)).1
      = .rebalance .usd "defindex-usdc" "sorosense-usd" := by decide +kernel
  exact absurd (h (.inl ⟨_, _, hmove⟩)) (by decide +kernel)

end Backend
end SoroSense
