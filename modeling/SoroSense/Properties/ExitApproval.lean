import SoroSense.Properties.ActiveRecord
import SoroSense.Properties.Proposals

/-!
# `Properties.ExitApproval` — waiting for an approval there is to give

A tick that answers `awaiting exit approval` stands back because its store says an exit is pending. The
store is flagged when a freeze-exit completes, and nothing unflags it; what the flag stands for is on chain,
written by two calls that may fail without throwing, one of which is not made at all where there is no
target, and ended by a depositor's approval.

`waits_only_for_a_pending_exit`: in every run in which each freeze-exit leaves an exit pending from a frozen
pool, and no tick follows the approval it was waiting for, the answer is true whenever it is given.
-/

namespace SoroSense
namespace Backend

open Session KeeperRunner Transition

variable {k : KeeperRunner} {c d : Currency} {input : RunTickInput} {w w' : World} {a : Action}
  {s t : Live × BucketStore}

/-! ## Runs of ticks over one store -/

inductive SharedLabel where
  | tick (currency : Currency) (input : RunTickInput)
  /-- Anybody's transaction, between two ticks. -/
  | others (action : Action)

/-- The two keeper writes that end or replace a pending exit are left to the ticks. -/
def SparesExits : Action → Prop
  | .vault _ (.unfreeze _)        => False
  | .vault _ (.proposeExit _ _ _) => False
  | _                             => True

/-- One tick with its own effects, however it ends, or one step of the chain. -/
def SharedStep (k : KeeperRunner) (s : Live × BucketStore) : SharedLabel → Live × BucketStore → Prop
  | .tick c input, t  => input.effects = none ∧ t = after (k.runTickOn c input) s
  | .others action, t => Step s.1.world action t.1.world ∧ SparesExits action ∧ t.2 = s.2

/-- An exit of the currency is pending, out of a frozen pool. -/
def Awaits (w : World) (c : Currency) : Prop :=
  ∃ x, Vault.pendingExit w c = some x ∧ w.vault.frozen x.fromPool = true

/-- The store says so only where it is so. -/
def Truthful (s : Live × BucketStore) (c : Currency) : Prop := s.2.pending c = true → Awaits s.1.world c

/-- A tick that answers that it waits has something to wait for. -/
def WaitsTruly (k : KeeperRunner) (e : Event (Live × BucketStore) SharedLabel) : Prop :=
  ∀ c input, e.label = .tick c input →
    returned (k.runTickOn c input) e.pre = some (.noop c AWAITING_EXIT) → Awaits e.post.1.world c

/-- What a freeze-exit has to bring about, from `s`: once the freeze resolves, either the proposal succeeds
    and the pool is frozen by then, or an exit from a frozen pool is pending without it. -/
def FilesExit (k : KeeperRunner) (c : Currency) (pool : PoolId) (toPool : Option PoolId) (s : Live) : Prop :=
  ∀ r₁ t, (k.submit (k.client.freeze pool)).run s = .ok r₁ t →
    match exitTarget toPool with
    | none        => Awaits t.world c
    | some target => ∀ r₂ u, (k.submit (k.client.proposeExit c pool target)).run t = .ok r₂ u →
        (r₂.success = true ∧ ∃ p, k.client.Names pool p ∧ t.world.vault.frozen p = true) ∨
          r₂.success = false ∧ Awaits t.world c

/-- Every freeze-exit decided by the tick brings it about. -/
def TickFilesExit (k : KeeperRunner) (e : Event (Live × BucketStore) SharedLabel) : Prop :=
  ∀ c input pool toPool, e.label = .tick c input →
    k.decision c input (e.pre.1.clock 0) e.pre.2 = .freezeExit c pool toPool →
    FilesExit k c pool toPool e.pre.1.ticked

/-- A depositor's approval executes the exit the store is flagged for. -/
def Approves (e : Event (Live × BucketStore) SharedLabel) (c : Currency) : Prop :=
  ∃ action x, e.label = .others action ∧ e.pre.2.pending c = true ∧
    executes ⟨e.pre.1.world, action, e.post.1.world⟩ = some (c, x)

/-- A currency is not ticked after such an approval. -/
def NoTickAfter (e e' : Event (Live × BucketStore) SharedLabel) : Prop :=
  ∀ c, Approves e c → ∀ input, e'.label ≠ .tick c input

/-! ## What keeps an exit pending -/

/-- **An exit stays pending from a frozen pool** across a step that files and executes none for its currency
    and unfreezes nothing. -/
theorem Awaits.step (h : w.WF) (hs : Step w a w') (hun : ∀ ids p, a ≠ .vault ids (.unfreeze p))
    (hp : ∀ x, proposes ⟨w, a, w'⟩ ≠ some (c, x)) (hx : ∀ x, executes ⟨w, a, w'⟩ ≠ some (c, x))
    (haw : Awaits w c) : Awaits w' c := by
  obtain ⟨x, hpend, hf⟩ := haw
  refine ⟨x, ?_, hs.frozen h hf (fun ids => hun ids _)⟩
  have hdesk := hs.desk h
  have hslot : w'.desk.slot c = w.desk.slot c := by
    unfold deskMove at hdesk
    cases hpr : proposes ⟨w, a, w'⟩ with
    | some y =>
        rw [hpr] at hdesk
        have hne : c ≠ y.1 := fun he => hp y.2 (by rw [hpr, he])
        exact (Tickets.Step.of_issue hdesk).2.2 c hne
    | none =>
        cases hex : executes ⟨w, a, w'⟩ with
        | some y =>
            rw [hpr, hex] at hdesk
            have hne : c ≠ y.1 := fun he => hx y.2 (by rw [hex, he])
            exact (Tickets.Step.of_redeem hdesk).2.2 c hne
        | none =>
            rw [hpr, hex] at hdesk
            rw [Tickets.Step.of_idle hdesk]
  exact hslot.trans hpend

/-- What a call of another currency's tick does to a well-formed ledger. -/
theorem holds_awaits (hcd : c ≠ d) : Holds (fun w w' => w.WF → w'.WF ∧ (Awaits w c → Awaits w' c)) d := by
  intro ids call w w' hcall hx h
  have hs : Step w (.vault ids call) w' := .done hx
  refine ⟨hs.wf h, fun haw => haw.step h hs ?_ ?_ ?_⟩
  · rintro ids' p he
    injection he with _ he
    subst he
    exact hcall
  · intro x hp
    cases call with
    | proposeExit e p q =>
        have he : e = d := hcall
        have hpe : proposes ⟨w, .vault ids (.proposeExit e p q), w'⟩ = _ := (proposes_of_exec hx).1
        rw [hpe] at hp
        exact hcd ((congrArg Prod.fst (Option.some.inj hp)).symm.trans he)
    | _ => exact absurd hp (by simp [proposes])
  · intro x hx'
    cases call with
    | approveExit u exitId => exact hcall
    | _                    => exact absurd hx' (by simp [executes])

/-! ## The ticks of the currency itself -/

/-- **A freeze-exit that files its exit** leaves one pending from a frozen pool. -/
theorem awaits_of_filesExit {pool : PoolId} {toPool : Option PoolId} {s u : Live}
    (hf : FilesExit k c pool toPool s) (hrun : (k.freezeExit c pool toPool).run s = .ok () u) :
    Awaits u.world c := by
  obtain ⟨r₁, t, h₁, hrest⟩ := freezeExit_eq_ok.mp hrun
  have hft := hf r₁ t h₁
  cases hto : exitTarget toPool with
  | none =>
      rw [hto] at hrest hft
      subst hrest
      exact hft
  | some target =>
      rw [hto] at hrest hft
      obtain ⟨r₂, h₂⟩ := hrest
      rcases hft r₂ u h₂ with ⟨hs, p, hp, hfrozen⟩ | ⟨hs, haw⟩
      · -- the proposal landed, out of the pool that was frozen before it
        obtain ⟨b⟩ := r₂
        subst hs
        obtain ⟨call, w, hl, rfl⟩ := landing_of_success h₂
        obtain ⟨p', q, signer, hp', _, hx⟩ := hl.proposeExit
        obtain rfl := k.client.names_unique hp hp'
        obtain ⟨_, _, rfl⟩ := Vault.proposeExit_eq_ok.mp hx
        refine ⟨⟨t.world.vault.exitCounter + 1, c, p, q⟩, ?_, hfrozen⟩
        show ((t.world.proposed c p q).bucket c).pendingExit = _
        rw [World.proposed, World.bucket_publish, World.bucket_updateBucket_self]
      · -- it was rejected, and the exit already pending stays
        obtain ⟨b⟩ := r₂
        subst hs
        rw [Awaits, world_of_submit_rejected h₂]
        exact haw

/-- The only decision that flags a currency is its own freeze-exit. -/
theorem pending_record {decided : Decision} {now : Option ℚ} {store : BucketStore}
    (hp : store.pending c = false) (hr : (decided.record now store).pending c = true) :
    ∃ pool toPool, decided = .freezeExit c pool toPool := by
  cases decided with
  | freezeExit e pool toPool =>
      by_cases he : c = e
      · exact ⟨pool, toPool, by rw [he]⟩
      · have hkeep : ((Decision.freezeExit e pool toPool).record now store).pending c = store.pending c :=
          Function.update_of_ne he ..
        rw [hkeep, hp] at hr
        exact absurd hr (by simp)
  | rebalance e source target =>
      have hkeep : ((Decision.rebalance e source target).record now store).pending = store.pending := by
        cases now <;> rfl
      rw [hkeep, hp] at hr
      exact absurd hr (by simp)
  | compound e pool => exact absurd (hp.symm.trans hr) (by simp)
  | noop e reason   => exact absurd (hp.symm.trans hr) (by simp)

/-- **A tick that waits leaves everything as it was.** -/
theorem waiting_tick (input : RunTickInput) (hp : s.2.pending c = true) :
    (k.runTickOn c input).run s = .ok (.noop c AWAITING_EXIT) (s.1.ticked, s.2) := by
  have hd : k.decision c input (s.1.clock 0) s.2 = .noop c AWAITING_EXIT :=
    classifyBucket_eq_awaiting.mpr ⟨rfl, hp⟩
  exact runTickOn_eq_ok.mpr ⟨hd, rfl, rfl⟩

/-- A tick waits only where the store is flagged. -/
theorem pending_of_waiting (h : returned (k.runTickOn c input) s = some (.noop c AWAITING_EXIT)) :
    s.2.pending c = true := by
  have hd := (runTickOn_eq_ok.mp (run_of_returned h)).1
  exact (classifyBucket_eq_awaiting.mp hd).2

/-- A tick of the currency itself. -/
theorem Truthful.own_tick (hown : input.effects = none) (hs : Truthful s c)
    (hf : ∀ pool toPool, k.decision c input (s.1.clock 0) s.2 = .freezeExit c pool toPool →
      FilesExit k c pool toPool s.1.ticked) : Truthful (after (k.runTickOn c input) s) c := by
  by_cases hp : s.2.pending c = true
  · -- it waits, and leaves everything as it was
    rw [after_of_ok (waiting_tick input hp)]
    exact hs
  · have hp' : s.2.pending c = false := Bool.not_eq_true _ ▸ hp
    cases hrun : (k.runTickOn c input).run s with
    | error message u =>
        rw [after_of_error hrun, Truthful, store_of_runAllocatorTick_error hrun]
        intro h
        exact absurd h hp
    | ok decided u =>
        rw [after_of_ok hrun]
        intro hflag
        obtain ⟨hd, hx, hu⟩ := runTickOn_eq_ok.mp hrun
        rw [hu] at hflag
        obtain ⟨pool, toPool, rfl⟩ := pending_record hp' hflag
        rw [effect_freezeExit hown] at hx
        exact awaits_of_filesExit (hf pool toPool hd) hx

/-- A tick of another currency. -/
theorem Truthful.other_tick (hw : s.1.world.WF) (hown : input.effects = none) (hcd : c ≠ d)
    (hs : Truthful s c) : Truthful (after (k.runTickOn d input) s) c := by
  intro hflag
  -- the tick flags no currency but its own
  have hbefore : s.2.pending c = true := by
    cases hrun : (k.runTickOn d input).run s with
    | error message u =>
        rw [after_of_error hrun, store_of_runAllocatorTick_error hrun] at hflag
        exact hflag
    | ok decided u =>
        rw [after_of_ok hrun] at hflag
        obtain ⟨hd, _, hu⟩ := runTickOn_eq_ok.mp hrun
        rw [hu] at hflag
        by_contra hp
        obtain ⟨pool, toPool, rfl⟩ := pending_record (Bool.not_eq_true _ ▸ hp) hflag
        have hc := currency_decision k d input (s.1.clock 0) s.2
        rw [hd] at hc
        exact hcd hc
  have hkeep := keeps_runTickOn (k := k) (R := fun w w' => w.WF → w'.WF ∧ (Awaits w c → Awaits w' c))
    (fun _ h => ⟨h, id⟩) (fun _ _ _ h₁ h₂ h => ⟨(h₂ (h₁ h).1).1, fun haw => (h₂ (h₁ h).1).2 ((h₁ h).2 haw)⟩)
    hown (holds_awaits hcd) s.1 s.2
  exact (hkeep hw).2 (hs hbefore)

/-- A transaction of somebody else's, which executes no exit the store is flagged for. -/
theorem Truthful.others (hw : s.1.world.WF) (hstep : Step s.1.world a t.1.world) (hspare : SparesExits a)
    (hstore : t.2 = s.2) (ha : ¬ Approves ⟨s, .others a, t⟩ c) (hs : Truthful s c) : Truthful t c := by
  intro hflag
  rw [hstore] at hflag
  apply (hs hflag).step hw hstep
  · rintro ids p rfl
    exact hspare
  · intro x hp
    cases a with
    | vault ids call =>
        cases call with
        | proposeExit e p q => exact hspare
        | _                 => exact absurd hp (by simp [proposes])
    | _ => exact absurd hp (by simp [proposes])
  · intro x hx
    exact ha ⟨a, x, rfl, hflag, hx⟩

/-! ## Whole runs -/

/-- The ledger stays reachable. -/
theorem SharedStep.reachable {l : SharedLabel} (h : Reachable Genesis Step s.1.world) (hs : SharedStep k s l t) :
    Reachable Genesis Step t.1.world := by
  cases l with
  | others action => exact h.tail hs.1
  | tick e input =>
      rw [hs.2]
      exact reachable_runTickOn hs.1 s.2 h

/-- **One step keeps the store's word** for a currency whose freeze-exits file their exit and whose exit
    nobody approves. -/
theorem Truthful.step {l : SharedLabel} (h : Reachable Genesis Step s.1.world) (hs : SharedStep k s l t)
    (hf : TickFilesExit k ⟨s, l, t⟩) (ha : ¬ Approves ⟨s, l, t⟩ c) (htrue : Truthful s c) : Truthful t c := by
  have hw := reachable_wf h
  cases l with
  | others action => exact htrue.others hw hs.1 hs.2.1 hs.2.2 ha
  | tick e input =>
      rw [hs.2]
      by_cases hce : c = e
      · subst hce
        exact htrue.own_tick hs.1 fun pool toPool hd => hf c input pool toPool rfl hd
      · exact htrue.other_tick hw hs.1 hce

/-- **A run keeps the store's word.** -/
theorem Truthful.run {tr : List (Event (Live × BucketStore) SharedLabel)}
    (h : Reachable Genesis Step s.1.world) (hr : Run (SharedStep k) s tr t)
    (hf : ∀ e ∈ tr, TickFilesExit k e) (ha : ∀ e ∈ tr, ¬ Approves e c) (htrue : Truthful s c) : Truthful t c := by
  -- the word of the store, carried with the chain's reachability
  have hkept := hr.invariant_under (I := fun x => Reachable Genesis Step x.1.world ∧ Truthful x c)
    (P := fun _ => True) (Q := fun e => TickFilesExit k e ∧ ¬ Approves e c)
    (fun x l y hx hs hq => ⟨trivial, hs.reachable hx.1, hx.2.step hx.1 hs hq.1 hq.2⟩) ⟨h, htrue⟩
    (fun e he => ⟨hf e he, ha e he⟩)
  exact hkept.1.2

/-- **A tick waits only for an exit that is pending from a frozen pool**: in every run over one store that
    starts in agreement with the chain, in which every freeze-exit decided files its exit, and no currency is
    ticked after a depositor approved the exit its store is flagged for. -/
theorem waits_only_for_a_pending_exit {s₀ : Live × BucketStore}
    {tr : List (Event (Live × BucketStore) SharedLabel)} (h : Reachable Genesis Step s₀.1.world)
    (hstore : ∀ c, Truthful s₀ c) (hr : Run (SharedStep k) s₀ tr s)
    (hf : ∀ e ∈ tr, TickFilesExit k e) (ha : tr.Pairwise NoTickAfter) : ∀ e ∈ tr, WaitsTruly k e := by
  intro e he c input hl hwait
  obtain ⟨tr₁, tr₂, rfl⟩ := List.append_of_mem he
  obtain ⟨m, hr₁, hr₂⟩ := hr.split
  cases hr₂ with
  | cons hs _ =>
      -- up to this tick nobody has approved the currency's exit
      have hna : ∀ e ∈ tr₁, ¬ Approves e c := by
        intro e' he' hap
        exact (List.pairwise_append.mp ha).2.2 e' he' _ List.mem_cons_self c hap input hl
      have htrue : Truthful m c :=
        Truthful.run h hr₁ (fun e' he' => hf e' (List.mem_append_left _ he')) hna (hstore c)
      have hflag := pending_of_waiting hwait
      have haw := htrue hflag
      obtain rfl : _ = SharedLabel.tick c input := hl
      rw [hs.2, after_of_ok (waiting_tick input hflag)]
      exact haw

/-! ## Waiting for nothing -/

/-- Half a deposit in `defindex-usdc`, and `sorosense-usd` allowlisted beside it. -/
def besideWorld : World :=
  (World.opening 1000 5000).after (setUpPool .usd (.contract 100) 1 1000 ++ joins 2 .usd 1000 ++
    [.vault [1] (.allocate (.contract 1) .usd 500), .deployPool 2 (.account 0) (.contract 100) 1000,
      .vault [0] (.setPoolAllowed (.contract 2) true)])

theorem besideWorld_reachable : Reachable Genesis Step besideWorld := (Genesis.opening (by decide)).reachable _

/-- The active pool is flagged, and there is a rival to exit to. -/
def alarmInput : RunTickInput := { rivalInput with activeAnomaly := true }

/-- What a tick on the flagged pool leaves. -/
def afterAlarm (s : Live × BucketStore) : Live × BucketStore :=
  after ((demoRunner 500).runTickOn .usd alarmInput) s

/-- Two ticks in a row on the flagged pool. -/
def alarms (s : Live × BucketStore) : List (Event (Live × BucketStore) SharedLabel) :=
  [⟨s, .tick .usd alarmInput, afterAlarm s⟩, ⟨afterAlarm s, .tick .usd alarmInput, afterAlarm (afterAlarm s)⟩]

theorem run_alarms (s : Live × BucketStore) :
    Run (SharedStep (demoRunner 500)) s (alarms s) (afterAlarm (afterAlarm s)) :=
  .cons ⟨rfl, rfl⟩ (.cons ⟨rfl, rfl⟩ (.nil _))

theorem truthful_pooledStore (s : Live) (c : Currency) : Truthful (s, pooledStore) c :=
  fun h => absurd h Bool.false_ne_true

/-- Every request reaches the chain. -/
def calmBeside : Live × BucketStore := (Live.calm besideWorld, pooledStore)

/-- Both writes of the freeze-exit land. -/
theorem filesExit_calmBeside :
    FilesExit (demoRunner 500) .usd "defindex-usdc" (some "sorosense-usd") calmBeside.1.ticked := by
  intro r₁ t h₁ r₂ u h₂
  have hfreeze : ((demoRunner 500).submit ((demoRunner 500).client.freeze "defindex-usdc")).run calmBeside.1.ticked
      = .ok ⟨true⟩ _ := run_of_returned (by decide +kernel)
  have hpair := hfreeze.symm.trans h₁
  injection hpair with _ ht
  subst ht
  have hpropose : ((demoRunner 500).submit ((demoRunner 500).client.proposeExit .usd "defindex-usdc"
      "sorosense-usd")).run (after ((demoRunner 500).submit ((demoRunner 500).client.freeze "defindex-usdc"))
        calmBeside.1.ticked) = .ok ⟨true⟩ _ := run_of_returned (by decide +kernel)
  have hpair := hpropose.symm.trans h₂
  injection hpair with hr _
  subst hr
  exact .inl ⟨rfl, .contract 1, ⟨_, rfl, by decide +kernel⟩, by decide +kernel⟩

theorem waits_only_for_a_pending_exit_calmBeside :
    returned ((demoRunner 500).runTickOn .usd alarmInput) (afterAlarm calmBeside) = some (.noop .usd AWAITING_EXIT) ∧
      ∀ e ∈ alarms calmBeside, WaitsTruly (demoRunner 500) e := by
  refine ⟨by decide +kernel, waits_only_for_a_pending_exit besideWorld_reachable
    (truthful_pooledStore (Live.calm besideWorld)) (run_alarms calmBeside) ?_ ?_⟩
  · intro e he c input pool toPool hl hd
    simp only [alarms, List.mem_cons, List.not_mem_nil, or_false] at he
    rcases he with rfl | rfl
    · injection hl with hc hi
      subst hc hi
      have hexit : (demoRunner 500).decision .usd alarmInput (calmBeside.1.clock 0) calmBeside.2
          = .freezeExit .usd "defindex-usdc" (some "sorosense-usd") := by decide +kernel
      have hsame := hexit.symm.trans hd
      injection hsame with _ hpool hto
      subst hpool hto
      exact filesExit_calmBeside
    · injection hl with hc hi
      subst hc hi
      have hwait : (demoRunner 500).decision .usd alarmInput ((afterAlarm calmBeside).1.clock 0)
          (afterAlarm calmBeside).2 = .noop .usd AWAITING_EXIT := by decide +kernel
      exact absurd (hwait.symm.trans hd) (by simp)
  · apply List.pairwise_pair.mpr
    rintro c ⟨action, x, hl, _⟩
    exact absurd hl (by simp)

/-- No write is ever finalized. -/
def rejectedBeside : Live × BucketStore :=
  ({ Live.calm besideWorld with replies := fun _ => .rejected }, pooledStore)

/-- The depositor approves the exit the first tick proposed. -/
def approval : Action := .vault [2] (.approveExit (.account 2) 1)

def approvedBeside : Live × BucketStore :=
  ({ (afterAlarm calmBeside).1 with world := (afterAlarm calmBeside).1.world.after [approval] },
    (afterAlarm calmBeside).2)

/-- A tick, the approval, another tick. -/
def approvedRun : List (Event (Live × BucketStore) SharedLabel) :=
  [⟨calmBeside, .tick .usd alarmInput, afterAlarm calmBeside⟩,
    ⟨afterAlarm calmBeside, .others approval, approvedBeside⟩,
    ⟨approvedBeside, .tick .usd alarmInput, afterAlarm approvedBeside⟩]

theorem run_approvedRun :
    Run (SharedStep (demoRunner 500)) calmBeside approvedRun (afterAlarm approvedBeside) := by
  have happrove : (afterAlarm calmBeside).1.world.Accepts [approval] := by decide +kernel
  exact .cons ⟨rfl, rfl⟩ (.cons ⟨.done happrove.exec, trivial, rfl⟩ (.cons ⟨rfl, rfl⟩ (.nil _)))

/-- A tick that waits with no exit pending. -/
theorem not_waitsTruly {e : Event (Live × BucketStore) SharedLabel} (hl : e.label = .tick c input)
    (hwait : returned (k.runTickOn c input) e.pre = some (.noop c AWAITING_EXIT))
    (hnone : (Vault.pendingExit e.post.1.world c).isSome = false) : ¬ WaitsTruly k e := by
  intro h
  obtain ⟨x, hx, _⟩ := h c input hl hwait
  rw [hx] at hnone
  exact absurd hnone (by simp)

/-- After a freeze and a proposal that the chain rejected, and after an exit that was approved, the next
    tick waits for an approval with no exit pending. -/
theorem waits_for_nothing :
    Reachable Genesis Step besideWorld ∧ (∀ s c, Truthful (s, pooledStore) c) ∧
      (Run (SharedStep (demoRunner 500)) rejectedBeside (alarms rejectedBeside)
          (afterAlarm (afterAlarm rejectedBeside)) ∧
        ¬ ∀ e ∈ alarms rejectedBeside, WaitsTruly (demoRunner 500) e) ∧
      (Run (SharedStep (demoRunner 500)) calmBeside approvedRun (afterAlarm approvedBeside) ∧
        ¬ ∀ e ∈ approvedRun, WaitsTruly (demoRunner 500) e) := by
  refine ⟨besideWorld_reachable, truthful_pooledStore, ⟨run_alarms _, fun h => ?_⟩, ⟨run_approvedRun, fun h => ?_⟩⟩
  · exact not_waitsTruly rfl (by decide +kernel) (by decide +kernel)
      (h _ (List.mem_cons_of_mem _ List.mem_cons_self))
  · exact not_waitsTruly rfl (by decide +kernel) (by decide +kernel)
      (h _ (List.mem_cons_of_mem _ (List.mem_cons_of_mem _ List.mem_cons_self)))

end Backend
end SoroSense
