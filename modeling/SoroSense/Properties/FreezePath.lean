import SoroSense.Backend.SentinelFreeze
import SoroSense.Backend.RunnerSpec
import SoroSense.Properties.SharePrice

/-!
# `Properties.FreezePath` — the freeze path over any number of calls

The freeze path is called again and again, for one pool or another, while others use the vault; an answer may be
lost, and a freeze that nobody waits for any more may still be included. Whatever happens, it only freezes:

* **`freeze_path_protects`** — what the others' actions and a freeze keep is kept, a call submits its one freeze as
  often as it may try and no more, and a pool that was reported frozen stays so unless others unfreeze it.
-/

namespace SoroSense.Backend

open Fallible Transition Courier Session

variable {deps : FreezeDeps} {φ : Action → Prop} {p q : Post World SignedCall} {R : World → World → Prop}
  {pool : PoolId} {a : SoroSense.Address}

/-- The vault after a freeze that was accepted. -/
def frozenWorld (w : World) (a : SoroSense.Address) : World := (Vault.setFrozen w a true).publish (.frozen a)

/-- The others' actions keep it, and a freeze keeps it. -/
structure Preserved (deps : FreezeDeps) (φ : Action → Prop) (R : World → World → Prop) : Prop where
  refl   : ∀ w, R w w
  trans  : ∀ u v w, R u v → R v w → R u w
  others : ∀ w o, w.WF → φ o → R w (deps.vault.wire.act w o)
  freeze : ∀ w a, R w (frozenWorld w a)

/-- Nothing but freezes is open. -/
def FreezesOnly (deps : FreezeDeps) (l : List SignedCall) : Prop := ∀ tx ∈ l, ∃ a, tx = deps.call a

/-! ## The ledger along a run -/

theorem accept_freeze {w w' : World} (h : deps.vault.wire.accept w (deps.call a) = .ok w') :
    w' = frozenWorld w a :=
  (Vault.freeze_eq_ok.mp (accept_wire.mp h)).2.symm

/-- **A step of the courier keeps it.** -/
theorem Preserved.step (h : Preserved deps φ R) {x : Option SignedCall} (hw : p.ledger.WF)
    (hopen : FreezesOnly deps (p.pending ++ x.toList)) (hs : Courier.Step deps.vault.wire φ p x q) :
    R p.ledger q.ledger ∧ q.ledger.WF ∧ FreezesOnly deps q.pending := by
  have haccepted : ∀ tx w', (∃ a, tx = deps.call a) → deps.vault.wire.accept p.ledger tx = .ok w' →
      R p.ledger w' ∧ w'.WF := by
    rintro tx w' ⟨a, rfl⟩ haccept
    refine ⟨?_, (step_of_accept haccept).wf hw⟩
    rw [accept_freeze haccept]
    exact h.freeze _ _
  cases hs with
  | @other o ho =>
      have hstep : Step p.ledger o (deps.vault.wire.act p.ledger o) := act_wire o
      exact ⟨h.others _ _ hw ho, hstep.wf hw, fun tx htx => hopen tx (by simp [htx])⟩
  | @settled i t s hi hs =>
      obtain ⟨hR, hwf⟩ := haccepted t s (hopen t (by simp [List.mem_of_getElem? hi])) hs
      exact ⟨hR, hwf, fun tx htx => hopen tx (by simp [List.mem_of_mem_eraseIdx htx])⟩
  | @expired i => exact ⟨h.refl _, hw, fun tx htx => hopen tx (by simp [List.mem_of_mem_eraseIdx htx])⟩
  | @landed t s hs =>
      obtain ⟨hR, hwf⟩ := haccepted t s (hopen t (by simp)) hs
      exact ⟨hR, hwf, fun tx htx => hopen tx (by simp [htx])⟩
  | waits => exact ⟨h.refl _, hw, fun tx htx => hopen tx htx⟩
  | gone  => exact ⟨h.refl _, hw, fun tx htx => hopen tx (by simp [htx])⟩

/-- **So does a run that submits freezes only.** -/
theorem Preserved.run (h : Preserved deps φ R) {tr : List (Event (Post World SignedCall) (Option SignedCall))}
    (hr : Run (Courier.Step deps.vault.wire φ) p tr q) (hw : p.ledger.WF)
    (hopen : FreezesOnly deps (p.pending ++ submitted tr)) :
    R p.ledger q.ledger ∧ q.ledger.WF ∧ FreezesOnly deps q.pending := by
  induction hr with
  | nil p => exact ⟨h.refl _, hw, fun tx htx => hopen tx (by simp [htx])⟩
  | @cons p m q x tr hs _ ih =>
      have hsub : submitted (⟨p, x, m⟩ :: tr) = x.toList ++ submitted tr := by
        unfold submitted
        cases x <;> rfl
      rw [hsub] at hopen
      obtain ⟨hR, hm, hpend⟩ := h.step hw (fun tx htx => hopen tx (by
        rw [← List.append_assoc]
        exact List.mem_append_left _ htx)) hs
      obtain ⟨hR', hwf, hlast⟩ := ih hm fun tx htx => by
        rcases List.mem_append.mp htx with htx | htx
        · exact hpend tx htx
        · exact hopen tx (by simp [htx])
      exact ⟨h.trans _ _ _ hR hR', hwf, hlast⟩

/-! ## Call after call -/

/-- What happens around the freeze path: a call of it, or something in between. -/
inductive Watch where
  | call (pool : PoolId) (weather : ℕ → Weather Action)
  | between (d : Deed Action)

inductive Watched (deps : FreezeDeps) (φ : Action → Prop) (p : Post World SignedCall) :
    Watch → Post World SignedCall → Prop where
  | called {pool : PoolId} {weather : ℕ → Weather Action} (hfair : Net.Fair φ (⟨p, weather⟩ : Wire)) :
      Watched deps φ p (.call pool weather) (after (deps.freezePool pool) ⟨p, weather⟩).post
  | between {d : Deed Action} (h : ∀ o, d = .other o → φ o) : Watched deps φ p (.between d) (p.deed deps.vault.wire d)

/-- What a call may submit: the freeze of the pool that its slug names, once an attempt. -/
def FreezeDeps.budget (deps : FreezeDeps) (pool : PoolId) : List SignedCall :=
  match deps.vault.poolTarget pool with
  | .ok a    => List.replicate deps.attempts (deps.call a)
  | .error _ => []

theorem sends_budget (pool : PoolId) : Sends deps.vault.wire φ (deps.budget pool) (deps.freezePool pool) := by
  unfold FreezeDeps.budget
  cases hp : deps.vault.poolTarget pool with
  | ok a =>
      have hnamed := poolTarget_eq_ok.mp hp
      exact sends_freezePool fun q hq => deps.vault.names_unique hq hnamed
  | error message =>
      -- the status cannot be asked for
      intro n hn
      show Trail _ _ [] n (after (deps.freezePool pool) n)
      unfold FreezeDeps.freezePool VaultClient.askPoolStatus
      rw [hp]
      by_cases hrole : deps.keeper.role = .keeper
      · rw [if_neg (not_not.mpr hrole)]
        exact .refl hn
      · rw [if_pos hrole]
        exact .refl hn

/-- Each deed is a run of the courier that submits no more than its budget. -/
theorem Watched.run {d : Watch} (h : Watched deps φ p d q) :
    ∃ tr, Run (Courier.Step deps.vault.wire φ) p tr q ∧
      (submitted tr).Sublist (match d with | .call pool _ => deps.budget pool | .between _ => []) := by
  cases h with
  | called hfair => exact (sends_budget _ _ hfair).run
  | between ho =>
      obtain ⟨tr, hr, hsub⟩ := run_meanwhile (r := deps.vault.wire) (p := p) (l := [_]) fun o ho' =>
        ho o (List.mem_singleton.mp ho').symm
      exact ⟨tr, hr, hsub ▸ List.Sublist.refl _⟩

theorem freezesOnly_budget (pool : PoolId) : FreezesOnly deps (deps.budget pool) := by
  unfold FreezeDeps.budget
  split
  · intro tx htx
    exact ⟨_, List.eq_of_mem_replicate htx⟩
  · exact fun tx htx => absurd htx List.not_mem_nil

theorem Preserved.watched (h : Preserved deps φ R) {d : Watch} (hs : Watched deps φ p d q) (hw : p.ledger.WF)
    (hopen : FreezesOnly deps p.pending) : R p.ledger q.ledger ∧ q.ledger.WF ∧ FreezesOnly deps q.pending := by
  obtain ⟨tr, hr, hsub⟩ := hs.run
  refine h.run hr hw fun tx htx => ?_
  rcases List.mem_append.mp htx with htx | htx
  · exact hopen tx htx
  · cases d with
    | call pool weather => exact freezesOnly_budget pool tx (hsub.subset htx)
    | between d         => exact absurd (hsub.subset htx) List.not_mem_nil

theorem Preserved.watched_run (h : Preserved deps φ R) {tr : List (Event (Post World SignedCall) Watch)}
    (hr : Run (Watched deps φ) p tr q) (hw : p.ledger.WF) (hopen : FreezesOnly deps p.pending) :
    R p.ledger q.ledger ∧ q.ledger.WF ∧ FreezesOnly deps q.pending := by
  induction hr with
  | nil p => exact ⟨h.refl _, hw, hopen⟩
  | cons hs _ ih =>
      obtain ⟨hR, hm, hpend⟩ := h.watched hs hw hopen
      obtain ⟨hR', hwf, hlast⟩ := ih hm hpend
      exact ⟨h.trans _ _ _ hR hR', hwf, hlast⟩

/-! ## A call that is answered -/

/-- An action that does not replace the vault's keeper. -/
def KeepsKeeper (deps : FreezeDeps) (o : Action) : Prop :=
  ∀ w, (deps.vault.wire.act w o).vault.keeper = w.vault.keeper

theorem preserved_keeper : Preserved deps (KeepsKeeper deps) fun w w' => w'.vault.keeper = w.vault.keeper where
  refl _            := rfl
  trans _ _ _ h h'  := h'.trans h
  others w _ _ ho   := ho w
  freeze _ _        := rfl

/-- What happens before a request arrives keeps it. -/
theorem Preserved.arrival (h : Preserved deps φ R) {n : Wire} (hfair : n.Fair φ) (hw : n.post.ledger.WF)
    (hopen : FreezesOnly deps n.post.pending) :
    R n.post.ledger (n.arrival deps.vault.wire).ledger ∧ (n.arrival deps.vault.wire).ledger.WF ∧
      FreezesOnly deps (n.arrival deps.vault.wire).pending := by
  obtain ⟨tr, hr, hsub⟩ := run_meanwhile (r := deps.vault.wire) (p := n.post) fun o ho => hfair 0 o ho
  exact h.run hr hw (by rwa [hsub, List.append_nil])

/-- The keeper of the vault freezes at its first attempt when every request is answered and nobody replaces it. -/
theorem freezePool_answered {n : Wire} (h : n.Answered) (hfair : n.Fair (KeepsKeeper deps)) (hw : n.post.ledger.WF)
    (hopen : FreezesOnly deps n.post.pending) (hrole : deps.keeper.role = .keeper)
    (hkeeper : n.post.ledger.vault.keeper = .account deps.keeper.account) (ha : deps.vault.Names pool a)
    (hretries : 0 ≤ deps.retries) :
    ∃ outcome n', (deps.freezePool pool).run n = .ok (outcome, []) n' ∧ outcome.Says := by
  -- the status is read when the first request arrives
  obtain ⟨hsame, hw₁, hopen₁⟩ := preserved_keeper.arrival hfair hw hopen
  generalize hp : n.arrival deps.vault.wire = p₁ at hsame hw₁ hopen₁
  have hask : (deps.vault.askPoolStatus pool).run n = .ok (Vault.poolStatus p₁.ledger a) (n.next p₁) := by
    unfold VaultClient.askPoolStatus
    rw [poolTarget_eq_ok.mpr ha, ← hp]
    exact (run_ask_answered_eq_ok h).mpr ⟨rfl, rfl⟩
  unfold FreezeDeps.freezePool
  rw [if_neg (not_not.mpr hrole), run_bind_of_ok hask]
  by_cases hfrozen : Vault.poolStatus p₁.ledger a = .frozen
  · rw [if_pos hfrozen]
    exact ⟨.alreadyFrozen pool, _, rfl, trivial⟩
  · rw [if_neg hfrozen]
    have hanswered := h.next p₁
    obtain ⟨address, haddr, hparse⟩ := ha
    have htx : deps.vault.freeze pool = .ok ⟨.keeper, do
        let p ← deps.vault.strkey.parse address
        .ok (.freeze p)⟩ := by
      unfold VaultClient.freeze VaultClient.poolWrite
      rw [haddr]
      rfl
    -- the freeze arrives later, at a vault with the same keeper
    obtain ⟨hsame₂, -, -⟩ := preserved_keeper.arrival (n := n.next p₁) (fun k o ho => hfair (k + 1) o ho) hw₁ hopen₁
    generalize hp₂ : (n.next p₁).arrival deps.vault.wire = p₂ at hsame₂
    have hstill : p₂.ledger.vault.keeper = .account deps.keeper.account := (hsame₂.trans hsame).trans hkeeper
    have haccept : deps.vault.wire.accept p₂.ledger (deps.call a) = .ok (frozenWorld p₂.ledger a) :=
      accept_wire.mpr (Vault.freeze_eq_ok.mpr ⟨by rw [hstill]; exact decide_eq_true List.mem_cons_self, rfl⟩)
    obtain ⟨txHash, hsend⟩ := run_send_answered (r := deps.vault.wire) (t := deps.call a) hanswered
    rw [hp₂] at hsend
    have hsubmit : (deps.submitFreeze pool).run (n.next p₁) = .ok (.ok txHash)
        ((n.next p₁).next (p₂.lands (frozenWorld p₂.ledger a) (deps.call a))) := by
      unfold FreezeDeps.submitFreeze
      rw [run_bind_of_ok (run_lift_eq_ok.mpr ⟨htx, rfl⟩)]
      unfold VaultClient.submitTx
      rw [if_neg (not_not.mpr hrole), hparse]
      exact run_bind_of_ok (hsend haccept)
    obtain ⟨k, hk⟩ : ∃ k, deps.attempts = k + 1 := ⟨deps.retries.toNat, by unfold FreezeDeps.attempts; omega⟩
    obtain ⟨n', hloop⟩ : ∃ n', (deps.freezeLoop pool deps.attempts "unknown error").run (n.next p₁) =
        .ok (.ok txHash) n' := by
      rw [hk]
      unfold FreezeDeps.freezeLoop
      exact ⟨_, run_bind_of_ok (run_tryCatch_of_ok hsubmit)⟩
    exact ⟨.frozen pool txHash, _, run_bind_of_ok hloop, trivial⟩

/-- Staying frozen is kept, if others do not unfreeze. -/
theorem preserved_frozen (a : SoroSense.Address) (h : ∀ w o, φ o → Vault.poolStatus w a = .frozen →
    Vault.poolStatus (deps.vault.wire.act w o) a = .frozen) :
    Preserved deps φ fun w w' => Vault.poolStatus w a = .frozen → Vault.poolStatus w' a = .frozen where
  refl _           := id
  trans _ _ _ f g  := g ∘ f
  others w o _ ho  := h w o ho
  freeze w b hw    := by
    unfold frozenWorld Vault.poolStatus Vault.setFrozen at *
    by_cases hb : a = b
    · subst hb
      exact if_pos (Function.update_self ..)
    · show (if Function.update w.vault.frozen b true a = true then Vault.PoolStatus.frozen else .active) = .frozen
      rw [Function.update_of_ne hb]
      exact hw

/-- **The freeze path only freezes.** From any reachable vault with nothing but freezes open, however often it is
    called for whatever pools, whatever the network loses or delays and whatever others do meanwhile:
    what a freeze and the others' actions keep is kept; each call leads to no more submissions than its attempts,
    all of them the freeze of its pool; a pool that a call reported frozen is still frozen, if the others' actions do
    not unfreeze it; and a call by the vault's keeper that may try, every request of which is answered while nobody
    replaces the keeper, reports its pool frozen without an alert. -/
theorem freeze_path_protects {tr : List (Event (Post World SignedCall) Watch)}
    (hstart : Reachable Genesis SoroSense.Step p.ledger) (hopen : FreezesOnly deps p.pending)
    (hr : Run (Watched deps φ) p tr q) :
    (∀ R, Preserved deps φ R → R p.ledger q.ledger) ∧
      (∀ e ∈ tr, ∀ pool weather, e.label = .call pool weather →
        (e.post.landed ++ e.post.pending).Subperm (e.pre.landed ++ e.pre.pending ++ deps.budget pool)) ∧
      (∀ tr₁ e tr₂, tr = tr₁ ++ e :: tr₂ → ∀ pool weather outcome alerts n', e.label = .call pool weather →
        (deps.freezePool pool).run ⟨e.pre, weather⟩ = .ok (outcome, alerts) n' → outcome.Says →
        ∃ a, deps.vault.Names pool a ∧
          ((∀ w o, φ o → Vault.poolStatus w a = .frozen → Vault.poolStatus (deps.vault.wire.act w o) a = .frozen) →
            Vault.poolStatus q.ledger a = .frozen)) ∧
      ∀ e ∈ tr, ∀ pool weather a, e.label = .call pool weather → Net.Answered (⟨e.pre, weather⟩ : Wire) →
        Net.Fair (KeepsKeeper deps) (⟨e.pre, weather⟩ : Wire) →
        deps.vault.Names pool a → deps.keeper.role = .keeper → 0 ≤ deps.retries →
        e.pre.ledger.vault.keeper = .account deps.keeper.account →
        ∃ outcome n', (deps.freezePool pool).run ⟨e.pre, weather⟩ = .ok (outcome, []) n' ∧ outcome.Says := by
  have hw := reachable_wf hstart
  have hany : Preserved deps φ fun _ _ => True := ⟨fun _ => trivial, fun _ _ _ _ _ => trivial,
    fun _ _ _ _ => trivial, fun _ _ => trivial⟩
  refine ⟨fun R hR => (hR.watched_run hr hw hopen).1, fun e he pool weather hlabel => ?_, ?_, ?_⟩
  · have hs := hr.forall_step e he
    rw [hlabel] at hs
    obtain ⟨tr', hrun, hsub⟩ := hs.run
    exact (run_subperm hrun).trans ((List.Sublist.refl _).append hsub).subperm
  · intro tr₁ e tr₂ htr pool weather outcome alerts n' hlabel hrun hsays
    rw [htr] at hr
    obtain ⟨m, hbefore, hafter⟩ := hr.split
    cases hafter with
    | @cons _ m' _ d _ hs hrest =>
        cases hlabel
        cases hs with
        | called hfair =>
            obtain ⟨_, a, ha, hfrozen⟩ := (freezePool_outcome hfair hrun).1 hsays
            refine ⟨a, ha, fun hothers => ?_⟩
            -- what held when the call returned is kept to the end
            obtain ⟨_, hwm, hopenm⟩ := hany.watched_run (hbefore.append (.single (.called hfair))) hw hopen
            rw [after_of_ok hrun] at hwm hopenm hrest
            exact ((preserved_frozen a hothers).watched_run hrest hwm hopenm).1 hfrozen
  · intro e he pool weather a _ hanswered hfair ha hrole hretries hkeeper
    -- only freezes are open when the call is made
    obtain ⟨tr₁, tr₂, rfl⟩ := List.append_of_mem he
    obtain ⟨m, hbefore, hafter⟩ := hr.split
    cases hafter with
    | cons _ _ =>
        obtain ⟨-, hwm, hopenm⟩ := hany.watched_run hbefore hw hopen
        exact freezePool_answered hanswered hfair hwm hopenm hrole hkeeper ha hretries

/-! ## A lost answer -/

/-- Account 1 is the keeper of the demo vault. -/
def demoFreeze : FreezeDeps where
  vault      := demoClient
  keeper     := ⟨.keeper, 1⟩
  maxRetries := none

/-- A vault with a deposit at work in the demo pool. -/
def watchedVault : Post World SignedCall := ⟨(World.opening 1000 5000).after yieldRun, [], []⟩

/-- The answer to the first submission is lost. -/
def firstLost : ℕ → Weather Action := fun i => ⟨[], if i = 1 then .lost "timeout" else .confirmed "hash"⟩

def afterLost : Post World SignedCall := (after (demoFreeze.freezePool "defindex-usdc") ⟨watchedVault, firstLost⟩).post

/-- The pool is frozen twice, and no token has moved. -/
theorem freeze_path_protects_lost :
    afterLost.landed = [demoFreeze.call (.contract 1), demoFreeze.call (.contract 1)] ∧
      afterLost.ledger.tokens = watchedVault.ledger.tokens := by
  have hstart : Reachable Genesis SoroSense.Step ((World.opening 1000 5000).after yieldRun) :=
    (Genesis.opening (by decide)).reachable yieldRun
  have hfair : Net.Fair (fun _ => False) (⟨watchedVault, firstLost⟩ : Wire) := fun _ _ ho => absurd ho List.not_mem_nil
  have hrun : Run (Watched demoFreeze fun _ => False) watchedVault
      [⟨watchedVault, .call "defindex-usdc" firstLost, afterLost⟩] afterLost := .single (.called hfair)
  have hsafe := freeze_path_protects hstart (fun tx htx => absurd htx List.not_mem_nil) hrun
  have htokens : Preserved demoFreeze (fun _ => False) fun w w' => w'.tokens = w.tokens :=
    ⟨fun _ => rfl, fun _ _ _ h h' => h'.trans h, fun _ _ _ ho => ho.elim, fun _ _ => rfl⟩
  exact ⟨by decide +kernel, hsafe.1 _ htokens⟩

end SoroSense.Backend
