import SoroSense.Flags
import SoroSense.Lib.Tickets
import SoroSense.Properties.Exit

/-!
# `Properties.Proposals` — exit proposals are one-shot

The exit counter and the three pending slots are a ticket desk (`World.desk`): filing a proposal issues the
next ticket for its currency, executing it redeems the ticket, and every other step leaves the desk alone
(`Step.desk`). A run of the vault is thereby a run of `Lib.Tickets`, whose rules say the rest.
-/

namespace SoroSense

open Fallible Transition

/-- The exit counter and the pending proposals. -/
def World.desk (w : World) : Tickets.Desk Currency Vault.ExitProposal :=
  ⟨w.vault.exitCounter, fun c => (w.bucket c).pendingExit⟩

/-- The step takes effect. -/
def accepted (e : Event World Action) : Bool := (e.label.exec e.pre).isOk

/-- The proposal a `propose_exit` records, with its currency. -/
def proposes (e : Event World Action) : Option (Currency × Vault.ExitProposal) :=
  match e.label with
  | .vault _ (.proposeExit c _ _) =>
      if accepted e then (e.post.bucket c).pendingExit.map fun x => (c, x) else none
  | _ => none

/-- The proposal an `approve_exit` executes: the one `find_exit` gives it. -/
def executes (e : Event World Action) : Option (Currency × Vault.ExitProposal) :=
  match e.label with
  | .vault _ (.approveExit _ exitId) => if accepted e then Vault.findExit e.pre exitId else none
  | _ => none

/-- The id recorded. -/
def proposedId (e : Event World Action) : Option Nat := (proposes e).map fun x => x.2.id

/-- The id executed. -/
def executedId (e : Event World Action) : Option Nat := (executes e).map fun x => x.2.id

/-- What a step does at the desk. -/
def deskMove (e : Event World Action) : Tickets.Move Currency Vault.ExitProposal :=
  match proposes e, executes e with
  | some (c, x), _    => .issue c x
  | none, some (c, x) => .redeem c x
  | none, none        => .idle

variable {w w' w₀ : World} {a : Action} {ids : List Nat} {c d : Currency} {u p q token : Address}
  {x y : Vault.ExitProposal} {tr tr₁ tr₂ : List (Event World Action)} {e : Event World Action}

/-! ## One step at the desk -/

theorem World.desk_eq (hc : w'.vault.exitCounter = w.vault.exitCounter)
    (hp : ∀ d, (w'.bucket d).pendingExit = (w.bucket d).pendingExit) : w'.desk = w.desk := by
  unfold World.desk
  rw [hc, funext hp]

/-- The call neither files nor executes a proposal. -/
def Vault.Call.OffDesk : Vault.Call → Prop
  | .proposeExit _ _ _ => False
  | .approveExit _ _   => False
  | _                  => True

/-- **A call that neither files nor executes leaves the desk alone.** -/
theorem Vault.Call.desk_eq (h : w.WF) {call : Vault.Call}
    (hx : (Action.vault ids call).exec w = .ok w') (hoff : call.OffDesk) : w'.desk = w.desk := by
  cases Effect.of_call h hx with
  | reverted _     => rfl
  | quiet _ q      => exact World.desk_eq q.exitCounter (fun d => by rw [q.bucket])
  | tokenSet       => exact World.desk_eq rfl (fun _ => World.bucketField_updateBucket _ rfl)
  | poolConfigured => exact World.desk_eq rfl (fun _ => World.bucketField_updateBucket _ rfl)
  | proposed       => exact absurd hoff id
  | exited _       => exact absurd hoff id
  | deposited _    => exact World.desk_eq rfl (fun _ => World.bucketField_deposited Vault.Bucket.pendingExit rfl)
  | @redeemed _ u c shares assets token g =>
      -- the burn, each pull and the payment keep both
      have hpulls : (w.liquidated u c shares assets).desk = (w.updateBucket c (·.burned u shares)).desk :=
        (g.plan h).const World.desk (g.burned_wf h) (fun _ _ _ => World.desk_eq rfl (fun _ =>
          World.bucketField_pulled Vault.Bucket.pendingExit (fun _ => rfl)))
      have hburn : (w.updateBucket c (·.burned u shares)).desk = w.desk :=
        World.desk_eq rfl (fun _ => World.bucketField_updateBucket Vault.Bucket.pendingExit rfl)
      have hpaid : (w.redeemed u c shares assets token).desk = (w.liquidated u c shares assets).desk :=
        World.desk_eq rfl (fun _ => World.bucketField_paidOut Vault.Bucket.pendingExit rfl)
      rw [hpaid, hpulls, hburn]
  | allocated _   =>
      exact World.desk_eq rfl (fun _ => World.bucketField_supplied Vault.Bucket.pendingExit rfl)
  | deallocated _ =>
      exact World.desk_eq rfl (fun _ => World.bucketField_pulled Vault.Bucket.pendingExit (fun _ => rfl))

/-- Filing a proposal issues the next ticket. -/
theorem World.desk_proposed : (w.proposed c p q).desk
    = ⟨w.vault.exitCounter + 1,
        Function.update w.desk.slot c (some ⟨w.vault.exitCounter + 1, c, p, q⟩)⟩ := by
  have hslot : (w.proposed c p q).desk.slot
      = Function.update w.desk.slot c (some ⟨w.vault.exitCounter + 1, c, p, q⟩) := by
    funext d
    show ((w.proposed c p q).bucket d).pendingExit = _
    rw [World.proposed, World.bucket_publish, World.bucket_updateBucket]
    by_cases hd : d = c
    · subst hd
      rw [if_pos rfl, Function.update_self]
    · rw [if_neg hd, Function.update_of_ne hd]
      rfl
  rw [← hslot]
  rfl

/-- Executing one closes its slot and touches no other. -/
theorem World.desk_exited : (w.exited c x token).desk
    = ⟨w.vault.exitCounter, Function.update w.desk.slot c none⟩ := by
  have hslot : (w.exited c x token).desk.slot = Function.update w.desk.slot c none := by
    funext d
    show ((w.exited c x token).bucket d).pendingExit = _
    rw [World.exited, World.bucket_publish, World.bucket_updateBucket]
    by_cases hd : d = c
    · subst hd
      rw [if_pos rfl, Function.update_self]
      rfl
    · rw [if_neg hd, Function.update_of_ne hd, World.bucketField_supplied Vault.Bucket.pendingExit rfl,
        World.bucketField_pulled Vault.Bucket.pendingExit (fun _ => rfl)]
      rfl
  rw [← hslot]
  rfl

theorem accepted_of_exec (hx : a.exec w = .ok w') : accepted ⟨w, a, w'⟩ = true := by
  show (a.exec w).isOk = true
  rw [hx]
  rfl

theorem not_accepted_of_exec {e : Panic} (hx : a.exec w = .error e) : accepted ⟨w, a, w'⟩ = false := by
  show (a.exec w).isOk = false
  rw [hx]
  rfl

/-- A step that panics files and executes nothing. -/
theorem deskMove_of_reverted (hx : accepted e = false) : proposes e = none ∧ executes e = none := by
  unfold proposes executes
  rw [hx]
  constructor
  · split <;> rfl
  · split <;> rfl

/-- What an accepted `propose_exit` records. -/
theorem proposes_of_exec (hx : (Action.vault ids (.proposeExit c p q)).exec w = .ok w') :
    proposes ⟨w, .vault ids (.proposeExit c p q), w'⟩ = some (c, ⟨w.vault.exitCounter + 1, c, p, q⟩) ∧
      w' = w.proposed c p q := by
  have hacc := accepted_of_exec hx
  obtain ⟨_, _, rfl⟩ := Vault.proposeExit_eq_ok.mp hx
  refine ⟨?_, rfl⟩
  have hslot : ((w.proposed c p q).bucket c).pendingExit = some ⟨w.vault.exitCounter + 1, c, p, q⟩ := by
    rw [World.proposed, World.bucket_publish, World.bucket_updateBucket_self]
  simp only [proposes, hacc, if_true, hslot, Option.map_some]

/-- What an accepted `approve_exit` executes. -/
theorem executes_of_exec (h : w.WF) {exitId : Nat}
    (hx : (Action.vault ids (.approveExit u exitId)).exec w = .ok w') :
    ∃ c x token, executes ⟨w, .vault ids (.approveExit u exitId), w'⟩ = some (c, x) ∧
      x.id = exitId ∧ w.desk.slot c = some x ∧ w' = w.exited c x token := by
  have hacc := accepted_of_exec hx
  obtain ⟨c, x, token, g, rfl⟩ := (Vault.approveExit_eq_ok h).mp hx
  obtain ⟨hpend, hid⟩ := Vault.pending_of_findExit g.found
  exact ⟨c, x, token, by simp only [executes, hacc, if_true, g.found], hid, hpend, rfl⟩

/-- **Every step of the vault is a move at the desk.** -/
theorem Step.desk (h : w.WF) (hs : Step w a w') :
    Tickets.Step (·.id) w.desk (deskMove ⟨w, a, w'⟩) w'.desk := by
  have hidle : ∀ v : World, v.desk = w.desk → proposes ⟨w, a, w'⟩ = none → executes ⟨w, a, w'⟩ = none →
      Tickets.Step (fun x : Vault.ExitProposal => x.id) w.desk (deskMove ⟨w, a, w'⟩) v.desk := by
    intro v hv hp hx
    rw [hv, deskMove, hp, hx]
    exact .idle
  cases hs with
  | reverted hx =>
      have hrefused : accepted ⟨w, a, w⟩ = false := not_accepted_of_exec hx
      obtain ⟨hp, hx⟩ := deskMove_of_reverted hrefused
      exact hidle w rfl hp hx
  | done hx =>
      by_cases hv : ∃ ids call, a = .vault ids call
      · obtain ⟨ids, call, rfl⟩ := hv
        cases call with
        | proposeExit c p q =>
            obtain ⟨hp, rfl⟩ := proposes_of_exec hx
            rw [deskMove, hp, World.desk_proposed]
            exact .issue rfl
        | approveExit u exitId =>
            -- what `find_exit` found lay open in its slot
            obtain ⟨c, x, token, hx, _, hpend, rfl⟩ := executes_of_exec h hx
            rw [deskMove, hx, World.desk_exited]
            exact .redeem hpend
        | _ => exact hidle w' (Vault.Call.desk_eq h hx trivial) rfl rfl
      · -- nothing but the vault's own calls writes the vault
        have heff := (Step.done hx).effect h
        have hvault : w'.vault = w.vault := heff.vault_eq (fun ids call ha => hv ⟨ids, call, ha⟩)
        have hdesk : w'.desk = w.desk := by
          unfold World.desk World.bucket
          rw [hvault]
        cases a with
        | vault ids call => exact absurd ⟨ids, call, rfl⟩ hv
        | _ => exact hidle w' hdesk rfl rfl

/-- An id recorded is a number issued. -/
theorem issued_deskMove (e : Event World Action) :
    Tickets.issued (·.id) ⟨e.pre.desk, deskMove e, e.post.desk⟩ = proposedId e := by
  unfold Tickets.issued deskMove proposedId
  cases proposes e with
  | some x => rfl
  | none   =>
      cases executes e with
      | some x => rfl
      | none   => rfl

/-- No step both files and executes. -/
theorem proposes_eq_none_of_executes (hx : executes e = some (c, x)) : proposes e = none := by
  unfold executes at hx
  split at hx
  · rename_i hl
    unfold proposes
    rw [hl]
  · exact absurd hx (by simp)

/-- An id executed is a number redeemed. -/
theorem redeemed_deskMove (e : Event World Action) :
    Tickets.redeemed (·.id) ⟨e.pre.desk, deskMove e, e.post.desk⟩ = executedId e := by
  unfold Tickets.redeemed deskMove executedId
  cases hx : executes e with
  | some y =>
      rw [proposes_eq_none_of_executes (c := y.1) (x := y.2) hx]
      rfl
  | none   =>
      cases proposes e with
      | some y => rfl
      | none   => rfl

/-! ## Every run -/

/-- The transitions of a run at the desk. -/
def deskEvent (e : Event World Action) :
    Event (Tickets.Desk Currency Vault.ExitProposal) (Tickets.Move Currency Vault.ExitProposal) :=
  ⟨e.pre.desk, deskMove e, e.post.desk⟩

/-- **A run of the vault is a run of its desk.** -/
theorem run_desk (h : w₀.WF) (hr : Run Step w₀ tr w) :
    Run (Tickets.Step (·.id)) w₀.desk (tr.map deskEvent) w.desk := by
  have hev := run_events h hr
  exact hr.map World.desk deskMove (fun e he => (hev e he).2.1.desk (hev e he).1)

theorem filterMap_issued :
    (tr.map deskEvent).filterMap (Tickets.issued (·.id)) = tr.filterMap proposedId := by
  rw [List.filterMap_map]
  exact List.filterMap_congr (fun e _ => issued_deskMove e)

theorem filterMap_redeemed :
    (tr.map deskEvent).filterMap (Tickets.redeemed (·.id)) = tr.filterMap executedId := by
  rw [List.filterMap_map]
  exact List.filterMap_congr (fun e _ => redeemed_deskMove e)

/-- Pending proposals carry ids already issued, each its own. -/
theorem World.WF.desk_sound (h : w.WF) : Tickets.Sound (·.id) w.desk :=
  ⟨h.exit_issued, h.exit_distinct⟩

/-- An id that is spent at some point of a run is never executed after it. -/
theorem not_executed_of_spent (h : w.WF) {n : Nat} (hsp : Tickets.Spent (·.id) n w.desk)
    (hr : Run Step w tr w') : ∀ e ∈ tr, executedId e ≠ some n := by
  intro e he hn
  refine hsp.not_redeemed (run_desk h hr) (deskEvent e) (List.mem_map_of_mem he) ?_
  rw [deskEvent, redeemed_deskMove]
  exact hn

/-! ## One-shot -/

/-- **What one-shot means for a run** ending in `w`. -/
structure OneShot (tr : List (Event World Action)) (w : World) : Prop where
  /-- Ids strictly increase. -/
  increasing : (tr.filterMap proposedId).Pairwise (· < ·)
  /-- Every id executes at most once. -/
  once       : (tr.filterMap executedId).Nodup
  /-- Two currencies never share a pending id. -/
  distinct   : ∀ c d x y, Vault.pendingExit w c = some x → Vault.pendingExit w d = some y → x.id = y.id → c = d
  /-- The lookup by id finds the one match. -/
  lookup     : ∀ c x exitId, Vault.findExit w exitId = some (c, x) ↔
    Vault.pendingExit w c = some x ∧ x.id = exitId
  /-- A proposal is filed under the next id, in place of the one before, and in its own slot only. -/
  filed      : ∀ e ∈ tr, ∀ c x, proposes e = some (c, x) →
    x.id = e.pre.vault.exitCounter + 1 ∧ Vault.pendingExit e.post c = some x ∧
      ∀ d, d ≠ c → Vault.pendingExit e.post d = Vault.pendingExit e.pre d
  /-- A proposal executes only while it is its currency's current one; that clears it, and no other. -/
  executed   : ∀ e ∈ tr, ∀ c x, executes e = some (c, x) →
    Vault.pendingExit e.pre c = some x ∧ Vault.pendingExit e.post c = none ∧
      ∀ d, d ≠ c → Vault.pendingExit e.post d = Vault.pendingExit e.pre d
  /-- An accepted approval executes the proposal it names. -/
  approved   : ∀ e ∈ tr, ∀ ids u exitId, e.label = .vault ids (.approveExit u exitId) → accepted e = true →
    ∃ c x, executes e = some (c, x) ∧ x.id = exitId
  /-- A refused approval leaves every proposal pending. -/
  refused    : ∀ e ∈ tr, ∀ ids u exitId, e.label = .vault ids (.approveExit u exitId) → accepted e = false →
    ∀ d, Vault.pendingExit e.post d = Vault.pendingExit e.pre d
  /-- Nothing else touches a proposal. -/
  untouched  : ∀ e ∈ tr, proposes e = none → executes e = none →
    ∀ d, Vault.pendingExit e.post d = Vault.pendingExit e.pre d
  /-- A superseded proposal never executes. -/
  superseded : ∀ tr₁ e tr₂, tr = tr₁ ++ e :: tr₂ → ∀ c x y, Vault.pendingExit e.pre c = some x →
    proposes e = some (c, y) → ∀ f ∈ tr₂, executedId f ≠ some x.id

/-- A proposal filed is a ticket issued. -/
theorem deskMove_of_proposes (hp : proposes e = some (c, x)) : deskMove e = .issue c x := by
  unfold deskMove
  rw [hp]

/-- A proposal executed is a ticket redeemed. -/
theorem deskMove_of_executes (hx : executes e = some (c, x)) : deskMove e = .redeem c x := by
  unfold deskMove
  rw [proposes_eq_none_of_executes hx, hx]

/-- What touches no proposal leaves every slot as it was. -/
theorem untouched_of_desk (hs : Tickets.Step (·.id) e.pre.desk (deskMove e) e.post.desk)
    (hp : proposes e = none) (hx : executes e = none) (d : Currency) :
    Vault.pendingExit e.post d = Vault.pendingExit e.pre d := by
  have hmove : deskMove e = .idle := by
    unfold deskMove
    rw [hp, hx]
  rw [hmove] at hs
  exact congrFun (congrArg Tickets.Desk.slot hs.of_idle) d

/-- **Exit proposals are one-shot and unambiguous**, in every run from a fresh vault. -/
theorem exit_proposals_one_shot (hg : Genesis w₀) (hr : Run Step w₀ tr w) : OneShot tr w := by
  have hev := run_events hg.wf hr
  have hdesk : ∀ e ∈ tr, Tickets.Step (·.id) e.pre.desk (deskMove e) e.post.desk :=
    fun e he => (hev e he).2.1.desk (hev e he).1
  have hrun := run_desk hg.wf hr
  have h : w.WF := run_wf hg.wf hr
  refine ⟨?_, ?_, h.exit_distinct, fun c x exitId => Vault.findExit_eq_some h,
    fun e he c x hp => (deskMove_of_proposes hp ▸ hdesk e he).of_issue,
    fun e he c x hx => (deskMove_of_executes hx ▸ hdesk e he).of_redeem, ?_, ?_,
    fun e he hp hx d => untouched_of_desk (hdesk e he) hp hx d, ?_⟩
  · rw [← filterMap_issued]
    exact Tickets.issued_pairwise hrun
  · rw [← filterMap_redeemed]
    exact Tickets.redeemed_nodup hg.wf.desk_sound hrun
  · rintro ⟨v, a, v'⟩ he ids u exitId hl hacc
    obtain rfl : a = .vault ids (.approveExit u exitId) := hl
    obtain ⟨hv, hs, _⟩ := hev _ he
    cases hs with
    | reverted hx => exact absurd (hacc.symm.trans (not_accepted_of_exec hx)) (by simp)
    | done hx     =>
        obtain ⟨c, x, token, hxe, hid, _, _⟩ := executes_of_exec hv hx
        exact ⟨c, x, hxe, hid⟩
  · rintro ⟨v, a, v'⟩ he ids u exitId _ hrefused d
    obtain ⟨hp, hx⟩ := deskMove_of_reverted hrefused
    exact untouched_of_desk (hdesk _ he) hp hx d
  · rintro tr₁ e tr₂ rfl c x y hpend hp
    obtain ⟨m, _, hrest⟩ := hr.split
    cases hrest with
    | @cons _ v _ a _ hs hafter =>
        -- the new ticket spends the number of the old one
        have hm := hev ⟨m, a, v⟩ (List.mem_append_right _ List.mem_cons_self)
        have hstep := hdesk ⟨m, a, v⟩ (List.mem_append_right _ List.mem_cons_self)
        rw [deskMove_of_proposes hp] at hstep
        have hspent := hm.1.desk_sound.spent_of_issue hstep hpend
        exact not_executed_of_spent hm.2.2 hspent hafter

/-- Two proposals for one bucket, the later one approved, and one for another. -/
def proposalRun : List Action :=
  exitRun 500 ++ [.vault [1] (.proposeExit .usd (.contract 1) (.contract 2)),
    .vault [1] (.proposeExit .eur (.contract 3) (.contract 4)), .vault [2] (.approveExit (.account 2) 2)]

/-- Ids 1 to 3 were filed; only the second, which superseded the first, was executed. -/
theorem exit_proposals_one_shot_proposalRun :
    OneShot ((World.opening 1000 5000).trace proposalRun) ((World.opening 1000 5000).after proposalRun) ∧
    ((World.opening 1000 5000).trace proposalRun).filterMap proposedId = [1, 2, 3] ∧
    ((World.opening 1000 5000).trace proposalRun).filterMap executedId = [2] :=
  ⟨exit_proposals_one_shot (Genesis.opening (by decide)) (World.run_trace _ _), by decide +kernel,
    by decide +kernel⟩

end SoroSense
