import SoroSense.Backend.RunnerSpec
import SoroSense.Frontend.SafeExit
import SoroSense.Properties.Proposals

/-!
# `Properties.SafeExits` — an approval executes what was shown

The sheet may show what is long out of date: proposals are replaced, pools thawed and rates changed while its
inquiries are under way, and an approval may land long after it was pressed. Yet one that lands executes the proposal
that was shown when it was pressed, and no other (`approves_what_was_shown`): the number it names was given to that
proposal alone.

* `Proposed` — a proposal that lay open once; `Proposed.executed` — under its number nothing else is executed;
* `Truthful` — what the hook finds, however the vault changes between its questions;
* `Sheet` — the sheet shows such a view and its approvals close over one;
* `ExitStep.origin` — where an approval comes from.
-/

namespace SoroSense

open Fallible Transition

/-! ## Proposals by number -/

/-- The proposal has been pending for the currency. -/
def Proposed (w : World) (c : Currency) (x : Vault.ExitProposal) : Prop :=
  ∃ w₀ tr, w₀.WF ∧ (w₀.bucket c).pendingExit = some x ∧ Run Step w₀ tr w

namespace Proposed

variable {w w' : World} {c : Currency} {x : Vault.ExitProposal}

theorem of_pending (h : w.WF) (hp : Vault.pendingExit w c = some x) : Proposed w c x := ⟨w, [], h, hp, .nil w⟩

theorem run {tr : List (Event World Action)} (h : Proposed w c x) (hr : Run Step w tr w') : Proposed w' c x := by
  obtain ⟨w₀, tr₀, h₀, hp, hr₀⟩ := h
  exact ⟨w₀, tr₀ ++ tr, h₀, hp, hr₀.append hr⟩

/-- Its number is known at the desk. -/
theorem known (h : Proposed w c x) : Tickets.Known (fun y : Vault.ExitProposal => y.id) c x w.desk := by
  obtain ⟨w₀, tr, h₀, hp, hr⟩ := h
  exact (run_desk h₀ hr).invariant (fun _ _ _ hk hs => hk.step hs) (h₀.desk_sound.known hp)

/-- **Under its number nothing else is executed**, if the approval takes effect at all. -/
theorem executed (h : Proposed w c x) (hw : w.WF) {u : Address} {ids : List Nat}
    (hx : (Vault.Call.approveExit u x.id).exec (Auth.signers ids) w = .ok w') :
    ∃ token, (w.bucket c).pendingExit = some x ∧ w' = w.exited c x token := by
  have hdone : (Action.vault ids (.approveExit u x.id)).exec w = .ok w' := hx
  obtain ⟨d, y, token, -, hid, hpend, rfl⟩ := executes_of_exec hw hdone
  obtain ⟨rfl, rfl⟩ := h.known.only d y hpend hid
  exact ⟨token, hpend, rfl⟩

end Proposed

namespace Frontend

open Backend (PoolId VaultClient ExitProposal getPool resolveVenue)
open Text

variable {client : VaultClient} {api : Bool} {s t : ExitApp} {a : ExitAct} {c : Currency} {p q : Approval}
  {o o' : ApiWorld}

/-! ## What the hook finds -/

/-- The chain moves on; the backend may read other rates. -/
def Onward (o o' : ApiWorld) : Prop := ∃ tr, Run Step o.world tr o'.world

theorem Onward.refl (o : ApiWorld) : Onward o o := ⟨[], .nil _⟩

theorem Onward.trans {o'' : ApiWorld} (h : Onward o o') (h' : Onward o' o'') : Onward o o'' := by
  obtain ⟨tr, hr⟩ := h
  obtain ⟨tr', hr'⟩ := h'
  exact ⟨tr ++ tr', hr.append hr'⟩

theorem Onward.wf (h : Onward o o') (hw : o.world.WF) : o'.world.WF := run_wf hw h.choose_spec

theorem Onward.proposed {x : Vault.ExitProposal} (h : Onward o o') (hp : Proposed o.world c x) :
    Proposed o'.world c x := hp.run h.choose_spec

/-- How the target of a proposal is named: by the backend's lookup, or offline. -/
def Named (api : Bool) (proposal : ExitProposal) (found : PoolMeta) : Prop :=
  (api = true ∧ ∃ venue, resolveVenue proposal.toPool = some venue ∧ found.name = venue.name) ∨
    getPoolMeta proposal.toPool = some found

/-- **What the hook finds**: a proposal that has been pending for the bucket it shows, and a name for its target. -/
structure Truthful (client : VaultClient) (api : Bool) (o : ApiWorld) (found : Option PendingExitView) : Prop where
  proposed : ∀ v proposal, found = some v → v.proposal = some proposal →
    ∃ x, client.exitOf x = proposal ∧ Proposed o.world v.currency x
  named    : ∀ v proposal target, found = some v → v.proposal = some proposal → v.toMeta = some target →
    Named api proposal target

theorem Truthful.none : Truthful client api o none := ⟨by simp, by simp⟩

theorem Truthful.onward {found : Option PendingExitView} (h : Truthful client api o found) (hw : Onward o o') :
    Truthful client api o' found := by
  refine ⟨fun v proposal hv hp => ?_, h.named⟩
  obtain ⟨x, hx, hfiled⟩ := h.proposed v proposal hv hp
  exact ⟨x, hx, hw.proposed hfiled⟩

/-- The target is named as `Named` says. -/
theorem yields_exitTarget (proposal : Option ExitProposal) :
    (exitTarget api proposal).Yields Onward (fun o' found =>
      Onward o o' ∧ ∀ q target, proposal = some q → found = some target → Named api q target) o := by
  cases proposal with
  | none => exact ⟨.refl o, by simp⟩
  | some proposal =>
      show (resolveExitTarget api proposal.toPool).Yields _ _ _
      have hoffline : ∀ q target, some proposal = some q → getPoolMeta proposal.toPool = some target →
          Named api q target := by
        rintro q target hq hfound
        exact .inr (Option.some.inj hq ▸ hfound)
      unfold resolveExitTarget
      split
      · rename_i hapi
        intro o' ho
        cases hpool : getPool proposal.toPool o'.apy with
        | err code error =>
            simp only [hpool]
            exact ⟨ho, hoffline⟩
        | ok pool =>
            simp only [hpool]
            refine ⟨ho, ?_⟩
            rintro q target hq hfound
            obtain rfl := Option.some.inj hq
            obtain rfl := Option.some.inj hfound
            unfold getPool at hpool
            cases hvenue : resolveVenue proposal.toPool with
            | none =>
                rw [hvenue] at hpool
                exact absurd hpool (by simp)
            | some venue =>
                rw [hvenue] at hpool
                refine .inl ⟨hapi, venue, hvenue, ?_⟩
                cases hrate : o'.apy proposal.toPool with
                | err code error =>
                    rw [hrate] at hpool
                    exact absurd hpool (by simp)
                | ok rate =>
                    rw [hrate] at hpool
                    rw [← Backend.Result.ok.inj hpool]
      · exact ⟨.refl o, hoffline⟩

/-- What is found of a frozen bucket. -/
theorem yields_frozenBucket (hw : o.world.WF) (address : Backend.Address) :
    (frozenBucket client api address c).Yields Onward (Truthful client api) o := by
  unfold frozenBucket
  refine Inquiry.Yields.bind fun o₁ h₁ => ?_
  refine Inquiry.Yields.bind (Inquiry.yields_read fun o₂ amount h₂ _ => ?_)
  refine Inquiry.Yields.bind ((yields_exitTarget _).mono fun o₃ target h₃ => ?_)
  refine Inquiry.yields_pure ⟨?_, ?_⟩
  · intro v proposal hv hp
    obtain rfl := Option.some.inj hv
    obtain ⟨x, hx, rfl⟩ := Option.map_eq_some_iff.mp hp
    exact ⟨x, rfl, h₃.1.proposed (h₂.proposed (.of_pending (h₁.wf hw) hx))⟩
  · intro v proposal found hv hp hfound
    obtain rfl := Option.some.inj hv
    exact h₃.2 proposal found hp hfound

theorem yields_firstFrozen (address : Backend.Address) (l : List Currency) (hw : o.world.WF) :
    (firstFrozen client api address l).Yields Onward (Truthful client api) o := by
  induction l generalizing o with
  | nil => exact .none
  | cons c rest ih =>
      unfold firstFrozen
      refine Inquiry.Yields.bind fun o₁ h₁ => Inquiry.yields_pure ?_
      cases client.activeSlug o₁.world c with
      | none => exact ih (h₁.wf hw)
      | some pool =>
          refine Inquiry.Yields.bind (Inquiry.yields_read fun o₂ status h₂ _ => ?_)
          split
          · exact yields_frozenBucket (h₂.wf (h₁.wf hw)) address
          · exact ih (h₂.wf (h₁.wf hw))

/-- **The hook finds what is true**, whatever happens between its questions. -/
theorem yields_usePendingExit (account : Option ℕ) (hw : o.world.WF) :
    (usePendingExit client api account).Yields Onward (Truthful client api) o := by
  cases account with
  | none    => exact .none
  | some id => exact yields_firstFrozen _ _ hw

/-! ## The sheet -/

/-- An approval closes over a proposal that has been pending. -/
def Approval.Filed (client : VaultClient) (w : World) (p : Approval) : Prop :=
  ∃ x, client.exitOf x = p.proposal ∧ Proposed w p.view.currency x

/-- **The sheet**: it shows what is true, its approvals close over what was, one at a time. -/
structure Sheet (client : VaultClient) (api : Bool) (s : ExitApp) : Prop where
  wf     : s.outside.world.WF
  shows  : Viewer.Holds Onward (Truthful client api) s.outside s.viewer
  filed  : ∀ p ∈ s.approvals ++ s.loose, p.Filed client s.outside.world
  single : (s.approvals.map fun p => p.mounted.toNat).sum ≤ 1

/-- The approvals are the same, but for how far they are. -/
def Approval.Same (p q : Approval) : Prop :=
  p.account = q.account ∧ p.view = q.view ∧ p.proposal = q.proposal

/-- The approval is pressed: it closes over the account, and the view that is shown. -/
def Pressed (s : ExitApp) (a : ExitAct) (q : Approval) : Prop :=
  a = .approve ∧ s.account = some q.account ∧ s.pend = some q.view ∧ q.view.proposal = some q.proposal

theorem Approval.Same.rfl : p.Same p := ⟨Eq.refl _, Eq.refl _, Eq.refl _⟩

/-- What pressing does. -/
theorem onApprove_cases (s : ExitApp) : s.onApprove = s ∨ s.busy = false ∧ ∃ q, Pressed s .approve q ∧
    q.landed = false ∧ q.mounted = true ∧ s.onApprove = { s with approvals := s.approvals ++ [q] } := by
  unfold ExitApp.onApprove
  split
  · rename_i id view haccount hview
    split
    · rename_i proposal hproposal
      split
      · exact .inl rfl
      · rename_i hbusy
        exact .inr ⟨by simpa using hbusy, _, ⟨rfl, haccount, hview, hproposal⟩, rfl, rfl, rfl⟩
    · exact .inl rfl
  · exact .inl rfl

/-- What is given up and may still land. -/
theorem ExitApp.lets_cases (s : ExitApp) (p : Approval) :
    ∃ loose, s.lets p = { s with loose := loose } ∧ (loose = s.loose ∨ p.landed = false ∧ loose = s.loose ++ [p]) := by
  unfold ExitApp.lets
  split
  · exact ⟨s.loose, rfl, .inl rfl⟩
  · rename_i hnot
    exact ⟨_, rfl, .inr ⟨by simpa using hnot, rfl⟩⟩

/-- A reply that tells of no success. -/
theorem ExitApp.gave_cases (s : ExitApp) (p : Approval) (toast : ExitToast) (hne : toast ≠ .approved) :
    ∃ toast' loose, (s.lets p).tells p toast = { s with toast := toast', loose := loose } ∧
      (loose = s.loose ∨ p.landed = false ∧ loose = s.loose ++ [p]) ∧
      (toast' = some .approved → s.toast = some .approved) := by
  obtain ⟨loose, hlets, hloose⟩ := s.lets_cases p
  rw [hlets]
  unfold ExitApp.tells
  split
  · exact ⟨some toast, loose, rfl, hloose, fun hc => absurd (Option.some.inj hc) hne⟩
  · exact ⟨s.toast, loose, rfl, hloose, id⟩

/-- What a reply does. -/
theorem replied_cases (client : VaultClient) (api : Bool) (s : ExitApp) (i : ℕ) (p : Approval) (r : WriteReply) :
    ∃ viewer opened toast loose,
      s.replied client api i p r = { s with
        viewer := viewer, opened := opened, toast := toast, approvals := s.approvals.eraseIdx i, loose := loose } ∧
      (viewer = s.viewer ∨ viewer = s.viewer.rerun (usePendingExit client api s.account)) ∧
      (loose = s.loose ∨ p.landed = false ∧ loose = s.loose ++ [p]) ∧
      (toast = some .approved → r = .success ∨ s.toast = some .approved) := by
  have hgave := ExitApp.gave_cases { s with approvals := s.approvals.eraseIdx i } p
  cases r with
  | success =>
      unfold ExitApp.replied ExitApp.tells
      cases p.mounted with
      | false => exact ⟨_, _, _, _, rfl, .inr rfl, .inl rfl, fun _ => .inl rfl⟩
      | true  => exact ⟨_, _, _, _, rfl, .inr rfl, .inl rfl, fun _ => .inl rfl⟩
  | rejected =>
      obtain ⟨toast, loose, heq, hloose, htoast⟩ := hgave .rejected (by decide)
      exact ⟨s.viewer, s.opened, toast, loose, heq, .inl rfl, hloose, fun hc => .inr (htoast hc)⟩
  | threw =>
      obtain ⟨toast, loose, heq, hloose, htoast⟩ := hgave .failed (by decide)
      exact ⟨s.viewer, s.opened, toast, loose, heq, .inl rfl, hloose, fun hc => .inr (htoast hc)⟩
  | closed => exact ⟨s.viewer, s.opened, s.toast, s.loose, rfl, .inl rfl, .inl rfl, .inr⟩

/-- **Where an approval comes from**: it was there, or it is pressed. -/
theorem ExitStep.origin (hs : ExitStep client api s a t) (hq : q ∈ t.approvals ++ t.loose) :
    (∃ p ∈ s.approvals ++ s.loose, p.Same q) ∨ Pressed s a q := by
  have hkept : ∀ {l l' : List Approval}, l ⊆ s.approvals → l' ⊆ s.loose → q ∈ l ++ l' →
      ∃ p ∈ s.approvals ++ s.loose, p.Same q := by
    intro l l' hl hl' hq
    rcases List.mem_append.mp hq with hq | hq
    · exact ⟨q, List.mem_append_left _ (hl hq), .rfl⟩
    · exact ⟨q, List.mem_append_right _ (hl' hq), .rfl⟩
  have hsame := hkept (List.Subset.refl _) (List.Subset.refl _)
  cases hs with
  | look _ | refetch | connect | toggle | decline _ _ | hush | rates | other _ => exact .inl (hsame hq)
  | approve _ =>
      rcases onApprove_cases s with heq | ⟨-, q', hpressed, -, -, heq⟩
      · rw [heq] at hq
        exact .inl (hsame hq)
      · rw [heq] at hq
        rcases List.mem_append.mp hq with hq | hq
        · rcases List.mem_append.mp hq with hq | hq
          · exact .inl ⟨q, List.mem_append_left _ hq, .rfl⟩
          · rw [List.mem_singleton.mp hq]
            exact .inr hpressed
        · exact .inl ⟨q, List.mem_append_right _ hq, .rfl⟩
  | @lands i p call w hp _ _ _ =>
      rcases List.mem_append.mp hq with hq | hq
      · rcases List.mem_or_eq_of_mem_set hq with hq | rfl
        · exact .inl ⟨q, List.mem_append_left _ hq, .rfl⟩
        · exact .inl ⟨p, List.mem_append_left _ (List.mem_of_getElem? hp), .rfl⟩
      · exact .inl ⟨q, List.mem_append_right _ hq, .rfl⟩
  | @reply i p r hp _ =>
      obtain ⟨_, _, _, loose, heq, -, hloose, -⟩ := replied_cases client api s i p r
      rw [heq] at hq
      rcases List.mem_append.mp hq with hq | hq
      · exact .inl ⟨q, List.mem_append_left _ (List.mem_of_mem_eraseIdx hq), .rfl⟩
      · rcases hloose with rfl | ⟨-, rfl⟩
        · exact .inl ⟨q, List.mem_append_right _ hq, .rfl⟩
        · rcases List.mem_append.mp hq with hq | hq
          · exact .inl ⟨q, List.mem_append_right _ hq, .rfl⟩
          · rw [List.mem_singleton.mp hq]
            exact .inl ⟨p, List.mem_append_left _ (List.mem_of_getElem? hp), .rfl⟩
  | late _ _ _ => exact .inl (hkept (List.Subset.refl _) (fun _ h => List.mem_of_mem_eraseIdx h) hq)
  | expire     => exact .inl (hkept (List.Subset.refl _) (fun _ h => List.mem_of_mem_eraseIdx h) hq)
  | remount =>
      rcases List.mem_append.mp hq with hq | hq
      · obtain ⟨p, hp, rfl⟩ := List.mem_map.mp hq
        exact .inl ⟨p, List.mem_append_left _ hp, .rfl⟩
      · exact .inl ⟨q, List.mem_append_right _ hq, .rfl⟩

/-- The chain does not go back. -/
theorem ExitStep.onward (hs : ExitStep client api s a t) : Onward s.outside t.outside := by
  have hcall : ∀ {ids : List Nat} {call : Vault.Call} {w : World},
      call.exec (Auth.signers ids) s.outside.world = .ok w → Onward s.outside { s.outside with world := w } := by
    intro ids call w hx
    have hstep : Step s.outside.world (.vault ids call) w := .done hx
    exact ⟨_, .single hstep⟩
  cases hs with
  | look _ | refetch | connect | toggle | decline _ _ | hush | rates | expire | remount => exact .refl _
  | approve _ =>
      rcases onApprove_cases s with heq | ⟨-, q, -, -, -, heq⟩
      · rw [heq]
        exact .refl _
      · rw [heq]
        exact .refl _
  | lands _ _ _ hx => exact hcall hx
  | @reply i p r _ _ =>
      obtain ⟨_, _, _, _, heq, -⟩ := replied_cases client api s i p r
      rw [heq]
      exact .refl _
  | late _ _ hx => exact hcall hx
  | other hs => exact ⟨_, .single hs⟩

/-- **The viewer after a step.** Where every inquiry of the hook yields `Q`, so does what is shown. -/
theorem ExitStep.shows {R : ApiWorld → ApiWorld → Prop} {Q : ApiWorld → Option PendingExitView → Prop}
    (hs : ExitStep client api s a t) (h : Viewer.Holds R Q s.outside s.viewer) (hR : R s.outside s.outside)
    (hnone : Q s.outside none) (hfetch : ∀ account, (usePendingExit client api account).Yields R Q s.outside)
    (hlater : Viewer.Holds R Q t.outside s.viewer) : Viewer.Holds R Q t.outside t.viewer := by
  cases hs with
  | look hv => exact h.step hR hv
  | refetch | connect => exact h.rerun (hfetch _)
  | toggle | decline _ _ | hush | rates | expire | other _ | lands _ _ _ _ | late _ _ _ => exact hlater
  | approve _ =>
      rcases onApprove_cases s with heq | ⟨-, q, -, -, -, heq⟩
      · rw [heq]
        exact h
      · rw [heq]
        exact h
  | @reply i p r _ _ =>
      obtain ⟨viewer, _, _, _, heq, hviewer, -⟩ := replied_cases client api s i p r
      rw [heq]
      rcases hviewer with rfl | rfl
      · exact h
      · exact h.rerun (hfetch _)
  | remount => exact Viewer.Holds.rerun ⟨hnone, h.viewings⟩ (hfetch _)

theorem Sheet.shows_step (h : Sheet client api s) (hs : ExitStep client api s a t) :
    Viewer.Holds Onward (Truthful client api) t.outside t.viewer := by
  have hlater : Viewer.Holds Onward (Truthful client api) t.outside s.viewer :=
    h.shows.later (fun _ _ _ => Onward.trans) (fun _ _ _ hf hw => hf.onward hw) hs.onward
  exact hs.shows h.shows (.refl _) .none (fun account => yields_usePendingExit account h.wf) hlater

/-- **One approval of a mounted sheet at a time.** -/
theorem Sheet.single_step (h : Sheet client api s) (hs : ExitStep client api s a t) :
    (t.approvals.map fun p => p.mounted.toNat).sum ≤ 1 := by
  have hsingle := h.single
  cases hs with
  | look _ | refetch | connect | toggle | decline _ _ | hush | rates | expire | other _ | late _ _ _ => exact h.single
  | approve _ =>
      rcases onApprove_cases s with heq | ⟨hfree, q, -, -, hm, heq⟩
      · rw [heq]
        exact h.single
      · -- the button does nothing while an approval is under way
        have hnone : (s.approvals.map fun p => p.mounted.toNat).sum = 0 := by
          refine List.sum_eq_zero_iff.mpr fun x hx => ?_
          obtain ⟨p, hp, rfl⟩ := List.mem_map.mp hx
          have hidle := List.any_eq_false.mp hfree p hp
          rw [Bool.eq_false_of_not_eq_true hidle]
          rfl
        rw [heq]
        show ((s.approvals ++ [q]).map fun p => p.mounted.toNat).sum ≤ 1
        rw [List.map_append, List.sum_append, hnone, List.map_singleton, List.sum_singleton, hm]
        decide
  | @lands i p call w hp _ _ _ =>
      have hset := Sums.sum_map_set (fun p : Approval => p.mounted.toNat) hp { p with landed := true }
      show ((s.approvals.set i _).map fun p => p.mounted.toNat).sum ≤ 1
      have hsame : ((s.approvals.set i { p with landed := true }).map fun p => p.mounted.toNat).sum =
          (s.approvals.map fun p => p.mounted.toNat).sum := Nat.add_left_cancel hset
      rw [hsame]
      exact h.single
  | @reply i p r hp _ =>
      obtain ⟨_, _, _, _, heq, -⟩ := replied_cases client api s i p r
      have hless := Sums.sum_map_eraseIdx (fun p : Approval => p.mounted.toNat) hp
      rw [heq]
      show ((s.approvals.eraseIdx i).map fun p => p.mounted.toNat).sum ≤ 1
      omega
  | remount =>
      have hnone : ((s.approvals.map fun p => { p with mounted := false }).map
          fun p : Approval => p.mounted.toNat).sum = 0 := by
        refine List.sum_eq_zero_iff.mpr fun x hx => ?_
        rw [List.map_map] at hx
        obtain ⟨p, _, rfl⟩ := List.mem_map.mp hx
        rfl
      exact hnone.trans_le (Nat.zero_le _)

theorem Sheet.step (h : Sheet client api s) (hs : ExitStep client api s a t) : Sheet client api t where
  wf       := hs.onward.wf h.wf
  shows    := h.shows_step hs
  single   := h.single_step hs
  filed q hq := by
    rcases hs.origin hq with ⟨p, hp, -, hview, hproposal⟩ | ⟨-, -, hpend, hproposal⟩
    · obtain ⟨x, hx, hfiled⟩ := h.filed p hp
      exact ⟨x, hproposal ▸ hx, hview ▸ hs.onward.proposed hfiled⟩
    · obtain ⟨x, hx, hfiled⟩ := h.shows.shown.proposed q.view q.proposal hpend hproposal
      exact ⟨x, hx, hs.onward.proposed hfiled⟩

/-! ## Approvals that land -/

/-- The approval that a step lands. -/
def landing (e : Event ExitApp ExitAct) : Option Approval :=
  match e.label with
  | .lands i => e.pre.approvals[i]?
  | .late j  => e.pre.loose[j]?
  | _        => none

/-- **What an approval executes**: the proposal it closes over. -/
def Executes (client : VaultClient) (p : Approval) (w w' : World) : Prop :=
  ∃ x token, client.exitOf x = p.proposal ∧ (w.bucket p.view.currency).pendingExit = some x ∧
    w' = w.exited p.view.currency x token

/-- The number of a proposal is read back. -/
theorem bigInt_toString (n : ℕ) : bigInt (toString n).toList = .ok (n : Int) := by
  have hdigits : (toString n).toList = Nat.toDigits 10 n := by simp [Nat.repr]
  rw [hdigits, bigInt_of_digits (Decimal.toDigits_digits n) Nat.toDigits_ne_nil, Decimal.digitsVal_toDigits]

theorem Approval.call_of_exitOf {x : Vault.ExitProposal} (h : client.exitOf x = p.proposal) :
    p.call = some (.approveExit (.account p.account) x.id) := by
  have hid : bigInt p.proposal.id.toList = .ok (x.id : Int) := by
    rw [← h]
    exact bigInt_toString x.id
  exact Approval.call_of_bigInt hid

theorem Approval.Filed.executes {w w' : World} (h : p.Filed client w) (hw : w.WF) {call : Vault.Call} {ids : List Nat}
    (hcall : p.call = some call) (hx : call.exec (Auth.signers ids) w = .ok w') : Executes client p w w' := by
  obtain ⟨x, hproposal, hproposed⟩ := h
  obtain rfl := Option.some.inj (hcall.symm.trans (Approval.call_of_exitOf hproposal))
  obtain ⟨token, hpend, hexited⟩ := hproposed.executed hw hx
  exact ⟨x, token, hproposal, hpend, hexited⟩

/-- **An approval that lands executes the proposal it closes over.** -/
theorem Sheet.executes (h : Sheet client api s) (hs : ExitStep client api s a t) (hp : landing ⟨s, a, t⟩ = some p) :
    Executes client p s.outside.world t.outside.world := by
  cases hs with
  | @lands i q call w hq hcall _ hx =>
      obtain rfl := Option.some.inj (hq.symm.trans hp)
      exact (h.filed q (List.mem_append_left _ (List.mem_of_getElem? hq))).executes h.wf hcall hx
  | @late j q call w hq hcall hx =>
      obtain rfl := Option.some.inj (hq.symm.trans hp)
      exact (h.filed q (List.mem_append_right _ (List.mem_of_getElem? hq))).executes h.wf hcall hx
  | _ => exact absurd hp (by simp [landing])

/-- How often the button is pressed, and how often an approval lands. -/
def presses (e : Event ExitApp ExitAct) : Int :=
  match e.label with
  | .approve => 1
  | _        => 0

def landings (e : Event ExitApp ExitAct) : Int := if (landing e).isSome = true then 1 else 0

/-- The approvals that may still land. -/
def ExitApp.waiting (s : ExitApp) : Int :=
  (s.approvals.map fun p => if p.landed = true then 0 else 1).sum + s.loose.length

theorem waiting_nonneg (s : ExitApp) : 0 ≤ s.waiting := by
  have hopen := Sums.sum_map_nonneg (fun p : Approval => if p.landed = true then (0 : Int) else 1) s.approvals
    fun p _ => by split <;> decide
  unfold ExitApp.waiting
  omega

/-- **One press, one landing at most.** -/
theorem waiting_step (hs : ExitStep client api s a t) :
    t.waiting ≤ s.waiting + (presses ⟨s, a, t⟩ - landings ⟨s, a, t⟩) := by
  have hsame : s.waiting ≤ s.waiting + (0 - 0) := by omega
  have hopened : ∀ {i : ℕ} {p : Approval}, s.approvals[i]? = some p →
      (if p.landed = true then (0 : Int) else 1) +
        ((s.approvals.eraseIdx i).map fun p => if p.landed = true then (0 : Int) else 1).sum =
          (s.approvals.map fun p => if p.landed = true then (0 : Int) else 1).sum :=
    fun hp => Sums.sum_map_eraseIdx (fun p : Approval => if p.landed = true then (0 : Int) else 1) hp
  cases hs with
  | look _ | refetch | connect | toggle | decline _ _ | hush | rates | other _ => exact hsame
  | approve _ =>
      show s.onApprove.waiting ≤ s.waiting + (1 - 0)
      rcases onApprove_cases s with heq | ⟨-, q, -, hnot, -, heq⟩
      · rw [heq]
        omega
      · rw [heq]
        show ((s.approvals ++ [q]).map _).sum + _ ≤ _
        rw [List.map_append, List.sum_append, List.map_singleton, List.sum_singleton, hnot]
        unfold ExitApp.waiting
        simp only [Bool.false_eq_true, if_false]
        omega
  | @lands i p call w hp hcall hnot hx =>
      have hset := Sums.sum_map_set (fun p : Approval => if p.landed = true then (0 : Int) else 1) hp
        { p with landed := true }
      have hlands : landings ⟨s, .lands i, { s with
          outside := { s.outside with world := w }, approvals := s.approvals.set i { p with landed := true } }⟩ = 1 :=
        if_pos (show (s.approvals[i]?).isSome = true by rw [hp]; rfl)
      rw [hlands]
      rw [hnot] at hset
      show ((s.approvals.set i _).map fun p => if p.landed = true then (0 : Int) else 1).sum + s.loose.length ≤
        s.waiting + (0 - 1)
      unfold ExitApp.waiting
      simp only [Bool.false_eq_true, if_false, if_true] at hset
      omega
  | @reply i p r hp _ =>
      obtain ⟨_, _, _, loose, heq, -, hloose, -⟩ := replied_cases client api s i p r
      have hless := hopened hp
      show (s.replied client api i p r).waiting ≤ s.waiting + (0 - 0)
      rw [heq]
      show ((s.approvals.eraseIdx i).map fun p => if p.landed = true then (0 : Int) else 1).sum + loose.length ≤ _
      unfold ExitApp.waiting
      rcases hloose with rfl | ⟨hnot, rfl⟩
      · split at hless <;> omega
      · rw [hnot] at hless
        rw [List.length_append]
        simp only [Bool.false_eq_true, if_false] at hless
        push_cast
        simp only [List.length_singleton]
        omega
  | @late j p call w hj hcall hx =>
      have hlands : landings ⟨s, .late j, { s with
          outside := { s.outside with world := w }, loose := s.loose.eraseIdx j }⟩ = 1 :=
        if_pos (show (s.loose[j]?).isSome = true by rw [hj]; rfl)
      obtain ⟨hlt, -⟩ := List.getElem?_eq_some_iff.mp hj
      have hlen := List.length_eraseIdx_of_lt hlt
      rw [hlands]
      show (s.approvals.map _).sum + ((s.loose.eraseIdx j).length : Int) ≤ s.waiting + (0 - 1)
      unfold ExitApp.waiting
      rw [hlen]
      omega
  | @expire j =>
      have hlen : (s.loose.eraseIdx j).length ≤ s.loose.length := List.length_eraseIdx_le ..
      show (s.approvals.map _).sum + ((s.loose.eraseIdx j).length : Int) ≤ s.waiting + (0 - 0)
      unfold ExitApp.waiting
      omega
  | remount =>
      show ((s.approvals.map _).map _).sum + _ ≤ s.waiting + (0 - 0)
      rw [List.map_map]
      exact hsame

/-! ## Over whole visits -/

/-- The page has just been opened. -/
structure ExitApp.Opened (s : ExitApp) : Prop where
  viewer    : s.viewer = ⟨none, []⟩
  approvals : s.approvals = []
  loose     : s.loose = []
  toast     : s.toast = none

theorem ExitApp.Opened.sheet (h : s.Opened) (hw : s.outside.world.WF) : Sheet client api s := by
  refine ⟨hw, ?_, ?_, ?_⟩
  · rw [h.viewer]
    exact .fresh .none
  · intro p hp
    rw [h.approvals, h.loose] at hp
    exact absurd hp (by simp)
  · rw [h.approvals]
    exact Nat.zero_le _

/-- An approval was landed, or is said to have been. -/
theorem ExitStep.landed (hs : ExitStep client api s a t)
    (hnot : ¬ (s.toast = some .approved ∨ ∃ p ∈ s.approvals, p.landed = true))
    (ht : t.toast = some .approved ∨ ∃ p ∈ t.approvals, p.landed = true) : ∃ p, landing ⟨s, a, t⟩ = some p := by
  obtain ⟨htoast, hnone⟩ := not_or.mp hnot
  have hkept : ∀ l : List Approval, l ⊆ s.approvals → ¬ ∃ p ∈ l, p.landed = true :=
    fun l hl ⟨p, hp, hlanded⟩ => hnone ⟨p, hl hp, hlanded⟩
  cases hs with
  | look _ | refetch | connect | toggle | rates | other _ | late _ _ _ | expire => exact absurd ht hnot
  | decline _ _ => exact absurd ht (not_or.mpr ⟨by simp, hnone⟩)
  | hush        => exact absurd ht (not_or.mpr ⟨by simp, hnone⟩)
  | approve _ =>
      rcases onApprove_cases s with heq | ⟨-, q, -, hnew, -, heq⟩
      · rw [heq] at ht
        exact absurd ht hnot
      · rw [heq] at ht
        rcases ht with ht | ⟨p, hp, hlanded⟩
        · exact absurd ht htoast
        · rcases List.mem_append.mp hp with hp | hp
          · exact absurd ⟨p, hp, hlanded⟩ hnone
          · rw [List.mem_singleton.mp hp, hnew] at hlanded
            exact absurd hlanded (by decide)
  | @lands i p _ _ hp _ _ _ => exact ⟨p, hp⟩
  | @reply i p r hp hfits =>
      obtain ⟨_, _, toast, _, heq, -, -, happroved⟩ := replied_cases client api s i p r
      rw [heq] at ht
      rcases ht with ht | hl
      · rcases happroved ht with rfl | hold
        · exact absurd ⟨p, List.mem_of_getElem? hp, hfits⟩ hnone
        · exact absurd hold htoast
      · exact absurd hl (hkept _ fun _ h => List.mem_of_mem_eraseIdx h)
  | remount =>
      rcases ht with ht | ⟨p, hp, hlanded⟩
      · exact absurd ht (by simp [ExitApp.remount, ExitApp.refetch])
      · obtain ⟨q, hq, rfl⟩ := List.mem_map.mp hp
        exact absurd ⟨q, hq, hlanded⟩ hnone

/-- **An approval executes what was shown.** From any reachable chain, however the vault changes while the sheet reads
    it, whatever is replaced, thawed or approved by others meanwhile and whenever the network lands what was pressed:
    an approval that lands executes the proposal that the sheet showed when it was pressed, for the bucket it showed;
    no more land than were pressed; a mounted sheet has one under way at most; and it says that an exit was approved
    only after one has landed. -/
theorem approves_what_was_shown {tr : List (Event ExitApp ExitAct)}
    (hw : Reachable Genesis SoroSense.Step s.outside.world) (h : Run (ExitStep client api) s tr t) (hs : s.Opened) :
    (∀ tr₁ e tr₂ p, tr = tr₁ ++ e :: tr₂ → landing e = some p →
      (∃ f ∈ tr₁, Pressed f.pre f.label p) ∧ Executes client p e.pre.outside.world e.post.outside.world) ∧
      (tr.map landings).sum ≤ (tr.map presses).sum ∧
      (t.approvals.map fun p => p.mounted.toNat).sum ≤ 1 ∧
      (t.toast = some .approved → ∃ e ∈ tr, ∃ p, landing e = some p) := by
  have hfirst : Sheet client api s := hs.sheet (reachable_wf hw)
  have hlast : Sheet client api t := h.invariant (fun _ _ _ hi hst => hi.step hst) hfirst
  refine ⟨?_, ?_, hlast.single, ?_⟩
  · intro tr₁ e tr₂ p htr hland
    rw [htr] at h
    obtain ⟨m, hbefore, hafter⟩ := h.split
    have hm : Sheet client api m := hbefore.invariant (fun _ _ _ hi hst => hi.step hst) hfirst
    cases hafter with
    | @cons _ m' _ a _ hst _ =>
        refine ⟨?_, hm.executes hst hland⟩
        -- the approval is there before it lands, and was not at the start
        have hthere : ∃ q ∈ m.approvals ++ m.loose, q.Same p := by
          cases hst with
          | lands hp _ _ _ =>
              obtain rfl := Option.some.inj (hp.symm.trans hland)
              exact ⟨_, List.mem_append_left _ (List.mem_of_getElem? hp), .rfl⟩
          | late hj _ _ =>
              obtain rfl := Option.some.inj (hj.symm.trans hland)
              exact ⟨_, List.mem_append_right _ (List.mem_of_getElem? hj), .rfl⟩
          | _ => exact absurd hland (by simp [landing])
        have hnone : ¬ ∃ q ∈ s.approvals ++ s.loose, q.Same p := by
          rw [hs.approvals, hs.loose]
          simp
        obtain ⟨f, hf, hno, q, hq, haccount, hview, hproposal⟩ := hbefore.exists_entry
          (P := fun s => ∃ q ∈ s.approvals ++ s.loose, q.Same p) hnone hthere
        refine ⟨f, hf, ?_⟩
        rcases (hbefore.forall_step f hf).origin hq with ⟨q', hq', hsame⟩ | ⟨hlabel, hacc, hpend, hprop⟩
        · exact absurd ⟨q', hq', hsame.1.trans haccount, hsame.2.1.trans hview, hsame.2.2.trans hproposal⟩ hno
        · exact ⟨hlabel, haccount ▸ hacc, hview ▸ hpend, hview ▸ hproposal ▸ hprop⟩
  · have hsum := h.sum_le ExitApp.waiting (fun e => presses e - landings e) fun e he =>
      waiting_step (h.forall_step e he)
    have hstart : s.waiting = 0 := by
      unfold ExitApp.waiting
      rw [hs.approvals, hs.loose]
      rfl
    rw [Sums.sum_map_sub] at hsum
    have hend := waiting_nonneg t
    omega
  · intro htoast
    have hnot : ¬ (s.toast = some .approved ∨ ∃ p ∈ s.approvals, p.landed = true) := by
      rw [hs.toast, hs.approvals]
      simp
    obtain ⟨e, he, hpre, hpost⟩ := h.exists_entry
      (P := fun s => s.toast = some .approved ∨ ∃ p ∈ s.approvals, p.landed = true) hnot (.inl htoast)
    exact ⟨e, he, (h.forall_step e he).landed hpre hpost⟩

/-! ## A first approval -/

/-- A browser that knows pools 1 and 2. -/
def firstClient : VaultClient :=
  createVaultClient (fun c => match c with
    | .usd => some (SoroSense.Address.contract 1).strkey
    | .eur => some (SoroSense.Address.contract 2).strkey
    | .mxn => none) Backend.demoClient.strkey fun _ => "HostError"

/-- The page of a depositor whose pool is frozen, with an exit proposed. -/
def firstSheet : ExitApp where
  outside   := ⟨(World.opening 1000 5000).after (exitRun 500), Backend.catalogApy⟩
  account   := none
  viewer    := ⟨none, []⟩
  opened    := false
  toast     := none
  approvals := []
  loose     := []

/-- Account 2 connects and waits for what the hook finds. -/
theorem firstSheet_shows : ∃ tr view proposal target,
    Run (ExitStep firstClient true) firstSheet tr { firstSheet with account := some 2, viewer := ⟨some view, []⟩ } ∧
      view.proposal = some proposal ∧ proposal.id = "1" ∧ view.toMeta = some target ∧ target.name = "Blend EURC" := by
  have hfound : (((usePendingExit firstClient true (some 2)).now firstSheet.outside).bind fun found =>
      found.bind fun view => view.proposal.bind fun proposal => view.toMeta.map fun target =>
        (proposal.id, target.name)) = some ("1", "Blend EURC") := by decide +kernel
  rw [Option.bind_eq_some_iff] at hfound
  obtain ⟨found, hnow, hfound⟩ := hfound
  rw [Option.bind_eq_some_iff] at hfound
  obtain ⟨view, rfl, hfound⟩ := hfound
  obtain ⟨proposal, hproposal, hfound⟩ := Option.bind_eq_some_iff.mp hfound
  obtain ⟨target, htarget, hfound⟩ := Option.map_eq_some_iff.mp hfound
  obtain ⟨hid, hname⟩ := Prod.mk.inj hfound
  obtain ⟨looks, hlooks⟩ := Viewer.run_now firstSheet.outside none (usePendingExit firstClient true (some 2))
  rw [hnow, Option.getD_some] at hlooks
  let connected : ExitApp := { firstSheet with account := some 2 }
  have hconnect : Run (ExitStep firstClient true) firstSheet _ (connected.refetch firstClient true) :=
    .single (.connect (o := some 2))
  have hread : Run (ExitStep firstClient true) (connected.refetch firstClient true) _
      { connected with viewer := ⟨some view, []⟩ } :=
    hlooks.map (fun v => { connected with viewer := v }) (fun _ => .look) fun e he =>
      .look (hlooks.forall_step e he)
  exact ⟨_, view, proposal, target, hconnect.append hread, hproposal, hid, htarget, hname⟩

/-- Account 2 approves what it is shown, and the exit lands as it was shown. -/
theorem approves_what_was_shown_firstSheet :
    ∃ tr t, Run (ExitStep firstClient true) firstSheet tr t ∧ t.toast = some .approved ∧
      ∃ e ∈ tr, ∃ p, landing e = some p ∧
        Executes firstClient p e.pre.outside.world e.post.outside.world := by
  have hreach : Reachable Genesis SoroSense.Step firstSheet.outside.world := (Genesis.opening (by decide)).reachable _
  obtain ⟨shows, view, proposal, target, hshown, hproposal, hid, -, -⟩ := firstSheet_shows
  obtain ⟨w, hexec⟩ := isOk_iff.mp (show ((Vault.Call.approveExit (.account 2) 1).exec (Auth.signers [2])
    firstSheet.outside.world).isOk = true by decide +kernel)
  let sheet : ExitApp := { firstSheet with account := some 2, viewer := ⟨some view, []⟩, opened := true }
  let pressed : Approval := ⟨2, view, proposal, false, true⟩
  have hpress : sheet.onApprove = { sheet with approvals := [pressed] } :=
    sheet.onApprove_of_shown rfl rfl hproposal rfl
  have hcall : pressed.call = some (.approveExit (.account 2) 1) := by
    have hone : bigInt pressed.proposal.id.toList = .ok ((1 : ℕ) : Int) := hid ▸ bigInt_toString 1
    exact Approval.call_of_bigInt hone
  have happrove : ExitStep firstClient true sheet .approve sheet.onApprove := .approve rfl
  rw [hpress] at happrove
  have hopened := hshown.append (.single (.toggle (b := true)))
  have hsent := hopened.append (.single happrove)
  have hlanded := hsent.append (.single (.lands (i := 0) rfl hcall rfl hexec))
  have hdone := hlanded.append (.single (.reply (i := 0) (r := .success) rfl rfl))
  obtain ⟨hexecutes, -, -, hsaid⟩ := approves_what_was_shown hreach hdone ⟨rfl, rfl, rfl, rfl⟩
  obtain ⟨e, he, p, hp⟩ := hsaid rfl
  obtain ⟨tr₁, tr₂, htr⟩ := List.append_of_mem he
  exact ⟨_, _, hdone, rfl, e, he, p, hp, (hexecutes tr₁ e tr₂ p htr hp).2⟩

end Frontend
end SoroSense
