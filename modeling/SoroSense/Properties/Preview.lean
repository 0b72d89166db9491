import SoroSense.Properties.Suppliers

/-!
# `Properties.Preview` — what a pool shows is what it uses

`balance` advances the index in memory; `supply` and `withdraw` persist it and re-base the position. The two
paths agree for every principal, index and elapsed time, after any history of touches: `Market.Exact` says so
clause by clause, and `exact_of_run` holds in every market a run of transactions reaches.

A read that overflows returns nothing, and then neither does a call that makes it: a clause speaks of
`balance` by the value it returned.
-/

namespace SoroSense
namespace YieldPool

open Fallible Transition

/-! ## The statement -/

/-- The call re-bases `x`'s position. -/
def Call.Of (c : Call) (x : Address) : Prop :=
  match c with
  | .supply sender _      => sender = x
  | .withdraw recipient _ => recipient = x
  | .setRate _            => False

/-- **The pool is exact for `x`**, at the time of the market. -/
structure Market.Exact (self : Address) (m : Market) (x : Address) : Prop where
  /-- The value a call computes after its roll is the value `balance` returns, or neither returns. -/
  used : ∃ s i, rollIndex m.now m.pool = .ok (s, i) ∧ valueOf s x i = balance m.now m.pool x
  supply_adds : ∀ auth a s, supply auth m.now m.pool x a = .ok s →
    ∃ v, balance m.now m.pool x = .ok v ∧ balance m.now s x = .ok (v + a)
  withdraw_iff : ∀ auth a, (∃ r, withdraw auth m.now self m.pool m.tokens x a = .ok r) ↔
    auth x = true ∧ (∃ v, balance m.now m.pool x = .ok v ∧ 0 < a ∧ a ≤ v) ∧ a ≤ m.tokens m.pool.token self
  withdraw_takes : ∀ auth a s t, withdraw auth m.now self m.pool m.tokens x a = .ok (s, t) →
    ∃ v, balance m.now m.pool x = .ok v ∧ balance m.now s x = .ok (v - a)
  /-- The pool itself signs no call, so a recipient is somebody else. -/
  withdraw_pays : ∀ auth a s t, auth self = false →
    withdraw auth m.now self m.pool m.tokens x a = .ok (s, t) →
    t m.pool.token x = m.tokens m.pool.token x + a ∧
    t m.pool.token self = m.tokens m.pool.token self - a
  withdraw_all : ∀ auth v s t, balance m.now m.pool x = .ok v →
    withdraw auth m.now self m.pool m.tokens x v = .ok (s, t) → balance m.now s x = .ok 0
  /-- A call of somebody else leaves `balance` as it was, also where it overflows. -/
  others : ∀ auth c m', ¬ c.Of x → Act.exec self m (.call auth c) = .ok m' →
    balance m'.now m'.pool x = balance m.now m.pool x
  grows : ∀ t₁ t₂ v₁ v₂, m.now ≤ t₁ → t₁ ≤ t₂ → balance t₁ m.pool x = .ok v₁ →
    balance t₂ m.pool x = .ok v₂ → v₁ ≤ v₂
  refused : ∀ a e, Act.exec self m a = .error e → Execution.after (Act.exec self) m [a] = m

/-! ## Clause by clause -/

variable {self x : Address} {m m' : Market} {auth : Auth} {a v : Int}

theorem supply_adds (h : m.WF) {s : State} (hs : supply auth m.now m.pool x a = .ok s) :
    ∃ v, balance m.now m.pool x = .ok v ∧ balance m.now s x = .ok (v + a) := by
  obtain ⟨_, hpos, hpr, hf, hft, rfl⟩ := (supply_eq_ok h.pool_wf h.clock).mp hs
  have hwf := h.pool_wf.supplied h.clock hpos hf hft
  have hafter : balance m.now (m.pool.supplied m.now x a) x
      = .ok ((m.pool.supplied m.now x a).value m.now x) := priced_supplied hwf h.clock
  have hv : 0 ≤ m.pool.value m.now x := h.pool_wf.value_nonneg
  refine ⟨m.pool.value m.now x, hpr, ?_⟩
  rw [hafter, State.value_supplied (by omega), if_pos rfl]

/-- A payout succeeds under its guards and no others: nothing it computes overflows once its read returned. -/
theorem withdraw_isOk_iff (h : m.WF) :
    (∃ r, withdraw auth m.now self m.pool m.tokens x a = .ok r) ↔
      auth x = true ∧ (∃ v, balance m.now m.pool x = .ok v ∧ 0 < a ∧ a ≤ v) ∧
        a ≤ m.tokens m.pool.token self := by
  constructor
  · rintro ⟨⟨s, t⟩, hw⟩
    obtain ⟨hsig, hpos, hpr, hle, hliq, _, _⟩ := (withdraw_eq_ok h.pool_wf h.clock).mp hw
    exact ⟨hsig, ⟨_, hpr, hpos, hle⟩, hliq⟩
  · rintro ⟨hsig, ⟨v, hv, hpos, hle⟩, hliq⟩
    rw [balance_eq_ok hv] at hle
    exact ⟨_, (withdraw_eq_ok h.pool_wf h.clock).mpr ⟨hsig, hpos, priced_of_ok hv, hle, hliq, rfl, rfl⟩⟩

theorem withdraw_takes (h : m.WF) {s : State} {t : Tokens}
    (hw : withdraw auth m.now self m.pool m.tokens x a = .ok (s, t)) :
    ∃ v, balance m.now m.pool x = .ok v ∧ balance m.now s x = .ok (v - a) := by
  obtain ⟨_, hpos, hpr, hle, _, rfl, _⟩ := (withdraw_eq_ok h.pool_wf h.clock).mp hw
  have hwf := h.pool_wf.withdrawn h.clock hpos hle hpr
  have hafter : balance m.now (m.pool.withdrawn m.now x a) x
      = .ok ((m.pool.withdrawn m.now x a).value m.now x) := priced_withdrawn hwf h.clock
  refine ⟨m.pool.value m.now x, hpr, ?_⟩
  rw [hafter, State.value_withdrawn hle, if_pos rfl]

theorem withdraw_pays (h : m.WF) (hself : auth self = false) {s : State} {t : Tokens}
    (hw : withdraw auth m.now self m.pool m.tokens x a = .ok (s, t)) :
    t m.pool.token x = m.tokens m.pool.token x + a ∧
      t m.pool.token self = m.tokens m.pool.token self - a := by
  obtain ⟨hsig, _, _, _, _, _, rfl⟩ := (withdraw_eq_ok h.pool_wf h.clock).mp hw
  have hne : x ≠ self := by
    rintro rfl
    exact absurd (hsig.symm.trans hself) (by simp)
  constructor
  · rw [Tokens.move_apply, if_neg (fun hx => hne hx.2), if_pos ⟨rfl, rfl⟩, sub_zero]
  · rw [Tokens.move_apply, if_pos ⟨rfl, rfl⟩, if_neg (fun hx => hne hx.2.symm), add_zero]

/-- A call re-bases its owner's position only, and reads one index with everybody else. -/
theorem balance_of_others (h : m.WF) {c : Call} (hc : ¬ c.Of x)
    (hx : Act.exec self m (.call auth c) = .ok m') :
    balance m'.now m'.pool x = balance m.now m.pool x := by
  cases c with
  | supply sender amount =>
      simp only [Act.exec, bind_eq_ok, supply_eq_ok h.pool_wf h.clock, ok_eq_ok] at hx
      obtain ⟨_, ⟨_, hpos, _, hf, hft, rfl⟩, rfl⟩ := hx
      apply balance_congr h.pool_wf (h.pool_wf.supplied h.clock hpos hf hft) h.clock
      · exact State.indexAt_supplied
      · exact State.position_supplied_ne fun he => hc he.symm
  | withdraw recipient amount =>
      simp only [Act.exec, bind_eq_ok, Prod.exists, withdraw_eq_ok h.pool_wf h.clock, ok_eq_ok] at hx
      obtain ⟨_, _, ⟨_, hpos, hpr, hle, _, rfl, rfl⟩, rfl⟩ := hx
      apply balance_congr h.pool_wf (h.pool_wf.withdrawn h.clock hpos hle hpr) h.clock
      · exact State.indexAt_withdrawn
      · exact State.position_withdrawn_ne fun he => hc he.symm
  | setRate rateBps =>
      simp only [Act.exec, bind_eq_ok, setRate_eq_ok h.pool_wf h.clock, ok_eq_ok] at hx
      obtain ⟨_, ⟨_, hle, rfl⟩, rfl⟩ := hx
      apply balance_congr h.pool_wf (h.pool_wf.rated h.clock hle) h.clock
      · exact State.indexAt_rated
      · rfl

theorem after_refused {act : Act} {e : Panic} (hx : Act.exec self m act = .error e) :
    Execution.after (Act.exec self) m [act] = m := by
  unfold Execution.after
  rw [hx]

/-! ## Every reachable market -/

/-- **A pool's preview is what its calls use, and its calls are exact**: at every point of every run of a
    pool, time included, for every supplier. -/
theorem exact_of_run (h : m.Fresh) {tr : List (Event Market Act)} (hr : Run (Market.Step self) m tr m')
    (x : Address) : m'.Exact self x := by
  have hwf : m'.WF := hr.invariant (fun _ _ _ hw hs => hw.step hs) h.wf
  exact {
    used           := ⟨_, _, rollIndex_eq hwf.pool_wf hwf.clock, valueOf_rolled hwf.pool_wf hwf.clock⟩
    supply_adds    := fun _ _ _ hs => supply_adds hwf hs
    withdraw_iff   := fun _ _ => withdraw_isOk_iff hwf
    withdraw_takes := fun _ _ _ _ hw => withdraw_takes hwf hw
    withdraw_pays  := fun _ _ _ _ hself hw => withdraw_pays hwf hself hw
    withdraw_all   := fun _ v _ _ hv hw => by
      obtain ⟨v', hv', hafter⟩ := withdraw_takes hwf hw
      rw [hafter, ok_unique hv' hv, sub_self]
    others         := fun _ _ _ hc hx => balance_of_others hwf hc hx
    grows          := fun _ _ _ _ _ hle hv₁ hv₂ => by
      rw [balance_eq_ok hv₁, balance_eq_ok hv₂]
      exact State.value_mono hle
    refused        := fun _ _ hx => after_refused hx }

/-- The vault and account 2 book 1000 each; a year later account 2 is paid 1000. -/
def agedActs : List Act :=
  (strangerActs 1000).take 4 ++ [.advance 31536000, .call (Auth.signers [2]) (.withdraw (.account 2) 1000)]

theorem exact_of_run_agedActs :
    (Execution.after (Act.exec (.contract 1)) .opening agedActs).worth (.account 2) = 100 ∧
      (Execution.after (Act.exec (.contract 1)) .opening agedActs).Exact (.contract 1) (.account 2) := by
  have hext : ∀ a ∈ agedActs, a.External (.contract 1) := by
    simp [agedActs, strangerActs, Act.External, Auth.invoker, Auth.signers, vaultAddress]
  have hrun : Run (Market.Step (.contract 1)) .opening (Execution.trace (Act.exec (.contract 1)) .opening agedActs)
      (Execution.after (Act.exec (.contract 1)) .opening agedActs) :=
    Execution.run_trace_restrict (fun m a m' => a.exec (.contract 1) m = .ok m') (Act.External (.contract 1))
      (fun _ _ _ hx => hx) _ hext
  exact ⟨by decide +kernel, exact_of_run Market.Fresh.opening hrun (.account 2)⟩

end YieldPool
end SoroSense
