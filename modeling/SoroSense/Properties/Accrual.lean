import SoroSense.Lib.Schedule
import SoroSense.Properties.Suppliers

/-!
# `Properties.Accrual` — yield is path-independent and never retroactive

Two paths of the contract advance the index, the roll that a call persists and the read that persists
nothing, and any call of anybody rolls. `Accrues` is what survives all of it: the index is the integral of
the rate (`Lib.Schedule`), and a supplier's position is a replay of that supplier's own calls against that
integral. No other call appears in either.
-/

namespace SoroSense
namespace YieldPool

open Fallible Transition

/-! ## What the law speaks of -/

/-- The rate a transition sets, and when. -/
def rateChange (e : Event Market Act) : Option (Nat × Int) :=
  match e.label with
  | .call _ (.setRate rateBps) => some (e.pre.now, rateBps)
  | _                          => none

/-- The call `x` makes on its own position in a transition, and when. -/
def ownCall (x : Address) (e : Event Market Act) : Option (Nat × Call) :=
  match e.label with
  | .call _ (.supply sender amount)      => if sender = x then some (e.pre.now, .supply x amount) else none
  | .call _ (.withdraw recipient amount) => if recipient = x then some (e.pre.now, .withdraw x amount) else none
  | _ => none

/-- The index of a pool deployed as in `m₀` after these rate changes: every rate times the seconds it was in
    force. -/
def indexOf (m₀ : Market) (changes : List (Nat × Int)) (t : Nat) : Int :=
  Schedule.integral m₀.now (m₀.pool.rateBps : Int) changes t

/-- What a stored position is worth at an index. -/
def worthAt (pos : Option Position) (index : Int) : Int :=
  match pos with
  | some pos => exactValue pos.principal pos.entryIndex index
  | none     => 0

/-- What the code reads of it. -/
def readAt (pos : Option Position) (index : Int) : Except Panic Int :=
  match pos with
  | some pos => valueAt pos.principal pos.entryIndex index
  | none     => .ok 0

/-- A position after its owner's call at a time. -/
def rebook (index : Nat → Int) (pos : Option Position) : Nat × Call → Option Position
  | (t, .supply _ amount)   => some ⟨worthAt pos (index t) + amount, index t⟩
  | (t, .withdraw _ amount) => some ⟨worthAt pos (index t) - amount, index t⟩
  | (_, .setRate _)         => pos

/-- A position after its owner's calls, in order. -/
def replay (index : Nat → Int) (calls : List (Nat × Call)) : Option Position :=
  calls.foldl (rebook index) none

variable {self x : Address} {m m' m₀ : Market} {a : Act} {s : State} {tr : List (Event Market Act)}
  {now t : Nat} {changes : List (Nat × Int)} {calls new : List (Nat × Call)}

/-- Only the index at the times of the calls matters. -/
theorem replay_congr {index index' : Nat → Int} (h : ∀ k ∈ calls, index k.1 = index' k.1) :
    replay index calls = replay index' calls := by
  have hfold : ∀ pos, calls.foldl (rebook index) pos = calls.foldl (rebook index') pos := by
    induction calls with
    | nil => exact fun _ => rfl
    | cons k calls ih =>
        intro pos
        have hk : rebook index pos k = rebook index' pos k := by
          obtain ⟨t, call⟩ := k
          have ht : index t = index' t := h (t, call) List.mem_cons_self
          cases call with
          | supply _ _   => rw [rebook, rebook, ht]
          | withdraw _ _ => rw [rebook, rebook, ht]
          | setRate _    => rfl
        rw [List.foldl_cons, List.foldl_cons, hk]
        exact ih (fun j hj => h j (List.mem_cons_of_mem _ hj)) _
  exact hfold none

/-- The index grows by the rate in force. -/
theorem State.indexAt_of_le (hts : s.lastIndexTs ≤ now) (hle : now ≤ t) :
    s.indexAt t = s.indexAt now + (t - now : Nat) • (s.rateBps : Int) := by
  have hsplit : ((t - s.lastIndexTs : Nat) : Int) = (now - s.lastIndexTs : Nat) + (t - now : Nat) := by omega
  unfold State.indexAt
  rw [hsplit, nsmul_eq_mul]
  ring

/-! ## One step -/

/-- **The law of accrual** for a pool deployed as in `m₀`, after these changes of the rate and these calls
    of `x`. -/
structure Accrues (m₀ : Market) (x : Address) (changes : List (Nat × Int)) (calls : List (Nat × Call))
    (m : Market) : Prop where
  wf       : m.WF
  started  : m₀.now ≤ m.now
  changed  : ∀ c ∈ changes, c.1 ≤ m.now
  rate     : (m.pool.rateBps : Int) = Schedule.current (m₀.pool.rateBps : Int) changes
  index    : m.pool.indexAt m.now = indexOf m₀ changes m.now
  called   : ∀ k ∈ calls, k.1 ≤ m.now
  position : m.pool.position x = replay (indexOf m₀ changes) calls

theorem Accrues.fresh (h : m₀.Fresh) : Accrues m₀ x [] [] m₀ := by
  obtain ⟨_, _, _, hc⟩ := h.constructed
  refine ⟨h.wf, le_refl _, by simp, rfl, ?_, by simp, (State.construct_wf hc).2.2 x⟩
  simp only [construct, bind_eq_ok, failIf_eq_ok, exists_const, not_lt, ok_eq_ok] at hc
  obtain ⟨_, hpool⟩ := hc
  rw [indexOf, Schedule.integral_self, ← hpool]
  simp [State.indexAt]

/-- A call that keeps the rate leaves the index alone, and rebooks what is `x`'s. -/
theorem Accrues.booked {tokens : Tokens} (h : Accrues m₀ x changes calls m) (hwf : s.WF m.now)
    (hrate : s.rateBps = m.pool.rateBps) (hindex : s.indexAt m.now = m.pool.indexAt m.now)
    (hnew : ∀ k ∈ new, k.1 = m.now)
    (hpos : s.position x = new.foldl (rebook (indexOf m₀ changes)) (m.pool.position x)) :
    Accrues m₀ x changes (calls ++ new) ⟨m.now, tokens, s⟩ := by
  refine ⟨⟨h.wf.clock, hwf⟩, h.started, h.changed, ?_, hindex.trans h.index, ?_, ?_⟩
  · rw [← h.rate, ← hrate]
  · intro k hk
    rcases List.mem_append.mp hk with hk | hk
    · exact h.called k hk
    · exact le_of_eq (hnew k hk)
  · rw [replay, List.foldl_append, ← replay, ← h.position]
    exact hpos

/-- A new rate counts from now on, and re-prices nobody's past. -/
theorem Accrues.rated {r : Nat} (h : Accrues m₀ x changes calls m) (hwf : (m.pool.rated m.now r).WF m.now) :
    Accrues m₀ x (changes ++ [(m.now, (r : Int))]) calls { m with pool := m.pool.rated m.now r } := by
  have hpast : ∀ t, t ≤ m.now → indexOf m₀ (changes ++ [(m.now, (r : Int))]) t = indexOf m₀ changes t :=
    fun t ht => Schedule.integral_append_of_le ht
  refine ⟨⟨h.wf.clock, hwf⟩, h.started, ?_, Schedule.current_append.symm, ?_, h.called, ?_⟩
  · intro c hc
    rcases List.mem_append.mp hc with hc | hc
    · exact h.changed c hc
    · rw [List.mem_singleton.mp hc]
  · rw [hpast m.now (le_refl _)]
    exact State.indexAt_rated.trans h.index
  · rw [replay_congr (fun k hk => hpast k.1 (h.called k hk))]
    exact h.position

/-- From the state of a pool on, the index is what the integral says. -/
theorem Accrues.indexAt (h : Accrues m₀ x changes calls m) (hle : m.now ≤ t) :
    m.pool.indexAt t = indexOf m₀ changes t := by
  -- no rate changed since the pool was last looked at
  have hfwd : indexOf m₀ changes t = indexOf m₀ changes m.now + (t - m.now : Nat) • (m.pool.rateBps : Int) := by
    rw [h.rate]
    exact Schedule.integral_of_le h.started h.changed hle
  rw [hfwd, ← h.index]
  exact State.indexAt_of_le h.wf.pool_wf.ts_le hle

theorem Accrues.advanced (h : Accrues m₀ x changes calls m) (hle : m.now ≤ t) (ht : t ≤ u64Max) :
    Accrues m₀ x changes calls { m with now := t } where
  wf       := ⟨ht, h.wf.pool_wf.advance hle⟩
  started  := le_trans h.started hle
  changed  := fun c hc => le_trans (h.changed c hc) hle
  rate     := h.rate
  index    := h.indexAt hle
  called   := fun k hk => le_trans (h.called k hk) hle
  position := h.position

/-- What a supply of anybody does to `x`'s position. -/
theorem State.position_supplied {sender : Address} {amount : Int} {index : Nat → Int}
    (hi : s.indexAt now = index now) :
    (s.supplied now sender amount).position x
      = (if sender = x then some (now, Call.supply x amount) else none).toList.foldl (rebook index)
        (s.position x) := by
  by_cases hx : sender = x
  · subst hx
    rw [if_pos rfl, Option.toList_some, List.foldl_cons, List.foldl_nil, rebook, ← hi]
    exact State.setPosition_self
  · rw [if_neg hx]
    exact State.position_supplied_ne (Ne.symm hx)

/-- What a payout to anybody does to it. -/
theorem State.position_withdrawn {recipient : Address} {amount : Int} {index : Nat → Int}
    (hi : s.indexAt now = index now) :
    (s.withdrawn now recipient amount).position x
      = (if recipient = x then some (now, Call.withdraw x amount) else none).toList.foldl (rebook index)
        (s.position x) := by
  by_cases hx : recipient = x
  · subst hx
    rw [if_pos rfl, Option.toList_some, List.foldl_cons, List.foldl_nil, rebook, ← hi]
    exact State.setPosition_self
  · rw [if_neg hx]
    exact State.position_withdrawn_ne (Ne.symm hx)

/-- **Every step keeps the law**, with the change or the call it made, if any, added to the history. -/
theorem Accrues.step (h : Accrues m₀ x changes calls m) (hs : Market.Step self m a m') :
    Accrues m₀ x (changes ++ (rateChange ⟨m, a, m'⟩).toList) (calls ++ (ownCall x ⟨m, a, m'⟩).toList) m' := by
  have hwf' := h.wf.step hs
  cases hs.effect h.wf with
  | transferred =>
      simp only [rateChange, ownCall, Option.toList_none, List.append_nil]
      exact ⟨hwf', h.started, h.changed, h.rate, h.index, h.called, h.position⟩
  | advanced hle ht =>
      simp only [rateChange, ownCall, Option.toList_none, List.append_nil]
      exact h.advanced hle ht
  | supplied _ _ hwf =>
      simp only [rateChange, ownCall, Option.toList_none, List.append_nil]
      apply h.booked hwf rfl State.indexAt_supplied ?_ (State.position_supplied h.index)
      split <;> simp
  | withdrawn _ _ _ hwf =>
      simp only [rateChange, ownCall, Option.toList_none, List.append_nil]
      apply h.booked hwf rfl State.indexAt_withdrawn ?_ (State.position_withdrawn h.index)
      split <;> simp
  | rated hwf =>
      simp only [rateChange, ownCall, Option.toList_some, Option.toList_none, List.append_nil]
      exact h.rated hwf

/-! ## Whole runs -/

/-- The rate changes of a run. -/
def rateChanges (tr : List (Event Market Act)) : List (Nat × Int) := tr.filterMap rateChange

/-- The calls of `x` on its own position, in a run. -/
def ownCalls (x : Address) (tr : List (Event Market Act)) : List (Nat × Call) := tr.filterMap (ownCall x)

/-- **A run keeps the law.** -/
theorem Accrues.run (h : Accrues m₀ x changes calls m) (hr : Run (Market.Step self) m tr m') :
    Accrues m₀ x (changes ++ rateChanges tr) (calls ++ ownCalls x tr) m' := by
  induction hr generalizing changes calls with
  | nil m => simpa [rateChanges, ownCalls] using h
  | @cons m n m' a tr hs _ ih =>
      have hcons : ∀ {β : Type} (f : Event Market Act → Option β),
          (Event.mk m a n :: tr).filterMap f = (f ⟨m, a, n⟩).toList ++ tr.filterMap f := by
        intro β f
        rw [List.filterMap_cons]
        cases f ⟨m, a, n⟩ <;> rfl
      have hn := ih (h.step hs)
      rw [rateChanges, ownCalls, hcons, hcons, ← List.append_assoc, ← List.append_assoc]
      exact hn

/-- What the pool reads is read off the history. -/
theorem Accrues.balance_eq (h : Accrues m₀ x changes calls m) (hle : m.now ≤ t) (ht : t ≤ u64Max) :
    balance t m.pool x = readAt (replay (indexOf m₀ changes) calls) (indexOf m₀ changes t) := by
  rw [balance, currentIndex_eq (h.wf.pool_wf.advance hle) ht, ← h.position, ← h.indexAt hle]
  rfl

/-- **What is not a call of `x` on its own position moves nothing `x` reads**, at the instant it is made. -/
theorem Market.WF.balance_step (h : m.WF) (hs : Market.Step self m a m')
    (hown : ownCall x ⟨m, a, m'⟩ = none) (htime : ∀ t, a ≠ .advance t) :
    balance m'.now m'.pool x = balance m.now m.pool x := by
  have hwf' := (h.step hs).pool_wf
  cases hs.effect h with
  | transferred    => rfl
  | advanced _ _   => exact absurd rfl (htime _)
  | @supplied auth sender amount _ _ _ =>
      have hne : x ≠ sender := by
        rintro rfl
        exact absurd hown (by simp [ownCall])
      exact balance_congr h.pool_wf hwf' h.clock State.indexAt_supplied (State.position_supplied_ne hne)
  | @withdrawn auth recipient amount _ _ _ _ =>
      have hne : x ≠ recipient := by
        rintro rfl
        exact absurd hown (by simp [ownCall])
      exact balance_congr h.pool_wf hwf' h.clock State.indexAt_withdrawn (State.position_withdrawn_ne hne)
  | rated _ =>
      exact balance_congr h.pool_wf hwf' h.clock State.indexAt_rated rfl

/-- **Yield accrues path-independently, and never retroactively.** In every run of a pool from its
    deployment, from its last state on:

    * the index, read in memory or rolled, is every rate times the seconds it was in force;
    * a supplier's balance is what its own calls make of that index, so any other run with the same rates
      and the same calls of that supplier reads the same;
    * setting the rate moves nobody's balance at that instant, and neither does any call of another. -/
theorem accrual_path_independent (h : m₀.Fresh) (hr : Run (Market.Step self) m₀ tr m) :
    (∀ t, m.now ≤ t → t ≤ u64Max → currentIndex t m.pool = .ok (indexOf m₀ (rateChanges tr) t) ∧
      (rollIndex t m.pool).map Prod.snd = .ok (indexOf m₀ (rateChanges tr) t)) ∧
    (∀ x t, m.now ≤ t → t ≤ u64Max → balance t m.pool x
      = readAt (replay (indexOf m₀ (rateChanges tr)) (ownCalls x tr)) (indexOf m₀ (rateChanges tr) t)) ∧
    (∀ x self' n₀ tr' n, Market.Fresh n₀ → Run (Market.Step self') n₀ tr' n →
      n₀.now = m₀.now → n₀.pool.rateBps = m₀.pool.rateBps → rateChanges tr' = rateChanges tr →
      ownCalls x tr' = ownCalls x tr →
      ∀ t, m.now ≤ t → n.now ≤ t → t ≤ u64Max → balance t n.pool x = balance t m.pool x) ∧
    (∀ e ∈ tr, ∀ x, ownCall x e = none → (∀ t, e.label ≠ .advance t) →
      balance e.post.now e.post.pool x = balance e.pre.now e.pre.pool x) ∧
    (∀ e ∈ tr, ∀ auth rateBps, e.label = .call auth (.setRate rateBps) → ∀ x,
      balance e.post.now e.post.pool x = balance e.pre.now e.pre.pool x) := by
  have hlaw : ∀ x, Accrues m₀ x (rateChanges tr) (ownCalls x tr) m := fun x => (Accrues.fresh h).run hr
  have hev := Market.run_events h.wf hr
  refine ⟨fun t hle ht => ?_, fun x t hle ht => (hlaw x).balance_eq hle ht, ?_,
    fun e he x hown htime => (hev e he).1.balance_step (hev e he).2.1 hown htime, ?_⟩
  · have hwf := (hlaw self).wf.pool_wf.advance hle
    rw [currentIndex_eq hwf ht, rollIndex_eq hwf ht, (hlaw self).indexAt hle]
    exact ⟨rfl, rfl⟩
  · intro x self' n₀ tr' n h' hr' hnow hrate hchanges hcalls t hle hle' ht
    have hlaw' := (Accrues.fresh (x := x) h').run hr'
    have hindex : indexOf n₀ (rateChanges tr') = indexOf m₀ (rateChanges tr) := by
      unfold indexOf
      rw [hnow, hrate, hchanges]
    rw [hlaw'.balance_eq hle' ht, (hlaw x).balance_eq hle ht]
    show readAt (replay (indexOf n₀ (rateChanges tr')) (ownCalls x tr')) (indexOf n₀ (rateChanges tr') t) = _
    rw [hindex, hcalls]
  · rintro ⟨m₁, a, m₂⟩ he auth r hl x
    obtain rfl : a = .call auth (.setRate r) := hl
    exact (hev _ he).1.balance_step (hev _ he).2.1 rfl (by simp)

/-- Account 2 books a stake; the rate doubles after twenty seconds. In between comes whatever `meddling`
    does. -/
def accrualActs (meddling : List Act) : List Act :=
  [.call (Auth.signers [2]) (.supply (.account 2) 315360000000), .advance 10] ++ meddling ++
    [.advance 20, .call (Auth.signers [0]) (.setRate 2000), .advance 30]

/-- Account 3 comes and goes, rolling the index each time. -/
def meddling : List Act :=
  [.call (Auth.signers [3]) (.supply (.account 3) 5000), .transfer (Auth.signers [3]) (.contract 100)
    (.account 3) (.contract 1) 900, .advance 15, .call (Auth.signers [3]) (.withdraw (.account 3) 700)]

def accrualTrace (meddling : List Act) : List (Event Market Act) :=
  Execution.trace (Act.exec (.contract 1)) .opening (accrualActs meddling)

def accrualMarket (meddling : List Act) : Market :=
  Execution.after (Act.exec (.contract 1)) .opening (accrualActs meddling)

theorem accrualRun {meddling : List Act} (hm : ∀ a ∈ meddling, a.External (.contract 1)) :
    Run (Market.Step (.contract 1)) .opening (accrualTrace meddling) (accrualMarket meddling) := by
  have hext : ∀ a ∈ accrualActs meddling, a.External (.contract 1) := by
    simpa [accrualActs, or_imp, forall_and, Act.External, Auth.signers] using hm
  exact Execution.run_trace_restrict (fun m a m' => a.exec (.contract 1) m = .ok m')
    (Act.External (.contract 1)) (fun _ _ _ hx => hx) _ hext

/-- Twenty seconds at 1000 and ten at 2000, with account 3 around or without it: 40000 on a stake of one
    `bpsYear`. -/
theorem accrual_path_independent_meddling :
    balance 30 (accrualMarket meddling).pool (.account 2) = balance 30 (accrualMarket []).pool (.account 2) ∧
    balance 30 (accrualMarket []).pool (.account 2) = .ok 315360040000 ∧
    (accrualTrace meddling).length = 9 := by
  have hquiet : ∀ a ∈ ([] : List Act), a.External (.contract 1) := by simp
  have hbusy : ∀ a ∈ meddling, a.External (.contract 1) := by simp [meddling, Act.External, Auth.signers]
  have hrun := accrualRun hquiet
  have hrun' := accrualRun hbusy
  exact ⟨(accrual_path_independent Market.Fresh.opening hrun).2.2.1 _ _ _ _ _ Market.Fresh.opening hrun' rfl
    rfl (by decide +kernel) (by decide +kernel) 30 (by decide +kernel) (by decide +kernel) (by decide +kernel),
    by decide +kernel, by decide +kernel⟩

end YieldPool
end SoroSense
