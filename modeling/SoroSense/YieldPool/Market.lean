import SoroSense.YieldPool.Spec
import SoroSense.Lib.Execution
import SoroSense.Lib.Sums

/-!
# `YieldPool.Market` — one pool among suppliers who do not trust each other

The pool on its own: anybody transfers tokens, supplies, withdraws, sets the rate (where the pool lets
them), and time passes. A call that panics reverts, so it is no transition.

The pool keeps one ledger, and `worth_step` is its law: a position moves by what its owner books, by what
its owner is paid, and by interest. Nothing in the law speaks of what a supplier transferred: in the push
token model the booking is the money.
-/

namespace SoroSense
namespace YieldPool

open Fallible Transition

/-! ## The system -/

/-- What one pool and its suppliers share. -/
structure Market where
  now    : Nat
  tokens : Tokens
  pool   : State

/-- A transaction on or around the pool, with the authorisations it carries. -/
inductive Act where
  | transfer (auth : Auth) (token sender recipient : Address) (amount : Int)
  | call (auth : Auth) (call : Call)
  | advance (timestamp : Nat)

/-- Run one transaction; `self` is the pool's address. -/
def Act.exec (self : Address) (m : Market) : Act → Except Panic Market
  | .transfer auth token sender recipient amount => do
      requireAuth auth sender
      let tokens ← m.tokens.transfer token sender recipient amount
      .ok { m with tokens := tokens }
  | .call auth (.supply sender amount) => do
      let pool ← supply auth m.now m.pool sender amount
      .ok { m with pool := pool }
  | .call auth (.withdraw recipient amount) => do
      let (pool, tokens) ← withdraw auth m.now self m.pool m.tokens recipient amount
      .ok { m with pool := pool, tokens := tokens }
  | .call auth (.setRate rateBps) => do
      let pool ← setRate auth m.now m.pool rateBps
      .ok { m with pool := pool }
  | .advance timestamp => do
      failIf (timestamp < m.now ∨ u64Max < timestamp) .ledger
      .ok { m with now := timestamp }

/-- The pool signs no transaction from outside. -/
def Act.External (self : Address) : Act → Prop
  | .transfer auth _ _ _ _ => auth self = false
  | .call auth _           => auth self = false
  | .advance _             => True

/-- One transaction that took effect. -/
def Market.Step (self : Address) (m : Market) (a : Act) (m' : Market) : Prop :=
  a.exec self m = .ok m' ∧ a.External self

/-- A pool just deployed, over any token balances. -/
structure Market.Fresh (m : Market) : Prop where
  clock       : m.now ≤ u64Max
  constructed : ∃ admin token rateBps, construct m.now admin token rateBps = .ok m.pool

/-- What `x`'s position is worth. -/
def Market.worth (m : Market) (x : Address) : Int := m.pool.value m.now x

/-! ## Flows -/

variable {self x : Address} {m m' : Market} {a : Act} {tr : List (Event Market Act)}

/-- What the pool pays `x` in a transition. -/
def paid (x : Address) (e : Event Market Act) : Int :=
  match e.label with
  | .call _ (.withdraw recipient amount) => if recipient = x then amount else 0
  | _                                    => 0

/-- What `x` books in a transition. -/
def booked (x : Address) (e : Event Market Act) : Int :=
  match e.label with
  | .call _ (.supply sender amount) => if sender = x then amount else 0
  | _                               => 0

/-- What `x` transfers to the pool, in the pool's token. -/
def transferred (self x : Address) (e : Event Market Act) : Int :=
  match e.label with
  | .transfer _ token sender recipient amount =>
      if token = e.pre.pool.token ∧ sender = x ∧ recipient = self then amount else 0
  | _ => 0

/-- The interest `x`'s position accrues: what time adds to its worth. -/
def accrued (x : Address) (e : Event Market Act) : Int :=
  match e.label with
  | .advance _ => e.post.worth x - e.pre.worth x
  | _          => 0

/-! ## One step -/

/-- The pool is well formed at the time of the ledger. -/
structure Market.WF (m : Market) : Prop where
  clock   : m.now ≤ u64Max
  pool_wf : m.pool.WF m.now

theorem Market.Fresh.wf (h : m.Fresh) : m.WF := by
  obtain ⟨_, _, _, hc⟩ := h.constructed
  exact ⟨h.clock, (State.construct_wf hc).1⟩

theorem Market.Fresh.worth_eq_zero (h : m.Fresh) : m.worth x = 0 := by
  obtain ⟨_, _, _, hc⟩ := h.constructed
  exact State.value_of_none ((State.construct_wf hc).2.2 x)

/-- **What one transaction can do to a market.** -/
inductive Market.Effect (self : Address) (m : Market) : Act → Market → Prop where
  | transferred {auth : Auth} {token sender recipient : Address} {amount : Int} :
      Effect self m (.transfer auth token sender recipient amount)
        { m with tokens := m.tokens.move token sender recipient amount }
  | supplied {auth : Auth} {sender : Address} {amount : Int} (hsig : auth sender = true) (hpos : 0 < amount)
      (hs : (m.pool.supplied m.now sender amount).WF m.now) :
      Effect self m (.call auth (.supply sender amount))
        { m with pool := m.pool.supplied m.now sender amount }
  | withdrawn {auth : Auth} {recipient : Address} {amount : Int} (hsig : auth recipient = true)
      (hpos : 0 < amount) (hle : amount ≤ m.pool.value m.now recipient)
      (hs : (m.pool.withdrawn m.now recipient amount).WF m.now) :
      Effect self m (.call auth (.withdraw recipient amount))
        { m with
          pool   := m.pool.withdrawn m.now recipient amount
          tokens := m.tokens.move m.pool.token self recipient amount }
  | rated {auth : Auth} {rateBps : Nat} (hs : (m.pool.rated m.now rateBps).WF m.now) :
      Effect self m (.call auth (.setRate rateBps)) { m with pool := m.pool.rated m.now rateBps }
  | advanced {timestamp : Nat} (hle : m.now ≤ timestamp) (ht : timestamp ≤ u64Max) :
      Effect self m (.advance timestamp) { m with now := timestamp }

/-- A step read backwards. No proof after this one unfolds a call. -/
theorem Market.Step.effect (h : m.WF) (hs : Step self m a m') : Effect self m a m' := by
  obtain ⟨hx, _⟩ := hs
  cases a with
  | transfer auth token sender recipient amount =>
      simp only [Act.exec, bind_eq_ok, Tokens.transfer_eq_ok, ok_eq_ok] at hx
      obtain ⟨_, _, _, ⟨_, _, rfl⟩, rfl⟩ := hx
      exact .transferred
  | call auth call =>
      cases call with
      | supply sender amount =>
          simp only [Act.exec, bind_eq_ok, supply_eq_ok h.pool_wf h.clock, ok_eq_ok] at hx
          obtain ⟨_, ⟨hsig, hpos, _, hf, hft, rfl⟩, rfl⟩ := hx
          exact .supplied hsig hpos (h.pool_wf.supplied h.clock hpos hf hft)
      | withdraw recipient amount =>
          simp only [Act.exec, bind_eq_ok, Prod.exists, withdraw_eq_ok h.pool_wf h.clock, ok_eq_ok] at hx
          obtain ⟨_, _, ⟨hsig, hpos, hpr, hle, _, rfl, rfl⟩, rfl⟩ := hx
          exact .withdrawn hsig hpos hle (h.pool_wf.withdrawn h.clock hpos hle hpr)
      | setRate rateBps =>
          simp only [Act.exec, bind_eq_ok, setRate_eq_ok h.pool_wf h.clock, ok_eq_ok] at hx
          obtain ⟨_, ⟨_, hle, rfl⟩, rfl⟩ := hx
          exact .rated (h.pool_wf.rated h.clock hle)
  | advance timestamp =>
      simp only [Act.exec, bind_eq_ok, failIf_eq_ok, ok_eq_ok, exists_const, not_or, not_lt] at hx
      obtain ⟨⟨hle, ht⟩, rfl⟩ := hx
      exact .advanced hle ht

theorem Market.WF.step (h : m.WF) (hs : Step self m a m') : m'.WF := by
  cases hs.effect h with
  | transferred         => exact ⟨h.clock, h.pool_wf⟩
  | supplied _ _ hwf    => exact ⟨h.clock, hwf⟩
  | withdrawn _ _ _ hwf => exact ⟨h.clock, hwf⟩
  | rated hwf           => exact ⟨h.clock, hwf⟩
  | advanced hle ht     => exact ⟨ht, h.pool_wf.advance hle⟩

/-- **The law of the pool's ledger.** A position moves by what its owner books, by interest, and by what
    its owner is paid. -/
theorem Market.WF.worth_step (h : m.WF) (hs : Step self m a m') :
    m'.worth x = m.worth x + (booked x ⟨m, a, m'⟩ + accrued x ⟨m, a, m'⟩ - paid x ⟨m, a, m'⟩) := by
  cases hs.effect h with
  | transferred =>
      simp [booked, accrued, paid, worth]
  | @supplied auth sender amount _ hpos _ =>
      have hv : 0 ≤ m.pool.value m.now sender := h.pool_wf.value_nonneg
      have hval := State.value_supplied (x := x) (by omega : 0 ≤ m.pool.value m.now sender + amount)
      simpa [booked, accrued, paid, worth, eq_comm] using hval
  | withdrawn _ _ hle _ =>
      have hval := State.value_withdrawn (x := x) hle
      simpa [booked, accrued, paid, worth, eq_comm, sub_eq_add_neg] using hval
  | rated _ =>
      simp [booked, accrued, paid, worth]
  | advanced _ _ =>
      simp [booked, accrued, paid]

/-- Time lowers no position. -/
theorem Market.WF.accrued_nonneg (h : m.WF) (hs : Step self m a m') : 0 ≤ accrued x ⟨m, a, m'⟩ := by
  cases hs.effect h with
  | advanced hle _ => exact sub_nonneg.mpr (State.value_mono hle)
  | _              => exact le_refl _

/-- **Only a payout its owner signed lowers a position.** -/
theorem Market.WF.worth_falls (h : m.WF) (hs : Step self m a m') (hlt : m'.worth x < m.worth x) :
    ∃ auth amount, a = .call auth (.withdraw x amount) ∧ auth x = true := by
  have hstep := h.worth_step (x := x) hs
  have hacc : 0 ≤ accrued x ⟨m, a, m'⟩ := h.accrued_nonneg hs
  cases hs.effect h with
  | supplied _ hpos _ =>
      simp only [booked, paid] at hstep
      split at hstep <;> omega
  | @withdrawn auth recipient amount hsig _ _ _ =>
      by_cases hr : recipient = x
      · subst hr
        exact ⟨auth, amount, rfl, hsig⟩
      · -- somebody else was paid, and `x` keeps its position
        simp only [booked, paid, if_neg hr] at hstep
        omega
  | _ =>
      simp only [booked, paid] at hstep
      omega

/-! ## Whole runs -/

/-- A run from a well-formed market stays well formed, before and after each of its transitions. -/
theorem Market.run_events (h : m.WF) (hr : Run (Market.Step self) m tr m') :
    ∀ e ∈ tr, e.pre.WF ∧ Market.Step self e.pre e.label e.post ∧ e.post.WF :=
  hr.invariant_events (fun _ _ _ hw hs => hw.step hs) h

/-- What `x` was paid and still has is what it booked and earned. -/
theorem paid_add_worth (h : m.Fresh) (hr : Run (Market.Step self) m tr m') (x : Address) :
    (tr.map (paid x)).sum + m'.worth x = (tr.map (booked x)).sum + (tr.map (accrued x)).sum := by
  have hev := Market.run_events h.wf hr
  have hsum := hr.sum_eq (fun m => m.worth x) (fun e => booked x e + accrued x e - paid x e)
    (fun e he => (hev e he).1.worth_step (hev e he).2.1)
  have hsplit : (tr.map fun e => booked x e + accrued x e - paid x e).sum
      = (tr.map (booked x)).sum + (tr.map (accrued x)).sum - (tr.map (paid x)).sum := by
    rw [Sums.sum_map_sub, List.sum_map_add]
  rw [h.worth_eq_zero, hsplit] at hsum
  omega

end YieldPool
end SoroSense
