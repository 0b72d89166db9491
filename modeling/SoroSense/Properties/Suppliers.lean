import SoroSense.YieldPool.Market
import SoroSense.Vault.Storage

/-!
# `Properties.Suppliers` — what a supplier can take out of a pool

The suppliers of a pool trust each other to transfer what they book: `supply` neither moves nor checks
tokens. `paid_le_booked_add_accrued` is what the pool itself guarantees, and
`stranger_paid_from_vaults_principal` what it leaves to that trust.
-/

namespace SoroSense
namespace YieldPool

open Transition

variable {self : Address} {m m' : Market} {tr : List (Event Market Act)}

/-- **Payouts are bounded by bookings.** In every run of a pool, for every address: what it was paid is
    at most what its own supplies booked plus the interest its position accrued; so it is at most what it
    transferred plus that interest, for an address that transferred what it booked; and its position was
    lowered only by payouts it signed. -/
theorem paid_le_booked_add_accrued (h : m.Fresh) (hr : Run (Market.Step self) m tr m') (x : Address) :
    (tr.map (paid x)).sum ≤ (tr.map (booked x)).sum + (tr.map (accrued x)).sum ∧
    ((tr.map (booked x)).sum ≤ (tr.map (transferred self x)).sum →
      (tr.map (paid x)).sum ≤ (tr.map (transferred self x)).sum + (tr.map (accrued x)).sum) ∧
    (∀ e ∈ tr, e.post.worth x < e.pre.worth x →
      ∃ auth amount, e.label = .call auth (.withdraw x amount) ∧ auth x = true) := by
  have hev := Market.run_events h.wf hr
  have hwf : m'.WF := hr.invariant (fun _ _ _ hw hs => hw.step hs) h.wf
  have hlaw := paid_add_worth h hr x
  have hworth : 0 ≤ m'.worth x := hwf.pool_wf.value_nonneg
  refine ⟨by omega, fun hcov => by omega, fun e he hlt => ?_⟩
  exact (hev e he).1.worth_falls (hev e he).2.1 hlt

/-- A pool at ten percent, at address 1; the vault and every account hold 1000 of its token. -/
def Market.opening : Market where
  now    := 0
  tokens _ who := match who with
    | .account _   => 1000
    | .contract id => if id = 0 then 1000 else 0
  pool   := ⟨.account 0, .contract 100, 1000, 0, 0, 0, fun _ => none⟩

theorem Market.Fresh.opening : Market.opening.Fresh := ⟨by decide, .account 0, .contract 100, 1000, rfl⟩

/-- The vault transfers 1000 and books them, as `supply_to_pool` does; account 2 transfers `amount`, books
    1000 and is paid 1000. -/
def strangerActs (amount : Int) : List Act :=
  [.transfer (Auth.invoker vaultAddress) (.contract 100) vaultAddress (.contract 1) 1000,
    .call (Auth.invoker vaultAddress) (.supply vaultAddress 1000),
    .transfer (Auth.signers [2]) (.contract 100) (.account 2) (.contract 1) amount,
    .call (Auth.signers [2]) (.supply (.account 2) 1000),
    .call (Auth.signers [2]) (.withdraw (.account 2) 1000)]

/-- The transitions of `strangerActs`, and the market they lead to. -/
def strangerTrace (amount : Int) : List (Event Market Act) :=
  Execution.trace (Act.exec (.contract 1)) .opening (strangerActs amount)

def strangerMarket (amount : Int) : Market :=
  Execution.after (Act.exec (.contract 1)) .opening (strangerActs amount)

theorem strangerRun (amount : Int) : Run (Market.Step (.contract 1)) .opening (strangerTrace amount)
    (strangerMarket amount) := by
  have hext : ∀ a ∈ strangerActs amount, a.External (.contract 1) := by
    simp [strangerActs, Act.External, Auth.invoker, Auth.signers, vaultAddress]
  exact Execution.run_trace_restrict (fun m a m' => a.exec (.contract 1) m = .ok m')
    (Act.External (.contract 1)) (fun _ _ _ hx => hx) _ hext

/-- Account 2 transfers the 1000 it books, and is paid no more than that. -/
theorem paid_le_booked_add_accrued_strangerRun :
    ((strangerTrace 1000).map (paid (.account 2))).sum
      ≤ ((strangerTrace 1000).map (transferred (.contract 1) (.account 2))).sum
        + ((strangerTrace 1000).map (accrued (.account 2))).sum :=
  (paid_le_booked_add_accrued Market.Fresh.opening (strangerRun 1000) (.account 2)).2.1 (by decide +kernel)

/-- **A booking is enough.** The vault transfers its 1000 before it books them; account 2 transfers
    nothing, books 1000 and is paid 1000, no interest having accrued. The vault is still owed its 1000
    and the pool holds nothing. -/
theorem stranger_paid_from_vaults_principal :
    ∃ m tr m', Market.Fresh m ∧ Run (Market.Step (.contract 1)) m tr m' ∧
      (tr.map (transferred (.contract 1) vaultAddress)).sum = 1000 ∧
      (tr.map (transferred (.contract 1) (.account 2))).sum = 0 ∧
      (tr.map (accrued (.account 2))).sum = 0 ∧
      (tr.map (paid (.account 2))).sum = 1000 ∧
      m'.worth vaultAddress = 1000 ∧ m'.tokens m'.pool.token (.contract 1) = 0 :=
  ⟨_, _, _, Market.Fresh.opening, strangerRun 0, by decide +kernel, by decide +kernel, by decide +kernel,
    by decide +kernel, by decide +kernel, by decide +kernel⟩

end YieldPool
end SoroSense
