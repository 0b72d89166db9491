import SoroSense.Effects

/-!
# `Keeper` — what a keeper can do on its own

The calls the vault takes on the keeper's signature: `allocate`, `deallocate`, `freeze`, `unfreeze`,
`propose_exit`. A `KeeperStep` is one of them with arbitrary arguments, authorised by the keeper and by
nobody else, or time passing; `KeeperStep.effect` reads it backwards, as `Step.effect` does for
everybody's steps.
-/

namespace SoroSense

open Fallible Transition

/-- The calls the keeper's signature is for. -/
def Vault.Call.ByKeeper : Vault.Call → Prop
  | .allocate _ _ _    => True
  | .deallocate _ _ _  => True
  | .freeze _          => True
  | .unfreeze _        => True
  | .proposeExit _ _ _ => True
  | _                  => False

/-- A call of the keeper, or time passing. -/
inductive KeeperAct where
  | vault (call : Vault.Call)
  | wait (timestamp : Nat)
deriving DecidableEq, Repr

/-- The keeper's own signature is enough for it. -/
def KeeperAct.Own : KeeperAct → Prop
  | .vault call => call.ByKeeper
  | .wait _     => True

/-- Run it on that signature alone. -/
def KeeperAct.exec (w : World) : KeeperAct → Except Panic World
  | .vault call     => call.exec (Auth.invoker w.vault.keeper) w
  | .wait timestamp => (Action.advance timestamp).exec w

/-- One call on the keeper's signature alone took effect or reverted, or time passed. -/
inductive KeeperStep (w : World) (a : KeeperAct) : World → Prop where
  | done {w' : World} (hk : a.Own) (h : a.exec w = .ok w') : KeeperStep w a w'
  | reverted {e : Panic} (hk : a.Own) (h : a.exec w = .error e) : KeeperStep w a w

/-- **What a step of the keeper can do to a world.** -/
inductive KeeperEffect (w : World) : KeeperAct → World → Prop where
  | reverted {a : KeeperAct} {e : Panic} (h : a.exec w = .error e) : KeeperEffect w a w
  | waited {t : Nat} (hle : w.timestamp ≤ t) (ht : t ≤ u64Max) :
      KeeperEffect w (.wait t) { w with timestamp := t }
  | flagged {call : Vault.Call} {w' : World} (q : Quiet w w') : KeeperEffect w (.vault call) w'
  | proposed {c : Currency} {p q : Address} :
      KeeperEffect w (.vault (.proposeExit c p q)) (w.proposed c p q)
  | allocated {p : Address} {c : Currency} {amount : Int} {token : Address}
      (g : Vault.AllocateGuard w (Auth.invoker w.vault.keeper) p c amount token) :
      KeeperEffect w (.vault (.allocate p c amount))
        ((w.supplied p c amount token).publish (.allocated c p amount))
  | deallocated {p : Address} {c : Currency} {amount : Int}
      (g : Vault.DeallocateGuard w (Auth.invoker w.vault.keeper) p c amount) :
      KeeperEffect w (.vault (.deallocate p c amount))
        ((w.pulled p c amount).publish (.deallocated c p amount))

variable {w w' : World} {a : KeeperAct}

/-- **Every step of the keeper from a well-formed world is one of the effects.** -/
theorem KeeperStep.effect (h : w.WF) (hs : KeeperStep w a w') : KeeperEffect w a w' := by
  cases hs with
  | reverted _ he => exact .reverted he
  | done hk hx    =>
      cases a with
      | wait t =>
          simp only [KeeperAct.exec, Action.exec, bind_eq_ok, failIf_eq_ok, ok_eq_ok, exists_const, not_or,
            not_lt] at hx
          obtain ⟨⟨hle, ht⟩, rfl⟩ := hx
          exact .waited hle ht
      | vault call =>
          cases call with
          | allocate p c amount =>
              obtain ⟨token, g, rfl⟩ := (Vault.allocate_eq_ok h).mp hx
              exact .allocated g
          | deallocate p c amount =>
              obtain ⟨g, rfl⟩ := (Vault.deallocate_eq_ok h).mp hx
              exact .deallocated g
          | freeze p =>
              obtain ⟨_, rfl⟩ := Vault.freeze_eq_ok.mp hx
              exact .flagged ⟨rfl, rfl, rfl, rfl, rfl, rfl⟩
          | unfreeze p =>
              obtain ⟨_, rfl⟩ := Vault.unfreeze_eq_ok.mp hx
              exact .flagged ⟨rfl, rfl, rfl, rfl, rfl, rfl⟩
          | proposeExit c p q =>
              obtain ⟨_, _, rfl⟩ := Vault.proposeExit_eq_ok.mp hx
              exact .proposed
          | _ => exact absurd hk id

theorem KeeperStep.wf (h : w.WF) (hs : KeeperStep w a w') : w'.WF := by
  cases hs.effect h with
  | reverted _     => exact h
  | waited hle ht  => exact h.advance hle ht
  | flagged q      => exact q.wf h
  | proposed       => exact h.proposed
  | allocated g    => exact (h.supplied g.supplies).publish
  | deallocated g  => exact (h.pulled g.pulls).publish

/-- The keeper deploys no pool and removes none. -/
theorem KeeperStep.isSome_pools (h : w.WF) (hs : KeeperStep w a w') (p : Address) :
    (w'.pools p).isSome = (w.pools p).isSome := by
  cases hs.effect h with
  | flagged q      => rw [q.pools]
  | allocated g    => exact World.isSome_pools_mapPool
  | deallocated g  => exact World.isSome_pools_mapPool
  | _              => rfl

/-- Time never runs back. -/
theorem KeeperStep.timestamp_le (h : w.WF) (hs : KeeperStep w a w') : w.timestamp ≤ w'.timestamp := by
  cases hs.effect h with
  | flagged q     => exact le_of_eq q.timestamp.symm
  | waited hle _  => exact hle
  | _             => exact le_refl _

theorem run_timestamp_le {tr : List (Transition.Event World KeeperAct)} (h : w.WF)
    (hr : Run KeeperStep w tr w') : w.timestamp ≤ w'.timestamp := by
  have hstep : ∀ v b v', v.WF ∧ w.timestamp ≤ v.timestamp → KeeperStep v b v' →
      v'.WF ∧ w.timestamp ≤ v'.timestamp := by
    rintro v b v' ⟨hv, hle⟩ hs
    exact ⟨hs.wf hv, le_trans hle (hs.timestamp_le hv)⟩
  exact (hr.invariant hstep ⟨h, le_refl _⟩).2

/-! ## Executed runs -/

/-- The transitions a list of the keeper's acts takes, up to the first that panics. -/
def World.keeperTrace (w : World) (as : List KeeperAct) : List (Event World KeeperAct) :=
  Execution.trace KeeperAct.exec w as

/-- The world they lead to. -/
def World.afterKeeper (w : World) (as : List KeeperAct) : World := Execution.after KeeperAct.exec w as

/-- A list of the keeper's own acts is a run. -/
theorem World.run_keeper (w : World) {as : List KeeperAct} (hk : ∀ a ∈ as, a.Own) :
    Run KeeperStep w (w.keeperTrace as) (w.afterKeeper as) := by
  have hr := Execution.run_trace_restrict (fun w a w' => KeeperAct.exec w a = .ok w') KeeperAct.Own
    (fun _ _ _ hx => hx) w hk
  exact hr.weaken (fun _ _ _ hs => .done hs.2 hs.1)

end SoroSense
