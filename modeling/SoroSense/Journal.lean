import SoroSense.Flags
import SoroSense.Fund

/-!
# `Journal` — what the vault's events say about the share ledger

`Step.published` reads one step: it publishes nothing and moves no shares, or it publishes one event, and
`Vault.Event.Books` says what the event records of the share ledger. The other definitions are totals over
a journal: what a user paid in and took out of a bucket.
-/

namespace SoroSense

open Fallible Transition

variable {w w' : World} {a : Action} {ids : List Nat} {u x : Address} {c d : Currency}

/-- Nobody's shares moved. -/
def SameShares (w w' : World) : Prop := ∀ x d, (w'.bucket d).shares x = (w.bucket d).shares x

namespace Vault.Event

/-- What a published event records of the step that published it. -/
def Books (w w' : World) : Event → Prop
  | .deposit u c amount shares  => 0 < amount ∧ 0 < shares ∧
      ∀ x d, (w'.bucket d).shares x = (w.bucket d).shares x + if x = u ∧ d = c then shares else 0
  | .withdraw u c amount shares => 0 ≤ amount ∧ 0 < shares ∧ shares ≤ (w.bucket c).shares u ∧
      ∀ x d, (w'.bucket d).shares x = (w.bucket d).shares x + if x = u ∧ d = c then -shares else 0
  | _ => SameShares w w'

end Vault.Event

/-- A plan of pulls publishes nothing. -/
theorem events_pulls {plan : List (Address × Int)} (h : w.WF) (hp : Vault.PullPlan w c plan) :
    (w.pulls c plan).vault.events = w.vault.events :=
  hp.const (fun v => v.vault.events) h (fun _ _ _ => rfl)

/-- A withdrawal publishes what it paid. -/
theorem events_redeemed {shares assets : Int} {token : Address} {auth : Auth} (h : w.WF)
    (g : Vault.WithdrawGuard w auth u c shares assets token) :
    (w.redeemed u c shares assets token).vault.events = w.vault.events ++ [.withdraw u c assets shares] := by
  show (w.liquidated u c shares assets).vault.events ++ _ = _
  exact congrArg (· ++ _) (events_pulls (g.burned_wf h) (g.plan h))

/-- One entry of one bucket moved by `δ`, read at every entry. -/
theorem shares_moved {δ : Int}
    (hself : (w'.bucket c).shares = Function.update (w.bucket c).shares u ((w.bucket c).shares u + δ))
    (hother : ∀ d, d ≠ c → (w'.bucket d).shares = (w.bucket d).shares) (x : Address) (d : Currency) :
    (w'.bucket d).shares x = (w.bucket d).shares x + if x = u ∧ d = c then δ else 0 := by
  rcases eq_or_ne d c with rfl | hd
  · rw [hself]
    by_cases hx : x = u
    · subst hx
      rw [Function.update_self, if_pos ⟨rfl, rfl⟩]
    · rw [Function.update_of_ne hx, if_neg (fun h => hx h.1), add_zero]
  · rw [hother d hd, if_neg (fun h => hd h.2), add_zero]

/-- **A call that takes effect publishes at most one event, which books what it did to the shares.** -/
theorem published_of_call (h : w.WF) {call : Vault.Call} (hx : call.exec (Auth.signers ids) w = .ok w') :
    (w'.vault.events = w.vault.events ∧ SameShares w w') ∨
      ∃ e, w'.vault.events = w.vault.events ++ [e] ∧ e.Books w w' := by
  have same : ∀ {v : World}, v.bucket = w.bucket → SameShares w v := fun hb x d => by rw [congrFun hb d]
  cases call with
  | setPolicyConsent u =>
      obtain ⟨_, rfl⟩ := Vault.setPolicyConsent_eq_ok.mp hx
      split
      · exact Or.inr ⟨_, rfl, same rfl⟩
      · exact Or.inl ⟨rfl, same rfl⟩
  | setAutoCompound u enabled =>
      obtain ⟨_, rfl⟩ := Vault.setAutoCompound_eq_ok.mp hx
      exact Or.inr ⟨_, rfl, same rfl⟩
  | deposit u c amount =>
      obtain ⟨minted, token, g, rfl⟩ := Vault.deposit_eq_ok.mp hx
      refine Or.inr ⟨_, rfl, g.pos, g.minted_pos, shares_moved ?_ fun d hd => ?_⟩
      · rw [World.bucket_deposited, if_pos rfl]
        rfl
      · rw [World.bucket_deposited, if_neg hd]
  | withdraw u c shares =>
      obtain ⟨assets, token, g, rfl⟩ := (Vault.withdraw_eq_ok h).mp hx
      refine Or.inr ⟨_, events_redeemed h g, g.nonneg, g.pos, g.owned, shares_moved ?_ fun d hd => ?_⟩
      · rw [(World.books_redeemed h g).1]
        rfl
      · rw [World.bucket_redeemed_ne h g hd]
  | approveExit u exitId =>
      obtain ⟨c, e, token, g, rfl⟩ := (Vault.approveExit_eq_ok h).mp hx
      exact Or.inr ⟨_, rfl, fun x d => congrFun World.books_exited.1 x⟩
  | allocate p c amount =>
      obtain ⟨token, g, rfl⟩ := (Vault.allocate_eq_ok h).mp hx
      refine Or.inr ⟨_, rfl, fun x d => congrFun ?_ x⟩
      exact World.bucketField_supplied Vault.Bucket.shares rfl
  | deallocate p c amount =>
      obtain ⟨g, rfl⟩ := (Vault.deallocate_eq_ok h).mp hx
      refine Or.inr ⟨_, rfl, fun x d => congrFun ?_ x⟩
      exact World.bucketField_pulled Vault.Bucket.shares (fun _ => rfl)
  | freeze p =>
      obtain ⟨_, rfl⟩ := Vault.freeze_eq_ok.mp hx
      exact Or.inr ⟨_, rfl, same rfl⟩
  | unfreeze p =>
      obtain ⟨_, rfl⟩ := Vault.unfreeze_eq_ok.mp hx
      exact Or.inr ⟨_, rfl, same rfl⟩
  | proposeExit c p q =>
      obtain ⟨_, _, rfl⟩ := Vault.proposeExit_eq_ok.mp hx
      exact Or.inr ⟨_, rfl, fun x d => congrFun World.books_proposed.1 x⟩
  | pause =>
      obtain ⟨_, rfl⟩ := Vault.pause_eq_ok.mp hx
      exact Or.inl ⟨rfl, same rfl⟩
  | unpause =>
      obtain ⟨_, rfl⟩ := Vault.unpause_eq_ok.mp hx
      exact Or.inl ⟨rfl, same rfl⟩
  | setToken c token =>
      obtain ⟨_, rfl⟩ := Vault.setToken_eq_ok.mp hx
      exact Or.inl ⟨rfl, fun x d => congrFun (World.bucketField_updateBucket Vault.Bucket.shares rfl) x⟩
  | setPoolAllowed p allowed =>
      obtain ⟨_, rfl⟩ := Vault.setPoolAllowed_eq_ok.mp hx
      exact Or.inl ⟨rfl, same rfl⟩
  | setConfiguredPool c p =>
      obtain ⟨_, rfl⟩ := Vault.setConfiguredPool_eq_ok.mp hx
      exact Or.inl ⟨rfl, fun x d => congrFun (World.bucketField_updateBucket Vault.Bucket.shares rfl) x⟩

/-- **A step publishes at most one event, which books what it did to the shares.** -/
theorem Step.published (h : w.WF) (hs : Step w a w') :
    (w'.vault.events = w.vault.events ∧ SameShares w w') ∨
      ∃ e, w'.vault.events = w.vault.events ++ [e] ∧ e.Books w w' := by
  cases hs with
  | reverted _ => exact Or.inl ⟨rfl, fun _ _ => rfl⟩
  | done hx =>
      by_cases hv : ∃ ids call, a = .vault ids call
      · obtain ⟨ids, call, rfl⟩ := hv
        exact published_of_call h hx
      · have hvault := ((Step.done hx).effect h).vault_eq (fun ids call ha => hv ⟨ids, call, ha⟩)
        left
        refine ⟨by rw [hvault], fun x d => ?_⟩
        show (w'.vault.bucket d).shares x = (w.vault.bucket d).shares x
        rw [hvault]

/-! ## Totals of a journal -/

/-- What an event pays into the bucket `c` of `u`. -/
def Vault.Event.paidIn (u : Address) (c : Currency) : Vault.Event → Int
  | .deposit v d amount _ => if v = u ∧ d = c then amount else 0
  | _                     => 0

/-- What an event pays out of the bucket `c` of `u`. -/
def Vault.Event.paidOut (u : Address) (c : Currency) : Vault.Event → Int
  | .withdraw v d amount _ => if v = u ∧ d = c then amount else 0
  | _                      => 0

/-- All deposits of `u` in bucket `c`. -/
def depositsOf (u : Address) (c : Currency) (events : List Vault.Event) : Int :=
  (events.map (Vault.Event.paidIn u c)).sum

/-- All withdrawals of `u` from bucket `c`. -/
def withdrawalsOf (u : Address) (c : Currency) (events : List Vault.Event) : Int :=
  (events.map (Vault.Event.paidOut u c)).sum

theorem depositsOf_concat {events : List Vault.Event} {e : Vault.Event} :
    depositsOf u c (events ++ [e]) = depositsOf u c events + e.paidIn u c := by
  unfold depositsOf
  rw [List.map_append, List.sum_append, List.map_singleton, List.sum_singleton]

end SoroSense
