import SoroSense.Lib.Fallible
import Mathlib.Logic.Function.Basic

/-!
# `Frontend.AutoCompound` — the auto-compound switch

`frontend/hooks/useAutoCompound.ts` under `frontend/providers/VaultProvider.tsx`: one mounted hook, the
provider's `version`, the wallet, and the preference as the chain stores it.

What may happen is a list of small steps. A render shows the hook's state, and the effect runs after a
render whose address or version changed; a read is asked, sampled on chain and settled; a press of the
switch starts a write, which lands on chain and settles. Everything in between may come in any order. A
changed `client` re-runs the effect as a bump does, so it is one.
-/

namespace SoroSense.Frontend

/-- `useState({ loading, enabled })`. -/
structure View where
  loading : Bool
  enabled : Bool
deriving DecidableEq

/-- What the last render closed over. -/
structure Rendered where
  wallet  : Option String
  version : ℕ
  view    : View
  pending : Bool
deriving DecidableEq

/-- The effect that ran last: its dependencies and its generation. -/
structure EffectRun where
  wallet  : Option String
  version : ℕ
  mine    : ℕ
deriving DecidableEq

/-- An `autoCompoundEnabled` in flight, with the value the chain gave it. -/
structure Read where
  address   : String
  cancelled : Bool
  sampled   : Option Bool
deriving DecidableEq

/-- A `setAutoCompound` in flight. -/
structure Write where
  address : String
  next    : Bool
  mine    : ℕ
  landed  : Bool
deriving DecidableEq

/-- The hook, its provider and the chain. Reads in flight go by their generation; `inFlight.current` is
    that there is a `write`. -/
structure Switch where
  chain    : String → Bool
  wallet   : Option String
  version  : ℕ
  view     : View
  pending  : Bool
  rendered : Rendered
  ran      : Option EffectRun
  known    : Option (String × Bool)
  gen      : ℕ
  reads    : ℕ → Option Read
  write    : Option Write
  errors   : List String

/-- `toWalletError`'s result. -/
structure WalletError where
  message : String
  code    : Option ℤ

def USER_CLOSED_MODAL : ℤ := -1

/-- How `signAndSubmit` ends. -/
inductive Submitted where
  | success
  | rejected
  | threw (e : WalletError)

namespace Switch

/-- First render, nothing read yet. -/
def mounted (chain : String → Bool) (wallet : Option String) (version : ℕ) : Switch where
  chain    := chain
  wallet   := wallet
  version  := version
  view     := ⟨true, true⟩
  pending  := false
  rendered := ⟨wallet, version, ⟨true, true⟩, false⟩
  ran      := none
  known    := none
  gen      := 0
  reads    := fun _ => none
  write    := none
  errors   := []

variable (s : Switch)

/-! ## The effect -/

/-- The dependencies of the last render are not those the effect ran with. -/
def EffectDue : Prop :=
  s.ran.map (fun e => (e.wallet, e.version)) ≠ some (s.rendered.wallet, s.rendered.version)

instance : Decidable s.EffectDue := inferInstanceAs (Decidable (_ ≠ _))

/-- The cleanup of the effect that ran last cancels its read. -/
def cleanedUp : ℕ → Option Read :=
  match s.ran with
  | none   => s.reads
  | some e => Function.update s.reads e.mine ((s.reads e.mine).map fun r => { r with cancelled := true })

/-- The effect's body, up to the read. -/
def runEffect : Switch :=
  match s.rendered.wallet with
  | none =>
    { s with
      ran   := some ⟨none, s.rendered.version, s.gen + 1⟩
      gen   := s.gen + 1
      reads := s.cleanedUp
      known := none
      view  := ⟨false, true⟩ }
  | some address =>
    { s with
      ran   := some ⟨some address, s.rendered.version, s.gen + 1⟩
      gen   := s.gen + 1
      reads := Function.update s.cleanedUp (s.gen + 1) (some ⟨address, false, none⟩)
      view  := if s.known.map Prod.fst = some address then s.view else { s.view with loading := true } }

/-- `fresh()` of the read of generation `n`. -/
def Fresh (n : ℕ) (r : Read) : Prop := r.cancelled = false ∧ s.gen = n

instance (n : ℕ) (r : Read) : Decidable (s.Fresh n r) := inferInstanceAs (Decidable (_ ∧ _))

/-- The read of generation `n` is over. -/
def forget (n : ℕ) : Switch := { s with reads := Function.update s.reads n none }

/-- The effect's body, from a read that answered. -/
def settleRead (n : ℕ) (r : Read) (enabled : Bool) : Switch :=
  if s.Fresh n r then { s.forget n with known := some (r.address, enabled), view := ⟨false, enabled⟩ }
  else s.forget n

/-- The last known value of an address, on when there is none. -/
def lastKnown (address : String) : Bool :=
  match s.known with
  | some (known, enabled) => if known = address then enabled else true
  | none                  => true

/-- The effect's body, from a read that threw. -/
def failRead (n : ℕ) (r : Read) : Switch :=
  if s.Fresh n r then { s.forget n with view := ⟨false, s.lastKnown r.address⟩ } else s.forget n

/-! ## `toggle` -/

/-- What a press of the rendered switch writes: nothing during a write, without an address or while
    loading. -/
def pressed : Option (String × Bool) :=
  match s.write, s.rendered.wallet, s.rendered.view.loading with
  | none, some address, false => some (address, !s.rendered.view.enabled)
  | _, _, _                   => none

/-- `toggle`, up to the signature. -/
def startWrite (address : String) (next : Bool) : Switch :=
  { s with pending := true, gen := s.gen + 1, write := some ⟨address, next, s.gen + 1, false⟩ }

/-- The write takes effect. -/
def landWrite (w : Write) : Switch :=
  { s with chain := Function.update s.chain w.address w.next, write := some { w with landed := true } }

/-- `finally`. -/
def endWrite : Switch := { s with pending := false, write := none }

def failWrite (message : String) : Switch := { s.endWrite with errors := s.errors ++ [message] }

/-- `toggle`, from the end of `signAndSubmit`. -/
def settleWrite (w : Write) : Submitted → Switch
  | .success  =>
    if s.gen ≠ w.mine then s.endWrite
    else { s.endWrite with known := some (w.address, w.next), view := ⟨false, w.next⟩, version := s.version + 1 }
  | .rejected => s.failWrite "Could not save that. Nothing changed."
  | .threw e  =>
    s.failWrite (if e.code = some USER_CLOSED_MODAL then "Signature cancelled. Nothing changed." else e.message)

/-! ## Steps -/

/-- What may happen next. -/
inductive Act where
  | connect (wallet : Option String)
  /-- A `bump()` from elsewhere in the app. -/
  | bump
  | render
  | effect
  | sample (n : ℕ)
  | readSettled (n : ℕ)
  | readFailed (n : ℕ)
  | press
  | land
  | writeSettled (outcome : Submitted)

/-- There is no such step now. -/
inductive NoStep where
  | nothingDue
deriving DecidableEq

def exec : Act → Except NoStep Switch
  | .connect wallet => .ok { s with wallet := wallet }
  | .bump           => .ok { s with version := s.version + 1 }
  | .render         => .ok { s with rendered := ⟨s.wallet, s.version, s.view, s.pending⟩ }
  | .effect         => if s.EffectDue then .ok s.runEffect else .error .nothingDue
  | .sample n       =>
    match s.reads n with
    | some ⟨address, cancelled, none⟩ =>
      .ok { s with reads := Function.update s.reads n (some ⟨address, cancelled, some (s.chain address)⟩) }
    | _ => .error .nothingDue
  | .readSettled n  =>
    match s.reads n with
    | some ⟨address, cancelled, some enabled⟩ =>
      .ok (s.settleRead n ⟨address, cancelled, some enabled⟩ enabled)
    | _ => .error .nothingDue
  | .readFailed n   =>
    match s.reads n with
    | some r => .ok (s.failRead n r)
    | none   => .error .nothingDue
  | .press          =>
    match s.pressed with
    | some (address, next) => .ok (s.startWrite address next)
    | none                 => .ok s
  | .land           =>
    match s.write with
    | some ⟨address, next, mine, false⟩ => .ok (s.landWrite ⟨address, next, mine, false⟩)
    | _                                 => .error .nothingDue
  | .writeSettled outcome =>
    match s.write with
    | some w =>
      match outcome, w.landed with
      | .success, false => .error .nothingDue
      | outcome, _      => .ok (s.settleWrite w outcome)
    | none   => .error .nothingDue

/-! ## What each step needs and leaves -/

variable {s} {t : Switch} {n : ℕ}

theorem exec_effect (h : s.exec .effect = .ok t) : s.EffectDue ∧ t = s.runEffect := by
  simp only [exec] at h
  split at h
  · rename_i hdue
    exact ⟨hdue, (Fallible.ok_eq_ok.mp h).symm⟩
  · exact absurd h (by simp)

theorem exec_sample (h : s.exec (.sample n) = .ok t) :
    ∃ r, s.reads n = some r ∧ r.sampled = none ∧
      t = { s with reads := Function.update s.reads n (some { r with sampled := some (s.chain r.address) }) } := by
  simp only [exec] at h
  split at h
  · rename_i address cancelled hr
    exact ⟨⟨address, cancelled, none⟩, hr, rfl, (Fallible.ok_eq_ok.mp h).symm⟩
  · exact absurd h (by simp)

theorem exec_readSettled (h : s.exec (.readSettled n) = .ok t) :
    ∃ r enabled, s.reads n = some r ∧ r.sampled = some enabled ∧ t = s.settleRead n r enabled := by
  simp only [exec] at h
  split at h
  · rename_i address cancelled enabled hr
    exact ⟨⟨address, cancelled, some enabled⟩, enabled, hr, rfl, (Fallible.ok_eq_ok.mp h).symm⟩
  · exact absurd h (by simp)

theorem exec_press (h : s.exec .press = .ok t) :
    (∃ address next, s.pressed = some (address, next) ∧ t = s.startWrite address next) ∨
      (s.pressed = none ∧ t = s) := by
  simp only [exec] at h
  split at h
  · rename_i address next hp
    exact .inl ⟨address, next, hp, (Fallible.ok_eq_ok.mp h).symm⟩
  · rename_i hp
    exact .inr ⟨hp, (Fallible.ok_eq_ok.mp h).symm⟩

theorem exec_land (h : s.exec .land = .ok t) :
    ∃ w, s.write = some w ∧ w.landed = false ∧ t = s.landWrite w := by
  simp only [exec] at h
  split at h
  · rename_i address next mine hw
    exact ⟨⟨address, next, mine, false⟩, hw, rfl, (Fallible.ok_eq_ok.mp h).symm⟩
  · exact absurd h (by simp)

/-- A write that succeeded has landed. -/
theorem exec_writeSettled (h : s.exec (.writeSettled .success) = .ok t) :
    ∃ w, s.write = some w ∧ w.landed = true ∧ t = s.settleWrite w .success := by
  simp only [exec] at h
  split at h
  · rename_i w hw
    cases hl : w.landed with
    | true =>
        rw [hl] at h
        exact ⟨w, hw, hl, (Fallible.ok_eq_ok.mp h).symm⟩
    | false =>
        rw [hl] at h
        exact absurd h (by simp)
  · exact absurd h (by simp)

end Switch

end SoroSense.Frontend
