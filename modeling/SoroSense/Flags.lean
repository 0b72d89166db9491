import SoroSense.Effects

/-!
# `Flags` — who moves the pause flag, the freeze flags and the consents

`Vault.Call.switched` is what a call does to the flags once it takes effect; `settings_of_call` says that
it does nothing else to them, nor to the consents. So a flag stays up until the one call that lowers it,
and a consent for good.
-/

namespace SoroSense

open Fallible Transition

/-- The vault's emergency flags. -/
structure Flags where
  paused : Bool
  frozen : Address → Bool

def World.flags (w : World) : Flags := ⟨w.vault.paused, w.vault.frozen⟩

/-- What a call that takes effect does to the flags. -/
def Vault.Call.switched (f : Flags) : Vault.Call → Flags
  | .pause      => { f with paused := true }
  | .unpause    => { f with paused := false }
  | .freeze p   => { f with frozen := Function.update f.frozen p true }
  | .unfreeze p => { f with frozen := Function.update f.frozen p false }
  | _           => f

/-- What the setters write, beside the registered tokens and pools: the flags and the consents. -/
structure Settings where
  flags   : Flags
  consent : Address → Bool

def World.settings (w : World) : Settings := ⟨w.flags, w.vault.consent⟩

/-- What a call that takes effect does to the settings. -/
def Vault.Call.set (s : Settings) : Vault.Call → Settings
  | .setPolicyConsent u => { s with consent := Function.update s.consent u true }
  | call                => { s with flags := call.switched s.flags }

variable {w w' : World} {a : Action} {ids : List Nat} {p u : Address}

/-- A plan of pulls moves no setting. -/
theorem settings_pulls {c : Currency} {plan : List (Address × Int)} (h : w.WF)
    (hp : Vault.PullPlan w c plan) : (w.pulls c plan).settings = w.settings :=
  hp.const World.settings h (fun _ _ _ => rfl)

/-- **A call moves the settings as `set` says.** -/
theorem settings_of_call (h : w.WF) {call : Vault.Call} (hx : call.exec (Auth.signers ids) w = .ok w') :
    w'.settings = call.set w.settings := by
  cases call with
  | setPolicyConsent u =>
      obtain ⟨_, rfl⟩ := Vault.setPolicyConsent_eq_ok.mp hx
      split
      · rfl
      · -- consent recorded before is recorded again
        rename_i hu
        have hset : w.vault.consent u = true := by simpa using hu
        show w.settings = ⟨w.flags, Function.update w.vault.consent u true⟩
        rw [← hset, Function.update_eq_self]
        rfl
  | setAutoCompound u enabled =>
      obtain ⟨_, rfl⟩ := Vault.setAutoCompound_eq_ok.mp hx
      rfl
  | deposit u c amount =>
      obtain ⟨minted, token, g, rfl⟩ := Vault.deposit_eq_ok.mp hx
      rfl
  | withdraw u c shares =>
      obtain ⟨assets, token, g, rfl⟩ := (Vault.withdraw_eq_ok h).mp hx
      exact settings_pulls (g.burned_wf h) (g.plan h)
  | approveExit u exitId =>
      obtain ⟨c, e, token, g, rfl⟩ := (Vault.approveExit_eq_ok h).mp hx
      rfl
  | allocate q c amount =>
      obtain ⟨token, g, rfl⟩ := (Vault.allocate_eq_ok h).mp hx
      rfl
  | deallocate q c amount =>
      obtain ⟨g, rfl⟩ := (Vault.deallocate_eq_ok h).mp hx
      rfl
  | freeze q =>
      obtain ⟨_, rfl⟩ := Vault.freeze_eq_ok.mp hx
      rfl
  | unfreeze q =>
      obtain ⟨_, rfl⟩ := Vault.unfreeze_eq_ok.mp hx
      rfl
  | proposeExit c q q' =>
      obtain ⟨_, _, rfl⟩ := Vault.proposeExit_eq_ok.mp hx
      rfl
  | pause =>
      obtain ⟨_, rfl⟩ := Vault.pause_eq_ok.mp hx
      rfl
  | unpause =>
      obtain ⟨_, rfl⟩ := Vault.unpause_eq_ok.mp hx
      rfl
  | setToken c token =>
      obtain ⟨_, rfl⟩ := Vault.setToken_eq_ok.mp hx
      rfl
  | setPoolAllowed q allowed =>
      obtain ⟨_, rfl⟩ := Vault.setPoolAllowed_eq_ok.mp hx
      rfl
  | setConfiguredPool c q =>
      obtain ⟨_, rfl⟩ := Vault.setConfiguredPool_eq_ok.mp hx
      rfl

/-- **A call moves the flags as `switched` says.** -/
theorem flags_of_call (h : w.WF) {call : Vault.Call} (hx : call.exec (Auth.signers ids) w = .ok w') :
    w'.flags = call.switched w.flags := by
  have hset := congrArg Settings.flags (settings_of_call h hx)
  have hflags : (call.set w.settings).flags = call.switched w.flags := by cases call <;> rfl
  exact hset.trans hflags

/-- **Consent is never revoked.** -/
theorem consent_of_call (h : w.WF) {call : Vault.Call} (hx : call.exec (Auth.signers ids) w = .ok w')
    (hu : w.vault.consent u = true) : w'.vault.consent u = true := by
  have hset : w'.vault.consent = (call.set w.settings).consent :=
    congrArg Settings.consent (settings_of_call h hx)
  rw [hset]
  cases call with
  | setPolicyConsent v =>
      show Function.update w.vault.consent v true u = true
      by_cases hv : u = v
      · subst hv; simp
      · rw [Function.update_of_ne hv]; exact hu
  | _ => exact hu

theorem paused_of_pause {auth : Auth} (h : Vault.pause auth w = .ok w') : w'.vault.paused = true := by
  obtain ⟨_, rfl⟩ := Vault.pause_eq_ok.mp h
  rfl

theorem frozen_of_freeze {auth : Auth} (h : Vault.freeze auth w p = .ok w') : w'.vault.frozen p = true := by
  obtain ⟨_, rfl⟩ := Vault.freeze_eq_ok.mp h
  exact Function.update_self ..

/-- What is not a vault call writes nothing of the vault's. -/
theorem Effect.vault_eq (he : Effect w a w') (hv : ∀ ids call, a ≠ .vault ids call) : w'.vault = w.vault := by
  cases he with
  | reverted _            => rfl
  | poolSupplied _ _ _ _  => rfl
  | poolWithdrawn         => rfl
  | poolRated _ _         => rfl
  | transferred _ _ _     => rfl
  | minted _              => rfl
  | advanced _ _          => rfl
  | deployed _ _ _ _ _    => rfl
  | _                     => exact absurd rfl (hv _ _)

/-- A step moves the flags as its call says, or not at all. -/
theorem Step.flags (h : w.WF) (hs : Step w a w') :
    w'.flags = w.flags ∨ ∃ ids call, a = .vault ids call ∧ w'.flags = call.switched w.flags := by
  by_cases hv : ∃ ids call, a = .vault ids call
  · obtain ⟨ids, call, rfl⟩ := hv
    cases hs with
    | reverted _ => exact Or.inl rfl
    | done hx    => exact Or.inr ⟨ids, call, rfl, flags_of_call h hx⟩
  · have hvault := (hs.effect h).vault_eq (fun ids call ha => hv ⟨ids, call, ha⟩)
    left
    unfold World.flags
    rw [hvault]

/-- **Paused until unpaused.** -/
theorem Step.paused (h : w.WF) (hs : Step w a w') (hp : w.vault.paused = true)
    (hu : ∀ ids, a ≠ .vault ids .unpause) : w'.vault.paused = true := by
  rcases hs.flags h with hf | ⟨ids, call, rfl, hf⟩
  · exact (congrArg Flags.paused hf).trans hp
  · have hpf : w'.vault.paused = (call.switched w.flags).paused := congrArg Flags.paused hf
    rw [hpf]
    cases call with
    | unpause => exact absurd rfl (hu ids)
    | pause   => rfl
    | _       => exact hp

/-- **Frozen until unfrozen.** -/
theorem Step.frozen (h : w.WF) (hs : Step w a w') (hp : w.vault.frozen p = true)
    (hu : ∀ ids, a ≠ .vault ids (.unfreeze p)) : w'.vault.frozen p = true := by
  rcases hs.flags h with hf | ⟨ids, call, rfl, hf⟩
  · exact (congrFun (congrArg Flags.frozen hf) p).trans hp
  · have hpf : w'.vault.frozen p = (call.switched w.flags).frozen p := congrFun (congrArg Flags.frozen hf) p
    rw [hpf]
    cases call with
    | freeze q   =>
        show Function.update w.vault.frozen q true p = true
        by_cases hq : p = q
        · subst hq; simp
        · rw [Function.update_of_ne hq]; exact hp
    | unfreeze q =>
        have hq : p ≠ q := fun he => hu ids (he ▸ rfl)
        show Function.update w.vault.frozen q false p = true
        rw [Function.update_of_ne hq]
        exact hp
    | _          => exact hp

/-- **Consented for good.** -/
theorem Step.consent (h : w.WF) (hs : Step w a w') (hu : w.vault.consent u = true) :
    w'.vault.consent u = true := by
  by_cases hv : ∃ ids call, a = .vault ids call
  · obtain ⟨ids, call, rfl⟩ := hv
    cases hs with
    | reverted _ => exact hu
    | done hx    => exact consent_of_call h hx hu
  · rw [(hs.effect h).vault_eq (fun ids call ha => hv ⟨ids, call, ha⟩)]
    exact hu

end SoroSense
