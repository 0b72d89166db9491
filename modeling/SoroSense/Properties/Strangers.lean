import SoroSense.Properties.SharePrice

/-!
# `Properties.Strangers` — what other suppliers can do to the vault's allocations

Suppliers of a pool share its index and one counter, the booked principal of all of them. `Meddled` is what
the calls of strangers leave the vault: its books, its position, the index it reads, every other pool. The
counter is not on the list. It prices nothing, a payout lowers it with a floor, but a supply raises it with a
checked addition, of an amount nobody has to pay in; so an allocation goes through after strangers called
exactly when the counter still has room for it (`stranger_blocks_iff`).
-/

namespace SoroSense

open Fallible Transition

/-- A supply or withdrawal on pool `p` in somebody else's name than the vault's. -/
def Action.ByStranger (p : Address) : Action → Prop
  | .pool _ q (.supply who _)   => q = p ∧ who ≠ vaultAddress
  | .pool _ q (.withdraw who _) => q = p ∧ who ≠ vaultAddress
  | _                           => False

/-- One such call took effect or reverted. -/
def StrangerStep (p : Address) (w : World) (a : Action) (w' : World) : Prop := Step w a w' ∧ a.ByStranger p

/-! ## What strangers leave alone -/

/-- Everything an allocation into `p` reads, the counter of booked principal apart, is as it was. -/
structure Meddled (p : Address) (w w' : World) : Prop where
  timestamp : w'.timestamp = w.timestamp
  vault     : w'.vault = w.vault
  tokens    : ∀ token id, Address.contract id ≠ p →
    w'.tokens token (.contract id) = w.tokens token (.contract id)
  others    : ∀ q, q ≠ p → w'.pools q = w.pools q
  pool      : ∀ s, w.pools p = some s → ∃ s', w'.pools p = some s' ∧
    s'.position vaultAddress = s.position vaultAddress ∧ s'.indexAt w.timestamp = s.indexAt w.timestamp

variable {p q u token : Address} {w w' w'' : World} {a : Action} {c : Currency} {amount : Int} {auth : Auth}
  {tr : List (Event World Action)} {exitId : Nat} {e : Vault.ExitProposal}

theorem Meddled.refl : Meddled p w w := ⟨rfl, rfl, fun _ _ _ => rfl, fun _ _ => rfl, fun s hs => ⟨s, hs, rfl, rfl⟩⟩

theorem Meddled.trans (h : Meddled p w w') (h' : Meddled p w' w'') : Meddled p w w'' where
  timestamp := h'.timestamp.trans h.timestamp
  vault     := h'.vault.trans h.vault
  tokens    := fun token id hid => (h'.tokens token id hid).trans (h.tokens token id hid)
  others    := fun q hq => (h'.others q hq).trans (h.others q hq)
  pool s hs := by
    obtain ⟨s', hs', hp', hi'⟩ := h.pool s hs
    obtain ⟨s'', hs'', hp'', hi''⟩ := h'.pool s' hs'
    rw [h.timestamp] at hi''
    exact ⟨s'', hs'', hp''.trans hp', hi''.trans hi'⟩

/-- Storing a pool with the vault's position and the index in it as they were. -/
theorem Meddled.setPool {s s' : YieldPool.State} (hs : w.pools p = some s)
    (hp : s'.position vaultAddress = s.position vaultAddress)
    (hi : s'.indexAt w.timestamp = s.indexAt w.timestamp) : Meddled p w (w.setPool p s') := by
  refine ⟨rfl, rfl, fun _ _ _ => rfl, fun q hq => ?_, fun t ht => ⟨s', ?_, ?_⟩⟩
  · rw [World.pools_setPool, Function.update_of_ne hq]
  · simp [World.pools_setPool]
  · obtain rfl := Option.some.inj (hs.symm.trans ht)
    exact ⟨hp, hi⟩

/-- **A stranger's call leaves all of it alone.** -/
theorem Meddled.step (h : w.WF) (hs : StrangerStep p w a w') : Meddled p w w' := by
  obtain ⟨hst, hby⟩ := hs
  cases hst.effect h with
  | reverted _ => exact .refl
  | @poolSupplied _ q who amount s hp hu ha _ =>
      obtain ⟨rfl, hne⟩ := hby
      exact .setPool hp (YieldPool.State.position_supplied_ne hne.symm) YieldPool.State.indexAt_supplied
  | @poolWithdrawn _ q who amount s hp hu ha hle _ _ =>
      obtain ⟨rfl, hne⟩ := hby
      obtain ⟨id, rfl⟩ := hu
      have hpaid : Meddled q w (w.setTokens (w.tokens.move s.token q (.account id) amount)) := by
        refine ⟨rfl, rfl, fun token n hn => ?_, fun _ _ => rfl, fun t ht => ⟨t, ht, rfl, rfl⟩⟩
        exact Tokens.move_of_ne token hn (by simp)
      exact hpaid.trans (.setPool (w := w.setTokens _) hp (YieldPool.State.position_withdrawn_ne hne.symm)
        YieldPool.State.indexAt_withdrawn)
  | _ => exact absurd hby id

/-- **So do all of their calls.** -/
theorem Meddled.run (h : w.WF) (hr : Run (StrangerStep p) w tr w') : w'.WF ∧ Meddled p w w' :=
  hr.invariant (P := fun v => v.WF ∧ Meddled p w v)
    (fun _ _ _ hv hs => ⟨hs.1.wf hv.1, hv.2.trans (.step hv.1 hs)⟩) ⟨h, .refl⟩

/-! ## What the vault reads of it -/

theorem Meddled.bucket (m : Meddled p w w') (c : Currency) : w'.bucket c = w.bucket c := by
  unfold World.bucket
  rw [m.vault]

theorem Meddled.tokens_vault (m : Meddled p w w') (hp : p ≠ vaultAddress) (token : Address) :
    w'.tokens token vaultAddress = w.tokens token vaultAddress := m.tokens token 0 hp.symm

/-- The vault's position is worth what it was. -/
theorem Meddled.position (m : Meddled p w w') (hp : (w.pools p).isSome = true) (q : Address) :
    w'.position q = w.position q := by
  by_cases hq : q = p
  · subst hq
    obtain ⟨s, hs⟩ := Option.isSome_iff_exists.mp hp
    obtain ⟨s', hs', hpos, hi⟩ := m.pool s hs
    rw [World.position_of_some hs', World.position_of_some hs, m.timestamp]
    exact YieldPool.State.value_congr hi hpos
  · exact World.position_congr m.timestamp (m.others q hq)

/-- And prices if it did. -/
theorem Meddled.priced (m : Meddled p w w') (h : w.WF) (h' : w'.WF) (hp : w.Priced p) : w'.Priced p := by
  obtain ⟨s, hs, hpriced⟩ := hp
  obtain ⟨s', hs', hpos, hi⟩ := m.pool s hs
  have hwf' : s'.WF w.timestamp := m.timestamp ▸ h'.pool_wf p s' hs'
  refine ⟨s', hs', ?_⟩
  have hbal := YieldPool.balance_congr (h.pool_wf p s hs) hwf' h.clock hi hpos
  unfold YieldPool.State.Priced at hpriced ⊢
  rw [m.timestamp, hbal, hpriced, YieldPool.State.value_congr hi hpos]

/-- **A supply that had its guard has it still, exactly when the counter has room.** -/
theorem Vault.SupplyGuard.meddled (g : Vault.SupplyGuard w p c amount token) (m : Meddled p w w') (h : w.WF)
    (h' : w'.WF) : Vault.SupplyGuard w' p c amount token ↔
      ∃ s', w'.pools p = some s' ∧ I128.Fits (s'.totalPrincipal + amount) := by
  obtain ⟨s, hs⟩ := Option.isSome_iff_exists.mp g.hosted
  obtain ⟨s', hs', _⟩ := m.pool s hs
  constructor
  · intro g'
    exact ⟨s', hs', g'.total_fits s' hs'⟩
  · rintro ⟨t, ht, hfit⟩
    refine ⟨?_, ?_, ?_, ?_, ?_, ?_, ?_, ?_, g.pos, m.priced h h' g.priced, ?_, ?_⟩
    · rw [m.vault]; exact g.allowed
    · rw [m.vault]; exact g.unfrozen
    · rw [m.bucket]; exact g.booked_fits
    · rw [m.bucket, m.vault]; exact g.under_cap
    · rw [m.bucket]; exact g.enough_idle
    · rw [m.bucket]; exact g.room
    · rw [m.bucket]; exact g.token_set
    · rw [m.tokens_vault (h.pool_ne_vault hs)]; exact g.funded
    · rw [m.position g.hosted]; exact g.value_fits
    · intro t' ht'
      obtain rfl := Option.some.inj (ht.symm.trans ht')
      exact hfit

/-- The pull out of another pool finds its guard as before. -/
theorem Vault.PullGuard.meddled (g : Vault.PullGuard w q c amount) (m : Meddled p w w') (h : w.WF)
    (hp : (w.pools p).isSome = true) (hq : q ≠ p) : Vault.PullGuard w' q c amount := by
  have hpools := m.others q hq
  obtain ⟨s, hs⟩ := Option.isSome_iff_exists.mp g.hosted
  obtain ⟨n, rfl, _⟩ := h.pool_addr q s hs
  refine ⟨g.pos, (World.priced_congr m.timestamp hpools).mpr g.priced, ?_, ?_, ?_⟩
  · rw [m.position hp]; exact g.covered
  · rw [World.liquidity_of_some (hpools.trans hs), m.tokens s.token n hq]
    exact World.liquidity_of_some hs ▸ g.liquid
  · rw [m.bucket]; exact g.idle_fits

/-- And leaves the two worlds apart by no more. -/
theorem Meddled.pulled (m : Meddled p w w') (hp : (w.pools p).isSome = true) (hq : q ≠ p) :
    Meddled p (w.pulled q c amount) (w'.pulled q c amount) := by
  have hpools := m.others q hq
  have htoken : w'.poolToken q = w.poolToken q := by
    unfold World.poolToken
    rw [hpools]
  refine ⟨m.timestamp, ?_, fun token id hid => ?_, fun r hr => ?_, fun s hs => ?_⟩
  · show World.vault (World.updateBucket _ _ _) = World.vault (World.updateBucket _ _ _)
    unfold World.updateBucket
    simp only [World.mapPool, World.vault_setTokens, m.vault, m.position hp]
  · rw [World.tokens_pulled, World.tokens_pulled, htoken, Tokens.move_apply, Tokens.move_apply, m.tokens token id hid]
  · by_cases hrq : r = q
    · subst hrq
      show (World.mapPool _ r _).pools r = (World.mapPool _ r _).pools r
      simp only [World.mapPool, World.pools_setTokens, hpools, Function.update_self, m.timestamp]
    · rw [World.pools_pulled_ne hrq, World.pools_pulled_ne hrq]
      exact m.others r hr
  · rw [World.pools_pulled_ne hq.symm] at hs
    rw [World.pools_pulled_ne hq.symm]
    exact m.pool s hs

/-! ## When the vault can still allocate -/

/-- An allocation that would have gone through does so, exactly when the counter has room. -/
theorem Meddled.allocate (m : Meddled p w w') (h : w.WF) (h' : w'.WF)
    (hok : (Vault.allocate auth w p c amount).isOk = true) :
    (Vault.allocate auth w' p c amount).isOk = true ↔
      ∃ s', w'.pools p = some s' ∧ I128.Fits (s'.totalPrincipal + amount) := by
  obtain ⟨v, hv⟩ := isOk_iff.mp hok
  obtain ⟨token, g, _⟩ := (Vault.allocate_eq_ok h).mp hv
  rw [← g.supplies.meddled m h h', isOk_iff]
  constructor
  · rintro ⟨v', hv'⟩
    obtain ⟨token', g', _⟩ := (Vault.allocate_eq_ok h').mp hv'
    have htoken := g'.supplies.token_set
    rw [m.bucket, g.supplies.token_set] at htoken
    exact Option.some.inj htoken ▸ g'.supplies
  · intro gs
    refine ⟨_, (Vault.allocate_eq_ok h').mpr ⟨token, ⟨?_, ?_, ?_, gs⟩, rfl⟩⟩
    · rw [m.vault]; exact g.signed
    · rw [m.vault]; exact g.unpaused
    · rw [m.bucket]; exact g.stakes

/-- The lookup of a proposal reads the vault's books only. -/
theorem Meddled.findExit (m : Meddled p w w') : Vault.findExit w' exitId = Vault.findExit w exitId := by
  unfold Vault.findExit
  simp only [m.bucket]

/-- An exit into `p` that would have gone through does so, exactly when the counter has room for what it
    moves. -/
theorem Meddled.approveExit (m : Meddled p w w') (h : w.WF) (h' : w'.WF)
    (hfound : Vault.findExit w exitId = some (c, e)) (hto : e.toPool = p)
    (hok : (Vault.approveExit auth w u exitId).isOk = true) :
    (Vault.approveExit auth w' u exitId).isOk = true ↔
      ∃ s', w'.pools p = some s' ∧ I128.Fits (s'.totalPrincipal + w.position e.fromPool) := by
  subst hto
  obtain ⟨v, hv⟩ := isOk_iff.mp hok
  obtain ⟨c', e', token, g, _⟩ := (Vault.approveExit_eq_ok h).mp hv
  obtain ⟨rfl, rfl⟩ : c' = c ∧ e' = e := Prod.mk.inj (Option.some.inj (g.found.symm.trans hfound))
  -- the source is frozen and the target is not
  have hne : e'.fromPool ≠ e'.toPool := by
    intro heq
    have hopen : w.vault.frozen e'.toPool = false := g.supplies.unfrozen
    rw [← heq, g.frozen] at hopen
    exact Bool.noConfusion hopen
  have hhost : (w.pools e'.toPool).isSome = true := by
    have hs := g.supplies.hosted
    rwa [World.pools_pulled_ne hne.symm] at hs
  have hpos : w'.position e'.fromPool = w.position e'.fromPool := m.position hhost e'.fromPool
  have gp := g.pulls.meddled m h hhost hne
  have mp : Meddled e'.toPool (w.pulled e'.fromPool c' (w.position e'.fromPool))
      (w'.pulled e'.fromPool c' (w.position e'.fromPool)) := m.pulled hhost hne
  have hsup := g.supplies.meddled mp (h.pulled g.pulls) (h'.pulled gp)
  rw [World.pools_pulled_ne hne.symm] at hsup
  rw [← hsup, isOk_iff]
  constructor
  · rintro ⟨v', hv'⟩
    obtain ⟨c'', e'', token', g', _⟩ := (Vault.approveExit_eq_ok h').mp hv'
    have hfound' := g'.found
    rw [m.findExit, hfound] at hfound'
    obtain ⟨rfl, rfl⟩ : c' = c'' ∧ e' = e'' := Prod.mk.inj (Option.some.inj hfound')
    have gs := g'.supplies
    rw [hpos] at gs
    have htoken := gs.token_set
    rw [mp.bucket, g.supplies.token_set] at htoken
    exact Option.some.inj htoken ▸ gs
  · intro gs
    refine ⟨_, (Vault.approveExit_eq_ok h').mpr ⟨c', e', token, ⟨g.signed, ?_, ?_, ?_, ?_, ?_, ?_⟩, rfl⟩⟩
    · rw [m.findExit]; exact hfound
    · rw [m.vault]; exact g.unpaused
    · rw [m.bucket]; exact g.stakeholder
    · rw [m.vault]; exact g.frozen
    · rw [hpos]; exact gp
    · rw [hpos]; exact gs

/-- **When strangers block the vault.** From every reachable state, after any supplies and withdrawals of
    others on a pool at one ledger time: an allocation into the pool, or an approved exit into it, that would
    have gone through before goes through after, iff the pool's counter of booked principal still has room
    for the amount in an `i128`. The vault's position and the index it is read at are as they were. -/
theorem stranger_blocks_iff (hr : Reachable Genesis Step w) (hrun : Run (StrangerStep p) w tr w') :
    (∀ auth c amount, (Vault.allocate auth w p c amount).isOk = true →
      ((Vault.allocate auth w' p c amount).isOk = true ↔
        ∃ s, w'.pools p = some s ∧ I128.Fits (s.totalPrincipal + amount))) ∧
    (∀ auth u exitId c e, Vault.findExit w exitId = some (c, e) → e.toPool = p →
      (Vault.approveExit auth w u exitId).isOk = true →
      ((Vault.approveExit auth w' u exitId).isOk = true ↔
        ∃ s, w'.pools p = some s ∧ I128.Fits (s.totalPrincipal + w.position e.fromPool))) := by
  have h := reachable_wf hr
  obtain ⟨h', m⟩ := Meddled.run h hrun
  exact ⟨fun auth c amount hok => m.allocate h h' hok,
    fun auth u exitId c e hfound hto hok => m.approveExit h h' hfound hto hok⟩

/-- Account 3 books `amount` in pool 1, transferring nothing. -/
def strangerBooks (amount : Int) : List Action := [.pool [3] (.contract 1) (.supply (.account 3) amount)]

theorem run_strangerBooks (w : World) (amount : Int) :
    Run (StrangerStep (.contract 1)) w (w.trace (strangerBooks amount)) (w.after (strangerBooks amount)) := by
  refine Execution.run_trace_restrict Step (Action.ByStranger (.contract 1)) (fun _ _ _ => .done) w ?_
  simp [strangerBooks, Action.ByStranger, vaultAddress]

/-- A stranger books a thousand; an allocation of 100 still goes through. -/
theorem stranger_blocks_iff_yieldRun :
    (Vault.allocate (Auth.signers [1])
      (((World.opening 1000 5000).after yieldRun).after (strangerBooks 1000)) (.contract 1) .usd 100).isOk
        = true := by
  obtain ⟨s, hs⟩ : ∃ s, (((World.opening 1000 5000).after yieldRun).after (strangerBooks 1000)).pools
      (.contract 1) = some s := Option.isSome_iff_exists.mp (by decide +kernel)
  have htotal : ((((World.opening 1000 5000).after yieldRun).after (strangerBooks 1000)).pools
      (.contract 1)).map (·.totalPrincipal) = some 1500 := by decide +kernel
  rw [hs, Option.map_some, Option.some.injEq] at htotal
  refine ((stranger_blocks_iff ((Genesis.opening (by decide)).reachable yieldRun)
    (run_strangerBooks _ 1000)).1 (Auth.signers [1]) .usd 100 (by decide +kernel)).mpr ⟨s, hs, ?_⟩
  rw [htotal]
  decide

/-- **A stranger can block the vault.** With 500 booked by the vault, account 3 books what is left of the
    `i128`, for nothing; no allocation into the pool goes through any more. -/
theorem stranger_blocks_allocation :
    ¬ ∀ (w w' : World) (p : Address) (tr : List (Event World Action)) (auth : Auth) (c : Currency)
        (amount : Int), Reachable Genesis Step w → Run (StrangerStep p) w tr w' → amount < 2 ^ 62 →
        w.position p < 2 ^ 62 → (Vault.allocate auth w p c amount).isOk = true →
        (Vault.allocate auth w' p c amount).isOk = true := by
  intro hall
  have hok := hall _ _ _ _ (Auth.signers [1]) .usd 100 ((Genesis.opening (by decide)).reachable yieldRun)
    (run_strangerBooks ((World.opening 1000 5000).after yieldRun) (I128.maxVal - 500)) (by decide)
    (by decide +kernel) (by decide +kernel)
  exact absurd hok (by decide +kernel)

end SoroSense
