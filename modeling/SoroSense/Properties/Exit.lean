import SoroSense.Properties.Isolation

/-!
# `Properties.Exit` — when a freeze-exit is executable

`execute_exit` pulls the **whole value** of the frozen pool, interest included, and supplies it through
the ordinary inbound guards. Those were sized for principal: `exit_succeeds_iff` lists what can still
reject an exit whose target is healthy, first of all the per-pool cap.
-/

namespace SoroSense

open Fallible Sums Transition

variable {w w' : World} {c : Currency} {u token : Address} {ids : List Nat} {e : Vault.ExitProposal}

/-- What an exit needs of the books beyond a healthy source and target: the source is listed, its payout
    arrives in the bucket's token (or the vault has that much of it), the target may book the whole value
    under the cap, and no counter overflows. -/
structure ExitRoom (w : World) (c : Currency) (e : Vault.ExitProposal) (token : Address) : Prop where
  listed      : e.fromPool ∈ (w.bucket c).poolList
  funded      : w.poolToken e.fromPool = token ∨ w.position e.fromPool ≤ w.tokens token vaultAddress
  under_cap   : (w.bucket c).poolHoldings e.toPool + w.position e.fromPool ≤ w.vault.config.perPoolCap
  booked_fits : I128.Fits ((w.bucket c).poolHoldings e.toPool + w.position e.fromPool)
  idle_fits   : I128.Fits ((w.bucket c).totalAssets + w.position e.fromPool)
  total_fits  : ∀ s, w.pools e.toPool = some s → I128.Fits (s.totalPrincipal + w.position e.fromPool)

/-- What an exit leaves in its two pools, idle and in the bucket. -/
theorem observables_exited {exitId : Nat} (h : w.WF)
    (g : Vault.ExitGuard w (Auth.signers ids) u exitId c e token) (hne : e.toPool ≠ e.fromPool) :
    (w.exited c e token).position e.fromPool = 0 ∧
    (w.exited c e token).position e.toPool = w.position e.toPool + w.position e.fromPool ∧
    ((w.exited c e token).bucket c).totalAssets = (w.bucket c).totalAssets ∧
    (w.exited c e token).navOf c = w.navOf c + w.position e.fromPool
      - (if e.fromPool ∈ (w.bucket c).poolList then w.position e.fromPool else 0)
      + (if e.toPool ∈ (w.bucket c).poolList then 0 else w.position e.toPool) := by
  have hp := h.pulled g.pulls
  have hlist : e.toPool ∈ ((w.pulled e.fromPool c (w.position e.fromPool)).bucket c).poolList
      ↔ e.toPool ∈ (w.bucket c).poolList := by
    rw [Vault.mem_poolList_pulled h]
    simp [hne]
  refine ⟨?_, ?_, ?_, ?_⟩
  · rw [World.position_exited h g, if_pos rfl, if_neg hne.symm]; omega
  · rw [World.position_exited h g, if_neg hne, if_pos rfl]; omega
  · rw [World.exited, World.bucket_publish, World.bucket_updateBucket_self, World.bucket_supplied,
      if_pos rfl, World.bucket_pulled, if_pos rfl]
    simp [Vault.Bucket.exited, Vault.Bucket.supplied, Vault.Bucket.pulled]
  · rw [World.exited, World.navOf_publish, World.navOf_recorded rfl rfl,
      World.navOf_supplied hp g.supplies, World.navOf_pulled h g.pulls, if_pos rfl, if_pos rfl,
      World.position_pulled_ne hne]
    simp only [hlist]

/-- A proposal from a frozen, priced and liquid pool with money in it to an allowlisted, open and empty
    one, hosted by `s`, of the bucket's token. -/
structure ExitReady (w : World) (c : Currency) (e : Vault.ExitProposal) (s : YieldPool.State) : Prop where
  frozen   : w.vault.frozen e.fromPool = true
  priced   : w.Priced e.fromPool
  pos      : 0 < w.position e.fromPool
  liquid   : w.position e.fromPool ≤ w.liquidity e.fromPool
  allowed  : w.vault.allowedPool e.toPool = true
  unfrozen : w.vault.frozen e.toPool = false
  hosted   : w.pools e.toPool = some s
  token    : (w.bucket c).token = some s.token
  empty    : w.position e.toPool = 0

theorem ExitReady.ne {s : YieldPool.State} (r : ExitReady w c e s) : e.toPool ≠ e.fromPool :=
  World.ne_of_frozen r.frozen r.unfrozen

/-- **An exit that went through had room**, given that its source was listed. -/
theorem ExitRoom.of_guard {exitId : Nat} {auth : Auth} (h : w.WF)
    (g : Vault.ExitGuard w auth u exitId c e token) (hne : e.toPool ≠ e.fromPool)
    (hlisted : e.fromPool ∈ (w.bucket c).poolList) : ExitRoom w c e token := by
  obtain ⟨s, hs, _⟩ := g.pulls.priced
  have hfund := g.supplies.funded
  have hcap := g.supplies.under_cap
  have hbooked := g.supplies.booked_fits
  rw [World.tokens_pulled_vault (h.pool_ne_vault hs)] at hfund
  rw [World.holdings_pulled_ne hne] at hcap hbooked
  refine ⟨hlisted, ?_, hcap, hbooked, g.pulls.idle_fits, fun t ht => g.supplies.total_fits t ?_⟩
  · by_cases heq : w.poolToken e.fromPool = token
    · exact Or.inl heq
    · rw [if_neg heq, add_zero] at hfund
      exact Or.inr hfund
  · rw [World.pools_pulled_ne hne]
    exact ht

/-- Delisting the source leaves a place for the target. -/
theorem length_pulled_lt (h : w.WF) (hl : e.fromPool ∈ (w.bucket c).poolList) :
    ((w.pulled e.fromPool c (w.position e.fromPool)).bucket c).poolList.length
      < Vault.maxPoolsPerCurrency := by
  have hlen := (h.bucket_wf c).list_length
  have hpos : 0 < (w.bucket c).poolList.length := List.length_pos_of_mem hl
  rw [World.bucket_pulled, if_pos rfl]
  simp only [Vault.Bucket.pulled, decide_true, if_true]
  rw [List.length_erase_of_mem hl]
  omega

/-- The pull of the source finds its guard. -/
theorem ExitReady.pulls {s : YieldPool.State} (r : ExitReady w c e s) (room : ExitRoom w c e s.token) :
    Vault.PullGuard w e.fromPool c (w.position e.fromPool) :=
  ⟨r.pos, r.priced, le_refl _, r.liquid, room.idle_fits⟩

/-- **With room, the supply of the target finds its guard** in the world the pull left. -/
theorem ExitReady.supplies {s : YieldPool.State} (h : w.WF) (r : ExitReady w c e s)
    (room : ExitRoom w c e s.token) :
    Vault.SupplyGuard (w.pulled e.fromPool c (w.position e.fromPool)) e.toPool c
      (w.position e.fromPool) s.token := by
  have hne := r.ne
  have hhost : (w.pulled e.fromPool c (w.position e.fromPool)).pools e.toPool = some s :=
    (World.pools_pulled_ne hne).trans r.hosted
  have hempty : (w.pulled e.fromPool c (w.position e.fromPool)).position e.toPool = 0 :=
    (World.position_pulled_ne hne).trans r.empty
  have hzero : s.value w.timestamp vaultAddress = 0 := by
    rw [← World.position_of_some r.hosted]
    exact r.empty
  obtain ⟨s', hs', hpriced⟩ := r.priced
  refine ⟨r.allowed, r.unfrozen, ?_, ?_, ?_, Or.inr (length_pulled_lt h room.listed), ?_, ?_, r.pos,
    ⟨s, hhost, ?_⟩, ?_, ?_⟩
  · rw [World.holdings_pulled_ne hne]
    exact room.booked_fits
  · rw [World.holdings_pulled_ne hne]
    exact room.under_cap
  · -- the pull has just credited idle with the amount
    have hidle := (h.bucket_wf c).assets_nonneg
    rw [World.bucket_pulled, if_pos rfl]
    simp only [Vault.Bucket.pulled]
    omega
  · rw [World.bucketField_pulled Vault.Bucket.token (fun _ => rfl)]
    exact r.token
  · rw [World.tokens_pulled_vault (h.pool_ne_vault hs')]
    have hpos := r.pos
    have hown := h.tokens_nonneg s.token vaultAddress
    rcases room.funded with heq | hle
    · rw [if_pos heq]
      omega
    · split <;> omega
  · exact YieldPool.priced_of_value_zero (h.pool_wf _ s r.hosted) h.clock hzero
  · rw [hempty, zero_add, World.position_of_some hs']
    exact YieldPool.priced_fits hpriced
  · intro t ht
    rw [hhost] at ht
    exact Option.some.inj ht ▸ room.total_fits s r.hosted

/-- **When a freeze-exit is executable.** In every reachable unpaused state with a pending proposal whose
    source is frozen, priced, funded and liquid for its whole value, and whose target is allowlisted, not
    frozen, a pool of the bucket's token and empty: an approval by any holder empties the source into the
    target, keeping idle and the net asset value, **iff** there is `ExitRoom`. -/
theorem exit_succeeds_iff (hr : Reachable Genesis Step w) (hunp : w.vault.paused = false)
    (hpend : (w.bucket c).pendingExit = some e)
    (hfrozen : w.vault.frozen e.fromPool = true)
    (hread : PoolClient.balance w e.fromPool vaultAddress = .ok (w.position e.fromPool))
    (hpos : 0 < w.position e.fromPool) (hliq : w.position e.fromPool ≤ w.liquidity e.fromPool)
    (hallow : w.vault.allowedPool e.toPool = true) (hsafe : w.vault.frozen e.toPool = false)
    {s : YieldPool.State} (hhost : w.pools e.toPool = some s) (htok : (w.bucket c).token = some s.token)
    (hempty : w.position e.toPool = 0)
    (hsigned : Auth.signers ids u = true) (hstake : 0 < (w.bucket c).shares u) :
    (∃ w', Vault.approveExit (Auth.signers ids) w u e.id = .ok w' ∧
        w'.position e.fromPool = 0 ∧ w'.position e.toPool = w.position e.fromPool ∧
        (w'.bucket c).totalAssets = (w.bucket c).totalAssets ∧ w'.navOf c = w.navOf c) ↔
      ExitRoom w c e s.token := by
  have h := reachable_wf hr
  have hfound : Vault.findExit w e.id = some (c, e) := (Vault.findExit_eq_some h).mpr ⟨hpend, rfl⟩
  have ready : ExitReady w c e s :=
    ⟨hfrozen, (PoolClient.balance_eq_ok hread).2, hpos, hliq, hallow, hsafe, hhost, htok, hempty⟩
  have hne := ready.ne
  constructor
  · rintro ⟨w', hx, _, _, _, hnav⟩
    obtain ⟨c', e', token, g, rfl⟩ := (Vault.approveExit_eq_ok h).mp hx
    obtain ⟨rfl, rfl⟩ : c' = c ∧ e' = e := Prod.mk.inj (Option.some.inj (g.found.symm.trans hfound))
    have htoken := g.supplies.token_set
    rw [World.bucketField_pulled Vault.Bucket.token (fun _ => rfl), htok] at htoken
    obtain rfl : s.token = token := Option.some.inj htoken
    -- an unlisted source was not in the value before, and its money would now be
    have hlisted : e'.fromPool ∈ (w.bucket c').poolList := by
      by_contra hno
      rw [(observables_exited h g hne).2.2.2, if_neg hno, hempty, ite_self] at hnav
      omega
    exact .of_guard h g hne hlisted
  · intro room
    have g : Vault.ExitGuard w (Auth.signers ids) u e.id c e s.token :=
      ⟨hsigned, hfound, hunp, hstake, hfrozen, ready.pulls room, ready.supplies h room⟩
    obtain ⟨hf, ht, ha, hn⟩ := observables_exited h g hne
    refine ⟨_, (Vault.approveExit_eq_ok h).mpr ⟨c, e, s.token, g, rfl⟩, hf, ?_, ha, ?_⟩
    · rw [ht, hempty, zero_add]
    · rw [hn, if_pos room.listed, hempty, ite_self, add_zero, add_sub_cancel_right]

/-- One deposit, part of it in pool 1 for a year at ten percent; the keeper freezes pool 1, which holds
    enough tokens, and proposes pool 2. -/
def exitRun (allocated : Int) : List Action :=
  setUpPool .usd (.contract 100) 1 1000 ++ setUpPool .usd (.contract 100) 2 1000 ++ joins 2 .usd 1000 ++
    [.vault [1] (.allocate (.contract 1) .usd allocated), .mint (.contract 100) (.contract 1) 500,
      .advance 31536000, .vault [1] (.freeze (.contract 1)),
      .vault [1] (.proposeExit .usd (.contract 1) (.contract 2))]

/-- The proposal of `exitRun`. -/
def exitRunProposal : Vault.ExitProposal := ⟨1, .usd, .contract 1, .contract 2⟩

/-- With 500 allocated, the 550 they became move over. -/
theorem exit_succeeds_exitRun :
    ∃ w', Vault.approveExit (Auth.signers [2]) ((World.opening 1000 5000).after (exitRun 500)) (.account 2) 1
        = .ok w' ∧
      w'.position (.contract 1) = 0 ∧
      w'.position (.contract 2) = ((World.opening 1000 5000).after (exitRun 500)).position (.contract 1) ∧
      (w'.bucket .usd).totalAssets
        = (((World.opening 1000 5000).after (exitRun 500)).bucket .usd).totalAssets ∧
      w'.navOf .usd = ((World.opening 1000 5000).after (exitRun 500)).navOf .usd := by
  obtain ⟨s, hs⟩ : ∃ s, ((World.opening 1000 5000).after (exitRun 500)).pools (.contract 2) = some s :=
    Option.isSome_iff_exists.mp (by decide +kernel)
  have hs₂ : ((((World.opening 1000 5000).after (exitRun 500)).pools (.contract 2)).map
      fun s => (s.token, s.totalPrincipal)) = some (.contract 100, 0) := by decide +kernel
  rw [hs, Option.map_some, Option.some.injEq, Prod.mk.injEq] at hs₂
  refine (exit_succeeds_iff (c := .usd) (e := exitRunProposal)
    ((Genesis.opening (by decide)).reachable _) (by decide +kernel) (by decide +kernel)
    (by decide +kernel) (by decide +kernel) (by decide +kernel) (by decide +kernel) (by decide +kernel)
    (by decide +kernel) hs (by rw [hs₂.1]; decide +kernel) (by decide +kernel) (by decide +kernel)
    (by decide +kernel)).mpr ?_
  refine ⟨by decide +kernel, ?_, by decide +kernel, by decide +kernel, by decide +kernel, ?_⟩
  · rw [hs₂.1]
    exact Or.inl (by decide +kernel)
  · intro t ht
    obtain rfl := Option.some.inj (hs.symm.trans ht)
    rw [hs₂.2]
    decide +kernel

/-- **Frozen, liquid, within the cap, and stranded all the same.** The 1000 booked in pool 1 were accepted
    under a cap of 1000. A year on they are worth 1100, and every approval of the exit fails the cap. -/
theorem exit_refused_at_cap :
    Reachable Genesis Step ((World.opening 1000 5000).after (exitRun 1000)) ∧
    ((World.opening 1000 5000).after (exitRun 1000)).vault.paused = false ∧
    (((World.opening 1000 5000).after (exitRun 1000)).bucket .usd).pendingExit = some exitRunProposal ∧
    ((World.opening 1000 5000).after (exitRun 1000)).vault.frozen (.contract 1) = true ∧
    PoolClient.balance ((World.opening 1000 5000).after (exitRun 1000)) (.contract 1) vaultAddress
      = .ok 1100 ∧
    1100 ≤ ((World.opening 1000 5000).after (exitRun 1000)).liquidity (.contract 1) ∧
    (((World.opening 1000 5000).after (exitRun 1000)).bucket .usd).poolHoldings (.contract 1)
      ≤ ((World.opening 1000 5000).after (exitRun 1000)).vault.config.perPoolCap ∧
    ((World.opening 1000 5000).after (exitRun 1000)).vault.allowedPool (.contract 2) = true ∧
    ((World.opening 1000 5000).after (exitRun 1000)).vault.frozen (.contract 2) = false ∧
    (((World.opening 1000 5000).after (exitRun 1000)).bucket .usd).token
      = some (((World.opening 1000 5000).after (exitRun 1000)).poolToken (.contract 2)) ∧
    ((World.opening 1000 5000).after (exitRun 1000)).position (.contract 2) = 0 ∧
    0 < (((World.opening 1000 5000).after (exitRun 1000)).bucket .usd).shares (.account 2) ∧
    (Vault.approveExit (Auth.signers [2]) ((World.opening 1000 5000).after (exitRun 1000))
      (.account 2) 1).isOk = false :=
  ⟨(Genesis.opening (by decide)).reachable _, by decide +kernel, by decide +kernel,
    by decide +kernel, by decide +kernel, by decide +kernel, by decide +kernel, by decide +kernel,
    by decide +kernel, by decide +kernel, by decide +kernel, by decide +kernel, by decide +kernel⟩

end SoroSense
