import SoroSense.Properties.Payout
import SoroSense.Flags

/-!
# `Properties.BankRun` — everybody can leave, and the order hardly matters

Holders of one bucket leave it one after another at one ledger time, each with all its shares (`leaveAll`).
A bucket whose pools hold what they owe the vault serves the first of them (`Serves.leave`): the pools pay
out of their tokens what they take off the position, so they still hold what they owe, and what the
redemption rounds off is less than one unit, so what anybody else's shares redeem for rises by at most one.

Along the whole queue (`everybody_can_leave`) nobody is paid less than `value_of` said before the first one
left, and nobody gains more than one unit for each who left before.
-/

namespace SoroSense

open Fallible Sums Transition

/-- Holders leave bucket `c` one after another, each with all its shares. -/
def leaveAll (c : Currency) : List Nat → World → Except Panic World
  | [], w        => .ok w
  | u :: rest, w => do
      let w ← Vault.withdraw (Auth.signers [u]) w (.account u) c (Vault.balanceOf w (.account u) c)
      leaveAll c rest w

/-- A reachable unpaused bucket, every listed pool of which holds what it owes the vault. -/
structure Serves (r : Registry) (c : Currency) (w : World) : Prop where
  reached  : Reachable Genesis (RegisteredStep r) w
  offset   : 0 < w.vault.config.virtualOffset
  unpaused : w.vault.paused = false
  liquid   : ∀ p ∈ (w.bucket c).poolList, w.position p ≤ w.liquidity p

/-- What one holder's leaving with all its shares, worth `v`, does to everybody. -/
structure Leaves (c : Currency) (token : Address) (u : Nat) (v : Int) (w w' : World) : Prop where
  token_set : (w'.bucket c).token = some token
  paid      : ∀ x, w'.tokens token (.account x) = w.tokens token (.account x) + if x = u then v else 0
  gone      : (w'.bucket c).shares (.account u) = 0
  others    : ∀ x, x ≠ .account u → (w'.bucket c).shares x = (w.bucket c).shares x
  /-- What anybody else's shares redeem for can still be read, and has risen by one unit at most. -/
  values    : ∀ x v, x ≠ .account u → Vault.valueOf w x c = .ok v →
    ∃ v', Vault.valueOf w' x c = .ok v' ∧ v ≤ v' ∧ v' ≤ v + 1

variable {r : Registry} {home : Address → Currency} {w w' : World} {c : Currency} {token x : Address}
  {u : Nat} {v shares assets : Int} {ids who : List Nat}

/-! ## One holder leaves -/

/-- A withdrawal pays out of each pool what it takes there. -/
theorem liquidity_redeemed (h : w.WF)
    (g : Vault.WithdrawGuard w (Auth.signers ids) (.account u) c shares assets token) (p : Address) :
    (w.redeemed (.account u) c shares assets token).liquidity p
      = w.liquidity p - Drain.taken (w.payoutPlan c assets) p := by
  have h₁ := h.liquidated g
  -- the payment itself moves no pool's tokens
  have hpay : (w.redeemed (.account u) c shares assets token).liquidity p
      = (w.liquidated (.account u) c shares assets).liquidity p := by
    have hp : (w.redeemed (.account u) c shares assets token).pools p
        = (w.liquidated (.account u) c shares assets).pools p := rfl
    cases hs : (w.liquidated (.account u) c shares assets).pools p with
    | none   =>
        unfold World.liquidity
        rw [hp, hs]
    | some s =>
        rw [World.liquidity_of_some hs, World.liquidity_of_some (hp.trans hs)]
        exact Tokens.move_of_ne s.token (h₁.pool_ne_vault hs) (h₁.account_ne_pool hs u)
  rw [hpay]
  exact Vault.liquidity_pulls (g.burned_wf h) (g.plan h) p

/-- The pools still hold what they owe: each paid out of its tokens what came off its position. -/
theorem Serves.redeemed (hs : Serves r c w)
    (g : Vault.WithdrawGuard w (Auth.signers ids) (.account u) c shares assets token)
    (hw : Vault.withdraw (Auth.signers ids) w (.account u) c shares
      = .ok (w.redeemed (.account u) c shares assets token)) :
    Serves r c (w.redeemed (.account u) c shares assets token) := by
  have h := reachable_wf (reachable_of_home (reachable_home_of_registered hs.reached))
  have hplan := g.plan h
  constructor
  · refine hs.reached.tail (a := .vault ids (.withdraw (.account u) c shares)) ⟨.done hw, ?_⟩
    intro p d hn
    exact absurd hn id
  · rw [World.config_redeemed h g]
    exact hs.offset
  · have hx : (Vault.Call.withdraw (.account u) c shares).exec (Auth.signers ids) w
        = .ok (w.redeemed (.account u) c shares assets token) := hw
    have hpaused := congrArg (fun s => s.flags.paused) (settings_of_call h hx)
    exact hpaused.trans hs.unpaused
  · intro p hp
    have hlisted : p ∈ (w.bucket c).poolList := by
      rw [World.redeemed, World.bucketField_paidOut Vault.Bucket.poolList rfl, World.liquidated,
        Vault.mem_poolList_pulls (g.burned_wf h) hplan, World.bucket_updateBucket_self] at hp
      exact hp.1
    have hliq := hs.liquid p hlisted
    rw [World.position_redeemed h g, liquidity_redeemed h g]
    omega

/-- A quotient that can be computed can be computed over a smaller bucket. -/
theorem Vault.MulDivFits.shrink {a b b' d d' o : Int} (hf : MulDivFits a b d o) (ho : 0 < o) (ha : 0 ≤ a)
    (hb₀ : 0 ≤ b') (hb : b' ≤ b) (hd₀ : 0 ≤ d') (hd : d' ≤ d) : MulDivFits a b' d' o := by
  have hprod : a * (b' + o) ≤ a * (b + o) := mul_le_mul_of_nonneg_left (by omega) ha
  have hprod₀ : 0 ≤ a * (b' + o) := mul_nonneg ha (by omega)
  obtain ⟨hq₀, hq, _⟩ := proRata_bounds (a := a) (b := b') (d := d') (v := o) ha (by omega) (by omega)
  -- the divisor is at least one, so the quotient is below the product
  have hquot : proRata a b' d' o ≤ a * (b' + o) := by
    have hone : proRata a b' d' o * 1 ≤ proRata a b' d' o * (d' + o) :=
      mul_le_mul_of_nonneg_left (by omega) hq₀
    omega
  exact
    { numerator := hf.numerator.of_nonneg (by omega) (by omega)
      product   := hf.product.of_nonneg hprod₀ hprod
      divisor   := hf.divisor.of_nonneg (by omega) (by omega)
      nonzero   := by omega
      quotient  := hf.product.of_nonneg hq₀ (le_trans hquot hprod) }

/-- **What others' shares redeem for rises by one unit at most** when a holder leaves, and never falls. -/
theorem value_redeemed (hi : Home.Inv home w) (h : w.WF) (hv : 0 < w.vault.config.virtualOffset)
    (g : Vault.WithdrawGuard w (Auth.signers ids) (.account u) c shares assets token)
    (hx : x ≠ .account u) (hval : Vault.valueOf w x c = .ok v) :
    ∃ v', Vault.valueOf (w.redeemed (.account u) c shares assets token) x c = .ok v' ∧ v ≤ v' ∧ v' ≤ v + 1 := by
  set w' := w.redeemed (.account u) c shares assets token with hw'
  have h' : w'.WF := h.redeemed g
  have hcfg : w'.vault.config = w.vault.config := World.config_redeemed h g
  have hv' : 0 < w'.vault.config.virtualOffset := hcfg ▸ hv
  have hbooks := World.books_redeemed h g
  have hown : (w'.bucket c).shares x = (w.bucket c).shares x := by
    rw [hbooks.1]
    exact Function.update_of_ne hx ..
  have hsupply : (w'.bucket c).totalShares = (w.bucket c).totalShares - shares := hbooks.2
  have hnav : w'.navOf c = w.navOf c - assets := by
    have hn := World.navOf_redeemed (d := c) hi h g
    rwa [if_pos rfl] at hn
  have ha := g.nonneg
  have hpos := g.pos
  have hs₀ := (h.bucket_wf c).shares_nonneg x
  have hn₀ := h.navOf_nonneg c
  have ht₀ := h.supply_nonneg c
  have hn₀' := h'.navOf_nonneg c
  have ht₀' := h'.supply_nonneg c
  obtain ⟨_, hfits, hold⟩ := (Vault.redeemAssets_eq_ok h).mp hval
  have hfits' : Vault.MulDivFits ((w.bucket c).shares x) (w'.navOf c) (w'.bucket c).totalShares
      w.vault.config.virtualOffset :=
    hfits.shrink hv hs₀ hn₀' (by omega) ht₀' (by omega)
  refine ⟨Vault.proRata ((w.bucket c).shares x) (w'.navOf c) (w'.bucket c).totalShares
    w.vault.config.virtualOffset, ?_, ?_⟩
  · show Vault.redeemAssets w' c ((w'.bucket c).shares x) w'.vault.config.virtualOffset = _
    rw [hown, hcfg]
    exact (Vault.redeemAssets_eq_ok h').mpr ⟨readable_redeemed hi h g, hfits', rfl⟩
  -- the claim of `x` before and after, at the exact prices
  have hstep : ProRata.Step (w.fund h hv c) (.redeem (.account u) shares assets) (w'.fund h' hv' c) :=
    World.fund_redeemed hi g
  have hge := hstep.claim_ge {x}
  have hle := hstep.claim_le {x}
  have hdust := ProRata.Move.dust_redeem_lt hstep.rounded
  have hclaim : (w.fund h hv c).claim {x} = (w.bucket c).shares x * w.ratio c := by
    simp [ProRata.Fund.claim, ProRata.Fund.held, World.fund, World.ratio, ProRata.Fund.price]
  have hclaim' : (w'.fund h' hv' c).claim {x} = (w.bucket c).shares x * w'.ratio c := by
    rw [← hown]
    simp [ProRata.Fund.claim, ProRata.Fund.held, World.fund, World.ratio, ProRata.Fund.price]
  have hissued : ∑ y ∈ {x}, (ProRata.Move.redeem (.account u) (shares : ℚ) (assets : ℚ)).issued y = 0 := by
    rw [Finset.sum_singleton]
    exact if_neg hx
  rw [hclaim, hclaim', hissued, zero_mul] at hge hle
  have hold' := Vault.proRata_bounds_div (a := (w.bucket c).shares x) (b := w.navOf c)
    (d := (w.bucket c).totalShares) (v := w.vault.config.virtualOffset) hs₀ (by omega) (by omega)
  have hnew := Vault.proRata_bounds_div (a := (w.bucket c).shares x) (b := w'.navOf c)
    (d := (w'.bucket c).totalShares) (v := w.vault.config.virtualOffset) hs₀ (by omega) (by omega)
  have hratio' : w'.ratio c
      = ((w'.navOf c : ℚ) + w.vault.config.virtualOffset)
        / ((w'.bucket c).totalShares + w.vault.config.virtualOffset) := by
    unfold World.ratio
    rw [hcfg]
  rw [hold] at hold'
  rw [← hratio'] at hnew
  constructor
  · have hlt : (v : ℚ) < Vault.proRata ((w.bucket c).shares x) (w'.navOf c) (w'.bucket c).totalShares
        w.vault.config.virtualOffset + 1 := by
      have h₁ : (v : ℚ) ≤ (w.bucket c).shares x * w.ratio c := hold'.1
      linarith [hnew.2]
    exact Int.lt_add_one_iff.mp (by exact_mod_cast hlt)
  · have hlt : (Vault.proRata ((w.bucket c).shares x) (w'.navOf c) (w'.bucket c).totalShares
        w.vault.config.virtualOffset : ℚ) < v + 1 + 1 := by
      have h₁ : (w.bucket c).shares x * w.ratio c < (v : ℚ) + 1 := hold'.2
      linarith [hnew.1]
    exact Int.lt_add_one_iff.mp (by exact_mod_cast hlt)

/-- **One holder leaves.** A bucket that serves its holders pays the next of them all its shares are worth,
    and still serves the others. -/
theorem Serves.leave (hs : Serves r c w) (hown : 0 < (w.bucket c).shares (.account u))
    (hval : Vault.valueOf w (.account u) c = .ok v) :
    ∃ token w', Vault.withdraw (Auth.signers [u]) w (.account u) c (Vault.balanceOf w (.account u) c) = .ok w' ∧
      (w.bucket c).token = some token ∧ Serves r c w' ∧ Leaves c token u v w w' := by
  have hh := reachable_home_of_registered hs.reached
  have h := reachable_wf (reachable_of_home hh)
  have hi := Home.reachable_inv hh
  have hred : Vault.redeemAssets w c ((w.bucket c).shares (.account u)) w.vault.config.virtualOffset = .ok v := hval
  have hcov := (redeemAssets_between h hs.offset (totalShares_le_navOf hh hs.offset) hown
    (h.shares_le c _) hred).2
  have hplan : ∀ y ∈ w.payoutPlan c v, y.2 ≤ w.liquidity y.1 := by
    intro y hy
    obtain ⟨hmem, _, hle⟩ := Drain.mem_takes hy
    exact le_trans hle (hs.liquid y.1 hmem)
  obtain ⟨token, g⟩ := withdrawGuard_of_liquid hs.reached hs.offset hs.unpaused
    (Auth.signers_self u) hown (le_refl _) hred hcov hplan
  have hw := (Vault.withdraw_eq_ok h).mpr ⟨v, token, g, rfl⟩
  have hbooks := World.books_redeemed h g
  refine ⟨token, _, hw, g.token_set, hs.redeemed g hw, ?_⟩
  constructor
  · rw [World.redeemed, World.bucketField_paidOut Vault.Bucket.token rfl, World.liquidated,
      Vault.token_pulls (g.burned_wf h) (g.plan h), World.bucket_updateBucket_self]
    exact g.token_set
  · intro y
    rw [World.tokens_redeemed_account h g]
    simp
  · rw [hbooks.1]
    simp [Vault.Bucket.burned]
  · intro y hy
    rw [hbooks.1]
    exact Function.update_of_ne hy ..
  · intro y vy hy hvy
    exact value_redeemed hi h hs.offset g hy hvy

/-! ## The whole queue -/

/-- The holder in place `i` of the queue got out with what its shares redeemed for before anybody left, or
    with up to `i` units more. -/
def PaidOff (c : Currency) (w w' : World) (u i : Nat) : Prop :=
  ∃ token v paid, (w.bucket c).token = some token ∧ Vault.valueOf w (.account u) c = .ok v ∧
    w'.tokens token (.account u) = w.tokens token (.account u) + paid ∧ v ≤ paid ∧ paid ≤ v + i ∧
    (w'.bucket c).shares (.account u) = 0

/-- **Everybody can leave, in any order**, when the pools and tokens are used as the registry has them and the
    virtual offset is positive. From every reachable unpaused state in which every listed pool holds what it owes
    the vault: a queue of distinct holders, whose holdings can be valued, is served to
    the last. The holder in place `i` is paid what `value_of` returned before the first one left, and up to
    `i` units more; those who stay keep their shares and their tokens, and what theirs redeem for has not
    fallen, nor risen by more than a unit for each who left. -/
theorem everybody_can_leave (hs : Serves r c w) (hnd : who.Nodup)
    (hown : ∀ u ∈ who, 0 < (w.bucket c).shares (.account u))
    (hval : ∀ u ∈ who, ∃ v, Vault.valueOf w (.account u) c = .ok v) :
    ∃ w', leaveAll c who w = .ok w' ∧ Serves r c w' ∧
      (∀ i u, who[i]? = some u → PaidOff c w w' u i) ∧
      (∀ x, x ∉ who → (w'.bucket c).shares (.account x) = (w.bucket c).shares (.account x) ∧
        ∀ token, (w.bucket c).token = some token → w'.tokens token (.account x) = w.tokens token (.account x)) ∧
      (∀ x v, x ∉ who → Vault.valueOf w (.account x) c = .ok v →
        ∃ v', Vault.valueOf w' (.account x) c = .ok v' ∧ v ≤ v' ∧ v' ≤ v + who.length) := by
  induction who generalizing w with
  | nil =>
      refine ⟨w, rfl, hs, ?_, ?_, ?_⟩
      · intro i u hi
        exact absurd hi (by simp)
      · intro x _
        exact ⟨rfl, fun _ _ => rfl⟩
      · intro x v _ hv
        exact ⟨v, hv, le_refl v, by simp⟩
  | cons u rest ih =>
      obtain ⟨hu, hnd'⟩ := List.nodup_cons.mp hnd
      obtain ⟨v, hv⟩ := hval u List.mem_cons_self
      obtain ⟨token, w₁, hw, htok, hs₁, hl⟩ := hs.leave (hown u List.mem_cons_self) hv
      have hne : ∀ y, y ≠ u → Address.account y ≠ .account u := by
        intro y hy he
        exact hy (Address.account.inj he)
      have hrest : ∀ y ∈ rest, y ≠ u := fun y hy he => hu (he ▸ hy)
      -- the others hold what they held, and it can still be valued
      have hown₁ : ∀ y ∈ rest, 0 < (w₁.bucket c).shares (.account y) := by
        intro y hy
        rw [hl.others _ (hne y (hrest y hy))]
        exact hown y (List.mem_cons_of_mem _ hy)
      have hval₁ : ∀ y ∈ rest, ∃ v, Vault.valueOf w₁ (.account y) c = .ok v := by
        intro y hy
        obtain ⟨vy, hvy⟩ := hval y (List.mem_cons_of_mem _ hy)
        obtain ⟨vy', hvy', _⟩ := hl.values _ vy (hne y (hrest y hy)) hvy
        exact ⟨vy', hvy'⟩
      obtain ⟨w', hw', hs', hpaid, hstay, hvals⟩ := ih hs₁ hnd' hown₁ hval₁
      refine ⟨w', ?_, hs', ?_, ?_, ?_⟩
      · show (Vault.withdraw _ _ _ _ _ >>= fun w => leaveAll c rest w) = _
        exact bind_eq_ok.mpr ⟨w₁, hw, hw'⟩
      · intro i y hi
        cases i with
        | zero =>
            -- the head is paid its value, and nothing that happens behind it takes any of that away
            obtain rfl : u = y := by simpa using hi
            obtain ⟨hshares, htokens⟩ := hstay u hu
            refine ⟨token, v, v, htok, hv, ?_, le_refl v, by simp, hshares.trans hl.gone⟩
            rw [htokens token hl.token_set, hl.paid, if_pos rfl]
        | succ i =>
            have hy : rest[i]? = some y := by simpa using hi
            have hyu := hrest y (List.mem_of_getElem? hy)
            obtain ⟨token', v₁, paid, htok', hv₁, hgot, hlo, hhi, hgone⟩ := hpaid i y hy
            obtain rfl : token = token' := Option.some.inj (hl.token_set.symm.trans htok')
            obtain ⟨vy, hvy⟩ := hval y (List.mem_cons_of_mem _ (List.mem_of_getElem? hy))
            obtain ⟨vy', hvy', hup, hone⟩ := hl.values _ vy (hne y hyu) hvy
            obtain rfl : v₁ = vy' := ok_unique hv₁ hvy'
            refine ⟨token, vy, paid, htok, hvy, ?_, le_trans hup hlo, ?_, hgone⟩
            · rw [hgot, hl.paid, if_neg hyu, add_zero]
            · push_cast
              omega
      · intro x hx
        obtain ⟨hxu, hxr⟩ : x ≠ u ∧ x ∉ rest := by simpa using hx
        obtain ⟨hshares, htokens⟩ := hstay x hxr
        refine ⟨hshares.trans (hl.others _ (hne x hxu)), ?_⟩
        intro t ht
        obtain rfl : token = t := Option.some.inj (htok.symm.trans ht)
        rw [htokens token hl.token_set, hl.paid, if_neg hxu, add_zero]
      · intro x vx hx hvx
        obtain ⟨hxu, hxr⟩ : x ≠ u ∧ x ∉ rest := by simpa using hx
        obtain ⟨vx₁, hvx₁, hup, hone⟩ := hl.values _ vx (hne x hxu) hvx
        obtain ⟨vx', hvx', hup', hall⟩ := hvals x vx₁ hxr hvx₁
        refine ⟨vx', hvx', le_trans hup hup', ?_⟩
        rw [List.length_cons]
        push_cast
        omega

/-- Three holders, a year of yield on part of their money, and the pool's interest paid up. -/
def queueRun : List Action :=
  setUpPool .usd (.contract 100) 1 1000 ++ joins 2 .usd 1000 ++ joins 3 .usd 777 ++ joins 4 .usd 333 ++
    [.vault [1] (.allocate (.contract 1) .usd 1000), .advance 31536000, .mint (.contract 100) (.contract 1) 100]

theorem queueRun_serves : Serves .dollars .usd ((World.opening 1000 5000).after queueRun) where
  reached := by
    refine (Genesis.opening (by decide)).reachable_registered ?_
    simp [queueRun, setUpPool, joins, Action.Registered, Vault.Call.Names, Registry.dollars]
  offset   := by decide +kernel
  unpaused := by decide +kernel
  liquid   := by decide +kernel

/-- The three holders leave, the largest last. -/
theorem everybody_can_leave_queueRun :
    ∃ w', leaveAll .usd [4, 3, 2] ((World.opening 1000 5000).after queueRun) = .ok w' ∧
      PaidOff .usd ((World.opening 1000 5000).after queueRun) w' 2 2 := by
  have hval : ∀ u ∈ [4, 3, 2], ∃ v,
      Vault.valueOf ((World.opening 1000 5000).after queueRun) (.account u) .usd = .ok v := by
    have hok : ∀ u ∈ [4, 3, 2],
        (Vault.valueOf ((World.opening 1000 5000).after queueRun) (.account u) .usd).isOk = true := by
      decide +kernel
    exact fun u hu => isOk_iff.mp (hok u hu)
  have hnd : [4, 3, 2].Nodup := by decide
  obtain ⟨w', hw', _, hpaid, _⟩ := everybody_can_leave queueRun_serves hnd (by decide +kernel) hval
  exact ⟨w', hw', hpaid 2 2 rfl⟩

end SoroSense
