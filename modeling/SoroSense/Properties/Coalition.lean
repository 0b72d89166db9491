import SoroSense.Properties.SharePrice
import SoroSense.Properties.Isolation

/-!
# `Properties.Coalition` — nobody profits at the others' expense, but for rounding

At one ledger time, what a set of users has is their tokens and their shares, the shares at the exact
price. Every trade is a move of the bucket's fund paid for out of its trader's wallet (`Trading.move`), so
the fund's wealth bounds decide who gains: nobody by their own trades, and by an outsider's trade at most
what its rounding left in the pool. The two roundings are *toward the pool*, hence toward whoever still
holds shares.
-/

namespace SoroSense

open Fallible Sums Transition

variable {home : Address → Currency} {w w' : World} {a : Action} {c : Currency} {token : Address}

/-! ## Trades -/

/-- What happens at one ledger time: anybody deposits or withdraws (in `c`, or in a currency of another
    token), or sends tokens to the vault or a pool; the keeper moves money between the vault and its
    pools. -/
def Action.Trade (c : Currency) (token : Address) (w : World) : Action → Prop
  | .vault _ (.deposit _ d _)    => d = c ∨ (w.bucket d).token ≠ some token
  | .vault _ (.withdraw _ d _)   => d = c ∨ (w.bucket d).token ≠ some token
  | .vault _ (.allocate _ _ _)   => True
  | .vault _ (.deallocate _ _ _) => True
  | .transfer _ _ _ recipient _  => ∃ id, recipient = .contract id
  | _                            => False

/-- Whose shares of `c` the action trades. -/
def Action.trader (c : Currency) : Action → Option Address
  | .vault _ (.deposit u d _)  => if d = c then some u else none
  | .vault _ (.withdraw u d _) => if d = c then some u else none
  | _                          => none

/-- Who gives tokens away. -/
def Action.donor : Action → Option Address
  | .transfer _ _ sender _ _ => some sender
  | _                        => none

/-- A trade that names every pool for its home currency. -/
def TradeStep (home : Address → Currency) (c : Currency) (token : Address) (w : World) (a : Action)
    (w' : World) : Prop :=
  HomeStep home w a w' ∧ a.Trade c token w

theorem TradeStep.deposit {ids : List Nat} {u : Address} {amount : Int}
    (h : Vault.deposit (Auth.signers ids) w u c amount = .ok w') :
    TradeStep home c token w (.vault ids (.deposit u c amount)) w' :=
  ⟨⟨.done h, fun _ _ hn => absurd hn id⟩, Or.inl rfl⟩

theorem TradeStep.withdraw {ids : List Nat} {u : Address} {shares : Int}
    (h : Vault.withdraw (Auth.signers ids) w u c shares = .ok w') :
    TradeStep home c token w (.vault ids (.withdraw u c shares)) w' :=
  ⟨⟨.done h, fun _ _ hn => absurd hn id⟩, Or.inl rfl⟩

/-! ## Wealth -/

/-- What `u` has at a given price of a share: tokens, and shares at that price. -/
def World.stake (w : World) (c : Currency) (token : Address) (price : ℚ) (u : Address) : ℚ :=
  w.tokens token u + (w.bucket c).shares u * price

/-- What a set of users has, at the exact price. -/
def World.wealth (w : World) (c : Currency) (token : Address) (S : Finset Address) : ℚ :=
  ∑ u ∈ S, w.stake c token (w.ratio c) u

/-- What `u` gives up in a transition, at the price before it. -/
def loss (c : Currency) (token u : Address) (e : Event World Action) : ℚ :=
  e.pre.stake c token (e.pre.ratio c) u - e.post.stake c token (e.pre.ratio c) u

/-- What a trader outside `S` gives up in a transition. -/
def outsiderLoss (c : Currency) (token : Address) (S : Finset Address) (e : Event World Action) : ℚ :=
  match e.label.trader c with
  | some u => if u ∈ S then 0 else loss c token u e
  | none   => 0

theorem World.wealth_eq (h : w.WF) (hv : 0 < w.vault.config.virtualOffset) (S : Finset Address) :
    w.wealth c token S = ∑ u ∈ S, (w.tokens token u : ℚ) + (w.fund h hv c).claim S := by
  unfold World.wealth World.stake
  rw [Finset.sum_add_distrib, ← Finset.sum_mul]
  rfl

/-! ## Every trade is a move of the fund -/

/-- A world in which `c` trades in `token`. -/
structure Trading (home : Address → Currency) (c : Currency) (token : Address) (w : World) : Prop where
  wf         : w.WF
  home_inv   : Home.Inv home w
  offset_pos : 0 < w.vault.config.virtualOffset
  token_set  : (w.bucket c).token = some token

/-- The fund's move an action makes: a deposit, a redemption, or nothing. -/
inductive MoveOf (c : Currency) : Action → ProRata.Move Address ℚ → Prop where
  | deposit {ids : List Nat} {u : Address} {amount : Int} {minted : ℚ} :
      MoveOf c (.vault ids (.deposit u c amount)) (.deposit u amount minted)
  | redeem {ids : List Nat} {u : Address} {shares : Int} {paid : ℚ} :
      MoveOf c (.vault ids (.withdraw u c shares)) (.redeem u shares paid)
  | idle {a : Action} : MoveOf c a (.gain 0)

/-- An action's move, and who pays for it. -/
structure Moved (c : Currency) (token : Address) (w : World) (a : Action) (w' : World)
    (f : ProRata.Fund Address ℚ) (g : ProRata.Fund Address ℚ) (m : ProRata.Move Address ℚ) : Prop where
  kind      : MoveOf c a m
  step      : ProRata.Step f m g
  wallet_le : ∀ id, (w'.tokens token (.account id) : ℚ)
    ≤ w.tokens token (.account id) - m.cost (.account id)
  wallet_eq : ∀ x, a.donor ≠ some x → (a.trader c = some x ∨ ∃ id, x = .account id) →
    (w'.tokens token x : ℚ) = w.tokens token x - m.cost x

/-- A move nobody pays for. -/
theorem Moved.idle {f g : ProRata.Fund Address ℚ} (hs : ProRata.Step f (.gain 0) g)
    (hw : ∀ x, (a.trader c = some x ∨ ∃ id, x = .account id) → w'.tokens token x = w.tokens token x) :
    Moved c token w a w' f g (.gain 0) where
  kind := .idle
  step := hs
  wallet_le id := by rw [hw _ (Or.inr ⟨id, rfl⟩)]; simp [ProRata.Move.cost]
  wallet_eq x _ hx := by rw [hw x hx]; simp [ProRata.Move.cost]

section
variable {ids : List Nat} {u token' : Address} {d : Currency} {amount minted shares assets : Int}

/-- A deposit into `c` is the fund's deposit; one into another currency, of another token, is no trade. -/
theorem Trading.move_deposited (ht : Trading home c token w)
    (ht' : Trading home c token (w.deposited u d amount minted token'))
    (g : Vault.DepositGuard w (Auth.signers ids) u d amount minted token')
    (htr : d = c ∨ (w.bucket d).token ≠ some token) :
    ∃ m, Moved c token w (.vault ids (.deposit u d amount)) (w.deposited u d amount minted token')
      (w.fund ht.wf ht.offset_pos c) (World.fund _ ht'.wf ht'.offset_pos c) m := by
  obtain ⟨n, rfl⟩ := Auth.account_of_signers g.signed
  by_cases hd : d = c
  · subst hd
    obtain rfl : token' = token := Option.some.inj (g.token_set.symm.trans ht.token_set)
    have hw : ∀ id, ((w.deposited (.account n) d amount minted token').tokens token' (.account id) : ℚ)
        = w.tokens token' (.account id)
          - (ProRata.Move.deposit (Address.account n) (amount : ℚ) minted).cost (.account id) := by
      intro id
      rw [World.tokens_deposited_account]
      simp only [ProRata.Move.cost, true_and]
      push_cast
      rfl
    refine ⟨_, .deposit, World.fund_deposited g, fun id => le_of_eq (hw id), fun x _ hx => ?_⟩
    rcases hx with hx | ⟨id, rfl⟩
    · simp only [Action.trader, if_true, Option.some.injEq] at hx
      exact hx ▸ hw n
    · exact hw id
  · -- neither the bucket of `c` nor anybody's `token` is touched
    have hb : (w.deposited (.account n) d amount minted token').bucket c = w.bucket c := by
      rw [World.bucket_deposited, if_neg (Ne.symm hd)]
    have htok : token ≠ token' := fun he => htr.resolve_left hd (he ▸ g.token_set)
    refine ⟨_, .idle (World.fund_kept rfl ?_ (by rw [hb]) (by rw [hb])) ?_⟩
    · rw [World.navOf_deposited, if_neg (Ne.symm hd), add_zero]
    · rintro x (hx | ⟨id, rfl⟩)
      · simp [Action.trader, hd] at hx
      · rw [World.tokens_deposited_account, if_neg (fun he => htok he.1), sub_zero]

/-- The same for a withdrawal. -/
theorem Trading.move_redeemed (ht : Trading home c token w)
    (ht' : Trading home c token (w.redeemed u d shares assets token'))
    (g : Vault.WithdrawGuard w (Auth.signers ids) u d shares assets token')
    (htr : d = c ∨ (w.bucket d).token ≠ some token) :
    ∃ m, Moved c token w (.vault ids (.withdraw u d shares)) (w.redeemed u d shares assets token')
      (w.fund ht.wf ht.offset_pos c) (World.fund _ ht'.wf ht'.offset_pos c) m := by
  have h := ht.wf
  have hi := ht.home_inv
  obtain ⟨n, rfl⟩ := Auth.account_of_signers g.signed
  by_cases hd : d = c
  · subst hd
    obtain rfl : token' = token := Option.some.inj (g.token_set.symm.trans ht.token_set)
    have hw : ∀ id, ((w.redeemed (.account n) d shares assets token').tokens token' (.account id) : ℚ)
        = w.tokens token' (.account id)
          - (ProRata.Move.redeem (Address.account n) (shares : ℚ) assets).cost (.account id) := by
      intro id
      rw [World.tokens_redeemed_account h g]
      simp only [ProRata.Move.cost, true_and]
      push_cast
      split <;> ring
    refine ⟨_, .redeem, World.fund_redeemed hi g, fun id => le_of_eq (hw id), fun x _ hx => ?_⟩
    rcases hx with hx | ⟨id, rfl⟩
    · simp only [Action.trader, if_true, Option.some.injEq] at hx
      exact hx ▸ hw n
    · exact hw id
  · have hb := World.bucket_redeemed_ne h g (Ne.symm hd)
    have htok : token ≠ token' := fun he => htr.resolve_left hd (he ▸ g.token_set)
    refine ⟨_, .idle (World.fund_kept (World.config_redeemed h g) ?_ (by rw [hb]) (by rw [hb])) ?_⟩
    · rw [World.navOf_redeemed hi h g, if_neg (Ne.symm hd), sub_zero]
    · rintro x (hx | ⟨id, rfl⟩)
      · simp [Action.trader, hd] at hx
      · rw [World.tokens_redeemed_account h g, if_neg (fun he => htok he.1), add_zero]

end

/-- **Every trade is one move of the fund, paid for by its trader.** -/
theorem Trading.move (ht : Trading home c token w) (ht' : Trading home c token w')
    (hs : TradeStep home c token w a w') :
    ∃ m, Moved c token w a w' (w.fund ht.wf ht.offset_pos c) (w'.fund ht'.wf ht'.offset_pos c) m := by
  obtain ⟨⟨hst, hr⟩, htr⟩ := hs
  have h := ht.wf
  have hi := ht.home_inv
  cases hst.effect h with
  | reverted _ => exact ⟨_, .idle (World.fund_kept rfl rfl rfl rfl) (fun _ _ => rfl)⟩
  | quiet _ q =>
      have hb := congrFun q.bucket c
      refine ⟨_, .idle (World.fund_kept q.config ?_ (by rw [hb]) (by rw [hb])) (fun _ _ => by rw [q.tokens])⟩
      exact World.navOf_congr q.timestamp hb (fun p _ => congrFun q.pools p)
  | deposited g => exact ht.move_deposited ht' g htr
  | redeemed g => exact ht.move_redeemed ht' g htr
  -- the keeper moves money inside the bucket: value stands, and no account's tokens move
  | @allocated _ p d amount token' g =>
      refine ⟨_, .idle (World.fund_kept rfl (hi.navOf_supplied h g.supplies (hr p d ⟨rfl, rfl⟩))
        (World.bucketField_supplied Vault.Bucket.shares rfl)
        (World.bucketField_supplied Vault.Bucket.totalShares rfl)) ?_⟩
      rintro x (hx | ⟨id, rfl⟩)
      · exact absurd hx (by simp [Action.trader])
      · exact World.tokens_supplied_account h g.supplies
  | @deallocated _ p d amount g =>
      refine ⟨_, .idle (World.fund_kept rfl (hi.navOf_pulled h g.pulls (hr p d ⟨rfl, rfl⟩))
        (World.bucketField_pulled Vault.Bucket.shares (fun _ => rfl))
        (World.bucketField_pulled Vault.Bucket.totalShares (fun _ => rfl))) ?_⟩
      rintro x (hx | ⟨id, rfl⟩)
      · exact absurd hx (by simp [Action.trader])
      · exact World.tokens_pulled_account h g.pulls
  | @transferred _ tok u v amount hu h₀ _ =>
      -- a donation reaches a contract, so no account gains by it
      obtain ⟨n, rfl⟩ := htr
      refine ⟨.gain 0, .idle, World.fund_kept rfl rfl rfl rfl, fun id => ?_, fun x hx hx' => ?_⟩
      · have hle : w.tokens.move tok u (.contract n) amount token (.account id)
            ≤ w.tokens token (.account id) := by
          rw [Tokens.move_apply]
          simp only [reduceCtorEq, and_false, if_false, add_zero]
          split <;> omega
        simp only [ProRata.Move.cost, sub_zero]
        exact_mod_cast hle
      · rcases hx' with hx' | ⟨id, rfl⟩
        · exact absurd hx' (by simp [Action.trader])
        · have hne : Address.account id ≠ u := fun he => hx (congrArg some he.symm)
          have heq : w.tokens.move tok u (.contract n) amount token (.account id)
              = w.tokens token (.account id) := Tokens.move_of_ne token hne (by simp)
          simp only [ProRata.Move.cost, sub_zero]
          exact_mod_cast heq
  | _ => exact absurd htr id

/-- No trade registers a token. -/
theorem token_trade {d : Currency} (h : w.WF) (hs : TradeStep home c token w a w') :
    (w'.bucket d).token = (w.bucket d).token := by
  obtain ⟨⟨hst, _⟩, htr⟩ := hs
  cases hst.effect h with
  | reverted _ => rfl
  | quiet _ q => rw [congrFun q.bucket d]
  | deposited g => exact World.bucketField_deposited Vault.Bucket.token rfl
  | @redeemed _ u c shares assets token g =>
      rw [World.redeemed, World.bucketField_paidOut Vault.Bucket.token rfl, World.liquidated,
        Vault.token_pulls (g.burned_wf h) (g.plan h), World.bucketField_updateBucket Vault.Bucket.token rfl]
  | allocated g => exact World.bucketField_supplied Vault.Bucket.token rfl
  | deallocated g => exact World.bucketField_pulled Vault.Bucket.token (fun _ => rfl)
  | transferred _ _ _ => rfl
  | _ => exact absurd htr id

theorem Trading.next (ht : Trading home c token w) (hs : TradeStep home c token w a w') :
    Trading home c token w' where
  wf := hs.1.1.wf ht.wf
  home_inv := ht.home_inv.step ht.wf hs.1
  offset_pos := hs.1.1.config ht.wf ▸ ht.offset_pos
  token_set := (token_trade ht.wf hs).trans ht.token_set

/-! ## Who gains, who loses -/

section
variable {f g : ProRata.Fund Address ℚ} {m : ProRata.Move Address ℚ}

/-- Only the trader of an action trades in its move. -/
theorem MoveOf.trader (hk : MoveOf c a m) {x : Address} (hx : m.trader = some x) : a.trader c = some x := by
  cases hk with
  | deposit => simpa [Action.trader, ProRata.Move.trader] using hx
  | redeem  => simpa [Action.trader, ProRata.Move.trader] using hx
  | idle    => exact absurd hx (by simp [ProRata.Move.trader])

theorem Action.donor_of_trader {x : Address} (hx : a.trader c = some x) : a.donor ≠ some x := by
  cases a with
  | transfer ids tok u v amount => exact absurd hx (by simp [Action.trader])
  | _ => simp [Action.donor]

/-- A trader gives up the dust of the move, if it made one. -/
theorem Trading.loss_eq (ht : Trading home c token w) (ht' : Trading home c token w')
    (hm : Moved c token w a w' (w.fund ht.wf ht.offset_pos c) (w'.fund ht'.wf ht'.offset_pos c) m)
    {x : Address} (hx : a.trader c = some x) :
    loss c token x ⟨w, a, w'⟩ = if m.trader = some x then m.dust (w.ratio c) else 0 := by
  have hw := hm.wallet_eq x (Action.donor_of_trader hx) (Or.inl hx)
  have hs : ((w'.bucket c).shares x : ℚ) = (w.bucket c).shares x + m.issued x := hm.step.shares x
  have hc := ProRata.Move.cost_eq (w.ratio c) m x
  unfold loss World.stake
  simp only
  rw [hw, hs, hc]
  ring

/-- **A set of users gains at most what an outsider gives up.** -/
theorem Trading.wealth_le (ht : Trading home c token w) (hs : TradeStep home c token w a w')
    {S : Finset Address} (hS : ∀ u ∈ S, ∃ id, u = .account id) :
    w'.wealth c token S ≤ w.wealth c token S + outsiderLoss c token S ⟨w, a, w'⟩ := by
  have ht' := ht.next hs
  obtain ⟨m, hm⟩ := ht.move ht' hs
  have hpaid : ∀ x ∈ S, (w'.tokens token x : ℚ) ≤ w.tokens token x - m.cost x := by
    intro x hx
    obtain ⟨id, rfl⟩ := hS x hx
    exact hm.wallet_le id
  have hbound := hm.step.wealth_le S (fun x => (w.tokens token x : ℚ)) (fun x => w'.tokens token x) hpaid
  rw [World.wealth_eq ht.wf ht.offset_pos, World.wealth_eq ht'.wf ht'.offset_pos]
  refine le_trans hbound (add_le_add (le_refl _) ?_)
  have hloss := fun x hx => ht.loss_eq ht' hm (x := x) hx
  unfold outsiderLoss
  simp only
  cases hk : m.trader with
  | none =>
      -- an idle move: nobody gives anything up, whoever tried to trade
      have hidle : m.dust (w.ratio c) = 0 := by
        cases hm.kind with
        | idle => simp [ProRata.Move.dust, ProRata.Move.income, ProRata.Move.minted]
        | _    => exact absurd hk (by simp [ProRata.Move.trader])
      rw [if_neg (by simp), World.fund_price, hidle]
      cases hx : a.trader c with
      | none   => exact le_refl _
      | some u =>
          simp only [hloss u hx, hk, reduceCtorEq, if_false]
          split <;> exact le_refl _
  | some u =>
      have hx := hm.kind.trader hk
      simp only [hx, hloss u hx, hk, if_true, World.fund_price, Option.some.injEq, exists_eq_right']
      exact le_refl _

/-- **Nobody loses by anybody else's step**, and a trader loses the dust of its own at most. -/
theorem Trading.wealth_ge (ht : Trading home c token w) (ht' : Trading home c token w')
    (hm : Moved c token w a w' (w.fund ht.wf ht.offset_pos c) (w'.fund ht'.wf ht'.offset_pos c) m)
    {id : Nat} (hd : a.donor ≠ some (.account id)) :
    w.wealth c token {.account id} - (if m.trader = some (.account id) then m.dust (w.ratio c) else 0)
      ≤ w'.wealth c token {.account id} := by
  have hpaid : ∀ x ∈ ({.account id} : Finset Address),
      (w.tokens token x : ℚ) - m.cost x ≤ w'.tokens token x := by
    intro x hx
    obtain rfl := Finset.mem_singleton.mp hx
    exact le_of_eq (hm.wallet_eq _ hd (Or.inr ⟨id, rfl⟩)).symm
  have hbound := hm.step.wealth_ge {.account id} (fun x => (w.tokens token x : ℚ))
    (fun x => w'.tokens token x) hpaid
  rw [World.wealth_eq ht.wf ht.offset_pos, World.wealth_eq ht'.wf ht'.offset_pos]
  simpa [World.fund_price] using hbound

/-- A depositor gives up less than the price of a share. -/
theorem Trading.loss_deposit (ht : Trading home c token w) (ht' : Trading home c token w') {ids : List Nat}
    {u : Address} {amount : Int}
    (hm : Moved c token w (.vault ids (.deposit u c amount)) w' (w.fund ht.wf ht.offset_pos c)
      (w'.fund ht'.wf ht'.offset_pos c) m) :
    0 ≤ loss c token u ⟨w, .vault ids (.deposit u c amount), w'⟩ ∧
      loss c token u ⟨w, .vault ids (.deposit u c amount), w'⟩ < w.ratio c := by
  rw [ht.loss_eq ht' hm (by simp [Action.trader])]
  have hk := hm.kind
  cases hk with
  | deposit =>
      have hr := hm.step.rounded
      rw [if_pos (by simp [ProRata.Move.trader])]
      exact ⟨ProRata.Move.dust_nonneg hr, ProRata.Move.dust_deposit_lt hr⟩
  | idle =>
      rw [if_neg (by simp [ProRata.Move.trader])]
      exact ⟨le_refl _, ProRata.Fund.price_pos (w.fund ht.wf ht.offset_pos c)⟩

/-- A withdrawer gives up less than one unit. -/
theorem Trading.loss_withdraw (ht : Trading home c token w) (ht' : Trading home c token w')
    {ids : List Nat} {u : Address} {shares : Int}
    (hm : Moved c token w (.vault ids (.withdraw u c shares)) w' (w.fund ht.wf ht.offset_pos c)
      (w'.fund ht'.wf ht'.offset_pos c) m) :
    0 ≤ loss c token u ⟨w, .vault ids (.withdraw u c shares), w'⟩ ∧
      loss c token u ⟨w, .vault ids (.withdraw u c shares), w'⟩ < 1 := by
  rw [ht.loss_eq ht' hm (by simp [Action.trader])]
  have hk := hm.kind
  cases hk with
  | redeem =>
      have hr := hm.step.rounded
      rw [if_pos (by simp [ProRata.Move.trader])]
      exact ⟨ProRata.Move.dust_nonneg hr, ProRata.Move.dust_redeem_lt hr⟩
  | idle =>
      rw [if_neg (by simp [ProRata.Move.trader])]
      exact ⟨le_refl _, one_pos⟩

/-- A trader of an action loses at most what it gives up. -/
theorem Trading.wealth_ge_loss (ht : Trading home c token w) (ht' : Trading home c token w')
    (hm : Moved c token w a w' (w.fund ht.wf ht.offset_pos c) (w'.fund ht'.wf ht'.offset_pos c) m)
    {id : Nat} (hx : a.trader c = some (.account id)) :
    w.wealth c token {.account id} - loss c token (.account id) ⟨w, a, w'⟩
      ≤ w'.wealth c token {.account id} := by
  rw [ht.loss_eq ht' hm hx]
  exact ht.wealth_ge ht' hm (Action.donor_of_trader hx)

/-- As long as nobody trades shares of `c`, the ratio stands. -/
theorem Trading.ratio_idle (ht : Trading home c token w) (hs : TradeStep home c token w a w')
    (hn : a.trader c = none) : w'.ratio c = w.ratio c := by
  have ht' := ht.next hs
  obtain ⟨m, hm⟩ := ht.move ht' hs
  have hk := hm.kind
  cases hk with
  | deposit => exact absurd hn (by simp [Action.trader])
  | redeem  => exact absurd hn (by simp [Action.trader])
  | idle    => exact hm.step.price_eq_of_idle

end

/-- **A round trip returns the deposit but for rounding**, whatever is given away or reallocated in
    between. -/
theorem Trading.round_trip (ht : Trading home c token w) {ids ids' : List Nat} {u : Address} {amount : Int}
    {w₁ w₂ w₃ : World} {tr : List (Event World Action)}
    (hd : Vault.deposit (Auth.signers ids) w u c amount = .ok w₁)
    (hrun : Run (TradeStep home c token) w₁ tr w₂) (hidle : ∀ e ∈ tr, e.label.trader c = none)
    (hw : Vault.withdraw (Auth.signers ids') w₂ u c ((w₁.bucket c).shares u - (w.bucket c).shares u)
      = .ok w₃) :
    w₃.tokens token u - w₂.tokens token u ≤ amount ∧
      (amount : ℚ) - w.ratio c - 1 < ((w₃.tokens token u - w₂.tokens token u : Int) : ℚ) := by
  have ht₁ := ht.next (.deposit hd)
  have ht₂ : Trading home c token w₂ := hrun.invariant (fun _ _ _ ht hs => ht.next hs) ht₁
  -- the price between the two trades is the one the deposit left
  have hratio : w₂.ratio c = w₁.ratio c := by
    have hev := hrun.invariant_events (P := Trading home c token) (fun _ _ _ ht hs => ht.next hs) ht₁
    exact hrun.const (fun v => v.ratio c) (fun e he => (hev e he).1.ratio_idle (hev e he).2.1 (hidle e he))
  obtain ⟨minted, token₁, g₁, rfl⟩ := Vault.deposit_eq_ok.mp hd
  have hmint : ((w.deposited u c amount minted token₁).bucket c).shares u - (w.bucket c).shares u
      = minted := by
    rw [World.bucket_deposited, if_pos rfl]
    simp [Vault.Bucket.credited]
  rw [hmint] at hw
  obtain ⟨assets, token₂, g₂, rfl⟩ := (Vault.withdraw_eq_ok ht₂.wf).mp hw
  obtain rfl : token₂ = token := Option.some.inj (g₂.token_set.symm.trans ht₂.token_set)
  obtain ⟨id, rfl⟩ := Auth.account_of_signers g₂.signed
  have hpaid : (w₂.redeemed (.account id) c minted assets token₂).tokens token₂ (.account id)
      - w₂.tokens token₂ (.account id) = assets := by
    rw [World.tokens_redeemed_account ht₂.wf g₂, if_pos ⟨rfl, rfl⟩]
    omega
  have hdep : ProRata.Step (w.fund ht.wf ht.offset_pos c) (.deposit (.account id) amount minted)
      (World.fund _ ht₁.wf ht₁.offset_pos c) := World.fund_deposited g₁
  have ht₃ := ht₂.next (.withdraw hw)
  have hred : ProRata.Step (w₂.fund ht₂.wf ht₂.offset_pos c) (.redeem (.account id) minted assets)
      (World.fund _ ht₃.wf ht₃.offset_pos c) := World.fund_redeemed ht₂.home_inv g₂
  obtain ⟨_, hlt⟩ := hdep.rounded
  obtain ⟨hle₂, hlt₂⟩ := hred.rounded
  have hworth := hdep.minted_mul_price_le
  have hmono := hdep.price_le
  rw [World.fund_price] at hlt hle₂ hlt₂ hworth hmono
  rw [World.fund_price] at hmono
  rw [hratio] at hle₂ hlt₂
  have hpos : (0 : ℚ) ≤ minted := by exact_mod_cast le_of_lt g₁.minted_pos
  have hup := mul_le_mul_of_nonneg_left hmono hpos
  rw [hpaid]
  constructor
  · have hle : (assets : ℚ) ≤ amount := le_trans hle₂ hworth
    exact_mod_cast hle
  · linarith

/-- **Nobody profits at the others' expense, but for rounding.** From every reachable state, in every run
    of trades at one ledger time, for every set `S` of users:

    * a step raises what `S` has by at most what a trader outside `S` gives up in it, so a step by `S`, by a
      keeper or by a donor does not raise it;
    * what a trader gives up is less than the price of a share (a deposit) or one unit (a withdrawal);
    * a user never loses by a step of anybody else, and by an own trade less than that;
    * a deposit and the withdrawal of the shares it minted return at most the deposit, and at least the
      deposit less the price of a share and one unit, whatever is given away or reallocated between them. -/
theorem coalition_gains_only_rounding (hr : Reachable Genesis (HomeStep home) w)
    (hv : 0 < w.vault.config.virtualOffset) (htok : (w.bucket c).token = some token)
    (S : Finset Address) (hS : ∀ u ∈ S, ∃ id, u = .account id) :
    (∀ tr w', Run (TradeStep home c token) w tr w' →
      (∀ e ∈ tr, e.post.wealth c token S ≤ e.pre.wealth c token S + outsiderLoss c token S e) ∧
      w'.wealth c token S ≤ w.wealth c token S + (tr.map (outsiderLoss c token S)).sum ∧
      (∀ e ∈ tr, ∀ u,
        (∀ ids amount, e.label = .vault ids (.deposit u c amount) →
          0 ≤ loss c token u e ∧ loss c token u e < e.pre.ratio c) ∧
        (∀ ids shares, e.label = .vault ids (.withdraw u c shares) →
          0 ≤ loss c token u e ∧ loss c token u e < 1)) ∧
      (∀ e ∈ tr, ∀ id,
        (e.label.trader c ≠ some (.account id) → e.label.donor ≠ some (.account id) →
          e.pre.wealth c token {.account id} ≤ e.post.wealth c token {.account id}) ∧
        (e.label.trader c = some (.account id) →
          e.pre.wealth c token {.account id} - loss c token (.account id) e
            ≤ e.post.wealth c token {.account id}))) ∧
    (∀ ids ids' u amount w₁ tr w₂ w₃,
      Vault.deposit (Auth.signers ids) w u c amount = .ok w₁ → Run (TradeStep home c token) w₁ tr w₂ →
      (∀ e ∈ tr, e.label.trader c = none) →
      Vault.withdraw (Auth.signers ids') w₂ u c ((w₁.bucket c).shares u - (w.bucket c).shares u) = .ok w₃ →
      w₃.tokens token u - w₂.tokens token u ≤ amount ∧
        (amount : ℚ) - w.ratio c - 1 < ((w₃.tokens token u - w₂.tokens token u : Int) : ℚ)) := by
  have ht : Trading home c token w :=
    ⟨reachable_wf (reachable_of_home hr), Home.reachable_inv hr, hv, htok⟩
  refine ⟨fun tr w' hrun => ?_, fun ids ids' u amount w₁ tr w₂ w₃ hd hrun hidle hw =>
    ht.round_trip hd hrun hidle hw⟩
  have hev := hrun.invariant_events (P := Trading home c token) (fun _ _ _ ht hs => ht.next hs) ht
  have hstep : ∀ e ∈ tr, e.post.wealth c token S ≤ e.pre.wealth c token S + outsiderLoss c token S e :=
    fun e he => (hev e he).1.wealth_le (hev e he).2.1 hS
  have hsum := hrun.sum_le (fun v : World => v.wealth c token S) (outsiderLoss c token S) hstep
  refine ⟨hstep, hsum, ?_, ?_⟩
  · intro e he u
    obtain ⟨hpre, hs, hpost⟩ := hev e he
    obtain ⟨m, hm⟩ := hpre.move hpost hs
    obtain ⟨v, a, v'⟩ := e
    refine ⟨fun ids amount ha => ?_, fun ids shares ha => ?_⟩
    · obtain rfl : a = .vault ids (.deposit u c amount) := ha
      exact hpre.loss_deposit hpost hm
    · obtain rfl : a = .vault ids (.withdraw u c shares) := ha
      exact hpre.loss_withdraw hpost hm
  · intro e he id
    obtain ⟨hpre, hs, hpost⟩ := hev e he
    obtain ⟨m, hm⟩ := hpre.move hpost hs
    refine ⟨fun hx hd => ?_, fun hx => hpre.wealth_ge_loss hpost hm hx⟩
    have hge := hpre.wealth_ge hpost hm hd
    rwa [if_neg (fun hk => hx (hm.kind.trader hk)), sub_zero] at hge

/-- A year of yield, and account 3 about to join. -/
def outsiderRun : List Action := yieldRun ++ [.vault [3] (.setPolicyConsent (.account 3))]

theorem outsiderRun_reachable :
    Reachable Genesis (HomeStep fun _ => .usd) ((World.opening 1000 5000).after outsiderRun) := by
  refine (Genesis.opening (by decide)).reachable_home ?_
  simp [outsiderRun, yieldRun, setUpPool, joins, Action.Respects, Vault.Call.Names]

/-- Account 2 deposits 100 more for 95 shares and withdraws them, account 3 having donated 50 to the
    vault in between: it gets back at most 100. -/
theorem coalition_gains_only_rounding_outsiderRun :
    (((World.opening 1000 5000).after outsiderRun).after
      [.vault [2] (.deposit (.account 2) .usd 100),
        .transfer [3] (.contract 100) (.account 3) vaultAddress 50,
        .vault [2] (.withdraw (.account 2) .usd 95)]).tokens (.contract 100) (.account 2)
      - (((World.opening 1000 5000).after outsiderRun).after
          [.vault [2] (.deposit (.account 2) .usd 100),
            .transfer [3] (.contract 100) (.account 3) vaultAddress 50]).tokens (.contract 100) (.account 2)
      ≤ 100 := by
  have hgives : Run (TradeStep (fun _ => .usd) .usd (.contract 100))
      (((World.opening 1000 5000).after outsiderRun).after [.vault [2] (.deposit (.account 2) .usd 100)])
      _ _ :=
    .single ⟨⟨.done (Execution.Accepts.single (by decide +kernel)
      : (Action.transfer [3] (.contract 100) (.account 3) vaultAddress 50).exec _ = .ok _), trivial⟩, 0, rfl⟩
  exact ((coalition_gains_only_rounding outsiderRun_reachable (c := .usd) (by decide +kernel)
    (by decide +kernel) {.account 2} (by simp)).2 [2] [2] (.account 2) 100 _ _ _ _
    (Execution.Accepts.single (by decide +kernel)
      : (Action.vault [2] (.deposit (.account 2) .usd 100)).exec _ = .ok _) hgives (by simp [Action.trader])
    (Execution.Accepts.single (by decide +kernel)
      : (Action.vault [2] (.withdraw (.account 2) .usd 95)).exec _ = .ok _)).1

/-- **An outsider's rounding enriches the others.** Account 3 deposits 100 after the year of yield; the
    95 shares it is minted leave a fraction in the pool, and what account 2 has rises without any step of
    its own. Nor does it stand when the keeper puts another currency's money into a pool of the bucket. -/
theorem outsider_rounding_enriches_holder :
    (Reachable Genesis (HomeStep fun _ => .usd) ((World.opening 1000 5000).after outsiderRun) ∧
      ((World.opening 1000 5000).after outsiderRun).Accepts [.vault [3] (.deposit (.account 3) .usd 100)] ∧
      ((World.opening 1000 5000).after outsiderRun).wealth .usd (.contract 100) {.account 2}
        < (((World.opening 1000 5000).after outsiderRun).after
            [.vault [3] (.deposit (.account 3) .usd 100)]).wealth .usd (.contract 100) {.account 2}) ∧
    (Reachable Genesis Step ((World.opening 1000 5000).after sharedPoolRun) ∧
      ((World.opening 1000 5000).after sharedPoolRun).Accepts
        [.vault [1] (.allocate (.contract 1) .eur 500)] ∧
      ((World.opening 1000 5000).after sharedPoolRun).wealth .usd (.contract 100) {.account 2}
        < (((World.opening 1000 5000).after sharedPoolRun).after
            [.vault [1] (.allocate (.contract 1) .eur 500)]).wealth .usd (.contract 100) {.account 2}) :=
  ⟨⟨outsiderRun_reachable, by decide +kernel, by decide +kernel⟩,
    sharedPoolRun_reachable, by decide +kernel, by decide +kernel⟩

end SoroSense
