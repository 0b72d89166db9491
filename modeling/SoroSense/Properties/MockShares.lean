import SoroSense.Backend.MockVault
import SoroSense.Backend.RunnerSpec
import SoroSense.Properties.Payout
import SoroSense.Vault.Panics

/-!
# `Properties.MockShares` — the mock's share accounting beside the contract's

Mock and vault take the same deposits and withdrawals. In between anything else happens on the ledger; none
of it moves shares or lowers a NAV (`KeptBooks.of_step`), and `simulateYield` tells the mock what a bucket
gained. The mock keeps a bucket's value in one counter where the vault sums idle and positions, so what ties
them is a relation (`Mirrors`), kept by every step.

It is kept as long as the vault's `i128` arithmetic does not panic: the mock's `bigint`s never do, and one
deposit too large for the vault's mint sets the two apart (`not_same_verdict_huge`).
-/

namespace SoroSense
namespace Backend

open Fallible Transition

/-! ## The two side by side -/

/-- The mock and the ledger the vault is on. -/
structure SideBySide where
  mock  : MockVault
  world : World

/-- A call that moves shares. Its user is an account, which signs it. -/
inductive ShareCall where
  | deposit (user : ℕ) (c : Currency) (amount : Int)
  | withdraw (user : ℕ) (c : Currency) (shares : Int)

namespace ShareCall

/-- The write it is on the mock, -/
def tx (strkey : Strkey) : ShareCall → MockTx
  | .deposit u c amount  => MockVault.deposit (strkey.text (.account u)) c amount
  | .withdraw u c shares => MockVault.withdraw (strkey.text (.account u)) c shares

def signer : ShareCall → Signer
  | .deposit u _ _  => ⟨.depositor, u⟩
  | .withdraw u _ _ => ⟨.depositor, u⟩

/-- … and the transaction it is on the ledger. -/
def action : ShareCall → Action
  | .deposit u c amount  => .vault [u] (.deposit (.account u) c amount)
  | .withdraw u c shares => .vault [u] (.withdraw (.account u) c shares)

/-- Depositors are consented and hold what they deposit, in the registered token; the pools a payout visits
    can pay. -/
def Provided (w : World) : ShareCall → Prop
  | .deposit u c amount  => w.vault.consent (.account u) = true ∧
      ∃ token, (w.bucket c).token = some token ∧ amount ≤ w.tokens token (.account u)
  | .withdraw _ c shares => ∀ assets, Vault.redeemAssets w c shares w.vault.config.virtualOffset = .ok assets →
      ∀ x ∈ w.payoutPlan c assets, x.2 ≤ w.liquidity x.1

end ShareCall

/-- A call on both, or anything else on the ledger. -/
inductive ShareEvent where
  | call (x : ShareCall)
  | other (a : Action)

/-- Deposits and withdrawals. -/
def MovesShares : Action → Prop
  | .vault _ (.deposit _ _ _)  => True
  | .vault _ (.withdraw _ _ _) => True
  | _                          => False

/-- `simulateYield` in every currency, by what the bucket gained. -/
def mirrorYield (m : MockVault) (w w' : World) : Except String MockVault :=
  Vault.allCurrencies.foldlM (fun m c => m.simulateYield c (w'.navOf c - w.navOf c)) m

/-- **One event on both.** Each side takes or refuses a call by itself; of anything else `simulateYield` follows
    the gains. -/
inductive SharesStep (r : Registry) (strkey : Strkey) : SideBySide → ShareEvent → SideBySide → Prop where
  | call {m : MockVault} {w w' : World} (x : ShareCall) (unpaused : w.vault.paused = false)
      (provided : x.Provided w) (step : Step w x.action w') :
      SharesStep r strkey ⟨m, w⟩ (.call x) ⟨m.written (x.tx strkey) x.signer, w'⟩
  | other {m m' : MockVault} {w w' : World} (a : Action) (moves : ¬ MovesShares a)
      (step : RegisteredStep r w a w') (mirrored : mirrorYield m w w' = .ok m') :
      SharesStep r strkey ⟨m, w⟩ (.other a) ⟨m', w'⟩

/-- A call is accepted by both or by neither. -/
def SameVerdict (strkey : Strkey) (s : SideBySide) : ShareEvent → Prop
  | .call x  => s.mock.Accepts (x.tx strkey) x.signer ↔ ∃ w', x.action.exec s.world = .ok w'
  | .other _ => True

/-- The vault's arithmetic does not panic on the call. -/
def InRange (w : World) : ShareEvent → Prop
  | .call x  => Avoids Panic.Arithmetic (x.action.exec w)
  | .other _ => True

/-- The read returns `n`, unless it overflows on its way. -/
def ReadsAs (read : Except Panic Int) (n : Int) : Prop :=
  read = .ok n ∨ ∃ e, read = .error e ∧ e.Arithmetic

/-- The share reads of every user and currency. -/
structure SameReads (strkey : Strkey) (m : MockVault) (w : World) : Prop where
  balance : ∀ u c, Vault.balanceOf w u c = m.balanceOf (strkey.text u) c
  price   : ∀ c, ReadsAs (Vault.sharePrice w c) (m.sharePrice c)
  value   : ∀ u c, ReadsAs (Vault.valueOf w u c) (m.assetValueOf (strkey.text u) c)

/-! ## The relation -/

/-- **The mock's counters are the vault's**, its NAV accumulator the vault's mark-to-market value. -/
structure Mirrors (strkey : Strkey) (m : MockVault) (w : World) : Prop where
  live   : m.failSubmit = false
  shares : ∀ u c, m.shares (bucketKey (strkey.text u) c) = (w.bucket c).shares u
  supply : ∀ c, m.totalShares c = (w.bucket c).totalShares
  nav    : ∀ c, m.totalAssets c = w.navOf c

variable {r : Registry} {strkey : Strkey} {m m' : MockVault} {w w' w₀ : World} {c : Currency} {u : ℕ}
  {amount shares minted assets : Int} {x : ShareCall} {token : SoroSense.Address}

theorem Strkey.text_inj {a b : SoroSense.Address} : strkey.text a = strkey.text b ↔ a = b := by
  refine ⟨fun h => ?_, congrArg _⟩
  have ha := strkey.parse_text a
  rw [h, strkey.parse_text b] at ha
  exact (Except.ok.inj ha).symm

namespace Mirrors

theorem genesis (hg : Genesis w) : Mirrors strkey .new w where
  live := rfl
  shares _ c := by rw [hg.bucket_eq c]; rfl
  supply c := by rw [hg.bucket_eq c]; rfl
  nav c := by
    unfold World.navOf
    rw [hg.bucket_eq c]
    rfl

/-- A sequence number more. -/
theorem prepared (h : Mirrors strkey m w) : Mirrors strkey m.prepared w := ⟨h.live, h.shares, h.supply, h.nav⟩

/-! ### The share formulas are the same -/

theorem mint_eq (h : Mirrors strkey m w) :
    m.mintShares c amount = Vault.proRata amount (w.bucket c).totalShares (w.navOf c) virtualOffset := by
  unfold MockVault.mintShares Vault.proRata
  rw [h.supply, h.nav]

theorem redeem_eq (h : Mirrors strkey m w) :
    m.redeemAssets c shares = Vault.proRata shares (w.navOf c) (w.bucket c).totalShares virtualOffset := by
  unfold MockVault.redeemAssets Vault.proRata
  rw [h.supply, h.nav]

theorem price_eq (h : Mirrors strkey m w) : m.sharePrice c
    = Vault.proRata Vault.sharePriceScale (w.navOf c) (w.bucket c).totalShares virtualOffset := by
  unfold MockVault.sharePrice Vault.proRata
  rw [h.supply, h.nav, mul_comm]

end Mirrors

/-- A read that stops in its arithmetic only, and returns nothing but `n`. -/
theorem ReadsAs.of_avoids {read : Except Panic Int} {n : Int} (hv : ∀ y, read = .ok y → y = n)
    (ha : Avoids (fun e => ¬ e.Arithmetic) read) : ReadsAs read n := by
  cases hread : read with
  | ok y    => exact .inl (congrArg _ (hv y hread))
  | error e => exact .inr ⟨e, rfl, not_not.mp (ha e hread)⟩

theorem unarithmetic_not : Unarithmetic (fun e => ¬ e.Arithmetic) := fun _ => id

/-- **Mirrored counters are read alike.** -/
theorem Mirrors.sameReads (h : Mirrors strkey m w) (hw : w.WF)
    (hv : w.vault.config.virtualOffset = virtualOffset) : SameReads strkey m w where
  balance u c := (h.shares u c).symm
  price c := by
    refine .of_avoids (fun y hy => ?_) (Vault.sharePriceOf_avoids unarithmetic_not hw)
    obtain ⟨_, _, rfl⟩ := (Vault.sharePriceOf_eq_ok hw).mp hy
    rw [h.price_eq, hv]
  value u c := by
    refine .of_avoids (fun y hy => ?_) (Vault.redeemAssets_avoids unarithmetic_not hw)
    obtain ⟨_, _, rfl⟩ := (Vault.redeemAssets_eq_ok hw).mp hy
    show _ = m.redeemAssets c (m.shares (bucketKey (strkey.text u) c))
    rw [h.redeem_eq, h.shares, hv]

/-! ## One verdict -/

/-- **A provided deposit is accepted by both or by neither.** -/
theorem deposit_accepted_iff (h : Mirrors strkey m w) (hw : w.WF)
    (hv : w.vault.config.virtualOffset = virtualOffset) (hmin : w.vault.config.minFirstDeposit ≤ 1)
    (hp : w.vault.paused = false) (ha : (ShareCall.deposit u c amount).Provided w)
    (hin : Avoids Panic.Arithmetic (Vault.deposit (Auth.signers [u]) w (.account u) c amount)) :
    (0 < amount ∧ 0 < m.mintShares c amount) ↔
      ∃ w', Vault.deposit (Auth.signers [u]) w (.account u) c amount = .ok w' := by
  constructor
  · rintro ⟨hpos, hminted⟩
    obtain ⟨hconsent, token, htoken, hfunded⟩ := ha
    have hmint : ∀ minted, Vault.mintShares w c amount w.vault.config.virtualOffset = .ok minted →
        0 < minted := by
      intro minted hm
      obtain ⟨_, _, rfl⟩ := (Vault.mintShares_eq_ok hw).mp hm
      rwa [hv, ← h.mint_eq]
    have hstop := Vault.deposit_avoids_of_checks unarithmetic_not hw
      (Auth.signers_self u) hp hconsent hpos (by omega) htoken hfunded hmint
    exact hin.exists_ok hstop
  · rintro ⟨w', hx⟩
    obtain ⟨minted, token, g, _⟩ := Vault.deposit_eq_ok.mp hx
    obtain ⟨_, _, hval⟩ := (Vault.mintShares_eq_ok hw).mp g.mints
    rw [h.mint_eq, ← hv, hval]
    exact ⟨g.pos, g.minted_pos⟩

/-- **A withdrawal the pools can pay is accepted by both or by neither.** -/
theorem withdraw_accepted_iff (h : Mirrors strkey m w) (hr : Reachable Genesis (RegisteredStep r) w)
    (hv : w.vault.config.virtualOffset = virtualOffset) (hp : w.vault.paused = false)
    (ha : (ShareCall.withdraw u c shares).Provided w)
    (hin : Avoids Panic.Arithmetic (Vault.withdraw (Auth.signers [u]) w (.account u) c shares)) :
    (0 < shares ∧ shares ≤ m.balanceOf (strkey.text (.account u)) c) ↔
      ∃ w', Vault.withdraw (Auth.signers [u]) w (.account u) c shares = .ok w' := by
  have hw := reachable_wf (reachable_of_home (reachable_home_of_registered hr))
  have hpos : 0 < w.vault.config.virtualOffset := by rw [hv]; decide
  have howned : m.balanceOf (strkey.text (.account u)) c = (w.bucket c).shares (.account u) := h.shares _ c
  rw [howned]
  constructor
  · rintro ⟨h₀, hown⟩
    cases hred : Vault.redeemAssets w c shares w.vault.config.virtualOffset with
    | error e =>
        exact hin.exists_ok (Vault.withdraw_avoids_of_redeem unarithmetic_not hw
          (Auth.signers_self u) hp h₀ hown hred)
    | ok assets =>
        -- the bucket covers what it values the shares at
        have hpar := totalShares_le_navOf (c := c) (reachable_home_of_registered hr) hpos
        have hcov := (redeemAssets_between hw hpos hpar h₀ (le_trans hown (hw.shares_le c _)) hred).2
        obtain ⟨token, g⟩ := withdrawGuard_of_liquid hr hpos hp (Auth.signers_self u) h₀ hown hred hcov
          (ha assets hred)
        exact ⟨_, (Vault.withdraw_eq_ok hw).mpr ⟨assets, token, g, rfl⟩⟩
  · rintro ⟨w', hx⟩
    obtain ⟨assets, token, g, _⟩ := (Vault.withdraw_eq_ok hw).mp hx
    exact ⟨g.pos, g.owned⟩

/-! ## One effect -/

/-- Rewriting one user's entry on both sides keeps the entries equal. -/
theorem shares_updated {f : Currency → SoroSense.Address → Int} {g : String → Int} {n : Int}
    {a : SoroSense.Address} (h : ∀ v d, g (bucketKey (strkey.text v) d) = f d v) (v : SoroSense.Address)
    (d : Currency) : Function.update g (bucketKey (strkey.text a) c) n (bucketKey (strkey.text v) d)
      = if d = c then Function.update (f c) a n v else f d v := by
  by_cases hd : d = c
  · subst hd
    rw [if_pos rfl]
    by_cases hva : v = a
    · subst hva
      rw [Function.update_self, Function.update_self]
    · have hkey : bucketKey (strkey.text v) d ≠ bucketKey (strkey.text a) d :=
        fun he => hva (Strkey.text_inj.mp (bucketKey_inj.mp he).1)
      rw [Function.update_of_ne hkey, Function.update_of_ne hva]
      exact h v d
  · have hkey : bucketKey (strkey.text v) d ≠ bucketKey (strkey.text a) c :=
      fun he => hd (bucketKey_inj.mp he).2
    rw [Function.update_of_ne hkey, if_neg hd]
    exact h v d

/-- Rewriting one currency's counter on both sides keeps the counters equal. -/
theorem counter_updated {f g : Currency → Int} {n : Int} (h : ∀ d, g d = f d) (d : Currency) :
    Function.update g c n d = if d = c then n else f d := by
  rw [Function.update_apply, h]

/-- A deposit of the same shares. -/
theorem Mirrors.deposited (h : Mirrors strkey m w) : Mirrors strkey
    (m.deposited (strkey.text (.account u)) c amount minted) (w.deposited (.account u) c amount minted token) where
  live := h.live
  shares v d := by
    refine (shares_updated h.shares v d).trans ?_
    rw [World.bucket_deposited, h.shares]
    split <;> rfl
  supply d := by
    refine (counter_updated h.supply d).trans ?_
    rw [World.bucket_deposited, h.supply]
    split <;> rfl
  nav d := by
    refine (counter_updated h.nav d).trans ?_
    rw [World.navOf_deposited, h.nav]
    split
    · rename_i hd; rw [hd]
    · rw [add_zero]

/-- A payout of the same assets: what the pulls moved stays in the NAV. -/
theorem Mirrors.redeemed (h : Mirrors strkey m w) {home : SoroSense.Address → Currency} (hi : Home.Inv home w)
    (hw : w.WF) {auth : Auth} (g : Vault.WithdrawGuard w auth (.account u) c shares assets token) :
    Mirrors strkey (m.redeemed (strkey.text (.account u)) c shares assets)
      (w.redeemed (.account u) c shares assets token) where
  live := h.live
  shares v d := by
    refine (shares_updated h.shares v d).trans ?_
    rw [h.shares]
    split
    · rename_i hd; rw [hd, (World.books_redeemed hw g).1]; rfl
    · rename_i hd; rw [World.bucket_redeemed_ne hw g hd]
  supply d := by
    refine (counter_updated h.supply d).trans ?_
    rw [h.supply]
    split
    · rename_i hd; rw [hd, (World.books_redeemed hw g).2]
    · rename_i hd; rw [World.bucket_redeemed_ne hw g hd]
  nav d := by
    refine (counter_updated h.nav d).trans ?_
    rw [World.navOf_redeemed hi hw g, h.nav]
    split
    · rename_i hd; rw [hd]
    · rw [sub_zero]

/-! ## What moves no shares -/

/-- No bucket's shares or value changed. -/
structure SameBooks (w w' : World) : Prop where
  shares : ∀ c, (w'.bucket c).shares = (w.bucket c).shares
  supply : ∀ c, (w'.bucket c).totalShares = (w.bucket c).totalShares
  nav    : ∀ c, w'.navOf c = w.navOf c

namespace SameBooks

variable {home : SoroSense.Address → Currency} {p q : SoroSense.Address} {auth : Auth}

/-- A rewrite of other fields of one bucket. -/
theorem recorded {f : Vault.Bucket → Vault.Bucket} (hs : (f (w.bucket c)).shares = (w.bucket c).shares)
    (ht : (f (w.bucket c)).totalShares = (w.bucket c).totalShares)
    (ha : (f (w.bucket c)).totalAssets = (w.bucket c).totalAssets)
    (hl : (f (w.bucket c)).poolList = (w.bucket c).poolList) : SameBooks w (w.updateBucket c f) :=
  ⟨fun _ => World.bucketField_updateBucket Vault.Bucket.shares hs,
    fun _ => World.bucketField_updateBucket Vault.Bucket.totalShares ht, fun _ => World.navOf_recorded hl ha⟩

theorem proposed : SameBooks w (w.proposed c p q) :=
  ⟨fun _ => World.books_proposed.1, fun _ => World.books_proposed.2, fun _ => World.navOf_proposed⟩

theorem allocated (hi : Home.Inv home w) (h : w.WF) (g : Vault.SupplyGuard w p c amount token) (hp : home p = c) :
    SameBooks w ((w.supplied p c amount token).publish (.allocated c p amount)) :=
  ⟨fun _ => World.bucketField_supplied Vault.Bucket.shares rfl,
    fun _ => World.bucketField_supplied Vault.Bucket.totalShares rfl, fun _ => hi.navOf_supplied h g hp⟩

theorem deallocated (hi : Home.Inv home w) (h : w.WF) (g : Vault.PullGuard w p c amount) (hp : home p = c) :
    SameBooks w ((w.pulled p c amount).publish (.deallocated c p amount)) :=
  ⟨fun _ => World.bucketField_pulled Vault.Bucket.shares (fun _ => rfl),
    fun _ => World.bucketField_pulled Vault.Bucket.totalShares (fun _ => rfl),
    fun _ => hi.navOf_pulled h g hp⟩

theorem exited (hi : Home.Inv home w) (h : w.WF) {a : SoroSense.Address} {exitId : ℕ} {e : Vault.ExitProposal}
    (g : Vault.ExitGuard w auth a exitId c e token) : SameBooks w (w.exited c e token) :=
  ⟨fun _ => World.books_exited.1, fun _ => World.books_exited.2, fun _ => World.navOf_exited hi h g⟩

end SameBooks

/-- No bucket's shares changed, and none's value fell. -/
structure KeptBooks (w w' : World) : Prop where
  shares : ∀ c, (w'.bucket c).shares = (w.bucket c).shares
  supply : ∀ c, (w'.bucket c).totalShares = (w.bucket c).totalShares
  nav    : ∀ c, w.navOf c ≤ w'.navOf c

theorem SameBooks.kept (h : SameBooks w w') : KeptBooks w w' := ⟨h.shares, h.supply, fun c => ge_of_eq (h.nav c)⟩

/-- **What is neither a deposit nor a withdrawal moves no shares and lowers no NAV.** -/
theorem KeptBooks.of_step {home : SoroSense.Address → Currency} {a : Action} (hi : Home.Inv home w) (h : w.WF)
    (hs : HomeStep home w a w') (hn : ¬ MovesShares a) : KeptBooks w w' := by
  obtain ⟨hst, hr⟩ := hs
  have hout := (hst.effect h).outside h
  have hkeep : Outside w w' → KeptBooks w w' := fun o =>
    ⟨fun d => by rw [o.bucket d], fun d => by rw [o.bucket d], fun d => World.navOf_le_of_outside o⟩
  cases hst.effect h with
  | reverted _     => exact ⟨fun _ => rfl, fun _ => rfl, fun _ => le_refl _⟩
  | quiet _ q      => exact hkeep q.outside
  | tokenSet       => exact (SameBooks.recorded rfl rfl rfl rfl).kept
  | poolConfigured => exact (SameBooks.recorded rfl rfl rfl rfl).kept
  | proposed       => exact SameBooks.proposed.kept
  | deposited g    => exact absurd trivial hn
  | redeemed g     => exact absurd trivial hn
  | exited g       => exact (SameBooks.exited hi h g).kept
  | @allocated _ p d amount token g => exact (SameBooks.allocated hi h g.supplies (hr p d ⟨rfl, rfl⟩)).kept
  | @deallocated _ p d amount g     => exact (SameBooks.deallocated hi h g.pulls (hr p d ⟨rfl, rfl⟩)).kept
  -- pools called by others, transfers, issuance, time
  | _ => exact hkeep (hout (by simp))

/-- **`simulateYield` follows exactly the gains**: the accumulators end where the NAVs do. -/
theorem mirrorYield_eq_ok (h : ∀ c, m.totalAssets c = w.navOf c) :
    mirrorYield m w w' = .ok m' ↔ (∀ c, w.navOf c ≤ w'.navOf c) ∧ { m with totalAssets := w'.navOf } = m' := by
  unfold mirrorYield Vault.allCurrencies
  simp only [List.foldlM_cons, List.foldlM_nil, bind_eq_ok, MockVault.simulateYield_eq_ok, pure_eq_ok, sub_nonneg]
  have hend : Function.update (Function.update (Function.update m.totalAssets
      .usd (m.totalAssets .usd + (w'.navOf .usd - w.navOf .usd)))
      .eur (m.totalAssets .eur + (w'.navOf .eur - w.navOf .eur)))
      .mxn (m.totalAssets .mxn + (w'.navOf .mxn - w.navOf .mxn)) = w'.navOf := by
    funext c
    cases c <;> simp [h]
  constructor
  · rintro ⟨_, ⟨hu, rfl⟩, _, ⟨he, rfl⟩, _, ⟨hm, rfl⟩, rfl⟩
    exact ⟨fun c => by cases c <;> assumption, (congrArg (fun f => { m with totalAssets := f }) hend).symm⟩
  · rintro ⟨hle, rfl⟩
    exact ⟨_, ⟨hle .usd, rfl⟩, _, ⟨hle .eur, rfl⟩, _, ⟨hle .mxn, rfl⟩,
      congrArg (fun f => { m with totalAssets := f }) hend⟩

/-! ## Every step -/

/-- What holds of the two along a run. -/
structure Tied (r : Registry) (strkey : Strkey) (config : Vault.Config) (s : SideBySide) : Prop where
  reached : Reachable Genesis (RegisteredStep r) s.world
  config  : s.world.vault.config = config
  mirrors : Mirrors strkey s.mock s.world

variable {config : Vault.Config} {s s' : SideBySide} {ev : ShareEvent}

theorem Tied.wf (h : Tied r strkey config s) : s.world.WF :=
  reachable_wf (reachable_of_home (reachable_home_of_registered h.reached))

theorem Tied.inv (h : Tied r strkey config s) : Home.Inv r.home s.world :=
  Home.reachable_inv (reachable_home_of_registered h.reached)

/-- No call of the two names a pool. -/
theorem ShareCall.registered (x : ShareCall) : x.action.Registered r := by
  cases x <;> exact fun _ _ hn => hn.elim

theorem ShareCall.role (x : ShareCall) : x.signer.role = (x.tx strkey).requiredSigner := by cases x <;> rfl

/-- **A call gets one verdict.** -/
theorem Tied.accepts_iff (h : Tied r strkey config s) (hv : config.virtualOffset = virtualOffset)
    (hmin : config.minFirstDeposit ≤ 1) (hp : s.world.vault.paused = false) (ha : x.Provided s.world)
    (hin : InRange s.world (.call x)) :
    s.mock.Accepts (x.tx strkey) x.signer ↔ ∃ w', x.action.exec s.world = .ok w' := by
  rw [MockVault.accepts_iff x.role h.mirrors.live]
  rw [← h.config] at hv hmin
  cases x with
  | deposit u c amount =>
      refine Iff.trans ?_ (deposit_accepted_iff h.mirrors h.wf hv hmin hp ha hin)
      simp only [ShareCall.tx, MockVault.deposit_eq_ok, exists_and_left, exists_eq', and_true]
      rfl
  | withdraw u c shares =>
      refine Iff.trans ?_ (withdraw_accepted_iff h.mirrors h.reached hv hp ha hin)
      simp only [ShareCall.tx, MockVault.withdraw_eq_ok, exists_and_left, exists_eq', and_true]
      rfl

/-- **A call that both accept leaves them mirrored.** -/
theorem Tied.call (h : Tied r strkey config s) (hv : config.virtualOffset = virtualOffset)
    (hm : (x.tx strkey).effect s.mock.prepared = .ok m') (hw : x.action.exec s.world = .ok w') :
    Mirrors strkey m' w' := by
  have hpre := h.mirrors.prepared
  rw [← h.config] at hv
  cases x with
  | deposit u c amount =>
      obtain ⟨_, _, rfl⟩ := MockVault.deposit_eq_ok.mp hm
      obtain ⟨minted, token, g, rfl⟩ := Vault.deposit_eq_ok.mp hw
      obtain ⟨_, _, hval⟩ := (Vault.mintShares_eq_ok h.wf).mp g.mints
      have hminted : s.mock.prepared.mintShares c amount = minted := by rw [hpre.mint_eq, ← hv, hval]
      rw [hminted]
      exact hpre.deposited
  | withdraw u c shares =>
      obtain ⟨_, _, rfl⟩ := MockVault.withdraw_eq_ok.mp hm
      obtain ⟨assets, token, g, rfl⟩ := (Vault.withdraw_eq_ok h.wf).mp hw
      obtain ⟨_, _, hval⟩ := (Vault.redeemAssets_eq_ok h.wf).mp g.redeems
      have hassets : s.mock.prepared.redeemAssets c shares = assets := by rw [hpre.redeem_eq, ← hv, hval]
      rw [hassets]
      exact hpre.redeemed h.inv h.wf g

/-- **What else happens leaves them mirrored**, and `simulateYield` never refuses it. -/
theorem Tied.other (h : Tied r strkey config s) {a : Action} (hs : RegisteredStep r s.world a w')
    (hn : ¬ MovesShares a) : ∃ m', mirrorYield s.mock s.world w' = .ok m' ∧ Mirrors strkey m' w' := by
  have hkept := KeptBooks.of_step h.inv h.wf hs.home hn
  refine ⟨_, (mirrorYield_eq_ok h.mirrors.nav).mpr ⟨hkept.nav, rfl⟩, h.mirrors.live, ?_, ?_, ?_⟩
  · intro u c
    exact (h.mirrors.shares u c).trans (by rw [hkept.shares])
  · intro c
    exact (h.mirrors.supply c).trans (hkept.supply c).symm
  · intro c
    exact rfl

/-- **One event gets one verdict and keeps the two tied.** -/
theorem Tied.step (h : Tied r strkey config s) (hv : config.virtualOffset = virtualOffset)
    (hmin : config.minFirstDeposit ≤ 1) (hs : SharesStep r strkey s ev s') (hin : InRange s.world ev) :
    SameVerdict strkey s ev ∧ Tied r strkey config s' := by
  cases hs with
  | other a hn step hm =>
      obtain ⟨m₁, hm₁, hmirrors⟩ := h.other step hn
      rw [ok_unique hm hm₁]
      exact ⟨trivial, h.reached.tail step, (step.1.config h.wf).trans h.config, hmirrors⟩
  | @call m w w' x hp ha step =>
      have hverdict := h.accepts_iff hv hmin hp ha hin
      refine ⟨hverdict, h.reached.tail ⟨step, x.registered⟩, (step.config h.wf).trans h.config, ?_⟩
      show Mirrors strkey (m.written (x.tx strkey) x.signer) w'
      by_cases hacc : m.Accepts (x.tx strkey) x.signer
      · -- both take it
        obtain ⟨m₁, hm⟩ := (MockVault.accepts_iff x.role h.mirrors.live).mp hacc
        obtain ⟨w₁, hw⟩ := hverdict.mp hacc
        rw [MockVault.written_of_ok x.role h.mirrors.live hm, step.eq_of_ok hw]
        exact h.call hv hm hw
      · -- neither does
        rw [MockVault.written_of_not_accepts x.role h.mirrors.live hacc]
        cases step with
        | done hx    => exact absurd (hverdict.mpr ⟨w', hx⟩) hacc
        | reverted _ => exact h.mirrors.prepared

/-! ## Runs -/

variable {tr : List (Event SideBySide ShareEvent)}

/-- **A run gets one verdict a call**, and leaves every read the same. -/
theorem Tied.run (h : Tied r strkey config s) (hv : config.virtualOffset = virtualOffset)
    (hmin : config.minFirstDeposit ≤ 1) (hr : Run (SharesStep r strkey) s tr s')
    (hin : ∀ e ∈ tr, InRange e.pre.world e.label) :
    ∀ e ∈ tr, SameVerdict strkey e.pre e.label ∧ SameReads strkey e.post.mock e.post.world := by
  refine (hr.invariant_under (I := Tied r strkey config) (fun s ev t ht hs hfirst => ?_) h hin).2
  obtain ⟨hverdict, hnext⟩ := ht.step hv hmin hs hfirst
  exact ⟨⟨hverdict, hnext.mirrors.sameReads hnext.wf (by rw [hnext.config, hv])⟩, hnext⟩

/-- A fresh mock beside a freshly constructed vault. -/
theorem Tied.genesis (hg : Genesis w) : Tied r strkey w.vault.config ⟨.new, w⟩ := ⟨.of_init hg, rfl, .genesis hg⟩

/-! ## Runs exist -/

/-- **Any history of the ledger without deposits and withdrawals can be followed.** -/
theorem Tied.follow (h : Tied r strkey config s) {tr : List (Event World Action)}
    (hr : Run (RegisteredStep r) s.world tr w') (hn : ∀ e ∈ tr, ¬ MovesShares e.label) :
    ∃ tr' m', Run (SharesStep r strkey) s tr' ⟨m', w'⟩ ∧ Tied r strkey config ⟨m', w'⟩ ∧
      ∀ e ∈ tr', ∃ a, e.label = .other a := by
  have hstep : ∀ w a w₁ (x : SideBySide), x.world = w ∧ Tied r strkey config x → RegisteredStep r w a w₁ →
      ¬ MovesShares a → ∃ y : SideBySide, SharesStep r strkey x (.other a) y ∧ y.world = w₁ ∧
        Tied r strkey config y := by
    rintro _ a w₁ ⟨m, w⟩ ⟨rfl, ht⟩ hs ha
    obtain ⟨m₁, hm, hmirrors⟩ := ht.other hs ha
    have hnext : Tied r strkey config ⟨m₁, w₁⟩ :=
      ⟨ht.reached.tail hs, (hs.1.config ht.wf).trans ht.config, hmirrors⟩
    exact ⟨⟨m₁, w₁⟩, .other a ha hs hm, rfl, hnext⟩
  obtain ⟨tr', ⟨m', _⟩, hrun, ⟨rfl, htied⟩, hlab⟩ := hr.lift hstep hn ⟨rfl, h⟩
  exact ⟨tr', m', hrun, htied, hlab⟩

/-- The same, of a list of actions. -/
theorem Tied.follow_trace (h : Tied r strkey config s) {as : List Action} (hreg : ∀ a ∈ as, a.Registered r)
    (hn : ∀ a ∈ as, ¬ MovesShares a) :
    ∃ tr' m', Run (SharesStep r strkey) s tr' ⟨m', s.world.after as⟩ ∧
      Tied r strkey config ⟨m', s.world.after as⟩ ∧ ∀ e ∈ tr', ∃ a, e.label = .other a :=
  h.follow (s.world.run_trace_registered hreg) fun e he =>
    hn _ (Execution.trace_labels as e he)

/-- A provided call the vault takes is a step of a run. -/
theorem SharesStep.accepted (hp : w.vault.paused = false) (ha : x.Provided w) (hx : w.Accepts [x.action]) :
    SharesStep r strkey ⟨m, w⟩ (.call x) ⟨m.written (x.tx strkey) x.signer, w.after [x.action]⟩ :=
  .call x hp ha (.done hx.exec)

/-- Account 2 consents in a vault with one pool. -/
def consentRun : List Action :=
  setUpPool .usd (.contract 100) 1 1000 ++ [.vault [2] (.setPolicyConsent (.account 2))]

/-- Its deposit is put to work for a year. -/
def workRun : List Action := [.vault [1] (.allocate (.contract 1) .usd 500), .advance 31536000]

theorem consentRun_follows : (∀ a ∈ consentRun, a.Registered .dollars) ∧ ∀ a ∈ consentRun, ¬ MovesShares a := by
  simp [consentRun, setUpPool, Action.Registered, Vault.Call.Names, Registry.dollars, MovesShares]

theorem workRun_follows : (∀ a ∈ workRun, a.Registered .dollars) ∧ ∀ a ∈ workRun, ¬ MovesShares a := by
  simp [workRun, Action.Registered, Vault.Call.Names, Registry.dollars, MovesShares]

/-! ## The simulation -/

/-- **The mock's share accounting simulates the vault's.** Start a fresh mock beside a freshly constructed
    vault with the mock's offset. In every run in which the vault's arithmetic panics on no call, each call
    is accepted by both or by neither, and after each event the mock reads every balance, price and value as
    the vault does, where the vault's read does not overflow. -/
theorem mock_simulates_shares (hg : Genesis w₀) (hv : w₀.vault.config.virtualOffset = virtualOffset)
    (hmin : w₀.vault.config.minFirstDeposit ≤ 1) (hr : Run (SharesStep r strkey) ⟨.new, w₀⟩ tr s)
    (hin : ∀ e ∈ tr, InRange e.pre.world e.label) :
    ∀ e ∈ tr, SameVerdict strkey e.pre e.label ∧ SameReads strkey e.post.mock e.post.world :=
  (Tied.genesis hg).run hv hmin hr hin

/-- The ledger before and after the deposit, a year later and after the withdrawal. -/
def consentedWorld (balance : Int) : World := (World.opening 1000 balance).after consentRun

def fundedWorld : World := (consentedWorld 5000).after [(ShareCall.deposit 2 .usd 1000).action]

def yieldedWorld : World := fundedWorld.after workRun

def paidWorld : World := yieldedWorld.after [(ShareCall.withdraw 2 .usd 300).action]

/-- A deposit, a year of yield and a withdrawal. -/
theorem mock_simulates_shares_yield :
    ∃ tr m, Run (SharesStep .dollars demoClient.strkey) ⟨.new, World.opening 1000 5000⟩ tr ⟨m, paidWorld⟩ ∧
      ∀ e ∈ tr, SameVerdict demoClient.strkey e.pre e.label ∧
        SameReads demoClient.strkey e.post.mock e.post.world := by
  have hg : Genesis (World.opening 1000 5000) := Genesis.opening (by decide)
  -- the setup, then the deposit
  have h₀ : Tied .dollars demoClient.strkey _ ⟨.new, World.opening 1000 5000⟩ := .genesis hg
  obtain ⟨tr₁, m₁, hr₁, h₁, hl₁⟩ := h₀.follow_trace consentRun_follows.1 consentRun_follows.2
  have hd : (consentedWorld 5000).Accepts [(ShareCall.deposit 2 .usd 1000).action] := by decide +kernel
  have hs₂ : SharesStep .dollars demoClient.strkey ⟨m₁, consentedWorld 5000⟩ (.call (.deposit 2 .usd 1000)) _ :=
    .accepted (by decide +kernel) ⟨by decide +kernel, .contract 100, by decide +kernel, by decide +kernel⟩ hd
  obtain ⟨_, h₂⟩ := h₁.step (by decide +kernel) (by decide +kernel) hs₂ (.of_eq_ok hd.exec)
  -- a year, then the withdrawal
  obtain ⟨tr₃, m₃, hr₃, h₃, hl₃⟩ := h₂.follow_trace workRun_follows.1 workRun_follows.2
  have hw : yieldedWorld.Accepts [(ShareCall.withdraw 2 .usd 300).action] := by decide +kernel
  have hval : Vault.redeemAssets yieldedWorld .usd 300 yieldedWorld.vault.config.virtualOffset = .ok 314 := by
    decide +kernel
  have hable : (ShareCall.withdraw 2 .usd 300).Provided yieldedWorld := by
    intro assets ha
    rw [ok_unique ha hval]
    decide +kernel
  have hs₄ : SharesStep .dollars demoClient.strkey ⟨m₃, yieldedWorld⟩ (.call (.withdraw 2 .usd 300)) _ :=
    .accepted (by decide +kernel) hable hw
  have hrun := hr₁.append (.cons hs₂ (hr₃.append (.cons hs₄ (.nil _))))
  refine ⟨_, _, hrun, mock_simulates_shares hg (by decide +kernel) (by decide +kernel) hrun ?_⟩
  intro e he
  simp only [List.mem_append, List.mem_cons, List.not_mem_nil, or_false] at he
  rcases he with he | rfl | he | rfl
  · obtain ⟨a, ha⟩ := hl₁ e he; rw [ha]; trivial
  · exact .of_eq_ok hd.exec
  · obtain ⟨a, ha⟩ := hl₃ e he; rw [ha]; trivial
  · exact .of_eq_ok hw.exec

/-- The ledger after a deposit of `10 ^ 20` units. -/
def hugeWorld : World := (consentedWorld (10 ^ 30)).after [(ShareCall.deposit 2 .usd (10 ^ 20)).action]

/-- **One deposit too large.** The second deposit of `10 ^ 20` units multiplies past an `i128` in the vault's
    mint, which panics; the mock takes it. -/
theorem not_same_verdict_huge :
    ∃ w₀ tr s, Genesis w₀ ∧ w₀.vault.config.virtualOffset = virtualOffset ∧
      w₀.vault.config.minFirstDeposit ≤ 1 ∧ Run (SharesStep .dollars demoClient.strkey) ⟨.new, w₀⟩ tr s ∧
      ∃ e ∈ tr, e.label = .call (.deposit 2 .usd (10 ^ 20)) ∧ ¬ SameVerdict demoClient.strkey e.pre e.label := by
  have hg : Genesis (World.opening 1000 (10 ^ 30)) := Genesis.opening (by decide)
  have h₀ : Tied .dollars demoClient.strkey _ ⟨.new, World.opening 1000 (10 ^ 30)⟩ := .genesis hg
  obtain ⟨tr₁, m₁, hr₁, h₁, _⟩ := h₀.follow_trace consentRun_follows.1 consentRun_follows.2
  have hprovided : ∀ w : World, w.vault.consent (.account 2) = true → (w.bucket .usd).token = some (.contract 100) →
      10 ^ 20 ≤ w.tokens (.contract 100) (.account 2) → (ShareCall.deposit 2 .usd (10 ^ 20)).Provided w :=
    fun w hc ht hf => ⟨hc, .contract 100, ht, hf⟩
  have hd : (consentedWorld (10 ^ 30)).Accepts [(ShareCall.deposit 2 .usd (10 ^ 20)).action] := by decide +kernel
  have hs₂ : SharesStep .dollars demoClient.strkey ⟨m₁, consentedWorld (10 ^ 30)⟩
      (.call (.deposit 2 .usd (10 ^ 20))) _ :=
    .accepted (by decide +kernel) (hprovided _ (by decide +kernel) (by decide +kernel) (by decide +kernel)) hd
  obtain ⟨_, h₂⟩ := h₁.step (by decide +kernel) (by decide +kernel) hs₂ (.of_eq_ok hd.exec)
  -- the same deposit again
  have hrefused : ((ShareCall.deposit 2 .usd (10 ^ 20)).action.exec hugeWorld).isOk = false := by decide +kernel
  have hs₃ : SharesStep .dollars demoClient.strkey
      ⟨m₁.written ((ShareCall.deposit 2 .usd (10 ^ 20)).tx demoClient.strkey) ⟨.depositor, 2⟩, hugeWorld⟩
      (.call (.deposit 2 .usd (10 ^ 20))) _ :=
    .call _ (by decide +kernel) (hprovided _ (by decide +kernel) (by decide +kernel) (by decide +kernel))
      (Step.refused hrefused)
  refine ⟨_, _, _, hg, by decide +kernel, by decide +kernel, hr₁.append (.cons hs₂ (.cons hs₃ (.nil _))),
    _, List.mem_append_right _ (List.mem_cons_of_mem _ List.mem_cons_self), rfl, fun hverdict => ?_⟩
  have hmint : 0 < Vault.proRata (10 ^ 20) (hugeWorld.bucket .usd).totalShares (hugeWorld.navOf .usd)
      virtualOffset := by decide +kernel
  have hmirrors : Mirrors demoClient.strkey _ hugeWorld := h₂.mirrors.prepared
  rw [← hmirrors.mint_eq] at hmint
  -- the mock takes it, so both should
  obtain ⟨w', hw⟩ := hverdict.mp ((MockVault.accepts_iff rfl h₂.mirrors.live).mpr
    ⟨_, MockVault.deposit_eq_ok.mpr ⟨by decide, hmint, rfl⟩⟩)
  have hw : (ShareCall.deposit 2 .usd (10 ^ 20)).action.exec hugeWorld = .ok w' := hw
  exact isOk_eq_false_iff.mp hrefused w' hw

end Backend
end SoroSense
