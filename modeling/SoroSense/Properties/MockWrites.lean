import SoroSense.Properties.MockShares
import SoroSense.Flags

/-!
# `Properties.MockWrites` — the mock's writes beside the contract's

Every write the mock submits successfully is made on the vault too, by the same signer (`GuardStep`). The mock
says its guards mirror the contract's; it has fewer. It looks at neither consent, allowlist, idle balance nor
stakeholders, it books deployed funds by currency and not by pool, and it never clears an active pool.

`Guarded` is what the vault asks and the mock does not, one structure a write. What ties the two is that the
status reads agree (`SameStatus`) and the counters match (`Mirrors`); the lemmas here say what each write does to
the first. Exits are compared by currency and pools: the two number them apart.
-/

namespace SoroSense
namespace Backend

open Fallible Transition

/-! ## Writes on both -/

/-- A write of the seam but its signer; pools are named by their address. -/
inductive Write where
  | setPolicyConsent
  | deposit (c : Currency) (amount : Int)
  | withdraw (c : Currency) (shares : Int)
  | approveExit (exitId : String)
  | allocate (pool : SoroSense.Address) (c : Currency) (amount : Int)
  | deallocate (pool : SoroSense.Address) (c : Currency) (amount : Int)
  | freeze (pool : SoroSense.Address)
  | unfreeze (pool : SoroSense.Address)
  | proposeExit (c : Currency) (fromPool toPool : SoroSense.Address)

/-- The id the vault has for the exit the mock calls `exitId`: that of the same currency, or zero, which it
    never issues. -/
def SideBySide.exitIdOf (s : SideBySide) (exitId : String) : ℕ :=
  match s.mock.pending.find? fun p => p.id = exitId with
  | some p => ((s.world.bucket p.currency).pendingExit.map Vault.ExitProposal.id).getD 0
  | none   => 0

namespace Write

variable (strkey : Strkey) (account : ℕ)

/-- The write on the mock, in the name of `account`, -/
def tx : Write → MockTx
  | .setPolicyConsent    => MockVault.setPolicyConsent (strkey.text (.account account))
  | .deposit c amount    => MockVault.deposit (strkey.text (.account account)) c amount
  | .withdraw c shares   => MockVault.withdraw (strkey.text (.account account)) c shares
  | .approveExit exitId  => MockVault.approveExit (strkey.text (.account account)) exitId
  | .allocate p c amount => MockVault.allocate (strkey.text p) c amount
  | .deallocate p c amount => MockVault.deallocate (strkey.text p) c amount
  | .freeze p            => MockVault.freeze (strkey.text p)
  | .unfreeze p          => MockVault.unfreeze (strkey.text p)
  | .proposeExit c p q   => MockVault.proposeExit c (strkey.text p) (strkey.text q)

/-- … and the call it is on the vault. -/
def call (s : SideBySide) : Write → Vault.Call
  | .setPolicyConsent    => .setPolicyConsent (.account account)
  | .deposit c amount    => .deposit (.account account) c amount
  | .withdraw c shares   => .withdraw (.account account) c shares
  | .approveExit exitId  => .approveExit (.account account) (s.exitIdOf exitId)
  | .allocate p c amount => .allocate p c amount
  | .deallocate p c amount => .deallocate p c amount
  | .freeze p            => .freeze p
  | .unfreeze p          => .unfreeze p
  | .proposeExit c p q   => .proposeExit c p q

/-- A signer of the right role. -/
def signer (x : Write) : Signer := ⟨(x.tx strkey account).requiredSigner, account⟩

/-- Keeper writes are signed by the vault's keeper. -/
def Signed (w : World) (x : Write) : Prop :=
  (x.tx strkey account).requiredSigner = .keeper → w.vault.keeper = .account account

end Write

/-- The vault calls that are writes of the seam under `Write`. -/
def IsWrite : Vault.Call → Prop
  | .setPolicyConsent _ => True
  | .deposit _ _ _      => True
  | .withdraw _ _ _     => True
  | .approveExit _ _    => True
  | .allocate _ _ _     => True
  | .deallocate _ _ _   => True
  | .freeze _           => True
  | .unfreeze _         => True
  | .proposeExit _ _ _  => True
  | _                   => False

/-- A write by an account, or anything else on the ledger. -/
inductive GuardEvent where
  | write (account : ℕ) (x : Write)
  | other (a : Action)

/-- **One event on both.** What the mock accepts the vault is called with; what it refuses the vault never
    sees. Of anything else `simulateYield` follows the gains. -/
inductive GuardStep (r : Registry) (strkey : Strkey) : SideBySide → GuardEvent → SideBySide → Prop where
  | accepted {m m' : MockVault} {w w' : World} (account : ℕ) (x : Write) (signed : x.Signed strkey account w)
      (accepts : m.write (x.tx strkey account) (x.signer strkey account) = .ok (⟨true⟩, m'))
      (step : Step w (.vault [account] (x.call account ⟨m, w⟩)) w') :
      GuardStep r strkey ⟨m, w⟩ (.write account x) ⟨m', w'⟩
  | refused {m : MockVault} {w : World} (account : ℕ) (x : Write)
      (refuses : ¬ m.Accepts (x.tx strkey account) (x.signer strkey account)) :
      GuardStep r strkey ⟨m, w⟩ (.write account x)
        ⟨m.written (x.tx strkey account) (x.signer strkey account), w⟩
  | other {m m' : MockVault} {w w' : World} (a : Action) (apart : ∀ ids call, a = .vault ids call → ¬ IsWrite call)
      (step : RegisteredStep r w a w') (mirrored : mirrorYield m w w' = .ok m') :
      GuardStep r strkey ⟨m, w⟩ (.other a) ⟨m', w'⟩

/-- The vault accepts the write if the mock does. -/
def NeverLaxer (strkey : Strkey) (s : SideBySide) : GuardEvent → Prop
  | .write account x => s.mock.Accepts (x.tx strkey account) (x.signer strkey account) →
      ∃ w', (x.call account s).exec (Auth.signers [account]) s.world = .ok w'
  | .other _         => True

/-- The status reads agree. -/
structure SameStatus (strkey : Strkey) (m : MockVault) (w : World) : Prop where
  active  : ∀ c, m.activePool c = (Vault.activePool w c).map strkey.text
  status  : ∀ p, m.poolStatus (strkey.text p) = Vault.poolStatus w p
  pending : ∀ c, (m.pendingExit c).map (fun p => (p.currency, p.fromPool, p.toPool))
    = (Vault.pendingExit w c).map fun e => (e.currency, strkey.text e.fromPool, strkey.text e.toPool)
  consent : ∀ u, m.hasConsent (strkey.text u) = Vault.hasConsent w u

/-! ## What the vault asks and the mock does not -/

/-- The pool is the bucket's own: of its currency, over its token. -/
def Serves (r : Registry) (p : SoroSense.Address) (c : Currency) : Prop :=
  r.home p = c ∧ r.poolToken p = r.token c

/-- Of a deposit: its depositor's consent and tokens. -/
structure DepositChecks (w : World) (u : SoroSense.Address) (c : Currency) (amount : Int) : Prop where
  unpaused    : w.vault.paused = false
  consented   : w.vault.consent u = true
  funded      : ∃ token, (w.bucket c).token = some token ∧ amount ≤ w.tokens token u
  readable    : Vault.Readable w c
  mint_fits   : Vault.MulDivFits amount (w.bucket c).totalShares (w.navOf c) virtualOffset
  owned_fits  : I128.Fits ((w.bucket c).shares u
    + Vault.proRata amount (w.bucket c).totalShares (w.navOf c) virtualOffset)
  supply_fits : I128.Fits ((w.bucket c).totalShares
    + Vault.proRata amount (w.bucket c).totalShares (w.navOf c) virtualOffset)
  assets_fits : I128.Fits ((w.bucket c).totalAssets + amount)

/-- What a withdrawal of `shares` pays. -/
def payout (w : World) (c : Currency) (shares : Int) : Int :=
  Vault.proRata shares (w.navOf c) (w.bucket c).totalShares virtualOffset

/-- Of a withdrawal: pools that can pay, and an active pool it does not empty. -/
structure WithdrawChecks (w : World) (c : Currency) (shares : Int) : Prop where
  unpaused : w.vault.paused = false
  readable : Vault.Readable w c
  fits     : Vault.MulDivFits shares (w.navOf c) (w.bucket c).totalShares virtualOffset
  liquid   : ∀ x ∈ w.payoutPlan c (payout w c shares), x.2 ≤ w.liquidity x.1
  keeps    : ∀ p, (w.bucket c).activePool = some p → (p, w.position p) ∉ w.payoutPlan c (payout w c shares)

/-- Of an allocation: a bucket with shares and idle funds, an allowlisted pool of its own, room on the list
    and under the cap. -/
structure AllocateChecks (r : Registry) (w : World) (p : SoroSense.Address) (c : Currency) (amount : Int) :
    Prop where
  serves      : Serves r p c
  unpaused    : w.vault.paused = false
  stakes      : (w.bucket c).totalShares ≠ 0
  allowed     : w.vault.allowedPool p = true
  enough_idle : amount ≤ (w.bucket c).totalAssets
  room        : p ∈ (w.bucket c).poolList ∨ (w.bucket c).poolList.length < Vault.maxPoolsPerCurrency
  under_cap   : (w.bucket c).poolHoldings p + amount ≤ w.vault.config.perPoolCap
  booked_fits : I128.Fits ((w.bucket c).poolHoldings p + amount)
  priced      : w.Priced p
  value_fits  : I128.Fits (w.position p + amount)
  total_fits  : ∀ s, w.pools p = some s → I128.Fits (s.totalPrincipal + amount)

/-- Of a deallocation: a positive amount, booked in that pool and payable by it, that does not empty the
    active pool. -/
structure DeallocateChecks (r : Registry) (w : World) (p : SoroSense.Address) (c : Currency) (amount : Int) :
    Prop where
  serves    : Serves r p c
  pos       : 0 < amount
  booked    : amount ≤ (w.bucket c).poolHoldings p
  priced    : w.Priced p
  liquid    : amount ≤ w.liquidity p
  idle_fits : I128.Fits ((w.bucket c).totalAssets + amount)
  keeps     : (w.bucket c).activePool = some p → w.position p ≠ amount

/-- Of an approval of `e`: a stakeholder, a frozen source with a position it can pay out, an allowlisted
    target that is not frozen and has room. -/
structure ExitChecks (w : World) (u : SoroSense.Address) (c : Currency) (e : Vault.ExitProposal) : Prop where
  unpaused    : w.vault.paused = false
  stakeholder : 0 < (w.bucket c).shares u
  frozen      : w.vault.frozen e.fromPool = true
  priced_from : w.Priced e.fromPool
  pos         : 0 < w.position e.fromPool
  liquid      : w.position e.fromPool ≤ w.liquidity e.fromPool
  idle_fits   : I128.Fits ((w.bucket c).totalAssets + w.position e.fromPool)
  allowed     : w.vault.allowedPool e.toPool = true
  unfrozen    : w.vault.frozen e.toPool = false
  under_cap   : (w.bucket c).poolHoldings e.toPool + w.position e.fromPool ≤ w.vault.config.perPoolCap
  booked_fits : I128.Fits ((w.bucket c).poolHoldings e.toPool + w.position e.fromPool)
  priced_to   : w.Priced e.toPool
  value_fits  : I128.Fits (w.position e.toPool + w.position e.fromPool)
  total_fits  : ∀ s, w.pools e.toPool = some s → I128.Fits (s.totalPrincipal + w.position e.fromPool)

/-- **What the vault asks of a write and the mock does not.** -/
def Write.Guarded (r : Registry) (account : ℕ) (s : SideBySide) : Write → Prop
  | .setPolicyConsent      => True
  | .deposit c amount      => DepositChecks s.world (.account account) c amount
  | .withdraw c shares     => WithdrawChecks s.world c shares
  | .approveExit exitId    => ∀ c e, (s.world.bucket c).pendingExit = some e → e.id = s.exitIdOf exitId →
      ExitChecks s.world (.account account) c e
  | .allocate p c amount   => AllocateChecks r s.world p c amount
  | .deallocate p c amount => DeallocateChecks r s.world p c amount
  | .freeze _              => True
  | .unfreeze _            => True
  | .proposeExit c p q     => Serves r p c ∧ Serves r q c ∧ s.world.vault.exitCounter + 1 ≤ u64Max

/-- A write the mock accepts is guarded. -/
def Guarded (r : Registry) (strkey : Strkey) (s : SideBySide) : GuardEvent → Prop
  | .write account x =>
      s.mock.Accepts (x.tx strkey account) (x.signer strkey account) → x.Guarded r account s
  | .other _         => True

/-! ## The relation -/

/-- The mock's fields match the vault's records. -/
structure Matched (strkey : Strkey) (m : MockVault) (w : World) : Prop where
  mirrors : Mirrors strkey m w
  status  : SameStatus strkey m w
  onePer  : MockVault.OnePerCurrency m.pending

/-- What holds of the two along a guarded run. -/
structure Agreed (r : Registry) (strkey : Strkey) (config : Vault.Config) (s : SideBySide) : Prop where
  reached : Reachable Genesis (RegisteredStep r) s.world
  config  : s.world.vault.config = config
  matched : Matched strkey s.mock s.world

variable {r : Registry} {strkey : Strkey} {m m' : MockVault} {w w' w₀ : World} {c : Currency}
  {p q : SoroSense.Address} {amount shares : Int} {account : ℕ} {config : Vault.Config} {s s' : SideBySide}

/-- Rewriting one address on both sides keeps the entries equal. -/
theorem text_updated {β : Type} {f : String → β} {g : SoroSense.Address → β} {b : β}
    (h : ∀ a, f (strkey.text a) = g a) (p a : SoroSense.Address) :
    Function.update f (strkey.text p) b (strkey.text a) = Function.update g p b a := by
  by_cases ha : a = p
  · subst ha
    rw [Function.update_self, Function.update_self]
  · rw [Function.update_of_ne (fun he => ha (Strkey.text_inj.mp he)), Function.update_of_ne ha]
    exact h a

namespace SameStatus

theorem frozen_eq (h : SameStatus strkey m w) (p : SoroSense.Address) :
    m.frozen (strkey.text p) = w.vault.frozen p := by
  have hp := h.status p
  unfold MockVault.poolStatus Vault.poolStatus at hp
  cases hm : m.frozen (strkey.text p) <;> cases hw : w.vault.frozen p <;> simp_all

/-- Flags that agree show one status. -/
theorem of_frozen_eq {p : SoroSense.Address} (h : m.frozen (strkey.text p) = w.vault.frozen p) :
    m.poolStatus (strkey.text p) = Vault.poolStatus w p := by
  unfold MockVault.poolStatus Vault.poolStatus
  rw [h]

/-- The reads depend on four of the mock's fields, -/
theorem of_mock (h : SameStatus strkey m w) (ha : m'.active = m.active) (hf : m'.frozen = m.frozen)
    (hp : m'.pending = m.pending) (hc : m'.consent = m.consent) : SameStatus strkey m' w where
  active c := (congrFun ha c).trans (h.active c)
  status p := of_frozen_eq ((congrFun hf _).trans (h.frozen_eq p))
  pending c := by
    unfold MockVault.pendingExit
    rw [hp]
    exact h.pending c
  consent u := (congrFun hc _).trans (h.consent u)

/-- … and on four of the vault's records. -/
theorem moved (h : SameStatus strkey m w) (hf : w'.vault.frozen = w.vault.frozen)
    (hc : w'.vault.consent = w.vault.consent) (ha : ∀ c, (w'.bucket c).activePool = (w.bucket c).activePool)
    (he : ∀ c, (w'.bucket c).pendingExit = (w.bucket c).pendingExit) : SameStatus strkey m w' where
  active c := (h.active c).trans (congrArg (Option.map strkey.text) (ha c).symm)
  status p := of_frozen_eq ((h.frozen_eq p).trans (congrFun hf p).symm)
  pending c := (h.pending c).trans (congrArg (Option.map _) (he c).symm)
  consent u := (h.consent u).trans (congrFun hc u).symm

theorem genesis (hg : Genesis w) : SameStatus strkey .new w := by
  obtain ⟨admin, keeper, config, hv⟩ := hg.constructed
  refine ⟨fun c => ?_, fun p => of_frozen_eq ?_, fun c => ?_, fun u => ?_⟩
  · unfold Vault.activePool
    rw [hg.bucket_eq c]
    rfl
  · rw [hv]
    rfl
  · unfold Vault.pendingExit
    rw [hg.bucket_eq c]
    rfl
  · unfold Vault.hasConsent
    rw [hv]
    rfl

/-! ### Under each write -/

variable {minted assets : Int} {u token : SoroSense.Address} {auth : Auth}

/-- A consent on both sides. -/
theorem consented (h : SameStatus strkey m w) (hs : w'.settings = { w.settings with
      consent := Function.update w.vault.consent u true }) (hb : ∀ c, w'.bucket c = w.bucket c) :
    SameStatus strkey { m with consent := Function.update m.consent (strkey.text u) true } w' where
  active c := (h.active c).trans (by unfold Vault.activePool; rw [hb])
  status p := of_frozen_eq ((h.frozen_eq p).trans (congrArg (fun x : Settings => x.flags.frozen p) hs).symm)
  pending c := (h.pending c).trans (by unfold Vault.pendingExit; rw [hb])
  consent a := by
    have hc : w'.vault.consent = Function.update w.vault.consent u true := congrArg Settings.consent hs
    refine (text_updated (f := m.consent) h.consent u a).trans ?_
    show _ = w'.vault.consent a
    rw [hc]
    rfl

/-- A freeze, or its end, on both sides. -/
theorem switched (h : SameStatus strkey m w) {frozen : Bool} :
    SameStatus strkey { m with frozen := Function.update m.frozen (strkey.text p) frozen }
      (Vault.setFrozen w p frozen) where
  active := h.active
  status a := of_frozen_eq (text_updated (f := m.frozen) h.frozen_eq p a)
  pending := h.pending
  consent := h.consent

theorem deposited (h : SameStatus strkey m w) : SameStatus strkey m (w.deposited u c amount minted token) :=
  h.moved rfl rfl (fun _ => World.bucketField_deposited Vault.Bucket.activePool rfl)
    (fun _ => World.bucketField_deposited Vault.Bucket.pendingExit rfl)

/-- A withdrawal that does not empty the active pool. -/
theorem redeemed (h : SameStatus strkey m w) (hw : w.WF)
    (g : Vault.WithdrawGuard w auth u c shares assets token)
    (hkeep : ∀ p, (w.bucket c).activePool = some p → (p, w.position p) ∉ w.payoutPlan c assets) :
    SameStatus strkey m (w.redeemed u c shares assets token) := by
  have hburned := g.burned_wf hw
  have hset : (w.redeemed u c shares assets token).settings = w.settings := settings_pulls hburned (g.plan hw)
  refine h.moved (congrArg (fun x => x.flags.frozen) hset) (congrArg Settings.consent hset) (fun d => ?_)
    (fun d => ?_)
  · by_cases hd : d = c
    · subst hd
      rw [World.redeemed, World.bucketField_paidOut Vault.Bucket.activePool rfl, World.liquidated,
        Vault.activePool_pulls hburned (g.plan hw), World.bucket_updateBucket_self]
      show (w.bucket d).activePool.filter _ = (w.bucket d).activePool
      cases hact : (w.bucket d).activePool with
      | none   => rfl
      | some p => exact Option.filter_eq_some_iff.mpr ⟨rfl, decide_eq_true (hkeep p hact)⟩
    · rw [World.bucket_redeemed_ne hw g hd]
  · by_cases hd : d = c
    · subst hd
      rw [World.redeemed, World.bucketField_paidOut Vault.Bucket.pendingExit rfl, World.liquidated,
        Vault.bucketField_pulls Vault.Bucket.pendingExit hburned (g.plan hw) (fun _ _ _ _ => rfl),
        World.bucket_updateBucket_self]
      rfl
    · rw [World.bucket_redeemed_ne hw g hd]

/-- A pool made active on both sides. -/
theorem activated (h : SameStatus strkey m w) (hf : w'.vault.frozen = w.vault.frozen)
    (hc : w'.vault.consent = w.vault.consent)
    (ha : ∀ d, (w'.bucket d).activePool = if d = c then some p else (w.bucket d).activePool)
    (he : ∀ d, (w'.bucket d).pendingExit = (w.bucket d).pendingExit) :
    SameStatus strkey { m with active := Function.update m.active c (some (strkey.text p)) } w' where
  active d := by
    show Function.update m.active c (some (strkey.text p)) d = (w'.bucket d).activePool.map strkey.text
    rw [ha, Function.update_apply]
    split
    · rfl
    · exact h.active d
  status a := of_frozen_eq ((h.frozen_eq a).trans (congrFun hf a).symm)
  pending d := (h.pending d).trans (congrArg (Option.map _) (he d).symm)
  consent a := (h.consent a).trans (congrFun hc a).symm

/-- An exit deleted on both sides. -/
theorem deleted (h : SameStatus strkey m w) : SameStatus strkey
    { m with pending := m.pending.filter fun p => p.currency ≠ c } (w.updateBucket c (·.exited)) where
  active d := by
    show m.active d = ((w.updateBucket c (·.exited)).bucket d).activePool.map strkey.text
    rw [World.bucketField_updateBucket Vault.Bucket.activePool rfl]
    exact h.active d
  status := h.status
  pending d := by
    unfold MockVault.pendingExit Vault.pendingExit
    rw [MockVault.find_deleted, World.bucket_updateBucket]
    split
    · rfl
    · exact h.pending d
  consent := h.consent

/-- An exit proposed on both sides. -/
theorem proposed (h : SameStatus strkey m w) {id : String} : SameStatus strkey
    { m with pending := MockVault.setPending m.pending ⟨id, c, strkey.text p, strkey.text q⟩ }
    (w.proposed c p q) where
  active d := by
    show m.active d = ((w.proposed c p q).bucket d).activePool.map strkey.text
    rw [World.bucketField_proposed Vault.Bucket.activePool (fun _ _ => rfl)]
    exact h.active d
  status := h.status
  pending d := by
    unfold MockVault.pendingExit Vault.pendingExit
    rw [MockVault.find_setPending, World.proposed, World.bucket_publish, World.bucket_updateBucket]
    split
    · rfl
    · exact h.pending d
  consent := h.consent

end SameStatus

/-- Mirrored counters stay mirrored where no shares and no value moved. -/
theorem Mirrors.moved (h : Mirrors strkey m w) (hb : SameBooks w w') : Mirrors strkey m w' where
  live := h.live
  shares u c := (h.shares u c).trans (by rw [hb.shares])
  supply c := (h.supply c).trans (hb.supply c).symm
  nav c := (h.nav c).trans (hb.nav c).symm

/-- The counters are four of the mock's fields. -/
theorem Mirrors.of_mock (h : Mirrors strkey m w) (hl : m'.failSubmit = m.failSubmit) (hs : m'.shares = m.shares)
    (ht : m'.totalShares = m.totalShares) (ha : m'.totalAssets = m.totalAssets) : Mirrors strkey m' w where
  live := hl.trans h.live
  shares u c := (congrFun hs _).trans (h.shares u c)
  supply c := (congrFun ht c).trans (h.supply c)
  nav c := (congrFun ha c).trans (h.nav c)

/-- A sequence number more. -/
theorem Matched.prepared (h : Matched strkey m w) : Matched strkey m.prepared w :=
  ⟨h.mirrors.prepared, h.status.of_mock rfl rfl rfl rfl, h.onePer⟩

/-- A freeze, or its end, on both sides. -/
theorem Matched.switched (h : Matched strkey m w) {frozen : Bool} {event : Vault.Event} :
    Matched strkey { m with frozen := Function.update m.frozen (strkey.text p) frozen }
      ((Vault.setFrozen w p frozen).publish event) := by
  have hbooks : SameBooks w ((Vault.setFrozen w p frozen).publish event) :=
    ⟨fun _ => rfl, fun _ => rfl, fun _ => rfl⟩
  exact ⟨(h.mirrors.moved hbooks).of_mock rfl rfl rfl rfl,
    h.status.switched.moved rfl rfl (fun _ => rfl) (fun _ => rfl), h.onePer⟩

end Backend
end SoroSense
