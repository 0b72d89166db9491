import SoroSense.Backend.VaultClient
import SoroSense.Backend.CostBasis

/-!
# `Backend.MockVault` — the in-memory stand-in for the vault

`packages/vault-client/src/mock.ts`. Its amounts are `bigint`s, so nothing overflows, and what throws
leaves the fields as they were. A map read through `?? 0n` only is a function, and so is a set; `pending` is
also walked in insertion order, so it stays a list: its key is the proposal's own currency.

The envelope texts and transaction hashes are left out, nothing reads them; the signature always comes.
-/

namespace SoroSense
namespace Backend

open Fallible

/-- The fields of `MockVaultClient`. -/
structure MockVault where
  shares          : String → Int
  consent         : Address → Bool
  autoCompoundOff : Address → Bool
  frozen          : PoolId → Bool
  active          : Currency → Option PoolId
  holdings        : Currency → Int
  pending         : List ExitProposal
  totalShares     : Currency → Int
  totalAssets     : Currency → Int
  seq             : ℕ
  failSubmit      : Bool

/-- `new MockVaultClient()`. -/
def MockVault.new : MockVault where
  shares          := fun _ => 0
  consent         := fun _ => false
  autoCompoundOff := fun _ => false
  frozen          := fun _ => false
  active          := fun _ => none
  holdings        := fun _ => 0
  pending         := []
  totalShares     := fun _ => 0
  totalAssets     := fun _ => 0
  seq             := 0
  failSubmit      := false

/-- Equal virtual shares/assets offset. -/
def virtualOffset : Int := 1

/-- A write `prepare` built: who has to sign it, and its effect. -/
structure MockTx where
  requiredSigner : SignerRole
  effect         : MockVault → Except String MockVault

namespace MockVault

variable (m : MockVault)

/-! ## Share math -/

def mintShares (c : Currency) (amount : Int) : Int :=
  (amount * (m.totalShares c + virtualOffset)).tdiv (m.totalAssets c + virtualOffset)

def redeemAssets (c : Currency) (shares : Int) : Int :=
  (shares * (m.totalAssets c + virtualOffset)).tdiv (m.totalShares c + virtualOffset)

/-! ## Two-phase writes -/

/-- Preparing a write takes a sequence number. -/
def prepared : MockVault := { m with seq := m.seq + 1 }

/-- `signAndSubmit` of a prepared write. -/
def submit (tx : MockTx) (signer : Signer) : Except String (TxResult × MockVault) :=
  if signer.role ≠ tx.requiredSigner then
    .error ("wrong signer: need " ++ tx.requiredSigner.name ++ ", got " ++ signer.role.name)
  else if m.failSubmit then .ok (⟨false⟩, m)
  else do
    let m ← tx.effect m
    .ok (⟨true⟩, m)

/-- A write prepared and submitted. -/
def write (tx : MockTx) (signer : Signer) : Except String (TxResult × MockVault) := m.prepared.submit tx signer

/-- The fields it leaves. -/
def written (tx : MockTx) (signer : Signer) : MockVault :=
  match m.write tx signer with
  | .ok (_, m') => m'
  | .error _    => m.prepared

/-- It came back as a success. -/
def Accepts (tx : MockTx) (signer : Signer) : Prop := ∃ m', m.write tx signer = .ok (⟨true⟩, m')

/-! ## Pending exits -/

/-- `pending.get(currency)`. -/
def pendingExit (c : Currency) : Option ExitProposal := m.pending.find? fun p => p.currency = c

/-- `pending.set(proposal.currency, proposal)`: a currency that has a proposal keeps its place. -/
def setPending (pending : List ExitProposal) (proposal : ExitProposal) : List ExitProposal :=
  if pending.any fun p => p.currency = proposal.currency then
    pending.map fun p => if p.currency = proposal.currency then proposal else p
  else pending ++ [proposal]

/-! ## Depositor-signed writes -/

def deposit (depositor : Address) (c : Currency) (amount : Int) : MockTx where
  requiredSigner := .depositor
  effect := fun m => do
    failIf (amount ≤ 0) "deposit amount must be positive"
    let key := bucketKey depositor c
    let minted := m.mintShares c amount
    failIf (minted ≤ 0) "deposit mints no shares (below one share at current price)"
    .ok { m with
      shares      := Function.update m.shares key (m.shares key + minted)
      totalShares := Function.update m.totalShares c (m.totalShares c + minted)
      totalAssets := Function.update m.totalAssets c (m.totalAssets c + amount) }

def withdraw (depositor : Address) (c : Currency) (shares : Int) : MockTx where
  requiredSigner := .depositor
  effect := fun m => do
    let key := bucketKey depositor c
    let owned := m.shares key
    failIf (shares ≤ 0) "withdraw shares must be positive"
    failIf (owned < shares) "withdraw exceeds owned shares"
    let assets := m.redeemAssets c shares
    .ok { m with
      shares      := Function.update m.shares key (owned - shares)
      totalShares := Function.update m.totalShares c (m.totalShares c - shares)
      totalAssets := Function.update m.totalAssets c (m.totalAssets c - assets) }

def setPolicyConsent (depositor : Address) : MockTx where
  requiredSigner := .depositor
  effect := fun m => .ok { m with consent := Function.update m.consent depositor true }

def setAutoCompound (depositor : Address) (enabled : Bool) : MockTx where
  requiredSigner := .depositor
  effect := fun m => .ok { m with autoCompoundOff := Function.update m.autoCompoundOff depositor (!enabled) }

/-- `depositor` is not looked at. -/
def approveExit (_depositor : Address) (exitId : String) : MockTx where
  requiredSigner := .depositor
  effect := fun m => do
    let proposal ← orFail (m.pending.find? fun p => p.id = exitId) ("no pending exit " ++ exitId)
    .ok { m with
      active  := Function.update m.active proposal.currency (some proposal.toPool)
      pending := m.pending.filter fun p => p.currency ≠ proposal.currency }

/-! ## Keeper writes -/

def allocate (pool : PoolId) (c : Currency) (amount : Int) : MockTx where
  requiredSigner := .keeper
  effect := fun m => do
    failIf (m.frozen pool = true) ("pool " ++ pool ++ " is frozen")
    failIf (amount ≤ 0) "allocate amount must be positive"
    .ok { m with
      active   := Function.update m.active c (some pool)
      holdings := Function.update m.holdings c (m.holdings c + amount) }

/-- `pool` is not looked at, and nothing asks for a positive amount. -/
def deallocate (_pool : PoolId) (c : Currency) (amount : Int) : MockTx where
  requiredSigner := .keeper
  effect := fun m => do
    let held := m.holdings c
    failIf (held < amount) "deallocate exceeds holdings"
    .ok { m with holdings := Function.update m.holdings c (held - amount) }

def freeze (pool : PoolId) : MockTx where
  requiredSigner := .keeper
  effect := fun m => .ok { m with frozen := Function.update m.frozen pool true }

def unfreeze (pool : PoolId) : MockTx where
  requiredSigner := .keeper
  effect := fun m => .ok { m with frozen := Function.update m.frozen pool false }

def proposeExit (c : Currency) (fromPool toPool : PoolId) : MockTx where
  requiredSigner := .keeper
  effect := fun m =>
    let seq := m.seq + 1
    let proposal : ExitProposal :=
      { id := "exit-" ++ toString seq, currency := c, fromPool := fromPool, toPool := toPool }
    .ok { m with seq := seq, pending := setPending m.pending proposal }

/-! ## Reads -/

def balanceOf (user : Address) (c : Currency) : Int := m.shares (bucketKey user c)

def sharePrice (c : Currency) : Int :=
  ((m.totalAssets c + virtualOffset) * Vault.sharePriceScale).tdiv (m.totalShares c + virtualOffset)

def assetValueOf (user : Address) (c : Currency) : Int := m.redeemAssets c (m.shares (bucketKey user c))

def poolStatus (pool : PoolId) : Vault.PoolStatus := if m.frozen pool then .frozen else .active

def hasConsent (depositor : Address) : Bool := m.consent depositor

def autoCompoundEnabled (depositor : Address) : Bool := !m.autoCompoundOff depositor

def activePool (c : Currency) : Option PoolId := m.active c

/-! ## Test-only hooks -/

/-- Raise a bucket's NAV without minting shares. -/
def simulateYield (c : Currency) (amount : Int) : Except String MockVault := do
  failIf (amount < 0) "simulateYield amount must be non-negative"
  .ok { m with totalAssets := Function.update m.totalAssets c (m.totalAssets c + amount) }

/-! ## What a write leaves -/

variable {m} {tx : MockTx} {signer : Signer}

/-- **Without simulated failures, a write signed by its role is its effect**, on the fields `prepare` left. -/
theorem write_eq (hrole : signer.role = tx.requiredSigner) (hlive : m.failSubmit = false) :
    m.write tx signer = (tx.effect m.prepared).map fun m' => (⟨true⟩, m') := by
  unfold write submit
  rw [if_neg (not_not.mpr hrole), if_neg (by simpa [prepared] using hlive)]
  cases tx.effect m.prepared <;> rfl

/-- A success is the effect's. -/
theorem effect_of_write {m' : MockVault} (hrole : signer.role = tx.requiredSigner) (hlive : m.failSubmit = false)
    (h : m.write tx signer = .ok (⟨true⟩, m')) : tx.effect m.prepared = .ok m' := by
  rw [write_eq hrole hlive] at h
  cases hx : tx.effect m.prepared with
  | error e => rw [hx] at h; exact absurd h (by simp [Except.map])
  | ok m₁   =>
      rw [hx] at h
      exact congrArg Except.ok (Prod.mk.inj (Except.ok.inj h)).2

theorem accepts_iff (hrole : signer.role = tx.requiredSigner) (hlive : m.failSubmit = false) :
    m.Accepts tx signer ↔ ∃ m', tx.effect m.prepared = .ok m' := by
  unfold Accepts
  constructor
  · rintro ⟨m', h⟩
    exact ⟨m', effect_of_write hrole hlive h⟩
  · rintro ⟨m', h⟩
    exact ⟨m', by rw [write_eq hrole hlive, h]; rfl⟩

/-- An accepted write leaves its effect, -/
theorem written_of_ok {m' : MockVault} (hrole : signer.role = tx.requiredSigner) (hlive : m.failSubmit = false)
    (h : tx.effect m.prepared = .ok m') : m.written tx signer = m' := by
  unfold written
  rw [write_eq hrole hlive, h]
  rfl

/-- … and a refused one the fields `prepare` left. -/
theorem written_of_not_accepts (hrole : signer.role = tx.requiredSigner) (hlive : m.failSubmit = false)
    (h : ¬ m.Accepts tx signer) : m.written tx signer = m.prepared := by
  unfold written
  rw [write_eq hrole hlive]
  cases hx : tx.effect m.prepared with
  | error e => rfl
  | ok m'   => exact absurd ((accepts_iff hrole hlive).mpr ⟨m', hx⟩) h

/-! ## The map of pending exits -/

section
variable {l : List ExitProposal} {p : ExitProposal} {c : Currency}

/-- Replacing a currency's proposal leaves the others to be found, -/
theorem find_replaced_ne (h : c ≠ p.currency) :
    (l.map fun q => if q.currency = p.currency then p else q).find? (fun q => q.currency = c)
      = l.find? fun q => q.currency = c := by
  induction l with
  | nil => rfl
  | cons q l ih =>
      rw [List.map_cons, List.find?_cons, List.find?_cons, ih]
      by_cases hq : q.currency = p.currency
      · simp [hq, h.symm]
      · simp [hq]

/-- … and itself, if the currency had one. -/
theorem find_replaced (h : ∃ q ∈ l, q.currency = p.currency) :
    (l.map fun q => if q.currency = p.currency then p else q).find? (fun q => q.currency = p.currency)
      = some p := by
  induction l with
  | nil => exact absurd h (by simp)
  | cons q l ih =>
      rw [List.map_cons, List.find?_cons]
      by_cases hq : q.currency = p.currency
      · simp [hq]
      · have hrest : ∃ q ∈ l, q.currency = p.currency := by simpa [hq] using h
        simpa [hq] using ih hrest

/-- **What is set for a currency is what it has then**, and no other currency changes. -/
theorem find_setPending : (setPending l p).find? (fun q => q.currency = c)
    = if c = p.currency then some p else l.find? fun q => q.currency = c := by
  unfold setPending
  by_cases hany : l.any fun q => q.currency = p.currency
  · rw [if_pos hany]
    split
    · rename_i hc
      subst hc
      exact find_replaced (by simpa using hany)
    · rename_i hc
      exact find_replaced_ne hc
  · rw [if_neg hany, List.find?_append]
    have hnone : l.find? (fun q => q.currency = p.currency) = none := by simpa using hany
    split
    · rename_i hc
      subst hc
      rw [hnone]
      simp
    · rename_i hc
      have hp : [p].find? (fun q => q.currency = c) = none := by simpa using fun h => hc h.symm
      rw [hp, Option.or_none]

/-- What is deleted for a currency is gone, and no other currency changes. -/
theorem find_deleted {d : Currency} : (l.filter fun q => q.currency ≠ d).find? (fun q => q.currency = c)
    = if c = d then none else l.find? fun q => q.currency = c := by
  rw [List.find?_filter]
  split
  · rename_i hc
    subst hc
    simp
  · rename_i hc
    congr 1
    funext q
    by_cases hq : q.currency = c
    · simp [hq, hc]
    · simp [hq]

/-- One proposal a currency. -/
def OnePerCurrency (l : List ExitProposal) : Prop := (l.map ExitProposal.currency).Nodup

theorem OnePerCurrency.find (h : OnePerCurrency l) (hp : p ∈ l) :
    l.find? (fun q => q.currency = p.currency) = some p := by
  induction l with
  | nil => exact absurd hp (by simp)
  | cons q l ih =>
      obtain ⟨hq, hl⟩ := List.nodup_cons.mp h
      rw [List.find?_cons]
      rcases List.mem_cons.mp hp with rfl | hp
      · simp
      · have hne : q.currency ≠ p.currency := fun he => hq (he ▸ List.mem_map_of_mem hp)
        simpa [hne] using ih hl hp

theorem OnePerCurrency.deleted {d : Currency} (h : OnePerCurrency l) :
    OnePerCurrency (l.filter fun q => q.currency ≠ d) :=
  h.sublist (List.filter_sublist.map _)

theorem OnePerCurrency.setPending (h : OnePerCurrency l) : OnePerCurrency (setPending l p) := by
  unfold OnePerCurrency MockVault.setPending
  by_cases hany : l.any fun q => q.currency = p.currency
  · -- replacing keeps every currency where it was
    have hsame : (l.map fun q => if q.currency = p.currency then p else q).map ExitProposal.currency
        = l.map ExitProposal.currency := by
      rw [List.map_map]
      refine List.map_congr_left (fun q _ => ?_)
      show (if q.currency = p.currency then p else q).currency = q.currency
      split
      · rename_i hq; exact hq.symm
      · rfl
    rw [if_pos hany, hsame]
    exact h
  · rw [if_neg hany, List.map_append]
    refine List.nodup_append.mpr ⟨h, by simp, ?_⟩
    simp only [List.map_cons, List.map_nil, List.mem_map, List.mem_singleton]
    rintro _ ⟨q, hq, rfl⟩ _ rfl he
    exact hany (by simpa using ⟨q, hq, he⟩)

end

/-! ## The iffs -/

section
variable {m' : MockVault} {who : Address} {c : Currency} {amount : Int}

/-- After `depositor` paid in `amount` for `minted` shares. -/
def deposited (m : MockVault) (depositor : Address) (c : Currency) (amount minted : Int) : MockVault :=
  { m with
    shares      := Function.update m.shares (bucketKey depositor c) (m.shares (bucketKey depositor c) + minted)
    totalShares := Function.update m.totalShares c (m.totalShares c + minted)
    totalAssets := Function.update m.totalAssets c (m.totalAssets c + amount) }

/-- After `shares` of `depositor` were redeemed for `assets`. -/
def redeemed (m : MockVault) (depositor : Address) (c : Currency) (shares assets : Int) : MockVault :=
  { m with
    shares      := Function.update m.shares (bucketKey depositor c) (m.shares (bucketKey depositor c) - shares)
    totalShares := Function.update m.totalShares c (m.totalShares c - shares)
    totalAssets := Function.update m.totalAssets c (m.totalAssets c - assets) }

theorem deposit_eq_ok : (deposit who c amount).effect m = .ok m' ↔
    0 < amount ∧ 0 < m.mintShares c amount ∧ m.deposited who c amount (m.mintShares c amount) = m' := by
  simp only [deposit, bind_eq_ok, failIf_eq_ok, exists_const, ok_eq_ok, not_le]
  rfl

theorem withdraw_eq_ok {shares : Int} : (withdraw who c shares).effect m = .ok m' ↔
    0 < shares ∧ shares ≤ m.balanceOf who c ∧ m.redeemed who c shares (m.redeemAssets c shares) = m' := by
  simp only [withdraw, bind_eq_ok, failIf_eq_ok, exists_const, ok_eq_ok, not_le, not_lt]
  rfl

theorem approveExit_eq_ok {exitId : String} : (approveExit who exitId).effect m = .ok m' ↔
    ∃ proposal, m.pending.find? (fun p => p.id = exitId) = some proposal ∧
      { m with
        active  := Function.update m.active proposal.currency (some proposal.toPool)
        pending := m.pending.filter fun p => p.currency ≠ proposal.currency } = m' := by
  simp only [approveExit, bind_eq_ok, orFail_eq_ok, ok_eq_ok]

theorem allocate_eq_ok {pool : PoolId} : (allocate pool c amount).effect m = .ok m' ↔
    m.frozen pool = false ∧ 0 < amount ∧
      { m with
        active   := Function.update m.active c (some pool)
        holdings := Function.update m.holdings c (m.holdings c + amount) } = m' := by
  simp only [allocate, bind_eq_ok, failIf_eq_ok, exists_const, ok_eq_ok, not_le, Bool.not_eq_true]

theorem deallocate_eq_ok {pool : PoolId} : (deallocate pool c amount).effect m = .ok m' ↔
    amount ≤ m.holdings c ∧
      { m with holdings := Function.update m.holdings c (m.holdings c - amount) } = m' := by
  simp only [deallocate, bind_eq_ok, failIf_eq_ok, exists_const, ok_eq_ok, not_lt]

theorem simulateYield_eq_ok : m.simulateYield c amount = .ok m' ↔ 0 ≤ amount ∧
    { m with totalAssets := Function.update m.totalAssets c (m.totalAssets c + amount) } = m' := by
  simp only [simulateYield, bind_eq_ok, failIf_eq_ok, exists_const, ok_eq_ok, not_lt]

end

end MockVault
end Backend
end SoroSense
