import SoroSense.Lib.Fallible
import Mathlib.Logic.Function.Basic
import Mathlib.Tactic.Ring

/-!
# `Host` — what the contracts get from the Soroban host

Addresses, panics, `i128` arithmetic, authorisation and the SEP-41 token ledger. The two contracts of
the repository (`YieldPool`, `Vault`) are written over this module only.

* A call that panics aborts the whole transaction and reverts it, so a contract function is an
  `Except Panic` computation whose error branch carries no state.
* `i128` values are integers; the release profile has overflow checks on, so every arithmetic result is
  checked against the `i128` range.
* The tokens live outside the repository. A transfer moves exactly the stated amount, and is refused
  when the amount is negative or the sender holds less.
-/

namespace SoroSense

open Fallible

/-! ## Addresses -/

/-- A ledger address. `account` is any address that can authorise a call made from outside (a keypair, a
    custom account, a calling contract); `contract` is a vault, pool or token contract, which authorises
    only the calls it makes itself. -/
inductive Address where
  | account (id : Nat)
  | contract (id : Nat)
deriving DecidableEq, Repr

/-! ## Panics -/

namespace YieldPool

/-- The yield pool's typed errors (`yield_pool/src/types.rs`). -/
inductive Error where
  | nonPositiveAmount
  | insufficientBalance
  | insufficientLiquidity
  | rateTooHigh
deriving DecidableEq, Repr

end YieldPool

namespace Vault

/-- The vault's typed errors (`vault/src/types.rs`). -/
inductive Error where
  | paused
  | tokenNotSet
  | noConsent
  | nonPositiveAmount
  | belowMinFirstDeposit
  | insufficientShares
  | poolFrozen
  | capExceeded
  | insufficientHoldings
  | emptyBucket
  | noPendingExit
  | notAStakeholder
  | poolNotAllowed
  | sourceNotFrozen
  | insufficientIdle
  | insufficientLiquidity
  | tooManyPools
  | mintsNoShares
deriving DecidableEq, Repr

end Vault

/-- Why a call was aborted. -/
inductive Panic where
  /-- `panic_with_error!` in a yield pool. -/
  | pool (e : YieldPool.Error)
  /-- `panic_with_error!` in the vault. -/
  | vault (e : Vault.Error)
  /-- `.expect(msg)` on a `None`. -/
  | expect (msg : String)
  /-- An `i128`/`u64` operation left its range (overflow checks are on in the release profile). -/
  | overflow
  | divideByZero
  /-- `require_auth` without that address's authorisation. -/
  | auth (who : Address)
  /-- The token contract refused a transfer. -/
  | transfer
  /-- A call to an address that hosts no pool contract. -/
  | noContract
  /-- The ledger itself refuses: a clock running backwards, a deploy to an address in use. -/
  | ledger
deriving DecidableEq, Repr

/-- The panics of the arithmetic: checked operations, `checked_op(..).expect(..)`, division. -/
def Panic.Arithmetic : Panic → Prop
  | .overflow     => True
  | .divideByZero => True
  | .expect _     => True
  | _             => False

/-! ## `i128` -/

namespace I128

def maxVal : Int := 170141183460469231731687303715884105727
def minVal : Int := -170141183460469231731687303715884105728

/-- The value is representable in an `i128`. -/
def Fits (x : Int) : Prop := minVal ≤ x ∧ x ≤ maxVal

instance (x : Int) : Decidable (Fits x) := inferInstanceAs (Decidable (minVal ≤ x ∧ x ≤ maxVal))

def checked (x : Int) : Except Panic Int := inRange minVal maxVal .overflow x

def add (a b : Int) : Except Panic Int := checked (a + b)
def sub (a b : Int) : Except Panic Int := checked (a - b)
def mul (a b : Int) : Except Panic Int := checked (a * b)

/-- Rust's `/`: truncated division, with a panic on a zero divisor. -/
def div (a b : Int) : Except Panic Int := do
  failIf (b = 0) .divideByZero
  checked (a.tdiv b)

/-- `if b > a { 0 } else { a - b }`, as both contracts lower a booked counter. -/
def floorSub (a b : Int) : Except Panic Int :=
  if a < b then .ok 0 else sub a b

/-- `checked_op(..).expect(msg)`. -/
def expect (msg : String) (x : Int) : Except Panic Int := inRange minVal maxVal (.expect msg) x

theorem expect_eq_ok {msg : String} {x y : Int} : expect msg x = .ok y ↔ Fits x ∧ x = y := inRange_eq_ok
theorem checked_eq_ok {x y : Int} : checked x = .ok y ↔ Fits x ∧ x = y := inRange_eq_ok
theorem add_eq_ok {a b y : Int} : add a b = .ok y ↔ Fits (a + b) ∧ a + b = y := inRange_eq_ok
theorem sub_eq_ok {a b y : Int} : sub a b = .ok y ↔ Fits (a - b) ∧ a - b = y := inRange_eq_ok
theorem mul_eq_ok {a b y : Int} : mul a b = .ok y ↔ Fits (a * b) ∧ a * b = y := inRange_eq_ok

theorem div_eq_ok {a b y : Int} :
    div a b = .ok y ↔ b ≠ 0 ∧ Fits (a.tdiv b) ∧ a.tdiv b = y := by
  unfold div
  rw [bind_eq_ok]
  simp only [failIf_eq_ok, checked_eq_ok, exists_const]

theorem zero_fits : Fits 0 := by decide

/-- A non-negative value below a representable one is representable. -/
theorem Fits.of_nonneg {x b : Int} (hb : Fits b) (h₀ : 0 ≤ x) (h : x ≤ b) : Fits x :=
  ⟨le_trans (by decide) h₀, le_trans h hb.2⟩

/-- Lowering a non-negative counter by a non-negative amount always returns, floored at zero. -/
theorem floorSub_eq_ok {a b y : Int} (hf : Fits a) (hb : 0 ≤ b) :
    floorSub a b = .ok y ↔ max 0 (a - b) = y := by
  unfold floorSub
  by_cases h : a < b
  · rw [if_pos h, max_eq_left (by omega), ok_eq_ok]
  · have hs : Fits (a - b) := ⟨?_, ?_⟩
    · rw [if_neg h, max_eq_right (by omega), sub_eq_ok]
      simp [hs]
    · exact le_trans (by decide : minVal ≤ 0) (by omega)
    · exact le_trans (by omega : a - b ≤ a) hf.2

end I128

/-- `u64::MAX`. -/
def u64Max : Nat := 18446744073709551615

/-! ## Authorisation -/

/-- The addresses whose authorisation a call carries. -/
abbrev Auth := Address → Bool

namespace Auth

/-- A call from outside, authorised by these accounts. -/
def signers (ids : List Nat) : Auth
  | .account id => decide (id ∈ ids)
  | .contract _ => false

/-- A call a contract makes: it authorises itself. -/
def invoker (self : Address) : Auth := fun a => decide (a = self)

end Auth

/-- `address.require_auth()`. -/
def requireAuth (auth : Auth) (who : Address) : Except Panic Unit := failIf (auth who = false) (.auth who)

theorem requireAuth_eq_ok {auth : Auth} {who : Address} {u : Unit} :
    requireAuth auth who = .ok u ↔ auth who = true := by
  unfold requireAuth
  rw [failIf_eq_ok, Bool.not_eq_false]

/-- Only accounts authorise calls from outside. -/
theorem Auth.account_of_signers {ids : List Nat} {who : Address} (h : signers ids who = true) :
    ∃ id, who = .account id := by
  cases who with
  | account id => exact ⟨id, rfl⟩
  | contract id => exact absurd h (by simp [signers])

/-- An account that signs alone authorises itself. -/
theorem Auth.signers_self (id : Nat) : signers [id] (.account id) = true := by simp [signers]

/-! ## The token ledger -/

/-- Balances by token contract and holder. -/
abbrev Tokens := Address → Address → Int

namespace Tokens

/-- Add `delta` to one balance. -/
def credit (t : Tokens) (token who : Address) (delta : Int) : Tokens :=
  Function.update t token (Function.update (t token) who (t token who + delta))

/-- The balances after `amount` moved. -/
def move (t : Tokens) (token sender recipient : Address) (amount : Int) : Tokens :=
  (t.credit token sender (-amount)).credit token recipient amount

/-- `token::Client::transfer`. -/
def transfer (t : Tokens) (token sender recipient : Address) (amount : Int) : Except Panic Tokens := do
  failIf (amount < 0) .transfer
  failIf (t token sender < amount) .transfer
  .ok (t.move token sender recipient amount)

theorem transfer_eq_ok {t t' : Tokens} {token sender recipient : Address} {amount : Int} :
    t.transfer token sender recipient amount = .ok t' ↔
      0 ≤ amount ∧ amount ≤ t token sender ∧ t.move token sender recipient amount = t' := by
  unfold transfer
  simp only [bind_eq_ok, failIf_eq_ok, ok_eq_ok, exists_const, not_lt]

theorem credit_apply (t : Tokens) (token who tok a : Address) (delta : Int) :
    t.credit token who delta tok a = t tok a + if tok = token ∧ a = who then delta else 0 := by
  unfold credit
  by_cases ht : tok = token
  · subst ht
    by_cases ha : a = who
    · subst ha; simp
    · simp [ha]
  · simp [ht]

/-- **What a move does to every balance**: the sender loses `amount`, the recipient gains it. -/
theorem move_apply (t : Tokens) (token sender recipient tok a : Address) (amount : Int) :
    t.move token sender recipient amount tok a
      = t tok a - (if tok = token ∧ a = sender then amount else 0)
        + (if tok = token ∧ a = recipient then amount else 0) := by
  unfold move
  rw [credit_apply, credit_apply]
  split <;> ring

theorem move_of_ne {t : Tokens} {token sender recipient a : Address} {amount : Int} (tok : Address)
    (hs : a ≠ sender) (hr : a ≠ recipient) : t.move token sender recipient amount tok a = t tok a := by
  rw [move_apply]; simp [hs, hr]

/-- A covered move leaves no balance negative. -/
theorem move_nonneg {t : Tokens} {token sender recipient : Address} {amount : Int}
    (h : ∀ tok a, 0 ≤ t tok a) (h₀ : 0 ≤ amount) (hle : amount ≤ t token sender) :
    ∀ tok a, 0 ≤ t.move token sender recipient amount tok a := by
  intro tok a
  have ha := h tok a
  rw [move_apply]
  by_cases hs : tok = token ∧ a = sender
  · obtain ⟨rfl, rfl⟩ := hs
    rw [if_pos ⟨rfl, rfl⟩]
    split <;> omega
  · rw [if_neg hs]
    split <;> omega

end Tokens

end SoroSense
