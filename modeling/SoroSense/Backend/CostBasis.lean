import SoroSense.Vault.Storage
import SoroSense.Lib.Keyed
import SoroSense.Lib.Timeline
import SoroSense.Lib.AverageCost

/-!
# `Backend.CostBasis` — the cost basis rebuilt from the vault's events

`backend/src/earnings/cost-basis.ts`. The replay keeps a `Map` from `` `${depositor}:${currency}` `` to
the shares held and the contributions behind them; a withdrawal of more shares than held throws.

`bigint` is `Int` and its `/` truncates. `costReplay` is the same replay as an instance of `Lib.Keyed`, and
`Covered` says, in terms of the shares alone, when it does not throw.
-/

namespace SoroSense

open Fallible

/-- The seam's spelling of a currency (`'USD' | 'EUR' | 'MXN'`). -/
def Currency.code : Currency → String
  | .usd => "USD"
  | .eur => "EUR"
  | .mxn => "MXN"

theorem Currency.length_code (c : Currency) : c.code.length = 3 := by cases c <;> rfl

theorem Currency.code_injective {c d : Currency} (h : c.code = d.code) : c = d := by
  cases c <;> cases d <;> simp [code] at h <;> rfl

namespace Backend

/-- The seam's address: the string form. -/
abbrev Address := String

/-! ## Events and bases -/

inductive VaultEventKind where
  | deposit
  | withdraw
deriving DecidableEq, Repr

/-- One decoded vault event. `seq` orders events, `ts` is the ledger close time in ms. -/
structure VaultEvent where
  kind      : VaultEventKind
  depositor : Address
  currency  : Currency
  amount    : Int
  shares    : Int
  seq       : Int
  ts        : Option Int
deriving DecidableEq, Repr

structure CostBasis where
  shares      : Int
  contributed : Int
deriving DecidableEq, Repr

/-- `cost-basis: withdraw of … shares exceeds held … for … (seq …)`. -/
structure ReplayError where
  shares : Int
  held   : Int
  key    : String
  seq    : Int
deriving DecidableEq, Repr

def ReplayError.message (e : ReplayError) : String :=
  s!"cost-basis: withdraw of {e.shares} shares exceeds held {e.held} for {e.key} (seq {e.seq})"

/-- Composite map key for a (depositor, currency) bucket. -/
def bucketKey (depositor : Address) (c : Currency) : String := depositor ++ ":" ++ c.code

def emptyBasis : CostBasis := { shares := 0, contributed := 0 }

/-! ## The replay -/

/-- The bucket an event belongs to. -/
def VaultEvent.key (ev : VaultEvent) : String := bucketKey ev.depositor ev.currency

/-- The body of the replay loop: `basis` after `ev`. -/
def VaultEvent.replay (ev : VaultEvent) (basis : CostBasis) : Except ReplayError CostBasis :=
  match ev.kind with
  | .deposit =>
      .ok { shares := basis.shares + ev.shares, contributed := basis.contributed + ev.amount }
  | .withdraw => do
      failIf (basis.shares < ev.shares) { shares := ev.shares, held := basis.shares, key := ev.key, seq := ev.seq }
      -- the fraction redeemed is taken of the shares held before the withdrawal
      let contributed :=
        if 0 < basis.shares then basis.contributed - (basis.contributed * ev.shares).tdiv basis.shares
        else basis.contributed
      .ok { shares := basis.shares - ev.shares, contributed := contributed }

/-- `[...events].sort((a, b) => a.seq - b.seq)`, a stable sort. -/
def inSeqOrder (events : List VaultEvent) : List VaultEvent := Timeline.sortOn VaultEvent.seq events

/-- `reconstructCostBasis`. -/
def reconstructCostBasis (events : List VaultEvent) : Except ReplayError (String → Option CostBasis) :=
  (inSeqOrder events).foldlM
    (fun bases ev => do
      let key := ev.key
      let basis ← ev.replay ((bases key).getD emptyBasis)
      .ok (Function.update bases key (some basis)))
    (fun _ => none)

/-- `allBases.get(bucketKey(user, c)) ?? emptyBasis()`. -/
def basisOf (bases : String → Option CostBasis) (user : Address) (c : Currency) : CostBasis :=
  (bases (bucketKey user c)).getD emptyBasis

/-- `costBasisOf`. -/
def costBasisOf (events : List VaultEvent) (depositor : Address) (c : Currency) : Except ReplayError CostBasis := do
  let bases ← reconstructCostBasis events
  .ok (basisOf bases depositor c)

/-- The events of one bucket, in replay order. -/
def bucketEvents (user : Address) (c : Currency) (events : List VaultEvent) : List VaultEvent :=
  (inSeqOrder events).filter fun ev => decide (ev.depositor = user ∧ ev.currency = c)

/-! ## As a keyed replay -/

/-- A currency is spelt with three letters, so the key determines both of its parts. -/
theorem bucketKey_inj {u v : Address} {c d : Currency} : bucketKey u c = bucketKey v d ↔ u = v ∧ c = d := by
  constructor
  · intro h
    have hl : u.toList ++ (":" ++ c.code).toList = v.toList ++ (":" ++ d.code).toList := by
      rw [← String.toList_append, ← String.toList_append, ← String.append_assoc, ← String.append_assoc]
      exact congrArg String.toList h
    have hlen : (":" ++ c.code).toList.length = (":" ++ d.code).toList.length := by
      rw [String.length_toList, String.length_toList, String.length_append, String.length_append,
        c.length_code, d.length_code]
    obtain ⟨hu, hc⟩ := List.append_inj' hl hlen
    have hcode := (String.append_right_inj ":").mp (String.toList_inj.mp hc)
    exact ⟨String.toList_inj.mp hu, Currency.code_injective hcode⟩
  · rintro ⟨rfl, rfl⟩
    rfl

/-- The replay of `reconstructCostBasis`, account by account. -/
def costReplay : Keyed.Replay VaultEvent String CostBasis ReplayError :=
  { key := VaultEvent.key, start := emptyBasis, apply := VaultEvent.replay }

theorem reconstructCostBasis_eq (events : List VaultEvent) :
    reconstructCostBasis events = costReplay.run (inSeqOrder events) := rfl

theorem records_inSeqOrder (events : List VaultEvent) (u : Address) (c : Currency) :
    costReplay.records (inSeqOrder events) (bucketKey u c) = bucketEvents u c events := by
  unfold Keyed.Replay.records bucketEvents
  congr 1
  funext ev
  exact decide_eq_decide.mpr bucketKey_inj

/-- Every key that an event carries is the key of its bucket. -/
theorem exists_bucket_of_records {events : List VaultEvent} {k : String}
    (h : costReplay.records (inSeqOrder events) k ≠ []) : ∃ u c, k = bucketKey u c := by
  obtain ⟨ev, hev⟩ := List.exists_mem_of_ne_nil _ h
  obtain ⟨_, hk⟩ := List.mem_filter.mp hev
  exact ⟨ev.depositor, ev.currency, (of_decide_eq_true hk).symm⟩

/-- **What is rebuilt for a bucket depends on its own events only.** -/
theorem account_of_reconstruct {events : List VaultEvent} {bases : String → Option CostBasis}
    (h : reconstructCostBasis events = .ok bases) (u : Address) (c : Currency) :
    costReplay.account emptyBasis (bucketEvents u c events) = .ok (basisOf bases u c) := by
  have hk := Keyed.Replay.run_eq_ok (R := costReplay) h (bucketKey u c)
  rw [records_inSeqOrder] at hk
  exact hk

/-- **The replay returns iff each bucket's own events replay.** -/
theorem reconstruct_isOk_iff {events : List VaultEvent} :
    (∃ bases, reconstructCostBasis events = .ok bases) ↔
      ∀ u c, ∃ b, costReplay.account emptyBasis (bucketEvents u c events) = .ok b := by
  rw [reconstructCostBasis_eq, Keyed.Replay.run_isOk_iff]
  constructor
  · intro h u c
    rw [← records_inSeqOrder]
    exact h (bucketKey u c)
  · intro h k
    by_cases hnil : costReplay.records (inSeqOrder events) k = []
    · rw [hnil]
      exact ⟨_, rfl⟩
    · obtain ⟨u, c, rfl⟩ := exists_bucket_of_records hnil
      rw [records_inSeqOrder]
      exact h u c

theorem mem_of_bucketEvents {events : List VaultEvent} {u : Address} {c : Currency} {ev : VaultEvent}
    (h : ev ∈ bucketEvents u c events) : ev ∈ events := Timeline.mem_sortOn.mp (List.mem_filter.mp h).1

/-- The last event replays last, in its own bucket. -/
theorem bucketEvents_concat {events : List VaultEvent} {e : VaultEvent} (hlast : ∀ ev ∈ events, ev.seq ≤ e.seq)
    (u : Address) (c : Currency) :
    bucketEvents u c (events ++ [e])
      = bucketEvents u c events ++ if e.depositor = u ∧ e.currency = c then [e] else [] := by
  unfold bucketEvents inSeqOrder
  rw [Timeline.sortOn_concat hlast, List.filter_append]
  by_cases h : e.depositor = u ∧ e.currency = c <;> simp [h]

/-! ## When a bucket replays -/

/-- What an event does to the shares held. -/
def VaultEvent.delta (ev : VaultEvent) : Int :=
  match ev.kind with
  | .deposit  => ev.shares
  | .withdraw => -ev.shares

/-- Every withdrawal redeems at most the shares held when it comes. -/
def Covered (held : Int) : List VaultEvent → Prop
  | []      => True
  | ev :: l => (ev.kind = .withdraw → ev.shares ≤ held) ∧ Covered (held + ev.delta) l

instance Covered.instDecidable : (held : Int) → (l : List VaultEvent) → Decidable (Covered held l)
  | _, []         => inferInstanceAs (Decidable True)
  | held, ev :: l =>
      have := Covered.instDecidable (held + ev.delta) l
      inferInstanceAs (Decidable ((ev.kind = .withdraw → ev.shares ≤ held) ∧ Covered (held + ev.delta) l))

theorem replay_eq_ok {ev : VaultEvent} {b b' : CostBasis} (h : ev.replay b = .ok b') :
    (ev.kind = .withdraw → ev.shares ≤ b.shares) ∧ b'.shares = b.shares + ev.delta := by
  unfold VaultEvent.replay at h
  unfold VaultEvent.delta
  cases hk : ev.kind with
  | deposit =>
      simp only [hk, ok_eq_ok] at h
      subst h
      exact ⟨fun hw => absurd hw (by simp), rfl⟩
  | withdraw =>
      simp only [hk, bind_eq_ok, failIf_eq_ok, exists_const, ok_eq_ok, not_lt] at h
      obtain ⟨hle, rfl⟩ := h
      exact ⟨fun _ => hle, sub_eq_add_neg b.shares ev.shares⟩

theorem replay_isOk {ev : VaultEvent} {b : CostBasis} (h : ev.kind = .withdraw → ev.shares ≤ b.shares) :
    ∃ b', ev.replay b = .ok b' := by
  unfold VaultEvent.replay
  cases hk : ev.kind with
  | deposit  => exact ⟨_, rfl⟩
  | withdraw =>
      refine ⟨_, bind_eq_ok.mpr ⟨(), failIf_eq_ok.mpr ?_, rfl⟩⟩
      exact not_lt.mpr (h hk)

/-- **An account replays exactly when its withdrawals are covered.** -/
theorem account_isOk_iff {l : List VaultEvent} {b : CostBasis} :
    (∃ b', costReplay.account b l = .ok b') ↔ Covered b.shares l := by
  induction l generalizing b with
  | nil => exact ⟨fun _ => trivial, fun _ => ⟨b, rfl⟩⟩
  | cons ev l ih =>
      rw [Keyed.Replay.account_cons]
      constructor
      · rintro ⟨b', hb⟩
        obtain ⟨b₁, hfirst, hrest⟩ := bind_eq_ok.mp hb
        obtain ⟨hcov, hsh⟩ := replay_eq_ok hfirst
        have hl := ih.mp ⟨b', hrest⟩
        rw [hsh] at hl
        exact ⟨hcov, hl⟩
      · rintro ⟨hcov, hl⟩
        obtain ⟨b₁, hfirst⟩ := replay_isOk hcov
        rw [← (replay_eq_ok hfirst).2] at hl
        obtain ⟨b', hrest⟩ := ih.mpr hl
        exact ⟨b', bind_eq_ok.mpr ⟨b₁, hfirst, hrest⟩⟩

/-- **`reconstructCostBasis` returns exactly when every bucket's withdrawals are covered.** -/
theorem reconstruct_isOk_iff_covered {events : List VaultEvent} :
    (∃ bases, reconstructCostBasis events = .ok bases) ↔ ∀ u c, Covered 0 (bucketEvents u c events) := by
  rw [reconstruct_isOk_iff]
  exact forall_congr' fun u => forall_congr' fun c => account_isOk_iff (b := emptyBasis)

/-- The basis that one bucket's events rebuild. -/
def basisFrom (l : List VaultEvent) : CostBasis := (costReplay.account emptyBasis l).toOption.getD emptyBasis

theorem basisFrom_eq {l : List VaultEvent} {b : CostBasis} (h : costReplay.account emptyBasis l = .ok b) :
    basisFrom l = b := by
  unfold basisFrom
  rw [h]
  rfl

/-- A replay that returned rebuilt each bucket from its own events. -/
theorem basisOf_eq {events : List VaultEvent} {bases : String → Option CostBasis}
    (h : reconstructCostBasis events = .ok bases) (u : Address) (c : Currency) :
    basisOf bases u c = basisFrom (bucketEvents u c events) :=
  (basisFrom_eq (account_of_reconstruct h u c)).symm

/-! ## The events of a vault

A vault's events move a positive number of shares. Then nothing falls below zero, and no contributions are
left behind shares that are gone. -/

structure VaultEvent.Fair (ev : VaultEvent) : Prop where
  shares_pos : 0 < ev.shares
  paid       : ev.kind = .deposit → 0 ≤ ev.amount

structure CostBasis.Sound (b : CostBasis) : Prop where
  shares_nonneg      : 0 ≤ b.shares
  contributed_nonneg : 0 ≤ b.contributed
  closed             : b.shares = 0 → b.contributed = 0

theorem emptyBasis_sound : emptyBasis.Sound := ⟨le_refl _, le_refl _, fun _ => rfl⟩

theorem replay_deposit {ev : VaultEvent} (h : ev.kind = .deposit) (b : CostBasis) :
    ev.replay b = .ok ⟨b.shares + ev.shares, b.contributed + ev.amount⟩ := by
  unfold VaultEvent.replay
  rw [h]

/-- A withdrawal takes the cost of what it redeems out of the contributions. -/
theorem replay_withdraw {ev : VaultEvent} {b : CostBasis} (h : ev.kind = .withdraw) (hpos : 0 < ev.shares)
    (hle : ev.shares ≤ b.shares) :
    ev.replay b = .ok ⟨b.shares - ev.shares, AverageCost.left b.contributed ev.shares b.shares⟩ := by
  unfold VaultEvent.replay
  rw [h]
  refine bind_eq_ok.mpr ⟨(), failIf_eq_ok.mpr (not_lt.mpr hle), ?_⟩
  show Except.ok (CostBasis.mk _ (if 0 < b.shares then _ else _)) = _
  rw [if_pos (lt_of_lt_of_le hpos hle)]
  rfl

theorem CostBasis.Sound.replay {ev : VaultEvent} {b b' : CostBasis} (hf : ev.Fair) (hs : b.Sound)
    (h : ev.replay b = .ok b') : b'.Sound := by
  have hpos := hf.shares_pos
  cases hk : ev.kind with
  | deposit =>
      obtain rfl := ok_unique h (replay_deposit hk b)
      have hshares : 0 < b.shares + ev.shares := add_pos_of_nonneg_of_pos hs.shares_nonneg hpos
      exact ⟨le_of_lt hshares, add_nonneg hs.contributed_nonneg (hf.paid hk),
        fun hzero => absurd hzero (ne_of_gt hshares)⟩
  | withdraw =>
      have hle := (replay_eq_ok h).1 hk
      obtain rfl := ok_unique h (replay_withdraw hk hpos hle)
      refine ⟨sub_nonneg.mpr hle, AverageCost.left_nonneg hs.contributed_nonneg hpos hle, fun hzero => ?_⟩
      have hall : b.shares = ev.shares := sub_eq_zero.mp hzero
      show AverageCost.left b.contributed ev.shares b.shares = 0
      rw [hall]
      exact AverageCost.left_all hs.contributed_nonneg hpos

theorem CostBasis.Sound.account {l : List VaultEvent} {b b' : CostBasis} (hf : ∀ ev ∈ l, ev.Fair)
    (hs : b.Sound) (h : costReplay.account b l = .ok b') : b'.Sound := by
  induction l generalizing b with
  | nil =>
      obtain rfl := ok_eq_ok.mp h
      exact hs
  | cons ev l ih =>
      rw [Keyed.Replay.account_cons] at h
      obtain ⟨b₁, hfirst, hrest⟩ := bind_eq_ok.mp h
      have hs₁ := hs.replay (hf ev List.mem_cons_self) hfirst
      exact ih (fun e he => hf e (List.mem_cons_of_mem ev he)) hs₁ hrest

/-! ## A prefix that is missing -/

/-- No more shares, and no more contributions. -/
structure CostBasis.Within (b b' : CostBasis) : Prop where
  shares      : b.shares ≤ b'.shares
  contributed : b.contributed ≤ b'.contributed

/-- An event that replays into a basis replays into a larger one, which stays larger. -/
theorem CostBasis.Within.replay {ev : VaultEvent} {b b' b₁ : CostBasis} (hf : ev.Fair) (hs : b.Sound)
    (hw : b.Within b') (h : ev.replay b = .ok b₁) : ∃ b₁', ev.replay b' = .ok b₁' ∧ b₁.Within b₁' := by
  have hpos := hf.shares_pos
  cases hk : ev.kind with
  | deposit =>
      obtain rfl := ok_unique h (replay_deposit hk b)
      exact ⟨_, replay_deposit hk b', add_le_add hw.shares (le_refl _), add_le_add hw.contributed (le_refl _)⟩
  | withdraw =>
      have hle := (replay_eq_ok h).1 hk
      obtain rfl := ok_unique h (replay_withdraw hk hpos hle)
      refine ⟨_, replay_withdraw hk hpos (le_trans hle hw.shares), sub_le_sub_right hw.shares _, ?_⟩
      exact AverageCost.left_le_left hs.contributed_nonneg hw.contributed hpos hle hw.shares

theorem CostBasis.Within.account {l : List VaultEvent} {b b' b₁ : CostBasis} (hf : ∀ ev ∈ l, ev.Fair)
    (hs : b.Sound) (hw : b.Within b') (h : costReplay.account b l = .ok b₁) :
    ∃ b₁', costReplay.account b' l = .ok b₁' ∧ b₁.Within b₁' := by
  induction l generalizing b b' with
  | nil =>
      obtain rfl := ok_eq_ok.mp h
      exact ⟨b', rfl, hw⟩
  | cons ev l ih =>
      rw [Keyed.Replay.account_cons] at h
      obtain ⟨b₂, hfirst, hrest⟩ := bind_eq_ok.mp h
      have hev := hf ev List.mem_cons_self
      obtain ⟨b₂', hfirst', hw₂⟩ := hw.replay hev hs hfirst
      obtain ⟨b₁', hrest', hw₁⟩ := ih (fun e he => hf e (List.mem_cons_of_mem ev he))
        (hs.replay hev hfirst) hw₂ hrest
      refine ⟨b₁', ?_, hw₁⟩
      rw [Keyed.Replay.account_cons]
      exact bind_eq_ok.mpr ⟨b₂', hfirst', hrest'⟩

end Backend
end SoroSense
