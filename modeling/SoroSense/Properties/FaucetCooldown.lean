import SoroSense.Backend.Faucet
import SoroSense.Lib.Cooldown
import SoroSense.Lib.Execution

/-!
# `Properties.FaucetCooldown` — the faucet's cooldown under concurrency

The handler checks `lastMintAt` before it mints and sets it after, so while a mint is out nothing of it
shows. Every turn of every handler is a step of the gate of `Lib.Cooldown` (`step_view`), and what the gate
guarantees carries over: two mints of one address and currency that succeed begin `rateLimitMs` apart
unless the second passed the check while the first was still out (`cooledDown_iff`).
-/

namespace SoroSense.Backend

open Transition

/-! ## One handler as a job of the gate -/

def Mint.job (m : Mint) : Cooldown.Job String ℚ := ⟨limitKey m.address m.currency, m.start⟩

def Handler.phase : Handler → Cooldown.Phase String ℚ
  | .idle | .reading     => .waiting
  | .minting m           => .running m.job
  | .answered _ (some m) => .done m.job
  | .answered _ none     => .over

/-- What the turn that read the body did, by the state it left its handler in. -/
def Handler.afterCheck (i : ℕ) : Handler → Cooldown.Act String ℚ
  | .minting m => .start i m.job
  | _          => .refuse i

def succeeded : Option MintResult → Bool
  | some (.ok _) => true
  | _            => false

namespace Faucet

abbrev FaucetEvent := Event Faucet Turn

def Step (config : FaucetConfig) (s : Faucet) (a : Turn) (t : Faucet) : Prop := turn config s a = .ok t

/-! ## Statements -/

/-- Any two mints of one address and currency that succeeded began `rateLimitMs` apart. -/
def CooledDown (config : FaucetConfig) (s : Faucet) : Prop :=
  ∀ i j m m' r r', i ≠ j → s.handlers i = .answered r (some m) → s.handlers j = .answered r' (some m') →
    m.address = m'.address → m.currency = m'.currency → config.rateLimitMs ≤ |m'.start - m.start|

/-- Handler `i`'s mint succeeds in what is left of the run. -/
def Succeeds (i : ℕ) (tr : List FaucetEvent) : Prop :=
  ∃ e ∈ tr, ∃ hash now, e.label = .mintSettled i (some (.ok hash)) now

/-- A request passes the check while a mint of its address and currency is out that began less than
    `rateLimitMs` before, and both mints go on to succeed. -/
def Overlaps (config : FaucetConfig) (e : FaucetEvent) (rest : List FaucetEvent) : Prop :=
  ∃ i j m body now called, e.pre.handlers i = .minting m ∧ e.label = .bodyRead j body now called ∧
    checkRequest config e.pre.lastMintAt body now = .ok (m.address, m.currency) ∧
    called - m.start < config.rateLimitMs ∧ Succeeds i rest ∧ Succeeds j rest

/-- Somewhere in the run, one does. -/
def Overlap (config : FaucetConfig) : List FaucetEvent → Prop
  | []        => False
  | e :: rest => Overlaps config e rest ∨ Overlap config rest

/-! ## The gate behind the handlers -/

/-- The process as a gate, -/
def view (s : Faucet) : Cooldown.Gate String ℚ :=
  ⟨s.lastMintAt, s.clock, fun i => (s.handlers i).phase⟩

/-- … and its turns as acts. -/
def act (e : FaucetEvent) : Cooldown.Act String ℚ :=
  match e.label with
  | .received _              => .pass
  | .bodyRead i _ _ _        => (e.post.handlers i).afterCheck i
  | .mintSettled i outcome _ => .finish i (succeeded outcome)

/-- The run as the gate sees it. -/
def viewed (tr : List FaucetEvent) : List (Event (Cooldown.Gate String ℚ) (Cooldown.Act String ℚ)) :=
  tr.map fun e => ⟨view e.pre, act e, view e.post⟩

variable {config : FaucetConfig} {s t : Faucet} {e : FaucetEvent} {tr : List FaucetEvent} {i j : ℕ}

theorem jobs_view (s : Faucet) (i : ℕ) : (view s).jobs i = (s.handlers i).phase := rfl

theorem view_moved (s : Faucet) (i : ℕ) (h : Handler) (clock : ℚ) :
    view (s.moved i h clock)
      = { view s with clock := clock, jobs := Function.update (view s).jobs i h.phase } := by
  show (⟨s.lastMintAt, clock, Handler.phase ∘ Function.update s.handlers i h⟩ : Cooldown.Gate String ℚ) = _
  rw [Function.comp_update]
  rfl

/-- A handler that waits for its body is not running. -/
theorem view_moved_waiting {h : Handler} (hw : s.handlers i = .idle) (hp : h.phase = .waiting) :
    view (s.moved i h s.clock) = { view s with clock := s.clock } := by
  have hjobs : Function.update (view s).jobs i h.phase = (view s).jobs := by
    rw [hp]
    refine Function.update_eq_self_iff.mpr ?_
    rw [jobs_view, hw]
    rfl
  rw [view_moved, hjobs]

/-- **Every turn is a step of the gate.** -/
theorem step_view (h : Step config e.pre e.label e.post) :
    Cooldown.Step config.rateLimitMs (view e.pre) (act e) (view e.post) := by
  obtain ⟨s, a, t⟩ := e
  have h : turn config s a = .ok t := h
  cases a with
  | received i =>
      obtain ⟨hidle, rfl⟩ := turn_received h
      show Cooldown.Step _ (view s) .pass (view (s.moved i .reading s.clock))
      rw [view_moved_waiting hidle rfl]
      exact .pass (le_refl s.clock)
  | bodyRead i body now called =>
      obtain ⟨hnow, hcalled, hreading, hcase⟩ := turn_bodyRead h
      have hw : (view s).jobs i = .waiting := by rw [jobs_view, hreading]; rfl
      rcases hcase with ⟨r, _, rfl⟩ | ⟨a, c, hcheck, rfl⟩
      · show Cooldown.Step _ (view s) ((Function.update s.handlers i (.answered r none) i).afterCheck i) _
        rw [Function.update_self, view_moved]
        exact .refuse hw (le_trans hnow hcalled)
      · show Cooldown.Step _ (view s) ((Function.update s.handlers i (.minting _) i).afterCheck i) _
        rw [Function.update_self, view_moved]
        obtain ⟨_, _, _, _, hlast⟩ := checkRequest_eq_ok.mp hcheck
        exact .start hw hnow hcalled hlast
  | mintSettled i outcome now =>
      obtain ⟨hnow, m, hm, hcase⟩ := turn_mintSettled h
      have hr : (view s).jobs i = .running m.job := by rw [jobs_view, hm]; rfl
      rcases hcase with ⟨hash, rfl, rfl⟩ | ⟨hnot, rfl⟩
      · rw [view_moved]
        exact .succeed hr hnow
      · have hfail : succeeded outcome = false := by
          cases outcome with
          | none => rfl
          | some r =>
              cases r with
              | ok hash     => exact absurd rfl (hnot hash)
              | noTrustline => rfl
        show Cooldown.Step _ (view s) (.finish i (succeeded outcome)) _
        rw [hfail, view_moved]
        exact .fail hr hnow

theorem run_viewed (h : Run (Step config) s tr t) :
    Run (Cooldown.Step config.rateLimitMs) (view s) (viewed tr) (view t) :=
  h.map view act fun e he => step_view (h.forall_step e he)

/-! ## The two readings of one run -/

theorem phase_eq_running {h : Handler} {x : Cooldown.Job String ℚ} :
    h.phase = .running x ↔ ∃ m, h = .minting m ∧ m.job = x := by
  cases h with
  | idle | reading => simp [Handler.phase]
  | minting m => simp [Handler.phase]
  | answered r o => cases o <;> simp [Handler.phase]

theorem phase_eq_done {h : Handler} {x : Cooldown.Job String ℚ} :
    h.phase = .done x ↔ ∃ r m, h = .answered r (some m) ∧ m.job = x := by
  cases h with
  | idle | reading => simp [Handler.phase]
  | minting m => simp [Handler.phase]
  | answered r o => cases o <;> simp [Handler.phase]

theorem key_job_eq_iff {m m' : Mint} :
    m.job.key = m'.job.key ↔ m.address = m'.address ∧ m.currency = m'.currency := by
  constructor
  · exact limitKey_inj
  · rintro ⟨ha, hc⟩
    show limitKey m.address m.currency = limitKey m'.address m'.currency
    rw [ha, hc]

theorem cooledDown_iff_spaced : CooledDown config s ↔ Cooldown.Spaced config.rateLimitMs (view s) := by
  constructor
  · intro h i j x y hij hi hj hk
    obtain ⟨r, m, hm, rfl⟩ := phase_eq_done.mp hi
    obtain ⟨r', m', hm', rfl⟩ := phase_eq_done.mp hj
    obtain ⟨ha, hc⟩ := key_job_eq_iff.mp hk
    exact h i j m m' r r' hij hm hm' ha hc
  · intro h i j m m' r r' hij hm hm' ha hc
    exact h i j m.job m'.job hij (phase_eq_done.mpr ⟨r, m, hm, rfl⟩) (phase_eq_done.mpr ⟨r', m', hm', rfl⟩)
      (key_job_eq_iff.mpr ⟨ha, hc⟩)

theorem afterCheck_ne_finish (h : Handler) {b : Bool} : h.afterCheck j ≠ .finish i b := by
  cases h <;> simp [Handler.afterCheck]

theorem act_eq_finish : act e = .finish i true ↔ ∃ hash now, e.label = .mintSettled i (some (.ok hash)) now := by
  obtain ⟨s, l, t⟩ := e
  cases l with
  | received j => simp [act]
  | bodyRead j body now called =>
      constructor
      · intro hact
        exact absurd hact (afterCheck_ne_finish (t.handlers j))
      · rintro ⟨hash, now, hlabel⟩
        exact absurd hlabel (by simp)
  | mintSettled j outcome now =>
      cases outcome with
      | none => simp [act, succeeded]
      | some r => cases r <;> simp [act, succeeded]

theorem succeeds_viewed : Cooldown.Succeeds i (viewed tr) ↔ Succeeds i tr := by
  constructor
  · rintro ⟨_, he, hfinish⟩
    obtain ⟨e, hmem, rfl⟩ := List.mem_map.mp he
    exact ⟨e, hmem, act_eq_finish.mp hfinish⟩
  · rintro ⟨e, he, hsettled⟩
    exact ⟨_, List.mem_map.mpr ⟨e, he, rfl⟩, act_eq_finish.mpr hsettled⟩

/-- **A start the gate sees** is a request that passed the check. -/
theorem act_eq_start (h : Step config e.pre e.label e.post) {y : Cooldown.Job String ℚ} :
    act e = .start j y ↔ ∃ a c body now called, e.label = .bodyRead j body now called ∧
      checkRequest config e.pre.lastMintAt body now = .ok (a, c) ∧ y = ⟨limitKey a c, called⟩ := by
  obtain ⟨s, l, t⟩ := e
  have h : turn config s l = .ok t := h
  cases l with
  | received i => simp [act]
  | mintSettled i outcome now => simp [act]
  | bodyRead i body now called =>
      obtain ⟨_, _, _, hcase⟩ := turn_bodyRead h
      have hact : act ⟨s, .bodyRead i body now called, t⟩ = (t.handlers i).afterCheck i := rfl
      rw [hact]
      rcases hcase with ⟨r, hr, rfl⟩ | ⟨a, c, hcheck, rfl⟩
      · have hpost : (s.moved i (.answered r none) called).handlers i = .answered r none :=
          Function.update_self i _ _
        rw [hpost]
        constructor
        · intro hstart
          exact absurd hstart (by simp [Handler.afterCheck])
        · rintro ⟨a, c, body', now', called', hlabel, hcheck, _⟩
          cases hlabel
          have hcheck : checkRequest config s.lastMintAt body now = .ok (a, c) := hcheck
          rw [hr] at hcheck
          exact absurd hcheck (by simp)
      · have hpost : (s.moved i (.minting ⟨a, c, config.sac c, config.amount, called⟩) called).handlers i
            = .minting ⟨a, c, config.sac c, config.amount, called⟩ := Function.update_self i _ _
        rw [hpost]
        constructor
        · intro hstart
          cases hstart
          exact ⟨a, c, body, now, called, rfl, hcheck, rfl⟩
        · rintro ⟨a', c', body', now', called', hlabel, hcheck', rfl⟩
          cases hlabel
          have hcheck' : checkRequest config s.lastMintAt body now = .ok (a', c') := hcheck'
          rw [hcheck] at hcheck'
          cases hcheck'
          rfl

theorem clashes_viewed (h : Step config e.pre e.label e.post) :
    Cooldown.Clashes config.rateLimitMs ⟨view e.pre, act e, view e.post⟩ (viewed tr) ↔
      Overlaps config e tr := by
  constructor
  · rintro ⟨i, j, x, y, hi, hj, hk, hlt, hsi, hsj⟩
    obtain ⟨m, hm, rfl⟩ := phase_eq_running.mp hi
    obtain ⟨a, c, body, now, called, hlabel, hcheck, rfl⟩ := (act_eq_start h).mp hj
    obtain ⟨ha, hc⟩ := limitKey_inj hk
    rw [← ha, ← hc] at hcheck
    exact ⟨i, j, m, body, now, called, hm, hlabel, hcheck, hlt, succeeds_viewed.mp hsi, succeeds_viewed.mp hsj⟩
  · rintro ⟨i, j, m, body, now, called, hm, hlabel, hcheck, hlt, hsi, hsj⟩
    have hstart := (act_eq_start h).mpr ⟨m.address, m.currency, body, now, called, hlabel, hcheck, rfl⟩
    exact ⟨i, j, m.job, _, phase_eq_running.mpr ⟨m, hm, rfl⟩, hstart, rfl, hlt, succeeds_viewed.mpr hsi,
      succeeds_viewed.mpr hsj⟩

theorem clash_viewed (h : ∀ e ∈ tr, Step config e.pre e.label e.post) :
    Cooldown.Clash config.rateLimitMs (viewed tr) ↔ Overlap config tr := by
  induction tr with
  | nil => exact Iff.rfl
  | cons e tr ih =>
      have hrest := ih fun e he => h e (List.mem_cons_of_mem _ he)
      exact or_congr (clashes_viewed (h e List.mem_cons_self)) hrest

/-! ## The cooldown -/

/-- **The cooldown, exactly.** After any run of any number of handlers, two mints of one address and
    currency that succeeded began `rateLimitMs` apart **iff** no request passed the check while such a mint,
    begun less than that before, was still out. -/
theorem cooledDown_iff {clock : ℚ} (h : Run (Step config) (mounted clock) tr t) :
    CooledDown config t ↔ ¬ Overlap config tr := by
  rw [cooledDown_iff_spaced, ← clash_viewed h.forall_step]
  exact Cooldown.spaced_iff (t := clock) (run_viewed h)

/-! ## Two runs -/

/-- A testnet configuration with the default cooldown. -/
def testnet : FaucetConfig where
  sac
    | .usd => "CDGJ4WQZFY3TH5LX442ZDJVPB5I2VMNEENRX23AYNMJFXLDMZQY5PSKA"
    | .eur => "CCAEI5YDRHKKAHGBTC6K2P6FRZTBBV7H6TEKDDSEINPGHKY3XRBCT44A"

/-- A well-formed claim of USDC. -/
def claim : Option Json :=
  some (.obj [("address", .str "GAB5UOJLZWZUXVUB3POD3RBQTD53PQGVOVKVAONBDFXCOO2IY3LIDFJB"),
    ("currency", .str "USD")])

/-- The mint `claim` asks for. -/
def claimed (start : ℚ) : Mint :=
  ⟨"GAB5UOJLZWZUXVUB3POD3RBQTD53PQGVOVKVAONBDFXCOO2IY3LIDFJB", .usd, testnet.sac .usd, testnet.amount, start⟩

/-- Claimed twice at once: the second request is checked while the first one's mint is out. -/
def atOnce : List Turn :=
  [.received 0, .received 1, .bodyRead 0 claim 1000000 1000000, .bodyRead 1 claim 1000000 1000000,
    .mintSettled 0 (some (.ok "tx-1")) 1000005, .mintSettled 1 (some (.ok "tx-2")) 1000005]

/-- Both mint. -/
theorem not_cooledDown_after_atOnce : ¬ CooledDown testnet (Execution.after (turn testnet) (mounted 0) atOnce) := by
  intro h
  have hfirst : (Execution.after (turn testnet) (mounted 0) atOnce).handlers 0
      = .answered (.ok "tx-1" .usd "10000000000") (some (claimed 1000000)) := by decide +kernel
  have hsecond : (Execution.after (turn testnet) (mounted 0) atOnce).handlers 1
      = .answered (.ok "tx-2" .usd "10000000000") (some (claimed 1000000)) := by decide +kernel
  have hgap := h 0 1 (claimed 1000000) (claimed 1000000) _ _ (by decide) hfirst hsecond rfl rfl
  exact absurd hgap (by decide +kernel)

/-- So they overlapped. -/
theorem cooledDown_atOnce : Overlap testnet (Execution.trace (turn testnet) (mounted 0) atOnce) := by
  by_contra h
  exact not_cooledDown_after_atOnce
    ((cooledDown_iff (Execution.run_trace (fun _ _ _ hx => hx) atOnce)).mpr h)

/-- **Two claims at once both mint.** -/
theorem not_cooledDown_atOnce :
    ∃ tr t, Run (Step testnet) (mounted 0) tr t ∧ ¬ CooledDown testnet t :=
  ⟨Execution.trace (turn testnet) (mounted 0) atOnce, Execution.after (turn testnet) (mounted 0) atOnce,
    Execution.run_trace (fun _ _ _ hx => hx) atOnce, not_cooledDown_after_atOnce⟩

end Faucet

end SoroSense.Backend
