import SoroSense.Frontend.DepositScreen
import SoroSense.Lib.Sums
import SoroSense.Vault.Calls

/-!
# `Properties.DepositVisits` — what the deposit screen books

The screen books a deposit in the contributions when its write is answered with success, and only then. What the
vault took exceeds what was booked by what the screen never heard of: deposits that landed and whose answer was an
error, and deposits that landed after the screen had given up on them (`deposit_books`).

* `DepositApp.gap` / `gap_step` — the difference, and what one step adds to it;
* `Made` — what is awaited and has landed is among the writes that took effect;
* `Tidy` — a screen that is unmounted when it is left awaits one submission at most;
* `Shown` — and shows what it submits, if nothing is typed while the consent is asked for.
-/

namespace SoroSense.Frontend

open Fallible Transition Sums

variable {id : ℕ} {stays : Bool} {s t : DepositApp} {a : DepositAct} {c : Currency} {i : ℕ} {f : Flight}
  {call : Vault.Call}

/-! ## The books -/

/-- What a write deposits in a currency. -/
def depositedBy (c : Currency) : Vault.Call → Int
  | .deposit _ d amount => if d = c then amount else 0
  | _                   => 0

/-- What these writes deposit altogether. -/
def deposits (c : Currency) (l : List Vault.Call) : Int := (l.map (depositedBy c)).sum

/-- A deposit that has landed and is not answered yet. -/
def Flight.unanswered (c : Currency) (f : Flight) : Int :=
  if f.awaited = .deposit ∧ f.landed = true ∧ f.order.currency = c then f.order.amount else 0

def DepositApp.unanswered (c : Currency) (s : DepositApp) : Int := (s.flights.map (Flight.unanswered c)).sum

/-- What the vault took, and neither the contributions know of nor a submission awaits. -/
def DepositApp.gap (c : Currency) (s : DepositApp) : Int := deposits c s.landed - s.ledger c - s.unanswered c

/-- What a step lands, or has landed, without the screen ever hearing of it. -/
def unheard (c : Currency) (e : Event DepositApp DepositAct) : Int :=
  match e.label with
  | .reply i .rejected | .reply i .threw => (e.pre.flights[i]?.map (Flight.unanswered c)).getD 0
  | .late j                              => (e.pre.loose[j]?.map (depositedBy c)).getD 0
  | _                                    => 0

theorem deposits_append (l l' : List Vault.Call) : deposits c (l ++ l') = deposits c l + deposits c l' := by
  unfold deposits
  rw [List.map_append, List.sum_append]

theorem deposits_single (call : Vault.Call) : deposits c [call] = depositedBy c call := by
  unfold deposits
  rw [List.map_singleton, List.sum_singleton]

theorem unanswered_of_not_landed (h : f.landed = false) : f.unanswered c = 0 :=
  if_neg fun hc => absurd (h ▸ hc.2.1) (by decide)

theorem unanswered_of_awaited (h : f.awaited ≠ .deposit) : f.unanswered c = 0 := if_neg fun hc => h hc.1

/-- Landing is what makes a deposit wait for its answer. -/
theorem unanswered_landed (h : f.write id = some call) :
    Flight.unanswered c { f with landed := true } = depositedBy c call := by
  unfold Flight.write at h
  unfold Flight.unanswered
  cases ha : f.awaited with
  | consent =>
      rw [ha] at h
      rw [← Option.some.inj h]
      simp [depositedBy]
  | deposit =>
      rw [ha] at h
      rw [← Option.some.inj h]
      simp [depositedBy, DepositOrder.call]
  | floor ok =>
      rw [ha] at h
      exact absurd h (by simp)

/-! ### What the source's functions do to them -/

theorem gap_settled (h : s.flights[i]? = some f) (phase : TransferPhase) :
    (s.settled i f phase).gap c = s.gap c + f.unanswered c := by
  have hsum := sum_map_eraseIdx (Flight.unanswered c) h
  show deposits c s.landed - s.ledger c - ((s.flights.eraseIdx i).map (Flight.unanswered c)).sum =
    deposits c s.landed - s.ledger c - (s.flights.map (Flight.unanswered c)).sum + f.unanswered c
  omega

theorem gap_awaits (h : s.flights[i]? = some f) (awaited : Awaited) :
    (s.awaits i f awaited).gap c = s.gap c + f.unanswered c := by
  have hsum := sum_map_set (Flight.unanswered c) h { f with awaited := awaited, landed := false }
  rw [unanswered_of_not_landed (f := { f with awaited := awaited, landed := false }) rfl] at hsum
  show deposits c s.landed - s.ledger c - ((s.flights.set i _).map (Flight.unanswered c)).sum =
    deposits c s.landed - s.ledger c - (s.flights.map (Flight.unanswered c)).sum + f.unanswered c
  omega

theorem gap_run (o : DepositOrder) (awaited : Awaited) (direct mounted : Bool) :
    (s.run o awaited direct mounted).gap c = s.gap c := by
  show deposits c s.landed - s.ledger c - ((s.flights ++ [_]).map (Flight.unanswered c)).sum = s.gap c
  rw [List.map_append, List.sum_append, List.map_singleton, List.sum_singleton, unanswered_of_not_landed rfl, add_zero]
  rfl

theorem gap_left {d : Currency} : (s.left stays c).gap d = s.gap d := by
  unfold DepositApp.left
  split
  · rfl
  · show deposits d s.landed - s.ledger d - ((s.flights.map _).map (Flight.unanswered d)).sum = s.gap d
    rw [List.map_map]
    rfl

theorem gap_recordDeposit (o : DepositOrder) :
    (s.recordDeposit o).gap c = s.gap c - if o.currency = c then o.amount else 0 := by
  show deposits c s.landed - Function.update s.ledger o.currency (s.ledger o.currency + o.amount) c - _ =
    deposits c s.landed - s.ledger c - _ - _
  by_cases hc : o.currency = c
  · subst hc
    rw [Function.update_self, if_pos rfl]
    show _ - _ - s.unanswered o.currency = _
    omega
  · rw [Function.update_of_ne (Ne.symm hc), if_neg hc, sub_zero]
    rfl

theorem flights_lets : (s.lets f call).flights = s.flights := by
  unfold DepositApp.lets
  split <;> rfl

theorem gap_lets : (s.lets f call).gap c = s.gap c := by
  unfold DepositApp.lets
  split <;> rfl

/-- **The reply to a write adds what an error hides.** -/
theorem gap_replied {r : WriteReply} (hf : s.flights[i]? = some f) (hcall : f.write id = some call)
    (hfits : r.Fits f.landed) :
    (s.replied i f call r).gap c = s.gap c + if r = .rejected ∨ r = .threw then f.unanswered c else 0 := by
  have hflight : (s.lets f call).flights[i]? = some f := by rw [flights_lets, hf]
  cases r with
  | success =>
      have hlanded : f.landed = true := hfits
      rw [if_neg (by decide), add_zero]
      unfold DepositApp.replied
      cases ha : f.awaited with
      | consent =>
          have hnone : f.unanswered c = 0 := unanswered_of_awaited (by simp [ha])
          show (s.awaits i f .deposit).gap c = _
          rw [gap_awaits hf, hnone, add_zero]
      | deposit =>
          -- what is booked is what was unanswered
          have hbooked : f.unanswered c = if f.order.currency = c then f.order.amount else 0 := by
            unfold Flight.unanswered
            simp [ha, hlanded]
          have hrecorded : (s.recordDeposit f.order).flights[i]? = some f := hf
          show ((s.recordDeposit f.order).awaits i f (.floor true)).gap c = _
          rw [gap_awaits hrecorded, gap_recordDeposit, hbooked]
          omega
      | floor ok =>
          unfold Flight.write at hcall
          rw [ha] at hcall
          exact absurd hcall (by simp)
  | rejected =>
      show ((s.lets f call).awaits i f (.floor false)).gap c = _
      rw [gap_awaits hflight, gap_lets, if_pos (.inl rfl)]
  | threw =>
      show ((s.lets f call).settled i f .error).gap c = _
      rw [gap_settled hflight, gap_lets, if_pos (.inr rfl)]
  | closed =>
      rw [if_neg (by decide), add_zero]
      show (s.settled i f .idle).gap c = _
      rw [gap_settled hf, unanswered_of_not_landed hfits, add_zero]

/-- **What one step adds to the gap is what the screen does not hear of.** -/
theorem gap_step (hs : DepositStep id stays s a t) : t.gap c = s.gap c + unheard c ⟨s, a, t⟩ := by
  cases hs with
  | type _ _ _ | funds | dismiss _ | back _ _ | expire | other _ => exact (add_zero _).symm
  | confirm _ _ =>
      show s.pressConfirm.gap c = s.gap c + 0
      rw [add_zero]
      unfold DepositApp.pressConfirm
      split <;> rfl
  | @consent i k yes hk _ =>
      show (s.consentAnswered i k yes).gap c = s.gap c + 0
      rw [add_zero]
      unfold DepositApp.consentAnswered
      split
      · exact gap_run _ _ _ _
      · split <;> rfl
  | consentFails _ => exact (add_zero _).symm
  | agree _ _ =>
      show s.pressAgree.gap c = s.gap c + 0
      rw [add_zero]
      exact gap_run _ _ _ _
  | @lands i f call w hf hcall hnot hx =>
      have hsum := sum_map_set (Flight.unanswered c) hf { f with landed := true }
      rw [unanswered_of_not_landed hnot, unanswered_landed hcall] at hsum
      show deposits c (s.landed ++ [call]) - s.ledger c - ((s.flights.set i _).map (Flight.unanswered c)).sum =
        deposits c s.landed - s.ledger c - (s.flights.map (Flight.unanswered c)).sum + 0
      rw [deposits_append, deposits_single]
      omega
  | @reply i f call r hf hcall hfits =>
      have hheard : unheard c ⟨s, .reply i r, s.replied i f call r⟩ =
          if r = .rejected ∨ r = .threw then f.unanswered c else 0 := by
        cases r <;> simp [unheard, hf]
      rw [gap_replied hf hcall hfits, hheard]
  | @elapse i f ok hf hfloor =>
      have hnone : f.unanswered c = 0 := unanswered_of_awaited (by simp [hfloor])
      show (s.settled i f _).gap c = s.gap c + 0
      rw [gap_settled hf, hnone]
  | leave =>
      show (s.left stays _).gap c = s.gap c + 0
      rw [gap_left, add_zero]
  | @late j call w hj hx =>
      have hheard : unheard c ⟨s, .late j, { s.includes call w with loose := s.loose.eraseIdx j }⟩ =
          depositedBy c call := by
        simp [unheard, hj]
      rw [hheard]
      show deposits c (s.landed ++ [call]) - s.ledger c - s.unanswered c = s.gap c + _
      rw [deposits_append, deposits_single]
      unfold DepositApp.gap
      omega

/-! ## What has been made -/

/-- **A deposit that is known to have landed is among the writes that took effect.** -/
structure Made (id : ℕ) (s : DepositApp) : Prop where
  landed  : ∀ f ∈ s.flights, f.landed = true → f.awaited = .deposit → f.order.call id ∈ s.landed ∧ 0 < f.order.amount
  verdict : ∀ f ∈ s.flights, f.awaited = .floor true → f.order.call id ∈ s.landed

theorem pos_of_deposit {o : DepositOrder} {w w' : World} {auth : Auth} (h : (o.call id).exec auth w = .ok w') :
    0 < o.amount := by
  obtain ⟨_, _, g, _⟩ := Vault.deposit_eq_ok.mp h
  exact g.pos

theorem Made.settled (h : Made id s) (i : ℕ) (f : Flight) (phase : TransferPhase) : Made id (s.settled i f phase) where
  landed g hg  := h.landed g (List.mem_of_mem_eraseIdx hg)
  verdict g hg := h.verdict g (List.mem_of_mem_eraseIdx hg)

theorem Made.awaits (h : Made id s) {awaited : Awaited} (hlanded : awaited = .floor true → f.order.call id ∈ s.landed) :
    Made id (s.awaits i f awaited) where
  landed g hg hl ha := by
    rcases List.mem_or_eq_of_mem_set hg with hg | rfl
    · exact h.landed g hg hl ha
    · exact absurd hl (by simp)
  verdict g hg ha := by
    rcases List.mem_or_eq_of_mem_set hg with hg | rfl
    · exact h.verdict g hg ha
    · exact hlanded ha

theorem Made.run (h : Made id s) {o : DepositOrder} {awaited : Awaited} (direct mounted : Bool)
    (hno : awaited ≠ .floor true) : Made id (s.run o awaited direct mounted) where
  landed g hg hl ha := by
    rcases List.mem_append.mp hg with hg | hg
    · exact h.landed g hg hl ha
    · rw [List.mem_singleton.mp hg] at hl
      exact absurd hl (by simp)
  verdict g hg ha := by
    rcases List.mem_append.mp hg with hg | hg
    · exact h.verdict g hg ha
    · rw [List.mem_singleton.mp hg] at ha
      exact absurd ha hno

/-- More writes take effect. -/
theorem Made.includes (h : Made id s) (call : Vault.Call) (w : World) : Made id (s.includes call w) where
  landed g hg hl ha := ⟨List.mem_append_left _ (h.landed g hg hl ha).1, (h.landed g hg hl ha).2⟩
  verdict g hg ha   := List.mem_append_left _ (h.verdict g hg ha)

theorem Made.replied (h : Made id s) {r : WriteReply} (hf : s.flights[i]? = some f) (hcall : f.write id = some call)
    (hfits : r.Fits f.landed) : Made id (s.replied i f call r) := by
  have hlets : Made id (s.lets f call) := by
    unfold DepositApp.lets
    split
    · exact h
    · exact ⟨h.landed, h.verdict⟩
  cases r with
  | success =>
      have hlanded : f.landed = true := hfits
      unfold DepositApp.replied
      cases ha : f.awaited with
      | consent => exact h.awaits fun hc => absurd hc (by simp)
      | deposit =>
          have hrecorded : Made id (s.recordDeposit f.order) := ⟨h.landed, h.verdict⟩
          exact hrecorded.awaits fun _ => (h.landed f (List.mem_of_getElem? hf) hlanded ha).1
      | floor ok =>
          unfold Flight.write at hcall
          rw [ha] at hcall
          exact absurd hcall (by simp)
  | rejected => exact hlets.awaits fun hc => absurd hc (by simp)
  | threw => exact hlets.settled _ _ _
  | closed => exact h.settled _ _ _

theorem Made.step (h : Made id s) (hs : DepositStep id stays s a t) : Made id t := by
  cases hs with
  | type _ _ _ | funds | dismiss _ | back _ _ | expire | other _ | consentFails _ => exact ⟨h.landed, h.verdict⟩
  | confirm _ _ =>
      unfold DepositApp.pressConfirm
      split
      · exact h
      · exact ⟨h.landed, h.verdict⟩
  | @consent i k yes hk _ =>
      have hrest : Made id { s with checks := s.checks.eraseIdx i } := ⟨h.landed, h.verdict⟩
      unfold DepositApp.consentAnswered
      simp only
      split
      · exact hrest.run _ _ (by simp)
      · split <;> exact ⟨h.landed, h.verdict⟩
  | agree _ _ =>
      have hclosed : Made id { s with screen := { s.screen with consentOpen := false } } := ⟨h.landed, h.verdict⟩
      exact hclosed.run _ _ (by simp)
  | @lands i f call w hf hcall hnot hx =>
      have hmore := h.includes call w
      constructor
      · intro g hg hl ha
        rcases List.mem_or_eq_of_mem_set hg with hg | rfl
        · exact hmore.landed g hg hl ha
        · -- the write that has landed is its deposit
          have hdeposit : f.order.call id = call := by
            unfold Flight.write at hcall
            rw [show f.awaited = .deposit from ha] at hcall
            exact Option.some.inj hcall
          rw [← hdeposit] at hx ⊢
          exact ⟨List.mem_append_right _ List.mem_cons_self, pos_of_deposit hx⟩
      · intro g hg ha
        rcases List.mem_or_eq_of_mem_set hg with hg | rfl
        · exact hmore.verdict g hg ha
        · unfold Flight.write at hcall
          rw [show f.awaited = .floor true from ha] at hcall
          exact absurd hcall (by simp)
  | reply hf hcall hfits => exact h.replied hf hcall hfits
  | elapse _ _ => exact h.settled _ _ _
  | leave =>
      unfold DepositApp.left
      split
      · exact ⟨h.landed, h.verdict⟩
      · constructor
        · intro g hg
          obtain ⟨f, hf, rfl⟩ := List.mem_map.mp hg
          exact h.landed f hf
        · intro g hg
          obtain ⟨f, hf, rfl⟩ := List.mem_map.mp hg
          exact h.verdict f hf
  | @late j call w hj hx =>
      have hmore := h.includes call w
      exact ⟨hmore.landed, hmore.verdict⟩

/-- What the screen does not hear of is never negative. -/
theorem unheard_nonneg (h : Made id s) (hs : DepositStep id stays s a t) : 0 ≤ unheard c ⟨s, a, t⟩ := by
  have hcall : ∀ {call : Vault.Call} {auth : Auth} {w : World}, call.exec auth s.world = .ok w →
      0 ≤ depositedBy c call := by
    intro call auth w hx
    unfold depositedBy
    split
    · obtain ⟨_, _, g, _⟩ := Vault.deposit_eq_ok.mp hx
      have hpos := g.pos
      split <;> omega
    · exact le_refl _
  cases hs with
  | @reply i f call r hf hwrite hfits =>
      have hflight : 0 ≤ f.unanswered c := by
        unfold Flight.unanswered
        split
        · rename_i hdeposit
          exact le_of_lt (h.landed f (List.mem_of_getElem? hf) hdeposit.2.1 hdeposit.1).2
        · exact le_refl _
      cases r <;> simp [unheard, hf, hflight]
  | @late j call w hj hx =>
      have hheard : unheard c ⟨s, .late j, { s.includes call w with loose := s.loose.eraseIdx j }⟩ =
          depositedBy c call := by
        simp [unheard, hj]
      rw [hheard]
      exact hcall hx
  | _ => exact le_refl _

/-! ## The screen that is mounted -/

/-- The submissions and the consent checks of the mounted screen. -/
def DepositApp.liveFlights (s : DepositApp) : ℕ := (s.flights.map fun f => f.mounted.toNat).sum

def DepositApp.liveChecks (s : DepositApp) : ℕ := (s.checks.map fun k => k.mounted.toNat).sum

/-- The form waits for the answer of a consent check. -/
def DepositScreen.Asking (d : DepositScreen) : Prop := d.phase = .idle ∧ d.consentOpen = false ∧ d.busy = true

instance (d : DepositScreen) : Decidable d.Asking := inferInstanceAs (Decidable (_ ∧ _ ∧ _))

/-- **The mounted screen runs what it shows.** -/
structure Tidy (id : ℕ) (s : DepositApp) : Prop where
  flights : s.liveFlights = if s.screen.phase = .sending then 1 else 0
  checks  : s.liveChecks ≤ if s.screen.Asking then 1 else 0
  sheet   : s.screen.consentOpen = true → s.screen.phase = .idle
  order   : ∀ f ∈ s.flights, f.mounted = true → s.screen.last = some f.order
  success : s.screen.phase = .success → ∃ o, s.screen.last = some o ∧ o.call id ∈ s.landed

theorem le_liveFlights (h : f ∈ s.flights) : f.mounted.toNat ≤ s.liveFlights :=
  List.le_sum_of_mem (List.mem_map_of_mem h)

theorem le_liveChecks {k : ConsentCheck} (h : k ∈ s.checks) : k.mounted.toNat ≤ s.liveChecks :=
  List.le_sum_of_mem (List.mem_map_of_mem h)

/-- A mounted submission is what the screen is sending, and nothing is asked for. -/
theorem Tidy.sending (h : Tidy id s) (hf : f ∈ s.flights) (hm : f.mounted = true) :
    s.screen.phase = .sending ∧ s.liveFlights = 1 ∧ s.liveChecks = 0 := by
  have hone := le_liveFlights hf
  rw [hm, h.flights] at hone
  by_cases hphase : s.screen.phase = .sending
  · have hchecks := h.checks
    rw [if_neg fun hc => absurd (hphase ▸ hc.1) (by decide)] at hchecks
    exact ⟨hphase, by rw [h.flights, if_pos hphase], Nat.le_zero.mp hchecks⟩
  · rw [if_neg hphase] at hone
    exact absurd hone (by decide)

/-- A mounted check is what the form waits for, and nothing is sent. -/
theorem Tidy.asking (h : Tidy id s) {k : ConsentCheck} (hk : k ∈ s.checks) (hm : k.mounted = true) :
    s.screen.Asking ∧ s.liveChecks = 1 ∧ s.liveFlights = 0 := by
  have hone := le_liveChecks hk
  have hchecks := h.checks
  rw [hm] at hone
  by_cases hasks : s.screen.Asking
  · rw [if_pos hasks] at hchecks
    have hflights := h.flights
    rw [if_neg (hasks.1 ▸ by decide)] at hflights
    exact ⟨hasks, le_antisymm hchecks hone, hflights⟩
  · rw [if_neg hasks] at hchecks
    exact absurd (hone.trans hchecks) (by decide)

theorem Tidy.idle (h : Tidy id s) (hidle : s.screen.phase = .idle) : s.liveFlights = 0 := by
  rw [h.flights, if_neg (hidle ▸ by decide)]

theorem Tidy.settled (h : Tidy id s) (hf : s.flights[i]? = some f) {phase : TransferPhase} (hdone : phase ≠ .sending)
    (hsuccess : phase = .success → f.order.call id ∈ s.landed) : Tidy id (s.settled i f phase) := by
  have hmem := List.mem_of_getElem? hf
  have hleft : f.mounted.toNat + (s.settled i f phase).liveFlights = s.liveFlights :=
    sum_map_eraseIdx (fun f => f.mounted.toNat) hf
  cases hm : f.mounted with
  | false =>
      have hscreen : (s.settled i f phase).screen = s.screen := if_neg (hm ▸ by decide)
      rw [hm, Bool.toNat_false, zero_add] at hleft
      constructor
      · rw [hleft, hscreen, h.flights]
      · rw [hscreen]
        exact h.checks
      · rw [hscreen]
        exact h.sheet
      · intro g hg hmounted
        rw [hscreen]
        exact h.order g (List.mem_of_mem_eraseIdx hg) hmounted
      · rw [hscreen]
        exact h.success
  | true =>
      have hscreen : (s.settled i f phase).screen =
          { s.screen with phase := phase, busy := s.screen.busy && !f.direct } := if_pos hm
      obtain ⟨hsending, hone, hnone⟩ := h.sending hmem hm
      rw [hm, Bool.toNat_true, hone] at hleft
      constructor
      · rw [hscreen, if_neg hdone]
        omega
      · show s.liveChecks ≤ _
        rw [hnone]
        exact Nat.zero_le _
      · rw [hscreen]
        intro hopen
        exact absurd (hsending ▸ h.sheet hopen) (by decide)
      · intro g hg hmounted
        rw [hscreen]
        exact h.order g (List.mem_of_mem_eraseIdx hg) hmounted
      · rw [hscreen]
        intro hshown
        exact ⟨f.order, h.order f hmem hm, hsuccess hshown⟩

/-- A submission goes on. -/
theorem Tidy.set (h : Tidy id s) (hf : s.flights[i]? = some f) {g : Flight} (hmounted : g.mounted = f.mounted)
    (horder : g.order = f.order) : Tidy id { s with flights := s.flights.set i g } := by
  have hsame := sum_map_set (fun f => f.mounted.toNat) hf g
  rw [hmounted] at hsame
  refine ⟨(Nat.add_left_cancel hsame).trans h.flights, h.checks, h.sheet, ?_, h.success⟩
  intro k hk hm
  rcases List.mem_or_eq_of_mem_set hk with hk | rfl
  · exact h.order k hk hm
  · rw [horder]
    exact h.order f (List.mem_of_getElem? hf) (hmounted ▸ hm)

/-- A submission of the mounted screen starts when nothing else of it runs. -/
theorem Tidy.run (h : Tidy id s) {o : DepositOrder} {awaited : Awaited} {direct mounted : Bool}
    (hfree : mounted = true → s.liveFlights = 0 ∧ s.liveChecks = 0 ∧ s.screen.consentOpen = false) :
    Tidy id (s.run o awaited direct mounted) := by
  have hmore : (s.run o awaited direct mounted).liveFlights = s.liveFlights + mounted.toNat := by
    show ((s.flights ++ [_]).map _).sum = _
    rw [List.map_append, List.sum_append, List.map_singleton, List.sum_singleton]
    rfl
  cases mounted with
  | false =>
      refine ⟨hmore.trans h.flights, h.checks, h.sheet, ?_, h.success⟩
      intro g hg hm
      rcases List.mem_append.mp hg with hg | hg
      · exact h.order g hg hm
      · rw [List.mem_singleton.mp hg] at hm
        exact absurd hm (by simp)
  | true =>
      obtain ⟨hflights, hchecks, hclosed⟩ := hfree rfl
      constructor
      · rw [hmore, hflights]
        rfl
      · show s.liveChecks ≤ _
        rw [hchecks]
        exact Nat.zero_le _
      · intro hopen
        exact absurd (hclosed ▸ hopen) (by simp)
      · intro g hg hm
        rcases List.mem_append.mp hg with hg | hg
        · have hlive := le_liveFlights hg
          rw [hm, hflights] at hlive
          exact absurd hlive (by decide)
        · rw [List.mem_singleton.mp hg]
          rfl
      · intro hshown
        exact absurd (show TransferPhase.sending = .success from hshown) (by decide)

theorem Tidy.includes (h : Tidy id s) (call : Vault.Call) (w : World) : Tidy id (s.includes call w) := by
  refine ⟨h.flights, h.checks, h.sheet, h.order, ?_⟩
  intro hshown
  obtain ⟨o, hlast, hlanded⟩ := h.success hshown
  exact ⟨o, hlast, List.mem_append_left _ hlanded⟩

theorem Tidy.replied (h : Tidy id s) {r : WriteReply} (hf : s.flights[i]? = some f) : Tidy id (s.replied i f call r) := by
  have hlets : Tidy id (s.lets f call) := by
    unfold DepositApp.lets
    split
    · exact h
    · exact ⟨h.flights, h.checks, h.sheet, h.order, h.success⟩
  have hflight : (s.lets f call).flights[i]? = some f := by rw [flights_lets, hf]
  have hrecorded : Tidy id (s.recordDeposit f.order) := ⟨h.flights, h.checks, h.sheet, h.order, h.success⟩
  cases r with
  | success =>
      unfold DepositApp.replied
      cases f.awaited with
      | consent => exact h.set (g := { f with awaited := .deposit, landed := false }) hf rfl rfl
      | deposit => exact hrecorded.set (g := { f with awaited := .floor true, landed := false }) hf rfl rfl
      | floor _ => exact hrecorded.set (g := { f with awaited := .floor true, landed := false }) hf rfl rfl
  | rejected => exact hlets.set (g := { f with awaited := .floor false, landed := false }) hflight rfl rfl
  | threw    => exact hlets.settled hflight (by decide) fun hc => absurd hc (by decide)
  | closed   => exact h.settled hf (by decide) fun hc => absurd hc (by decide)

/-- The checks of a screen whose press is answered. -/
theorem liveChecks_erase {k : ConsentCheck} (hk : s.checks[i]? = some k) :
    k.mounted.toNat + DepositApp.liveChecks { s with checks := s.checks.eraseIdx i } = s.liveChecks :=
  sum_map_eraseIdx (fun k => k.mounted.toNat) hk

/-- A check that is answered leaves nothing to ask. -/
theorem Tidy.answered (h : Tidy id s) {k : ConsentCheck} (hk : s.checks[i]? = some k) :
    Tidy id { s with checks := s.checks.eraseIdx i } := by
  have hless := liveChecks_erase hk
  refine ⟨h.flights, ?_, h.sheet, h.order, h.success⟩
  calc DepositApp.liveChecks { s with checks := s.checks.eraseIdx i }
      ≤ s.liveChecks := by omega
    _ ≤ if s.screen.Asking then 1 else 0 := h.checks

theorem Tidy.answered_none (h : Tidy id s) {k : ConsentCheck} (hk : s.checks[i]? = some k) (hm : k.mounted = true) :
    DepositApp.liveChecks { s with checks := s.checks.eraseIdx i } = 0 := by
  have hless := liveChecks_erase hk
  obtain ⟨_, hone, _⟩ := h.asking (List.mem_of_getElem? hk) hm
  rw [hm, hone, Bool.toNat_true] at hless
  omega

theorem Tidy.step (h : Tidy id s) (hmade : Made id s) (hs : DepositStep id false s a t) : Tidy id t := by
  cases hs with
  | type _ _ _ | funds | expire | other _ => exact ⟨h.flights, h.checks, h.sheet, h.order, h.success⟩
  | confirm hidle hopen =>
      unfold DepositApp.pressConfirm
      split
      · exact h
      · rename_i hpass
        have hbusy : ¬ s.screen.Asking := fun hc => hpass (.inl hc.2.2)
        have hnone := h.checks
        rw [if_neg hbusy] at hnone
        refine ⟨h.flights, ?_, h.sheet, h.order, h.success⟩
        show ((s.checks ++ [(⟨s.order, true⟩ : ConsentCheck)]).map fun k => k.mounted.toNat).sum ≤ _
        rw [List.map_append, List.sum_append]
        have hasks : DepositScreen.Asking { s.screen with busy := true } := ⟨hidle, hopen, rfl⟩
        exact (Nat.add_le_add_right hnone 1).trans_eq (if_pos hasks).symm
  | @consent i k yes hk hyes =>
      have hmem := List.mem_of_getElem? hk
      have hrest := h.answered hk
      unfold DepositApp.consentAnswered
      simp only
      split
      · refine hrest.run fun hm => ?_
        obtain ⟨hasks, _, hnone⟩ := h.asking hmem hm
        exact ⟨hnone, h.answered_none hk hm, hasks.2.1⟩
      · split
        · rename_i hm
          obtain ⟨hasks, _, _⟩ := h.asking hmem hm
          exact ⟨h.flights, (h.answered_none hk hm).trans_le (Nat.zero_le _), fun _ => hasks.1, h.order, h.success⟩
        · exact hrest
  | @consentFails i k hk =>
      unfold DepositApp.consentFailed
      cases hm : k.mounted with
      | false => exact h.answered hk
      | true  =>
          exact ⟨h.flights, (h.answered_none hk hm).trans_le (Nat.zero_le _), h.sheet, h.order, h.success⟩
  | agree hidle hopen =>
      have hnone := h.checks
      rw [if_neg fun hc => absurd (hopen ▸ hc.2.1) (by decide)] at hnone
      have hclosed : Tidy id { s with screen := { s.screen with consentOpen := false } } := by
        refine ⟨h.flights, ?_, fun hc => absurd hc (by simp), h.order, h.success⟩
        exact hnone.trans (Nat.zero_le _)
      exact hclosed.run fun _ => ⟨h.idle (hidle rfl), Nat.le_zero.mp hnone, rfl⟩
  | dismiss hopen =>
      have hnone := h.checks
      rw [if_neg fun hc => absurd (hopen ▸ hc.2.1) (by decide)] at hnone
      exact ⟨h.flights, hnone.trans (Nat.zero_le _), fun hc => absurd hc (by simp), h.order, h.success⟩
  | @lands i f call w hf hcall hnot hx =>
      have hset := h.set (g := { f with landed := true }) hf rfl rfl
      exact hset.includes call w
  | reply hf hcall hfits => exact h.replied hf
  | @elapse i f ok hf hfloor =>
      refine h.settled hf ?_ fun hc => ?_
      · split <;> decide
      · cases ok with
        | false => exact absurd hc (by decide)
        | true  => exact hmade.verdict f (List.mem_of_getElem? hf) hfloor
  | @leave c =>
      show Tidy id { s with
        screen  := .fresh c 0
        checks  := s.checks.map fun k => { k with mounted := false }
        flights := s.flights.map fun f => { f with mounted := false } }
      constructor
      · show ((s.flights.map _).map _).sum = 0
        rw [List.map_map]
        exact List.sum_eq_zero_iff.mpr fun x hx => by
          obtain ⟨f, _, rfl⟩ := List.mem_map.mp hx
          rfl
      · show ((s.checks.map _).map _).sum ≤ 0
        rw [List.map_map]
        exact le_of_eq (List.sum_eq_zero_iff.mpr fun x hx => by
          obtain ⟨k, _, rfl⟩ := List.mem_map.mp hx
          rfl)
      · intro hc
        exact absurd hc (by simp [DepositScreen.fresh])
      · intro g hg hm
        obtain ⟨f, _, rfl⟩ := List.mem_map.mp hg
        exact absurd hm (by simp)
      · intro hc
        exact absurd hc (by simp [DepositScreen.fresh])
  | back hstays _ => exact absurd hstays (by decide)
  | @late j call w hj hx =>
      have hmore := h.includes call w
      exact ⟨hmore.flights, hmore.checks, hmore.sheet, hmore.order, hmore.success⟩

/-! ## What is shown -/

/-- **What the mounted screen shows is what it submits.** -/
structure Shown (s : DepositApp) : Prop where
  checks  : ∀ k ∈ s.checks, k.mounted = true → k.order = s.order
  flights : ∀ f ∈ s.flights, f.mounted = true → f.order = s.order
  success : s.screen.phase = .success → s.screen.last = some s.order

/-- Nothing is typed while the mounted form waits for an answer. -/
def Patient (e : Event DepositApp DepositAct) : Prop :=
  match e.label with
  | .type _ => e.pre.liveChecks = 0
  | _       => True

theorem Shown.settled (h : Shown s) (hf : s.flights[i]? = some f) {phase : TransferPhase}
    (hlast : f.mounted = true → s.screen.last = some f.order) : Shown (s.settled i f phase) := by
  have hmem := List.mem_of_getElem? hf
  cases hm : f.mounted with
  | false =>
      have hscreen : (s.settled i f phase).screen = s.screen := if_neg (hm ▸ by decide)
      have horder : (s.settled i f phase).order = s.order := by
        unfold DepositApp.order
        rw [hscreen]
      constructor
      · intro k hk hmounted
        rw [horder]
        exact h.checks k hk hmounted
      · intro g hg hmounted
        rw [horder]
        exact h.flights g (List.mem_of_mem_eraseIdx hg) hmounted
      · rw [horder, hscreen]
        exact h.success
  | true =>
      have hscreen : (s.settled i f phase).screen =
          { s.screen with phase := phase, busy := s.screen.busy && !f.direct } := if_pos hm
      have horder : (s.settled i f phase).order = s.order := by
        unfold DepositApp.order
        rw [hscreen]
        rfl
      constructor
      · intro k hk hmounted
        rw [horder]
        exact h.checks k hk hmounted
      · intro g hg hmounted
        rw [horder]
        exact h.flights g (List.mem_of_mem_eraseIdx hg) hmounted
      · rw [horder, hscreen]
        intro _
        exact (hlast hm).trans (congrArg some (h.flights f hmem hm))

theorem Shown.set (h : Shown s) (hf : s.flights[i]? = some f) {g : Flight} (hmounted : g.mounted = f.mounted)
    (horder : g.order = f.order) : Shown { s with flights := s.flights.set i g } := by
  refine ⟨h.checks, ?_, h.success⟩
  intro k hk hm
  rcases List.mem_or_eq_of_mem_set hk with hk | rfl
  · exact h.flights k hk hm
  · rw [horder]
    exact h.flights f (List.mem_of_getElem? hf) (hmounted ▸ hm)

theorem Shown.run (h : Shown s) {o : DepositOrder} {awaited : Awaited} {direct mounted : Bool}
    (ho : mounted = true → o = s.order) : Shown (s.run o awaited direct mounted) := by
  have horder : (s.run o awaited direct mounted).order = s.order := by
    cases mounted <;> rfl
  constructor
  · intro k hk hm
    rw [horder]
    exact h.checks k hk hm
  · intro g hg hm
    rw [horder]
    rcases List.mem_append.mp hg with hg | hg
    · exact h.flights g hg hm
    · rw [List.mem_singleton.mp hg] at hm ⊢
      exact ho hm
  · rw [horder]
    cases mounted with
    | false => exact h.success
    | true  => exact fun hc => absurd (show TransferPhase.sending = .success from hc) (by decide)

theorem Shown.replied (h : Shown s) (ht : Tidy id s) {r : WriteReply} (hf : s.flights[i]? = some f) :
    Shown (s.replied i f call r) := by
  have hlast := ht.order f (List.mem_of_getElem? hf)
  have hlets : Shown (s.lets f call) ∧ (s.lets f call).screen = s.screen := by
    unfold DepositApp.lets
    split
    · exact ⟨h, rfl⟩
    · exact ⟨⟨h.checks, h.flights, h.success⟩, rfl⟩
  have hflight : (s.lets f call).flights[i]? = some f := by rw [flights_lets, hf]
  have hrecorded : Shown (s.recordDeposit f.order) := ⟨h.checks, h.flights, h.success⟩
  cases r with
  | success =>
      unfold DepositApp.replied
      cases f.awaited with
      | consent => exact h.set (g := { f with awaited := .deposit, landed := false }) hf rfl rfl
      | deposit => exact hrecorded.set (g := { f with awaited := .floor true, landed := false }) hf rfl rfl
      | floor _ => exact hrecorded.set (g := { f with awaited := .floor true, landed := false }) hf rfl rfl
  | rejected => exact hlets.1.set (g := { f with awaited := .floor false, landed := false }) hflight rfl rfl
  | threw    =>
      refine hlets.1.settled hflight fun hm => ?_
      rw [hlets.2]
      exact hlast hm
  | closed   => exact h.settled hf hlast

theorem Shown.step (h : Shown s) (ht : Tidy id s) (hs : DepositStep id false s a t) (hp : Patient ⟨s, a, t⟩) :
    Shown t := by
  cases hs with
  | type hidle _ _ =>
      have hnone : s.liveChecks = 0 := hp
      -- the form is typed into when nothing of it runs
      constructor
      · intro k hk hm
        have hone : k.mounted.toNat ≤ s.liveChecks := le_liveChecks hk
        rw [show k.mounted = true from hm, hnone] at hone
        exact absurd hone (by decide)
      · intro f hf hm
        have hone : f.mounted.toNat ≤ s.liveFlights := le_liveFlights hf
        rw [show f.mounted = true from hm, ht.idle hidle] at hone
        exact absurd hone (by decide)
      · intro hc
        exact absurd (hidle.symm.trans (show s.screen.phase = .success from hc)) (by decide)
  | funds | expire | other _ | dismiss _ => exact ⟨h.checks, h.flights, h.success⟩
  | confirm _ _ =>
      unfold DepositApp.pressConfirm
      split
      · exact h
      · refine ⟨?_, h.flights, h.success⟩
        intro k hk hm
        rcases List.mem_append.mp hk with hk | hk
        · exact h.checks k hk hm
        · rw [List.mem_singleton.mp hk]
          rfl
  | @consent i k yes hk _ =>
      have hrest : Shown { s with checks := s.checks.eraseIdx i } :=
        ⟨fun k hk => h.checks k (List.mem_of_mem_eraseIdx hk), h.flights, h.success⟩
      unfold DepositApp.consentAnswered
      simp only
      split
      · exact hrest.run fun hm => h.checks k (List.mem_of_getElem? hk) hm
      · split
        · exact ⟨hrest.checks, hrest.flights, hrest.success⟩
        · exact hrest
  | @consentFails i k hk =>
      have hrest : Shown { s with checks := s.checks.eraseIdx i } :=
        ⟨fun k hk => h.checks k (List.mem_of_mem_eraseIdx hk), h.flights, h.success⟩
      unfold DepositApp.consentFailed
      cases k.mounted with
      | false => exact hrest
      | true  => exact ⟨hrest.checks, hrest.flights, hrest.success⟩
  | agree _ _ =>
      have hclosed : Shown { s with screen := { s.screen with consentOpen := false } } :=
        ⟨h.checks, h.flights, h.success⟩
      exact hclosed.run fun _ => rfl
  | @lands i f call w hf _ _ _ =>
      have hset := h.set (g := { f with landed := true }) hf rfl rfl
      exact ⟨hset.checks, hset.flights, hset.success⟩
  | reply hf _ _ => exact h.replied ht hf
  | @elapse i f ok hf _ => exact h.settled hf (ht.order f (List.mem_of_getElem? hf))
  | @leave c =>
      constructor
      · intro k hk hm
        obtain ⟨k, _, rfl⟩ := List.mem_map.mp hk
        exact absurd hm (by simp)
      · intro g hg hm
        obtain ⟨f, _, rfl⟩ := List.mem_map.mp hg
        exact absurd hm (by simp)
      · intro hc
        exact absurd (show TransferPhase.idle = .success from hc) (by decide)
  | back hstays _ => exact absurd hstays (by decide)
  | late _ _ => exact ⟨h.checks, h.flights, h.success⟩

/-! ## Over whole visits -/

/-- Nothing has been started on this page. -/
structure DepositApp.Opened (s : DepositApp) : Prop where
  landed  : s.landed = []
  checks  : s.checks = []
  flights : s.flights = []
  screen  : ∃ c available, s.screen = .fresh c available

theorem DepositApp.Opened.made (h : s.Opened) : Made id s where
  landed f hf  := absurd (h.flights ▸ hf) (by simp)
  verdict f hf := absurd (h.flights ▸ hf) (by simp)

theorem DepositApp.Opened.tidy (h : s.Opened) : Tidy id s := by
  obtain ⟨c, available, hscreen⟩ := h.screen
  constructor
  · unfold DepositApp.liveFlights
    rw [h.flights, hscreen]
    rfl
  · unfold DepositApp.liveChecks
    rw [h.checks]
    exact Nat.zero_le _
  · rw [hscreen]
    exact fun _ => rfl
  · intro f hf
    exact absurd (h.flights ▸ hf) (by simp)
  · rw [hscreen]
    exact fun hc => absurd (show TransferPhase.idle = .success from hc) (by decide)

theorem DepositApp.Opened.shown (h : s.Opened) : Shown s := by
  obtain ⟨c, available, hscreen⟩ := h.screen
  constructor
  · intro k hk
    exact absurd (h.checks ▸ hk) (by simp)
  · intro f hf
    exact absurd (h.flights ▸ hf) (by simp)
  · rw [hscreen]
    exact fun hc => absurd (show TransferPhase.idle = .success from hc) (by decide)

theorem DepositApp.Opened.gap_eq (h : s.Opened) (c : Currency) : s.gap c = - s.ledger c := by
  unfold DepositApp.gap DepositApp.unanswered deposits
  rw [h.landed, h.flights]
  simp

/-- **The contributions never run ahead of the vault.** Whatever a user does on the deposit screens, in whatever
    order the writes land and are answered: what their deposits brought the vault is what the contributions have
    grown by, with what still waits for its answer and what the screens did not hear of, which is never negative. A
    screen that is left unmounted runs one submission at a time, and shows a success only of a deposit that landed:
    the one it shows, unless something was typed while the consent was asked for. -/
theorem deposit_books {tr : List (Event DepositApp DepositAct)} (h : Run (DepositStep id stays) s tr t)
    (hs : s.Opened) :
    (∀ c, deposits c t.landed = (t.ledger c - s.ledger c) + t.unanswered c + (tr.map (unheard c)).sum) ∧
      (∀ c, t.ledger c - s.ledger c ≤ deposits c t.landed) ∧
      (stays = false → t.liveFlights ≤ 1 ∧
        (t.screen.phase = .success → ∃ o, t.screen.last = some o ∧ o.call id ∈ t.landed) ∧
        ((∀ e ∈ tr, Patient e) → t.screen.phase = .success → t.order.call id ∈ t.landed)) := by
  have hbooks : ∀ c,
      deposits c t.landed = (t.ledger c - s.ledger c) + t.unanswered c + (tr.map (unheard c)).sum := by
    intro c
    have hgap := h.sum_eq (DepositApp.gap c) (unheard c) fun e he => gap_step (h.forall_step e he)
    rw [hs.gap_eq] at hgap
    unfold DepositApp.gap at hgap
    omega
  have hmade : Made id t := h.invariant (fun _ _ _ hi hst => Made.step hi hst) hs.made
  refine ⟨hbooks, ?_, ?_⟩
  · intro c
    have hwaits : 0 ≤ t.unanswered c := by
      refine sum_map_nonneg _ _ fun f hf => ?_
      unfold Flight.unanswered
      split
      · rename_i hdeposit
        exact le_of_lt (hmade.landed f hf hdeposit.2.1 hdeposit.1).2
      · exact le_refl _
    have hhidden : 0 ≤ (tr.map (unheard c)).sum := by
      refine sum_map_nonneg _ _ fun e he => ?_
      have hpre := (h.invariant_events (fun _ _ _ hi hst => Made.step hi hst) hs.made e he).1
      exact unheard_nonneg hpre (h.forall_step e he)
    have := hbooks c
    omega
  · rintro rfl
    have hboth : Made id t ∧ Tidy id t :=
      h.invariant (P := fun s => Made id s ∧ Tidy id s) (fun _ _ _ hi hst => ⟨hi.1.step hst, hi.2.step hi.1 hst⟩)
        ⟨hs.made, hs.tidy⟩
    obtain ⟨-, htidy⟩ := hboth
    refine ⟨?_, htidy.success, ?_⟩
    · rw [htidy.flights]
      split <;> decide
    · intro hpatient hshown
      obtain ⟨⟨-, -, hall⟩, -⟩ := h.invariant_under (I := fun s => Made id s ∧ Tidy id s ∧ Shown s) (P := fun _ => True)
        (fun s a t hi hst hq => ⟨trivial, hi.1.step hst, hi.2.1.step hi.1 hst, hi.2.2.step hi.2.1 hst hq⟩)
        ⟨hs.made, hs.tidy, hs.shown⟩ hpatient
      obtain ⟨o, hlast, hlanded⟩ := htidy.success hshown
      obtain rfl := Option.some.inj ((hall.success hshown).symm.trans hlast)
      exact hlanded

/-! ## A first deposit -/

/-- The deposit page of a vault that holds nothing yet. -/
def firstVisit : DepositApp where
  world   := (World.opening 1000 5000).after (setUpPool .usd (.contract 100) 1 1000)
  landed  := []
  loose   := []
  ledger  := fun _ => 0
  screen  := .fresh .usd 0
  checks  := []
  flights := []

theorem opened_firstVisit : firstVisit.Opened := ⟨rfl, rfl, rfl, .usd, 0, rfl⟩

/-- What account 2 has typed. -/
def firstForm : DepositApp :=
  { firstVisit with screen := { firstVisit.screen with amount := "0.00005".toList, available := 5000 } }

theorem firstForm_reads : toAmount "0.00005".toList = .ok 500 := by decide +kernel

theorem firstForm_order : firstForm.order = ⟨.usd, 500⟩ := by
  show DepositOrder.mk _ ((toAmount "0.00005".toList).toOption.getD 0) = _
  rw [firstForm_reads]
  rfl

theorem firstForm_confirm : firstForm.pressConfirm =
    { firstForm with screen := { firstForm.screen with busy := true }, checks := [⟨firstForm.order, true⟩] } :=
  if_neg (by decide +kernel)

/-- Account 2 types an amount, presses, agrees, and waits until the success shows: it is what the vault took. -/
theorem deposit_books_firstVisit :
    ∃ tr t, Run (DepositStep 2 false) firstVisit tr t ∧ t.screen.phase = .success ∧ t.ledger .usd = 500 ∧
      deposits .usd t.landed = 500 ∧ t.order.call 2 ∈ t.landed := by
  have hboth : (do
      let w ← (Vault.Call.setPolicyConsent (.account 2)).exec (Auth.signers [2]) firstVisit.world
      (Vault.Call.deposit (.account 2) .usd 500).exec (Auth.signers [2]) w).isOk = true := by decide +kernel
  obtain ⟨w₂, hboth⟩ := isOk_iff.mp hboth
  obtain ⟨w₁, hconsent, hdeposit⟩ := bind_eq_ok.mp hboth
  have hform : Run (DepositStep 2 false) firstVisit _ firstForm :=
    .cons (.funds (a := 5000)) (.single (.type rfl rfl firstForm_reads))
  have hpress : DepositStep 2 false firstForm .confirm firstForm.pressConfirm := .confirm rfl rfl
  rw [firstForm_confirm, firstForm_order] at hpress
  have hasked := hform.append (.single hpress)
  have hopened := hasked.append (.single (@DepositStep.consent _ _ _ 0 _ false rfl fun hc => absurd hc (by decide)))
  have hagreed := hopened.append (.single (.agree (fun _ => rfl) rfl))
  have hmandate := hagreed.append (.single (.lands (i := 0) rfl rfl rfl hconsent))
  have hanswered := hmandate.append (.single (.reply (i := 0) (r := .success) rfl rfl rfl))
  have hlanded := hanswered.append (.single (.lands (i := 0) (w := w₂) rfl rfl rfl (by
    show (firstForm.order.call 2).exec _ w₁ = _
    rw [firstForm_order]
    exact hdeposit)))
  have hbooked := hlanded.append (.single (.reply (i := 0) (r := .success) rfl rfl rfl))
  have hdone := hbooked.append (.single (.elapse (i := 0) rfl rfl))
  obtain ⟨hbooks, -, hscreen⟩ := deposit_books hdone opened_firstVisit
  obtain ⟨-, -, hshown⟩ := hscreen rfl
  have hledger : (0 : Int) + firstForm.order.amount = 500 := by rw [firstForm_order, zero_add]
  refine ⟨_, _, hdone, rfl, hledger, (hbooks .usd).trans ?_, hshown ?_ rfl⟩
  · show 0 + firstForm.order.amount - 0 + 0 + 0 = 500
    rw [hledger]
    rfl
  · simp [Patient, DepositApp.liveChecks, firstVisit]

end SoroSense.Frontend
