import SoroSense.JsText

/-!
# `Backend.DemoSeed` — the amounts of the seed script

`scripts/demo-seed.ts`: `toBaseUnits` takes a decimal of at most seven places and nothing else, `parseAmount`
also wants it positive, and `formatUnits` prints base units without trailing zeros.
-/

namespace SoroSense.Backend.DemoSeed

open Fallible Text

/-- Base units per whole unit. -/
def UNIT : Int := 10000000

def DEFAULT_AMOUNT : Text := "100".toList

/-- `/^\d+(\.\d{1,7})?$/.test(text)`. -/
def isAmount (t : Text) : Bool :=
  t.takeWhile Char.isDigit != [] &&
    match t.dropWhile Char.isDigit with
    | []            => true
    | c :: fraction => c == '.' && fraction.all Char.isDigit && 1 ≤ fraction.length && fraction.length ≤ 7

def toBaseUnits (decimal : Text) : Except Thrown Int :=
  let text := trim decimal
  if !isAmount text then
    .error (.error ("invalid amount: ".toList ++ decimal ++
      " (expected a decimal with up to 7 places, e.g. 12.5)".toList))
  else do
    let (whole, fraction) := wholeAndFraction text
    let w ← bigInt whole
    let f ← bigInt (padEnd 7 fraction)
    .ok (w * UNIT + f)

/-- Zero and negatives are rejected before anything is signed. -/
def parseAmount (raw : Option Text) : Except Thrown Int := do
  let raw := raw.getD DEFAULT_AMOUNT
  let base ← toBaseUnits raw
  if base ≤ 0 then .error (.error ("invalid amount: ".toList ++ raw ++ " (must be greater than zero)".toList))
  else .ok base

def formatUnits (base : Int) : Text :=
  let whole := base.tdiv UNIT
  let fraction := (padStart 7 (ofInt (base.tmod UNIT))).rdropWhile (· = '0')
  if fraction ≠ [] then ofInt whole ++ '.' :: fraction else ofInt whole

/-! ## What is accepted -/

variable {t : Text} {d : Decimal}

/-- The texts the pattern matches are decimals of at most seven places. -/
theorem isAmount_iff : isAmount t = true ↔
    ∃ d : Decimal, d.Reads t ∧ d.frac.length ≤ 7 ∧ (d.frac = [] → t = d.whole) := by
  constructor
  · intro h
    unfold isAmount at h
    obtain ⟨hwhole, hrest⟩ := (Bool.and_eq_true _ _).mp h
    have hne : t.takeWhile Char.isDigit ≠ [] := bne_iff_ne.mp hwhole
    have hdigits : ∀ c ∈ t.takeWhile Char.isDigit, c.isDigit = true := fun c hc => List.mem_takeWhile_imp hc
    have hsplit := List.takeWhile_append_dropWhile (p := Char.isDigit) (l := t)
    cases hd : t.dropWhile Char.isDigit with
    | nil =>
        rw [hd, List.append_nil] at hsplit
        exact ⟨⟨_, [], hne, hdigits, by simp⟩, .inl ⟨hsplit.symm, rfl⟩, by simp, fun _ => hsplit.symm⟩
    | cons c fraction =>
        rw [hd] at hrest hsplit
        simp only [Bool.and_eq_true, beq_iff_eq, List.all_eq_true, decide_eq_true_eq] at hrest
        obtain ⟨⟨⟨rfl, hfrac⟩, hone⟩, hseven⟩ := hrest
        refine ⟨⟨_, fraction, hne, hdigits, hfrac⟩, .inr hsplit.symm, hseven, ?_⟩
        rintro rfl
        exact absurd hone (by decide)
  · rintro ⟨d, hreads, hlen, hbare⟩
    have htake : ∀ rest : Text, (∀ c, rest.head? = some c → c.isDigit = false) →
        (d.whole ++ rest).takeWhile Char.isDigit = d.whole ∧ (d.whole ++ rest).dropWhile Char.isDigit = rest := by
      intro rest hrest
      rw [List.takeWhile_append_of_pos d.whole_digits, List.dropWhile_append_of_pos d.whole_digits]
      cases rest with
      | nil => exact ⟨List.append_nil _, rfl⟩
      | cons c rest =>
          have hc : ¬ c.isDigit = true := by rw [hrest c rfl]; decide
          rw [List.takeWhile_cons_of_neg hc, List.dropWhile_cons_of_neg hc]
          exact ⟨List.append_nil _, rfl⟩
    unfold isAmount
    by_cases hfrac : d.frac = []
    · obtain ⟨h₁, h₂⟩ := htake [] (by simp)
      rw [List.append_nil] at h₁ h₂
      rw [hbare hfrac, h₁, h₂]
      exact (Bool.and_eq_true _ _).mpr ⟨bne_iff_ne.mpr d.whole_ne, rfl⟩
    · have ht : t = d.whole ++ '.' :: d.frac := hreads.resolve_left (fun h => hfrac h.2)
      obtain ⟨h₁, h₂⟩ := htake ('.' :: d.frac) (by rintro c hc; cases Option.some.inj hc; rfl)
      rw [ht, h₁, h₂]
      have hpos : 1 ≤ d.frac.length := List.length_pos_iff.mpr hfrac
      simp only [Bool.and_eq_true, bne_iff_ne, ne_eq, d.whole_ne, not_false_eq_true, beq_self_eq_true,
        List.all_eq_true, decide_eq_true_eq, hpos, hlen, and_true, true_and]
      exact d.frac_digits

/-- **What `toBaseUnits` makes of a decimal it accepts.** -/
theorem toBaseUnits_of_reads (hreads : d.Reads (trim t)) (hamount : isAmount (trim t) = true)
    (hlen : d.frac.length ≤ 7) : toBaseUnits t = .ok (d.fixed 7 : Int) := by
  have hplaces : Decimal.places 7 d.frac ≠ [] := by
    apply List.ne_nil_of_length_pos
    rw [Decimal.length_places]
    decide
  unfold toBaseUnits
  simp only [hamount, Bool.not_true, Bool.false_eq_true, if_false]
  rw [wholeAndFraction_of_reads hreads]
  show bigInt d.whole >>= (fun w => bigInt (padEnd 7 d.frac) >>= fun f => .ok (w * UNIT + f)) = _
  rw [bigInt_of_digits d.whole_digits d.whole_ne, padEnd_of_le hlen,
    bigInt_of_digits (Decimal.places_digits d.frac_digits) hplaces]
  show Except.ok ((Decimal.digitsVal d.whole : Int) * UNIT + _) = _
  unfold Decimal.fixed UNIT
  push_cast
  rfl

/-- **What `toBaseUnits` accepts is a decimal of at most seven places, and it returns its exact value.** -/
theorem toBaseUnits_eq_ok {n : Int} (h : toBaseUnits t = .ok n) :
    ∃ d : Decimal, d.Reads (trim t) ∧ d.frac.length ≤ 7 ∧ n = d.fixed 7 := by
  have hamount : isAmount (trim t) = true := by
    by_contra hno
    unfold toBaseUnits at h
    simp only [Bool.not_eq_true] at hno
    simp [hno] at h
  obtain ⟨d, hreads, hlen, _⟩ := isAmount_iff.mp hamount
  rw [toBaseUnits_of_reads hreads hamount hlen] at h
  exact ⟨d, hreads, hlen, (Except.ok.inj h).symm⟩

/-! ## What is printed -/

/-- Base units that are not negative print as their decimal, trailing zeros dropped. -/
theorem formatUnits_reads (b : ℕ) :
    (Decimal.ofFixed 7 b).trimmed.Reads (formatUnits (b : Int)) ∧ isAmount (formatUnits (b : Int)) = true := by
  obtain ⟨hwhole, hpadded⟩ := ofInt_parts (n := 7) (u := UNIT) (by decide) b
  have hlen : (Decimal.ofFixed 7 b).trimmed.frac.length ≤ 7 := by
    have hle := (List.rdropWhile_prefix (p := (· = '0')) (l := (Decimal.ofFixed 7 b).frac)).length_le
    rwa [Decimal.length_ofFixed_frac (by decide)] at hle
  have hformat : formatUnits (b : Int) =
      if (Decimal.ofFixed 7 b).trimmed.frac ≠ [] then
        (Decimal.ofFixed 7 b).trimmed.whole ++ '.' :: (Decimal.ofFixed 7 b).trimmed.frac
      else (Decimal.ofFixed 7 b).trimmed.whole := by
    unfold formatUnits
    simp only [hwhole, hpadded]
    rfl
  by_cases hnil : (Decimal.ofFixed 7 b).trimmed.frac = []
  · rw [hformat, if_neg (not_not.mpr hnil)]
    have hreads : (Decimal.ofFixed 7 b).trimmed.Reads (Decimal.ofFixed 7 b).trimmed.whole := .inl ⟨rfl, hnil⟩
    exact ⟨hreads, isAmount_iff.mpr ⟨_, hreads, hlen, fun _ => rfl⟩⟩
  · rw [hformat, if_pos hnil]
    exact ⟨.inr rfl, isAmount_iff.mpr ⟨_, .inr rfl, hlen, fun h => absurd h hnil⟩⟩

/-- **Printing and reading back is the identity.** -/
theorem toBaseUnits_formatUnits (b : ℕ) : toBaseUnits (formatUnits (b : Int)) = .ok (b : Int) := by
  obtain ⟨hreads, hamount⟩ := formatUnits_reads b
  have htrim := trim_of_reads hreads
  obtain ⟨d, hd, hlen, _⟩ := isAmount_iff.mp hamount
  cases hd.unique hreads
  rw [toBaseUnits_of_reads (htrim.symm ▸ hreads) (htrim.symm ▸ hamount) hlen,
    Decimal.fixed_ofFixed_trimmed (by decide)]

end SoroSense.Backend.DemoSeed
