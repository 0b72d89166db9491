import SoroSense.JsText

/-!
# `Frontend.Units` — the amounts a user types

`frontend/lib/vault/units.ts` and `sanitize.ts`. `sanitizeAmount` makes a decimal of any input, `toAmount`
reads a decimal into base units and cuts it at seven places, `fromAmount` prints base units with two.

What `sanitizeAmount` returns is `Sanitized`: the text of a decimal without redundant zeros in front.
-/

namespace SoroSense.Frontend

open Fallible Text

/-- Stablecoin base unit, seven decimals. -/
def UNIT : Int := 10000000

/-- Commas are allowed, dust below the base unit is cut. -/
def toAmount (decimal : Text) : Except Thrown Int :=
  let cleaned := trim (decimal.filter (· ≠ ','))
  if cleaned = [] ∨ cleaned = ['.'] then .ok 0
  else do
    let (whole, frac) := wholeAndFraction cleaned
    let fracPadded := (frac ++ "0000000".toList).take 7
    let w ← bigInt whole
    let f ← bigInt (if fracPadded = [] then ['0'] else fracPadded)
    .ok (w * UNIT + f)

/-- Base units as a decimal of two places. -/
def fromAmount (a : Int) : Text :=
  let whole := a.tdiv UNIT
  let frac := (padStart 7 (ofInt (a.tmod UNIT))).take 2
  ofInt whole ++ '.' :: frac

/-! ## `sanitizeAmount` -/

/-- Every dot behind the first one goes. -/
def firstDot : Text → Text
  | []        => []
  | c :: rest => if c = '.' then c :: rest.filter (· ≠ '.') else c :: firstDot rest

/-- `v.replace(/^0+(?=\d)/, "")`. -/
def dropZeros : Text → Text
  | c :: d :: rest => if c = '0' ∧ d.isDigit = true then dropZeros (d :: rest) else c :: d :: rest
  | v              => v

def sanitizeAmount (raw : Text) : Text :=
  let v := (raw.map fun c => if c = ',' then '.' else c).filter fun c => c.isDigit || c = '.'
  let v := dropZeros (firstDot v)
  let v := if v.head? = some '.' then '0' :: v else v
  if v = [] then ['0'] else v

/-- The text of a decimal without redundant zeros in front. -/
def Sanitized (v : Text) : Prop :=
  ∃ d : Decimal, d.Reads v ∧ (d.whole.head? = some '0' → d.whole = ['0'])

/-! ## Reading -/

variable {t v whole frac rest : Text} {d : Decimal}

/-- **What `toAmount` makes of a decimal**: its value, cut at seven places. -/
theorem toAmount_of_reads (h : d.Reads t) : toAmount t = .ok (d.fixed 7 : Int) := by
  have hcomma : t.filter (· ≠ ',') = t := by
    apply List.filter_eq_self.mpr
    intro c hc
    rcases h.chars c hc with hdigit | rfl
    · apply decide_eq_true
      rintro rfl
      exact absurd hdigit (by decide)
    · decide
  have hfull : ¬ (t = [] ∨ t = ['.']) := by
    rcases h with ⟨rfl, _⟩ | rfl
    · rintro (hnil | hdot)
      · exact d.whole_ne hnil
      · exact absurd (d.whole_digits '.' (by rw [hdot]; exact List.mem_singleton_self _)) (by decide)
    · rintro (hnil | hdot)
      · exact absurd hnil (by simp)
      · obtain ⟨c, l, hc⟩ := List.exists_cons_of_ne_nil d.whole_ne
        rw [hc] at hdot
        simp at hdot
  have hplaces : Decimal.places 7 d.frac ≠ [] := by
    apply List.ne_nil_of_length_pos
    rw [Decimal.length_places]
    decide
  unfold toAmount
  simp only [hcomma, trim_of_reads h, if_neg hfull, wholeAndFraction_of_reads h]
  show bigInt d.whole >>= (fun w => bigInt (if Decimal.places 7 d.frac = [] then ['0'] else Decimal.places 7 d.frac)
    >>= fun f => .ok (w * UNIT + f)) = _
  rw [if_neg hplaces, bigInt_of_digits d.whole_digits d.whole_ne,
    bigInt_of_digits (Decimal.places_digits d.frac_digits) hplaces]
  show Except.ok ((Decimal.digitsVal d.whole : Int) * UNIT + _) = _
  unfold Decimal.fixed UNIT
  push_cast
  rfl

/-- Base units that are not negative print as their decimal, cut at two places. -/
theorem fromAmount_reads (b : ℕ) : ((Decimal.ofFixed 7 b).cut 2).Reads (fromAmount (b : Int)) := by
  obtain ⟨hwhole, hfrac⟩ := ofInt_parts (n := 7) (u := UNIT) (by decide) b
  right
  unfold fromAmount
  simp only [hwhole, hfrac]
  rfl

/-! ## What `sanitizeAmount` returns -/

/-- The first dot splits the digits in two. -/
theorem firstDot_shape (h : ∀ c ∈ v, c.isDigit = true ∨ c = '.') :
    ∃ whole frac : Text, (∀ c ∈ whole, c.isDigit = true) ∧ (∀ c ∈ frac, c.isDigit = true) ∧
      (firstDot v = whole ∧ frac = [] ∨ firstDot v = whole ++ '.' :: frac) := by
  induction v with
  | nil => exact ⟨[], [], by simp, by simp, .inl ⟨rfl, rfl⟩⟩
  | cons c v ih =>
      have hv : ∀ x ∈ v, x.isDigit = true ∨ x = '.' := fun x hx => h x (List.mem_cons_of_mem c hx)
      rw [firstDot]
      by_cases hc : c = '.'
      · refine ⟨[], v.filter (· ≠ '.'), by simp, ?_, .inr ?_⟩
        · intro x hx
          obtain ⟨hmem, hne⟩ := List.mem_filter.mp hx
          exact (hv x hmem).resolve_right (of_decide_eq_true hne)
        · rw [if_pos hc, hc]
          rfl
      · obtain ⟨whole, frac, hwhole, hfrac, hshape⟩ := ih hv
        have hdigit : c.isDigit = true := (h c List.mem_cons_self).resolve_right hc
        refine ⟨c :: whole, frac, ?_, hfrac, ?_⟩
        · intro x hx
          rcases List.mem_cons.mp hx with rfl | hx
          · exact hdigit
          · exact hwhole x hx
        · rw [if_neg hc]
          rcases hshape with ⟨hbare, hnil⟩ | hdot
          · exact .inl ⟨by rw [hbare], hnil⟩
          · exact .inr (by rw [hdot]; rfl)

/-- A text whose only dot is the first one keeps it. -/
theorem firstDot_of_reads (h : d.Reads v) : firstDot v = v := by
  have hkeep : ∀ (l rest : Text), (∀ c ∈ l, c.isDigit = true) → firstDot (l ++ rest) = l ++ firstDot rest := by
    intro l rest hl
    induction l with
    | nil => rfl
    | cons c l ih =>
        rw [List.cons_append, firstDot, if_neg (Decimal.not_dot_of_digit (hl c List.mem_cons_self)),
          ih (fun x hx => hl x (List.mem_cons_of_mem c hx))]
        rfl
  rcases h with ⟨rfl, _⟩ | rfl
  · have hbare := hkeep d.whole [] d.whole_digits
    rwa [List.append_nil, show firstDot [] = [] from rfl, List.append_nil] at hbare
  · rw [hkeep d.whole _ d.whole_digits, firstDot, if_pos rfl]
    congr 2
    apply List.filter_eq_self.mpr
    intro c hc
    exact decide_eq_true (Decimal.not_dot_of_digit (d.frac_digits c hc))

/-- The zeros in front are dropped up to the last digit before the dot. -/
theorem dropZeros_shape (hrest : rest.head? = none ∨ rest.head? = some '.')
    (h : ∀ c ∈ whole, c.isDigit = true) :
    ∃ left : Text, dropZeros (whole ++ rest) = left ++ rest ∧ (∀ c ∈ left, c.isDigit = true) ∧
      (left.head? = some '0' → left = ['0']) ∧ ((whole.head? = some '0' → whole = ['0']) → left = whole) := by
  induction whole with
  | nil =>
      refine ⟨[], ?_, by simp, by simp, fun _ => rfl⟩
      rw [List.nil_append]
      cases rest with
      | nil => rfl
      | cons c rest =>
          have hc : c = '.' := by simpa using hrest
          cases rest with
          | nil => rfl
          | cons d rest =>
              rw [dropZeros, if_neg]
              rintro ⟨hzero, _⟩
              rw [hc] at hzero
              exact absurd hzero (by decide)
  | cons c whole ih =>
      have hwhole : ∀ x ∈ whole, x.isDigit = true := fun x hx => h x (List.mem_cons_of_mem c hx)
      by_cases hc : c = '0'
      · subst hc
        cases whole with
        | nil =>
            -- the last digit stays, zero or not
            refine ⟨['0'], ?_, h, fun _ => rfl, fun _ => rfl⟩
            cases rest with
            | nil => rfl
            | cons d rest =>
                have hd : d = '.' := by simpa using hrest
                show dropZeros ('0' :: d :: rest) = '0' :: d :: rest
                rw [dropZeros, if_neg]
                rintro ⟨_, hdigit⟩
                rw [hd] at hdigit
                exact absurd hdigit (by decide)
        | cons d whole =>
            obtain ⟨left, heq, hdigits, hzero, _⟩ := ih hwhole
            refine ⟨left, ?_, hdigits, hzero, fun hone => absurd (hone rfl) (by simp)⟩
            show dropZeros ('0' :: d :: (whole ++ rest)) = left ++ rest
            rw [dropZeros, if_pos ⟨rfl, hwhole d List.mem_cons_self⟩]
            exact heq
      · refine ⟨c :: whole, ?_, h, ?_, fun _ => rfl⟩
        · show dropZeros (c :: (whole ++ rest)) = c :: (whole ++ rest)
          cases whole ++ rest with
          | nil => rfl
          | cons d l =>
              rw [dropZeros, if_neg (fun hzero => hc hzero.1)]
        · intro hhead
          exact absurd (Option.some.inj hhead) hc

/-- **Every input is made the text of a decimal.** -/
theorem sanitized_sanitizeAmount (raw : Text) : Sanitized (sanitizeAmount raw) := by
  have hchars : ∀ c ∈ (raw.map fun c => if c = ',' then '.' else c).filter (fun c => c.isDigit || c = '.'),
      c.isDigit = true ∨ c = '.' := by
    intro c hc
    simpa using (List.mem_filter.mp hc).2
  obtain ⟨whole, frac, hwhole, hfrac, hshape⟩ := firstDot_shape hchars
  -- behind the digits comes nothing or the dot
  have hsplit : ∃ rest : Text, firstDot ((raw.map fun c => if c = ',' then '.' else c).filter
      (fun c => c.isDigit || c = '.')) = whole ++ rest ∧ (rest = [] ∧ frac = [] ∨ rest = '.' :: frac) := by
    rcases hshape with ⟨hbare, hnil⟩ | hdot
    · exact ⟨[], by rw [hbare, List.append_nil], .inl ⟨rfl, hnil⟩⟩
    · exact ⟨_, hdot, .inr rfl⟩
  obtain ⟨rest, heq, hrest⟩ := hsplit
  have hhead : rest.head? = none ∨ rest.head? = some '.' := by
    rcases hrest with ⟨rfl, _⟩ | rfl
    · exact .inl rfl
    · exact .inr rfl
  obtain ⟨left, hdrop, hleft, hzero, _⟩ := dropZeros_shape hhead hwhole
  unfold sanitizeAmount
  simp only [heq, hdrop]
  by_cases hne : left = []
  · subst hne
    refine ⟨⟨['0'], frac, by simp, by simp, hfrac⟩, ?_, fun _ => rfl⟩
    rcases hrest with ⟨rfl, hfrac⟩ | rfl
    · exact .inl ⟨rfl, hfrac⟩
    · exact .inr rfl
  · obtain ⟨c, l, rfl⟩ := List.exists_cons_of_ne_nil hne
    have hdigit : c ≠ '.' := Decimal.not_dot_of_digit (hleft c List.mem_cons_self)
    have hhead : (c :: l ++ rest).head? ≠ some '.' := fun hdot => hdigit (Option.some.inj hdot)
    have hfull : c :: l ++ rest ≠ [] := List.cons_ne_nil c _
    rw [if_neg hhead, if_neg hfull]
    refine ⟨⟨c :: l, frac, by simp, hleft, hfrac⟩, ?_, hzero⟩
    rcases hrest with ⟨rfl, hfrac⟩ | rfl
    · exact .inl ⟨List.append_nil _, hfrac⟩
    · exact .inr rfl

/-- **A sanitized text is left as it is.** -/
theorem sanitizeAmount_of_sanitized (h : Sanitized v) : sanitizeAmount v = v := by
  obtain ⟨d, hreads, hzero⟩ := h
  have hmap : (v.map fun c => if c = ',' then '.' else c) = v := by
    conv_rhs => rw [← List.map_id v]
    apply List.map_congr_left
    intro c hc
    apply if_neg
    rintro rfl
    rcases hreads.chars ',' hc with hdigit | hdot
    · exact absurd hdigit (by decide)
    · exact absurd hdot (by decide)
  have hfilter : v.filter (fun c => c.isDigit || c = '.') = v := by
    apply List.filter_eq_self.mpr
    intro c hc
    simpa using hreads.chars c hc
  have hsplit : ∃ rest : Text, v = d.whole ++ rest ∧ (rest.head? = none ∨ rest.head? = some '.') := by
    rcases hreads with ⟨hbare, _⟩ | hdot
    · exact ⟨[], by rw [hbare, List.append_nil], .inl rfl⟩
    · exact ⟨_, hdot, .inr rfl⟩
  obtain ⟨rest, hv, hhead⟩ := hsplit
  have hdrop : dropZeros v = v := by
    obtain ⟨left, heq, _, _, hsame⟩ := dropZeros_shape hhead d.whole_digits
    rw [hv, heq, hsame hzero]
  have hfirst : v.head? ≠ some '.' ∧ v ≠ [] := by
    obtain ⟨c, l, hc⟩ := List.exists_cons_of_ne_nil d.whole_ne
    have hdigit : c ≠ '.' := Decimal.not_dot_of_digit (d.whole_digits c (by rw [hc]; exact List.mem_cons_self))
    rw [hv, hc]
    exact ⟨fun hdot => hdigit (Option.some.inj hdot), List.cons_ne_nil c _⟩
  unfold sanitizeAmount
  simp only [hmap, hfilter, firstDot_of_reads hreads, hdrop, if_neg hfirst.1, if_neg hfirst.2]

end SoroSense.Frontend
