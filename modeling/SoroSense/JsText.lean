import SoroSense.Lib.Decimal
import SoroSense.Lib.Fallible

/-!
# `JsText` — strings and the integers read from them

What the amount codecs use of JavaScript's strings: `trim`, `split`, `padStart`, `padEnd`, `toString` of an
integer, and `BigInt(text)`, which also reads blank, signed, hexadecimal, octal and binary texts and throws a
`SyntaxError` on every other. Strings compare by their UTF-16 code units.

On the text of a decimal these are the operations of `Decimal`.
-/

namespace SoroSense

open Fallible

/-- A string. -/
abbrev Text := List Char

/-- What a codec throws. -/
inductive Thrown where
  | error (message : Text)
  | syntaxError
deriving DecidableEq

namespace Text

/-- White space and line terminators. -/
def isSpace (c : Char) : Bool :=
  let n := c.toNat
  (9 ≤ n && n ≤ 13) || n == 0x20 || n == 0xA0 || n == 0x1680 || (0x2000 ≤ n && n ≤ 0x200A) || n == 0x2028
    || n == 0x2029 || n == 0x202F || n == 0x205F || n == 0x3000 || n == 0xFEFF

/-- `text.trim()`. -/
def trim (t : Text) : Text := (t.dropWhile isSpace).rdropWhile isSpace

/-- `const [whole = '0', fraction = ''] = text.split('.')`. -/
def wholeAndFraction (t : Text) : Text × Text :=
  let parts := t.splitOnP (· = '.')
  (parts.getD 0 ['0'], parts.getD 1 [])

/-- `text.padStart(n, '0')`. -/
def padStart (n : ℕ) (t : Text) : Text := List.replicate (n - t.length) '0' ++ t

/-- `text.padEnd(n, '0')`. -/
def padEnd (n : ℕ) (t : Text) : Text := t ++ List.replicate (n - t.length) '0'

/-- `n.toString()`. -/
def ofInt (n : Int) : Text := (toString n).toList

/-- The UTF-16 code units of a character. -/
def codeUnits (c : Char) : List ℕ :=
  if c.toNat < 0x10000 then [c.toNat]
  else [0xD800 + (c.toNat - 0x10000) / 0x400, 0xDC00 + (c.toNat - 0x10000) % 0x400]

/-- What `<` compares of two strings, code unit by code unit. -/
def units (s : String) : List ℕ := s.toList.flatMap codeUnits

/-! ## `BigInt(text)` -/

/-- A digit in a base. -/
def digit (base : ℕ) (c : Char) : Option ℕ :=
  let value : Option ℕ :=
    if c.isDigit then some (c.toNat - '0'.toNat)
    else if 'a' ≤ c ∧ c ≤ 'f' then some (c.toNat - 'a'.toNat + 10)
    else if 'A' ≤ c ∧ c ≤ 'F' then some (c.toNat - 'A'.toNat + 10)
    else none
  value.filter (· < base)

/-- The digits read so far are worth `n`. -/
def readDigits (base : ℕ) (n : ℕ) : Text → Option ℕ
  | []      => some n
  | c :: cs =>
      match digit base c with
      | some d => readDigits base (base * n + d) cs
      | none   => none

/-- At least one digit, and nothing else. -/
def natural (base : ℕ) (t : Text) : Option ℕ := if t = [] then none else readDigits base 0 t

/-- `0x`, `0o` or `0b` in front of the digits. -/
def radix : Text → Option (ℕ × Text)
  | '0' :: c :: digits =>
      if c = 'x' ∨ c = 'X' then some (16, digits)
      else if c = 'o' ∨ c = 'O' then some (8, digits)
      else if c = 'b' ∨ c = 'B' then some (2, digits)
      else none
  | _ => none

/-- A decimal integer, signed or not. -/
def signed : Text → Option Int
  | '-' :: digits => (natural 10 digits).map fun n => -(n : Int)
  | '+' :: digits => (natural 10 digits).map fun n => (n : Int)
  | digits        => (natural 10 digits).map fun n => (n : Int)

/-- `BigInt(text)`. -/
def bigInt (t : Text) : Except Thrown Int :=
  let body := trim t
  if body = [] then .ok 0
  else
    let read : Option Int :=
      match radix body with
      | some (base, digits) => (natural base digits).map fun n => (n : Int)
      | none                => signed body
    match read with
    | some n => .ok n
    | none   => .error .syntaxError

/-! ## On rows of digits -/

variable {t : Text} {n : ℕ} {c : Char}

theorem not_space_of_digit (h : c.isDigit = true) : isSpace c = false := by
  have hrange : 48 ≤ c.toNat ∧ c.toNat ≤ 57 := by
    unfold Char.isDigit at h
    obtain ⟨hlo, hhi⟩ := (Bool.and_eq_true _ _).mp h
    exact ⟨of_decide_eq_true hlo, of_decide_eq_true hhi⟩
  unfold isSpace
  simp only [Bool.or_eq_false_iff, Bool.and_eq_false_iff, decide_eq_false_iff_not, beq_eq_false_iff_ne]
  omega

/-- A text without a blank trims to itself. -/
theorem trim_of_no_space (h : ∀ c ∈ t, isSpace c = false) : trim t = t := by
  have hdrop : t.dropWhile isSpace = t := by
    cases t with
    | nil => rfl
    | cons c t => exact List.dropWhile_cons_of_neg (by rw [h c List.mem_cons_self]; decide)
  unfold trim
  rw [hdrop]
  rcases List.eq_nil_or_concat t with rfl | ⟨l, c, rfl⟩
  · rfl
  · rw [List.concat_eq_append]
    apply List.rdropWhile_concat_neg
    rw [h c (by simp)]
    decide

theorem trim_of_reads {d : Decimal} (h : d.Reads t) : trim t = t := by
  apply trim_of_no_space
  intro c hc
  rcases h.chars c hc with hdigit | rfl
  · exact not_space_of_digit hdigit
  · decide

theorem digit_of_isDigit (h : c.isDigit = true) : digit 10 c = some (c.toNat - '0'.toNat) := by
  unfold digit
  rw [if_pos h]
  exact Option.filter_some_pos (decide_eq_true (Decimal.digit_lt h))

theorem readDigits_of_digits (h : ∀ c ∈ t, c.isDigit = true) (n : ℕ) :
    readDigits 10 n t = some (Nat.ofDigitChars 10 t n) := by
  induction t generalizing n with
  | nil => rfl
  | cons c t ih =>
      unfold readDigits
      rw [digit_of_isDigit (h c List.mem_cons_self), Nat.ofDigitChars_cons]
      exact ih (fun d hd => h d (List.mem_cons_of_mem c hd)) _

theorem natural_of_digits (h : ∀ c ∈ t, c.isDigit = true) (hne : t ≠ []) :
    natural 10 t = some (Decimal.digitsVal t) := by
  unfold natural
  rw [if_neg hne]
  exact readDigits_of_digits h 0

/-- No digit is one of the letters behind a `0`. -/
theorem radix_of_digits (h : ∀ c ∈ t, c.isDigit = true) : radix t = none := by
  have hletter : ∀ x : Char, x.isDigit = false → ∀ c ∈ t, c ≠ x := by
    rintro x hx c hc rfl
    exact absurd (h c hc) (by rw [hx]; decide)
  unfold radix
  split
  · next c digits =>
      have hc : c ∈ '0' :: c :: digits := by simp
      rw [if_neg (not_or.mpr ⟨hletter 'x' rfl c hc, hletter 'X' rfl c hc⟩),
        if_neg (not_or.mpr ⟨hletter 'o' rfl c hc, hletter 'O' rfl c hc⟩),
        if_neg (not_or.mpr ⟨hletter 'b' rfl c hc, hletter 'B' rfl c hc⟩)]
  · rfl

theorem signed_of_digits (h : ∀ c ∈ t, c.isDigit = true) (hne : t ≠ []) :
    signed t = some (Decimal.digitsVal t : Int) := by
  unfold signed
  split
  · exact absurd (h '-' List.mem_cons_self) (by decide)
  · exact absurd (h '+' List.mem_cons_self) (by decide)
  · rw [natural_of_digits h hne]
    rfl

/-- **`BigInt` reads a row of digits as its value.** -/
theorem bigInt_of_digits (h : ∀ c ∈ t, c.isDigit = true) (hne : t ≠ []) :
    bigInt t = .ok (Decimal.digitsVal t : Int) := by
  unfold bigInt
  rw [trim_of_no_space (fun c hc => not_space_of_digit (h c hc))]
  simp only [radix_of_digits h, signed_of_digits h hne, if_neg hne]

/-- An integer that is not negative prints as its digits. -/
theorem ofInt_natCast (n : ℕ) : ofInt (n : Int) = Nat.toDigits 10 n := by
  show (Nat.repr n).toList = _
  exact Nat.toList_repr

theorem padStart_toDigits (n b : ℕ) : padStart n (Nat.toDigits 10 b) = Decimal.padded n b := rfl

/-- The whole part and the places of an integer of `n` places, as text. -/
theorem ofInt_parts {u : Int} (hu : u = ((10 ^ n : ℕ) : Int)) (b : ℕ) :
    ofInt ((b : Int).tdiv u) = (Decimal.ofFixed n b).whole ∧
      padStart n (ofInt ((b : Int).tmod u)) = (Decimal.ofFixed n b).frac := by
  rw [hu, ← Int.ofNat_tdiv, ← Int.ofNat_tmod, ofInt_natCast, ofInt_natCast, padStart_toDigits]
  exact ⟨rfl, rfl⟩

theorem padEnd_of_le (h : t.length ≤ n) : padEnd n t = Decimal.places n t := (Decimal.places_of_le h).symm

/-- The text of a decimal is taken apart at its point. -/
theorem wholeAndFraction_of_reads {d : Decimal} (h : d.Reads t) : wholeAndFraction t = (d.whole, d.frac) := by
  have hno : ∀ l : Text, (∀ c ∈ l, c.isDigit = true) → ∀ c ∈ l, decide (c = '.') = false := fun l hl c hc =>
    decide_eq_false (Decimal.not_dot_of_digit (hl c hc))
  unfold wholeAndFraction
  rcases h with ⟨rfl, hfrac⟩ | rfl
  · rw [List.splitOnP_eq_singleton (hno _ d.whole_digits), hfrac]
    rfl
  · rw [List.splitOnP_append_cons_of_forall_mem (hno _ d.whole_digits) '.' (by decide),
      List.splitOnP_eq_singleton (hno _ d.frac_digits)]
    rfl

end Text
end SoroSense
