import Mathlib.Data.List.TakeWhile
import Mathlib.Data.List.DropRight
import Mathlib.Algebra.Order.Field.Basic
import Mathlib.Algebra.Order.Ring.Rat
import Mathlib.Tactic.Linarith
import Mathlib.Tactic.Ring
import Mathlib.Tactic.FieldSimp

/-!
# `Lib.Decimal` — decimal texts and fixed-point integers

A `Decimal` is its digits: some before the point, any number behind it. Its `value` is exact; `fixed n` is
what a program computes that keeps `n` places, by padding the digits behind the point with zeros on the
right and cutting them there. `ofFixed n b` writes an integer of `n` places out in digits.

* `fixed_le_value` / `value_lt_fixed` — cutting loses less than one unit; `fixed_eq_value` — and nothing
  where the places suffice;
* `fixed_ofFixed` — writing out and reading back is the identity, also without the trailing zeros
  (`fixed_ofFixed_trimmed`), and with only `m` of the places it loses less than `10 ^ (n - m)`
  (`fixed_ofFixed_cut`);
* `Reads.unique` — a text reads as one decimal.
-/

/-- A decimal as its digits. -/
structure Decimal where
  whole        : List Char
  frac         : List Char
  whole_ne     : whole ≠ []
  whole_digits : ∀ c ∈ whole, c.isDigit = true
  frac_digits  : ∀ c ∈ frac, c.isDigit = true

namespace Decimal

open Nat

/-! ## The value of a row of digits -/

/-- What a row of digits is worth. -/
def digitsVal (l : List Char) : ℕ := ofDigitChars 10 l 0

theorem digitsVal_append (l m : List Char) :
    digitsVal (l ++ m) = digitsVal l * 10 ^ m.length + digitsVal m := by
  unfold digitsVal
  rw [ofDigitChars_append, ofDigitChars_eq_ofDigitChars_zero]
  ring

@[simp] theorem digitsVal_zeros (n : ℕ) : digitsVal (List.replicate n '0') = 0 := by
  unfold digitsVal
  rw [ofDigitChars_replicate_zero, Nat.mul_zero]

@[simp] theorem digitsVal_toDigits (n : ℕ) : digitsVal (toDigits 10 n) = n := ofDigitChars_ten_toDigits

/-- A digit is less than ten. -/
theorem digit_lt {c : Char} (h : c.isDigit = true) : c.toNat - '0'.toNat < 10 := by
  have hle : c.toNat ≤ 57 := by
    unfold Char.isDigit at h
    exact (Bool.and_eq_true _ _ ▸ h).2 |> of_decide_eq_true
  have hzero : '0'.toNat = 48 := rfl
  omega

theorem digitsVal_cons (c : Char) (l : List Char) :
    digitsVal (c :: l) = (c.toNat - '0'.toNat) * 10 ^ l.length + digitsVal l := by
  rw [← List.singleton_append, digitsVal_append]
  unfold digitsVal
  rw [ofDigitChars_cons, ofDigitChars_nil, Nat.mul_zero, Nat.zero_add]

/-- A row of `n` digits is worth less than `10 ^ n`. -/
theorem digitsVal_lt {l : List Char} (h : ∀ c ∈ l, c.isDigit = true) : digitsVal l < 10 ^ l.length := by
  induction l with
  | nil => exact Nat.one_pos
  | cons c l ih =>
      have hc := digit_lt (h c List.mem_cons_self)
      have hl := ih (fun d hd => h d (List.mem_cons_of_mem c hd))
      rw [digitsVal_cons, List.length_cons, Nat.pow_succ]
      have hmul : (c.toNat - '0'.toNat) * 10 ^ l.length ≤ 9 * 10 ^ l.length :=
        Nat.mul_le_mul_right _ (by omega)
      omega

/-! ## Padding and cutting -/

/-- `n` places of a row of digits: zeros are put behind it, and it is cut there. -/
def places (n : ℕ) (l : List Char) : List Char := (l ++ List.replicate n '0').take n

theorem length_places (n : ℕ) (l : List Char) : (places n l).length = n := by
  unfold places
  rw [List.length_take, List.length_append, List.length_replicate]
  omega

theorem places_of_le {n : ℕ} {l : List Char} (h : l.length ≤ n) :
    places n l = l ++ List.replicate (n - l.length) '0' := by
  unfold places
  rw [List.take_append, List.take_of_length_le h, List.take_replicate]
  congr 2
  omega

theorem places_of_ge {n : ℕ} {l : List Char} (h : n ≤ l.length) : places n l = l.take n := by
  unfold places
  rw [List.take_append_of_le_length h]

theorem places_digits {n : ℕ} {l : List Char} (h : ∀ c ∈ l, c.isDigit = true) :
    ∀ c ∈ places n l, c.isDigit = true := by
  intro c hc
  rcases List.mem_append.mp (List.mem_of_mem_take hc) with hdigit | hzero
  · exact h c hdigit
  · rw [List.eq_of_mem_replicate hzero]
    rfl

/-- **Cutting, to within one unit**: `n` places of a row are worth at most its share of `10 ^ n`. -/
theorem digitsVal_places {n : ℕ} {l : List Char} (h : ∀ c ∈ l, c.isDigit = true) :
    digitsVal (places n l) * 10 ^ l.length ≤ digitsVal l * 10 ^ n ∧
      digitsVal l * 10 ^ n < (digitsVal (places n l) + 1) * 10 ^ l.length := by
  rcases Nat.le_total l.length n with hle | hge
  · -- only zeros are added
    have hval : digitsVal (places n l) = digitsVal l * 10 ^ (n - l.length) := by
      rw [places_of_le hle, digitsVal_append, digitsVal_zeros, List.length_replicate, Nat.add_zero]
    have hpow : 10 ^ n = 10 ^ (n - l.length) * 10 ^ l.length := by
      rw [← Nat.pow_add, Nat.sub_add_cancel hle]
    have heq : digitsVal (places n l) * 10 ^ l.length = digitsVal l * 10 ^ n := by
      rw [hval, hpow, Nat.mul_assoc]
    refine ⟨le_of_eq heq, ?_⟩
    rw [← heq]
    exact Nat.mul_lt_mul_of_pos_right (Nat.lt_succ_self _) (Nat.pow_pos (by decide))
  · -- the digits behind are worth less than one of the last place kept
    have hsplit : digitsVal l = digitsVal (places n l) * 10 ^ (l.length - n) + digitsVal (l.drop n) := by
      conv_lhs => rw [← List.take_append_drop n l]
      rw [digitsVal_append, List.length_drop, places_of_ge hge]
    have hrest : digitsVal (l.drop n) < 10 ^ (l.length - n) := by
      rw [← List.length_drop]
      exact digitsVal_lt (fun c hc => h c (List.mem_of_mem_drop hc))
    have hpow : 10 ^ l.length = 10 ^ (l.length - n) * 10 ^ n := by
      rw [← Nat.pow_add, Nat.sub_add_cancel hge]
    constructor
    · calc digitsVal (places n l) * 10 ^ l.length
          = digitsVal (places n l) * 10 ^ (l.length - n) * 10 ^ n := by rw [hpow, Nat.mul_assoc]
        _ ≤ digitsVal l * 10 ^ n := Nat.mul_le_mul_right _ (by omega)
    · calc digitsVal l * 10 ^ n
          < (digitsVal (places n l) + 1) * 10 ^ (l.length - n) * 10 ^ n := by
            apply Nat.mul_lt_mul_of_pos_right ?_ (Nat.pow_pos (by decide))
            rw [Nat.add_one_mul]
            omega
        _ = (digitsVal (places n l) + 1) * 10 ^ l.length := by rw [hpow, Nat.mul_assoc]

/-! ## The value of a decimal -/

variable {d e : Decimal} {n m b : ℕ} {t : List Char}

/-- What the decimal is worth, exactly. -/
def value (d : Decimal) : ℚ := digitsVal d.whole + digitsVal d.frac / 10 ^ d.frac.length

/-- The decimal with `n` places, as an integer of them. -/
def fixed (n : ℕ) (d : Decimal) : ℕ := digitsVal d.whole * 10 ^ n + digitsVal (places n d.frac)

theorem value_mul (d : Decimal) (n : ℕ) :
    d.value * 10 ^ n = digitsVal d.whole * 10 ^ n + digitsVal d.frac * 10 ^ n / 10 ^ d.frac.length := by
  unfold value
  ring

/-- **Cutting never adds.** -/
theorem fixed_le_value (n : ℕ) (d : Decimal) : (d.fixed n : ℚ) ≤ d.value * 10 ^ n := by
  have hcut := (digitsVal_places (n := n) d.frac_digits).1
  have hfrac : (digitsVal (places n d.frac) : ℚ) ≤ digitsVal d.frac * 10 ^ n / 10 ^ d.frac.length := by
    rw [le_div_iff₀ (by positivity)]
    exact_mod_cast hcut
  rw [value_mul, fixed]
  push_cast
  linarith

/-- **Cutting loses less than one unit.** -/
theorem value_lt_fixed (n : ℕ) (d : Decimal) : d.value * 10 ^ n < d.fixed n + 1 := by
  have hcut := (digitsVal_places (n := n) d.frac_digits).2
  have hfrac : (digitsVal d.frac * 10 ^ n / 10 ^ d.frac.length : ℚ) < digitsVal (places n d.frac) + 1 := by
    rw [div_lt_iff₀ (by positivity)]
    exact_mod_cast hcut
  rw [value_mul, fixed]
  push_cast
  linarith

/-- **Nothing is cut where the places suffice.** -/
theorem fixed_eq_value (h : d.frac.length ≤ n) : (d.fixed n : ℚ) = d.value * 10 ^ n := by
  have hpow : (10 : ℚ) ^ n = 10 ^ (n - d.frac.length) * 10 ^ d.frac.length := by
    rw [← pow_add, Nat.sub_add_cancel h]
  have hval : digitsVal (places n d.frac) = digitsVal d.frac * 10 ^ (n - d.frac.length) := by
    rw [places_of_le h, digitsVal_append, digitsVal_zeros, List.length_replicate, Nat.add_zero]
  rw [value_mul, fixed, hval]
  push_cast
  rw [hpow]
  field_simp

/-! ## Writing an integer out -/

/-- `n` digits of `b`, zeros in front. -/
def padded (n b : ℕ) : List Char := List.replicate (n - (toDigits 10 b).length) '0' ++ toDigits 10 b

theorem digitsVal_padded (n b : ℕ) : digitsVal (padded n b) = b := by
  unfold padded
  rw [digitsVal_append, digitsVal_zeros, digitsVal_toDigits, Nat.zero_mul, Nat.zero_add]

theorem length_padded (hn : 0 < n) (h : b < 10 ^ n) : (padded n b).length = n := by
  have hle : (toDigits 10 b).length ≤ n := (length_toDigits_le_iff (by decide) hn).mpr h
  unfold padded
  rw [List.length_append, List.length_replicate]
  omega

theorem toDigits_digits (b : ℕ) : ∀ c ∈ toDigits 10 b, c.isDigit = true := fun _ hc =>
  isDigit_of_mem_toDigits (by decide) (by decide) hc

theorem padded_digits (n b : ℕ) : ∀ c ∈ padded n b, c.isDigit = true := by
  intro c hc
  rcases List.mem_append.mp hc with hzero | hdigit
  · rw [List.eq_of_mem_replicate hzero]
    rfl
  · exact toDigits_digits b c hdigit

/-- An integer of `n` places, written out. -/
def ofFixed (n b : ℕ) : Decimal where
  whole        := toDigits 10 (b / 10 ^ n)
  frac         := padded n (b % 10 ^ n)
  whole_ne     := toDigits_ne_nil
  whole_digits := toDigits_digits _
  frac_digits  := padded_digits _ _

theorem length_ofFixed_frac (hn : 0 < n) (b : ℕ) : (ofFixed n b).frac.length = n :=
  length_padded hn (Nat.mod_lt _ (Nat.pow_pos (by decide)))

/-- The decimal with the first `m` of its places. -/
def cut (m : ℕ) (d : Decimal) : Decimal :=
  { d with
    frac        := d.frac.take m
    frac_digits := fun c hc => d.frac_digits c (List.mem_of_mem_take hc) }

/-- The decimal without its trailing zeros. -/
def trimmed (d : Decimal) : Decimal :=
  { d with
    frac        := d.frac.rdropWhile (· = '0')
    frac_digits := fun c hc => d.frac_digits c ((List.rdropWhile_prefix _ d.frac).subset hc) }

/-- **Writing out and reading back is the identity.** -/
theorem fixed_ofFixed (hn : 0 < n) (b : ℕ) : (ofFixed n b).fixed n = b := by
  have hlen := length_ofFixed_frac hn b
  unfold fixed
  rw [places_of_ge (le_of_eq hlen.symm), List.take_of_length_le (le_of_eq hlen)]
  show digitsVal (toDigits 10 (b / 10 ^ n)) * 10 ^ n + digitsVal (padded n (b % 10 ^ n)) = b
  rw [digitsVal_toDigits, digitsVal_padded]
  exact Nat.div_add_mod' b (10 ^ n)

/-- What trailing zeros were dropped, padding puts back. -/
theorem places_rdropWhile {l : List Char} (h : l.length = n) : places n (l.rdropWhile (· = '0')) = l := by
  have hsplit := List.rdropWhile_append_rtakeWhile (p := (· = '0')) (l := l)
  have hzeros : ∀ c ∈ l.rtakeWhile (· = '0'), c = '0' := by
    intro c hc
    have hzero := List.mem_rtakeWhile_imp hc
    exact of_decide_eq_true hzero
  have hlen : (l.rdropWhile (· = '0')).length + (l.rtakeWhile (· = '0')).length = n := by
    rw [← List.length_append, hsplit, h]
  rw [places_of_le (by omega)]
  conv_rhs => rw [← hsplit]
  congr 1
  rw [List.eq_replicate_of_mem hzeros]
  congr 1
  omega

/-- **The trailing zeros do not matter.** -/
theorem fixed_ofFixed_trimmed (hn : 0 < n) (b : ℕ) : (ofFixed n b).trimmed.fixed n = b := by
  have hlen := length_ofFixed_frac hn b
  have hplaces : places n (ofFixed n b).trimmed.frac = places n (ofFixed n b).frac := by
    rw [places_of_ge (le_of_eq hlen.symm), List.take_of_length_le (le_of_eq hlen)]
    exact places_rdropWhile hlen
  have hfixed : (ofFixed n b).trimmed.fixed n = (ofFixed n b).fixed n := by
    unfold fixed
    rw [hplaces]
    rfl
  rw [hfixed, fixed_ofFixed hn]

/-- **With `m` of `n` places** less than `10 ^ (n - m)` is lost. -/
theorem fixed_ofFixed_cut (hn : 0 < n) (hm : m ≤ n) (b : ℕ) :
    ((ofFixed n b).cut m).fixed n ≤ b ∧ b < ((ofFixed n b).cut m).fixed n + 10 ^ (n - m) := by
  have hlen := length_ofFixed_frac hn b
  have hcut : ((ofFixed n b).frac.take m).length = m := by
    rw [List.length_take, hlen]
    omega
  have hval : digitsVal (places n ((ofFixed n b).frac.take m))
      = digitsVal ((ofFixed n b).frac.take m) * 10 ^ (n - m) := by
    rw [places_of_le (by omega), digitsVal_append, digitsVal_zeros, List.length_replicate, hcut, Nat.add_zero]
  have hsplit : digitsVal (ofFixed n b).frac
      = digitsVal ((ofFixed n b).frac.take m) * 10 ^ (n - m) + digitsVal ((ofFixed n b).frac.drop m) := by
    conv_lhs => rw [← List.take_append_drop m (ofFixed n b).frac]
    rw [digitsVal_append, List.length_drop, hlen]
  have hrest : digitsVal ((ofFixed n b).frac.drop m) < 10 ^ (n - m) := by
    have hlt := digitsVal_lt (fun c hc => (ofFixed n b).frac_digits c (List.mem_of_mem_drop (i := m) hc))
    rwa [List.length_drop, hlen] at hlt
  have hb : digitsVal (ofFixed n b).whole * 10 ^ n + digitsVal (ofFixed n b).frac = b := by
    show digitsVal (toDigits 10 (b / 10 ^ n)) * 10 ^ n + digitsVal (padded n (b % 10 ^ n)) = b
    rw [digitsVal_toDigits, digitsVal_padded]
    exact Nat.div_add_mod' b (10 ^ n)
  have hfixed : ((ofFixed n b).cut m).fixed n
      = digitsVal (ofFixed n b).whole * 10 ^ n + digitsVal (places n ((ofFixed n b).frac.take m)) := rfl
  omega

/-! ## Texts -/

/-- The text shows the decimal: its digits, with a point between them that may be left out where no digit
    follows. -/
def Reads (t : List Char) (d : Decimal) : Prop :=
  t = d.whole ∧ d.frac = [] ∨ t = d.whole ++ '.' :: d.frac

theorem not_dot_of_digit {c : Char} (h : c.isDigit = true) : c ≠ '.' := by
  rintro rfl
  exact absurd h (by decide)

/-- What stands before the point. -/
theorem takeWhile_of_reads (h : Reads t d) : t.takeWhile (· ≠ '.') = d.whole := by
  have hdigits : ∀ c ∈ d.whole, decide (c ≠ '.') = true := fun c hc =>
    decide_eq_true (not_dot_of_digit (d.whole_digits c hc))
  rcases h with ⟨rfl, _⟩ | rfl
  · exact List.takeWhile_eq_self_iff.mpr hdigits
  · rw [List.takeWhile_append_of_pos hdigits, List.takeWhile_cons_of_neg (by simp), List.append_nil]

/-- What stands behind it. -/
theorem dropWhile_of_reads (h : Reads t d) : (t.dropWhile (· ≠ '.')).tail = d.frac := by
  have hdigits : ∀ c ∈ d.whole, decide (c ≠ '.') = true := fun c hc =>
    decide_eq_true (not_dot_of_digit (d.whole_digits c hc))
  rcases h with ⟨rfl, hfrac⟩ | rfl
  · rw [List.dropWhile_eq_nil_iff.mpr hdigits, hfrac]
    rfl
  · rw [List.dropWhile_append_of_pos hdigits, List.dropWhile_cons_of_neg (by simp)]
    rfl

/-- **A text reads as one decimal.** -/
theorem Reads.unique (h : Reads t d) (h' : Reads t e) : d = e := by
  have hwhole : d.whole = e.whole := (takeWhile_of_reads h).symm.trans (takeWhile_of_reads h')
  have hfrac : d.frac = e.frac := (dropWhile_of_reads h).symm.trans (dropWhile_of_reads h')
  cases d
  cases e
  simp only [Decimal.mk.injEq]
  exact ⟨hwhole, hfrac⟩

/-- A text that reads as a decimal is digits and points. -/
theorem Reads.chars (h : Reads t d) : ∀ c ∈ t, c.isDigit = true ∨ c = '.' := by
  intro c hc
  rcases h with ⟨rfl, _⟩ | rfl
  · exact .inl (d.whole_digits c hc)
  · rcases List.mem_append.mp hc with hc | hc
    · exact .inl (d.whole_digits c hc)
    · rcases List.mem_cons.mp hc with rfl | hc
      · exact .inr rfl
      · exact .inl (d.frac_digits c hc)

end Decimal
