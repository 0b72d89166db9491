import SoroSense.Backend.DemoSeed
import SoroSense.Frontend.Units

/-!
# `Properties.Codecs` — the amount codecs neither invent nor lose value

Each codec computes a `Decimal.fixed 7`: the seed script of a decimal that fits into seven places, so exactly;
the frontend of any decimal, so cut below the base unit. What they print is the `Decimal` of an integer, in
the script without its trailing zeros, in the frontend cut at two places.
-/

namespace SoroSense

open Text Frontend Backend.DemoSeed

/-- What `toAmount` makes of a printed amount, in base units. -/
theorem toAmount_fromAmount (b : ℕ) : toAmount (fromAmount (b : Int)) = .ok (((Decimal.ofFixed 7 b).cut 2).fixed 7 : Int) :=
  toAmount_of_reads (fromAmount_reads b)

/-- **The amount codecs neither invent nor lose value.** The seed script reads what it printed; the frontend
    reads what it printed with less than `10 ^ 5` base units missing. What the script accepts it reads
    exactly. Any input is sanitized into a decimal, for good, which reads without an error to its value cut
    below the base unit. -/
theorem codecs_neither_invent_nor_lose :
    (∀ b : Int, 0 ≤ b → toBaseUnits (formatUnits b) = .ok b) ∧
    (∀ b : Int, 0 ≤ b → ∃ n, toAmount (fromAmount b) = .ok n ∧ n ≤ b ∧ b - n < 10 ^ 5) ∧
    (∀ (text : Text) (n : Int), toBaseUnits text = .ok n →
      ∃ d : Decimal, d.Reads (trim text) ∧ (n : ℚ) = d.value * 10 ^ 7) ∧
    (∀ raw : Text, sanitizeAmount (sanitizeAmount raw) = sanitizeAmount raw ∧
      ∃ (d : Decimal) (n : Int), d.Reads (sanitizeAmount raw) ∧ toAmount (sanitizeAmount raw) = .ok n ∧
        (n : ℚ) ≤ d.value * 10 ^ 7 ∧ d.value * 10 ^ 7 < n + 1) := by
  refine ⟨?_, ?_, ?_, ?_⟩
  · intro b hb
    lift b to ℕ using hb
    exact toBaseUnits_formatUnits b
  · intro b hb
    lift b to ℕ using hb
    obtain ⟨hle, hlt⟩ := Decimal.fixed_ofFixed_cut (n := 7) (m := 2) (by decide) (by decide) b
    refine ⟨_, toAmount_fromAmount b, by exact_mod_cast hle, ?_⟩
    have hcast : (b : Int) < (((Decimal.ofFixed 7 b).cut 2).fixed 7 : Int) + 10 ^ 5 := by exact_mod_cast hlt
    omega
  · intro text n h
    obtain ⟨d, hreads, hlen, rfl⟩ := toBaseUnits_eq_ok h
    refine ⟨d, hreads, ?_⟩
    exact_mod_cast d.fixed_eq_value hlen
  · intro raw
    have hsane := sanitized_sanitizeAmount raw
    refine ⟨sanitizeAmount_of_sanitized hsane, ?_⟩
    obtain ⟨d, hreads, _⟩ := hsane
    refine ⟨d, _, hreads, toAmount_of_reads hreads, ?_, ?_⟩
    · exact_mod_cast d.fixed_le_value 7
    · exact_mod_cast d.value_lt_fixed 7

/-- Twelve and a half units, printed by the script and read back. -/
theorem codecs_neither_invent_nor_lose_halves :
    toBaseUnits (formatUnits 125000000) = .ok 125000000 ∧
      (∃ n, toAmount (fromAmount 125000001) = .ok n ∧ n ≤ 125000001 ∧ 125000001 - n < 10 ^ 5) ∧
      ∃ d : Decimal, d.Reads (trim "12.5".toList) ∧ ((125000000 : Int) : ℚ) = d.value * 10 ^ 7 :=
  ⟨codecs_neither_invent_nor_lose.1 125000000 (by decide),
    codecs_neither_invent_nor_lose.2.1 125000001 (by decide),
    codecs_neither_invent_nor_lose.2.2.1 "12.5".toList 125000000 (by decide +kernel)⟩

end SoroSense
