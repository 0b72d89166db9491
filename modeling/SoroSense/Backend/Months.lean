import SoroSense.Backend.Earnings
import Mathlib

/-!
# `Backend.Months` — the calendar behind `monthKey`

`civilMonth` computes year and month of a day from nested divisions. Within an era of 400 years the year that
comes out is the one whose days include the given one (`yearOfEra_spec`), so later days fall in no earlier month
(`monthNumber_mono`), and two times of one label are in one month (`monthKey_eq_iff`).
-/

namespace SoroSense.Backend

/-! ## Years of an era -/

/-- The year of an era that a day of it is in, both counted from 0 and from March. -/
def yearOfEra (doe : Int) : Int := (doe - doe / 1460 + doe / 36524 - doe / 146096) / 365

/-- The first day of a year of an era. -/
def yearStart (y : Int) : Int := 365 * y + y / 4 - y / 100

variable {doe day day' y y' c q t : Int}

/-- A year in centuries, leap cycles and years. -/
theorem yearStart_eq (ht : 0 ≤ t ∧ t ≤ 3) (hq : 0 ≤ q ∧ q ≤ 24) :
    yearStart (100 * c + 4 * q + t) = 36524 * c + 1461 * q + 365 * t := by
  have hcycles : (100 * c + 4 * q + t) / 4 = 25 * c + q := by omega
  have hcenturies : (100 * c + 4 * q + t) / 100 = c := by omega
  unfold yearStart
  omega

theorem yearStart_mono (h : y ≤ y') : yearStart y ≤ yearStart y' := by
  unfold yearStart
  omega

/-- A day of an era in centuries, leap cycles, years and days; only the last year of a leap cycle that is not
    cut short has a 366th day. -/
theorem exists_era_digits (h₀ : 0 ≤ doe) (h : doe ≤ 146096) :
    ∃ c q t d, doe = 36524 * c + 1461 * q + 365 * t + d ∧ (0 ≤ c ∧ c ≤ 3) ∧ (0 ≤ q ∧ q ≤ 24) ∧
      (0 ≤ t ∧ t ≤ 3) ∧ (0 ≤ d ∧ d ≤ 365) ∧ (d = 365 → t = 3 ∧ (q = 24 → c = 3)) := by
  obtain ⟨c, r, hdoe, hc, hr, hlastCentury⟩ : ∃ c r, doe = 36524 * c + r ∧ (0 ≤ c ∧ c ≤ 3) ∧
      (0 ≤ r ∧ r ≤ 36524) ∧ (r = 36524 → c = 3) := by
    by_cases hlast : doe = 146096
    · exact ⟨3, 36524, by omega⟩
    · exact ⟨doe / 36524, doe % 36524, by omega⟩
  obtain ⟨q, s, hrq, hq, hs, hlastCycle⟩ : ∃ q s, r = 1461 * q + s ∧ (0 ≤ q ∧ q ≤ 24) ∧
      (0 ≤ s ∧ s ≤ 1460) ∧ (q = 24 → s = 1460 → c = 3) :=
    ⟨r / 1461, r % 1461, by omega⟩
  obtain ⟨t, d, hst, ht, hd, hlastYear⟩ : ∃ t d, s = 365 * t + d ∧ (0 ≤ t ∧ t ≤ 3) ∧
      (0 ≤ d ∧ d ≤ 365) ∧ (d = 365 → t = 3) := by
    by_cases hlast : s = 1460
    · exact ⟨3, 365, by omega⟩
    · exact ⟨s / 365, s % 365, by omega⟩
  exact ⟨c, q, t, d, by omega, hc, hq, ht, hd, fun h365 => ⟨hlastYear h365, fun hq24 => by
    have ht3 := hlastYear h365
    exact hlastCycle hq24 (by omega)⟩⟩

/-- What the two corrections for centuries come to. -/
theorem centuries_eq {r : Int} (hdoe : doe = 36524 * c + r) (hc : 0 ≤ c ∧ c ≤ 3) (hr : 0 ≤ r ∧ r ≤ 36524)
    (hlast : r = 36524 → c = 3) : doe / 36524 - doe / 146096 = c := by omega

/-- **The year computed is the year of those digits.** -/
theorem yearOfEra_eq {d : Int} (hdoe : doe = 36524 * c + 1461 * q + 365 * t + d) (hc : 0 ≤ c ∧ c ≤ 3)
    (hq : 0 ≤ q ∧ q ≤ 24) (ht : 0 ≤ t ∧ t ≤ 3) (hd : 0 ≤ d ∧ d ≤ 365)
    (hleap : d = 365 → t = 3 ∧ (q = 24 → c = 3)) : yearOfEra doe = 100 * c + 4 * q + t := by
  have hcenturies : doe / 36524 - doe / 146096 = c :=
    centuries_eq (r := 1461 * q + 365 * t + d) (by omega) hc (by omega) (by omega)
  -- the cycles of four years, counted four times 365 days long, run ahead by at most one
  have hcycles : doe / 1460 = 25 * c + q + (24 * c + q + 365 * t + d) / 1460 := by omega
  have hyears : yearOfEra doe
      = (36500 * c + 1460 * q + 365 * t + d - (24 * c + q + 365 * t + d) / 1460) / 365 := by
    unfold yearOfEra
    congr 1
    omega
  rw [hyears]
  clear hyears hcycles hcenturies
  by_cases hahead : 24 * c + q + 365 * t + d < 1460
  · have hzero : (24 * c + q + 365 * t + d) / 1460 = 0 := by omega
    rw [hzero]
    omega
  · have hone : (24 * c + q + 365 * t + d) / 1460 = 1 := by omega
    rw [hone]
    omega

/-- A year is 365 days long, and 366 at the end of a leap cycle that does not end a century. -/
theorem yearStart_succ (hq : 0 ≤ q ∧ q ≤ 24) (ht : 0 ≤ t ∧ t ≤ 3) :
    36524 * c + 1461 * q + 365 * t + 365 ≤ yearStart (100 * c + 4 * q + t + 1) ∧
      (t = 3 → q ≠ 24 → 36524 * c + 1461 * q + 365 * t + 366 ≤ yearStart (100 * c + 4 * q + t + 1)) := by
  by_cases ht3 : t = 3
  · subst ht3
    by_cases hq24 : q = 24
    · subst hq24
      have hnext : 100 * c + 4 * 24 + 3 + 1 = 100 * (c + 1) + 4 * 0 + 0 := by ring
      rw [hnext, yearStart_eq (by decide) (by decide)]
      omega
    · have hnext : 100 * c + 4 * q + 3 + 1 = 100 * c + 4 * (q + 1) + 0 := by ring
      rw [hnext, yearStart_eq (by decide) (by omega)]
      omega
  · have hnext : 100 * c + 4 * q + t + 1 = 100 * c + 4 * q + (t + 1) := by ring
    rw [hnext, yearStart_eq (by omega) hq]
    omega

/-- **The year computed is the year that holds the day.** -/
theorem yearOfEra_spec (h₀ : 0 ≤ doe) (h : doe ≤ 146096) :
    (0 ≤ yearOfEra doe ∧ yearOfEra doe ≤ 399) ∧ yearStart (yearOfEra doe) ≤ doe ∧
      doe ≤ yearStart (yearOfEra doe) + 365 ∧ (yearOfEra doe = 399 ∨ doe < yearStart (yearOfEra doe + 1)) := by
  obtain ⟨c, q, t, d, hdoe, hc, hq, ht, hd, hleap⟩ := exists_era_digits h₀ h
  obtain ⟨hnext, hnextLeap⟩ := yearStart_succ (c := c) hq ht
  rw [yearOfEra_eq hdoe hc hq ht hd hleap, yearStart_eq ht hq]
  refine ⟨by omega, by omega, by omega, ?_⟩
  generalize yearStart (100 * c + 4 * q + t + 1) = next at hnext hnextLeap ⊢
  by_cases hlast : c = 3 ∧ q = 24 ∧ t = 3
  · left
    omega
  · right
    omega

/-! ## Months -/

/-- The months before a day's, from March of the year 0. -/
def monthsOfEra (doe : Int) : Int :=
  12 * yearOfEra doe + (5 * (doe - yearStart (yearOfEra doe)) + 2) / 153

theorem monthsOfEra_bounds (h₀ : 0 ≤ doe) (h : doe ≤ 146096) : 0 ≤ monthsOfEra doe ∧ monthsOfEra doe ≤ 4799 := by
  obtain ⟨hyear, hlow, hhigh, _⟩ := yearOfEra_spec h₀ h
  unfold monthsOfEra
  omega

theorem monthsOfEra_mono {doe' : Int} (h₀ : 0 ≤ doe) (hle : doe ≤ doe') (h : doe' ≤ 146096) :
    monthsOfEra doe ≤ monthsOfEra doe' := by
  obtain ⟨_, hlow, hhigh, _⟩ := yearOfEra_spec h₀ (le_trans hle h)
  obtain ⟨hyear', hlow', hhigh', hnext'⟩ := yearOfEra_spec (le_trans h₀ hle) h
  -- a later year would start after the later day
  have hyears : yearOfEra doe ≤ yearOfEra doe' := by
    rcases hnext' with hlast | hnext
    · have hyear := (yearOfEra_spec h₀ (le_trans hle h)).1
      omega
    · by_contra hlt
      have hstart := yearStart_mono (by omega : yearOfEra doe' + 1 ≤ yearOfEra doe)
      omega
  unfold monthsOfEra
  rcases lt_or_eq_of_le hyears with hlt | heq
  · omega
  · rw [heq]
    omega

/-- The months of a civil date, from January of the year 0, counted from 1. -/
def monthCount (date : Int × Int) : Int := 12 * date.1 + date.2

/-- The months of a time. -/
def monthNumber (ts : Int) : Int := monthCount (civilMonth (ts.fdiv 86400000))

/-- The civil month, in the words above. -/
theorem civilMonth_eq {era mp : Int} (hera : era = (day + 719468).fdiv 146097)
    (hdoe : day + 719468 - era * 146097 = doe)
    (hmp : mp = (5 * (doe - yearStart (yearOfEra doe)) + 2) / 153) :
    civilMonth day = (yearOfEra doe + era * 400 + (if (if mp < 10 then mp + 3 else mp - 9) ≤ 2 then 1 else 0),
      if mp < 10 then mp + 3 else mp - 9) := by
  subst hera hdoe hmp
  rfl

/-- The era of a day. -/
def eraOf (day : Int) : Int := (day + 719468) / 146097

/-- The day within its era. -/
def dayOfEra (day : Int) : Int := day + 719468 - eraOf day * 146097

theorem dayOfEra_bounds (day : Int) : 0 ≤ dayOfEra day ∧ dayOfEra day ≤ 146096 := by
  unfold dayOfEra eraOf
  omega

/-- The civil month in eras of 4800 months. -/
theorem monthCount_civilMonth (day : Int) :
    monthCount (civilMonth day) = 4800 * eraOf day + monthsOfEra (dayOfEra day) + 3 ∧
      1 ≤ (civilMonth day).2 ∧ (civilMonth day).2 ≤ 12 := by
  obtain ⟨h₀, h⟩ := dayOfEra_bounds day
  obtain ⟨_, hlow, hhigh, _⟩ := yearOfEra_spec h₀ h
  have hera : eraOf day = (day + 719468).fdiv 146097 := (Int.fdiv_eq_ediv_of_nonneg _ (by decide)).symm
  obtain ⟨mp, hmp⟩ : ∃ mp, mp = (5 * (dayOfEra day - yearStart (yearOfEra (dayOfEra day))) + 2) / 153 := ⟨_, rfl⟩
  have hbounds : 0 ≤ mp ∧ mp ≤ 11 := by omega
  have hdoe : day + 719468 - eraOf day * 146097 = dayOfEra day := rfl
  rw [civilMonth_eq hera hdoe hmp]
  unfold monthCount monthsOfEra
  rw [← hmp]
  generalize yearOfEra (dayOfEra day) = y
  clear hmp hlow hhigh
  by_cases hwinter : mp < 10
  · simp only [if_pos hwinter]
    rw [if_neg (by omega : ¬ mp + 3 ≤ 2)]
    omega
  · simp only [if_neg hwinter]
    rw [if_pos (by omega : mp - 9 ≤ 2)]
    omega

/-- **Later days fall in no earlier month.** -/
theorem monthCount_mono (h : day ≤ day') : monthCount (civilMonth day) ≤ monthCount (civilMonth day') := by
  rw [(monthCount_civilMonth day).1, (monthCount_civilMonth day').1]
  have hera : eraOf day ≤ eraOf day' := Int.ediv_le_ediv (by decide) (by omega)
  obtain ⟨h₀, hb⟩ := dayOfEra_bounds day
  obtain ⟨h₀', hb'⟩ := dayOfEra_bounds day'
  have hmonths := monthsOfEra_bounds h₀ hb
  have hmonths' := monthsOfEra_bounds h₀' hb'
  rcases lt_or_eq_of_le hera with hlt | heq
  · omega
  · have hdays : dayOfEra day ≤ dayOfEra day' := by
      unfold dayOfEra
      rw [heq]
      omega
    have hmono := monthsOfEra_mono h₀ hdays hb'
    omega

theorem monthNumber_mono {ts ts' : Int} (h : ts ≤ ts') : monthNumber ts ≤ monthNumber ts' := by
  apply monthCount_mono
  rw [Int.fdiv_eq_ediv_of_nonneg _ (by decide), Int.fdiv_eq_ediv_of_nonneg _ (by decide)]
  exact Int.ediv_le_ediv (by decide) h

/-! ## Labels -/

/-- `YYYY-MM`. -/
def monthLabel (date : Int × Int) : String :=
  toString date.1 ++ "-" ++ (if date.2 < 10 then "0" ++ toString date.2 else toString date.2)

theorem monthKey_eq (ts : Int) : monthKey ts = monthLabel (civilMonth (ts.fdiv 86400000)) := rfl

/-- The months of a year, as they are written. -/
def monthDigits : List String := ["01", "02", "03", "04", "05", "06", "07", "08", "09", "10", "11", "12"]

/-- A month is written with two digits, and no two are written alike. -/
theorem digits_of_month {m : Int} (h : 1 ≤ m ∧ m ≤ 12) :
    monthDigits[(m - 1).toNat]? = some (if m < 10 then "0" ++ toString m else toString m) := by
  obtain ⟨h₁, h₁₂⟩ := h
  interval_cases m <;> rfl

theorem length_of_digits {m : Int} (h : 1 ≤ m ∧ m ≤ 12) :
    (if m < 10 then "0" ++ toString m else toString m).toList.length = 2 := by
  have hmem := List.mem_of_getElem? (digits_of_month h)
  have hall : ∀ w ∈ monthDigits, w.toList.length = 2 := by decide
  exact hall _ hmem

theorem monthLabel_inj {a b : Int × Int} (ha : 1 ≤ a.2 ∧ a.2 ≤ 12) (hb : 1 ≤ b.2 ∧ b.2 ≤ 12)
    (h : monthLabel a = monthLabel b) : a = b := by
  have hl := congrArg String.toList h
  unfold monthLabel at hl
  rw [String.toList_append, String.toList_append, String.toList_append, String.toList_append] at hl
  obtain ⟨hyear, hmonth⟩ := List.append_inj' hl (by rw [length_of_digits ha, length_of_digits hb])
  -- the year reads back, and the months have different digits
  have hy : a.1 = b.1 := by
    have hrepr : a.1.repr = b.1.repr := String.toList_inj.mp (List.append_cancel_right hyear)
    have hread := congrArg String.toInt? hrepr
    rw [Int.toInt?_repr, Int.toInt?_repr] at hread
    exact Option.some.inj hread
  have hm : a.2 = b.2 := by
    have hda := digits_of_month ha
    rw [String.toList_inj.mp hmonth, ← digits_of_month hb] at hda
    have hlen : (a.2 - 1).toNat < monthDigits.length := by
      show _ < 12
      omega
    have hidx := (List.getElem?_inj hlen (by decide)).mp hda
    omega
  exact Prod.ext hy hm

/-- **Two times have one label exactly when they are in one month.** -/
theorem monthKey_eq_iff {ts ts' : Int} : monthKey ts = monthKey ts' ↔ monthNumber ts = monthNumber ts' := by
  have hm := (monthCount_civilMonth (ts.fdiv 86400000)).2
  have hm' := (monthCount_civilMonth (ts'.fdiv 86400000)).2
  constructor
  · intro h
    rw [monthKey_eq, monthKey_eq] at h
    exact congrArg monthCount (monthLabel_inj hm hm' h)
  · intro h
    rw [monthKey_eq, monthKey_eq]
    unfold monthNumber monthCount at h
    have hdate : civilMonth (ts.fdiv 86400000) = civilMonth (ts'.fdiv 86400000) := by
      apply Prod.ext <;> omega
    rw [hdate]

end SoroSense.Backend
