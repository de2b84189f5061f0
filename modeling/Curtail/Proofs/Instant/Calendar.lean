import Curtail.Instant.Basic
import Mathlib.Tactic.Common

namespace Curtail.Day

theorem lastOf_le (year : Int) (month : Nat) : lastOf year month ≤ 31 := by
  unfold lastOf
  split
  · split <;> decide
  all_goals decide

theorem year_of_era {ofEra year : Int} (low : 0 ≤ ofEra) (high : ofEra < 146097)
    (h : year = (ofEra - ofEra / 1460 + ofEra / 36524 - ofEra / 146096) / 365) :
    0 ≤ year ∧ year ≤ 399 ∧ 365 * year + year / 4 - year / 100 ≤ ofEra ∧
      ofEra < 365 * (year + 1) + (year + 1) / 4 - (year + 1) / 100 + (year + 1) / 400 := by
  -- The last day of an era is the leap day of a fourth century, which the quotients put too far.
  have last : ofEra / 146096 = 0 ∨ ofEra = 146096 := by omega
  rcases last with last | rfl
  · have century : year / 100 = ofEra / 36524 := by
      have b : ofEra / 36524 = 0 ∨ ofEra / 36524 = 1 ∨ ofEra / 36524 = 2 ∨ ofEra / 36524 = 3 := by
        omega
      rcases b with b | b | b | b <;> rw [b, last] at h <;> rw [b] <;> omega
    have inCycle : year - 4 * (ofEra / 1460) = -1 ∨ year - 4 * (ofEra / 1460) = 0 ∨
        year - 4 * (ofEra / 1460) = 1 ∨ year - 4 * (ofEra / 1460) = 2 ∨
        year - 4 * (ofEra / 1460) = 3 := by omega
    have after : (year + 1) / 100 = ofEra / 36524 ∨ (year + 1) / 100 = ofEra / 36524 + 1 := by omega
    rcases inCycle with k | k | k | k | k <;> rcases after with n | n <;> omega
  · omega

theorem isLeapYear_of_long {era year : Int} (low : 0 ≤ year) (high : year ≤ 399)
    (long : year / 4 - year / 100 < (year + 1) / 4 - (year + 1) / 100 + (year + 1) / 400) :
    isLeapYear (year + era * 400 + 1) = true := by
  simp only [isLeapYear, Bool.and_eq_true, Bool.or_eq_true, decide_eq_true_eq]
  omega

theorem month_of_year {ofYear month : Int} (low : 0 ≤ ofYear) (high : ofYear ≤ 365)
    (h : month = (5 * ofYear + 2) / 153) :
    0 ≤ month ∧ month ≤ 11 ∧ (153 * month + 2) / 5 ≤ ofYear ∧
      ofYear < (153 * (month + 1) + 2) / 5 := by
  omega

theorem month_cases {month : Int} (low : 0 ≤ month) (high : month ≤ 11) :
    month = 0 ∨ month = 1 ∨ month = 2 ∨ month = 3 ∨ month = 4 ∨ month = 5 ∨ month = 6 ∨ month = 7 ∨
      month = 8 ∨ month = 9 ∨ month = 10 ∨ month = 11 := by
  omega

theorem ofNumber_parts (number : Int) : ∃ era year month day : Int,
    number = era * 146097 + (year * 365 + year / 4 - year / 100 + ((153 * month + 2) / 5 + day)) -
      719468 ∧
    0 ≤ year ∧ year ≤ 399 ∧ 0 ≤ month ∧ month ≤ 11 ∧ 0 ≤ day ∧
    (153 * month + 2) / 5 + day < (153 * (month + 1) + 2) / 5 ∧
    (153 * month + 2) / 5 + day ≤ 365 ∧
    ((153 * month + 2) / 5 + day = 365 → isLeapYear (year + era * 400 + 1) = true) ∧
    ofNumber number =
      if month < 10 then ⟨year + era * 400, (month + 3).natAbs, (day + 1).natAbs⟩
      else ⟨year + era * 400 + 1, (month - 9).natAbs, (day + 1).natAbs⟩ := by
  let n := number + 719468
  let era := n.fdiv 146097
  let ofEra := n - era * 146097
  let year := (ofEra - ofEra / 1460 + ofEra / 36524 - ofEra / 146096) / 365
  let ofYear := ofEra - (365 * year + year / 4 - year / 100)
  let month := (5 * ofYear + 2) / 153
  have low : 0 ≤ ofEra := by simp only [ofEra, era, Int.fdiv_eq_ediv]; omega
  have high : ofEra < 146097 := by simp only [ofEra, era, Int.fdiv_eq_ediv]; omega
  obtain ⟨first, last, lower, upper⟩ := year_of_era low high (rfl : year = _)
  have start : 0 ≤ ofYear := by omega
  have stop : ofYear ≤ 365 := by omega
  obtain ⟨m0, m11, before, after⟩ := month_of_year start stop (rfl : month = _)
  refine ⟨era, year, month, ofYear - (153 * month + 2) / 5, by omega, first, last, m0, m11, by omega,
    by omega, by omega, fun long => isLeapYear_of_long first last (by omega), ?_⟩
  change Day.mk (if (if month < 10 then month + 3 else month - 9) ≤ 2 then year + era * 400 + 1
    else year + era * 400) (if month < 10 then month + 3 else month - 9).natAbs
    (ofYear - (153 * month + 2) / 5 + 1).natAbs = _
  by_cases early : month < 10
  · simp only [if_pos early]
    rw [if_neg (by omega)]
  · simp only [if_neg early]
    rw [if_pos (by omega)]

theorem ofNumber_exists (number : Int) : (ofNumber number).exists? = true := by
  obtain ⟨era, year, month, day, -, -, -, m0, m11, d0, within, bound, leap, equal⟩ :=
    ofNumber_parts number
  rw [equal]
  rcases month_cases m0 m11 with rfl | rfl | rfl | rfl | rfl | rfl | rfl | rfl | rfl | rfl | rfl | rfl
  -- February comes last; its length depends on the year
  case inr.inr.inr.inr.inr.inr.inr.inr.inr.inr.inr =>
    simp only [exists?, lastOf]
    by_cases leapYear : isLeapYear (year + era * 400 + 1) = true
    · simp [leapYear]
      omega
    · have short : (153 * 11 + 2) / 5 + day ≠ 365 := fun long => leapYear (leap long)
      simp [leapYear]
      omega
  all_goals simp [exists?, lastOf]; omega

theorem toNumber_ofNumber (number : Int) : (ofNumber number).toNumber = number := by
  obtain ⟨era, year, month, day, sum, y0, y399, m0, m11, d0, -, -, -, equal⟩ := ofNumber_parts number
  rw [equal]
  obtain ⟨ofMonth, same⟩ : ∃ ofMonth, (day + 1).natAbs = ofMonth := ⟨_, rfl⟩
  have counted : (ofMonth : Int) = day + 1 := by omega
  rw [same]
  rcases month_cases m0 m11 with rfl | rfl | rfl | rfl | rfl | rfl | rfl | rfl | rfl | rfl | rfl | rfl
  all_goals simp [toNumber, Int.fdiv_eq_ediv, counted]
  all_goals omega

theorem number_bounds {number : Int} (low : 0 ≤ (ofNumber number).year)
    (high : (ofNumber number).year ≤ 9999) : -720000 ≤ number ∧ number ≤ 2940000 := by
  obtain ⟨era, year, month, day, sum, y0, y399, m0, m11, d0, -, bound, -, equal⟩ :=
    ofNumber_parts number
  rw [equal] at low high
  have near : 0 ≤ year + era * 400 + 1 ∧ year + era * 400 ≤ 9999 := by
    split at low <;> simp_all <;> omega
  omega

theorem year_bounds {number : Int} (low : (⟨firstYear, 1, 1⟩ : Day).toNumber ≤ number)
    (high : number < (⟨lastYear + 1, 1, 1⟩ : Day).toNumber) :
    firstYear ≤ (ofNumber number).year ∧ (ofNumber number).year ≤ lastYear := by
  have first : (⟨firstYear, 1, 1⟩ : Day).toNumber = -96465292 := by decide
  have past : (⟨lastYear + 1, 1, 1⟩ : Day).toNumber = 95026237 := by decide
  obtain ⟨era, year, month, day, sum, y0, y399, m0, m11, d0, within, bound, -, equal⟩ :=
    ofNumber_parts number
  rw [first] at low
  rw [past] at high
  rw [equal]
  unfold firstYear lastYear
  by_cases early : month < 10
  · -- January is not reached, so that a year before the first one ends too early.
    have january : (153 * month + 2) / 5 + day < 306 := by omega
    rw [if_pos early]
    refine ⟨?_, by simp only; omega⟩
    by_contra before
    have eras : era ≤ -657 ∨ era = -656 := by simp only at before; omega
    rcases eras with far | rfl
    · omega
    · have years : year = 256 ∨ year ≤ 255 := by simp only at before; omega
      rcases years with rfl | less <;> omega
  · have january : 306 ≤ (153 * month + 2) / 5 + day := by omega
    rw [if_neg early]
    refine ⟨by simp only; omega, ?_⟩
    by_contra after
    have eras : era = 655 ∨ 656 ≤ era := by simp only at after; omega
    rcases eras with rfl | far
    · have years : year = 142 ∨ 143 ≤ year := by simp only at after; omega
      rcases years with rfl | more <;> omega
    · omega

end Curtail.Day
