import Curtail.Number.Shortest
import Mathlib.Data.Int.Log
import Mathlib.Data.Rat.Floor
import Mathlib.Tactic.FieldSimp
import Mathlib.Tactic.Ring

namespace Curtail

variable {halfway : Halfway} {negative : Bool} {num den k : Nat}

theorem roundQuotient_mul (halfway : Halfway) (num den : Nat) (positive : 0 < k) :
    roundQuotient halfway (k * num) (k * den) = roundQuotient halfway num den := by
  have less (a b : Nat) : 2 * (k * a) < k * b ↔ 2 * a < b := by
    rw [Nat.mul_left_comm]
    exact Nat.mul_lt_mul_left positive
  have more (a b : Nat) : k * a < 2 * (k * b) ↔ a < 2 * b := by
    rw [Nat.mul_left_comm 2]
    exact Nat.mul_lt_mul_left positive
  simp only [roundQuotient, Nat.mul_div_mul_left _ _ positive, Nat.mul_mod_mul_left, less, more]

theorem roundQuotient_self (halfway : Halfway) (n : Nat) (positive : 0 < den) :
    roundQuotient halfway (n * den) den = n := by
  simp [roundQuotient, Nat.mul_div_cancel _ positive, positive]

theorem log_eq {q : ℚ} {k : ℤ} (low : (2 : ℚ) ^ k ≤ q) (high : q < (2 : ℚ) ^ (k + 1)) :
    Int.log 2 q = k := by
  have positive : 0 < q := lt_of_lt_of_le (zpow_pos (by norm_num) k) low
  have least : k ≤ Int.log 2 q :=
    (Int.zpow_le_iff_le_log (by decide) positive).mp (by exact_mod_cast low)
  have most : Int.log 2 q < k + 1 :=
    (Int.lt_zpow_iff_log_lt (by decide) positive).mp (by exact_mod_cast high)
  omega

namespace Binary64

theorem scaled_pos (positive : 0 < den) (exponent : Int) : 0 < (scaled num den exponent).2 := by
  unfold scaled
  split
  · exact positive
  · exact Nat.mul_pos positive (Nat.two_pow_pos _)

theorem scaled_mul (k num den : Nat) (exponent : Int) : scaled (k * num) (k * den) exponent =
    (k * (scaled num den exponent).1, k * (scaled num den exponent).2) := by
  unfold scaled
  split <;> simp [Nat.mul_assoc]

theorem ratio_scaled (num den : Nat) (exponent : Int) :
    ((scaled num den exponent).1 : ℚ) / (scaled num den exponent).2 = num / den / 2 ^ exponent := by
  unfold scaled
  by_cases below : exponent < 0
  · have size : exponent = -(exponent.natAbs : Int) := by omega
    rw [if_pos below]
    push_cast [Nat.pow_eq]
    rw [size, zpow_neg, zpow_natCast, Int.natAbs_neg, Int.natAbs_natCast]
    field_simp
  · have size : exponent = (exponent.natAbs : Int) := by omega
    rw [if_neg below]
    push_cast [Nat.pow_eq]
    rw [size, zpow_natCast, Int.natAbs_natCast]
    field_simp

theorem le_scaled_iff (num : Nat) (positive : 0 < den) (exponent : Int) (n : Nat) :
    n ≤ (scaled num den exponent).1 / (scaled num den exponent).2 ↔
      (n : ℚ) * 2 ^ exponent ≤ num / den := by
  have below : (0 : ℚ) < (scaled num den exponent).2 := by exact_mod_cast scaled_pos positive exponent
  have power : (0 : ℚ) < 2 ^ exponent := zpow_pos (by norm_num) exponent
  rw [Nat.le_div_iff_mul_le (scaled_pos positive exponent), ← le_div_iff₀ power, ← ratio_scaled,
    le_div_iff₀ below]
  exact_mod_cast Iff.rfl

theorem ratio_lt (num : Nat) (positive : 0 < den) :
    (num / den : ℚ) < 2 ^ ((num.log2 : Int) - den.log2 + 1) := by
  have below : (0 : ℚ) < den := by exact_mod_cast positive
  have most : (num : ℚ) < 2 ^ ((num.log2 : Int) + 1) := by exact_mod_cast Nat.lt_log2_self
  have least : (2 : ℚ) ^ (den.log2 : Int) ≤ den := by exact_mod_cast Nat.log2_self_le positive.ne'
  rw [div_lt_iff₀ below]
  calc (num : ℚ) < 2 ^ ((num.log2 : Int) + 1) := most
    _ = 2 ^ ((num.log2 : Int) - den.log2 + 1) * 2 ^ (den.log2 : Int) := by
      rw [← zpow_add₀ (by norm_num)]
      congr 1
      omega
    _ ≤ 2 ^ ((num.log2 : Int) - den.log2 + 1) * den :=
      mul_le_mul_of_nonneg_left least (zpow_nonneg (by norm_num) _)

theorem le_ratio (filled : 0 < num) (positive : 0 < den) :
    (2 : ℚ) ^ ((num.log2 : Int) - den.log2 - 1) ≤ num / den := by
  have below : (0 : ℚ) < den := by exact_mod_cast positive
  have most : (den : ℚ) < 2 ^ ((den.log2 : Int) + 1) := by exact_mod_cast Nat.lt_log2_self
  have least : (2 : ℚ) ^ (num.log2 : Int) ≤ num := by exact_mod_cast Nat.log2_self_le filled.ne'
  rw [le_div_iff₀ below]
  calc (2 : ℚ) ^ ((num.log2 : Int) - den.log2 - 1) * den
      ≤ 2 ^ ((num.log2 : Int) - den.log2 - 1) * 2 ^ ((den.log2 : Int) + 1) :=
        mul_le_mul_of_nonneg_left most.le (zpow_nonneg (by norm_num) _)
    _ = 2 ^ (num.log2 : Int) := by
      rw [← zpow_add₀ (by norm_num)]
      congr 1
      omega
    _ ≤ num := least

theorem exponentOf_eq (filled : 0 < num) (positive : 0 < den) :
    exponentOf num den = max (Int.log 2 (num / den : ℚ) - 52) (-1074) := by
  have fills := le_scaled_iff num positive ((num.log2 : Int) - den.log2 - 52) 0x10000000000000
  have wide : ((0x10000000000000 : Nat) : ℚ) * 2 ^ ((num.log2 : Int) - den.log2 - 52) =
      2 ^ ((num.log2 : Int) - den.log2) := by
    have bits : ((0x10000000000000 : Nat) : ℚ) = 2 ^ (52 : Int) := by norm_num
    rw [bits, ← zpow_add₀ (by norm_num)]
    congr 1
    omega
  rw [wide] at fills
  simp only [exponentOf, fills]
  congr 1
  by_cases full : (2 : ℚ) ^ ((num.log2 : Int) - den.log2) ≤ num / den
  · rw [if_pos full, log_eq full (ratio_lt num positive)]
  · rw [if_neg full, log_eq (le_ratio filled positive) (by simpa using full)]
    omega

theorem exponentOf_mul (filled : 0 < num) (below : 0 < den) (positive : 0 < k) :
    exponentOf (k * num) (k * den) = exponentOf num den := by
  rw [exponentOf_eq (Nat.mul_pos positive filled) (Nat.mul_pos positive below),
    exponentOf_eq filled below]
  push_cast
  rw [mul_div_mul_left _ _ (by exact_mod_cast positive.ne')]

theorem nearest?_mul (negative : Bool) (num : Nat) (below : 0 < den) (positive : 0 < k) :
    nearest? negative (k * num) (k * den) = nearest? negative num den := by
  have exponent : (if k * num = 0 then -1074 else exponentOf (k * num) (k * den)) =
      if num = 0 then -1074 else exponentOf num den := by
    by_cases none : num = 0
    · rw [if_pos none, if_pos (by rw [none, Nat.mul_zero])]
    · have filled := Nat.pos_of_ne_zero none
      rw [if_neg none, if_neg (Nat.mul_pos positive filled).ne', exponentOf_mul filled below positive]
  simp only [nearest?, exponent, scaled_mul, roundQuotient_mul _ _ _ positive]

theorem ratio_pos (x : Binary64) : 0 < x.ratio.2 := by
  unfold ratio
  split
  · exact Nat.two_pow_pos _
  · exact Nat.one_pos

theorem ratio_eq_zero_iff {x : Binary64} : x.ratio.1 = 0 ↔ x.significand = 0 := by
  unfold ratio
  split
  · exact Iff.rfl
  · rw [Nat.mul_eq_zero, Nat.pow_eq, or_iff_left (Nat.two_pow_pos _).ne']

theorem exponent_of_zero {x : Binary64} (none : x.significand = 0) : x.exponent = -1074 := by
  obtain ⟨-, -, -, normal | subnormal⟩ := x.isBinary64
  · omega
  · exact subnormal

theorem scaled_ratio (x : Binary64) : (scaled x.ratio.1 x.ratio.2 x.exponent).1 =
    x.significand * (scaled x.ratio.1 x.ratio.2 x.exponent).2 := by
  unfold scaled ratio
  by_cases below : x.exponent < 0
  · simp only [if_pos below]
  · simp only [if_neg below, Nat.one_mul]

theorem value_ratio (x : Binary64) :
    (x.ratio.1 / x.ratio.2 : ℚ) = x.significand * 2 ^ x.exponent := by
  have value := ratio_scaled x.ratio.1 x.ratio.2 x.exponent
  have below : (0 : ℚ) < (scaled x.ratio.1 x.ratio.2 x.exponent).2 := by
    exact_mod_cast scaled_pos x.ratio_pos x.exponent
  have power : (0 : ℚ) < 2 ^ x.exponent := zpow_pos (by norm_num) _
  rw [scaled_ratio, Nat.cast_mul, mul_div_assoc, div_self below.ne', mul_one,
    eq_div_iff power.ne'] at value
  exact value.symm

theorem exponentOf_ratio {x : Binary64} (filled : 0 < x.significand) :
    exponentOf x.ratio.1 x.ratio.2 = x.exponent := by
  obtain ⟨bound, least, -, full⟩ := x.isBinary64
  have power : (0 : ℚ) < 2 ^ x.exponent := zpow_pos (by norm_num) _
  have significand : (0 : ℚ) < x.significand := by exact_mod_cast filled
  have numerator : 0 < x.ratio.1 := Nat.pos_of_ne_zero fun none => filled.ne' (ratio_eq_zero_iff.mp none)
  have most : Int.log 2 (x.significand * 2 ^ x.exponent : ℚ) < x.exponent + 53 := by
    apply (Int.lt_zpow_iff_log_lt (by decide) (mul_pos significand power)).mp
    have bits : (x.significand : ℚ) < 2 ^ (53 : Int) := by
      norm_num
      exact_mod_cast bound
    rw [Nat.cast_ofNat, zpow_add₀ (by norm_num), mul_comm]
    exact mul_lt_mul_of_pos_left bits power
  rw [exponentOf_eq numerator x.ratio_pos, value_ratio]
  rcases full with normal | subnormal
  · have low : x.exponent + 52 ≤ Int.log 2 (x.significand * 2 ^ x.exponent : ℚ) := by
      apply (Int.zpow_le_iff_le_log (by decide) (mul_pos significand power)).mp
      have bits : (2 : ℚ) ^ (52 : Int) ≤ x.significand := by
        norm_num
        exact_mod_cast normal
      rw [Nat.cast_ofNat, zpow_add₀ (by norm_num), mul_comm]
      exact mul_le_mul_of_nonneg_right bits power.le
    omega
  · omega

theorem nearest?_ratio (x : Binary64) : nearest? x.negative x.ratio.1 x.ratio.2 = some x := by
  have exponent : (if x.ratio.1 = 0 then -1074 else exponentOf x.ratio.1 x.ratio.2) = x.exponent := by
    by_cases none : x.significand = 0
    · rw [if_pos (ratio_eq_zero_iff.mpr none), exponent_of_zero none]
    · rw [if_neg (mt ratio_eq_zero_iff.mp none), exponentOf_ratio (Nat.pos_of_ne_zero none)]
  have own := x.isBinary64
  have rounded : roundQuotient .toEven (scaled x.ratio.1 x.ratio.2 x.exponent).1
      (scaled x.ratio.1 x.ratio.2 x.exponent).2 = x.significand := by
    rw [scaled_ratio, roundQuotient_self _ _ (scaled_pos x.ratio_pos _)]
  have small : x.significand ≠ 0x20000000000000 := by
    have := own.1
    omega
  simp only [nearest?, exponent, rounded, if_neg small, dif_pos own]

end Binary64

namespace Decimal

def ratio (d : Decimal) : Nat × Nat :=
  if 0 ≤ d.power then (d.coefficient * 10 ^ d.power.natAbs, 1) else (d.coefficient, 10 ^ d.power.natAbs)

def nearest? (negative : Bool) (d : Decimal) : Option Binary64 :=
  Binary64.nearest? negative d.ratio.1 d.ratio.2

theorem nearest?_shift (negative : Bool) {d : Decimal} (even : d.coefficient % 10 = 0) :
    nearest? negative ⟨d.coefficient / 10, d.power + 1⟩ = nearest? negative d := by
  have tens : 10 * (d.coefficient / 10) = d.coefficient := by omega
  unfold nearest? ratio
  by_cases above : 0 ≤ d.power
  · have next : (d.power + 1).natAbs = d.power.natAbs + 1 := by omega
    have power : d.coefficient / 10 * 10 ^ (d.power.natAbs + 1) = d.coefficient * 10 ^ d.power.natAbs := by
      rw [Nat.pow_succ', ← Nat.mul_assoc, Nat.mul_comm _ 10, tens]
    simp only [if_pos above, if_pos (show 0 ≤ d.power + 1 by omega), next, power]
  · simp only [if_neg above]
    by_cases last : 0 ≤ d.power + 1
    · have one : d.power.natAbs = 1 := by omega
      have none : (d.power + 1).natAbs = 0 := by omega
      have scaled := Binary64.nearest?_mul negative (d.coefficient / 10) Nat.one_pos
        (show 0 < 10 by decide)
      simp only [if_pos last, one, none, Nat.pow_zero, Nat.mul_one, Nat.pow_one]
      rw [← scaled, tens]
    · have next : d.power.natAbs = (d.power + 1).natAbs + 1 := by omega
      have scaled := Binary64.nearest?_mul negative (d.coefficient / 10)
        (Nat.pow_pos (n := (d.power + 1).natAbs) (show 0 < 10 by decide)) (show 0 < 10 by decide)
      simp only [if_neg last, next, Nat.pow_succ']
      rw [← scaled, tens]

theorem nearest?_dropZeros (negative : Bool) (fuel : Nat) (d : Decimal) :
    nearest? negative (d.dropZeros fuel) = nearest? negative d := by
  induction fuel generalizing d with
  | zero => rfl
  | succ fuel ih =>
      unfold dropZeros
      split
      · rename_i zero
        rw [ih, nearest?_shift negative zero.2]
      · rfl

theorem nearest?_trimmed (negative : Bool) (d : Decimal) :
    nearest? negative d.trimmed = nearest? negative d :=
  nearest?_dropZeros negative _ d

theorem nearest?_of_ofDecimal? {negative : Bool} {d : Decimal} {x : Binary64}
    (filled : x.significand ≠ 0)
    (read : Binary64.ofDecimal? negative d.coefficient d.power = some x) :
    nearest? negative d = some x := by
  unfold Binary64.ofDecimal? at read
  unfold nearest? ratio
  split at read
  · obtain rfl := Option.some.inj read
    exact (filled rfl).elim
  · split at read
    · rename_i above
      rw [if_pos above]
      split at read
      · cases read
      · exact read
    · rename_i below
      rw [if_neg below]
      split at read
      · obtain rfl := Option.some.inj read
        exact (filled rfl).elim
      · exact read

end Decimal

namespace Binary64

theorem exact_nearest? (x : Binary64) : x.exact.nearest? x.negative = some x := by
  have own := x.nearest?_ratio
  unfold Decimal.nearest? Decimal.ratio exact
  unfold ratio at own
  by_cases below : x.exponent < 0
  · have scaled := nearest?_mul x.negative x.significand (Nat.two_pow_pos x.exponent.natAbs)
      (Nat.pow_pos (n := x.exponent.natAbs) (show 0 < 5 by decide))
    rw [← Nat.mul_pow] at scaled
    simp only [if_pos below, if_neg (not_le.mpr below), Nat.pow_eq] at own ⊢
    rw [Nat.mul_comm x.significand]
    exact scaled.trans own
  · simpa [if_neg below] using own

theorem readsBack_of_neighbour? {x : Binary64} {power : Int} {d : Decimal}
    (found : x.neighbour? halfway power = some d) : x.readsBack d = true := by
  unfold neighbour? at found
  simp only at found
  split at found
  · rename_i low high
    obtain rfl := Option.some.inj found
    split
    · exact low
    · exact high
  · rename_i low _
    obtain rfl := Option.some.inj found
    exact low
  · rename_i _ high
    obtain rfl := Option.some.inj found
    exact high
  · cases found

theorem shortest_nearest? (halfway : Halfway) (x : Binary64) :
    (x.shortest halfway).nearest? x.negative = some x := by
  unfold shortest
  by_cases none : x.significand = 0
  · have own := x.nearest?_ratio
    rw [ratio_eq_zero_iff.mpr none] at own
    have scaled := nearest?_mul x.negative 0 Nat.one_pos x.ratio_pos
    rw [Nat.mul_zero, Nat.mul_one, own] at scaled
    rw [if_pos none]
    exact scaled.symm
  · rw [if_neg none]
    have reads {d : Decimal} (back : x.readsBack d = true) : d.nearest? x.negative = some x :=
      Decimal.nearest?_of_ofDecimal? none (of_decide_eq_true back)
    simp only
    split
    · rename_i found searched
      obtain ⟨n, -, near⟩ := List.exists_of_findSome?_eq_some searched
      rw [Decimal.nearest?_trimmed]
      exact reads (readsBack_of_neighbour? near)
    · rw [Decimal.nearest?_trimmed, exact_nearest?]

theorem eq_of_shortest {x y : Binary64} (sign : x.negative = y.negative)
    (same : x.shortest halfway = y.shortest halfway) : x = y := by
  have digits := shortest_nearest? halfway x
  rw [sign, same, shortest_nearest? halfway y] at digits
  exact (Option.some.inj digits).symm

end Binary64

end Curtail
