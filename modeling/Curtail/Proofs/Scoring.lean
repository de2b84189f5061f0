import Curtail.Scoring
import Mathlib.Algebra.Order.Ring.Int
import Mathlib.Tactic.Positivity

namespace Curtail.Scoring

variable {low high bound value : Int}

theorem clamp_le (inside : low ≤ bound) (below : value ≤ bound) : clamp low high value ≤ bound :=
  max_le inside ((min_le_right high value).trans below)

theorem le_clamp (inside : bound ≤ high) (above : bound ≤ value) : bound ≤ clamp low high value :=
  (le_min inside above).trans (le_max_right low _)

theorem saturate_le (positive : 0 ≤ bound) (below : value ≤ bound) : saturate value ≤ bound :=
  clamp_le (by omega) below

theorem le_saturate (negative : bound ≤ 0) (above : bound ≤ value) : bound ≤ saturate value :=
  le_clamp (by omega) above

def wide (reduction share reward penalty : UInt64) : Int :=
  if (share.toNat : Int) ≤ reduction.toNat then saturate (share.toNat * reward.toNat)
  else saturate (saturate (reduction.toNat * reward.toNat) -
    saturate ((share.toNat - reduction.toNat) * penalty.toNat))

theorem rated_nonneg (amount rate : UInt64) : (0 : Int) ≤ amount.toNat * rate.toNat := by
  positivity

variable (reduction share reward penalty : UInt64)

theorem toInt_payout : (payout reduction share reward penalty).toInt =
    clamp (-0x8000000000000000) 0x7fffffffffffffff (wide reduction share reward penalty) := by
  apply Int64.toInt_ofInt_of_le
  · exact le_max_left _ _
  · exact Int.lt_add_one_of_le (max_le (by decide) (min_le_left _ _))

theorem wide_le : wide reduction share reward penalty ≤ share.toNat * reward.toNat := by
  have whole := rated_nonneg share reward
  unfold wide
  split
  · exact saturate_le whole le_rfl
  case isFalse short =>
    have earned : saturate (reduction.toNat * reward.toNat) ≤ share.toNat * reward.toNat :=
      saturate_le whole (Int.mul_le_mul_of_nonneg_right (by omega) (by omega))
    have owed : 0 ≤ saturate ((share.toNat - reduction.toNat) * penalty.toNat) :=
      le_saturate le_rfl (Int.mul_nonneg (by omega) (by omega))
    exact saturate_le whole (by omega)

theorem le_wide : -(share.toNat * penalty.toNat : Int) ≤ wide reduction share reward penalty := by
  have whole := Int.neg_nonpos_of_nonneg (rated_nonneg share penalty)
  unfold wide
  split
  · exact le_saturate whole (whole.trans (rated_nonneg share reward))
  case isFalse short =>
    have earned : 0 ≤ saturate (reduction.toNat * reward.toNat) :=
      le_saturate le_rfl (rated_nonneg reduction reward)
    have owed : saturate ((share.toNat - reduction.toNat) * penalty.toNat) ≤
        share.toNat * penalty.toNat :=
      saturate_le (rated_nonneg share penalty) (Int.mul_le_mul_of_nonneg_right (by omega) (by omega))
    exact le_saturate whole (by omega)

theorem payout_le :
    (payout reduction share reward penalty).toInt ≤ share.toNat * reward.toNat := by
  have whole := rated_nonneg share reward
  rw [toInt_payout]
  exact clamp_le (by omega) (wide_le reduction share reward penalty)

theorem le_payout :
    -(share.toNat * penalty.toNat : Int) ≤ (payout reduction share reward penalty).toInt := by
  have whole := rated_nonneg share penalty
  rw [toInt_payout]
  exact le_clamp (by omega) (le_wide reduction share reward penalty)

def exact : Int :=
  if (share.toNat : Int) ≤ reduction.toNat then share.toNat * reward.toNat
  else reduction.toNat * reward.toNat - (share.toNat - reduction.toNat) * penalty.toNat

theorem clamp_saturate (value : Int) :
    clamp (-0x8000000000000000) 0x7fffffffffffffff (saturate value) =
      clamp (-0x8000000000000000) 0x7fffffffffffffff value := by
  unfold saturate clamp
  omega

theorem le_word (word : UInt64) : (word.toNat : Int) ≤ 2 ^ 64 - 1 := by
  have := word.toNat_lt
  omega

/-- An amount whose product is beyond 128 bits takes more than half of a word's range. -/
theorem rated_of_overflow {amount other : Int} {rate otherRate : UInt64} (positive : 0 ≤ amount)
    (within : amount + other < 2 ^ 64) (beyond : 2 ^ 127 ≤ amount * rate.toNat) :
    other * otherRate.toNat + 2 ^ 63 < 2 ^ 127 := by
  have half : 2 ^ 63 < amount := by
    have most : amount * rate.toNat ≤ amount * (2 ^ 64 - 1) :=
      Int.mul_le_mul_of_nonneg_left (le_word rate) positive
    omega
  have little : other * otherRate.toNat ≤ (2 ^ 63 - 2) * (2 ^ 64 - 1) :=
    Int.mul_le_mul (by omega) (le_word otherRate) (by omega) (by omega)
  omega

/-- Of two products with a limit only one can be beyond it. -/
theorem clamp_saturate_sub {earned owed : Int} (earns : 0 ≤ earned) (owes : 0 ≤ owed)
    (gain : 2 ^ 127 ≤ earned → owed + 2 ^ 63 < 2 ^ 127)
    (loss : 2 ^ 127 ≤ owed → earned + 2 ^ 63 < 2 ^ 127) :
    clamp (-0x8000000000000000) 0x7fffffffffffffff (saturate earned - saturate owed) =
      clamp (-0x8000000000000000) 0x7fffffffffffffff (earned - owed) := by
  unfold saturate clamp
  omega

theorem clamp_wide : clamp (-0x8000000000000000) 0x7fffffffffffffff (wide reduction share reward penalty) =
    clamp (-0x8000000000000000) 0x7fffffffffffffff (exact reduction share reward penalty) := by
  unfold wide exact
  split
  · exact clamp_saturate _
  case isFalse short =>
    have within := le_word share
    rw [clamp_saturate]
    apply clamp_saturate_sub
    · exact rated_nonneg reduction reward
    · exact Int.mul_nonneg (by omega) (by omega)
    · exact rated_of_overflow (by omega) (by omega)
    · exact rated_of_overflow (by omega) (by omega)

theorem exact_mono {more : UInt64} (le : reduction ≤ more) :
    exact reduction share reward penalty ≤ exact more share reward penalty := by
  have further : (reduction.toNat : Int) ≤ more.toNat := by exact_mod_cast UInt64.le_iff_toNat_le.mp le
  unfold exact
  split
  case isTrue whole => rw [if_pos (whole.trans further)]
  case isFalse short =>
    split
    case isTrue whole =>
      have earned : (reduction.toNat * reward.toNat : Int) ≤ share.toNat * reward.toNat :=
        Int.mul_le_mul_of_nonneg_right (by omega) (by omega)
      have owed : 0 ≤ (share.toNat - reduction.toNat : Int) * penalty.toNat :=
        Int.mul_nonneg (by omega) (by omega)
      omega
    case isFalse shorter =>
      have earned : (reduction.toNat * reward.toNat : Int) ≤ more.toNat * reward.toNat :=
        Int.mul_le_mul_of_nonneg_right further (by omega)
      have owed : (share.toNat - more.toNat : Int) * penalty.toNat ≤
          (share.toNat - reduction.toNat) * penalty.toNat :=
        Int.mul_le_mul_of_nonneg_right (by omega) (by omega)
      omega

theorem payout_mono {more : UInt64} (le : reduction ≤ more) :
    payout reduction share reward penalty ≤ payout more share reward penalty := by
  have further := exact_mono reduction share reward penalty le
  rw [Int64.le_iff_toInt_le, toInt_payout, toInt_payout, clamp_wide, clamp_wide]
  exact max_le_max le_rfl (min_le_min le_rfl further)

/-- A payout is what a site has earned less what it owes, cut off once to 64 bits. -/
theorem payout_eq_exact : (payout reduction share reward penalty).toInt =
    max (-2 ^ 63) (min (2 ^ 63 - 1) (exact reduction share reward penalty)) := by
  rw [toInt_payout, clamp_wide]
  rfl

example : payout 0x8000000000000001 0xffffffffffffffff 0xffffffffffffffff 0xffffffffffffffff =
    0x7fffffffffffffff := by decide

end Curtail.Scoring
