import Mathlib

/-!
# Rounding to double precision

The double nearest to a rational, ties to even, as division yields it; exponents are left unbounded. A
quotient is off by one part in `2 ^ 53` at most (`toDouble_le`), and below `2 ^ 53` rounding does not
take it below the integers it is above (`natCast_le_toDouble`). What is further than half of its last
place below the next integer keeps its integer part (`floor_toDouble`).
-/

namespace Concord.Base

/-- The integer nearest to `y`, ties to even. -/
def roundHalfEven (y : ℚ) : ℤ :=
  if y - ⌊y⌋ < 1 / 2 then ⌊y⌋
  else if 1 / 2 < y - ⌊y⌋ then ⌊y⌋ + 1
  else if ⌊y⌋ % 2 = 0 then ⌊y⌋
  else ⌊y⌋ + 1

/-- The value of the last of the 53 bits of a double of this size. -/
def ulp (x : ℚ) : ℚ := 2 ^ (Int.log 2 x - 52)

/-- The double nearest to `x`. -/
def toDouble (x : ℚ) : ℚ := roundHalfEven (x / ulp x) * ulp x

/-- The double nearest to a rational of either sign. -/
def nearestDouble (x : ℚ) : ℚ := if x < 0 then -toDouble (-x) else toDouble x

section Rounding

variable {x y : ℚ}

theorem floor_le_roundHalfEven (y : ℚ) : ⌊y⌋ ≤ roundHalfEven y := by
  unfold roundHalfEven
  split_ifs <;> omega

theorem roundHalfEven_le (y : ℚ) : (roundHalfEven y : ℚ) ≤ y + 1 / 2 := by
  have hfloor := Int.floor_le y
  unfold roundHalfEven
  split_ifs with hlow hhigh heven
  · linarith
  · push_cast
    linarith
  · linarith
  · push_cast
    linarith

theorem ulp_pos (x : ℚ) : 0 < ulp x := zpow_pos (by norm_num) _

/-- The last place is one part in `2 ^ 52` at most. -/
theorem ulp_le (hx : 0 < x) : ulp x ≤ x / 2 ^ 52 := by
  have hlog : (2 : ℚ) ^ Int.log 2 x ≤ x := Int.zpow_log_le_self (by norm_num) hx
  unfold ulp
  rw [zpow_sub₀ (by norm_num)]
  exact div_le_div_of_nonneg_right hlog (by positivity)

theorem toDouble_nonneg (hx : 0 ≤ x) : 0 ≤ toDouble x := by
  have hquot : 0 ≤ ⌊x / ulp x⌋ := Int.floor_nonneg.2 (div_nonneg hx (ulp_pos x).le)
  have hround := hquot.trans (floor_le_roundHalfEven (x / ulp x))
  unfold toDouble
  exact mul_nonneg (by exact_mod_cast hround) (ulp_pos x).le

theorem toDouble_pos (hx : 0 < x) : 0 < toDouble x := by
  have hquot : 1 ≤ x / ulp x := by
    have hulp := ulp_le hx
    rw [le_div_iff₀ (ulp_pos x)]
    linarith
  have hfloor : 1 ≤ ⌊x / ulp x⌋ := Int.le_floor.2 (by exact_mod_cast hquot)
  have hround : 0 < roundHalfEven (x / ulp x) := lt_of_lt_of_le Int.one_pos (hfloor.trans (floor_le_roundHalfEven _))
  exact mul_pos (by exact_mod_cast hround) (ulp_pos x)

/-- Rounding keeps the sign. -/
theorem nearestDouble_neg_iff : nearestDouble x < 0 ↔ x < 0 := by
  unfold nearestDouble
  by_cases hx : x < 0
  · rw [if_pos hx]
    exact iff_of_true (neg_neg_of_pos (toDouble_pos (neg_pos.2 hx))) hx
  · rw [if_neg hx]
    exact iff_of_false (toDouble_nonneg (not_lt.1 hx)).not_gt hx

theorem nearestDouble_pos_iff : 0 < nearestDouble x ↔ 0 < x := by
  unfold nearestDouble
  by_cases hx : x < 0
  · rw [if_pos hx]
    have hneg : -toDouble (-x) < 0 := neg_neg_of_pos (toDouble_pos (neg_pos.2 hx))
    exact iff_of_false hneg.not_gt hx.not_gt
  · rw [if_neg hx]
    rcases (not_lt.1 hx).eq_or_lt with rfl | hpos
    · simp [toDouble, roundHalfEven]
    · exact iff_of_true (toDouble_pos hpos) hpos

/-- Below `2 ^ (k + 1)` the last place is at most that of `2 ^ k`. -/
theorem ulp_le_of_lt {k : ℤ} (hx : 0 < x) (h : x < 2 ^ (k + 1)) : ulp x ≤ 2 ^ (k - 52) := by
  have hlog : Int.log 2 x < k + 1 := by
    rw [← Int.lt_zpow_iff_log_lt (by norm_num) hx]
    exact_mod_cast h
  exact zpow_le_zpow_right₀ (by norm_num) (by omega)

/-- Rounding adds half of the last place at most. -/
theorem toDouble_le_add_ulp (x : ℚ) : toDouble x ≤ x + ulp x / 2 := by
  have hround := mul_le_mul_of_nonneg_right (roundHalfEven_le (x / ulp x)) (ulp_pos x).le
  have hquot : x / ulp x * ulp x = x := div_mul_cancel₀ x (ulp_pos x).ne'
  calc toDouble x ≤ (x / ulp x + 1 / 2) * ulp x := hround
    _ = x + ulp x / 2 := by rw [add_mul, hquot]; ring

theorem toDouble_le (hx : 0 ≤ x) : toDouble x ≤ x + x / 2 ^ 53 := by
  rcases hx.eq_or_lt with rfl | hpos
  · simp [toDouble, roundHalfEven]
  · have hround := toDouble_le_add_ulp x
    have hulp := ulp_le hpos
    linarith

/-- The integers below `2 ^ 53` are doubles, and rounding is monotone. -/
theorem natCast_le_toDouble {n : Nat} (hn : (n : ℚ) ≤ x) (hx : x < 2 ^ 53) :
    (n : ℚ) ≤ toDouble x := by
  rcases (Nat.cast_nonneg n |>.trans hn : (0 : ℚ) ≤ x).eq_or_lt with rfl | hpos
  · simpa [toDouble, roundHalfEven] using hn
  -- a number below `2 ^ 53` has a last place that divides one
  have hlog : Int.log 2 x < 53 := by
    rw [← Int.lt_zpow_iff_log_lt (by norm_num) hpos]
    exact_mod_cast hx
  obtain ⟨k, hk⟩ : ∃ k : Nat, Int.log 2 x - 52 = -(k : ℤ) :=
    ⟨(52 - Int.log 2 x).toNat, by omega⟩
  have hulp : ulp x * 2 ^ k = 1 := by
    rw [ulp, hk, zpow_neg, zpow_natCast]
    exact inv_mul_cancel₀ (by positivity)
  have hquot : (n : ℚ) / ulp x = ((n * 2 ^ k : Nat) : ℤ) := by
    rw [div_eq_iff (ulp_pos x).ne']
    push_cast
    rw [mul_assoc, mul_comm _ (ulp x), hulp, mul_one]
  have hfloor : ((n * 2 ^ k : Nat) : ℤ) ≤ ⌊x / ulp x⌋ := by
    rw [Int.le_floor, ← hquot]
    exact div_le_div_of_nonneg_right hn (ulp_pos x).le
  have hround : (((n * 2 ^ k : Nat) : ℤ) : ℚ) ≤ roundHalfEven (x / ulp x) := by
    exact_mod_cast hfloor.trans (floor_le_roundHalfEven _)
  rw [← hquot, div_le_iff₀ (ulp_pos x)] at hround
  exact hround

/-- A number further below the next integer than half of its last place keeps its integer part. -/
theorem floor_toDouble {n : Nat} (hn : (n : ℚ) ≤ x) (hgap : x + ulp x / 2 < n + 1) (hx : x < 2 ^ 53) :
    ⌊toDouble x⌋ = n := by
  rw [Int.floor_eq_iff]
  constructor
  · exact_mod_cast natCast_le_toDouble hn hx
  · have hround := toDouble_le_add_ulp x
    exact_mod_cast lt_of_le_of_lt hround hgap

end Rounding

end Concord.Base
