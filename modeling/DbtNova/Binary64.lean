import Mathlib.Algebra.Order.Field.Power
import Mathlib.Algebra.Order.Round
import Mathlib.Data.Int.Log
import Mathlib.Data.Rat.Floor
import Mathlib.Tactic.Linarith
import Mathlib.Tactic.NormNum
import Mathlib.Tactic.Positivity

/-!
# Rounding to 53 bits

Values that are not negative and far from both ends of the range of exponents. An operation
is the exact one on rationals followed by `round`. A rounded value differs from the exact one
by a bounded part of it, and whole numbers below `2 ^ 53` are exact. Rounding to a whole
number afterwards gives the same number for two values that are closer to each other than the
first one can be to a boundary.
-/
namespace DbtNova.Binary64

/-- The nearest whole number, and the even one of two that are as near. -/
def roundHalfEven (x : ℚ) : ℤ :=
  if x - ⌊x⌋ < 1 / 2 then ⌊x⌋
  else if 1 / 2 < x - ⌊x⌋ then ⌊x⌋ + 1
  else if ⌊x⌋ % 2 = 0 then ⌊x⌋ else ⌊x⌋ + 1

/-- The step between the numbers of 53 bits around the value. -/
def ulp (x : ℚ) : ℚ := 2 ^ (Int.log 2 x - 52)

def round (x : ℚ) : ℚ := roundHalfEven (x / ulp x) * ulp x

/-- The nearest whole number, and the larger one of two that are as near. -/
def roundHalfAway (x : ℚ) : ℤ := ⌊x + 1 / 2⌋

/-! ## The error of one rounding -/

theorem roundHalfEven_intCast (z : ℤ) : roundHalfEven z = z := by
  simp [roundHalfEven]

theorem abs_roundHalfEven_sub_le (x : ℚ) : |(roundHalfEven x : ℚ) - x| ≤ 1 / 2 := by
  have hfloor := Int.floor_le x
  have hlt := Int.lt_floor_add_one x
  unfold roundHalfEven
  rw [abs_le]
  split_ifs <;> push_cast <;> constructor <;> linarith

theorem ulp_pos (x : ℚ) : 0 < ulp x := zpow_pos (by norm_num) _

theorem ulp_le {x : ℚ} (hx : 0 < x) : ulp x ≤ x / 2 ^ 52 := by
  have hlog : (2 : ℚ) ^ Int.log 2 x ≤ x := by
    simpa using Int.zpow_log_le_self (b := 2) (by decide) hx
  unfold ulp
  rw [zpow_sub₀ (by norm_num)]
  exact div_le_div_of_nonneg_right hlog (by norm_num)

theorem abs_round_sub_le {x : ℚ} (hx : 0 ≤ x) : |round x - x| ≤ x / 2 ^ 53 := by
  obtain rfl | hpos := hx.eq_or_lt
  · simp [round, roundHalfEven]
  have hulp := ulp_pos x
  have hscaled : round x - x = (roundHalfEven (x / ulp x) - x / ulp x) * ulp x := by
    unfold round
    rw [sub_mul, div_mul_cancel₀ x hulp.ne']
  calc |round x - x| = |(roundHalfEven (x / ulp x) : ℚ) - x / ulp x| * ulp x := by
        rw [hscaled, abs_mul, abs_of_pos hulp]
    _ ≤ 1 / 2 * (x / 2 ^ 52) :=
        mul_le_mul (abs_roundHalfEven_sub_le _) (ulp_le hpos) hulp.le (by norm_num)
    _ = x / 2 ^ 53 := by ring

theorem round_natCast {n : ℕ} (hn : n < 2 ^ 53) : round n = n := by
  obtain rfl | hpos := Nat.eq_zero_or_pos n
  · simp [round, roundHalfEven]
  have hlog : Nat.log 2 n ≤ 52 := by
    have := Nat.log_lt_of_lt_pow hpos.ne' hn
    omega
  have hwhole : (n : ℚ) / ulp n = ((n * 2 ^ (52 - Nat.log 2 n) : ℕ) : ℤ) := by
    unfold ulp
    rw [Int.log_natCast, ← neg_sub, zpow_neg, div_inv_eq_mul]
    have hexp : (52 : ℤ) - Nat.log 2 n = ((52 - Nat.log 2 n : ℕ) : ℤ) := by omega
    rw [hexp, zpow_natCast]
    push_cast
    rfl
  unfold round
  rw [hwhole, roundHalfEven_intCast, ← hwhole, div_mul_cancel₀ _ (ulp_pos _).ne']

/-! ## Rounding to a whole number -/

/-- Halves of two naturals: a quotient rounded to the nearest, half up. -/
theorem roundHalfAway_div (m : ℕ) {n : ℕ} (hn : 0 < n) :
    roundHalfAway ((m : ℚ) / n) = ((m + n / 2) / n : ℕ) := by
  have hsum : (m : ℚ) / n + 1 / 2 = ((2 * m + n : ℕ) : ℚ) / ((2 * n : ℕ) : ℚ) := by
    have hn' : (n : ℚ) ≠ 0 := by exact_mod_cast hn.ne'
    push_cast
    field_simp
  have hhalf : (2 * m + n) / (2 * n) = (m + n / 2) / n := by
    rw [← Nat.div_div_eq_div_mul]
    congr 1
    omega
  unfold roundHalfAway
  rw [hsum, Rat.floor_natCast_div_natCast, ← hhalf, Int.natCast_div]

/-- A value off the boundaries, with denominator `d` after the half, and one nearer to it
than `1 / d` round to the same whole number. -/
theorem roundHalfAway_eq_of_near {x y : ℚ} {a d : ℕ} (hd : 0 < d) (hx : x + 1 / 2 = a / d)
    (hoff : ¬ d ∣ a) (hnear : |y - x| < 1 / d) : roundHalfAway y = roundHalfAway x := by
  have hd' : (0 : ℚ) < d := Nat.cast_pos.mpr hd
  have hpos : 1 ≤ a % d := Nat.pos_of_ne_zero fun h => hoff (Nat.dvd_of_mod_eq_zero h)
  have hlast : a % d + 1 ≤ d := Nat.mod_lt a hd
  have hsplit : (a : ℚ) / d = (a / d : ℕ) + (a % d : ℕ) / d := by
    have : ((d * (a / d) + a % d : ℕ) : ℚ) = a := congrArg _ (Nat.div_add_mod a d)
    rw [← this]
    push_cast
    field_simp
  have hlow : 1 / (d : ℚ) ≤ (a % d : ℕ) / d :=
    div_le_div_of_nonneg_right (by exact_mod_cast hpos) hd'.le
  have hhigh : ((a % d : ℕ) : ℚ) / d + 1 / d ≤ 1 := by
    rw [← add_div, div_le_one hd']
    exact_mod_cast hlast
  have hwhole : roundHalfAway x = ((a / d : ℕ) : ℤ) := by
    unfold roundHalfAway
    rw [hx, Rat.floor_natCast_div_natCast, Int.natCast_div]
  obtain ⟨hleft, hright⟩ := abs_lt.mp hnear
  rw [hwhole, roundHalfAway, Int.floor_eq_iff, Int.cast_natCast]
  constructor <;> linarith

end DbtNova.Binary64
