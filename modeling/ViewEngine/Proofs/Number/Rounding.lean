import Mathlib.Algebra.Order.Field.Power
import Mathlib.Algebra.Order.Ring.Abs
import Mathlib.Data.Rat.Cast.Order
import Mathlib.Tactic.FieldSimp
import Mathlib.Tactic.Linarith
import Mathlib.Tactic.Positivity
import Mathlib.Tactic.Ring
import ViewEngine.Number.Double

/-!
The numbers that doubles are, and how integers are rounded to them. An integer becomes a double that no other one is
nearer to, and stays the number that it is exactly if 53 of its binary digits suffice to write it.
-/

namespace ViewEngine.Double

def signOf (negative : Bool) : ℚ :=
  if negative then -1 else 1

/-- The number that a double is, if it is finite. -/
def number? : Double → Option ℚ
  | .finite negative significand exponent _ => some (signOf negative * (significand * 2 ^ exponent))
  | _ => none

theorem abs_signOf (negative : Bool) : |signOf negative| = 1 := by
  cases negative <;> simp [signOf]

theorem signOf_bne (a b : Bool) : signOf (a != b) = signOf a * signOf b := by
  cases a <;> cases b <;> simp [signOf]

theorem signOf_mul_self (negative : Bool) : signOf negative * signOf negative = 1 := by
  cases negative <;> simp [signOf]

theorem signOf_natAbs (n : Int) : signOf (decide (n < 0)) * n.natAbs = n := by
  rcases lt_or_ge n 0 with negative | nonnegative
  · rw [signOf, if_pos (decide_eq_true negative), Nat.cast_natAbs, abs_of_neg negative]
    push_cast
    ring
  · rw [signOf, if_neg (by simpa using nonnegative), Nat.cast_natAbs, abs_of_nonneg nonnegative, one_mul]

theorem two_zpow (e : Int) : (2 : ℚ) ^ e = 2 ^ e.toNat / 2 ^ (-e).toNat := by
  rcases le_total 0 e with nonnegative | negative
  · obtain ⟨m, rfl⟩ := Int.eq_ofNat_of_zero_le nonnegative
    simp
  · obtain ⟨m, same⟩ := Int.eq_ofNat_of_zero_le (neg_nonneg.mpr negative)
    obtain rfl : e = -(m : Int) := by omega
    simp

section Quotients

variable {numerator denominator : Nat}

theorem nearestQuotient_bounds (numerator denominator : Nat) :
    numerator / denominator ≤ nearestQuotient numerator denominator ∧
      nearestQuotient numerator denominator ≤ numerator / denominator + 1 := by
  unfold nearestQuotient
  dsimp only
  split
  · omega
  · split <;> omega

theorem quotient_parts (positive : 0 < denominator) :
    (numerator : ℚ) / denominator =
      (numerator / denominator : Nat) + (numerator % denominator : Nat) / denominator := by
  have whole : (0 : ℚ) < denominator := by exact_mod_cast positive
  have divided : (denominator : ℚ) * (numerator / denominator : Nat) + (numerator % denominator : Nat) =
      numerator := by
    exact_mod_cast Nat.div_add_mod numerator denominator
  rw [← divided]
  field_simp

theorem quotient_le_half_iff (positive : 0 < denominator) :
    (numerator : ℚ) / denominator ≤ 1 / 2 ↔ 2 * numerator ≤ denominator := by
  rw [div_le_div_iff₀ (by exact_mod_cast positive) two_pos, one_mul, Nat.mul_comm]
  exact_mod_cast Iff.rfl

theorem half_le_quotient_iff (positive : 0 < denominator) :
    1 / 2 ≤ (numerator : ℚ) / denominator ↔ denominator ≤ 2 * numerator := by
  rw [div_le_div_iff₀ two_pos (by exact_mod_cast positive), one_mul, Nat.mul_comm]
  exact_mod_cast Iff.rfl

theorem nearestQuotient_error (positive : 0 < denominator) :
    |(nearestQuotient numerator denominator : ℚ) - numerator / denominator| ≤ 1 / 2 := by
  rw [quotient_parts positive]
  unfold nearestQuotient
  dsimp only
  split
  next below =>
    have half := (quotient_le_half_iff positive).mpr below.le
    have nonnegative : (0 : ℚ) ≤ (numerator % denominator : Nat) / denominator := by positivity
    rw [abs_le]
    constructor <;> linarith
  next notBelow =>
    have lower := (half_le_quotient_iff positive).mpr (not_lt.mp notBelow)
    -- just between two integers the even one is taken, which is a half away as well
    split
    next above =>
      have upper : ((numerator % denominator : Nat) : ℚ) / denominator ≤ 1 := by
        rw [div_le_one (by exact_mod_cast positive)]
        exact_mod_cast (Nat.mod_lt numerator positive).le
      rw [Nat.cast_add, Nat.cast_one, abs_le]
      constructor <;> linarith
    next notAbove =>
      have tie := (quotient_le_half_iff positive).mpr (not_lt.mp notAbove)
      have parity : ((numerator / denominator % 2 : Nat) : ℚ) ≤ 1 := by
        exact_mod_cast Nat.le_of_lt_succ (Nat.mod_lt _ (by decide))
      have nonnegative : (0 : ℚ) ≤ (numerator / denominator % 2 : Nat) := Nat.cast_nonneg _
      rw [Nat.cast_add, abs_le]
      constructor <;> linarith

end Quotients

section Scale

variable {n : Nat}

theorem leading_bounds (positive : 0 < n) :
    2 ^ 52 ≤ n * 2 ^ (52 - n.log2) / 2 ^ (n.log2 - 52) ∧ n * 2 ^ (52 - n.log2) / 2 ^ (n.log2 - 52) < 2 ^ 53 := by
  have lower : 2 ^ n.log2 ≤ n := Nat.log2_self_le positive.ne'
  have upper : n < 2 ^ (n.log2 + 1) := Nat.lt_log2_self
  have powers : 52 + (n.log2 - 52) = n.log2 + (52 - n.log2) := by omega
  rw [Nat.le_div_iff_mul_le (by positivity), Nat.div_lt_iff_lt_mul (by positivity)]
  constructor
  · calc 2 ^ 52 * 2 ^ (n.log2 - 52) = 2 ^ n.log2 * 2 ^ (52 - n.log2) := by rw [← Nat.pow_add, powers, Nat.pow_add]
      _ ≤ n * 2 ^ (52 - n.log2) := Nat.mul_le_mul_right _ lower
  · calc n * 2 ^ (52 - n.log2) < 2 ^ (n.log2 + 1) * 2 ^ (52 - n.log2) :=
        Nat.mul_lt_mul_of_pos_right upper (by positivity)
      _ = 2 ^ 53 * 2 ^ (n.log2 - 52) := by
        rw [← Nat.pow_add, ← Nat.pow_add]
        congr 1
        omega

theorem unit_toNat (n : Nat) :
    (-((n.log2 : Int) - 52)).toNat = 52 - n.log2 ∧ ((n.log2 : Int) - 52).toNat = n.log2 - 52 := by
  omega

theorem inUnits_leading (n : Nat) :
    inUnits n 1 ((n.log2 : Int) - 52) = (n * 2 ^ (52 - n.log2), 2 ^ (n.log2 - 52)) := by
  rw [inUnits, (unit_toNat n).1, (unit_toNat n).2, Nat.pow_eq, Nat.pow_eq, Nat.one_mul]

theorem scaleOf_one (positive : 0 < n) : scaleOf n 1 = (n.log2 : Int) - 52 := by
  have bound := (leading_bounds positive).1
  have one : Nat.log2 1 = 0 := by decide
  have estimate : (n.log2 : Int) - (Nat.log2 1 : Nat) - 52 = n.log2 - 52 := by rw [one]; omega
  unfold scaleOf
  dsimp only
  rw [estimate, inUnits_leading]
  dsimp only
  rw [Nat.pow_eq, if_neg (not_lt.mpr bound)]
  omega

/-- A positive integer in the unit of its rounding, in which it has 53 binary digits before the point. -/
def scaled (n : Nat) : ℚ :=
  n / 2 ^ ((n.log2 : Int) - 52)

theorem scaled_eq (n : Nat) :
    scaled n = (n * 2 ^ (52 - n.log2) : Nat) / (2 ^ (n.log2 - 52) : Nat) := by
  rw [scaled, two_zpow, (unit_toNat n).1, (unit_toNat n).2]
  push_cast
  field_simp

theorem scaled_bounds (positive : 0 < n) : 2 ^ 52 ≤ scaled n ∧ scaled n < 2 ^ 53 := by
  obtain ⟨lower, upper⟩ := leading_bounds positive
  rw [Nat.le_div_iff_mul_le (by positivity)] at lower
  rw [Nat.div_lt_iff_lt_mul (by positivity)] at upper
  rw [scaled_eq, le_div_iff₀ (by positivity), div_lt_iff₀ (by positivity)]
  exact ⟨by exact_mod_cast lower, by exact_mod_cast upper⟩

def roundedSignificand (n : Nat) : Nat :=
  nearestQuotient (n * 2 ^ (52 - n.log2)) (2 ^ (n.log2 - 52))

theorem roundedSignificand_bounds (positive : 0 < n) :
    2 ^ 52 ≤ roundedSignificand n ∧ roundedSignificand n ≤ 2 ^ 53 := by
  have bounds := leading_bounds positive
  have near := nearestQuotient_bounds (n * 2 ^ (52 - n.log2)) (2 ^ (n.log2 - 52))
  unfold roundedSignificand
  omega

theorem roundedSignificand_error (n : Nat) : |(roundedSignificand n : ℚ) - scaled n| ≤ 1 / 2 := by
  rw [scaled_eq]
  exact nearestQuotient_error (by positivity)

theorem number?_ofParts {negative : Bool} {significand : Nat} {exponent : Int}
    (normal : NormalForm significand exponent) :
    (ofParts negative significand exponent).number? =
      some (signOf negative * (significand * 2 ^ exponent)) := by
  rw [ofParts, dif_pos normal, number?]

theorem number?_round_one (negative : Bool) (positive : 0 < n) (bounded : n < 2 ^ 64) :
    (round negative n 1).number? =
      some (signOf negative * (roundedSignificand n * 2 ^ ((n.log2 : Int) - 52))) := by
  obtain ⟨lower, upper⟩ := roundedSignificand_bounds positive
  have exponent : n.log2 < 64 := (Nat.log2_lt positive.ne').mpr bounded
  rw [round, if_neg positive.ne', scaleOf_one positive]
  dsimp only
  rw [inUnits_leading]
  dsimp only
  rw [← roundedSignificand]
  split
  next carried =>
    have doubled : ((2 ^ 52 : Nat) : ℚ) * 2 ^ ((n.log2 : Int) - 52 + 1) =
        (2 ^ 53 : Nat) * 2 ^ ((n.log2 : Int) - 52) := by
      rw [zpow_add_one₀ (by norm_num), mul_comm _ (2 : ℚ), ← mul_assoc]
      norm_num
    rw [number?_ofParts ⟨by decide, by omega, by omega, .inl (le_refl _)⟩, carried, Nat.pow_eq, Nat.pow_eq, doubled]
  next notCarried =>
    rw [Nat.pow_eq] at notCarried
    exact number?_ofParts ⟨lt_of_le_of_ne upper notCarried, by omega, by omega, .inl lower⟩

end Scale

section Nearest

variable {x : ℚ} {s t : Nat}

theorem nearest_of_half (half : |(s : ℚ) - x| ≤ 1 / 2) (j : Int) : |(s : ℚ) - x| ≤ |(j : ℚ) - x| := by
  by_cases same : (s : Int) = j
  · rw [← same, Int.cast_natCast]
  · have apart : (1 : ℚ) ≤ |(s : ℚ) - j| := by
      have distance : 1 ≤ |(s : Int) - j| := Int.one_le_abs (sub_ne_zero.mpr same)
      exact_mod_cast distance
    have triangle := abs_sub_le (s : ℚ) x j
    rw [abs_sub_comm x] at triangle
    linarith

theorem nearest_significand (half : |(s : ℚ) - x| ≤ 1 / 2) (large : 2 ^ 52 ≤ x) (small : t < 2 ^ 53) (e : Int) :
    |(s : ℚ) - x| ≤ |(t : ℚ) * 2 ^ e - x| := by
  rcases le_or_gt 0 e with whole | fraction
  · obtain ⟨m, rfl⟩ := Int.eq_ofNat_of_zero_le whole
    have near := nearest_of_half half (t * 2 ^ m : Nat)
    simpa using near
  · have unit : (2 : ℚ) ^ e ≤ 1 / 2 := by
      have power := zpow_le_zpow_right₀ (by norm_num : (1 : ℚ) ≤ 2) (by omega : e ≤ -1)
      simpa using power
    have bound : (t : ℚ) * 2 ^ e ≤ 2 ^ 52 := by
      have digits : (t : ℚ) ≤ 2 ^ 53 := by exact_mod_cast small.le
      calc (t : ℚ) * 2 ^ e ≤ 2 ^ 53 * (1 / 2) := mul_le_mul digits unit (by positivity) (by positivity)
        _ = 2 ^ 52 := by norm_num
    have near := nearest_of_half half (2 ^ 52 : Nat)
    calc |(s : ℚ) - x| ≤ |((2 ^ 52 : Nat) : Int) - x| := near
      _ = x - 2 ^ 52 := by
        rw [abs_sub_comm, abs_of_nonneg] <;> norm_num
        linarith
      _ ≤ x - t * 2 ^ e := by linarith
      _ = |(t : ℚ) * 2 ^ e - x| := by rw [abs_sub_comm, abs_of_nonneg (by linarith)]

theorem nearest_signed (half : |(s : ℚ) - x| ≤ 1 / 2) (large : 2 ^ 52 ≤ x) (negative : Bool) (small : t < 2 ^ 53)
    (e : Int) : |(s : ℚ) - x| ≤ |signOf negative * ((t : ℚ) * 2 ^ e) - x| := by
  cases negative with
  | false =>
      rw [signOf, if_neg Bool.false_ne_true, one_mul]
      exact nearest_significand half large small e
  | true =>
      have size : (0 : ℚ) ≤ t * 2 ^ e := by positivity
      rw [signOf, if_pos rfl, neg_one_mul]
      calc |(s : ℚ) - x| ≤ |((0 : Int) : ℚ) - x| := nearest_of_half half 0
        _ = x := by rw [Int.cast_zero, zero_sub, abs_neg, abs_of_nonneg (by linarith)]
        _ ≤ x + t * 2 ^ e := by linarith
        _ = |-((t : ℚ) * 2 ^ e) - x| := by
          rw [abs_sub_comm, sub_neg_eq_add, abs_of_nonneg (by linarith)]

end Nearest

/-- The numbers that are written with 53 binary digits, and zeros behind them. -/
def FitsDigits (n : Nat) : Prop :=
  ∃ digits zeros, digits < 2 ^ 53 ∧ n = digits * 2 ^ zeros

section Integers

variable {n : Nat}

theorem eq_scaled (n : Nat) : (n : ℚ) = scaled n * 2 ^ ((n.log2 : Int) - 52) := by
  rw [scaled, div_mul_cancel₀ _ (zpow_ne_zero _ (by norm_num))]

theorem roundedSignificand_eq_iff (positive : 0 < n) : (roundedSignificand n : ℚ) = scaled n ↔ FitsDigits n := by
  obtain ⟨lower, upper⟩ := scaled_bounds positive
  constructor
  · intro kept
    by_cases few : n.log2 < 53
    · exact ⟨n, 0, (Nat.log2_lt positive.ne').mp few, (Nat.mul_one n).symm⟩
    · refine ⟨roundedSignificand n, n.log2 - 52, by rw [← kept] at upper; exact_mod_cast upper, ?_⟩
      have whole : ((n.log2 - 52 : Nat) : Int) = (n.log2 : Int) - 52 := by omega
      have number := eq_scaled n
      rw [← kept, ← whole, zpow_natCast] at number
      exact_mod_cast number
  · rintro ⟨digits, zeros, small, same⟩
    -- the integer is itself a number with 53 digits, and none of these is nearer than the rounded one
    have shifted : (digits : ℚ) * 2 ^ ((zeros : Int) - ((n.log2 : Int) - 52)) = scaled n := by
      rw [scaled, zpow_sub₀ (by norm_num), zpow_natCast, ← mul_div_assoc]
      congr 1
      exact_mod_cast same.symm
    have near := nearest_significand (roundedSignificand_error n) lower small ((zeros : Int) - ((n.log2 : Int) - 52))
    rw [shifted, sub_self, abs_zero] at near
    exact sub_eq_zero.mp (abs_nonpos_iff.mp near)

theorem distance_scaled (negative : Bool) (n : Nat) (w : ℚ) :
    |signOf negative * (w * 2 ^ ((n.log2 : Int) - 52)) - signOf negative * n| =
      |w - scaled n| * 2 ^ ((n.log2 : Int) - 52) := by
  have unit : (0 : ℚ) < 2 ^ ((n.log2 : Int) - 52) := by positivity
  rw [← mul_sub, abs_mul, abs_signOf, one_mul]
  nth_rewrite 1 [eq_scaled n]
  rw [← sub_mul, abs_mul, abs_of_pos unit]

theorem rescaled (a b : Bool) (t : ℚ) (e f : Int) :
    signOf a * (signOf (a != b) * (t * 2 ^ (f - e)) * 2 ^ e) = signOf b * (t * 2 ^ f) := by
  have units : (2 : ℚ) ^ (f - e) * 2 ^ e = 2 ^ f := by
    rw [← zpow_add₀ (by norm_num), sub_add_cancel]
  calc signOf a * (signOf (a != b) * (t * 2 ^ (f - e)) * 2 ^ e) =
      signOf a * signOf a * signOf b * (t * (2 ^ (f - e) * 2 ^ e)) := by rw [signOf_bne]; ring
    _ = signOf b * (t * 2 ^ f) := by rw [signOf_mul_self, one_mul, units]

end Integers

/-- An integer becomes a double that is as near to it as any other one, and that is the same number if and only if
the integer fits the digits of a double. -/
theorem ofInt_nearest {n : Int} (bounded : n.natAbs < 2 ^ 64) :
    ∃ q, (ofInt n).number? = some q ∧ (∀ y r, number? y = some r → |q - n| ≤ |r - n|) ∧
      (q = n ↔ FitsDigits n.natAbs) := by
  rcases eq_or_ne n 0 with rfl | nonzero
  · refine ⟨0, by simp [ofInt, round, zero, number?], fun y r _ => by simp, ?_⟩
    exact iff_of_true Int.cast_zero.symm ⟨0, 0, by norm_num, rfl⟩
  · have positive : 0 < n.natAbs := Int.natAbs_pos.mpr nonzero
    have unit : (0 : ℚ) < 2 ^ ((n.natAbs.log2 : Int) - 52) := by positivity
    have error := distance_scaled (decide (n < 0)) n.natAbs (roundedSignificand n.natAbs)
    rw [signOf_natAbs] at error
    refine ⟨_, number?_round_one _ positive bounded, ?_, ?_⟩
    · -- in the unit of the rounding the integer is positive, and all that is left of the sign is whether it is the same
      intro y r denotes
      cases y with
      | notANumber | infinite => contradiction
      | finite negative significand exponent normal =>
          cases denotes
          have near := nearest_signed (roundedSignificand_error n.natAbs) (scaled_bounds positive).1
            (decide (n < 0) != negative) normal.1 (exponent - ((n.natAbs.log2 : Int) - 52))
          have other := distance_scaled (decide (n < 0)) n.natAbs
            (signOf (decide (n < 0) != negative) * (significand * 2 ^ (exponent - ((n.natAbs.log2 : Int) - 52))))
          rw [rescaled, signOf_natAbs] at other
          rw [error, other]
          exact mul_le_mul_of_nonneg_right near unit.le
    · rw [← sub_eq_zero, ← abs_eq_zero, error, mul_eq_zero, or_iff_left unit.ne', abs_eq_zero, sub_eq_zero]
      exact roundedSignificand_eq_iff positive

end ViewEngine.Double
