import Mathlib.Data.Nat.Cast.Field
import ViewEngine.Proofs.Number.Rounding
import ViewEngine.Proofs.Relational.Collation
import ViewEngine.View.Compiled
import ViewEngine.View.Write

namespace ViewEngine

namespace Double

theorem number?_finite (negative : Bool) (significand : Nat) (exponent : Int)
    (normal : NormalForm significand exponent) :
    number? (.finite negative significand exponent normal) =
      some (signOf negative * ((significand * 2 ^ exponent.toNat : Nat) / (2 ^ (-exponent).toNat : Nat))) := by
  rw [number?, two_zpow]
  push_cast
  rw [mul_div_assoc]

theorem denominator_dvd_iff (significand : Nat) (exponent : Int) :
    2 ^ (-exponent).toNat ∣ significand * 2 ^ exponent.toNat ↔ significand % 2 ^ (-exponent).toNat = 0 := by
  rcases le_total 0 exponent with nonnegative | negative
  · have none : (-exponent).toNat = 0 := by omega
    simp [none, Nat.mod_one]
  · have none : exponent.toNat = 0 := by omega
    rw [none, Nat.pow_zero, Nat.mul_one, Nat.dvd_iff_mod_eq_zero]

theorem number?_of_isIntegral {x : Double} (integral : x.isIntegral = true) :
    x.number? = some (x.integerPart : ℚ) := by
  cases x with
  | notANumber | infinite => contradiction
  | finite negative significand exponent normal =>
      simp only [isIntegral, Nat.pow_eq, beq_iff_eq] at integral
      have divides := (denominator_dvd_iff significand exponent).mpr integral
      rw [number?_finite, ← Nat.cast_div divides (by positivity)]
      simp only [integerPart, Nat.pow_eq]
      generalize significand * 2 ^ exponent.toNat / 2 ^ (-exponent).toNat = magnitude
      cases negative <;> simp [signOf]

theorem isIntegral_iff {x : Double} {q : ℚ} (denotes : x.number? = some q) :
    x.isIntegral = true ↔ ∃ z : Int, q = z := by
  constructor
  · intro integral
    rw [number?_of_isIntegral integral] at denotes
    exact ⟨x.integerPart, (Option.some.inj denotes).symm⟩
  · rintro ⟨z, rfl⟩
    cases x with
    | notANumber | infinite => contradiction
    | finite negative significand exponent normal =>
        rw [number?_finite] at denotes
        have size := congrArg abs (Option.some.inj denotes)
        rw [abs_mul, abs_signOf, one_mul, abs_of_nonneg (by positivity), div_eq_iff (by positivity)] at size
        have product : significand * 2 ^ exponent.toNat = z.natAbs * 2 ^ (-exponent).toNat := by
          rw [← Int.cast_abs, Int.abs_eq_natAbs] at size
          exact_mod_cast size
        have divides : 2 ^ (-exponent).toNat ∣ significand * 2 ^ exponent.toNat :=
          ⟨z.natAbs, by rw [product, Nat.mul_comm]⟩
        simpa only [isIntegral, Nat.pow_eq, beq_iff_eq] using (denominator_dvd_iff significand exponent).mp divides

theorem toInt_toInt64 (x : Double) :
    x.toInt64.toInt = max (-2 ^ 63) (min (2 ^ 63 - 1) x.integerPart) := by
  have bounds : -2 ^ 63 ≤ max (-2 ^ 63) (min (2 ^ 63 - 1) x.integerPart) ∧
      max (-2 ^ 63) (min (2 ^ 63 - 1) x.integerPart) < 2 ^ 63 := by omega
  exact Int64.toInt_ofInt_of_le bounds.1 bounds.2

theorem toInt64_nearest (x : Double) :
    (∀ m : Int64, |x.toInt64.toInt - x.integerPart| ≤ |m.toInt - x.integerPart|) ∧
      (x.toInt64.toInt = x.integerPart ↔ -2 ^ 63 ≤ x.integerPart ∧ x.integerPart < 2 ^ 63) := by
  rw [toInt_toInt64]
  refine ⟨fun m => ?_, by omega⟩
  have lower := m.le_toInt
  have upper := m.toInt_lt
  simp only [abs, Int.max_def]
  omega

end Double

def Value.number? : Value → Option ℚ
  | .int n => some n.toInt
  | .float x => x.number?
  | _ => none

theorem Value.number?_cases {value : Value} {q : ℚ} (isNumber : value.number? = some q) :
    (∃ n : Int64, value = .int n ∧ q = n.toInt) ∨ ∃ x : Double, value = .float x ∧ x.number? = some q := by
  cases value with
  | int n => exact .inl ⟨n, rfl, (Option.some.inj isNumber).symm⟩
  | float x => exact .inr ⟨x, rfl, isNumber⟩
  | _ => contradiction

theorem Value.number?_literal (value : Value) : value.literal.value.number? = value.number? := by
  cases value <;> rfl

namespace ColumnType

variable {type : ColumnType} {value : Value} {q : ℚ}

theorem coerce_of_isIntegral (integral : type.isIntegral = true) : type.coerce value = toIntegral value := by
  cases type <;> first | rfl | contradiction

theorem coerce_of_isFractional (fractional : type.isFractional = true) : type.coerce value = toFractional value := by
  cases type <;> first | rfl | contradiction

theorem coerce_integral (integral : type.isIntegral = true) (isNumber : value.number? = some q) :
    ((∀ z : Int, q ≠ z) → type.coerce value = value) ∧
      ∀ z : Int, q = z → ∃ n : Int64, type.coerce value = .int n ∧
        (∀ m : Int64, |n.toInt - z| ≤ |m.toInt - z|) ∧ (n.toInt = z ↔ -2 ^ 63 ≤ z ∧ z < 2 ^ 63) := by
  rw [coerce_of_isIntegral integral]
  rcases Value.number?_cases isNumber with ⟨n, rfl, rfl⟩ | ⟨x, rfl, denotes⟩
  · refine ⟨fun _ => rfl, fun z same => ⟨n, rfl, ?_⟩⟩
    obtain rfl : n.toInt = z := by exact_mod_cast same
    exact ⟨fun m => by simp, iff_of_true rfl ⟨n.le_toInt, n.toInt_lt⟩⟩
  · constructor
    · intro fraction
      have notIntegral : ¬ x.isIntegral = true := fun isIntegral =>
        ((Double.isIntegral_iff denotes).mp isIntegral).elim fraction
      rw [toIntegral, if_neg notIntegral]
    · rintro z rfl
      have isIntegral := (Double.isIntegral_iff denotes).mpr ⟨z, rfl⟩
      have part : x.integerPart = z := by
        rw [Double.number?_of_isIntegral isIntegral] at denotes
        exact_mod_cast Option.some.inj denotes
      have nearest := x.toInt64_nearest
      rw [part] at nearest
      exact ⟨x.toInt64, by rw [toIntegral, if_pos isIntegral], nearest⟩

theorem coerce_fractional (fractional : type.isFractional = true) (isNumber : value.number? = some q) :
    ∃ (x : Double) (r : ℚ), type.coerce value = .float x ∧ x.number? = some r ∧
      (∀ y s, Double.number? y = some s → |r - q| ≤ |s - q|) ∧
      (r = q ↔ ∀ n, value = .int n → Double.FitsDigits n.toInt.natAbs) := by
  rw [coerce_of_isFractional fractional]
  rcases Value.number?_cases isNumber with ⟨n, rfl, rfl⟩ | ⟨x, rfl, denotes⟩
  · have lower := n.le_toInt
    have upper := n.toInt_lt
    obtain ⟨r, denotes, nearest, same⟩ := Double.ofInt_nearest (n := n.toInt) (by omega)
    refine ⟨_, r, rfl, denotes, nearest, same.trans ⟨?_, fun fits => fits n rfl⟩⟩
    rintro fits _ ⟨⟩
    exact fits
  · exact ⟨x, q, rfl, denotes, fun y s _ => by simp, iff_of_true rfl nofun⟩

theorem coerce_number (notIntegral : type.isIntegral = false) (notFractional : type.isFractional = false)
    (isNumber : value.number? = some q) (stays : (type.coerce value).number?.isSome = true) :
    type.coerce value = value := by
  rcases Value.number?_cases isNumber with ⟨n, rfl, -⟩ | ⟨x, rfl, -⟩ <;>
    cases type <;> first | rfl | contradiction

theorem coerce_nonfinite {x : Double} (nonfinite : x.number? = none) (notTextual : type.isTextual = false) :
    type.coerce (.float x) = .float x := by
  cases x with
  | finite => contradiction
  | notANumber | infinite => cases type <;> first | rfl | contradiction

end ColumnType

/-- A number that is converted to integers or fractions becomes one that no other number of that form is nearer to, or
stays as it is if it is a fraction that is to become an integer. It becomes another number exactly if it is not within
64 bits, or does not fit the digits of a double; no other column changes it, and none changes a double that is no finite
number. The number that it becomes is the one that is read from a column, bound to a statement or written as a
literal. -/
theorem numbers_become_nearest (type : ColumnType) (value : Value) (q : ℚ) (isNumber : value.number? = some q) :
    (type.isIntegral = true →
      ((∀ z : Int, q ≠ z) → type.coerce value = value) ∧
      ∀ z : Int, q = z → ∃ n : Int64, type.coerce value = .int n ∧
        (∀ m : Int64, |n.toInt - z| ≤ |m.toInt - z|) ∧ (n.toInt = z ↔ -2 ^ 63 ≤ z ∧ z < 2 ^ 63)) ∧
    (type.isFractional = true → ∃ (x : Double) (r : ℚ), type.coerce value = .float x ∧ x.number? = some r ∧
      (∀ y s, Double.number? y = some s → |r - q| ≤ |s - q|) ∧
      (r = q ↔ ∀ n, value = .int n → Double.FitsDigits n.toInt.natAbs)) ∧
    (type.isIntegral = false → type.isFractional = false → (type.coerce value).number?.isSome = true →
      type.coerce value = value) ∧
    (type.isTextual = false → ∀ x : Double, x.number? = none → type.coerce (.float x) = .float x) ∧
    ∀ r, (type.coerce value).number? = some r →
      (∃ literal, type.literal value = .literal literal ∧ literal.value.number? = some r) ∧
      (∀ name, (BoundParameter.of name value type).value.number? = some r) ∧
      ∀ b : ColumnBinding, b.columnType? = some type → (b.coerce value).number? = some r := by
  refine ⟨fun integral => ColumnType.coerce_integral integral isNumber,
    fun fractional => ColumnType.coerce_fractional fractional isNumber,
    fun notIntegral notFractional => ColumnType.coerce_number notIntegral notFractional isNumber,
    fun notTextual _ nonfinite => ColumnType.coerce_nonfinite nonfinite notTextual, fun r becomes => ?_⟩
  refine ⟨⟨_, rfl, ?_⟩, fun name => becomes, fun b read => ?_⟩
  · rw [Value.number?_literal, becomes]
  · rw [ColumnBinding.coerce, read]
    exact becomes

/-- Ten quintillions as a double, and the first integer that no double is, both become other numbers. -/
theorem far_numbers_are_changed :
    (∃ n : Int64, ColumnType.bigInt.coerce (.float (.finite false 4882812500000000 11 (by decide))) = .int n ∧
      n.toInt ≠ 10 ^ 19) ∧
    ∃ (x : Double) (r : ℚ), ColumnType.double.coerce (.int 9007199254740993) = .float x ∧ x.number? = some r ∧
      r ≠ 9007199254740993 := by
  constructor
  · obtain ⟨integral, -⟩ :=
      numbers_become_nearest .bigInt (.float (.finite false 4882812500000000 11 (by decide))) _ rfl
    obtain ⟨n, made, -, same⟩ := (integral rfl).2 (10 ^ 19) (by norm_num [Double.signOf])
    exact ⟨n, made, fun kept => absurd (same.mp kept).2 (by norm_num)⟩
  · obtain ⟨-, fractional, -⟩ := numbers_become_nearest .double (.int 9007199254740993) 9007199254740993 rfl
    obtain ⟨x, r, made, denotes, -, same⟩ := fractional rfl
    refine ⟨x, r, made, denotes, fun kept => ?_⟩
    obtain ⟨digits, zeros, small, product⟩ := same.mp kept _ rfl
    have size : (Int64.toInt 9007199254740993).natAbs = 9007199254740993 := by decide
    rw [size] at product
    cases zeros with
    | zero => omega
    | succ zeros => rw [Nat.pow_succ, ← Nat.mul_assoc] at product; omega

end ViewEngine
