/-!
Double-precision numbers, kept as sign, significand and exponent, so that every operation is exact
integer arithmetic. A finite one denotes `± significand * 2 ^ exponent`, in the one way that the
format allows; rounding goes to the nearest such number, and from a tie to the even significand.
-/

namespace ViewEngine

def NormalForm (significand : Nat) (exponent : Int) : Prop :=
  significand < Nat.pow 2 53 ∧ -1074 ≤ exponent ∧ exponent ≤ 971 ∧
    (Nat.pow 2 52 ≤ significand ∨ exponent = -1074)

instance (significand : Nat) (exponent : Int) : Decidable (NormalForm significand exponent) := by
  unfold NormalForm
  infer_instance

inductive Double where
  | notANumber
  | infinite (negative : Bool)
  | finite (negative : Bool) (significand : Nat) (exponent : Int)
      (normal : NormalForm significand exponent)
deriving DecidableEq

namespace Double

def zero (negative : Bool) : Double :=
  .finite negative 0 (-1074) (by decide)

instance : Inhabited Double := ⟨zero false⟩

def isFinite : Double → Bool
  | .finite .. => true
  | _ => false

def nearestQuotient (numerator denominator : Nat) : Nat :=
  let quotient := numerator / denominator
  let twice := 2 * (numerator % denominator)
  if twice < denominator then quotient
  else if denominator < twice then quotient + 1
  else quotient + quotient % 2

def inUnits (numerator denominator : Nat) (exponent : Int) : Nat × Nat :=
  (numerator * Nat.pow 2 (-exponent).toNat, denominator * Nat.pow 2 exponent.toNat)

/-- The exponent under which the positive `numerator / denominator` has a 53-bit integer part, or
the least exponent where that one is smaller still. -/
def scaleOf (numerator denominator : Nat) : Int :=
  let estimate : Int := (numerator.log2 : Int) - denominator.log2 - 52
  let (above, below) := inUnits numerator denominator estimate
  max (-1074) (if above / below < Nat.pow 2 52 then estimate - 1 else estimate)

def ofParts (negative : Bool) (significand : Nat) (exponent : Int) : Double :=
  if normal : NormalForm significand exponent then .finite negative significand exponent normal
  else .infinite negative

def round (negative : Bool) (numerator denominator : Nat) : Double :=
  if numerator = 0 then zero negative
  else
    let exponent := scaleOf numerator denominator
    let (above, below) := inUnits numerator denominator exponent
    let significand := nearestQuotient above below
    if significand = Nat.pow 2 53 then ofParts negative (Nat.pow 2 52) (exponent + 1)
    else ofParts negative significand exponent

def ofInt (n : Int) : Double :=
  round (n < 0) n.natAbs 1

/-- Equality of numbers: the two zeros are equal, and a value that is no number equals nothing. -/
def equal : Double → Double → Bool
  | .infinite a, .infinite b => a == b
  | .finite a m e _, .finite b n f _ => m == n && e == f && (a == b || m == 0)
  | _, _ => false

def isIntegral : Double → Bool
  | .finite _ significand exponent _ => significand % Nat.pow 2 (-exponent).toNat == 0
  | _ => false

/-- The integer part, for a value that is no number zero, and for an infinite one a bound beyond
every 64-bit integer. -/
def integerPart : Double → Int
  | .notANumber => 0
  | .infinite negative => if negative then -(Nat.pow 2 64 : Int) else Nat.pow 2 64
  | .finite negative significand exponent _ =>
    let magnitude := significand * Nat.pow 2 exponent.toNat / Nat.pow 2 (-exponent).toNat
    if negative then -(magnitude : Int) else magnitude

def toInt64 (x : Double) : Int64 :=
  Int64.ofInt (max (-(Nat.pow 2 63 : Int)) (min (Nat.pow 2 63 - 1 : Int) x.integerPart))

end Double

end ViewEngine
