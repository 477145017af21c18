import ViewEngine.Number.Double

/-!
The decimal text of a double: the fewest digits that read back as the same number, and of those the
nearest. Positional notation is used while the point stands at most sixteen digits to the right or
four zeros to the left of the first digit; outside of that, an exponent.
-/

namespace ViewEngine.Double

/-- The nonzero finite magnitudes that round to one double, counted in quarters of its unit: it is
at `4 * significand`, and the ends belong to it when the significand is even. -/
structure Interval where
  lower : Nat
  center : Nat
  upper : Nat
  closed : Bool

def interval (significand : Nat) (exponent : Int) : Interval where
  lower := 4 * significand - (if significand = Nat.pow 2 52 ∧ -1074 < exponent then 1 else 2)
  center := 4 * significand
  upper := 4 * significand + 2
  closed := significand % 2 == 0

structure Decimal where
  digits : Nat
  power : Int
deriving DecidableEq, Inhabited

def commonUnit (power exponent : Int) : Nat × Nat :=
  (Nat.pow 10 power.toNat * Nat.pow 2 (2 - exponent).toNat,
    Nat.pow 2 (exponent - 2).toNat * Nat.pow 10 (-power).toNat)

/-- The point of the grid of multiples of `10 ^ power` that lies in the interval, the one nearer to
the center if both of its neighbours do, and the even one if both are as near. -/
def onGrid? (within : Interval) (exponent power : Int) : Option Decimal :=
  let (tens, twos) := commonUnit power exponent
  let center := within.center * twos
  let below := center / tens
  let above := below + 1
  let inside (point : Nat) : Bool :=
    if within.closed then within.lower * twos ≤ point * tens && point * tens ≤ within.upper * twos
    else within.lower * twos < point * tens && point * tens < within.upper * twos
  match inside below, inside above with
  | true, true =>
    let toBelow := center - below * tens
    let toAbove := above * tens - center
    if toBelow < toAbove || (toBelow == toAbove && below % 2 == 0) then some ⟨below, power⟩
    else some ⟨above, power⟩
  | true, false => some ⟨below, power⟩
  | false, true => some ⟨above, power⟩
  | false, false => none

def reaches (significand : Nat) (exponent power : Int) : Bool :=
  let (tens, twos) := commonUnit power exponent
  tens ≤ 4 * significand * twos

def leadingPower (significand : Nat) (exponent : Int) : Int :=
  let estimate := ((significand.log2 : Int) + exponent) * 30103 / 100000
  if reaches significand exponent (estimate + 1) then estimate + 1
  else if reaches significand exponent estimate then estimate
  else estimate - 1

def Decimal.withoutTrailingZeros (d : Decimal) : Decimal :=
  go d.digits d.power d.digits
where
  go (digits : Nat) (power : Int) : Nat → Decimal
    | 0 => ⟨digits, power⟩
    | fuel + 1 => if digits % 10 = 0 ∧ digits ≠ 0 then go (digits / 10) (power + 1) fuel
      else ⟨digits, power⟩

def shortest (significand : Nat) (exponent : Int) : Decimal :=
  let within := interval significand exponent
  let leading := leadingPower significand exponent
  let found := (List.range 17).findSome? fun (further : Nat) =>
    onGrid? within exponent (leading - further)
  (found.getD ⟨0, 0⟩).withoutTrailingZeros

structure Layout where
  mostIntegerDigits : Int
  mostLeadingZeros : Int

def layout : Layout := ⟨16, 4⟩

def zeros (n : Nat) : String :=
  String.ofList (List.replicate n '0')

def Decimal.text (d : Decimal) : String :=
  let digits := toString d.digits
  let count : Int := digits.length
  let point := count + d.power
  if 0 ≤ d.power ∧ point ≤ layout.mostIntegerDigits then
    digits ++ zeros d.power.toNat ++ ".0"
  else if 0 < point ∧ point ≤ layout.mostIntegerDigits then
    String.ofList (digits.toList.take point.toNat) ++ "." ++
      String.ofList (digits.toList.drop point.toNat)
  else if -layout.mostLeadingZeros ≤ point ∧ point ≤ 0 then
    "0." ++ zeros (-point).toNat ++ digits
  else
    let fraction := digits.toList.drop 1
    String.ofList (digits.toList.take 1) ++
      (if fraction.isEmpty then "" else "." ++ String.ofList fraction) ++
      "e" ++ toString (point - 1)

def text : Double → String
  | .notANumber => "NaN"
  | .infinite negative => if negative then "-inf" else "inf"
  | .finite negative significand exponent _ =>
    let magnitude :=
      if significand = 0 then "0.0" else (shortest significand exponent).text
    if negative then "-" ++ magnitude else magnitude

end ViewEngine.Double
