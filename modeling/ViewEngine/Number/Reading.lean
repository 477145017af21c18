import ViewEngine.Number.Double
import ViewEngine.Text.Case

namespace ViewEngine.Number

def digitValue (c : Char) : Nat :=
  c.toNat - '0'.toNat

def ofDigits (digits : List Char) : Nat :=
  digits.foldl (fun value c => 10 * value + digitValue c) 0

def splitSign : List Char → Bool × List Char
  | '-' :: rest => (true, rest)
  | '+' :: rest => (false, rest)
  | characters => (false, characters)

def allDigits? (characters : List Char) : Option Nat :=
  if characters.isEmpty || !characters.all Char.isDigit then none
  else some (ofDigits characters)

def int64OfInt? (n : Int) : Option Int64 :=
  if -(Nat.pow 2 63 : Int) ≤ n ∧ n < Nat.pow 2 63 then some (Int64.ofInt n) else none

def readInt64? (text : String) : Option Int64 :=
  let (negative, digits) := splitSign text.toList
  (allDigits? digits).bind fun magnitude =>
    int64OfInt? (if negative then -(magnitude : Int) else magnitude)

def readCount? (text : String) : Option Nat :=
  let digits := match text.toList with
    | '+' :: rest => rest
    | characters => characters
  (allDigits? digits).filter (· < Nat.pow 2 64)

/-- Digits with an optional point among them, before or after: their value without the point, and
how many stand behind it. -/
def readMantissa? (characters : List Char) : Option (Nat × Nat) :=
  let whole := characters.takeWhile Char.isDigit
  match characters.dropWhile Char.isDigit with
  | [] => if whole.isEmpty then none else some (ofDigits whole, 0)
  | '.' :: fraction =>
    if fraction.all Char.isDigit && !(whole.isEmpty && fraction.isEmpty) then
      some (ofDigits (whole ++ fraction), fraction.length)
    else none
  | _ => none

def readExponent? (characters : List Char) : Option Int :=
  let (negative, digits) := splitSign characters
  (allDigits? digits).map fun magnitude => if negative then -(magnitude : Int) else magnitude

def isExponentMark (c : Char) : Bool :=
  c == 'e' || c == 'E'

/-- The double nearest to `digits * 10 ^ power`. Powers beyond those of any double settle the result
without being computed. -/
def nearestDouble (negative : Bool) (digits : Nat) (power : Int) : Double :=
  let reach := power + (toString digits).length
  if digits = 0 ∨ reach < -330 then .zero negative
  else if 330 < reach then .infinite negative
  else Double.round negative (digits * Nat.pow 10 power.toNat) (Nat.pow 10 (-power).toNat)

def readMagnitude? (negative : Bool) (characters : List Char) : Option Double :=
  let mantissa := characters.takeWhile (!isExponentMark ·)
  match readMantissa? mantissa, characters.dropWhile (!isExponentMark ·) with
  | some (digits, places), [] => some (nearestDouble negative digits (-(places : Int)))
  | some (digits, places), _ :: exponent =>
    (readExponent? exponent).map fun power => nearestDouble negative digits (power - places)
  | none, _ => none

def readDouble? (text : String) : Option Double :=
  let (negative, magnitude) := splitSign text.toList
  let word := Text.toLowerAscii (String.ofList magnitude)
  if word == "inf" || word == "infinity" then some (.infinite negative)
  else if word == "nan" then some .notANumber
  else readMagnitude? negative magnitude

end ViewEngine.Number
