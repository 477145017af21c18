import ViewEngine.Number.Reading
import ViewEngine.Text.Blank

namespace ViewEngine.Text

abbrev Step (α : Type) := List Char → Option (α × List Char)

def digits? (width : Nat) : Step Nat := fun characters =>
  let digits := (characters.take width).takeWhile Char.isDigit
  if digits.isEmpty then none else some (Number.ofDigits digits, characters.drop digits.length)

def exactDigits? (width : Nat) : Step Nat := fun characters =>
  let digits := (characters.take width).takeWhile Char.isDigit
  if digits.length = width then some (Number.ofDigits digits, characters.drop width) else none

def character? (expected : Char) : Step Unit
  | [] => none
  | c :: rest => if c = expected then some ((), rest) else none

def word? (expected : String) : Step Unit := fun characters =>
  if expected.toList.isPrefixOf characters then some ((), characters.drop expected.length) else none

/-- Billionths of a second after a point, digits past the ninth dropped; without a point, none. -/
def fraction? : Step Nat
  | '.' :: rest =>
    let digits := rest.takeWhile Char.isDigit
    if digits.isEmpty then none
    else
      let kept := digits.take 9
      some (Number.ofDigits kept * Nat.pow 10 (9 - kept.length), rest.dropWhile Char.isDigit)
  | characters => some (0, characters)

end ViewEngine.Text
