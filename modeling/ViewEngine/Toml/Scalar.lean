import ViewEngine.Timestamp.Basic
import ViewEngine.Toml.Document
import ViewEngine.Toml.Lexeme

namespace ViewEngine.Toml

open Text (Step exactDigits? character? fraction?)

def ungrouped? (isDigit : Char → Bool) : List Char → Option (List Char)
  | [] => some []
  | '_' :: _ => none
  | a :: '_' :: b :: rest =>
    if isDigit a && isDigit b then (ungrouped? isDigit (b :: rest)).map (a :: ·) else none
  | a :: rest => (ungrouped? isDigit rest).map (a :: ·)

def digits? (isDigit : Char → Bool) (characters : List Char) : Option (List Char) :=
  (ungrouped? isDigit characters).filter fun digits => !digits.isEmpty && digits.all isDigit

def inBase (base : Nat) (digits : List Char) : Nat :=
  digits.foldl (fun value c => base * value + (hexValue? c).getD 0) 0

def integerDocument (value : Int) : Document :=
  if -(Nat.pow 2 127 : Int) ≤ value ∧ value < Nat.pow 2 128 then .integer value else .unreadable

def based? (base : Nat) (isDigit : Char → Bool) (characters : List Char) : Option Document :=
  if characters.isEmpty then some .unreadable
  else (digits? isDigit characters).map fun digits => integerDocument (inBase base digits)

def isHexDigit (c : Char) : Bool :=
  (hexValue? c).isSome

def wholeNumber? (isDigit : Char → Bool) : List Char → Option (List Char)
  | [] => none
  | '0' :: _ :: _ => none
  | magnitude => ungrouped? isDigit magnitude

/-- After the first underscore only the digits beside the other underscores are looked at. There a
letter that is a digit of base sixteen does as well. -/
def decimal? (characters : List Char) : Option Document :=
  let (negative, magnitude) := Number.splitSign characters
  match magnitude.dropWhile Char.isDigit with
  | [] | '_' :: _ =>
    (wholeNumber? isHexDigit magnitude).map fun digits =>
      if digits.all Char.isDigit then
        integerDocument (if negative then -(inBase 10 digits : Int) else inBase 10 digits)
      else .unreadable
  | _ => none

def float? (characters : List Char) : Option Document := do
  let (negative, magnitude) := Number.splitSign characters
  let mantissa := magnitude.takeWhile (!Number.isExponentMark ·)
  let whole ← wholeNumber? Char.isDigit (mantissa.takeWhile (· != '.'))
  let fraction ←
    match mantissa.dropWhile (· != '.') with
    | [] => some []
    | _ :: digits => digits? Char.isDigit digits
  let exponent ←
    match magnitude.dropWhile (!Number.isExponentMark ·) with
    | [] => some 0
    | _ :: exponent =>
      let (below, digits) := Number.splitSign exponent
      (digits? Char.isDigit digits).map fun digits =>
        if below then -(Number.ofDigits digits : Int) else Number.ofDigits digits
  if whole.all Char.isDigit then
    let value := Number.nearestDouble negative (Number.ofDigits (whole ++ fraction))
      (exponent - fraction.length)
    some (if value.isFinite then .float value else .unreadable)
  else none

def number? (characters : List Char) : Option Document :=
  match characters with
  | '0' :: 'x' :: digits => based? 16 isHexDigit digits
  | '0' :: 'o' :: digits => based? 8 (fun c => '0' ≤ c && c ≤ '7') digits
  | '0' :: 'b' :: digits => based? 2 (fun c => c == '0' || c == '1') digits
  | _ =>
    if characters.any fun c => c == '.' || Number.isExponentMark c then float? characters
    else decimal? characters

def special? (word : String) : Option Document :=
  match word with
  | "true" => some (.boolean true)
  | "false" => some (.boolean false)
  | "inf" | "+inf" => some (.float (.infinite false))
  | "-inf" => some (.float (.infinite true))
  | "nan" | "+nan" | "-nan" => some (.float .notANumber)
  | _ => none

def date? : Step String := fun characters => do
  let (year, rest) ← exactDigits? 4 characters
  let (_, rest) ← character? '-' rest
  let (month, rest) ← exactDigits? 2 rest
  let (_, rest) ← character? '-' rest
  let (day, rest) ← exactDigits? 2 rest
  if ValidDate year month day then
    some (Timestamp.padded 4 year ++ "-" ++ Timestamp.padded 2 month ++ "-" ++
      Timestamp.padded 2 day, rest)
  else none

def shortFraction (nanosecond : Nat) : String :=
  if nanosecond = 0 then ""
  else
    let digits := (Timestamp.padded 9 nanosecond).toList
    "." ++ String.ofList (digits.reverse.dropWhile (· == '0')).reverse

def time? : Step String := fun characters => do
  let (hour, rest) ← exactDigits? 2 characters
  let (_, rest) ← character? ':' rest
  let (minute, rest) ← exactDigits? 2 rest
  let (second, nanosecond, rest) ←
    match rest with
    | ':' :: rest => do
      let (second, rest) ← exactDigits? 2 rest
      let (nanosecond, rest) ← fraction? rest
      some (second, nanosecond, rest)
    | _ => some (0, 0, rest)
  if ValidTime hour minute second nanosecond then
    some (Timestamp.padded 2 hour ++ ":" ++ Timestamp.padded 2 minute ++ ":" ++
      Timestamp.padded 2 second ++ shortFraction nanosecond, rest)
  else none

def offset? : Step String := fun characters =>
  let signed (negative : Bool) (rest : List Char) := do
    let (hours, rest) ← exactDigits? 2 rest
    let (_, rest) ← character? ':' rest
    let (minutes, rest) ← exactDigits? 2 rest
    if hours < 24 ∧ minutes < 60 then
      let sign := if negative && hours + minutes != 0 then "-" else "+"
      some (sign ++ Timestamp.padded 2 hours ++ ":" ++ Timestamp.padded 2 minutes, rest)
    else none
  match characters with
  | 'Z' :: rest => some ("Z", rest)
  | 'z' :: rest => some ("Z", rest)
  | '+' :: rest => signed false rest
  | '-' :: rest => signed true rest
  | _ => some ("", characters)

def timeOfDate? : List Char → Option (List Char)
  | 'T' :: rest => some rest
  | 't' :: rest => some rest
  | ' ' :: c :: rest => if c.isDigit then some (c :: rest) else none
  | _ => none

def datetime? : Step Document := fun characters =>
  match date? characters with
  | none => (time? characters).map fun (time, rest) => (.datetime time, rest)
  | some (date, rest) =>
    match timeOfDate? rest with
    | none => some (.datetime date, rest)
    | some rest => do
      let (time, rest) ← time? rest
      let (offset, rest) ← offset? rest
      some (.datetime (date ++ "T" ++ time ++ offset), rest)

def isDelimiter (c : Char) : Bool :=
  c ∈ ['=', ',', '[', ']', '{', '}', '#', ' ', '\t', '\r', '\n']

def beginsDatetime (characters : List Char) : Bool :=
  characters.head?.any Char.isDigit &&
    (characters.dropWhile Char.isDigit).head?.any fun c => c == '-' || c == ':'

def scalar? : Step Document := fun characters =>
  if beginsDatetime characters then datetime? characters
  else
    let word := characters.takeWhile (!isDelimiter ·)
    ((special? (String.ofList word)).or (number? word)).map fun document =>
      (document, characters.dropWhile (!isDelimiter ·))

end ViewEngine.Toml
