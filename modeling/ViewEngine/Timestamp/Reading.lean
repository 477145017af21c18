import ViewEngine.Timestamp.Basic
import ViewEngine.Text.Step

namespace ViewEngine.Timestamp

open Text (Step digits? character? fraction?)

def number? (width : Nat) : Step Nat := fun characters =>
  digits? width (Text.trimStart characters)

def year? : Step Int := fun characters =>
  match Text.trimStart characters with
  | '-' :: rest => (digits? rest.length rest).map fun (n, after) => (-(n : Int), after)
  | '+' :: rest => (digits? rest.length rest).map fun (n, after) => ((n : Int), after)
  | rest => (digits? 4 rest).map fun (n, after) => ((n : Int), after)

def date? : Step (Int × Nat × Nat) := fun characters => do
  let (year, rest) ← year? characters
  let (_, rest) ← character? '-' rest
  let (month, rest) ← number? 2 rest
  let (_, rest) ← character? '-' rest
  let (day, rest) ← number? 2 rest
  some ((year, month, day), rest)

def time? : Step (Nat × Nat × Nat × Nat) := fun characters => do
  let (hour, rest) ← number? 2 characters
  let (_, rest) ← character? ':' rest
  let (minute, rest) ← number? 2 rest
  let (_, rest) ← character? ':' rest
  let (second, rest) ← number? 2 rest
  let (nanosecond, rest) ← fraction? rest
  some ((hour, minute, second, nanosecond), rest)

def separator? : Step Unit
  | 'T' :: rest => some ((), rest)
  | characters => some ((), Text.trimStart characters)

def ofParts? (date : Int × Nat × Nat) (time : Nat × Nat × Nat × Nat) : Option Timestamp :=
  of? date.1 date.2.1 date.2.2 time.1 time.2.1 time.2.2.1 time.2.2.2

def read? (text : String) : Option Timestamp := do
  let (date, rest) ← date? (Text.trim text.toList)
  if rest.isEmpty then ofParts? date (0, 0, 0, 0)
  else
    let (_, rest) ← separator? rest
    let (time, rest) ← time? rest
    if rest.isEmpty then ofParts? date time else none

end ViewEngine.Timestamp
