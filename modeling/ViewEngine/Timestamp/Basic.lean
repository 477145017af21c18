/-!
Civil timestamps without a zone, and their text. A second numbered 60 is a leap second and may stand
in any minute. Timestamps are ordered field by field, the year first.
-/

namespace ViewEngine

def isLeapYear (year : Int) : Bool :=
  year % 4 == 0 && (year % 100 != 0 || year % 400 == 0)

def daysInMonth (year : Int) (month : Nat) : Nat :=
  if month = 2 then (if isLeapYear year then 29 else 28)
  else if month = 4 ∨ month = 6 ∨ month = 9 ∨ month = 11 then 30
  else 31

def ValidDate (year : Int) (month day : Nat) : Prop :=
  -262143 ≤ year ∧ year ≤ 262142 ∧ 1 ≤ month ∧ month ≤ 12 ∧ 1 ≤ day ∧ day ≤ daysInMonth year month

def ValidTime (hour minute second nanosecond : Nat) : Prop :=
  hour < 24 ∧ minute < 60 ∧ second ≤ 60 ∧ nanosecond < 1000000000

instance (year : Int) (month day : Nat) : Decidable (ValidDate year month day) := by
  unfold ValidDate
  infer_instance

instance (hour minute second nanosecond : Nat) :
    Decidable (ValidTime hour minute second nanosecond) := by
  unfold ValidTime
  infer_instance

structure Timestamp where
  year : Int
  month : Nat
  day : Nat
  hour : Nat
  minute : Nat
  second : Nat
  nanosecond : Nat
  validDate : ValidDate year month day
  validTime : ValidTime hour minute second nanosecond
deriving DecidableEq

namespace Timestamp

def of? (year : Int) (month day hour minute second nanosecond : Nat) : Option Timestamp :=
  if validDate : ValidDate year month day then
    if validTime : ValidTime hour minute second nanosecond then
      some ⟨year, month, day, hour, minute, second, nanosecond, validDate, validTime⟩
    else none
  else none

def truncated (t : Timestamp) : Timestamp :=
  { t with
    nanosecond := 0
    validTime := ⟨t.validTime.1, t.validTime.2.1, t.validTime.2.2.1, by decide⟩ }

def fields (t : Timestamp) : List Int :=
  [t.year, t.month, t.day, t.hour, t.minute, t.second, t.nanosecond]

instance : LT Timestamp := ⟨fun a b => a.fields < b.fields⟩

instance (a b : Timestamp) : Decidable (a < b) :=
  inferInstanceAs (Decidable (a.fields < b.fields))

def padded (width n : Nat) : String :=
  let digits := toString n
  String.ofList (List.replicate (width - digits.length) '0') ++ digits

def yearText (year : Int) : String :=
  if 0 ≤ year ∧ year ≤ 9999 then padded 4 year.toNat
  else (if year < 0 then "-" else "+") ++ padded 4 year.natAbs

def fractionText (nanosecond : Nat) : String :=
  if nanosecond = 0 then ""
  else if nanosecond % 1000000 = 0 then "." ++ padded 3 (nanosecond / 1000000)
  else if nanosecond % 1000 = 0 then "." ++ padded 6 (nanosecond / 1000)
  else "." ++ padded 9 nanosecond

def textWith (separator : String) (t : Timestamp) : String :=
  yearText t.year ++ "-" ++ padded 2 t.month ++ "-" ++ padded 2 t.day ++ separator ++
    padded 2 t.hour ++ ":" ++ padded 2 t.minute ++ ":" ++ padded 2 t.second ++
    fractionText t.nanosecond

def text : Timestamp → String :=
  textWith " "

def isoText : Timestamp → String :=
  textWith "T"

end Timestamp

end ViewEngine
