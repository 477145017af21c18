import ViewEngine.Value.Basic

namespace ViewEngine

inductive Stored where
  | null
  | integer (value : Int64)
  | real (value : Double)
  | text (value : String)
deriving DecidableEq

namespace Value

/-- Truth values are stored as integers, and what has no storage class of its own as its text. -/
def stored : Value → Stored
  | .null => .null
  | .bool b => .integer (if b then 1 else 0)
  | .int n => .integer n
  | .float x => .real x
  | value => .text value.toText

def hexDigit (n : Nat) : Char :=
  if n < 10 then Char.ofNat ('0'.toNat + n) else Char.ofNat ('a'.toNat + (n - 10))

def jsonCharacter (c : Char) : List Char :=
  if c = '"' then ['\\', '"']
  else if c = '\\' then ['\\', '\\']
  else if c = '\n' then ['\\', 'n']
  else if c = '\r' then ['\\', 'r']
  else if c = '\t' then ['\\', 't']
  else if c.toNat = 8 then ['\\', 'b']
  else if c.toNat = 12 then ['\\', 'f']
  else if c.toNat < 32 then ['\\', 'u', '0', '0', hexDigit (c.toNat / 16), hexDigit (c.toNat % 16)]
  else [c]

def jsonText (s : String) : String :=
  "\"" ++ String.ofList (s.toList.flatMap jsonCharacter) ++ "\""

mutual

/-- A compact document, the fields of a row in the order of their keys. A float that is no finite
number is written as null. -/
def toJson : Value → String
  | .null => "null"
  | .bool b => if b then "true" else "false"
  | .int n => toString n.toInt
  | .float x => if x.isFinite then x.text else "null"
  | .text s => jsonText s
  | .timestamp t => "\"" ++ t.isoText ++ "\""
  | .list items => "[" ++ String.intercalate "," (jsonItems items) ++ "]"
  | .row fields => "\x7b" ++ String.intercalate "," (jsonFields fields) ++ "\x7d"

def jsonItems : List Value → List String
  | [] => []
  | item :: rest => item.toJson :: jsonItems rest

def jsonFields : List (String × Value) → List String
  | [] => []
  | field :: rest => jsonField field :: jsonFields rest

def jsonField : String × Value → String
  | (key, value) => jsonText key ++ ":" ++ value.toJson

end

end Value

end ViewEngine
