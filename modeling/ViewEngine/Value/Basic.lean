import ViewEngine.Keyed
import ViewEngine.Number.Reading
import ViewEngine.Number.Shortest
import ViewEngine.Timestamp.Reading

namespace ViewEngine

inductive Value where
  | null
  | bool (value : Bool)
  | int (value : Int64)
  | float (value : Double)
  | text (value : String)
  | timestamp (value : Timestamp)
  | list (items : List Value)
  | row (fields : List (String × Value))
deriving Inhabited

abbrev Row := Keyed Value

namespace Value

def isNull : Value → Bool
  | .null => true
  | _ => false

def asInt64? : Value → Option Int64
  | .int n => some n
  | .bool b => some (if b then 1 else 0)
  | .text s => Number.readInt64? s
  | _ => none

def asText? : Value → Option String
  | .text s => some s
  | _ => none

def asTimestamp? : Value → Option Timestamp
  | .timestamp t => some t
  | .text s => Timestamp.read? s
  | _ => none

def asList? : Value → Option (List Value)
  | .list items => some items
  | _ => none

def asRow? : Value → Option Row
  | .row fields => some fields
  | _ => none

mutual

def isAllNull : Value → Bool
  | .null => true
  | .row fields => allNullFields fields
  | _ => false

def allNullFields : List (String × Value) → Bool
  | [] => true
  | field :: rest => allNullField field && allNullFields rest

def allNullField : String × Value → Bool
  | (_, value) => value.isAllNull

end

mutual

def equal : Value → Value → Bool
  | .null, .null => true
  | .bool a, .bool b => a == b
  | .int a, .int b => a == b
  | .float a, .float b => a.equal b
  | .text a, .text b => a == b
  | .timestamp a, .timestamp b => a == b
  | .list a, .list b => equalItems a b
  | .row a, .row b => equalFields a b
  | _, _ => false

def equalItems : List Value → List Value → Bool
  | [], [] => true
  | a :: as, b :: bs => a.equal b && equalItems as bs
  | _, _ => false

def equalFields : List (String × Value) → List (String × Value) → Bool
  | [], [] => true
  | a :: as, b :: bs => equalField a b && equalFields as bs
  | _, _ => false

def equalField : String × Value → String × Value → Bool
  | (key, a), (other, b) => key == other && a.equal b

end

def equalSlots : Option Value → Option Value → Bool
  | none, none => true
  | some a, some b => a.equal b
  | _, _ => false

mutual

def toText : Value → String
  | .null => ""
  | .bool b => if b then "true" else "false"
  | .int n => toString n.toInt
  | .float x => x.text
  | .text s => s
  | .timestamp t => t.text
  | .list items => "[" ++ String.intercalate ", " (itemTexts items) ++ "]"
  | .row fields => "\x7b" ++ String.intercalate ", " (fieldTexts fields) ++ "\x7d"

def itemTexts : List Value → List String
  | [] => []
  | item :: rest => item.toText :: itemTexts rest

def fieldTexts : List (String × Value) → List String
  | [] => []
  | field :: rest => fieldText field :: fieldTexts rest

def fieldText : String × Value → String
  | (key, value) => key ++ ": " ++ value.toText

end

end Value

namespace Row

def isAllNull (row : Row) : Bool :=
  Value.allNullFields row

def toText (row : Row) : String :=
  (Value.row row).toText

def slot (row : Row) (key : String) : Row × Value :=
  match row.get? key with
  | some value => (row, value)
  | none => (row.insert key .null, .null)

def push (row : Row) (key : String) (value : Value) : Row × Bool :=
  match row.slot key with
  | (row, .list items) => (row.insert key (.list (items ++ [value])), true)
  | (row, _) => (row, false)

/-- Puts a value into the row under a key, and yields the value that it replaces. There is no result
where the key holds no row. -/
def insertNested (row : Row) (key inner : String) (value : Value) : Option (Row × Option Value) :=
  match row.get? key with
  | some (.row fields) =>
    some (row.insert key (.row (Keyed.insert inner value fields)), Keyed.get? fields inner)
  | _ => none

end Row

end ViewEngine
