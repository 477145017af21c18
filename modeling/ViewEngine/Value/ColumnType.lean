import ViewEngine.Value.Basic

namespace ViewEngine

inductive ColumnType where
  | boolean
  | smallInt
  | integer
  | bigInt
  | decimal
  | double
  | char
  | varchar
  | date
  | timestamp
  | other
deriving DecidableEq, Repr, Inhabited

namespace ColumnType

def all : List ColumnType :=
  [.boolean, .smallInt, .integer, .bigInt, .decimal, .double, .char, .varchar, .date, .timestamp,
    .other]

def name : ColumnType → String
  | .boolean => "boolean"
  | .smallInt => "small_int"
  | .integer => "integer"
  | .bigInt => "big_int"
  | .decimal => "decimal"
  | .double => "double"
  | .char => "char"
  | .varchar => "varchar"
  | .date => "date"
  | .timestamp => "timestamp"
  | .other => "other"

def ofName? (name : String) : Option ColumnType :=
  all.find? (·.name == name)

def isIntegral : ColumnType → Bool
  | .smallInt | .integer | .bigInt => true
  | _ => false

def isFractional : ColumnType → Bool
  | .decimal | .double => true
  | _ => false

def isTextual : ColumnType → Bool
  | .char | .varchar => true
  | _ => false

def isTemporal : ColumnType → Bool
  | .date | .timestamp => true
  | _ => false

def trimmed (s : String) : String :=
  String.ofList (Text.trim s.toList)

def toBoolean : Value → Value
  | .int n => .bool (n != 0)
  | .text s =>
    let word := Text.toLowerAscii s
    if word == "true" || word == "1" then .bool true
    else if word == "false" || word == "0" then .bool false
    else .text s
  | value => value

def toIntegral : Value → Value
  | .float x => if x.isIntegral then .int x.toInt64 else .float x
  | .bool b => .int (if b then 1 else 0)
  | .text s => ((Number.readInt64? (trimmed s)).map Value.int).getD (.text s)
  | value => value

def toFractional : Value → Value
  | .int n => .float (Double.ofInt n.toInt)
  | .text s => ((Number.readDouble? (trimmed s)).map Value.float).getD (.text s)
  | value => value

def toTextual : Value → Value
  | .int n => .text (Value.int n).toText
  | .float x => .text (Value.float x).toText
  | .bool b => .text (Value.bool b).toText
  | .timestamp t => .text t.text
  | value => value

def toTemporal : Value → Value
  | .text s => ((Timestamp.read? s).map Value.timestamp).getD (.text s)
  | value => value

def coerce (type : ColumnType) (value : Value) : Value :=
  match type with
  | .boolean => toBoolean value
  | .smallInt | .integer | .bigInt => toIntegral value
  | .decimal | .double => toFractional value
  | .char | .varchar => toTextual value
  | .date | .timestamp => toTemporal value
  | .other => value

end ColumnType

end ViewEngine
