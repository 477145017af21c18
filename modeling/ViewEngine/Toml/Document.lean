import ViewEngine.Value.Basic

namespace ViewEngine.Toml

/-- What is written like a number is `unreadable` if it has no value: it is past every range, it has
no digits, or there is more than digits in it. -/
inductive Document where
  | unreadable
  | string (value : String)
  | integer (value : Int)
  | float (value : Double)
  | boolean (value : Bool)
  | datetime (text : String)
  | array (items : List Document)
  | table (entries : List (String × Document))
deriving Inhabited

def datetimeField : String :=
  "$__toml_private_datetime"

namespace Document

mutual

def isReadable : Document → Bool
  | .unreadable => false
  | .array items => areReadable items
  | .table entries => hasReadableEntries entries
  | _ => true

def areReadable : List Document → Bool
  | [] => true
  | item :: rest => item.isReadable && areReadable rest

def hasReadableEntries : List (String × Document) → Bool
  | [] => true
  | entry :: rest => isReadableEntry entry && hasReadableEntries rest

def isReadableEntry : String × Document → Bool
  | (_, document) => document.isReadable

end

abbrev Fields := List (String × Document)

/-- The fields of a record that may have fields of the given names, in this order. The items of an
array beyond them are not looked at. -/
def record? (names : List String) : Document → Option Fields
  | .table entries =>
    if entries.all fun (name, document) => names.contains name || document.isReadable then
      some entries
    else none
  | .array items => some (names.zip items)
  | .datetime text => some [(datetimeField, .string text)]
  | _ => none

def string? : Document → Option String
  | .string value => some value
  | _ => none

def boolean? : Document → Option Bool
  | .boolean value => some value
  | _ => none

def count? : Document → Option UInt64
  | .integer value => if 0 ≤ value ∧ value < Nat.pow 2 64 then some (UInt64.ofNat value.toNat) else none
  | _ => none

/-- One of several names, written as a string or as the only field of a table, with nothing in it. -/
def name? : Document → Option String
  | .string value => some value
  | .table [(name, .table [])] => some name
  | .table [(name, .array [])] => some name
  | _ => none

def list? {α : Type} (read : Document → Option α) : Document → Option (List α)
  | .array items => items.mapM read
  | _ => none

mutual

/-- The value that a document stands for. An integer past the signed range is a float, and a date or
time is a row. -/
def value? : Document → Option Value
  | .unreadable => none
  | .string value => some (.text value)
  | .integer value =>
    match Number.int64OfInt? value with
    | some n => some (.int n)
    | none => if 0 ≤ value ∧ value < Nat.pow 2 64 then some (.float (Double.ofInt value)) else none
  | .float value => some (.float value)
  | .boolean value => some (.bool value)
  | .datetime text => some (.row [(datetimeField, .text text)])
  | .array items => (values? items).map .list
  | .table entries => (fieldValues? entries).map fun fields => .row (Keyed.ofList fields)

def values? : List Document → Option (List Value)
  | [] => some []
  | item :: rest => do
    let value ← item.value?
    let others ← values? rest
    some (value :: others)

def fieldValues? : List (String × Document) → Option (List (String × Value))
  | [] => some []
  | entry :: rest => do
    let field ← fieldValue? entry
    let others ← fieldValues? rest
    some (field :: others)

def fieldValue? : String × Document → Option (String × Value)
  | (key, document) => document.value?.map fun value => (key, value)

end

def required {α : Type} (fields : Fields) (name : String) (read : Document → Option α) :
    Option α :=
  (fields.lookup name).bind read

def optional {α : Type} (fields : Fields) (name : String) (read : Document → Option α) :
    Option (Option α) :=
  match fields.lookup name with
  | none => some none
  | some document => (read document).map some

def withDefault {α : Type} (fields : Fields) (name : String) (read : Document → Option α)
    (fallback : α) : Option α :=
  (optional fields name read).map (·.getD fallback)

end Document

end ViewEngine.Toml
