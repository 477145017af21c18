import ViewEngine.Text.Case

namespace ViewEngine.Sql

inductive Dialect where
  | postgres
  | sqlite
deriving DecidableEq, Repr

namespace Dialect

instance : Inhabited Dialect := ⟨.postgres⟩

def name : Dialect → String
  | .postgres => "postgres"
  | .sqlite => "sqlite"

def doubled (quote : Char) (characters : List Char) : List Char :=
  characters.flatMap fun c => if c = quote then [quote, quote] else [c]

def quoted (quote : Char) (text : String) : String :=
  String.ofList (quote :: doubled quote text.toList ++ [quote])

def identifier (_ : Dialect) (name : String) : String :=
  quoted '"' name

def string (_ : Dialect) (text : String) : String :=
  quoted '\'' text

def boolean : Dialect → Bool → String
  | .postgres, value => if value then "true" else "false"
  | .sqlite, value => if value then "1" else "0"

def parameter (_ : Dialect) (name : String) : String :=
  ":" ++ name

def concatenation : Dialect → String
  | _ => "||"

def textType : Dialect → String
  | _ => "TEXT"

/-- A whole row as the argument of an aggregate; sqlite counts a key column in its place. -/
def wholeRow : Dialect → String → String → String
  | .postgres, table, _ => table ++ ".*"
  | .sqlite, table, keyColumn => table ++ "." ++ quoted '"' keyColumn

def countText (n : UInt64) : String :=
  toString n.toInt64.toInt

/-- In sqlite the limit comes first, and an offset alone goes with the limit -1. -/
def pagination : Dialect → Option UInt64 → Option UInt64 → String
  | _, none, none => ""
  | _, none, some limit => "LIMIT " ++ countText limit
  | .postgres, some offset, none => "OFFSET " ++ countText offset
  | .postgres, some offset, some limit =>
    "OFFSET " ++ countText offset ++ " LIMIT " ++ countText limit
  | .sqlite, some offset, none => "LIMIT -1 OFFSET " ++ countText offset
  | .sqlite, some offset, some limit =>
    "LIMIT " ++ countText limit ++ " OFFSET " ++ countText offset

def ofName (name : String) : Except String Dialect :=
  let lowered := Text.toLower name
  if lowered == "postgres" || lowered == "postgresql" then .ok .postgres
  else if lowered == "sqlite" then .ok .sqlite
  else .error lowered

def unknownMessage (lowered : String) : String :=
  "unknown dialect: " ++ lowered

end Dialect

end ViewEngine.Sql
