import ViewEngine.Sql.Statement
import ViewEngine.View.Rows

namespace ViewEngine

structure BoundParameter where
  name : String
  value : Value
  type : ColumnType

namespace BoundParameter

def of (name : String) (value : Value) (type : ColumnType) : BoundParameter :=
  ⟨name, type.coerce value, type⟩

/-- A column name with everything but ASCII letters and digits replaced by an underscore. -/
def plainName (column : String) : String :=
  column.map fun c => if c.isAlphanum then c else '_'

def keyName (column : String) : String :=
  "k_" ++ plainName column

def valueName (column : String) : String :=
  "v_" ++ plainName column

def nowName : String := "now"

def now (time : Timestamp) : BoundParameter :=
  of nowName (.timestamp time) .timestamp

def isKey (p : BoundParameter) : Bool :=
  "k_".toList.isPrefixOf p.name.toList

def describeKeys (parameters : List BoundParameter) : String :=
  String.intercalate ", "
    ((parameters.filter isKey).map fun p => p.name ++ "=" ++ p.value.toText)

end BoundParameter

inductive WritePurpose where
  | update
  | insert
  | close
  | delete
deriving DecidableEq, Repr

structure BatchKey where
  path : String
  purpose : WritePurpose
  columns : List String
deriving DecidableEq, Repr

structure Write where
  path : String
  statement : Sql.Statement
  parameters : List BoundParameter
  batch : Option BatchKey := none
  /-- Whether it is an error if no row is affected. -/
  requiresMatch : Bool := false
  reopens : Option Reopening := none

structure PlannedStatement where
  path : String
  statement : Sql.Statement
  batch : List (List BoundParameter)
  requiresMatch : Bool
  batchKey : Option BatchKey

namespace PlannedStatement

def ofWrite (w : Write) : PlannedStatement :=
  ⟨w.path, w.statement, [w.parameters], w.requiresMatch, w.batch⟩

def add (w : Write) : List PlannedStatement → List PlannedStatement
  | [] => [ofWrite w]
  | s :: rest =>
    if w.batch.isSome && s.batchKey == w.batch then
      { s with batch := s.batch ++ [w.parameters] } :: rest
    else s :: add w rest

def ofWrites (writes : List Write) : List PlannedStatement :=
  writes.foldl (fun statements w => add w statements) []

end PlannedStatement

structure WritePlan where
  statements : List PlannedStatement
  now : Timestamp
  reopened : List Reopening

def WritePlan.ofWrites (now : Timestamp) (writes : List Write) : WritePlan :=
  ⟨PlannedStatement.ofWrites writes, now, writes.filterMap (·.reopens)⟩

/-- A property or column that a write cannot be traced to is an error only in strict mode. -/
def reportUnresolved (strict : Bool) (path column : String) : Except ViewError Unit :=
  if strict then .error (.unresolved path column) else .ok ()

end ViewEngine
