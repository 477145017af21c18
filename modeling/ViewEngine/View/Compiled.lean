import ViewEngine.Sql.Literal
import ViewEngine.View.JoinPlan

namespace ViewEngine

inductive ColumnKind where
  | rootKey
  | value
  | aggregate
deriving DecidableEq, Repr

def ColumnKind.name : ColumnKind → String
  | .rootKey => "root_key"
  | .value => "value"
  | .aggregate => "aggregate"

structure ColumnBinding where
  label : String
  subject : Option Attribute
  kind : ColumnKind
deriving DecidableEq

namespace ColumnBinding

def columnType? (b : ColumnBinding) : Option ColumnType :=
  b.subject.map (·.columnType)

def coerce (b : ColumnBinding) (value : Value) : Value :=
  match b.columnType? with
  | some type => type.coerce value
  | none => value

end ColumnBinding

/-- A collection around another one, and the properties by which its elements are told apart. -/
structure EnclosingCollection where
  path : String
  keys : List String
deriving DecidableEq

structure SubSelect where
  path : String
  statement : Sql.Statement
  columns : List ColumnBinding
  enclosing : List EnclosingCollection
  rootKey : Sql.Expr
  rootKeyType : ColumnType

namespace SubSelect

def forKeys (s : SubSelect) (keys : List Value) : Sql.Statement :=
  s.statement.filter (.membership s.rootKey (keys.map s.rootKeyType.literal) false)

end SubSelect

structure CompiledView where
  root : Entity
  otherRoots : List Entity
  primary : Sql.Statement
  columns : List ColumnBinding
  subSelects : List SubSelect
  joinPlan : JoinPlan
  rootKeyAlias : String
  rootKeyType : ColumnType
  dialect : Sql.Dialect

namespace CompiledView

def roots (v : CompiledView) : List Entity :=
  v.root :: v.otherRoots

def primaryText (v : CompiledView) : String :=
  v.primary.text v.dialect

def subSelect? (v : CompiledView) (path : String) : Option SubSelect :=
  v.subSelects.find? (·.path == path)

def isCollection (v : CompiledView) (path : String) : Bool :=
  (v.subSelect? path).isSome

end CompiledView

end ViewEngine
