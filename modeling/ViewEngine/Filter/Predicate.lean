import ViewEngine.Error
import ViewEngine.Sql.Literal

namespace ViewEngine

structure Predicate where
  operator : FilterOperator
  value : Value := .null
  rangeEnd : Option Value := none

namespace Predicate

def supplied? (p : Predicate) : Option Nat :=
  match p.value, p.rangeEnd with
  | .null, none => some 0
  | .null, some _ => none
  | _, none => some 1
  | _, some _ => some 2

def checked (p : Predicate) : Except CompositionError Predicate :=
  match p.supplied? with
  | none => .error (.rangeWithoutStart p.operator)
  | some supplied =>
    if supplied ≠ p.operator.arity then .error (.operandCount p.operator supplied)
    else if p.value.asList?.isSome && !p.operator.takesList then .error (.listNotAccepted p.operator)
    else .ok p

def of (operator : FilterOperator) (value : Value) : Except CompositionError Predicate :=
  checked ⟨operator, value, none⟩

def unary (operator : FilterOperator) : Except CompositionError Predicate :=
  checked ⟨operator, .null, none⟩

def between (low high : Value) : Except CompositionError Predicate :=
  checked ⟨.between, low, some high⟩

def equals (value : Value) : Except CompositionError Predicate :=
  of .equals value

def members (p : Predicate) : List Value :=
  match p.value with
  | .list items => items
  | value => [value]

def test (p : Predicate) (type : ColumnType) (column : Sql.Expr) : Sql.Expr :=
  let operand := type.literal p.value
  let like (pattern : String) := column.like (.string pattern)
  let text := p.value.toText
  match p.operator with
  | .isNull => column.isNull
  | .isNotNull => column.isNotNull
  | .equals | .equalsOrNull => column.equals operand
  | .notEquals | .notEqualsOrNull => column.differs operand
  | .greater | .greaterOrNull => column.greater operand
  | .greaterOrEqual => column.atLeast operand
  | .less | .lessOrNull => column.less operand
  | .lessOrEqual => column.atMost operand
  | .inList => .membership column (p.members.map type.literal) false
  | .notInList => .membership column (p.members.map type.literal) true
  | .like => like ("%" ++ text ++ "%")
  | .startsWith => like (text ++ "%")
  | .endsWith => like ("%" ++ text)
  | .notLike => .negation (like ("%" ++ text ++ "%"))
  | .between =>
    let high := type.literal (p.rangeEnd.getD .null)
    ((column.greater operand).conjoined (column.less high)).parenthesized

def expr (p : Predicate) (type : ColumnType) (column : Sql.Expr) : Sql.Expr :=
  if p.operator.allowsNull then (p.test type column).disjoined column.isNull else p.test type column

end Predicate

end ViewEngine
