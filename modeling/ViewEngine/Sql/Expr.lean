import ViewEngine.Sql.Token

/-!
Expressions: columns, literals, parameters and predicates over them, and their tokens. Operators are
written without parentheses of their own, so the combinators put a disjunction into parentheses where
it becomes part of a conjunction.
-/

namespace ViewEngine.Sql

inductive Literal where
  | integer (value : Int64)
  | float (value : Double)
  | string (value : String)
  | boolean (value : Bool)
  | null
deriving DecidableEq

def Literal.equal : Literal → Literal → Bool
  | .float a, .float b => a.equal b
  | a, b => a == b

def Literal.token : Literal → Token
  | .integer value => .integer value
  | .float value => .float value
  | .string value => .string value
  | .boolean value => .boolean value
  | .null => .null

inductive Operator where
  | equal
  | notEqual
  | less
  | greater
  | atMost
  | atLeast
  | and
  | or
  | concatenation
  | like
deriving DecidableEq, Repr

def Operator.token : Operator → Token
  | .equal => .symbol .equal
  | .notEqual => .symbol .notEqual
  | .less => .symbol .less
  | .greater => .symbol .greater
  | .atMost => .symbol .atMost
  | .atLeast => .symbol .atLeast
  | .and => .keyword .and
  | .or => .keyword .or
  | .concatenation => .symbol .concatenation
  | .like => .keyword .like

inductive Expr where
  | column (table : Option Nat) (name : String)
  | literal (value : Literal)
  | parameter (name : String)
  | binary (operator : Operator) (left right : Expr)
  | negation (operand : Expr)
  | function (name : String) (arguments : List Expr)
  | castText (operand : Expr)
  | membership (operand : Expr) (values : List Expr) (negated : Bool)
  | nullTest (operand : Expr) (negated : Bool)
  | star (table : Option Nat)
  | wholeRow (table : Nat) (keyColumn : String)
  | parenthesis (inner : Expr)
deriving Inhabited

namespace Expr

def qualified (table : Option Nat) (last : Token) : List Token :=
  match table with
  | some table => [.tableAlias table, .symbol .dot, last]
  | none => [last]

mutual

/-- A membership in an empty list cannot be written as one and is written as its truth value. -/
def tokens : Expr → List Token
  | .column table name => qualified table (.identifier name)
  | .literal value => [value.token]
  | .parameter name => [.parameter name]
  | .binary operator left right =>
    left.tokens ++ [.space, operator.token, .space] ++ right.tokens
  | .negation operand => [.keyword .not, .space] ++ operand.tokens
  | .function name arguments =>
    [.function name, .symbol .opening] ++ separated (tokensOfEach arguments) ++ [.symbol .closing]
  | .castText operand =>
    [.keyword .cast, .symbol .opening] ++ operand.tokens ++
      [.space, .keyword .asAlias, .space, .textType, .symbol .closing]
  | .membership _ [] negated => [.keyword (if negated then .trueValue else .falseValue)]
  | .membership operand (value :: values) negated =>
    operand.tokens ++ (if negated then [.space, .keyword .not] else []) ++
      [.space, .keyword .inList, .space, .symbol .opening] ++
      separated (value.tokens :: tokensOfEach values) ++ [.symbol .closing]
  | .nullTest operand negated =>
    operand.tokens ++ [.space, .keyword (if negated then .isNotNull else .isNull)]
  | .star table => qualified table (.symbol .star)
  | .wholeRow table keyColumn => [.wholeRow table keyColumn]
  | .parenthesis inner => [.symbol .opening] ++ inner.tokens ++ [.symbol .closing]

def tokensOfEach : List Expr → List (List Token)
  | [] => []
  | expr :: rest => expr.tokens :: tokensOfEach rest

end

def text (dialect : Dialect) (expr : Expr) : String :=
  textOf dialect expr.tokens

mutual

def equal : Expr → Expr → Bool
  | .column table name, .column table' name' => table == table' && name == name'
  | .literal value, .literal value' => value.equal value'
  | .parameter name, .parameter name' => name == name'
  | .binary operator left right, .binary operator' left' right' =>
    operator == operator' && left.equal left' && right.equal right'
  | .negation operand, .negation operand' => operand.equal operand'
  | .function name arguments, .function name' arguments' =>
    name == name' && equalEach arguments arguments'
  | .castText operand, .castText operand' => operand.equal operand'
  | .membership operand values negated, .membership operand' values' negated' =>
    operand.equal operand' && equalEach values values' && negated == negated'
  | .nullTest operand negated, .nullTest operand' negated' =>
    operand.equal operand' && negated == negated'
  | .star table, .star table' => table == table'
  | .wholeRow table keyColumn, .wholeRow table' keyColumn' =>
    table == table' && keyColumn == keyColumn'
  | .parenthesis inner, .parenthesis inner' => inner.equal inner'
  | _, _ => false

def equalEach : List Expr → List Expr → Bool
  | [], [] => true
  | a :: as, b :: bs => a.equal b && equalEach as bs
  | _, _ => false

end

def isDisjunction : Expr → Bool
  | .binary .or _ _ => true
  | _ => false

def parenthesized : Expr → Expr
  | .parenthesis inner => .parenthesis inner
  | expr => .parenthesis expr

def asConjunct (expr : Expr) : Expr :=
  if expr.isDisjunction then expr.parenthesized else expr

def columnOf (table : Nat) (name : String) : Expr :=
  .column (some table) name

def unqualified (name : String) : Expr :=
  .column none name

def string (value : String) : Expr :=
  .literal (.string value)

def equals : Expr → Expr → Expr := .binary .equal
def differs : Expr → Expr → Expr := .binary .notEqual
def less : Expr → Expr → Expr := .binary .less
def greater : Expr → Expr → Expr := .binary .greater
def atMost : Expr → Expr → Expr := .binary .atMost
def atLeast : Expr → Expr → Expr := .binary .atLeast
def like : Expr → Expr → Expr := .binary .like
def concatenated : Expr → Expr → Expr := .binary .concatenation
def disjoined : Expr → Expr → Expr := .binary .or

def conjoined (left right : Expr) : Expr :=
  .binary .and left.asConjunct right.asConjunct

def isNull (operand : Expr) : Expr :=
  .nullTest operand false

def isNotNull (operand : Expr) : Expr :=
  .nullTest operand true

/-- The conjunction of all the predicates, from the left; there is none of none. -/
def conjunction? : List Expr → Option Expr
  | [] => none
  | first :: rest => some (rest.foldl conjoined first)

end Expr

end ViewEngine.Sql
