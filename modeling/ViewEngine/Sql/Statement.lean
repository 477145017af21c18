import ViewEngine.Sql.Condition

namespace ViewEngine.Sql

inductive StatementKind where
  | select
  | insert
  | update
  | delete
deriving DecidableEq, Repr

def StatementKind.name : StatementKind → String
  | .select => "select"
  | .insert => "insert"
  | .update => "update"
  | .delete => "delete"

structure SelectItem where
  expr : Expr
  label : Option String

structure TableReference where
  table : String
  number : Option Nat
deriving DecidableEq

inductive JoinKind where
  | inner
  | leftOuter
deriving DecidableEq, Repr

structure Join where
  kind : JoinKind
  table : TableReference
  condition : Expr

def Join.equal (a b : Join) : Bool :=
  a.kind == b.kind && a.table == b.table && a.condition.equal b.condition

inductive Direction where
  | ascending
  | descending
deriving DecidableEq, Repr

structure Ordering where
  expr : Expr
  direction : Direction

structure Statement where
  kind : StatementKind
  distinct : Bool := false
  selected : List SelectItem := []
  tables : List TableReference := []
  joins : List Join := []
  conditions : List Condition := []
  groupConditions : List Condition := []
  grouping : List Expr := []
  orderings : List Ordering := []
  assignments : List (String × Expr) := []
  insertColumns : List String := []
  insertValues : List Expr := []
  source : Option Statement := none
  offset : Option UInt64 := none
  limit : Option UInt64 := none

def TableReference.tokens (reference : TableReference) : List Token :=
  .identifier reference.table ::
    match reference.number with
    | some number => [.space, .tableAlias number]
    | none => []

def JoinKind.token : JoinKind → Token
  | .inner => .keyword .innerJoin
  | .leftOuter => .keyword .leftOuterJoin

def Join.tokens (join : Join) : List Token :=
  [join.kind.token, .space] ++ join.table.tokens ++ [.space, .keyword .onCondition, .space] ++
    join.condition.parenthesized.tokens

def Direction.token : Direction → Token
  | .ascending => .keyword .ascending
  | .descending => .keyword .descending

namespace Statement

def select : Statement :=
  { kind := .select }

def insertInto (table : String) : Statement :=
  { kind := .insert, tables := [⟨table, none⟩] }

def updateOf (table : String) : Statement :=
  { kind := .update, tables := [⟨table, none⟩] }

def deleteFrom (table : String) : Statement :=
  { kind := .delete, tables := [⟨table, none⟩] }

def addColumn (s : Statement) (expr : Expr) (label : Option String) : Statement :=
  { s with selected := s.selected ++ [⟨expr, label⟩] }

def addTable (s : Statement) (table : String) (number : Option Nat) : Statement :=
  { s with tables := s.tables ++ [⟨table, number⟩] }

def addJoin (s : Statement) (join : Join) : Statement :=
  if s.joins.any (·.equal join) then s else { s with joins := s.joins ++ [join] }

def addCondition (s : Statement) (condition : Condition) : Statement :=
  { s with conditions := s.conditions ++ [condition] }

def filter (s : Statement) (predicate : Expr) : Statement :=
  s.addCondition (.predicate predicate)

def addGroupCondition (s : Statement) (condition : Condition) : Statement :=
  { s with groupConditions := s.groupConditions ++ [condition] }

def addGrouping (s : Statement) (expr : Expr) : Statement :=
  { s with grouping := s.grouping ++ [expr] }

def addOrdering (s : Statement) (expr : Expr) (direction : Direction) : Statement :=
  { s with orderings := s.orderings ++ [⟨expr, direction⟩] }

def assign (s : Statement) (column : String) (value : Expr) : Statement :=
  { s with assignments := s.assignments ++ [(column, value)] }

def addInsertColumn (s : Statement) (column : String) : Statement :=
  { s with insertColumns := s.insertColumns ++ [column] }

def insertValue (s : Statement) (column : String) (value : Expr) : Statement :=
  { s.addInsertColumn column with insertValues := s.insertValues ++ [value] }

def predicate? (s : Statement) : Option Expr :=
  Condition.fold? s.conditions

def groupPredicate? (s : Statement) : Option Expr :=
  Condition.fold? s.groupConditions

def hasLabel (s : Statement) (label : String) : Bool :=
  s.selected.any (·.label == some label)

/-- Takes over the joins and the predicate of another statement, the predicate as one conjunct. -/
def restrictBy (s child : Statement) : Statement :=
  let joined := child.joins.foldl addJoin s
  match child.predicate? with
  | none => joined
  | some predicate =>
    (joined.addCondition (.mark .and)).filter predicate.parenthesized

def clause (heading : Keyword) (items : List (List Token)) : List Token :=
  if items.isEmpty then [] else [.newline, .keyword heading, .space] ++ separated items

def predicateClause (heading : Keyword) (predicate : Option Expr) : List Token :=
  clause heading (predicate.toList.map Expr.tokens)

def SelectItem.tokens (item : SelectItem) : List Token :=
  item.expr.tokens ++
    match item.label with
    | some label => [.space, .keyword .asAlias, .space, .identifier label]
    | none => []

/-- Each item stands on an indented line, with a comma before the line break. -/
def selectedTokens : List SelectItem → List Token
  | [] => []
  | [item] => [.newline, .indent 1] ++ SelectItem.tokens item
  | item :: next :: rest =>
    [.newline, .indent 1] ++ SelectItem.tokens item ++ [.symbol .comma] ++
      selectedTokens (next :: rest)

def orderingTokens (ordering : Ordering) : List Token :=
  ordering.expr.tokens ++ [.space, ordering.direction.token]

def paginationTokens (s : Statement) : List Token :=
  if s.offset.isSome || s.limit.isSome then [.newline, .pagination s.offset s.limit] else []

def selectTokens (s : Statement) : List Token :=
  [.keyword .select] ++ (if s.distinct then [.space, .keyword .distinct] else []) ++
    selectedTokens s.selected ++
    clause .fromClause (s.tables.map TableReference.tokens) ++
    s.joins.flatMap (fun join => .newline :: join.tokens) ++
    predicateClause .whereClause s.predicate? ++
    clause .groupBy (s.grouping.map Expr.tokens) ++
    predicateClause .having s.groupPredicate? ++
    clause .orderBy (s.orderings.map orderingTokens) ++
    paginationTokens s

def targetTokens (s : Statement) : List Token :=
  (s.tables.head?.map TableReference.tokens).getD []

def columnListTokens (columns : List String) : List Token :=
  if columns.isEmpty then []
  else
    [.space, .symbol .opening] ++ separated (columns.map fun column => [.identifier column]) ++
      [.symbol .closing]

def valuesTokens (values : List Expr) : List Token :=
  [.keyword .values, .space, .symbol .opening] ++ separated (values.map Expr.tokens) ++
    [.symbol .closing]

def assignmentTokens (assignment : String × Expr) : List Token :=
  [.identifier assignment.1, .space, .symbol .equal, .space] ++ assignment.2.tokens

def updateTokens (s : Statement) : List Token :=
  [.keyword .update, .space] ++ s.targetTokens ++ [.newline, .keyword .setClause, .space] ++
    separated (s.assignments.map assignmentTokens) ++
    predicateClause .whereClause s.predicate?

def deleteTokens (s : Statement) : List Token :=
  [.keyword .delete, .space, .keyword .fromClause, .space] ++ s.targetTokens ++
    predicateClause .whereClause s.predicate?

def tokens (s : Statement) : List Token :=
  match s.kind with
  | .select => s.selectTokens
  | .insert =>
    [.keyword .insert, .space, .keyword .into, .space] ++ s.targetTokens ++
      columnListTokens s.insertColumns ++ [.newline] ++
      match _found : s.source with
      | some source => source.tokens
      | none => valuesTokens s.insertValues
  | .update => s.updateTokens
  | .delete => s.deleteTokens
termination_by sizeOf s
decreasing_by
  cases s
  simp only at _found
  subst _found
  simp only [mk.sizeOf_spec, Option.some.sizeOf_spec]
  omega

def text (dialect : Dialect) (s : Statement) : String :=
  textOf dialect s.tokens

end Statement

end ViewEngine.Sql
