import ViewEngine.Sql.Condition

namespace ViewEngine.Sql

namespace Expr

mutual

def mapLiterals (change : Literal → Literal) : Expr → Expr
  | .column table name => .column table name
  | .literal value => .literal (change value)
  | .parameter name => .parameter name
  | .binary operator left right => .binary operator (left.mapLiterals change) (right.mapLiterals change)
  | .negation operand => .negation (operand.mapLiterals change)
  | .function name arguments => .function name (mapLiteralsOfEach change arguments)
  | .castText operand => .castText (operand.mapLiterals change)
  | .membership operand values negated =>
    .membership (operand.mapLiterals change) (mapLiteralsOfEach change values) negated
  | .nullTest operand negated => .nullTest (operand.mapLiterals change) negated
  | .star table => .star table
  | .wholeRow table keyColumn => .wholeRow table keyColumn
  | .parenthesis inner => .parenthesis (inner.mapLiterals change)

def mapLiteralsOfEach (change : Literal → Literal) : List Expr → List Expr
  | [] => []
  | expr :: rest => expr.mapLiterals change :: mapLiteralsOfEach change rest

end

variable (change : Literal → Literal)

theorem mapLiteralsOfEach_eq_map (exprs : List Expr) :
    mapLiteralsOfEach change exprs = exprs.map (mapLiterals change) := by
  induction exprs with
  | nil => rfl
  | cons expr rest ih => rw [mapLiteralsOfEach, ih, List.map_cons]

theorem parenthesized_mapLiterals (expr : Expr) :
    expr.parenthesized.mapLiterals change = (expr.mapLiterals change).parenthesized := by
  cases expr <;> rfl

theorem asConjunct_mapLiterals (expr : Expr) :
    expr.asConjunct.mapLiterals change = (expr.mapLiterals change).asConjunct := by
  have same : (expr.mapLiterals change).isDisjunction = expr.isDisjunction := by
    cases expr with
    | binary operator left right => cases operator <;> rfl
    | _ => rfl
  rw [asConjunct, asConjunct, same]
  split
  · exact expr.parenthesized_mapLiterals change
  · rfl

end Expr

namespace Condition

def mapLiterals (change : Literal → Literal) : Condition → Condition
  | .predicate expr => .predicate (expr.mapLiterals change)
  | .mark connective => .mark connective

theorem foldOnto_mapLiterals (change : Literal → Literal) (conditions : List Condition) (joined : Option Expr)
    (next : Connective) :
    foldOnto (joined.map (·.mapLiterals change)) next (conditions.map (mapLiterals change)) =
      (foldOnto joined next conditions).map (·.mapLiterals change) := by
  induction conditions generalizing joined next with
  | nil => rfl
  | cons condition rest ih =>
      cases condition with
      | mark connective => exact ih joined connective
      | predicate expr =>
          cases joined with
          | none =>
              rw [foldOnto, ← ih, Option.map_some, expr.asConjunct_mapLiterals]
              rfl
          | some left =>
              have both : (Expr.binary next.operator left expr.asConjunct).mapLiterals change =
                  .binary next.operator (left.mapLiterals change) (expr.mapLiterals change).asConjunct := by
                rw [← expr.asConjunct_mapLiterals]
                rfl
              rw [foldOnto, ← ih, Option.map_some, Option.map_some, both]
              rfl

theorem fold?_mapLiterals (change : Literal → Literal) (conditions : List Condition) :
    fold? (conditions.map (mapLiterals change)) = (fold? conditions).map (·.mapLiterals change) :=
  foldOnto_mapLiterals change conditions none .and

end Condition

end ViewEngine.Sql
