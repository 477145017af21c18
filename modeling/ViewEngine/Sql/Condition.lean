import ViewEngine.Sql.Expr

namespace ViewEngine.Sql

inductive Connective where
  | and
  | or
deriving DecidableEq, Repr

def Connective.operator : Connective → Operator
  | .and => .and
  | .or => .or

inductive Condition where
  | predicate (expr : Expr)
  | mark (connective : Connective)

namespace Condition

/-- Folds the list onto what is already joined; `next` is the connective of the coming entry. -/
def foldOnto (joined : Option Expr) (next : Connective) : List Condition → Option Expr
  | [] => joined
  | .mark connective :: rest => foldOnto joined connective rest
  | .predicate expr :: rest =>
    match joined with
    | none => foldOnto (some expr.asConjunct) .and rest
    | some left => foldOnto (some (.binary next.operator left expr.asConjunct)) .and rest

def fold? (conditions : List Condition) : Option Expr :=
  foldOnto none .and conditions

end Condition

end ViewEngine.Sql
