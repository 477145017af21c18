import ViewEngine.Schema.Entity
import ViewEngine.Sql.Literal
import ViewEngine.Sql.Statement

namespace ViewEngine.Entity

open Sql

/-- The version that is valid at a point in time, or the one whose interval is still open. -/
def versionConstraint? (e : Entity) (pointInTime : Option Timestamp) (table : Nat) : Option Expr :=
  match e.version with
  | none => none
  | some version =>
    match version.opening.column, version.closing.column with
    | some opening, some closing =>
      let isOpen := (Expr.columnOf table closing).isNull
      match pointInTime with
      | none => some isOpen
      | some at_ =>
        let literalOf (a : Attribute) := a.columnType.literal (.timestamp at_)
        let began := (Expr.columnOf table opening).atMost (literalOf version.opening)
        let lasts := (Expr.columnOf table closing).greater (literalOf version.closing)
        some (began.conjoined (lasts.disjoined isOpen))
    | _, _ => none

def discriminatorConstraint? (e : Entity) (table : Nat) : Option Expr :=
  match e.discriminator with
  | none => none
  | some d =>
    d.subject.column.map fun column =>
      (Expr.columnOf table column).equals (d.subject.columnType.literal d.value)

/-- The columns of the identity keys, as texts with the delimiter between them. -/
def joinedKeys (delimiter : String) : List String → Option Expr
  | [] => none
  | first :: rest =>
    some (rest.foldl (fun joined column =>
      (joined.concatenated (.string delimiter)).concatenated (.castText (.columnOf 0 column)))
      (.castText (.columnOf 0 first)))

/-- The key of a root row: its only identity column, or all of them as one text. -/
def rootKey (e : Entity) (delimiter : String) : Expr :=
  match e.identityKeys.filterMap (·.column) with
  | [single] => .columnOf 0 single
  | columns => (joinedKeys delimiter columns).getD (.literal .null)

def rootKeyType (e : Entity) : ColumnType :=
  match e.identityKeys with
  | [single] => single.columnType
  | _ => .varchar

/-- The conditions that subtypes of one table share. A subtype without a discriminator covers all of
the table's rows, so then there are none. -/
def subtypeConstraint? (roots : List Entity) : Option (List Condition) :=
  (roots.mapM fun (e : Entity) => e.discriminatorConstraint? 0).map fun constraints =>
    match constraints with
    | [] => []
    | first :: rest =>
      .predicate first :: rest.flatMap fun constraint => [.mark .or, .predicate constraint]

def constrainRoot (root : Entity) (others : List Entity) (pointInTime : Option Timestamp)
    (s : Statement) : Statement :=
  let versioned :=
    match root.versionConstraint? pointInTime 0 with
    | some constraint => s.filter constraint
    | none => s
  if others.isEmpty then
    match root.discriminatorConstraint? 0 with
    | some constraint => versioned.filter constraint
    | none => versioned
  else
    match subtypeConstraint? (root :: others) with
    | some conditions => versioned.restrictBy { Statement.select with conditions := conditions }
    | none => versioned

end ViewEngine.Entity
