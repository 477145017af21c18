import ViewEngine.Filter.Predicate
import ViewEngine.Proofs.Conditions.Readings
import ViewEngine.View.Compiled
import ViewEngine.View.Constraint

namespace ViewEngine

open Sql

/-- What is asked of the rows that a statement is evaluated on. -/
abbrev Meaning := Collation → Frame → Truth

def Truth.conjunction (truths : List Truth) : Truth :=
  truths.foldr Truth.and (some true)

def Truth.disjunction (truths : List Truth) : Truth :=
  truths.foldr Truth.or (some false)

/-- The value that an operand of a test on a column is written as. -/
def ColumnType.operand (type : ColumnType) (value : Value) : Value :=
  (type.coerce value).literal.written.value

namespace Predicate

/-- What the test of a predicate says of the value of a column. -/
def tested (p : Predicate) (type : ColumnType) (c : Collation) (v : Value) : Truth :=
  let operand := type.operand p.value
  let isLike (pattern : String) := c.like v (.text pattern)
  let text := p.value.toText
  match p.operator with
  | .isNull => some v.isNull
  | .isNotNull => some !v.isNull
  | .equals | .equalsOrNull => c.equal v operand
  | .notEquals | .notEqualsOrNull => c.compare (· != .eq) v operand
  | .greater | .greaterOrNull => c.compare (· == .gt) v operand
  | .greaterOrEqual => c.compare (· != .lt) v operand
  | .less | .lessOrNull => c.compare (· == .lt) v operand
  | .lessOrEqual => c.compare (· != .gt) v operand
  | .inList => c.oneOf v (p.members.map type.operand)
  | .notInList => (c.oneOf v (p.members.map type.operand)).negated
  | .like => isLike ("%" ++ text ++ "%")
  | .startsWith => isLike (text ++ "%")
  | .endsWith => isLike ("%" ++ text)
  | .notLike => (isLike ("%" ++ text ++ "%")).negated
  | .between =>
    (c.compare (· == .gt) v operand).and (c.compare (· == .lt) v (type.operand (p.rangeEnd.getD .null)))

/-- What a predicate says of the value of a column; some operators accept a null, too. -/
def truth (p : Predicate) (type : ColumnType) (c : Collation) (v : Value) : Truth :=
  if p.operator.allowsNull then (p.tested type c v).or (some v.isNull) else p.tested type c v

end Predicate

namespace Sql.Expr

/-- An expression that is written with the brackets it takes, and says what is meant. -/
structure Means (expr : Expr) (meaning : Meaning) : Prop where
  bracketed : expr.IsBracketed
  truth : ∀ c frame, (expr.written.eval c frame).truth = meaning c frame

theorem literals_written (type : ColumnType) (values : List Value) (c : Collation) (frame : Frame) :
    evalEach c frame (mapLiteralsOfEach Literal.written (values.map type.literal)) = values.map type.operand := by
  rw [evalEach_eq_map, mapLiteralsOfEach_eq_map, List.map_map, List.map_map]
  rfl

theorem literals_bracketed (type : ColumnType) (values : List Value) : AreBracketed (values.map type.literal) := by
  rw [areBracketed_iff]
  intro expr member
  obtain ⟨value, -, rfl⟩ := List.mem_map.mp member
  trivial

end Sql.Expr

open ViewEngine.Sql.Expr

theorem level_membership (operand : Expr) (values : List Expr) (negated : Bool) :
    (Expr.membership operand values negated).level ≤ 2 := by
  cases values with
  | nil => exact Nat.zero_le 2
  | cons value rest => exact Nat.le_refl 2

namespace Predicate

variable (p : Predicate) (type : ColumnType) (table : Nat) (column : String)

theorem test_bracketed : (p.test type (.columnOf table column)).IsBracketed ∧
    (p.test type (.columnOf table column)).level ≤ 3 := by
  have compared (operator : Operator) (value : Literal) (left : operator.leftLevel = 1)
      (right : operator.rightLevel = 1) :
      (binary operator (.columnOf table column) (.literal value)).IsBracketed :=
    ⟨trivial, trivial, left ▸ Nat.zero_le 1, right ▸ Nat.zero_le 1⟩
  have listed (negated : Bool) :
      (Expr.membership (.columnOf table column) (p.members.map type.literal) negated).IsBracketed :=
    ⟨trivial, Nat.zero_le 1, literals_bracketed type p.members⟩
  have null (negated : Bool) : (Expr.nullTest (.columnOf table column) negated).IsBracketed :=
    ⟨trivial, Nat.zero_le 1⟩
  obtain ⟨operator, value, rangeEnd⟩ := p
  cases operator with
  | isNull => exact ⟨null false, Nat.le_succ 2⟩
  | isNotNull => exact ⟨null true, Nat.le_succ 2⟩
  | inList => exact ⟨listed false, Nat.le_succ_of_le (level_membership ..)⟩
  | notInList => exact ⟨listed true, Nat.le_succ_of_le (level_membership ..)⟩
  | notLike => exact ⟨⟨compared .like _ rfl rfl, Nat.le_succ 2⟩, Nat.le_refl 3⟩
  | between =>
      have both : (Expr.conjoined (.greater (.columnOf table column) (type.literal value))
          (.less (.columnOf table column) (type.literal (rangeEnd.getD .null)))).IsBracketed :=
        ⟨compared .greater _ rfl rfl, compared .less _ rfl rfl, (by decide : 2 ≤ 4), (by decide : 2 ≤ 4)⟩
      exact ⟨both, Nat.zero_le 3⟩
  | _ => exact ⟨compared _ _ rfl rfl, Nat.le_succ 2⟩

theorem expr_bracketed : (p.expr type (.columnOf table column)).IsBracketed := by
  obtain ⟨tested, low⟩ := test_bracketed p type table column
  unfold Predicate.expr
  split
  · exact ⟨tested, ⟨trivial, Nat.zero_le 1⟩, Nat.le_trans low (by decide : 3 ≤ 5), (by decide : 2 ≤ 5)⟩
  · exact tested

theorem test_truth (c : Collation) (frame : Frame) :
    ((p.test type (.columnOf table column)).written.eval c frame).truth =
      p.tested type c (frame.rows table column) := by
  have memberships (negated : Bool) : (Expr.membership (.columnOf table column) (p.members.map type.literal)
      negated).written.eval c frame =
        (if negated then (c.oneOf (frame.rows table column) (p.members.map type.operand)).negated
          else c.oneOf (frame.rows table column) (p.members.map type.operand)).value := by
    rw [written, mapLiterals, eval, literals_written]
    rfl
  obtain ⟨operator, value, rangeEnd⟩ := p
  cases operator with
  | isNull => exact congrArg some (Bool.bne_false _)
  | isNotNull => exact congrArg some (Bool.bne_true _)
  | inList => exact (congrArg Value.truth (memberships false)).trans (Value.truth_value _)
  | notInList => exact (congrArg Value.truth (memberships true)).trans (Value.truth_value _)
  | notLike =>
      refine (Value.truth_value _).trans (congrArg Truth.negated ?_)
      exact Value.truth_value _
  | between =>
      refine (Value.truth_value _).trans (congrArg₂ Truth.and ?_ ?_)
      · exact Value.truth_value _
      · exact Value.truth_value _
  | _ => exact Value.truth_value _

theorem expr_means :
    (p.expr type (.columnOf table column)).Means fun c frame => p.truth type c (frame.rows table column) := by
  refine ⟨expr_bracketed p type table column, fun c frame => ?_⟩
  have tested := test_truth p type table column c frame
  unfold Predicate.expr Predicate.truth
  split
  · refine (Value.truth_value _).trans (congrArg₂ Truth.or tested ?_)
    exact congrArg some (Bool.bne_false _)
  · exact tested

end Predicate

end ViewEngine
