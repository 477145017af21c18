import Mathlib.Logic.Function.Basic
import ViewEngine.Proofs.Relational.Collation
import ViewEngine.Sql.Condition
import ViewEngine.Sql.Statement

/-!
What expressions denote, and what a query selects. Predicates have a truth value that may be unknown, which is
what a null stands for among truth values. Expressions are read by their structure, and aggregates, which are not
of one row, have no value here.

A query selects the rows of its table, extended by each join in turn, where the conditions hold. Grouping,
ordering and pagination are left out.
-/

namespace ViewEngine

/-- The truth of a predicate, where none is unknown. -/
abbrev Truth := Option Bool

namespace Truth

def negated : Truth → Truth := Option.map Bool.not

def and : Truth → Truth → Truth
  | some false, _ => some false
  | _, some false => some false
  | some true, some true => some true
  | _, _ => none

def or : Truth → Truth → Truth
  | some true, _ => some true
  | _, some true => some true
  | some false, some false => some false
  | _, _ => none

def value : Truth → Value
  | some b => .bool b
  | none => .null

def holds (t : Truth) : Bool :=
  t == some true

@[simp] theorem holds_and (a b : Truth) : (a.and b).holds = (a.holds && b.holds) := by
  rcases a with _ | _ | _ <;> rcases b with _ | _ | _ <;> rfl

@[simp] theorem holds_or (a b : Truth) : (a.or b).holds = (a.holds || b.holds) := by
  rcases a with _ | _ | _ <;> rcases b with _ | _ | _ <;> rfl

@[simp] theorem holds_some (b : Bool) : holds (some b) = b := by
  cases b <;> rfl

theorem and_assoc (a b c : Truth) : (a.and b).and c = a.and (b.and c) := by
  rcases a with _ | _ | _ <;> rcases b with _ | _ | _ <;> rcases c with _ | _ | _ <;> rfl

theorem or_assoc (a b c : Truth) : (a.or b).or c = a.or (b.or c) := by
  rcases a with _ | _ | _ <;> rcases b with _ | _ | _ <;> rcases c with _ | _ | _ <;> rfl

end Truth

def Value.truth : Value → Truth
  | .bool b => some b
  | _ => none

@[simp] theorem Value.truth_value (t : Truth) : t.value.truth = t := by
  cases t <;> rfl

namespace Collation

/-- Whether the order of two values passes a test. It is unknown if one of them is null. -/
def compare (c : Collation) (test : Ordering → Bool) (a b : Value) : Truth :=
  if a.isNull || b.isNull then none else some (test (c.order a b))

def equal (c : Collation) : Value → Value → Truth :=
  c.compare (· == .eq)

def oneOf (c : Collation) (subject : Value) (values : List Value) : Truth :=
  values.foldr (fun value found => (c.equal subject value).or found) (some false)

def joinedText (c : Collation) (a b : Value) : Value :=
  if a.isNull || b.isNull then .null else .text (c.textOf a ++ c.textOf b)

def like (c : Collation) (a b : Value) : Truth :=
  if a.isNull || b.isNull then none else some (c.matchesPattern (c.textOf a) (c.textOf b))

def castText (c : Collation) (v : Value) : Value :=
  if v.isNull then .null else .text (c.textOf v)

variable {c : Collation}

theorem equal_holds_iff {a b : Value} :
    (c.equal a b).holds = true ↔ a.isNull = false ∧ b.isNull = false ∧ c.order a b = .eq := by
  unfold equal compare
  split
  next unknown =>
    simp only [Bool.or_eq_true] at unknown
    rcases unknown with null | null <;> simp [null, Truth.holds]
  next known =>
    simp only [Bool.or_eq_true, not_or, Bool.not_eq_true] at known
    simp [known, Truth.holds]

end Collation

/-- A row of a table, by column. -/
abbrev Record := String → Value

/-- What an outer join puts in the place of a row that there is not. -/
def Record.missing : Record := fun _ => .null

/-- The rows and parameters that an expression is evaluated on. -/
structure Frame where
  /-- The rows of the numbered tables. -/
  rows : Nat → Record := fun _ => Record.missing
  /-- The row of the table without a number. -/
  own : Record := Record.missing
  parameters : String → Value := fun _ => .null

namespace Sql

open Collation

def Operator.apply (c : Collation) : Operator → Value → Value → Value
  | .equal, a, b => (c.equal a b).value
  | .notEqual, a, b => (c.compare (· != .eq) a b).value
  | .less, a, b => (c.compare (· == .lt) a b).value
  | .greater, a, b => (c.compare (· == .gt) a b).value
  | .atMost, a, b => (c.compare (· != .gt) a b).value
  | .atLeast, a, b => (c.compare (· != .lt) a b).value
  | .and, a, b => (a.truth.and b.truth).value
  | .or, a, b => (a.truth.or b.truth).value
  | .concatenation, a, b => c.joinedText a b
  | .like, a, b => (c.like a b).value

namespace Expr

mutual

def eval (c : Collation) (frame : Frame) : Expr → Value
  | .column (some table) name => frame.rows table name
  | .column none name => frame.own name
  | .literal value => value.value
  | .parameter name => frame.parameters name
  | .binary operator left right => operator.apply c (eval c frame left) (eval c frame right)
  | .negation operand => (eval c frame operand).truth.negated.value
  | .castText operand => c.castText (eval c frame operand)
  | .membership operand values negated =>
    let found := c.oneOf (eval c frame operand) (evalEach c frame values)
    (if negated then found.negated else found).value
  | .nullTest operand negated => .bool ((eval c frame operand).isNull != negated)
  | .parenthesis inner => eval c frame inner
  | .function _ _ | .star _ | .wholeRow _ _ => .null

def evalEach (c : Collation) (frame : Frame) : List Expr → List Value
  | [] => []
  | expr :: rest => eval c frame expr :: evalEach c frame rest

end

variable (c : Collation) (frame : Frame)

def holds (expr : Expr) : Bool :=
  (expr.eval c frame).truth.holds

theorem evalEach_eq_map (exprs : List Expr) : evalEach c frame exprs = exprs.map (eval c frame) := by
  induction exprs with
  | nil => rfl
  | cons expr rest ih => simp only [evalEach, ih, List.map_cons]

@[simp] theorem eval_columnOf (table : Nat) (name : String) :
    (columnOf table name).eval c frame = frame.rows table name :=
  rfl

@[simp] theorem eval_unqualified (name : String) : (unqualified name).eval c frame = frame.own name :=
  rfl

@[simp] theorem eval_asConjunct (expr : Expr) : expr.asConjunct.eval c frame = expr.eval c frame := by
  unfold asConjunct
  split
  · unfold parenthesized
    split <;> rfl
  · rfl

@[simp] theorem eval_parenthesized (expr : Expr) : expr.parenthesized.eval c frame = expr.eval c frame := by
  unfold parenthesized
  split <;> rfl

@[simp] theorem holds_equals (left right : Expr) :
    (left.equals right).holds c frame = (c.equal (left.eval c frame) (right.eval c frame)).holds :=
  congrArg Truth.holds (Value.truth_value _)

@[simp] theorem holds_asConjunct (expr : Expr) : expr.asConjunct.holds c frame = expr.holds c frame := by
  rw [holds, eval_asConjunct, holds]

@[simp] theorem holds_parenthesized (expr : Expr) :
    expr.parenthesized.holds c frame = expr.holds c frame := by
  rw [holds, eval_parenthesized, holds]

@[simp] theorem holds_and (left right : Expr) :
    (binary .and left right).holds c frame = (left.holds c frame && right.holds c frame) :=
  (congrArg Truth.holds (Value.truth_value _)).trans (Truth.holds_and _ _)

@[simp] theorem holds_conjoined (left right : Expr) :
    (left.conjoined right).holds c frame = (left.holds c frame && right.holds c frame) := by
  simp only [conjoined, holds_and, holds_asConjunct]

@[simp] theorem holds_disjoined (left right : Expr) :
    (left.disjoined right).holds c frame = (left.holds c frame || right.holds c frame) :=
  (congrArg Truth.holds (Value.truth_value _)).trans (Truth.holds_or _ _)

@[simp] theorem holds_isNull (operand : Expr) :
    operand.isNull.holds c frame = (operand.eval c frame).isNull :=
  (Truth.holds_some _).trans (Bool.bne_false _)

theorem holds_foldl_conjoined (first : Expr) (rest : List Expr) :
    (rest.foldl conjoined first).holds c frame = (first.holds c frame && rest.all (holds c frame)) := by
  induction rest generalizing first with
  | nil => simp only [List.foldl_nil, List.all_nil, Bool.and_true]
  | cons next rest ih =>
      simp only [List.foldl_cons, ih, holds_conjoined, List.all_cons, Bool.and_assoc]

theorem holds_conjunction? {predicates : List Expr} {joined : Expr}
    (composed : conjunction? predicates = some joined) :
    joined.holds c frame = predicates.all (holds c frame) := by
  cases predicates with
  | nil => contradiction
  | cons first rest =>
      cases composed
      exact holds_foldl_conjoined c frame first rest

end Expr

namespace Condition

variable (c : Collation) (frame : Frame)

theorem holds_foldOnto (predicates : List Expr) (joined : Expr) :
    ∃ folded, foldOnto (some joined) .and (predicates.map .predicate) = some folded ∧
      folded.holds c frame = (joined.holds c frame && predicates.all (Expr.holds c frame)) := by
  induction predicates generalizing joined with
  | nil => exact ⟨joined, rfl, by simp⟩
  | cons next rest ih =>
      obtain ⟨folded, found, same⟩ := ih (.binary .and joined next.asConjunct)
      refine ⟨folded, found, ?_⟩
      rw [same, Expr.holds_and, Expr.holds_asConjunct, List.all_cons, Bool.and_assoc]

theorem fold?_predicates (predicates : List Expr) :
    (fold? (predicates.map .predicate)).all (Expr.holds c frame) =
      predicates.all (Expr.holds c frame) := by
  cases predicates with
  | nil => rfl
  | cons first rest =>
      obtain ⟨folded, found, same⟩ := holds_foldOnto c frame rest first.asConjunct
      have composed : fold? ((first :: rest).map .predicate) = some folded := found
      rw [composed, Option.all_some, same, List.all_cons, Expr.holds_asConjunct]

end Condition

end Sql

structure Table where
  columns : List String
  rows : List Record

/-- The tables of a database by name. One that there is not has no columns. -/
abbrev Database := String → Table

namespace Frame

def ofParameters (parameters : String → Value) : Frame :=
  { parameters }

def bind (frame : Frame) (reference : Sql.TableReference) (record : Record) : Frame :=
  match reference.number with
  | some table => { frame with rows := Function.update frame.rows table record }
  | none => { frame with own := record }

end Frame

namespace Sql

variable (c : Collation) (db : Database)

namespace Join

/-- The rows of a joined table that fit to what has been joined so far. -/
def matching (join : Join) (frame : Frame) : List Frame :=
  ((db join.table.table).rows.map (frame.bind join.table)).filter (join.condition.holds c)

def extend (join : Join) (frame : Frame) : List Frame :=
  let found := join.matching c db frame
  match join.kind with
  | .inner => found
  | .leftOuter => if found.isEmpty then [frame.bind join.table Record.missing] else found

end Join

namespace Statement

def admits (s : Statement) (frame : Frame) : Bool :=
  s.predicate?.all (·.holds c frame)

def crossed (s : Statement) (frame : Frame) : List Frame :=
  s.tables.foldl (fun found reference =>
    found.flatMap fun frame => (db reference.table).rows.map (frame.bind reference)) [frame]

def joined (joins : List Join) (found : List Frame) : List Frame :=
  joins.foldl (fun found join => found.flatMap (join.extend c db)) found

def frames (s : Statement) (parameters : String → Value) : List Frame :=
  (joined c db s.joins (s.crossed db (.ofParameters parameters))).filter (s.admits c)

def tuples (s : Statement) (parameters : String → Value) : List (List Value) :=
  (s.frames c db parameters).map fun frame => s.selected.map (·.expr.eval c frame)

/-- The row of a result, by label. -/
def resultOf (s : Statement) (frame : Frame) : Row :=
  Keyed.ofList (s.selected.filterMap fun item => item.label.map fun label => (label, item.expr.eval c frame))

def results (s : Statement) (parameters : String → Value) : List Row :=
  (s.frames c db parameters).map (s.resultOf c)

end Statement

end Sql

end ViewEngine
