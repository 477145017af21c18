import Mathlib.Algebra.BigOperators.Group.List.Basic
import Mathlib.Data.List.Pairwise
import ViewEngine.Filter.Operator
import ViewEngine.Proofs.Compilation.Tables

namespace ViewEngine

def Collation.alike (c : Collation) (a b : Value) : Bool :=
  (a.isNull && b.isNull) || (c.equal a b).holds

theorem Collation.equal_of_alike {c : Collation} {a b : Value} (alike : c.alike a b = true) (held : a.isNull = false) :
    (c.equal a b).holds = true := by
  simpa only [Collation.alike, held, Bool.false_and, Bool.false_or] using alike

namespace Sql

variable (c : Collation) (db : Database)

namespace Expr

/-- What an aggregate is given on one row. A whole row stands for its key, which is null where there is no row. -/
def argument (frame : Frame) : Expr → Value
  | .wholeRow table key => frame.rows table key
  | expr => expr.eval c frame

def countIn (group : List Frame) (expr : Expr) : Nat :=
  group.countP fun frame => !(expr.argument c frame).isNull

/-- What is selected for a group: a count, or what there is on the first of its rows. Other aggregates than counts have
no value here. -/
def evalGroup (group : List Frame) : Expr → Value
  | .function name [argument] =>
    if name = Aggregate.count.functionName then .int (.ofNat (argument.countIn c group)) else .null
  | expr => (group.head?.map fun frame => expr.eval c frame).getD .null

theorem evalGroup_count (group : List Frame) (argument : Expr) :
    (function Aggregate.count.functionName [argument]).evalGroup c group =
      .int (.ofNat (argument.countIn c group)) := by
  rw [evalGroup, if_pos rfl]

end Expr

namespace Statement

def alike (s : Statement) (f g : Frame) : Bool :=
  s.grouping.all fun expr => c.alike (expr.eval c f) (expr.eval c g)

def groupOf (s : Statement) (parameters : String → Value) (f : Frame) : List Frame :=
  (s.frames c db parameters).filter (s.alike c f)

def groups (s : Statement) (parameters : String → Value) : List (List Frame) :=
  ((s.frames c db parameters).pwFilter fun f g => s.alike c f g = false).map (s.groupOf c db parameters)

def resultOfGroup (s : Statement) (group : List Frame) : Row :=
  Keyed.ofList (s.selected.filterMap fun item => item.label.map fun label => (label, item.expr.evalGroup c group))

variable {c db}

theorem exists_of_mem_groups {s : Statement} {parameters : String → Value} {group : List Frame}
    (member : group ∈ s.groups c db parameters) :
    ∃ f ∈ s.frames c db parameters, group = s.groupOf c db parameters f := by
  obtain ⟨f, kept, rfl⟩ := List.mem_map.mp member
  exact ⟨f, List.pwFilter_subset _ kept, rfl⟩

end Statement

end Sql

structure Frame.AgreeOn (tables : List Nat) (f g : Frame) : Prop where
  rows : ∀ n ∈ tables, f.rows n = g.rows n
  own : f.own = g.own
  parameters : f.parameters = g.parameters

theorem Frame.AgreeOn.mono {tables fewer : List Nat} {f g : Frame} (agree : f.AgreeOn tables g)
    (subset : fewer ⊆ tables) : f.AgreeOn fewer g :=
  ⟨fun n member => agree.rows n (subset member), agree.own, agree.parameters⟩

namespace Sql

variable {c : Collation} {f g : Frame}

namespace Expr

mutual

theorem eval_congr (expr : Expr) (agree : f.AgreeOn expr.tables g) : expr.eval c f = expr.eval c g := by
  match expr with
  | .column (some table) name =>
      rw [eval, eval, agree.rows table (List.mem_singleton_self table)]
  | .column none name => rw [eval, eval, agree.own]
  | .literal value => rw [eval, eval]
  | .parameter name => rw [eval, eval, agree.parameters]
  | .binary operator left right =>
      rw [eval, eval, eval_congr left (agree.mono (List.subset_append_left ..)),
        eval_congr right (agree.mono (List.subset_append_right ..))]
  | .negation operand => rw [eval, eval, eval_congr operand agree]
  | .castText operand => rw [eval, eval, eval_congr operand agree]
  | .membership operand values negated =>
      rw [eval, eval, eval_congr operand (agree.mono (List.subset_append_left ..)),
        evalEach_congr values (agree.mono (List.subset_append_right ..))]
  | .nullTest operand negated => rw [eval, eval, eval_congr operand agree]
  | .parenthesis inner => rw [eval, eval, eval_congr inner agree]
  | .function name arguments => rw [eval, eval]
  | .star table => rw [eval, eval]
  | .wholeRow table key => rw [eval, eval]

theorem evalEach_congr (exprs : List Expr) (agree : f.AgreeOn (tablesOfEach exprs) g) :
    evalEach c f exprs = evalEach c g exprs := by
  match exprs with
  | [] => rw [evalEach, evalEach]
  | expr :: rest =>
      rw [evalEach, evalEach, eval_congr expr (agree.mono (List.subset_append_left ..)),
        evalEach_congr rest (agree.mono (List.subset_append_right ..))]

end

theorem holds_congr {expr : Expr} (agree : f.AgreeOn expr.tables g) : expr.holds c f = expr.holds c g := by
  rw [holds, holds, eval_congr expr agree]

end Expr

namespace Statement

variable {s : Statement}

/-- Whether the conditions hold depends on the tables that they mention. -/
theorem admits_congr (agree : f.AgreeOn (s.conditions.flatMap (·.tables)) g) : s.admits c f = s.admits c g := by
  unfold admits
  cases found : s.predicate? with
  | none => rfl
  | some predicate =>
      refine Expr.holds_congr (agree.mono fun n mentioned => ?_)
      rcases Condition.tables_foldOnto found mentioned with ⟨_, none, -⟩ | ⟨condition, member, inside⟩
      · contradiction
      · exact List.mem_flatMap.mpr ⟨condition, member, inside⟩

theorem alike_congr (h : Frame) (agree : f.AgreeOn (s.grouping.flatMap (·.tables)) g) :
    s.alike c h f = s.alike c h g := by
  rw [Bool.eq_iff_iff, alike, alike, List.all_eq_true, List.all_eq_true]
  refine forall₂_congr fun expr member => ?_
  rw [Expr.eval_congr expr (agree.mono fun n mentioned => List.mem_flatMap.mpr ⟨expr, member, mentioned⟩)]

end Statement

end Sql

end ViewEngine
