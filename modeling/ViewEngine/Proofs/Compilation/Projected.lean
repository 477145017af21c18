import Mathlib.Data.List.Nodup
import ViewEngine.Proofs.Except
import ViewEngine.View.Compile

namespace ViewEngine

open Sql

namespace Entity

theorem constrainRoot_single (root : Entity) (pointInTime : Option Timestamp) (s : Statement) :
    root.constrainRoot [] pointInTime s = { s with conditions := s.conditions ++
      ((root.versionConstraint? pointInTime 0).toList.map .predicate ++
        (root.discriminatorConstraint? 0).toList.map .predicate) } := by
  unfold constrainRoot
  cases s
  cases root.versionConstraint? pointInTime 0 <;> cases root.discriminatorConstraint? 0 <;>
    simp [Statement.filter, Statement.addCondition]

/-- Several roots add the constraint on versions of the first one, and what holds of any of them. -/
theorem constrainRoot_several (root other : Entity) (rest : List Entity) (pointInTime : Option Timestamp)
    (s : Statement) : root.constrainRoot (other :: rest) pointInTime s = { s with conditions := s.conditions ++
      ((root.versionConstraint? pointInTime 0).toList.map .predicate ++
        ((subtypeConstraint? (root :: other :: rest)).bind Condition.fold?).toList.flatMap fun folded =>
          [.mark .and, .predicate folded.parenthesized]) } := by
  unfold constrainRoot
  cases s
  cases root.versionConstraint? pointInTime 0 <;> cases subtypeConstraint? (root :: other :: rest) with
  | none => simp [Statement.filter, Statement.addCondition]
  | some conditions =>
      cases folded : Condition.fold? conditions <;>
        simp [Statement.filter, Statement.addCondition, Statement.restrictBy, Statement.predicate?, Statement.select, folded]

end Entity

namespace Compile

/-- A selected expression with what it is bound to. -/
structure Projection where
  expr : Expr
  binding : ColumnBinding

def Projection.item (p : Projection) : SelectItem :=
  ⟨p.expr, some p.binding.label⟩

def putColumn (p : Projection) (ps : List Projection) : List Projection :=
  if ps.any (·.binding.label == p.binding.label) then ps else ps ++ [p]

section Putting

variable {ps : List Projection} {p q : Projection}

theorem putColumn_grows (p : Projection) (ps : List Projection) : ps <+: putColumn p ps := by
  unfold putColumn
  split
  · exact List.prefix_refl _
  · exact List.prefix_append _ _

theorem mem_putColumn (member : q ∈ putColumn p ps) : q ∈ ps ∨ q = p := by
  unfold putColumn at member
  split at member
  · exact .inl member
  · exact (List.mem_append.mp member).imp_right List.mem_singleton.mp

theorem exists_putColumn (p : Projection) (ps : List Projection) :
    ∃ q ∈ putColumn p ps, q.binding.label = p.binding.label := by
  unfold putColumn
  split
  next taken =>
    obtain ⟨q, member, same⟩ := List.any_eq_true.mp taken
    exact ⟨q, member, beq_iff_eq.mp same⟩
  next => exact ⟨p, List.mem_append_right _ (List.mem_singleton_self p), rfl⟩

theorem nodup_putColumn (distinct : (ps.map (·.binding.label)).Nodup) (p : Projection) :
    ((putColumn p ps).map (·.binding.label)).Nodup := by
  unfold putColumn
  split
  next => exact distinct
  next free =>
    rw [List.map_append, List.nodup_append]
    refine ⟨distinct, List.nodup_singleton _, fun label old other new same => free ?_⟩
    obtain ⟨q, member, rfl⟩ := List.mem_map.mp old
    rw [List.map_singleton, List.mem_singleton] at new
    exact List.any_eq_true.mpr ⟨q, member, beq_iff_eq.mpr (same.trans new)⟩

end Putting

namespace Scope

def base (s : Scope) : Statement :=
  { s.statement with selected := [] }

def projections (s : Scope) : List Projection :=
  s.statement.selected.zipWith (fun item binding => ⟨item.expr, binding⟩) s.columns

/-- What is kept beside a statement agrees with what it selects. -/
structure IsInStep (s : Scope) : Prop where
  selected : s.statement.selected = s.projections.map (·.item)
  columns : s.columns = s.projections.map (·.binding)
  labels : ∀ label, s.labels.contains label = s.projections.any (·.binding.label == label)
  plain : s.plain = (s.projections.filter (·.binding.kind != .aggregate)).map (·.expr)
  isAggregated : s.isAggregated = s.projections.any (·.binding.kind == .aggregate)
  grouping : s.statement.grouping = []

variable {s : Scope} {expr : Expr} {label path : String} {subject : Option Attribute} {kind : ColumnKind}
  {a : Attribute} {table : Nat} {attributes : List Attribute} {e : Entity}

section Base

theorem project_base : (s.project expr label subject kind).base = s.base := by
  unfold project
  split <;> rfl

theorem project_joins : (s.project expr label subject kind).statement.joins = s.statement.joins :=
  congrArg (·.joins) project_base

theorem project_enclosing : (s.project expr label subject kind).enclosing = s.enclosing := by
  unfold project
  split <;> rfl

theorem projectColumn_base : (s.projectColumn a table path).base = s.base := by
  unfold projectColumn
  split
  · exact project_base
  · rfl

theorem projectColumn_joins : (s.projectColumn a table path).statement.joins = s.statement.joins :=
  congrArg (·.joins) projectColumn_base

theorem projectColumn_enclosing : (s.projectColumn a table path).enclosing = s.enclosing := by
  unfold projectColumn
  split
  · exact project_enclosing
  · rfl

theorem projectColumns_base : (s.projectColumns attributes table path).base = s.base := by
  unfold projectColumns
  induction attributes generalizing s with
  | nil => rfl
  | cons a rest ih => exact ih.trans projectColumn_base

theorem projectIdentity_base : (s.projectIdentity e table path).base = s.base := by
  unfold projectIdentity
  cases e.version with
  | none => exact projectColumns_base
  | some version => exact projectColumn_base.trans projectColumns_base

theorem projectJoinSide_base {columns : List String} : (s.projectJoinSide e columns table path).base = s.base :=
  projectColumns_base

theorem addJoin_base (join : Join) : base { s with statement := s.statement.addJoin join } = s.base.addJoin join :=
  apply_ite (fun statement : Statement => { statement with selected := [] }) _ _ _

theorem filter_base (predicate : Expr) :
    base { s with statement := s.statement.filter predicate } = s.base.filter predicate :=
  rfl

theorem addOrdering_base (expr : Expr) (direction : Direction) :
    base { s with statement := s.statement.addOrdering expr direction } = s.base.addOrdering expr direction :=
  rfl

theorem constrainRoot_base (root : Entity) (others : List Entity) (pointInTime : Option Timestamp) :
    base { s with statement := root.constrainRoot others pointInTime s.statement } =
      root.constrainRoot others pointInTime s.base := by
  cases others with
  | nil =>
      rw [Entity.constrainRoot_single, Entity.constrainRoot_single]
      rfl
  | cons other rest =>
      rw [Entity.constrainRoot_several, Entity.constrainRoot_several]
      rfl

theorem foldl_addGrouping (exprs : List Expr) (statement : Statement) :
    exprs.foldl Statement.addGrouping statement =
      { statement with grouping := statement.grouping ++ exprs } := by
  induction exprs generalizing statement with
  | nil =>
      cases statement
      simp only [List.foldl_nil, List.append_nil]
  | cons expr rest ih =>
      rw [List.foldl_cons, ih]
      simp only [Statement.addGrouping, List.append_assoc, List.singleton_append]

theorem finish_eq : s.finish =
    { s.statement with grouping := s.statement.grouping ++ if s.isAggregated then s.plain else [] } := by
  unfold finish
  split
  · exact foldl_addGrouping s.plain s.statement
  · cases s.statement
    simp only [List.append_nil]

/-- What is finished differs from the statement in the making by what it selects and groups by. -/
theorem finish_base : s.finish =
    { s.base with selected := s.finish.selected, grouping := s.finish.grouping } := by
  rw [finish_eq]
  rfl

end Base

theorem projections_of_selected {statement : Statement} {enclosing : List JoinedCollection}
    (selected : statement.selected = s.statement.selected) :
    projections { s with statement := statement, enclosing := enclosing } = s.projections := by
  rw [projections, selected]
  rfl

theorem addJoin_projections (join : Join) :
    projections { s with statement := s.statement.addJoin join } = s.projections := by
  refine projections_of_selected ?_
  unfold Statement.addJoin
  split <;> rfl

theorem addJoins_projections (joins : List Join) :
    projections { s with statement := joins.foldl Statement.addJoin s.statement } = s.projections := by
  induction joins generalizing s with
  | nil => rfl
  | cons join rest ih =>
      exact (ih (s := { s with statement := s.statement.addJoin join })).trans (addJoin_projections join)

theorem constrainRoot_projections (root : Entity) (others : List Entity) (pointInTime : Option Timestamp) :
    projections { s with statement := root.constrainRoot others pointInTime s.statement } = s.projections := by
  refine projections_of_selected ?_
  cases others with
  | nil => rw [Entity.constrainRoot_single]
  | cons other rest => rw [Entity.constrainRoot_several]

namespace IsInStep

theorem of_list {ps : List Projection} (selected : s.statement.selected = ps.map (·.item))
    (columns : s.columns = ps.map (·.binding))
    (labels : ∀ label, s.labels.contains label = ps.any (·.binding.label == label))
    (plain : s.plain = (ps.filter (·.binding.kind != .aggregate)).map (·.expr))
    (isAggregated : s.isAggregated = ps.any (·.binding.kind == .aggregate))
    (grouping : s.statement.grouping = []) : s.IsInStep ∧ s.projections = ps := by
  have same : s.projections = ps := by
    rw [projections, selected, columns, List.zipWith_map, List.zipWith_self]
    exact List.map_id' ps
  refine ⟨⟨?_, ?_, ?_, ?_, ?_, grouping⟩, same⟩
  all_goals rw [same]
  · exact selected
  · exact columns
  · exact labels
  · exact plain
  · exact isAggregated

theorem of_empty {statement : Statement} (selected : statement.selected = []) (grouping : statement.grouping = [])
    (enclosing : List JoinedCollection) : IsInStep { statement := statement, enclosing := enclosing } :=
  (@of_list _ [] selected rfl (fun _ => rfl) rfl rfl grouping).1

theorem project_and (inStep : s.IsInStep) (expr : Expr) (label : String) (subject : Option Attribute)
    (kind : ColumnKind) : (s.project expr label subject kind).IsInStep ∧
      (s.project expr label subject kind).projections = putColumn ⟨expr, label, subject, kind⟩ s.projections := by
  unfold Scope.project putColumn
  rw [inStep.labels]
  split
  next => exact ⟨inStep, rfl⟩
  next free =>
    refine of_list ?_ ?_ (fun other => ?_) ?_ ?_ inStep.grouping
    · rw [List.map_append, ← inStep.selected]
      rfl
    · rw [List.map_append, ← inStep.columns]
      rfl
    · rw [List.contains_cons, inStep.labels, List.any_append, Bool.or_comm, BEq.comm]
      simp
    · rw [List.filter_append, List.map_append, ← inStep.plain]
      cases kind <;> simp
    · rw [List.any_append, ← inStep.isAggregated]
      simp

theorem project (inStep : s.IsInStep) (expr : Expr) (label : String) (subject : Option Attribute)
    (kind : ColumnKind) : (s.project expr label subject kind).IsInStep :=
  (inStep.project_and expr label subject kind).1

theorem projections_project (inStep : s.IsInStep) (expr : Expr) (label : String) (subject : Option Attribute)
    (kind : ColumnKind) : (s.project expr label subject kind).projections =
      putColumn ⟨expr, label, subject, kind⟩ s.projections :=
  (inStep.project_and expr label subject kind).2

theorem projectColumn (inStep : s.IsInStep) (a : Attribute) (table : Nat) (path : String) :
    (s.projectColumn a table path).IsInStep := by
  unfold Scope.projectColumn
  split
  · exact inStep.project ..
  · exact inStep

theorem projectColumns (inStep : s.IsInStep) (attributes : List Attribute) (table : Nat) (path : String) :
    (s.projectColumns attributes table path).IsInStep := by
  unfold Scope.projectColumns
  induction attributes generalizing s with
  | nil => exact inStep
  | cons a rest ih => exact ih (inStep.projectColumn a table path)

theorem projectIdentity (inStep : s.IsInStep) (e : Entity) (table : Nat) (path : String) :
    (s.projectIdentity e table path).IsInStep := by
  unfold Scope.projectIdentity
  have keyed := inStep.projectColumns e.identityKeys table path
  split
  · exact keyed.projectColumn _ table path
  · exact keyed

theorem projectJoinSide (inStep : s.IsInStep) (e : Entity) (columns : List String) (table : Nat) (path : String) :
    (s.projectJoinSide e columns table path).IsInStep :=
  inStep.projectColumns _ table path

theorem changed (inStep : s.IsInStep) {statement : Statement} {enclosing : List JoinedCollection}
    (selected : statement.selected = s.statement.selected) (grouping : statement.grouping = s.statement.grouping) :
    IsInStep { s with statement := statement, enclosing := enclosing } := by
  have same : projections { s with statement := statement, enclosing := enclosing } = s.projections :=
    projections_of_selected selected
  refine ⟨?_, ?_, ?_, ?_, ?_, grouping.trans inStep.grouping⟩
  all_goals rw [same]
  · exact selected.trans inStep.selected
  · exact inStep.columns
  · exact inStep.labels
  · exact inStep.plain
  · exact inStep.isAggregated

theorem addJoin (inStep : s.IsInStep) (join : Join) :
    IsInStep { s with statement := s.statement.addJoin join } := by
  have kept : (s.statement.addJoin join).selected = s.statement.selected ∧
      (s.statement.addJoin join).grouping = s.statement.grouping := by
    unfold Statement.addJoin
    split <;> exact ⟨rfl, rfl⟩
  exact inStep.changed kept.1 kept.2

theorem addJoins (inStep : s.IsInStep) (joins : List Join) :
    IsInStep { s with statement := joins.foldl Statement.addJoin s.statement } := by
  induction joins generalizing s with
  | nil => exact inStep
  | cons join rest ih => exact ih (inStep.addJoin join)

theorem filter (inStep : s.IsInStep) (predicate : Expr) :
    IsInStep { s with statement := s.statement.filter predicate } :=
  inStep.changed rfl rfl

theorem addOrdering (inStep : s.IsInStep) (expr : Expr) (direction : Direction) :
    IsInStep { s with statement := s.statement.addOrdering expr direction } :=
  inStep.changed rfl rfl

theorem constrainRoot (inStep : s.IsInStep) (root : Entity) (others : List Entity) (pointInTime : Option Timestamp) :
    IsInStep { s with statement := root.constrainRoot others pointInTime s.statement } := by
  cases others with
  | nil =>
      rw [Entity.constrainRoot_single]
      exact inStep.changed rfl rfl
  | cons other rest =>
      rw [Entity.constrainRoot_several]
      exact inStep.changed rfl rfl

theorem hasLabel (inStep : s.IsInStep) (label : String) :
    s.statement.hasLabel label = s.labels.contains label := by
  rw [inStep.labels, Statement.hasLabel, inStep.selected, List.any_map]
  rfl

theorem finish_selected (inStep : s.IsInStep) : s.finish.selected = s.projections.map (·.item) := by
  rw [finish_eq]
  exact inStep.selected

theorem finish_grouping (inStep : s.IsInStep) : s.finish.grouping =
    if s.projections.any (·.binding.kind == .aggregate) then
      (s.projections.filter (·.binding.kind != .aggregate)).map (·.expr)
    else [] := by
  rw [finish_eq, inStep.grouping, inStep.isAggregated, ← inStep.plain]
  rfl

end IsInStep

end Scope

section State

open Scope

variable {setting : Setting} {state after : State} {item : FilterItem} {a : Attribute} {e : Entity} {table joined : Nat}
  {path : String}

theorem walkColumn_isInStep (inStep : state.scope.IsInStep) :
    (walkColumn item a table path state).scope.IsInStep := by
  unfold walkColumn
  split
  · exact inStep
  next column _ =>
    dsimp only [State.mapScope]
    cases item.predicate with
    | none =>
        split
        · exact (inStep.project ..).addOrdering _ _
        · exact inStep.project ..
    | some p =>
        split
        · exact ((inStep.filter _).project ..).addOrdering _ _
        · exact (inStep.filter _).project ..

theorem walkColumn_projections (inStep : state.scope.IsInStep) :
    (walkColumn item a table path state).scope.projections = match a.column with
      | some column => putColumn ⟨.columnOf table column, ⟨item.outputName.getD path, some a, .value⟩⟩
          state.scope.projections
      | none => state.scope.projections := by
  unfold walkColumn
  cases a.column with
  | none => rfl
  | some column =>
      dsimp only [State.mapScope]
      cases item.predicate <;> cases item.sortAscending <;>
        first | exact inStep.projections_project .. | exact (inStep.filter _).projections_project ..

theorem join_isInStep (inStep : state.scope.IsInStep)
    (joins : state.join setting path a e table = .ok (after, joined)) : after.scope.IsInStep := by
  unfold State.join at joins
  split at joins
  next =>
    cases joins
    exact inStep.addJoin _
  next =>
    obtain ⟨target, -, joins⟩ := bind_eq_ok.mp joins
    cases joins
    exact inStep.addJoin _

end State

theorem start_isInStep (r : Root) (enclosing : List JoinedCollection) : (r.start enclosing).IsInStep :=
  (Scope.IsInStep.of_empty rfl rfl enclosing).project ..

end Compile

end ViewEngine
