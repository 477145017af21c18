import ViewEngine.Proofs.Compilation.Tables
import ViewEngine.Proofs.Compilation.Visits

/-!
Two statements in the making that differ by some of their columns. A column is left out where its label
is taken, so what one of them has beside the other may also keep a later column out.
-/

namespace ViewEngine

open Sql Compile

namespace Compile

/-- Columns that are the same on both sides, but for some of either side and those whose labels these take. -/
structure Differ (left right : Projection → Prop) (ps qs : List Projection) : Prop where
  onLeft : ∀ p ∈ ps, p ∈ qs ∨ left p ∨ ∃ q ∈ qs, q.binding.label = p.binding.label ∧ right q
  onRight : ∀ q ∈ qs, q ∈ ps ∨ right q ∨ ∃ p ∈ ps, p.binding.label = q.binding.label ∧ left p

namespace Differ

variable {left right further other : Projection → Prop} {ps qs : List Projection} {p : Projection}

theorem symm (differ : Differ left right ps qs) : Differ right left qs ps :=
  ⟨differ.onRight, differ.onLeft⟩

theorem mono (differ : Differ left right ps qs) (more : ∀ p, left p → further p) (others : ∀ p, right p → other p) :
    Differ further other ps qs := by
  refine ⟨fun p member => ?_, fun q member => ?_⟩
  · rcases differ.onLeft p member with there | mine | ⟨q, inside, same, theirs⟩
    · exact .inl there
    · exact .inr (.inl (more p mine))
    · exact .inr (.inr ⟨q, inside, same, others q theirs⟩)
  · rcases differ.onRight q member with there | theirs | ⟨p, inside, same, mine⟩
    · exact .inl there
    · exact .inr (.inl (others q theirs))
    · exact .inr (.inr ⟨p, inside, same, more p mine⟩)

theorem refl (ps : List Projection) : Differ left right ps ps :=
  ⟨fun _ member => .inl member, fun _ member => .inl member⟩

theorem putColumn_left (differ : Differ left right ps qs) (mine : left p) :
    Differ left right (putColumn p ps) qs := by
  unfold putColumn
  split
  · exact differ
  · refine ⟨fun r member => ?_, fun q member => ?_⟩
    · rcases List.mem_append.mp member with old | new
      · exact differ.onLeft r old
      · rw [List.mem_singleton.mp new]
        exact .inr (.inl mine)
    · rcases differ.onRight q member with there | theirs | ⟨r, inside, same, added⟩
      · exact .inl (List.mem_append_left _ there)
      · exact .inr (.inl theirs)
      · exact .inr (.inr ⟨r, List.mem_append_left _ inside, same, added⟩)

theorem putColumn_taken (differ : Differ left right ps qs) {taken : Projection} (inside : taken ∈ ps)
    (same : taken.binding.label = p.binding.label) (absent : ∀ q ∈ qs, q.binding.label ≠ p.binding.label) :
    Differ left right ps (qs ++ [p]) := by
  refine ⟨fun r member => ?_, fun q member => ?_⟩
  · rcases differ.onLeft r member with there | mine | ⟨q, within, equal, theirs⟩
    · exact .inl (List.mem_append_left _ there)
    · exact .inr (.inl mine)
    · exact .inr (.inr ⟨q, List.mem_append_left _ within, equal, theirs⟩)
  · rcases List.mem_append.mp member with old | new
    · exact differ.onRight q old
    · rw [List.mem_singleton.mp new]
      rcases differ.onLeft taken inside with there | mine | ⟨q, within, equal, -⟩
      · exact absurd same (absent taken there)
      · exact .inr (.inr ⟨taken, inside, same, mine⟩)
      · exact absurd (equal.trans same) (absent q within)

theorem putColumn_both (differ : Differ left right ps qs) (p : Projection) :
    Differ left right (putColumn p ps) (putColumn p qs) := by
  have absent {columns : List Projection} (free : ¬columns.any (·.binding.label == p.binding.label) = true) :
      ∀ q ∈ columns, q.binding.label ≠ p.binding.label := fun q member same =>
    free (List.any_eq_true.mpr ⟨q, member, beq_iff_eq.mpr same⟩)
  have taken {columns : List Projection} (found : columns.any (·.binding.label == p.binding.label) = true) :
      ∃ q ∈ columns, q.binding.label = p.binding.label := by
    obtain ⟨q, member, same⟩ := List.any_eq_true.mp found
    exact ⟨q, member, beq_iff_eq.mp same⟩
  unfold putColumn
  split
  next here =>
    obtain ⟨mine, inside, same⟩ := taken here
    split
    next => exact differ
    next free => exact differ.putColumn_taken inside same (absent free)
  next free =>
    split
    next there =>
      obtain ⟨theirs, inside, same⟩ := taken there
      exact (differ.symm.putColumn_taken inside same (absent free)).symm
    next =>
      refine ⟨fun r member => ?_, fun q member => ?_⟩
      · rcases List.mem_append.mp member with old | new
        · rcases differ.onLeft r old with there | mine | ⟨q, within, equal, theirs⟩
          · exact .inl (List.mem_append_left _ there)
          · exact .inr (.inl mine)
          · exact .inr (.inr ⟨q, List.mem_append_left _ within, equal, theirs⟩)
        · exact .inl (List.mem_append_right _ new)
      · rcases List.mem_append.mp member with old | new
        · rcases differ.onRight q old with there | theirs | ⟨r, within, equal, mine⟩
          · exact .inl (List.mem_append_left _ there)
          · exact .inr (.inl theirs)
          · exact .inr (.inr ⟨r, List.mem_append_left _ within, equal, mine⟩)
        · exact .inl (List.mem_append_right _ new)

end Differ

/-- A column of a table that stands in a statement with these joins. -/
def Projection.IsPlain (joins : List Join) (p : Projection) : Prop :=
  p.binding.kind = .value ∧ ∃ table name, p.expr = .columnOf table name ∧ table ∈ Join.introduced joins

/-- Statements in the making that differ by plain columns only; the second one has such columns of its own only where
all that was asked for has been left out. -/
structure Scope.Alike (emptied : Prop) (s s' : Scope) : Prop where
  base : s'.base = s.base
  left : s.IsInStep
  right : s'.IsInStep
  columns : Differ (Projection.IsPlain s.statement.joins) (fun p => emptied ∧ p.IsPlain s.statement.joins)
    s.projections s'.projections

namespace Scope

variable {emptied : Prop} {s s' : Scope} {e : Entity} {a : Attribute} {table : Nat} {path : String}
  {attributes : List Attribute}

theorem projectIdentity_eq : s.projectIdentity e table path = s.projectColumns e.storageKeys table path := by
  unfold projectIdentity Entity.storageKeys projectColumns
  cases e.version with
  | none => rw [Option.map_none, Option.toList_none, List.append_nil]
  | some version =>
      rw [Option.map_some, Option.toList_some, List.foldl_append]
      rfl

namespace Alike

theorem project (alike : Alike emptied s s') (expr : Expr) (label : String) (subject : Option Attribute)
    (kind : ColumnKind) : Alike emptied (s.project expr label subject kind) (s'.project expr label subject kind) := by
  refine ⟨by rw [project_base, project_base, alike.base], alike.left.project .., alike.right.project .., ?_⟩
  rw [project_joins, alike.left.projections_project, alike.right.projections_project]
  exact alike.columns.putColumn_both _

theorem projectColumn (alike : Alike emptied s s') (a : Attribute) (table : Nat) (path : String) :
    Alike emptied (s.projectColumn a table path) (s'.projectColumn a table path) := by
  unfold Scope.projectColumn
  cases a.column with
  | none => exact alike
  | some column => exact alike.project _ _ _ _

theorem projectColumn_left (alike : Alike emptied s s') (known : table ∈ Join.introduced s.statement.joins) :
    Alike emptied (s.projectColumn a table path) s' := by
  unfold Scope.projectColumn
  cases a.column with
  | none => exact alike
  | some column =>
      refine ⟨by rw [project_base, alike.base], alike.left.project .., alike.right, ?_⟩
      rw [project_joins, alike.left.projections_project]
      exact alike.columns.putColumn_left ⟨rfl, table, column, rfl, known⟩

theorem projectColumn_right (alike : Alike emptied s s') (known : table ∈ Join.introduced s.statement.joins)
    (all : emptied) : Alike emptied s (s'.projectColumn a table path) := by
  unfold Scope.projectColumn
  cases a.column with
  | none => exact alike
  | some column =>
      refine ⟨by rw [project_base, alike.base], alike.left, alike.right.project .., ?_⟩
      rw [alike.right.projections_project]
      exact (alike.columns.symm.putColumn_left ⟨all, rfl, table, column, rfl, known⟩).symm

theorem projectColumns (alike : Alike emptied s s') (attributes : List Attribute) (table : Nat) (path : String) :
    Alike emptied (s.projectColumns attributes table path) (s'.projectColumns attributes table path) := by
  unfold Scope.projectColumns
  induction attributes generalizing s s' with
  | nil => exact alike
  | cons a rest ih => exact ih (alike.projectColumn a table path)

theorem projectColumns_left (alike : Alike emptied s s') (known : table ∈ Join.introduced s.statement.joins) :
    Alike emptied (s.projectColumns attributes table path) s' := by
  unfold Scope.projectColumns
  induction attributes generalizing s with
  | nil => exact alike
  | cons a rest ih => exact ih (alike.projectColumn_left known) (by rw [projectColumn_joins]; exact known)

/-- Where nothing is asked for any more, all columns are fetched instead. -/
theorem projectColumns_right (alike : Alike emptied s s') (known : table ∈ Join.introduced s.statement.joins)
    (all : emptied) : Alike emptied s (s'.projectColumns attributes table path) := by
  unfold Scope.projectColumns
  induction attributes generalizing s' with
  | nil => exact alike
  | cons a rest ih => exact ih (alike.projectColumn_right known all)

theorem projectIdentity (alike : Alike emptied s s') (e : Entity) (table : Nat) (path : String) :
    Alike emptied (s.projectIdentity e table path) (s'.projectIdentity e table path) := by
  rw [projectIdentity_eq, projectIdentity_eq]
  exact alike.projectColumns _ table path

/-- A change of the statement that keeps its joins, and what is selected, is made on both sides. -/
theorem changed (alike : Alike emptied s s') (change : Statement → Statement)
    (base : ∀ s : Scope, Scope.base { s with statement := change s.statement } = change s.base)
    (inStep : ∀ s : Scope, s.IsInStep → IsInStep { s with statement := change s.statement } ∧
      projections { s with statement := change s.statement } = s.projections)
    (kept : ∀ x ∈ s.statement.joins, x ∈ (change s.statement).joins) :
    Alike emptied { s with statement := change s.statement } { s' with statement := change s'.statement } := by
  have more : Join.introduced s.statement.joins ⊆ Join.introduced (change s.statement).joins :=
    List.cons_subset_cons 0 (List.filterMap_subset _ kept)
  have plain (p : Projection) (isPlain : p.IsPlain s.statement.joins) : p.IsPlain (change s.statement).joins := by
    obtain ⟨kind, table, name, expr, known⟩ := isPlain
    exact ⟨kind, table, name, expr, more known⟩
  obtain ⟨left, leftSame⟩ := inStep s alike.left
  obtain ⟨right, rightSame⟩ := inStep s' alike.right
  refine ⟨by rw [base, base, alike.base], left, right, ?_⟩
  rw [leftSame, rightSame]
  exact alike.columns.mono plain fun p right => ⟨right.1, plain p right.2⟩

theorem addJoin (alike : Alike emptied s s') (join : Join) :
    Alike emptied { s with statement := s.statement.addJoin join }
      { s' with statement := s'.statement.addJoin join } :=
  alike.changed (·.addJoin join) (fun _ => addJoin_base join)
    (fun _ inStep => ⟨inStep.addJoin join, addJoin_projections join⟩)
    fun _ member => subset_addJoin s.statement join member

theorem filter (alike : Alike emptied s s') (predicate : Expr) :
    Alike emptied { s with statement := s.statement.filter predicate }
      { s' with statement := s'.statement.filter predicate } :=
  alike.changed (·.filter predicate) (fun _ => filter_base predicate)
    (fun _ inStep => ⟨inStep.filter predicate, rfl⟩) fun _ member => member

theorem addOrdering (alike : Alike emptied s s') (expr : Expr) (direction : Direction) :
    Alike emptied { s with statement := s.statement.addOrdering expr direction }
      { s' with statement := s'.statement.addOrdering expr direction } :=
  alike.changed (·.addOrdering expr direction) (fun _ => addOrdering_base expr direction)
    (fun _ inStep => ⟨inStep.addOrdering expr direction, rfl⟩) fun _ member => member

end Alike

end Scope

end Compile

end ViewEngine
