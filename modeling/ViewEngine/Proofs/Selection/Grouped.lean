import ViewEngine.Proofs.Counting.Standing

/-!
What a statement selects, what is known of that, and what it groups by. Columns are offered from many places, and each
that is taken goes into all of these. Main statement: in every statement of a view they keep step.
-/

namespace ViewEngine

open Sql Compile

def Sql.Expr.isFunction : Expr → Bool
  | .function _ _ => true
  | _ => false

namespace Part

def plain (x : Part) : List SelectItem :=
  ((x.statement.selected.zip x.columns).filter fun pair => pair.2.kind != .aggregate).map (·.1)

/-- What is selected stands beside what is known of it, item by item, under labels that differ. The root's key comes
first. What is not an aggregate is grouped by, in the same order, where there is an aggregate. -/
structure IsInStep (r : Root) (x : Part) : Prop where
  labels : List.Forall₂ (fun item b => item.label = some b.label) x.statement.selected x.columns
  aggregates : List.Forall₂ (fun item b => b.kind = .aggregate ↔ item.expr.isFunction = true)
    x.statement.selected x.columns
  distinct : (x.columns.map (·.label)).Nodup
  key : ∃ items others, x.statement.selected = ⟨r.key, some r.keyAlias⟩ :: items ∧
    x.columns = ⟨r.keyAlias, none, .rootKey⟩ :: others ∧ ∀ b ∈ others, b.kind ≠ .rootKey
  grouping : x.statement.grouping = if x.columns.any (·.kind == .aggregate) then x.plain.map (·.expr) else []

/-- A statement keeps step where it looks for the elements of root rows by their keys. -/
theorem IsInStep.forKeys {r : Root} {s : SubSelect} (inStep : s.part.IsInStep r) (keys : List Value) :
    IsInStep r ⟨s.path, s.forKeys keys, s.columns⟩ :=
  ⟨inStep.labels, inStep.aggregates, inStep.distinct, inStep.key, inStep.grouping⟩

end Part

namespace Compile

inductive Projection.IsOffered : Projection → Prop
  | column (table : Nat) (name : String) {b : ColumnBinding} (value : b.kind = .value) :
      IsOffered ⟨.columnOf table name, b⟩
  | aggregate (name : String) (arguments : List Expr) {b : ColumnBinding} (counts : b.kind = .aggregate) :
      IsOffered ⟨.function name arguments, b⟩

variable {setting : Setting} {registry : Registry} {plan after : JoinPlan} {r : Root} {p : Projection}
  {c : DeferredCollection} {deferred further : List DeferredCollection} {s : SubSelect} {next following : Nat}

namespace Projection.IsOffered

theorem kind_ne (offered : p.IsOffered) : p.binding.kind ≠ .rootKey := by
  cases offered with
  | column _ _ value => simp [value]
  | aggregate _ _ counts => simp [counts]

theorem isFunction_iff (offered : p.IsOffered) : p.binding.kind = .aggregate ↔ p.expr.isFunction = true := by
  cases offered with
  | column _ _ value => simp [value, Expr.columnOf, Expr.isFunction]
  | aggregate _ _ counts => simp [counts, Expr.isFunction]

theorem of_columns {attributes : List Attribute} {table : Nat} {path : String}
    (member : p ∈ attributes.filterMap (·.columnAt? table path)) : p.IsOffered := by
  obtain ⟨name, b, rfl, value⟩ := columnsAt_form member
  exact .column table name value

theorem of_nodes {nodes : List FilterNode} {entities : List Entity} {table : Nat} {above : String}
    (member : p ∈ offeredOfAll registry plan entities table above nodes) : p.IsOffered := by
  obtain ⟨x, -, offers⟩ := offers_of_offeredOfAll nodes member
  cases offers with
  | count => exact .aggregate _ _ rfl
  | here column value => exact .column _ column value
  | joined column value => exact .column _ column value

theorem of_tree {t : FilterTree} (member : p ∈ t.columns registry plan) : p.IsOffered := by
  simp only [FilterTree.columns, List.mem_append] at member
  rcases member with ((scalar | asked) | key) | discriminator
  · split at scalar
    · exact of_columns scalar
    · contradiction
  · exact of_nodes asked
  · exact of_columns key
  · obtain ⟨d, -, column⟩ := Option.bind_eq_some_iff.mp (Option.mem_toList.mp discriminator)
    obtain ⟨name, b, rfl, value⟩ := columnAt_form column
    exact .column 0 name value

theorem of_collection {c : Collected} (member : p ∈ c.columns registry plan) : p.IsOffered := by
  unfold Collected.columns at member
  split at member
  · simp only [List.mem_append] at member
    rcases member with (inside | key) | side
    · rcases offeredOrAll_cases inside with scalar | asked
      · exact of_columns scalar
      · exact of_nodes asked
    · exact of_columns key
    · exact of_columns side
  · contradiction

end Projection.IsOffered

theorem isFunction_rootKey (e : Entity) (delimiter : String) : (e.rootKey delimiter).isFunction = false := by
  have folded (columns : List String) (first : Expr) (plain : first.isFunction = false) :
      (columns.foldl (fun joined column =>
        (joined.concatenated (.string delimiter)).concatenated (.castText (.columnOf 0 column))) first).isFunction =
          false := by
    induction columns generalizing first with
    | nil => exact plain
    | cons column rest ih => exact ih _ rfl
  unfold Entity.rootKey
  split
  · rfl
  · unfold Entity.joinedKeys
    split
    · rfl
    · exact folded _ _ rfl

section Scope

variable {scope : Scope} {offered : List Projection} {path : String} {statement : Statement}

theorem nodup_putColumns_key (r : Root) (offered : List Projection) :
    ((putColumns offered [r.keyColumn]).map (·.binding.label)).Nodup := by
  apply nodup_putColumns
  exact List.nodup_singleton _

theorem exists_putColumns_key (r : Root) (offered : List Projection) :
    ∃ others, putColumns offered [r.keyColumn] = r.keyColumn :: others ∧ ∀ p ∈ others, p ∈ offered := by
  obtain ⟨others, columns⟩ : [r.keyColumn] <+: putColumns offered [r.keyColumn] := putColumns_grow offered _
  have distinct := nodup_putColumns_key r offered
  rw [← columns] at distinct
  have apart := (List.nodup_cons.mp distinct).1
  refine ⟨others, columns.symm, fun p member => ?_⟩
  have inside : p ∈ putColumns offered [r.keyColumn] := columns ▸ List.mem_append_right _ member
  refine (mem_putColumns inside).resolve_left fun isKey => apart ?_
  rw [← List.mem_singleton.mp isKey]
  exact List.mem_map_of_mem member

theorem plain_of_scope (inStep : scope.IsInStep) (selected : statement.selected = scope.finish.selected) :
    (Part.plain ⟨path, statement, scope.columns⟩).map (·.expr) =
      (scope.projections.filter (·.binding.kind != .aggregate)).map (·.expr) := by
  rw [Part.plain, selected, inStep.finish_selected, inStep.columns, List.zip_map', List.filter_map, List.map_map,
    List.map_map]
  rfl

theorem isInStep_of_scope (inStep : scope.IsInStep) (plainKey : r.key.isFunction = false)
    (each : ∀ p ∈ offered, p.IsOffered) (columns : scope.projections = putColumns offered [r.keyColumn])
    (selected : statement.selected = scope.finish.selected) (grouping : statement.grouping = scope.finish.grouping) :
    Part.IsInStep r ⟨path, statement, scope.columns⟩ := by
  obtain ⟨others, keyed, areOffered⟩ := exists_putColumns_key r offered
  have projections : scope.projections = r.keyColumn :: others := columns.trans keyed
  have bindings := inStep.columns
  have items : statement.selected = scope.projections.map (·.item) := selected.trans inStep.finish_selected
  constructor
  case labels => simp [items, bindings, Projection.item]
  case aggregates =>
    simp only [items, bindings, List.forall₂_map_left_iff, List.forall₂_map_right_iff, List.forall₂_same]
    rw [projections]
    refine List.forall_mem_cons.mpr ⟨?_, fun p member => (each p (areOffered p member)).isFunction_iff⟩
    simp [Root.keyColumn, Projection.item, plainKey]
  case distinct =>
    rw [bindings, List.map_map, columns]
    exact nodup_putColumns_key r offered
  case key =>
    refine ⟨others.map (·.item), others.map (·.binding), ?_, ?_, ?_⟩
    · rw [items, projections]
      rfl
    · rw [bindings, projections]
      rfl
    · exact List.forall_mem_map.mpr fun p member => (each p (areOffered p member)).kind_ne
  case grouping =>
    rw [plain_of_scope inStep selected, bindings, List.any_map]
    exact grouping.trans inStep.finish_grouping

end Scope

theorem subSelect_isInStep (plainKey : r.key.isFunction = false)
    (made : subSelect setting r c plan next deferred = .ok (s, after, following, further)) : s.part.IsInStep r := by
  obtain ⟨-, -, ⟨scope, finished, columns, inStep, projections⟩, -, -⟩ :=
    subSelect_fills made (List.prefix_refl after.entries)
  rw [SubSelect.part, columns]
  refine isInStep_of_scope inStep plainKey ?_ projections (finished ▸ rfl) (finished ▸ rfl)
  refine List.forall_mem_append.mpr ⟨fun p around => ?_, fun p => .of_collection⟩
  obtain ⟨outer, -, key⟩ := List.mem_flatMap.mp around
  exact .of_columns key

theorem forall_of_subSelects {holds : SubSelect → Prop} {collections : List DeferredCollection} {found : List SubSelect}
    (each : ∀ c plan next deferred s after following further,
      subSelect setting r c plan next deferred = .ok (s, after, following, further) → holds s)
    (made : subSelects setting r collections plan next deferred = .ok (found, after, following, further)) :
    ∀ s ∈ found, holds s := by
  induction collections generalizing plan next deferred found with
  | nil =>
      cases made
      exact List.forall_mem_nil _
  | cons c rest ih =>
      obtain ⟨⟨first, middle, number, between⟩, firstMade, made⟩ := bind_eq_ok.mp made
      obtain ⟨⟨later, last, final, remaining⟩, laterMade, made⟩ := bind_eq_ok.mp made
      cases made
      exact List.forall_mem_cons.mpr ⟨each _ _ _ _ _ _ _ _ firstMade, ih laterMade⟩

theorem forall_of_rounds {holds : SubSelect → Prop} {levels : Nat} {found : List SubSelect}
    (each : ∀ c plan next deferred s after following further,
      subSelect setting r c plan next deferred = .ok (s, after, following, further) → holds s)
    (made : rounds setting r levels deferred plan next = .ok (found, after)) : ∀ s ∈ found, holds s := by
  induction levels generalizing plan next deferred found with
  | zero =>
      cases made
      exact List.forall_mem_nil _
  | succ levels ih =>
      unfold rounds at made
      split at made
      · cases made
        exact List.forall_mem_nil _
      · obtain ⟨⟨first, middle, number, between⟩, firstMade, made⟩ := bind_eq_ok.mp made
        obtain ⟨⟨later, last⟩, laterMade, made⟩ := bind_eq_ok.mp made
        cases made
        exact List.forall_mem_append.mpr ⟨forall_of_subSelects each firstMade, ih laterMade⟩

end Compile

/-- In every statement of a view, what is selected, what is known of it and what is grouped by keep step. -/
theorem select_lists_keep_step {registry : Registry} {settings : ViewSettings} {dialect : Dialect}
    {pointInTime : Option Timestamp} {page : Page} {t : FilterTree} {v : CompiledView}
    (compiled : compile registry settings dialect pointInTime page t = .ok v) :
    (∀ x ∈ v.parts, x.IsInStep (.ofTree settings t)) ∧
      ∀ s ∈ v.subSelects, ∀ keys, Part.IsInStep (.ofTree settings t) ⟨s.path, s.forKeys keys, s.columns⟩ := by
  obtain ⟨last, made, compiled⟩ := bind_eq_ok.mp compiled
  obtain ⟨⟨found, plan⟩, collections, compiled⟩ := bind_eq_ok.mp compiled
  cases compiled
  have plainKey : (Root.ofTree settings t).key.isFunction = false := isFunction_rootKey ..
  have each := forall_of_rounds (fun _ _ _ _ _ _ _ _ made => subSelect_isInStep plainKey made) collections
  obtain ⟨columns, -⟩ := primary_selects (r := Root.ofTree settings t) rfl made (List.prefix_refl last.plan.entries)
  refine ⟨List.forall_mem_cons.mpr ⟨?_, List.forall_mem_map.mpr each⟩, fun s member => (each s member).forKeys⟩
  exact isInStep_of_scope (primary_isInStep made) plainKey (fun p => .of_tree) columns rfl rfl

namespace Outline

/-- Orders with the number of their lines, and lines with the number of their parts. -/
def counted : Outline where
  definitions := [
    entity "Order" "orders" [column "id" "id" .bigInt true,
      association "lines" "Line" "line" "id" "order_id" true],
    entity "Line" "line" [column "id" "id" .bigInt true, column "order" "order_id" .bigInt false,
      association "parts" "Part" "part" "id" "line_id" true],
    entity "Part" "part" [column "id" "id" .bigInt true, column "line" "line_id" .bigInt false]]
  roots := ["Order"]
  chains := [counts "Order" ["lines"], counts "Order" ["lines", "parts"]]

set_option maxRecDepth 100000 in
/-- Both statements of the view of orders count, and are grouped by all that they select beside. -/
theorem counted_keeps_step : ∃ registry t v, counted.compiled? = some (registry, t, v) ∧
    compile registry {} .sqlite none {} t = .ok v ∧
    v.parts.map (fun x => x.columns.map (·.label)) =
      [["rootKey", "lines", "id"], ["rootKey", "lines.parts", "lines.id", "lines.order"]] ∧
    v.parts.map (fun x => x.statement.grouping.map (·.tables)) = [[[0], [0]], [[0], [1], [1]]] ∧
    (∀ x ∈ v.parts, x.IsInStep (.ofTree {} t)) ∧
    ∀ s ∈ v.subSelects, ∀ keys, Part.IsInStep (.ofTree {} t) ⟨s.path, s.forKeys keys, s.columns⟩ := by
  have checked : (counted.compiled?.map fun found =>
      found.2.2.parts.map (fun x => x.columns.map (·.label)) ==
        [["rootKey", "lines", "id"], ["rootKey", "lines.parts", "lines.id", "lines.order"]] &&
      found.2.2.parts.map (fun x => x.statement.grouping.map (·.tables)) ==
        [[[0], [0]], [[0], [1], [1]]]) = some true := by
    decide +kernel
  obtain ⟨⟨registry, t, v⟩, found, checked⟩ := Option.map_eq_some_iff.mp checked
  simp only [Bool.and_eq_true, beq_iff_eq] at checked
  obtain ⟨labels, grouping⟩ := checked
  obtain ⟨-, -, compiled⟩ := compiled_eq found
  obtain ⟨parts, searched⟩ := select_lists_keep_step compiled
  exact ⟨registry, t, v, found, compiled, labels, grouping, parts, searched⟩

end Outline

end ViewEngine
