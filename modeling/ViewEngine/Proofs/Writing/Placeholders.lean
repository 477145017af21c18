import ViewEngine.Proofs.Writing.Alike

namespace ViewEngine

namespace Sql

def Token.placeholder? : Token → Option String
  | .parameter name => some name
  | _ => none

def placeholders (tokens : List Token) : List String :=
  tokens.filterMap Token.placeholder?

@[simp] theorem placeholders_nil : placeholders [] = [] :=
  rfl

@[simp] theorem placeholders_cons (token : Token) (rest : List Token) :
    placeholders (token :: rest) = token.placeholder?.toList ++ placeholders rest := by
  unfold placeholders
  rw [List.filterMap_cons]
  cases token.placeholder? <;> rfl

@[simp] theorem placeholders_append (before after : List Token) :
    placeholders (before ++ after) = placeholders before ++ placeholders after :=
  List.filterMap_append ..

theorem placeholders_separated (items : List (List Token)) :
    placeholders (separated items) = items.flatMap placeholders := by
  induction items with
  | nil => rfl
  | cons item rest ih =>
      cases rest with
      | nil => simp [separated]
      | cons next others => simp [separated, ih, Token.placeholder?]

namespace Expr

def placeholders (expr : Expr) : List String :=
  Sql.placeholders expr.tokens

@[simp] theorem placeholders_asConjunct (expr : Expr) : expr.asConjunct.placeholders = expr.placeholders := by
  unfold asConjunct
  split
  · cases expr <;> simp [placeholders, parenthesized, tokens, Token.placeholder?]
  · rfl

@[simp] theorem placeholders_binary (operator : Operator) (left right : Expr) :
    (Expr.binary operator left right).placeholders = left.placeholders ++ right.placeholders := by
  cases operator <;> simp [placeholders, tokens, Operator.token, Token.placeholder?]

end Expr

namespace Statement

def placeholders (s : Statement) : List String :=
  Sql.placeholders s.tokens

theorem placeholders_clause (heading : Keyword) (items : List (List Token)) :
    Sql.placeholders (clause heading items) = items.flatMap Sql.placeholders := by
  unfold clause
  split
  next none => simp [List.isEmpty_iff.mp none]
  next => simp [placeholders_separated, Token.placeholder?]

theorem placeholders_foldOnto (joined : Expr) (predicates : List Expr) :
    (Condition.foldOnto (some joined) .and (predicates.map .predicate)).toList.flatMap Expr.placeholders =
      joined.placeholders ++ predicates.flatMap Expr.placeholders := by
  induction predicates generalizing joined with
  | nil => simp [Condition.foldOnto]
  | cons first rest ih => simp [Condition.foldOnto, ih]

theorem placeholders_whereClause (predicates : List Expr) :
    Sql.placeholders (predicateClause .whereClause (Condition.fold? (predicates.map .predicate))) =
      predicates.flatMap Expr.placeholders := by
  rw [predicateClause, placeholders_clause, List.flatMap_map]
  cases predicates with
  | nil => rfl
  | cons first rest =>
      have joined := placeholders_foldOnto first.asConjunct rest
      rw [Expr.placeholders_asConjunct] at joined
      exact joined

theorem placeholders_selected (items : List SelectItem) :
    Sql.placeholders (selectedTokens items) = items.flatMap (·.expr.placeholders) := by
  have each (item : SelectItem) : Sql.placeholders (SelectItem.tokens item) = item.expr.placeholders := by
    unfold SelectItem.tokens
    cases item.label <;> simp [Expr.placeholders, Token.placeholder?]
  induction items with
  | nil => rfl
  | cons item rest ih =>
      cases rest with
      | nil => simp [selectedTokens, each, Token.placeholder?]
      | cons next others => simp [selectedTokens, each, ih, Token.placeholder?]

@[simp] theorem placeholders_table (table : TableReference) : Sql.placeholders table.tokens = [] := by
  rcases table with ⟨table, _ | number⟩ <;> rfl

@[simp] theorem placeholders_target (s : Statement) : Sql.placeholders s.targetTokens = [] := by
  unfold targetTokens
  cases s.tables.head? with
  | none => rfl
  | some table => exact placeholders_table table

@[simp] theorem placeholders_columnList (columns : List String) :
    Sql.placeholders (columnListTokens columns) = [] := by
  unfold columnListTokens
  split
  · rfl
  · simp [placeholders_separated, Token.placeholder?]

variable {s : Statement} {predicates : List Expr}

theorem placeholders_update (predicates : List Expr) (isUpdate : s.kind = .update)
    (conditions : s.conditions = predicates.map .predicate) :
    s.placeholders = s.assignments.flatMap (·.2.placeholders) ++ predicates.flatMap Expr.placeholders := by
  have assigned (assignment : String × Expr) :
      Sql.placeholders (assignmentTokens assignment) = assignment.2.placeholders := by
    simp [assignmentTokens, Expr.placeholders, Token.placeholder?]
  rw [placeholders, tokens, isUpdate]
  simp [updateTokens, predicate?, conditions, placeholders_whereClause, placeholders_separated, List.flatMap_map,
    assigned, Token.placeholder?]

theorem placeholders_delete (isDelete : s.kind = .delete) (conditions : s.conditions = predicates.map .predicate) :
    s.placeholders = predicates.flatMap Expr.placeholders := by
  rw [placeholders, tokens, isDelete]
  simp [deleteTokens, predicate?, conditions, placeholders_whereClause, Token.placeholder?]

theorem placeholders_insert (isInsert : s.kind = .insert) (values : s.source = none) :
    s.placeholders = s.insertValues.flatMap Expr.placeholders := by
  rw [placeholders, tokens, isInsert]
  dsimp only
  split
  next found => cases values.symm.trans found
  next =>
    simp [valuesTokens, placeholders_separated, List.flatMap_map, Token.placeholder?]
    rfl

theorem placeholders_copy {source : Statement} (isInsert : s.kind = .insert) (copied : s.source = some source) :
    s.placeholders = source.placeholders := by
  rw [placeholders, tokens, isInsert]
  dsimp only
  split
  next found =>
    cases copied.symm.trans found
    simp [placeholders, Token.placeholder?]
  next found => cases copied.symm.trans found

theorem placeholders_select (selected : List SelectItem) (tables : List TableReference) (predicates : List Expr) :
    ({ kind := .select, selected, tables, conditions := predicates.map .predicate } : Statement).placeholders =
      selected.flatMap (·.expr.placeholders) ++ predicates.flatMap Expr.placeholders := by
  have unnamed : tables.flatMap (fun table => Sql.placeholders table.tokens) = [] :=
    List.flatMap_eq_nil_iff.mpr fun table _ => placeholders_table table
  rw [placeholders, tokens]
  dsimp only
  simp only [selectTokens, predicate?, placeholders_append, placeholders_whereClause, placeholders_selected,
    placeholders_clause, List.flatMap_map, unnamed]
  simp [groupPredicate?, Condition.fold?, Condition.foldOnto, paginationTokens, predicateClause, clause,
    Token.placeholder?]

end Statement

end Sql

open Sql Planning BoundParameter

namespace Planning

variable {context : Context} {row : Nat} {node : String} {e : Entity} {data : Row} {columns : List Attribute}
  {keys : List (Attribute × Value)} {writes : List Write} {w first : Write}

def BindsPlaceholders (w : Write) : Prop :=
  w.parameters.map (·.name) = w.statement.placeholders

theorem pins_placeholders (attributes : List Attribute) :
    (attributes.map pin).flatMap Expr.placeholders = (attributes.map (·.columnName)).map keyName := by
  rw [List.flatMap_map, List.map_map, ← List.flatMap_pure_eq_map]
  rfl

theorem values_placeholders (attributes : List Attribute) :
    (attributes.map placeholder).flatMap Expr.placeholders = (attributes.map (·.columnName)).map valueName := by
  rw [List.flatMap_map, List.map_map, ← List.flatMap_pure_eq_map]
  rfl

theorem updateWrite_bindsPlaceholders (path : String) :
    BindsPlaceholders (updateWrite e path data columns keys) := by
  have names : (updateWrite e path data columns keys).parameters.map (·.name) =
      (columns.map (·.columnName)).map valueName ++ ((keys.map Prod.fst).map (·.columnName)).map keyName := by
    rw [← valueParameters_names columns data, ← keyParameters_names]
    exact List.map_append
  rw [BindsPlaceholders, names, updateWrite_statement,
    Statement.placeholders_update ((keys.map Prod.fst).map pin) rfl rfl, pins_placeholders,
    ← values_placeholders, List.flatMap_map, List.flatMap_map]

theorem closeWrite_bindsPlaceholders (column path : String) (now : Timestamp) :
    BindsPlaceholders (closeWrite e column path now keys) := by
  rw [BindsPlaceholders, closeWrite, closing_eq, Statement.placeholders_update _ rfl rfl, List.map_cons,
    keyParameters_names, List.flatMap_append, pins_placeholders]
  simp [closeStatement, nowPlaceholder, Expr.placeholders, Expr.tokens, Expr.isNull, Expr.unqualified,
    Expr.qualified, Token.placeholder?]
  rfl

theorem successorWrite_bindsPlaceholders (opening property path : String) (now : Timestamp) :
    BindsPlaceholders (successorWrite e opening property path row node now data columns keys) := by
  have carried : (carriedColumns e columns).flatMap (fun column => (Expr.unqualified column).placeholders) = [] :=
    List.flatMap_eq_nil_iff.mpr fun _ _ => rfl
  have written := values_placeholders columns
  rw [List.flatMap_map] at written
  rw [BindsPlaceholders, successorWrite, successorParameters_names, successor_eq,
    Statement.placeholders_copy rfl rfl, successorSource, Statement.select, Statement.addTable,
    Statement.placeholders_select, pins_placeholders, successorItems, List.flatMap_map]
  simp [List.flatMap_map, carried, written]
  rfl

theorem insertWrite_bindsPlaceholders (values : List (Attribute × Value)) :
    BindsPlaceholders (insertWrite e row values) := by
  rw [BindsPlaceholders, insertWrite, insertStatement, Statement.placeholders_insert rfl rfl, values_placeholders,
    List.map_map, List.map_map, List.map_map]
  rfl

theorem StoresNode.bindsPlaceholders (stores : StoresNode context row node e data columns keys writes)
    (member : w ∈ writes) : BindsPlaceholders w := by
  cases stores with
  | update =>
      cases List.mem_singleton.mp member
      exact updateWrite_bindsPlaceholders _
  | version =>
      rcases member with _ | ⟨_, _ | ⟨_, ⟨⟩⟩⟩
      · exact closeWrite_bindsPlaceholders ..
      · exact successorWrite_bindsPlaceholders ..

theorem Removes.bindsPlaceholders {now : Timestamp} (removes : Removes now e keys w) : BindsPlaceholders w := by
  cases removes with
  | close => exact closeWrite_bindsPlaceholders _ "" _
  | delete =>
      rw [BindsPlaceholders, pinned_eq, Statement.placeholders_delete rfl rfl, keyParameters_names,
        pins_placeholders]

theorem insertWrite_shared {other : Entity} {values others : List (Attribute × Value)} {number : Nat}
    (table : e.table = other.table) (columns : ∀ value ∈ values, value.1.column.isSome = true)
    (columnsBefore : ∀ value ∈ others, value.1.column.isSome = true)
    (same : (insertWrite e row values).batch = (insertWrite other number others).batch) :
    (insertWrite other number others).statement = (insertWrite e row values).statement := by
  have names : columnNames (values.map Prod.fst) = columnNames (others.map Prod.fst) := by
    injection same with same
    injection same
  rw [columnNames_of_columns (List.forall_mem_map.mpr columns),
    columnNames_of_columns (List.forall_mem_map.mpr columnsBefore)] at names
  have byColumn (attributes : List Attribute) : attributes.map placeholder =
      (attributes.map (·.columnName)).map fun column => .parameter (valueName column) := by
    rw [List.map_map]
    rfl
  simp only [insertWrite, insertStatement, table, names, byColumn]

end Planning

namespace View

variable {v : View} {strict : Bool} {context : Context} {w first : Write} {origin source : WriteOrigin}

theorem Plans.bindsPlaceholders (plans : v.Plans strict context w origin) : BindsPlaceholders w := by
  cases origin with
  | node row node =>
      obtain ⟨r, e, data, columns, keys, writes, -, -, -, -, -, stores, member⟩ := plans.stores
      exact stores.bindsPlaceholders member
  | added row =>
      obtain ⟨r, writes, -, -, planned, member⟩ := plans
      cases insertWrites_plans planned with
      | nothing => contradiction
      | stored =>
          cases List.mem_singleton.mp member
          exact insertWrite_bindsPlaceholders _
  | removed row =>
      obtain ⟨data, -, planned⟩ := plans
      obtain ⟨keys, -, removes⟩ := removalWrite_removes planned
      exact removes.bindsPlaceholders

/-- A statement that is shared is the one that each of its writes has itself. -/
theorem Plans.statement_shared (alike : v.compiled.RootsStoredAlike) (marks : ∀ e ∈ v.compiled.roots, e.HasMarks)
    (plans : v.Plans strict context w origin) (before : v.Plans strict context first source)
    (shares : w.Shares first) : first.statement = w.statement := by
  rcases shares with rfl | ⟨batched, same⟩
  · rfl
  rcases plans.shared alike before batched same with statement | ⟨row, number, rfl, rfl⟩
  · exact statement
  · obtain ⟨r, writes, -, -, planned, member⟩ := plans
    obtain ⟨other, writesBefore, -, -, plannedBefore, memberBefore⟩ := before
    cases insertWrites_plans planned with
    | nothing => contradiction
    | stored found =>
        cases insertWrites_plans plannedBefore with
        | nothing => contradiction
        | stored foundBefore =>
            cases List.mem_singleton.mp member
            cases List.mem_singleton.mp memberBefore
            exact insertWrite_shared (alike.rootOf _ _).table
              (storedValues_columns (marks _ (rootOf_mem _ _)) _ (insertedValues_columns found))
              (storedValues_columns (marks _ (rootOf_mem _ _)) _ (insertedValues_columns foundBefore)) same

end View

/-- What is bound for a statement is what stands in it, and is bound by a write with that very statement. -/
theorem batches_are_coherent {v : View} {settings : ViewSettings} {context : Context} {plan : WritePlan}
    (alike : v.compiled.RootsStoredAlike) (marks : ∀ e ∈ v.compiled.roots, e.HasMarks)
    (planned : (v.plan settings context).2 = .ok plan) :
    ∀ s ∈ plan.statements, ∀ parameters ∈ s.batch,
      parameters.map (·.name) = s.statement.placeholders ∧
      ∃ w origin, (v.plan settings context).1.Plans settings.strictWriteBack context w origin ∧
        w.parameters = parameters ∧ w.statement = s.statement := by
  have compiled : (v.plan settings context).1.compiled = v.compiled := by
    rw [View.plan_view]
  intro s member parameters bound
  obtain ⟨first, source, before, statement, -, shared⟩ := View.plan_stands planned member
  obtain ⟨w, origin, plans, rfl, shares⟩ := shared parameters bound
  have same := plans.statement_shared (compiled ▸ alike) (compiled ▸ marks) before shares
  rw [statement, same]
  exact ⟨plans.bindsPlaceholders, w, origin, plans, rfl, rfl⟩

namespace Stock

theorem hasMarks_of_all {v : CompiledView}
    (all : (v.roots.all fun e => e.discriminator.all (·.subject.column.isSome) &&
      e.version.all (·.opening.column.isSome)) = true) : ∀ e ∈ v.roots, e.HasMarks := by
  intro e member
  obtain ⟨discriminator, opening⟩ := Bool.and_eq_true_iff.mp (List.all_eq_true.mp all e member)
  exact ⟨(Option.all_eq_true ..).mp discriminator, (Option.all_eq_true ..).mp opening⟩

set_option maxRecDepth 100000 in
/-- What is bound for two renamed items stands in the statement that they share. -/
theorem shared_update_is_coherent : ∃ compiled plan, (outline ["Lot", "Batch"]).view? = some compiled ∧
    compiled.RootsStoredAlike ∧ (∀ e ∈ compiled.roots, e.HasMarks) ∧
    ((renamed compiled "batch").plan {} Sample.context).2 = .ok plan ∧ plan.statements.length = 1 ∧
    ∀ s ∈ plan.statements, s.batch.length = 2 ∧
      ∀ parameters ∈ s.batch, parameters.map (·.name) = s.statement.placeholders := by
  have checked : ((outline ["Lot", "Batch"]).view?.map fun compiled =>
      (compiled.roots.all fun e => storedLike e compiled.root) &&
      (compiled.roots.all fun e => e.discriminator.all (·.subject.column.isSome) &&
        e.version.all (·.opening.column.isSome)) &&
      (((renamed compiled "batch").plan {} Sample.context).2.toOption.any fun plan =>
        plan.statements.map (·.batch.length) == [2])) = some true := by
    decide +kernel
  obtain ⟨compiled, found, checked⟩ := Option.map_eq_some_iff.mp checked
  rw [Bool.and_eq_true, Bool.and_eq_true, Option.any_eq_true] at checked
  obtain ⟨⟨all, columns⟩, plan, succeeded, sizes⟩ := checked
  have planned := eq_ok_of_toOption succeeded
  rw [beq_iff_eq] at sizes
  have alike := rootsStoredAlike_of_all all
  have marks := hasMarks_of_all columns
  have coherent := batches_are_coherent (v := renamed compiled "batch") alike marks planned
  refine ⟨compiled, plan, found, alike, marks, planned, by simpa using congrArg List.length sizes,
    fun s member => ⟨List.mem_singleton.mp (sizes ▸ List.mem_map_of_mem member), fun parameters bound => ?_⟩⟩
  exact (coherent s member parameters bound).1

set_option maxRecDepth 100000 in
/-- A lot and a piece share a statement, too, in which the serial number that is bound for the piece does not
stand. -/
theorem shared_update_binds_further : ∃ compiled plan s parameters, (outline ["Lot", "Piece"]).view? = some compiled ∧
    ((renamed compiled "piece").plan {} Sample.context).2 = .ok plan ∧ s ∈ plan.statements ∧
    parameters ∈ s.batch ∧ keyName "serial" ∈ parameters.map (·.name) ∧
    keyName "serial" ∉ s.statement.placeholders := by
  have checked : ((outline ["Lot", "Piece"]).view?.map fun compiled =>
      ((renamed compiled "piece").plan {} Sample.context).2.toOption.any fun plan =>
        plan.statements.any fun s => s.batch.any fun parameters =>
          (parameters.map (·.name)).contains (keyName "serial") &&
          !(s.statement.updateTokens.filterMap Token.placeholder?).contains (keyName "serial") &&
          s.statement.kind == .update) = some true := by
    decide +kernel
  obtain ⟨compiled, found, checked⟩ := Option.map_eq_some_iff.mp checked
  simp only [Option.any_eq_true, List.any_eq_true, Bool.and_eq_true, List.contains_iff_mem, Bool.not_eq_true',
    beq_iff_eq] at checked
  obtain ⟨plan, succeeded, s, member, parameters, bound, ⟨named, absent⟩, isUpdate⟩ := checked
  refine ⟨compiled, plan, s, parameters, found, eq_ok_of_toOption succeeded, member, bound, named, ?_⟩
  rw [Statement.placeholders, Statement.tokens, isUpdate]
  exact fun stands => Bool.eq_false_iff.mp absent (List.contains_iff_mem.mpr stands)

end Stock

end ViewEngine
