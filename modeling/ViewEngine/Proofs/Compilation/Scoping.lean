import ViewEngine.Proofs.Compilation.Statements
import ViewEngine.Proofs.Compilation.Tables
import ViewEngine.Proofs.Outline

/-!
Every statement of a view is well scoped. Each visit keeps it so: a join is added once, next to the table
that it starts from, and whatever is tested, selected or sorted by is a column of a table that stands in
the statement.
-/

namespace ViewEngine

open Sql Compile JoinPlan

section Comparable

variable {left right e : Expr} {table : Nat}

/-- An expression in which no number is unequal to itself. -/
def Sql.Expr.IsComparable (e : Expr) : Prop :=
  e.equal e = true

theorem Sql.Expr.isComparable_columnOf (name : String) : (columnOf table name).IsComparable := by
  simp [IsComparable, columnOf, equal]

theorem Sql.Expr.IsComparable.binary (leftComparable : left.IsComparable) (rightComparable : right.IsComparable)
    (operator : Operator) : (Expr.binary operator left right).IsComparable := by
  unfold IsComparable at *
  simp only [equal, beq_self_eq_true, leftComparable, rightComparable, Bool.and_self]

theorem Sql.Expr.IsComparable.isNull (comparable : e.IsComparable) : e.isNull.IsComparable := by
  unfold IsComparable at *
  simp only [Expr.isNull, equal, comparable, beq_self_eq_true, Bool.and_self]

theorem Sql.Expr.IsComparable.parenthesized (comparable : e.IsComparable) : e.parenthesized.IsComparable := by
  unfold IsComparable at *
  cases e <;> simpa only [Expr.parenthesized, equal] using comparable

theorem Sql.Expr.IsComparable.asConjunct (comparable : e.IsComparable) : e.asConjunct.IsComparable := by
  unfold Expr.asConjunct
  split
  · exact comparable.parenthesized
  · exact comparable

theorem Sql.Expr.IsComparable.conjoined (leftComparable : left.IsComparable) (rightComparable : right.IsComparable) :
    (left.conjoined right).IsComparable :=
  leftComparable.asConjunct.binary rightComparable.asConjunct .and

theorem Sql.Expr.isComparable_conjunction? {predicates : List Expr} (each : ∀ p ∈ predicates, p.IsComparable)
    (found : conjunction? predicates = some e) : e.IsComparable := by
  have folded (rest : List Expr) (all : ∀ p ∈ rest, p.IsComparable) (first : Expr)
      (comparable : first.IsComparable) : (rest.foldl Expr.conjoined first).IsComparable := by
    induction rest generalizing first with
    | nil => exact comparable
    | cons p rest ih =>
        exact ih (fun q later => all q (List.mem_cons_of_mem _ later)) _
          (comparable.conjoined (all p (List.mem_cons_self ..)))
  cases predicates with
  | nil => contradiction
  | cons first rest =>
      cases found
      exact folded rest (fun p later => each p (List.mem_cons_of_mem _ later)) first
        (each first (List.mem_cons_self ..))

theorem Double.equal_self {x : Double} (number : x ≠ .notANumber) : x.equal x = true := by
  cases x with
  | notANumber => contradiction
  | infinite negative => simp [equal]
  | finite negative significand exponent normal => simp [equal]

theorem Value.isComparable_literal {value : Value} (number : value ≠ .float .notANumber) :
    (Expr.literal value.literal).IsComparable := by
  cases value with
  | float x =>
      have isNumber : x ≠ .notANumber := fun same => number (same ▸ rfl)
      exact Double.equal_self isNumber
  | _ => simp [Expr.IsComparable, Value.literal, Expr.equal, Literal.equal]

theorem ColumnType.coerce_timestamp_ne (type : ColumnType) (time : Timestamp) (x : Double) :
    type.coerce (.timestamp time) ≠ .float x := by
  cases type <;> simp [coerce, toBoolean, toIntegral, toFractional, toTextual, toTemporal]

/-- No rows are told apart by what is no number. -/
def Compile.Setting.IsComparable (setting : Setting) : Prop :=
  ∀ e ∈ setting.registry.all, ∀ d, e.discriminator = some d →
    d.subject.columnType.coerce d.value ≠ .float .notANumber

theorem Entity.isComparable_versionConstraint? {e : Entity} {pointInTime : Option Timestamp} {expr : Expr}
    (found : e.versionConstraint? pointInTime table = some expr) : expr.IsComparable := by
  have literal (type : ColumnType) (time : Timestamp) : (type.literal (.timestamp time)).IsComparable :=
    Value.isComparable_literal (ColumnType.coerce_timestamp_ne type time _)
  have column (name : String) : (Expr.columnOf table name).IsComparable := Expr.isComparable_columnOf name
  unfold Entity.versionConstraint? at found
  split at found
  · contradiction
  · dsimp only at found
    split at found
    · split at found
      · cases found
        exact (column _).isNull
      · cases found
        exact ((column _).binary (literal _ _) .atMost).conjoined
          (((column _).binary (literal _ _) .greater).binary (column _).isNull .or)
    · contradiction

theorem JoinEntry.IsBuilt.isComparable {setting : Setting} {j : JoinEntry} (built : j.IsBuilt setting)
    (comparable : setting.IsComparable) : j.join.equal j.join = true := by
  have condition : (joinCondition setting j.subject j.entity j.source j.table).IsComparable := by
    unfold joinCondition
    dsimp only
    cases found : Expr.conjunction? _ with
    | none => rfl
    | some expr =>
        refine Expr.isComparable_conjunction? (fun p among => ?_) found
        rcases List.mem_append.mp among with mapped | constraint
        · obtain ⟨pair, -, rfl⟩ := List.mem_map.mp mapped
          exact (Expr.isComparable_columnOf _).binary (Expr.isComparable_columnOf _) .equal
        · rcases List.mem_append.mp constraint with version | discriminator
          · exact Entity.isComparable_versionConstraint? (Option.mem_toList.mp version)
          · have isConstraint := Option.mem_toList.mp discriminator
            unfold Entity.discriminatorConstraint? at isConstraint
            split at isConstraint
            · contradiction
            next d declared =>
              obtain ⟨name, -, rfl⟩ := Option.map_eq_some_iff.mp isConstraint
              have known := Registry.IsRegistered.mem_of_targetOf built.found
              exact (Expr.isComparable_columnOf name).binary
                (Value.isComparable_literal (comparable _ known d declared)) .equal
  rw [Join.equal, built.join, beq_self_eq_true, beq_self_eq_true]
  exact condition

end Comparable

namespace Compile

variable {setting : Setting} {roots : List Entity} {asked : FilterItem → Prop} {r : Root}

def Scope.mentioned (s : Scope) : List Nat :=
  s.statement.mentioned ++ s.plain.flatMap (·.tables)

structure Scope.IsScoped (s : Scope) : Prop where
  start : s.statement.tables.map (·.number) = [some 0]
  joins : Join.AreOrdered s.statement.joins
  mentioned : ∀ n ∈ s.mentioned, n ∈ Join.introduced s.statement.joins

section Steps

variable {s : Scope} {expr : Expr} {label path above : String} {subject : Option Attribute} {kind : ColumnKind}
  {a : Attribute} {table n : Nat} {item : FilterItem} {state after : State} {way : List JoinEntry}
  {es : List Entity} {plan : JoinPlan} {j : JoinEntry}

theorem introduced_subset {joins further : List Join} (subset : joins ⊆ further) :
    Join.introduced joins ⊆ Join.introduced further :=
  List.cons_subset_cons 0 (List.filterMap_subset _ subset)

theorem mentioned_project (member : n ∈ (s.project expr label subject kind).mentioned) :
    n ∈ s.mentioned ∨ n ∈ expr.tables := by
  unfold Scope.project at member
  split at member
  · exact .inl member
  · simp only [Scope.mentioned, Statement.mentioned, Statement.addColumn, List.flatMap_append, List.flatMap_singleton,
      List.mem_append] at member ⊢
    split at member
    · tauto
    · simp only [List.flatMap_append, List.flatMap_singleton, List.mem_append] at member
      tauto

theorem Scope.IsScoped.project (isScoped : s.IsScoped)
    (known : ∀ n ∈ expr.tables, n ∈ Join.introduced s.statement.joins) :
    (s.project expr label subject kind).IsScoped := by
  refine ⟨?_, ?_, fun n member => ?_⟩
  · exact (congrArg (·.tables.map (·.number)) Scope.project_base).trans isScoped.start
  · rw [Scope.project_joins]
    exact isScoped.joins
  · rw [Scope.project_joins]
    exact (mentioned_project member).elim (isScoped.mentioned n) (known n)

theorem Scope.IsScoped.projectColumn (isScoped : s.IsScoped) (known : table ∈ Join.introduced s.statement.joins) :
    (s.projectColumn a table path).IsScoped := by
  unfold Scope.projectColumn
  split
  · refine isScoped.project fun n member => ?_
    rw [Expr.tables_columnOf, List.mem_singleton] at member
    exact member ▸ known
  · exact isScoped

theorem Scope.IsScoped.filter (isScoped : s.IsScoped) {predicate : Expr}
    (known : ∀ n ∈ predicate.tables, n ∈ Join.introduced s.statement.joins) :
    Scope.IsScoped { s with statement := s.statement.filter predicate } := by
  refine ⟨isScoped.start, isScoped.joins, fun n member => ?_⟩
  simp only [Scope.mentioned, Statement.mentioned, Statement.filter, Statement.addCondition, List.flatMap_append,
    List.flatMap_singleton, List.mem_append, Condition.tables] at member
  have old : n ∈ s.mentioned ∨ n ∈ predicate.tables := by
    simp only [Scope.mentioned, Statement.mentioned, List.mem_append]
    tauto
  exact old.elim (isScoped.mentioned n) (known n)

theorem Scope.IsScoped.addOrdering (isScoped : s.IsScoped) {direction : Direction}
    (known : ∀ n ∈ expr.tables, n ∈ Join.introduced s.statement.joins) :
    Scope.IsScoped { s with statement := s.statement.addOrdering expr direction } := by
  refine ⟨isScoped.start, isScoped.joins, fun n member => ?_⟩
  simp only [Scope.mentioned, Statement.mentioned, Statement.addOrdering, List.flatMap_append,
    List.flatMap_singleton, List.mem_append] at member
  have old : n ∈ s.mentioned ∨ n ∈ expr.tables := by
    simp only [Scope.mentioned, Statement.mentioned, List.mem_append]
    tauto
  exact old.elim (isScoped.mentioned n) (known n)

theorem walkColumn_scoped (isScoped : state.scope.IsScoped)
    (known : table ∈ Join.introduced state.scope.statement.joins) :
    (walkColumn item a table path state).scope.IsScoped := by
  unfold walkColumn
  split
  · exact isScoped
  next column found =>
    have isKnown (n : Nat) (member : n ∈ (Expr.columnOf table column).tables) :
        n ∈ Join.introduced state.scope.statement.joins := by
      rw [Expr.tables_columnOf, List.mem_singleton] at member
      exact member ▸ known
    have selected (tested : Statement) (testedScoped : Scope.IsScoped { state.scope with statement := tested })
        (joins : tested.joins = state.scope.statement.joins) :
        Scope.IsScoped (Scope.project { state.scope with statement := tested } (.columnOf table column)
          (item.outputName.getD path) (some a) .value) :=
      testedScoped.project (joins ▸ isKnown)
    have ordered (s : Scope) (known : Join.introduced s.statement.joins = Join.introduced state.scope.statement.joins)
        (selected : s.IsScoped) (direction : Direction) :
        Scope.IsScoped { s with statement := s.statement.addOrdering (.columnOf table column) direction } :=
      selected.addOrdering (known ▸ isKnown)
    dsimp only [State.mapScope]
    cases item.predicate with
    | none =>
        cases item.sortAscending with
        | none => exact selected _ isScoped rfl
        | some ascending => exact ordered _ (by rw [Scope.project_joins]) (selected _ isScoped rfl) _
    | some p =>
        have tested : Scope.IsScoped { state.scope with
            statement := state.scope.statement.filter (p.expr a.columnType (.columnOf table column)) } :=
          isScoped.filter fun n member => isKnown n (Predicate.tables_expr member)
        cases item.sortAscending with
        | none => exact selected _ tested rfl
        | some ascending => exact ordered _ (by rw [Scope.project_joins]; rfl) (selected _ tested rfl) _

theorem Stands.introduced (built : state.IsBuilt setting roots asked)
    (stands : Stands roots state way es table path) : table ∈ Join.introduced state.scope.statement.joins := by
  rcases stands.leads.last with ⟨rfl, -⟩ | ⟨k, inside, rfl, -⟩
  · exact List.mem_cons_self ..
  · refine Join.mem_introduced (stands.joined k inside) ?_
    rw [(built.plan.entries k (stands.leads.members k inside)).join]

theorem addJoin_ordered (comparable : setting.IsComparable) (built : plan.IsBuilt setting roots) {s : Statement}
    (joins : ∀ x ∈ s.joins, ∃ j ∈ plan.entries, j.join = x) (member : j ∈ plan.entries)
    (source : j.source ∈ Join.introduced s.joins) (ordered : Join.AreOrdered s.joins) :
    Join.AreOrdered (s.addJoin j.join).joins := by
  have form := (built.entries j member).join
  unfold Statement.addJoin
  split
  · exact ordered
  next absent =>
    have numbered : j.join.table.number = some j.table := by rw [form]
    refine ordered.append numbered (fun there => ?_) fun n mentioned => ?_
    · rcases List.mem_cons.mp there with zero | introduced
      · exact built.table_ne_zero member zero
      · obtain ⟨x, inside, number⟩ := List.mem_filterMap.mp introduced
        obtain ⟨k, other, rfl⟩ := joins x inside
        rw [(built.entries k other).join, Option.some.injEq] at number
        rw [built.eq_of_table other member number] at inside
        exact absent (List.any_eq_true.mpr ⟨j.join, inside, (built.entries j member).isComparable comparable⟩)
    · rw [form] at mentioned
      exact (tables_joinCondition mentioned).elim (fun same => .inr (same ▸ source)) .inl

theorem Visit.scoped (addressable : setting.IsAddressable roots) (comparable : setting.IsComparable)
    (built : state.IsBuilt setting roots asked) (visit : Visit setting roots asked state after)
    (isScoped : state.scope.IsScoped) : after.scope.IsScoped := by
  cases visit with
  | join stands declared found joins =>
      obtain ⟨j, plan, number, rfl, -, planBuilt, -, grown, entry⟩ :=
        join_eq addressable built.plan built.next stands.leads declared found joins
      have planned : ∀ x ∈ state.scope.statement.joins, ∃ k ∈ plan.entries, k.join = x := fun x member =>
        (built.joins x member).imp fun k found => ⟨grown.subset found.1, found.2⟩
      have source : j.source ∈ Join.introduced state.scope.statement.joins := by
        rw [entry.source]
        exact stands.introduced built
      refine ⟨?_, addJoin_ordered comparable planBuilt planned entry.member source isScoped.joins, fun n member => ?_⟩
      · have tables : (state.scope.statement.addJoin j.join).tables = state.scope.statement.tables := by
          unfold Statement.addJoin
          split <;> rfl
        exact (congrArg _ tables).trans isScoped.start
      · have same : (state.addJoin j.join).scope.mentioned = state.scope.mentioned := by
          unfold State.addJoin Scope.mentioned Statement.mentioned Statement.addJoin
          dsimp only
          split <;> rfl
        exact introduced_subset (subset_addJoin _ _) (isScoped.mentioned n (same ▸ member))
  | column stands member offers => exact isScoped.projectColumn (stands.introduced built)
  | item stands => exact walkColumn_scoped isScoped (stands.introduced built)
  | aggregate stands label =>
      refine isScoped.project fun n member => ?_
      simp only [Expr.tables, Expr.tablesOfEach, List.append_nil, List.mem_singleton] at member
      exact member ▸ stands.introduced built
  | defer => exact isScoped
  | enter => exact ⟨isScoped.start, isScoped.joins, isScoped.mentioned⟩

theorem visits_scoped (addressable : setting.IsAddressable roots) (comparable : setting.IsComparable)
    (built : state.IsBuilt setting roots asked)
    (visits : Relation.ReflTransGen (Visit setting roots asked) state after) (isScoped : state.scope.IsScoped) :
    after.scope.IsScoped := by
  induction visits with
  | refl => exact isScoped
  | tail before visit ih =>
      exact visit.scoped addressable comparable (visits_built_grown addressable built before).1 ih

end Steps

section Statements

variable {plan whole : JoinPlan} {s : Statement} {way : List JoinEntry} {es : List Entity} {table n : Nat}
  {path : String} {x : Join} {state : State} {columns : List ColumnBinding}

theorem foldl_addJoin_ordered (comparable : setting.IsComparable) (built : plan.IsBuilt setting roots)
    (leads : plan.Leads roots way es table path) (none : s.joins = []) :
    Join.AreOrdered ((way.map (·.join)).foldl Statement.addJoin s).joins := by
  have planned {entries : List JoinEntry} (members : ∀ j ∈ entries, j ∈ plan.entries) (x : Join)
      (inside : x ∈ ((entries.map (·.join)).foldl Statement.addJoin s).joins) : ∃ j ∈ plan.entries, j.join = x := by
    rcases mem_foldl_addJoin inside with old | joined
    · rw [none] at old
      contradiction
    · obtain ⟨j, among, rfl⟩ := List.mem_map.mp joined
      exact ⟨j, members j among, rfl⟩
  induction leads with
  | root =>
      rw [List.map_nil, List.foldl_nil, none]
      exact Join.areOrdered_nil
  | @join way es table path j leads member source _ _ ih =>
      rw [List.map_append, List.foldl_append]
      refine addJoin_ordered comparable built (planned leads.members) member ?_ ih
      rcases leads.last with ⟨rfl, -⟩ | ⟨k, inside, rfl, -⟩
      · rw [source]
        exact List.mem_cons_self ..
      · rw [source]
        refine Join.mem_introduced (mem_foldl_addJoin_self built leads.members (fun x old => ?_) k inside) ?_
        · rw [none] at old
          contradiction
        · rw [(built.entries k (leads.members k inside)).join]

theorem foldl_addJoin_eq (joins : List Join) (s : Statement) :
    ∃ more, joins.foldl Statement.addJoin s = { s with joins := s.joins ++ more } := by
  induction joins generalizing s with
  | nil =>
      refine ⟨[], ?_⟩
      cases s
      simp only [List.foldl_nil, List.append_nil]
  | cons join rest ih =>
      obtain ⟨more, further⟩ := ih (s.addJoin join)
      rw [List.foldl_cons, further, Statement.addJoin]
      split
      · exact ⟨more, rfl⟩
      · exact ⟨join :: more, by simp only [List.append_assoc, List.singleton_append]⟩

theorem start_isScoped (key : ∀ n ∈ r.key.tables, n = 0) (enclosing : List JoinedCollection) :
    (r.start enclosing).IsScoped := by
  refine Scope.IsScoped.project ⟨rfl, Join.areOrdered_nil, fun n none => ?_⟩ fun n member => ?_
  · simp [Scope.mentioned, Statement.mentioned, Statement.addTable, Statement.select] at none
  · rw [key n member]
    exact List.mem_cons_self ..

theorem Begins.isScoped (comparable : setting.IsComparable) (key : ∀ n ∈ r.key.tables, n = 0)
    (begins : Begins setting roots asked r state) : state.scope.IsScoped := by
  cases begins with
  | primary => exact start_isScoped key []
  | @collection c plan next deferred built follows isDeferred others =>
      obtain ⟨way, es, above, leads, -⟩ := isDeferred.reached
      have start := start_isScoped key c.enclosing
      have ordered : Join.AreOrdered (r.chained c plan).statement.joins := by
        dsimp only [Root.chained]
        rw [chainTo_eq built leads]
        refine foldl_addJoin_ordered comparable built leads ?_
        rw [Root.start, Scope.project_joins]
        rfl
      obtain ⟨more, form⟩ := foldl_addJoin_eq (plan.chainTo c.sourceTable) (r.start c.enclosing).statement
      refine ⟨?_, ordered, fun n member => ?_⟩
      · dsimp only [Root.chained]
        rw [form]
        exact start.start
      · have before : n ∈ (r.start c.enclosing).mentioned := by
          simp only [Scope.mentioned, Statement.mentioned, Root.chained, form] at member ⊢
          exact member
        exact introduced_subset (subset_foldl_addJoin _ _) (start.mentioned n before)

theorem finish_isScoped {scope : Scope} (isScoped : scope.IsScoped) {after : Statement}
    (restricted : scope.statement.RestrictedTo after) :
    (Scope.finish { scope with statement := after }).IsScoped := by
  obtain ⟨further, rfl, zero⟩ := restricted
  rw [Scope.finish_eq]
  refine ⟨isScoped.start, isScoped.joins, fun n member => ?_⟩
  have plain : ∀ e ∈ (if scope.isAggregated then scope.plain else []), e ∈ scope.plain := by
    split <;> simp
  have old : n ∈ scope.mentioned ∨ n = 0 := by
    simp only [Statement.mentioned, Scope.mentioned, List.mem_append, List.mem_flatMap] at member ⊢
    rcases member with ((selects | ⟨c, old | new, mentions⟩) | ⟨e, before | grouped, mentions⟩) | sorted
    · exact .inl (.inl (.inl (.inl (.inl selects))))
    · exact .inl (.inl (.inl (.inl (.inr ⟨c, old, mentions⟩))))
    · exact .inr (zero c new n mentions)
    · exact .inl (.inl (.inl (.inr ⟨e, before, mentions⟩)))
    · exact .inl (.inr ⟨e, plain e grouped, mentions⟩)
    · exact .inl (.inl (.inr sorted))
  rcases old with mentioned | rfl
  · exact isScoped.mentioned n mentioned
  · exact List.mem_cons_self ..

theorem IsMade.isScoped (addressable : setting.IsAddressable roots) (comparable : setting.IsComparable)
    (key : ∀ n ∈ r.key.tables, n = 0) (made : IsMade setting roots asked r whole s columns) : s.IsScoped := by
  obtain ⟨start, last, begins, visits, -, rfl, -⟩ := made.made
  exact finish_isScoped
    (visits_scoped addressable comparable begins.isBuilt visits (begins.isScoped comparable key))
    (Entity.restrictedTo_constrainRoot _ _ _)

end Statements

end Compile

theorem SubSelect.forKeys_isScoped {s : SubSelect} {keys : List Value} (isScoped : s.statement.IsScoped)
    (key : ∀ n ∈ s.rootKey.tables, n = 0) : (s.forKeys keys).IsScoped := by
  refine ⟨isScoped.start, isScoped.joins, fun n member => ?_⟩
  have literals : Expr.tablesOfEach (keys.map s.rootKeyType.literal) = [] := by
    rw [Expr.tablesOfEach_eq, List.flatMap_eq_nil_iff]
    intro e inside
    obtain ⟨value, -, rfl⟩ := List.mem_map.mp inside
    rfl
  have old : n ∈ s.statement.mentioned ∨ n ∈ s.rootKey.tables := by
    simp only [Statement.mentioned, SubSelect.forKeys, Statement.filter, Statement.addCondition,
      List.flatMap_append, List.flatMap_singleton, Condition.tables, Expr.tables, literals, List.append_nil,
      List.mem_append] at member ⊢
    tauto
  rcases old with mentioned | ofKey
  · exact isScoped.mentioned n mentioned
  · rw [key n ofKey]
    exact List.mem_cons_self ..

/-- Every statement of a view introduces each table once, before it mentions it. -/
theorem statements_are_scoped {registry : Registry} {settings : ViewSettings} {dialect : Dialect}
    {pointInTime : Option Timestamp} {page : Page} {t : FilterTree} {v : CompiledView}
    (addressable : Setting.IsAddressable ⟨registry, pointInTime⟩ t.roots)
    (comparable : Setting.IsComparable ⟨registry, pointInTime⟩)
    (compiled : compile registry settings dialect pointInTime page t = .ok v) :
    v.primary.IsScoped ∧ ∀ s ∈ v.subSelects, s.statement.IsScoped ∧ ∀ keys, (s.forKeys keys).IsScoped := by
  obtain ⟨-, -, ⟨statement, offset, limit, primary, made⟩, each⟩ := compile_made addressable compiled
  have key : ∀ n ∈ (Root.ofTree settings t).key.tables, n = 0 := fun n => Entity.tables_rootKey
  refine ⟨?_, fun s member => ?_⟩
  · obtain ⟨start, joins, mentioned⟩ := made.isScoped addressable comparable key
    rw [primary]
    exact ⟨start, joins, mentioned⟩
  · obtain ⟨madeToo, rootKey⟩ := each s member
    have isScoped := madeToo.isScoped addressable comparable key
    exact ⟨isScoped, fun keys => SubSelect.forKeys_isScoped isScoped (rootKey ▸ key)⟩

namespace Outline

theorem areAgreed_of_isEmpty {t : FilterTree} (single : t.otherRoots.isEmpty = true) : AreAgreed t.roots := by
  rw [FilterTree.roots, List.isEmpty_iff.mp single]
  exact areAgreed_singleton t.root

theorem isComparable_of_all {registry : Registry} {pointInTime : Option Timestamp}
    (plain : registry.all.all (·.discriminator.isNone) = true) : Setting.IsComparable ⟨registry, pointInTime⟩ := by
  intro e member d declared
  have none := List.all_eq_true.mp plain e member
  rw [declared] at none
  contradiction

def orders : Outline where
  definitions := [
    entity "Order" "orders" [column "id" "id" .bigInt true, column "payer" "payer_id" .bigInt false,
      association "customer" "Customer" "customer" "payer_id" "id" false,
      association "lines" "Line" "line" "id" "order_id" true],
    entity "Line" "line" [column "id" "id" .bigInt true, column "order" "order_id" .bigInt false,
      column "article" "article_id" .bigInt false,
      association "product" "Product" "product" "article_id" "id" false],
    entity "Product" "product" [column "id" "id" .bigInt true, column "name" "name" .varchar false],
    entity "Customer" "customer" [column "id" "id" .bigInt true, column "name" "name" .varchar false]]
  roots := ["Order"]
  chains := [asks "Order" ["customer", "name"], asks "Order" ["lines", "product", "name"],
    asks "Order" ["lines", "id"]]

set_option maxRecDepth 100000 in
/-- Orders and their lines are read by one statement each. -/
theorem orders_are_scoped : ∃ registry t v, orders.compiled? = some (registry, t, v) ∧
    Setting.IsAddressable ⟨registry, none⟩ t.roots ∧ Setting.IsComparable ⟨registry, none⟩ ∧
    compile registry {} .sqlite none {} t = .ok v ∧ v.primary.joins.length = 1 ∧
    v.subSelects.map (·.statement.joins.length) = [2] ∧ v.primary.IsScoped ∧
    ∀ s ∈ v.subSelects, s.statement.IsScoped ∧ ∀ keys, (s.forKeys keys).IsScoped := by
  have checked : (orders.compiled?.map fun (registry, t, v) => t.otherRoots.isEmpty &&
      decide (∀ e ∈ t.roots ++ registry.all, ∀ a ∈ e.attributes, a.isAssociation = true → IsStep a.property) &&
      registry.all.all (·.discriminator.isNone) && v.primary.joins.length == 1 &&
      v.subSelects.map (·.statement.joins.length) == [2]) = some true := by
    decide +kernel
  obtain ⟨⟨registry, t, v⟩, found, checked⟩ := Option.map_eq_some_iff.mp checked
  simp only [Bool.and_eq_true, decide_eq_true_eq, beq_iff_eq] at checked
  obtain ⟨⟨⟨⟨single, steps⟩, plain⟩, joined⟩, joins⟩ := checked
  obtain ⟨-, -, compiled⟩ := compiled_eq found
  have addressable : Setting.IsAddressable ⟨registry, none⟩ t.roots := ⟨steps, areAgreed_of_isEmpty single⟩
  have comparable : Setting.IsComparable ⟨registry, none⟩ := isComparable_of_all plain
  obtain ⟨primary, each⟩ := statements_are_scoped addressable comparable compiled
  exact ⟨registry, t, v, found, addressable, comparable, compiled, joined, joins, primary, each⟩

def dotted : Outline where
  definitions := [
    entity "Order" "orders" [column "id" "id" .bigInt true, column "payer" "payer_id" .bigInt false,
      association "line.payer" "Customer" "customer" "payer_id" "id" false,
      association "line" "Line" "line" "id" "order_id" true],
    entity "Line" "line" [column "id" "id" .bigInt true, column "order" "order_id" .bigInt false,
      column "by" "payer_id" .bigInt false, association "payer" "Customer" "customer" "payer_id" "id" false],
    entity "Customer" "customer" [column "id" "id" .bigInt true, column "place" "city_id" .bigInt false,
      association "city" "City" "city" "city_id" "id" false],
    entity "City" "city" [column "id" "id" .bigInt true]]
  roots := ["Order"]
  chains := [asks "Order" ["line.payer", "city", "id"], asks "Order" ["line", "payer", "city", "id"]]

def nameless : Outline where
  definitions := [
    entity "Order" "orders" [column "id" "id" .bigInt true, column "former" "former_id" .bigInt false,
      association "" "Order" "orders" "former_id" "id" false, association "lines" "Line" "line" "id" "order_id" true],
    entity "Line" "line" [column "id" "id" .bigInt true, column "order" "order_id" .bigInt false]]
  roots := ["Order"]
  chains := [counts "Order" ["", "lines"], asks "Order" ["lines"]]

def unequal : Outline where
  definitions := [
    entity "Order" "orders" [column "id" "id" .bigInt true, column "payer" "payer_id" .bigInt false,
      association "customer" "Customer" "customer" "payer_id" "id" false],
    { entity "Customer" "customer" [column "id" "id" .bigInt true, column "kind" "kind" .double false] with
      discriminator := some ("kind", .float .notANumber) }]
  roots := ["Order"]
  chains := [asks "Order" ["customer", "id"], asks "Order" ["customer", "id"]]

def IsUnscoped (o : Outline) : Prop :=
  ∃ registry t v, Registry.ofDefinitions o.definitions = .ok registry ∧ o.tree? registry = some t ∧
    AreAgreed t.roots ∧ compile registry o.settings .sqlite o.pointInTime {} t = .ok v ∧
    ¬ (v.primary.IsScoped ∧ ∀ s ∈ v.subSelects, s.statement.IsScoped)

theorem isUnscoped_of_any {o : Outline} (declared : o.registry = (Registry.ofDefinitions o.definitions).toOption)
    (checked : (o.compiled?.any fun (_, t, v) =>
      t.otherRoots.isEmpty && !decide (v.primary.IsScoped ∧ ∀ s ∈ v.subSelects, s.statement.IsScoped)) = true) :
    o.IsUnscoped := by
  obtain ⟨⟨registry, t, v⟩, found, holds⟩ := (Option.any_eq_true _ _).mp checked
  obtain ⟨-, tree, compiled⟩ := compiled_eq found
  simp only [Bool.and_eq_true, Bool.not_eq_true', decide_eq_false_iff_not] at holds
  exact ⟨registry, t, v, declared_eq found declared, tree, areAgreed_of_isEmpty holds.1, compiled, holds.2⟩

set_option maxRecDepth 100000 in
/-- Statements are not well scoped where two properties have one path, or a join is unequal to itself. -/
theorem shared_paths_are_unscoped : dotted.IsUnscoped ∧ nameless.IsUnscoped ∧ unequal.IsUnscoped := by
  refine ⟨isUnscoped_of_any rfl ?_, isUnscoped_of_any rfl ?_, isUnscoped_of_any rfl ?_⟩
  · decide +kernel
  · decide +kernel
  · decide +kernel

end Outline

end ViewEngine
