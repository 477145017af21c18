import ViewEngine.Proofs.Concurrency.Batches
import ViewEngine.Proofs.Versions.Planned
import ViewEngine.Proofs.Writing.Inserted

namespace ViewEngine

open Sql BoundParameter

/-- The entities whose rows a view reads and writes. -/
def CompiledView.entities (v : CompiledView) : List Entity :=
  v.roots ++ v.joinPlan.entries.map (·.entity)

/-- An entity that is stored in the table of another one, as versions with the same keys. -/
structure Entity.SharesHistory (e : Entity) (version : VersionColumns) (columns : List String)
    (other : Entity) : Prop where
  table : other.table = e.table
  keys : other.identityKeys = e.identityKeys
  versioned : other.IsVersioned version
  hasColumns : other.HasColumns
  known : ∀ a ∈ other.scalars, a.columnName ∈ columns

structure Row.NamesVersion (e : Entity) (version : VersionColumns) (now : Timestamp) (data : Row) :
    Prop where
  keys : ∀ a ∈ e.identityKeys, ∀ value, data.get? a.property = some value →
    (a.columnType.coerce value).isStored = true
  opening : ∀ value, data.get? version.opening.property = some value → ∃ opening,
    version.opening.columnType.coerce value = .timestamp opening ∧ opening < now

namespace Planning

variable {c : Collation} {e other : Entity} {version : VersionColumns} {columns : List String}
  {data : Row} {keys : List (Attribute × Value)} {now : Timestamp} {ends : Prop} {v : CompiledView}
  {context : Context} {row : Nat} {r : ViewRow}

theorem rootOf_mem (v : CompiledView) (data : Row) : v.rootOf data ∈ v.roots := by
  unfold CompiledView.rootOf
  cases found : v.roots.find? _ with
  | none => exact List.mem_cons_self ..
  | some matching => exact List.mem_of_find?_eq_some found

theorem entityAt?_mem {path : String} (entity : v.entityAt? data path = some other) : other ∈ v.entities := by
  unfold CompiledView.entityAt? at entity
  split at entity
  · cases entity
    exact List.mem_append_left _ (rootOf_mem v data)
  · obtain ⟨entry, found, rfl⟩ := Option.map_eq_some_iff.mp entity
    exact List.mem_append_right _ (List.mem_map_of_mem (List.mem_of_find?_eq_some found))

theorem foldl_assign (items : List Attribute) (s : Statement) :
    (items.foldl (fun s a => s.assign a.columnName (placeholder a)) s) =
      { s with assignments := s.assignments ++ items.map fun a => (a.columnName, placeholder a) } := by
  induction items generalizing s with
  | nil =>
      cases s
      simp only [List.foldl_nil, List.map_nil, List.append_nil]
  | cons a rest ih =>
      rw [List.foldl_cons, ih]
      simp only [Statement.assign, List.append_assoc, List.singleton_append, List.map_cons]

theorem value_key {parameters : List BoundParameter} (distinct : (parameters.map (·.name)).Nodup)
    (bound : ∀ p ∈ keyParameters keys, p ∈ parameters) {a : Attribute} {value : Value}
    (member : (a, value) ∈ keys) :
    valueOf parameters (keyName a.columnName) = a.columnType.coerce value :=
  valueOf_of_mem distinct (bound _ (mem_keyParameters member))

theorem storageKeys_shared (versioned : e.IsVersioned version)
    (shares : e.SharesHistory version columns other) : e.storageKeys = other.storageKeys := by
  rw [versioned.storageKeys_eq, shares.versioned.storageKeys_eq, shares.keys]

theorem isClose_closing (versioned : e.IsVersioned version) (shares : e.SharesHistory version columns other)
    (keyed : keys.map Prod.fst = other.storageKeys)
    (held : ∀ key ∈ keys, data.get? key.1.property = some key.2)
    (names : data.NamesVersion other version now) (path : String) : ∃ opening,
      Execution.IsClose e version ⟨path, (closing other version.closing.columnName now keys).1,
        (closing other version.closing.columnName now keys).2, true⟩ opening now := by
  have sameKeys := storageKeys_shared versioned shares
  have distinct := closingParameters_distinct shares.versioned shares.hasColumns keyed now
  have nowBound : .now now ∈ (.now now :: keyParameters keys : List BoundParameter) := List.mem_cons_self ..
  have keyBound {a : Attribute} (storage : a ∈ e.storageKeys) : ∃ value, data.get? a.property = some value ∧
      ⟨keyName a.columnName, a.columnType.coerce value, a.columnType⟩ ∈
        (.now now :: keyParameters keys : List BoundParameter) := by
    rw [sameKeys, ← keyed] at storage
    obtain ⟨⟨_, value⟩, member, rfl⟩ := List.mem_map.mp storage
    exact ⟨value, held _ member, List.mem_cons_of_mem _ (mem_keyParameters member)⟩
  obtain ⟨value, heldOpening, bound⟩ := keyBound (a := version.opening)
    (by rw [versioned.storageKeys_eq]; exact List.mem_append_right _ (List.mem_singleton_self _))
  obtain ⟨opening, begins, ordered⟩ := names.opening value heldOpening
  rw [closing_eq, keyed]
  refine ⟨opening, {
    statement := by rw [shares.table, sameKeys]
    requiresMatch := rfl
    bound := fun a storage => ?_
    nowBound := List.mem_map_of_mem nowBound
    nowValue := valueOf_of_mem distinct nowBound
    openingValue := (valueOf_of_mem distinct bound).trans begins
    ordered := ordered
    stored := fun a member => ?_ }⟩
  · obtain ⟨_, -, bound⟩ := keyBound storage
    exact List.mem_map_of_mem bound
  · obtain ⟨value, heldKey, bound⟩ := keyBound (a := a)
      (by rw [versioned.storageKeys_eq]; exact List.mem_append_left _ member)
    have stored := names.keys a (shares.keys ▸ member) value heldKey
    exact (congrArg Value.isStored (valueOf_of_mem distinct bound)).trans stored

theorem isSuccessor_successor (versioned : e.IsVersioned version)
    (shares : e.SharesHistory version columns other) {attributes : List Attribute}
    (written : AreWritten other attributes) (keyed : keys.map Prod.fst = other.storageKeys) (path : String) :
    Execution.IsSuccessor c e version columns
      ⟨path, successor other version.opening.columnName attributes keys,
        successorParameters attributes data now keys, false⟩
      ⟨path, (closing other version.closing.columnName now keys).1,
        (closing other version.closing.columnName now keys).2, true⟩ now := by
  have sameKeys := storageKeys_shared versioned shares
  have hasColumns := shares.hasColumns
  have distinct : ((successorParameters attributes data now keys).map (·.name)).Nodup :=
    successorParameters_distinct shares.versioned hasColumns written keyed
  have tables : (successor other version.opening.columnName attributes keys).tables = [⟨e.table, none⟩] := by
    rw [successor_eq, shares.table]
    rfl
  refine ⟨⟨by rw [successor_eq]; rfl, tables⟩, rfl, fun a storage => ?_, fun different => ?_⟩
  · rw [sameKeys, ← keyed] at storage
    obtain ⟨key, member, rfl⟩ := List.mem_map.mp storage
    have bound := mem_keyParameters member
    refine (valueOf_of_mem distinct (List.mem_append_right _ bound)).trans ?_
    rw [closing_eq]
    exact (valueOf_of_mem (closingParameters_distinct shares.versioned hasColumns keyed now)
      (List.mem_cons_of_mem _ bound)).symm
  · refine ⟨succeeding c other version.opening.columnName attributes
      (successorParameters attributes data now keys), fun record => ⟨?_, fun a member => ?_⟩,
      fun db sameColumns => ?_⟩
    · rw [Record.interval?_eq_open_iff]
      exact ⟨succeeding_opening shares.versioned hasColumns written keyed,
        succeeding_closing shares.versioned hasColumns written fun same => different (same ▸ rfl)⟩
    · exact succeeding_carried shares.versioned hasColumns written
        (List.mem_append_left _ (shares.keys ▸ member))
    · rw [← shares.table] at sameColumns ⊢
      have known (a : Attribute) (scalar : a ∈ other.scalars) : a.columnName ∈ (db other.table).columns :=
        sameColumns ▸ shares.known a scalar
      have accepted : (db other.table).accepts
          ((successorItems other version.opening.columnName attributes).map Prod.fst) := by
        refine ⟨successorItems_nodup shares.versioned hasColumns written, fun column member => ?_⟩
        rw [successorItems_columns hasColumns] at member
        obtain ⟨a, selected, rfl⟩ := List.mem_map.mp member
        exact known a (successorAttributes_scalars shares.versioned hasColumns written a selected)
      refine ⟨_, _, successor_execute? accepted (fun a member => known a ?_), ?_, ?_⟩
      · rw [keyed] at member
        exact shares.versioned.storageKeys_scalars hasColumns a member
      · rw [Function.update_self]
        exact sameColumns
      · rw [Function.update_self, keyed, sameKeys]

theorem updateWrite_statement (e : Entity) (path : String) (data : Row) (attributes : List Attribute)
    (keys : List (Attribute × Value)) :
    (updateWrite e path data attributes keys).statement =
      { Statement.updateOf e.table with
        assignments := attributes.map fun a => (a.columnName, placeholder a)
        conditions := ((keys.map Prod.fst).map pin).map .predicate } := by
  simp only [updateWrite, foldl_assign, pinned_eq, Statement.updateOf, List.nil_append]

theorem isHarmless_updateWrite (shares : e.SharesHistory version columns other) {attributes : List Attribute}
    (written : AreWritten other attributes) (path : String) (parameters : List BoundParameter) :
    Execution.IsHarmless c e version ((PlannedStatement.ofWrite
      (updateWrite other path data attributes keys)).execution parameters) := by
  have statement := updateWrite_statement other path data attributes keys
  have absent (a : Attribute) (scalar : a ∈ other.scalars) (kept : other.isWritable a = false) :
      a.columnName ∉ (updateWrite other path data attributes keys).statement.assignments.map Prod.fst := by
    rw [statement]
    intro assigned
    obtain ⟨_, assignment, same⟩ := List.mem_map.mp assigned
    obtain ⟨b, member, rfl⟩ := List.mem_map.mp assignment
    rw [← shares.hasColumns.eq_of_columnName (written.scalars b member) scalar same,
      written.writable b member] at kept
    contradiction
  refine .of_update (congrArg Statement.kind statement)
    ((congrArg Statement.tables statement).trans (by rw [shares.table]; rfl)) rfl ?_ ?_ ?_
  · intro a member
    rw [← shares.keys] at member
    have primary := (Entity.mem_identityKeys_iff.mp member).2.1
    exact absent a (shares.hasColumns.keys a member) (by simp [Entity.isWritable, primary])
  · exact absent _ shares.versioned.opening (opening_not_writable shares.versioned)
  · exact absent _ shares.versioned.closing (closing_not_writable shares.versioned)

theorem versionWrites_tables {started : VersionColumns} {node path : String} {attributes : List Attribute}
    {writes : List Write}
    (planned : versionWrites e started now row node path data attributes keys = .ok writes) :
    ∀ w ∈ writes, w.statement.tables = [⟨e.table, none⟩] ∧ w.batch = none := by
  unfold versionWrites at planned
  split at planned
  next =>
    cases planned
    rintro w (_ | ⟨_, _ | ⟨_, ⟨⟩⟩⟩)
    · exact ⟨congrArg (·.1.tables) (closing_eq e _ now keys), rfl⟩
    · exact ⟨by rw [successor_eq]; rfl, rfl⟩
  next => contradiction

theorem planned_of_table {writes : List Write} {table : String} (differs : table ≠ e.table)
    (others : ∀ w ∈ writes, w.statement.tables = [⟨table, none⟩] ∧ (w.batch = some removalKey → ¬ ends)) :
    PlannedStatements c e version columns ends (writes.map .ofWrite) := by
  induction writes with
  | nil => exact .nil
  | cons w rest ih =>
      obtain ⟨tables, notRemoval⟩ := others w (List.mem_cons_self ..)
      exact .harmless notRemoval (fun _ => .of_table tables differs)
        (ih fun other member => others other (List.mem_cons_of_mem _ member))

theorem nodeWrites_planned (versioned : e.IsVersioned version)
    (shares : ∀ other ∈ v.entities, other.table = e.table → e.SharesHistory version columns other)
    {strict : Bool} {node : String} {writes : List Write}
    (names : ∀ other data, v.entityAt? r.data (Path.withoutPositions node) = some other →
      other.table = e.table → r.data.nodeAt node = .ok (some data) →
      data.NamesVersion other version context.writeTime)
    (planned : nodeWrites v strict context row r node = .ok writes) :
    PlannedStatements c e version columns ends (writes.map .ofWrite) := by
  obtain rfl | ⟨other, data, attributes, keys, entity, standing, written, keyed, form⟩ :=
    nodeWrites_cases planned
  · exact .nil
  by_cases here : other.table = e.table
  · have shares := shares other (entityAt?_mem entity) here
    obtain ⟨keyed, held⟩ := keyValues_held keyed
    obtain rfl | ⟨_, declared, form⟩ := form
    · exact .harmless (by simp [removalKey, PlannedStatement.ofWrite, updateWrite])
        (isHarmless_updateWrite shares written _) .nil
    · cases declared.symm.trans shares.versioned.declared
      rw [versionWrites_eq shares.versioned] at form
      cases form
      obtain ⟨opening, close⟩ := isClose_closing versioned shares keyed held
        (names other data entity here standing) (Path.withoutPositions node)
      exact .version rfl rfl rfl rfl close (isSuccessor_successor versioned shares written keyed _) .nil
  · refine planned_of_table here fun w member => ?_
    obtain rfl | ⟨version, -, form⟩ := form
    · cases List.mem_singleton.mp member
      exact ⟨congrArg Statement.tables (updateWrite_statement ..), by simp [removalKey, updateWrite]⟩
    · obtain ⟨tables, batch⟩ := versionWrites_tables form w member
      exact ⟨tables, by simp [batch]⟩

theorem insertWrites_tables {strict : Bool} {writes : List Write}
    (planned : insertWrites v strict context row data = .ok writes) :
    ∀ w ∈ writes, w.statement.tables = [⟨(v.rootOf data).table, none⟩] ∧ w.batch ≠ some removalKey := by
  cases insertWrites_plans planned with
  | nothing =>
      rintro w ⟨⟩
  | stored =>
      rintro w (_ | ⟨_, ⟨⟩⟩)
      exact ⟨rfl, by simp [insertWrite, removalKey]⟩

theorem removalWrite_cases {w : Write} (planned : removalWrite v context row data = .ok w) :
    ∃ keys, keyValues (v.rootOf data) data "" row = .ok keys ∧
      (w.statement.tables = [⟨(v.rootOf data).table, none⟩]) ∧
      ∀ version, (v.rootOf data).IsVersioned version → w =
        { path := "", batch := some removalKey, requiresMatch := true
          statement := (closing (v.rootOf data) version.closing.columnName context.writeTime keys).1
          parameters := (closing (v.rootOf data) version.closing.columnName context.writeTime keys).2 } := by
  obtain ⟨keys, keyed, planned⟩ := bind_eq_ok.mp planned
  refine ⟨keys, keyed, ?_⟩
  split at planned
  next column found =>
    cases planned
    refine ⟨congrArg (·.1.tables) (closing_eq _ column context.writeTime keys), fun version versioned => ?_⟩
    rw [versioned.declared, Option.bind_some, Attribute.column_of_scalar versioned.closing] at found
    cases found
    rfl
  next missing =>
    cases planned
    refine ⟨by rw [pinned_eq]; rfl, fun version versioned => ?_⟩
    rw [versioned.declared, Option.bind_some, Attribute.column_of_scalar versioned.closing] at missing
    contradiction

theorem removalWrite_planned (versioned : e.IsVersioned version)
    (shares : ∀ other ∈ v.entities, other.table = e.table → e.SharesHistory version columns other)
    (sameTable : (v.rootOf data).table = e.table → ends) (others : (v.rootOf data).table ≠ e.table → ¬ ends)
    (names : (v.rootOf data).table = e.table →
      data.NamesVersion (v.rootOf data) version context.writeTime) {w : Write}
    (planned : removalWrite v context row data = .ok w) :
    PlannedStatements c e version columns ends [.ofWrite w] := by
  obtain ⟨keys, keyed, tables, form⟩ := removalWrite_cases planned
  by_cases here : (v.rootOf data).table = e.table
  · have shares := shares _ (List.mem_append_left _ (rootOf_mem v data)) here
    obtain ⟨keyed, held⟩ := keyValues_held keyed
    cases form version shares.versioned
    obtain ⟨opening, close⟩ := isClose_closing versioned shares keyed held (names here) ""
    refine .removal (sameTable here) rfl close.statement close.requiresMatch ?_ .nil
    rintro parameters (_ | ⟨_, ⟨⟩⟩)
    exact ⟨opening, context.writeTime, close⟩
  · exact .harmless (fun _ => others here) (fun _ => .of_table tables here) .nil

end Planning

/-- A view on a table of versions, as it is when its writes are planned: entities that are stored in the
table agree on its keys, no new rows are added to it, and what is written are versions that have begun
before the time of writing. -/
structure View.WritesVersions (v : View) (context : Context) (e : Entity) (version : VersionColumns)
    (columns : List String) : Prop where
  shares : ∀ other ∈ v.compiled.entities, other.table = e.table → e.SharesHistory version columns other
  roots : ∀ other ∈ v.compiled.roots, other.table = v.compiled.root.table
  stored : ∀ r ∈ v.rows, r.isNew = true → v.compiled.root.table ≠ e.table
  nodes : ∀ r ∈ v.rows, ∀ node ∈ r.changed.map Path.node, ∀ other data,
    v.compiled.entityAt? r.data (Path.withoutPositions node) = some other → other.table = e.table →
      r.data.nodeAt node = .ok (some data) → data.NamesVersion other version context.writeTime
  removed : ∀ data ∈ v.removed, (v.compiled.rootOf data).table = e.table →
    data.NamesVersion (v.compiled.rootOf data) version context.writeTime

namespace View

open Planning

variable {c : Collation} {e : Entity} {version : VersionColumns} {columns : List String} {v : View}
  {context : Context}

theorem rowWrites_planned (versioned : e.IsVersioned version)
    (writesVersions : v.WritesVersions context e version columns) {ends : Prop} {strict : Bool} {row : Nat}
    {r : ViewRow} (member : r ∈ v.rows) {writes : List Write}
    (planned : rowWrites v.compiled strict context row r = .ok writes) :
    PlannedStatements c e version columns ends (writes.map .ofWrite) := by
  unfold rowWrites at planned
  split at planned
  next isNew =>
    have differs : (v.compiled.rootOf r.data).table ≠ e.table := by
      rw [writesVersions.roots _ (rootOf_mem _ _)]
      exact writesVersions.stored r member isNew
    refine planned_of_table differs fun w inside => ?_
    obtain ⟨tables, batch⟩ := insertWrites_tables planned w inside
    exact ⟨tables, fun isRemoval => absurd isRemoval batch⟩
  next =>
    obtain ⟨lists, succeeded, rfl⟩ := map_eq_ok.mp planned
    refine .of_lists fun writes inside => ?_
    obtain ⟨node, isChanged, planned⟩ := exists_of_mem_mapM succeeded inside
    exact nodeWrites_planned versioned writesVersions.shares
      (writesVersions.nodes r member node (Names.mem_ofList.mp isChanged)) planned

theorem writes_planned (versioned : e.IsVersioned version)
    (writesVersions : v.WritesVersions context e version columns) {strict : Bool} {writes : List Write}
    (planned : v.writes strict context = .ok writes) :
    PlannedStatements c e version columns (v.compiled.root.table = e.table) (writes.map .ofWrite) := by
  obtain ⟨stored, storedPlanned, planned⟩ := bind_eq_ok.mp planned
  obtain ⟨removals, removalsPlanned, planned⟩ := bind_eq_ok.mp planned
  cases planned
  rw [List.map_append]
  refine .append (.of_lists fun writes inside => ?_) (.of_each fun w inside => ?_)
  · obtain ⟨⟨r, row⟩, member, planned⟩ := exists_of_mem_mapM storedPlanned inside
    exact rowWrites_planned versioned writesVersions (List.fst_mem_of_mem_zipIdx member) planned
  · obtain ⟨⟨data, row⟩, member, planned⟩ := exists_of_mem_mapM removalsPlanned inside
    have rootTable := writesVersions.roots _ (rootOf_mem v.compiled data)
    exact removalWrite_planned versioned writesVersions.shares (fun here => rootTable ▸ here)
      (fun other here => other (rootTable.trans here))
      (writesVersions.removed data (List.fst_mem_of_mem_zipIdx member)) planned

theorem plan_executions (versioned : e.IsVersioned version) {settings : ViewSettings} {plan : WritePlan}
    (planned : (v.plan settings context).2 = .ok plan)
    (writesVersions : (v.plan settings context).1.WritesVersions context e version columns) :
    PlannedExecutions c e version columns plan.executions := by
  obtain ⟨writes, written, rfl⟩ := plan_writes planned
  exact (writes_planned versioned writesVersions written).ofWrites.executions

end View

end ViewEngine
