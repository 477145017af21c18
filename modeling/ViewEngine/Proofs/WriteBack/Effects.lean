import ViewEngine.Proofs.Concurrency.Plans
import ViewEngine.Proofs.WriteBack.Changes

namespace ViewEngine

open Sql BoundParameter

namespace Planning

variable {c : Collation} {e : Entity} {old : Record} {keys values : List (Attribute × Value)}
  {parameters : List BoundParameter} {columns : List Attribute} {tableColumns : List String} {data : Row}
  {path : String}

structure AreKeysOf (e : Entity) (old : Record) (keys : List (Attribute × Value)) : Prop where
  attributes : keys.map Prod.fst = e.identityKeys
  values : ∀ key ∈ keys, old key.1.columnName = key.1.columnType.coerce key.2

/-- A statement that is pinned to the keys of a row finds the rows with the same key. -/
theorem AreKeysOf.hasKeys (areKeys : AreKeysOf e old keys) (distinct : (parameters.map (·.name)).Nodup)
    (bound : ∀ p ∈ keyParameters keys, p ∈ parameters) :
    hasKeys c (keys.map Prod.fst) parameters = (e.sameKey c · old) := by
  funext record
  rw [areKeys.attributes, Planning.hasKeys, Entity.sameKey, Bool.eq_iff_iff, List.all_eq_true, List.all_eq_true]
  refine forall₂_congr fun a member => ?_
  rw [← areKeys.attributes] at member
  obtain ⟨⟨_, value⟩, isKey, rfl⟩ := List.mem_map.mp member
  rw [value_key distinct bound isKey, areKeys.values _ isKey]

theorem AreKeysOf.plainNames_nodup (areKeys : AreKeysOf e old keys) (hasColumns : e.HasColumns) :
    (((keys.map Prod.fst).map (·.columnName)).map plainName).Nodup := by
  rw [areKeys.attributes]
  exact hasColumns.plainNames_nodup hasColumns.keys ((hasColumns.attributes_nodup.filter _).filter _)

theorem AreKeysOf.pins_scoped (areKeys : AreKeysOf e old keys) (hasColumns : e.HasColumns)
    (known : ∀ a ∈ e.scalars, a.columnName ∈ tableColumns)
    (bound : ∀ p ∈ keyParameters keys, p ∈ parameters) :
    (((keys.map Prod.fst).map pin).map Condition.predicate).all
      (·.isScoped tableColumns (parameters.map (·.name))) = true := by
  refine Planning.pins_scoped (fun a member => ?_) fun a member => ?_
  · exact known a (hasColumns.keys a (areKeys.attributes ▸ member))
  · obtain ⟨key, isKey, rfl⟩ := List.mem_map.mp member
    exact List.mem_map.mpr ⟨_, bound _ (mem_keyParameters isKey), rfl⟩

def writtenValues (columns : List Attribute) (data : Row) : List (String × Value) :=
  columns.map fun a => (a.columnName, a.columnType.coerce ((data.get? a.property).getD .null))

theorem updateParameters_nodup (areKeys : AreKeysOf e old keys) (hasColumns : e.HasColumns)
    (written : AreWritten e columns) :
    ((updateWrite e path data columns keys).parameters.map (·.name)).Nodup := by
  rw [updateWrite, List.map_append, valueParameters_names, keyParameters_names]
  refine List.nodup_append.mpr ⟨valueNames_nodup (hasColumns.plainNames_nodup written.scalars written.distinct),
    keyNames_nodup (areKeys.plainNames_nodup hasColumns), ?_⟩
  intro first isValue second isKey
  obtain ⟨column, -, rfl⟩ := List.mem_map.mp isValue
  obtain ⟨other, -, rfl⟩ := List.mem_map.mp isKey
  exact keyName_ne_valueName.symm

variable (c data path) in
theorem updateWrite_execute? {db : Database} (hasColumns : e.HasColumns)
    (known : ∀ a ∈ e.scalars, a.columnName ∈ (db e.table).columns) (written : AreWritten e columns)
    (areKeys : AreKeysOf e old keys) :
    (updateWrite e path data columns keys).statement.execute? c
        (updateWrite e path data columns keys).parameters db =
      some (Function.update db e.table { db e.table with
          rows := (db e.table).rows.map fun record =>
            if e.sameKey c record old then record.assign (writtenValues columns data) else record },
        (db e.table).rows.countP (e.sameKey c · old)) := by
  have distinct : ((updateWrite e path data columns keys).parameters.map (·.name)).Nodup :=
    updateParameters_nodup areKeys hasColumns written
  have keyBound : ∀ p ∈ keyParameters keys, p ∈ (updateWrite e path data columns keys).parameters :=
    fun p member => List.mem_append_right _ member
  have valueBound : ∀ a ∈ columns, valueParameter a ((data.get? a.property).getD .null) ∈
      (updateWrite e path data columns keys).parameters :=
    fun a member => List.mem_append_left _ (List.mem_map.mpr ⟨a, member, rfl⟩)
  have statement := updateWrite_statement e path data columns keys
  generalize (updateWrite e path data columns keys).statement = s at *
  generalize (updateWrite e path data columns keys).parameters = parameters at *
  have admitted : s.admitsRecord c parameters = (e.sameKey c · old) := by
    rw [← areKeys.hasKeys distinct keyBound, statement]
    funext record
    rw [Statement.admitsRecord, admits_predicates rfl, all_pin_holds]
  have updated (record : Record) : s.updated c parameters record =
      record.assign (writtenValues columns data) := by
    rw [statement]
    refine congrArg (Record.assign · record) ((List.map_map ..).trans (List.map_congr_left fun a member => ?_))
    exact congrArg (a.columnName, ·) (valueOf_of_mem distinct (valueBound a member))
  have assigned : s.assignments.map Prod.fst = columns.map (·.columnName) := by
    rw [statement, List.map_map]
    rfl
  rw [Statement.execute?_update e.table (by rw [statement]; rfl) (by rw [statement]; rfl)]
  · simp only [admitted, updated]
  · rw [assigned]
    exact ⟨hasColumns.columnNames_nodup written.scalars written.distinct,
      List.forall_mem_map.mpr fun a member => known a (written.scalars a member)⟩
  · rw [statement]
    exact areKeys.pins_scoped hasColumns known keyBound
  · rw [statement, List.all_map, List.all_eq_true]
    intro a member
    exact List.contains_iff_mem.mpr (List.mem_map.mpr ⟨_, valueBound a member, rfl⟩)

theorem updateWrite_makes (hasColumns : e.HasColumns) (known : ∀ a ∈ e.scalars, a.columnName ∈ tableColumns)
    (written : AreWritten e columns) (areKeys : AreKeysOf e old keys) (self : e.sameKey c old old = true) :
    (updateWrite e path data columns keys).execution.Makes c e tableColumns
      ⟨some old, some (old.assign (writtenValues columns data))⟩ := by
  intro db others hasTable found aside
  have executed := updateWrite_execute? c data path hasColumns (hasTable ▸ known) written areKeys
  refine ⟨_, _, (Execution.outcome_of_execute? executed).trans (if_neg (by simp [Write.execution,
    PlannedStatement.execution, PlannedStatement.ofWrite, updateWrite])), ?_⟩
  refine (found.map _).trans (.of_eq ?_)
  have same : others.map (fun record =>
      if e.sameKey c record old then record.assign (writtenValues columns data) else record) = others := by
    refine (List.map_congr_left fun record member => ?_).trans (List.map_id _)
    rw [if_neg (by simp [aside old rfl record member])]
    rfl
  simp only [Option.toList_some, List.singleton_append, List.map_cons, self, if_true, same]

def deleteWrite (e : Entity) (keys : List (Attribute × Value)) : Write where
  path := ""
  statement := pinned (.deleteFrom e.table) keys
  parameters := keyParameters keys
  batch := some ⟨"", .delete, []⟩

theorem deleteWrite_execute? {db : Database} (hasColumns : e.HasColumns)
    (known : ∀ a ∈ e.scalars, a.columnName ∈ (db e.table).columns) (areKeys : AreKeysOf e old keys) :
    (deleteWrite e keys).statement.execute? c (deleteWrite e keys).parameters db =
      some (Function.update db e.table { db e.table with
          rows := (db e.table).rows.filter (!e.sameKey c · old) },
        (db e.table).rows.countP (e.sameKey c · old)) := by
  have distinct : ((keyParameters keys).map (·.name)).Nodup := by
    rw [keyParameters_names]
    exact keyNames_nodup (areKeys.plainNames_nodup hasColumns)
  have bound : ∀ p ∈ keyParameters keys, p ∈ keyParameters keys := fun p member => member
  have statement := pinned_eq (.deleteFrom e.table) keys
  simp only [deleteWrite]
  generalize pinned (.deleteFrom e.table) keys = s at *
  have admitted : s.admitsRecord c (keyParameters keys) = (e.sameKey c · old) := by
    rw [← areKeys.hasKeys distinct bound, statement]
    funext record
    rw [Statement.admitsRecord, admits_predicates rfl, all_pin_holds]
  rw [Statement.execute?_delete e.table (by rw [statement]; rfl) (by rw [statement]; rfl)]
  · simp only [admitted]
  · rw [statement]
    exact areKeys.pins_scoped hasColumns known bound

theorem deleteWrite_makes (hasColumns : e.HasColumns) (known : ∀ a ∈ e.scalars, a.columnName ∈ tableColumns)
    (areKeys : AreKeysOf e old keys) (self : e.sameKey c old old = true) :
    (deleteWrite e keys).execution.Makes c e tableColumns (.deletion old) := by
  intro db others hasTable found aside
  have executed := deleteWrite_execute? (c := c) hasColumns (hasTable ▸ known) areKeys
  refine ⟨_, _, (Execution.outcome_of_execute? executed).trans (if_neg (by simp [Write.execution,
    PlannedStatement.execution, PlannedStatement.ofWrite, deleteWrite])), ?_⟩
  refine (found.filter _).trans (.of_eq ?_)
  have kept : others.filter (!e.sameKey c · old) = others := by
    refine List.filter_eq_self.mpr fun record member => ?_
    simp [aside old rfl record member]
  simp only [RowChange.deletion, Option.toList_some, Option.toList_none, List.singleton_append, List.nil_append,
    List.filter_cons, self, Bool.not_true, Bool.false_eq_true, if_false, kept]

def insertedRecord (values : List (Attribute × Value)) : Record :=
  Record.missing.assign (values.map fun value => (value.1.columnName, value.1.columnType.coerce value.2))

theorem insertWrite_makes {row : Nat} (hasColumns : e.HasColumns)
    (known : ∀ a ∈ e.scalars, a.columnName ∈ tableColumns) (scalars : ∀ value ∈ values, value.1 ∈ e.scalars)
    (distinct : (values.map Prod.fst).Nodup) :
    (insertWrite e row values).execution.Makes c e tableColumns ⟨none, some (insertedRecord values)⟩ := by
  intro db others hasTable found _
  have scalar := List.forall_mem_map.mpr scalars
  have parameters : (insertWrite e row values).execution.parameters =
      values.map fun value => valueParameter value.1 value.2 := rfl
  have unique : ((insertWrite e row values).execution.parameters.map (·.name)).Nodup := by
    have names := valueNames_nodup (hasColumns.plainNames_nodup scalar distinct)
    rw [List.map_map, List.map_map] at names
    rw [parameters, List.map_map]
    exact names
  have bound : ∀ value ∈ values, valueParameter value.1 value.2 ∈ (insertWrite e row values).execution.parameters :=
    fun value member => List.mem_map.mpr ⟨value, member, rfl⟩
  have columns : (insertWrite e row values).execution.statement.insertColumns =
      values.map (·.1.columnName) := List.map_map ..
  have exprs : (insertWrite e row values).execution.statement.insertValues =
      values.map (placeholder ·.1) := List.map_map ..
  have tuples : (insertWrite e row values).execution.statement.insertedTuples? c
      (insertWrite e row values).execution.parameters db =
        some [values.map fun value => value.1.columnType.coerce value.2] := by
    unfold Statement.insertedTuples?
    have parametric : (insertWrite e row values).execution.statement.insertValues.all
        (·.isScoped [] ((insertWrite e row values).execution.parameters.map (·.name))) = true := by
      rw [exprs, List.all_map, List.all_eq_true]
      intro value member
      exact List.contains_iff_mem.mpr (List.mem_map.mpr ⟨_, bound value member, rfl⟩)
    refine (if_pos parametric).trans (congrArg (fun tuple => some [tuple]) ?_)
    rw [exprs, List.map_map]
    exact List.map_congr_left fun value member => valueOf_of_mem unique (bound value member)
  have accepted : (db e.table).accepts (insertWrite e row values).execution.statement.insertColumns :=
    ⟨hasColumns.columnNames_nodup scalar distinct,
      List.forall_mem_map.mpr fun a member => hasTable ▸ known a (scalar a member)⟩
  have executed := Statement.execute?_insert e.table rfl rfl tuples accepted
    (by simp [columns])
  refine ⟨_, _, (Execution.outcome_of_execute? executed).trans (if_neg (by simp)), ?_⟩
  rw [columns, List.map_singleton, List.zip_map']
  exact (found.append_right _).trans (List.perm_append_singleton ..)

end Planning

end ViewEngine
