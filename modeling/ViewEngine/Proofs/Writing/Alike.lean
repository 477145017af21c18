import ViewEngine.Proofs.Propagation.Planned
import ViewEngine.Proofs.Writing.Pinned
import ViewEngine.Proofs.Writing.Sharing

/-!
What planned statements reach, where several writes share one. The roots of a view may share a statement,
so it has to be pinned by the keys of each of them: all roots are to be stored alike.
-/

namespace ViewEngine

open Sql Planning BoundParameter

/-- Entities of which rows are stored in one table, under the same keys and with the same end of versions. -/
structure Entity.StoredLike (e other : Entity) : Prop where
  table : e.table = other.table
  keys : e.storageKeys.map (·.columnName) = other.storageKeys.map (·.columnName)
  closing : e.version.bind (·.closing.column) = other.version.bind (·.closing.column)

/-- The roots of a view are stored alike, as they are if there is one, or if none adds a key. -/
def CompiledView.RootsStoredAlike (v : CompiledView) : Prop :=
  ∀ e ∈ v.roots, e.StoredLike v.root

section Shared

variable {v : CompiledView} {e other : Entity} {data before : Row} {path : String} {keys olds : List (Attribute × Value)}
  {columns others : List Attribute} {strict : Bool} {context : Context} {w first : Write}

theorem Entity.StoredLike.symm (alike : e.StoredLike other) : other.StoredLike e :=
  ⟨alike.table.symm, alike.keys.symm, alike.closing.symm⟩

theorem Entity.StoredLike.trans {third : Entity} (alike : e.StoredLike other) (further : other.StoredLike third) :
    e.StoredLike third :=
  ⟨alike.table.trans further.table, alike.keys.trans further.keys, alike.closing.trans further.closing⟩

theorem CompiledView.RootsStoredAlike.rootOf (alike : v.RootsStoredAlike) (data before : Row) :
    (v.rootOf data).StoredLike (v.rootOf before) :=
  (alike _ (rootOf_mem v data)).trans (alike _ (rootOf_mem v before)).symm

theorem CompiledView.RootsStoredAlike.entityAt? (alike : v.RootsStoredAlike)
    (found : v.entityAt? data path = some e) (again : v.entityAt? before path = some other) : e.StoredLike other := by
  unfold CompiledView.entityAt? at found again
  split at found
  next root =>
    rw [if_pos root] at again
    cases found
    cases again
    exact alike.rootOf data before
  next nested =>
    rw [if_neg nested] at again
    cases found.symm.trans again
    exact ⟨rfl, rfl, rfl⟩

theorem Entity.StoredLike.pins (alike : e.StoredLike other) : e.storageKeys.map pin = other.storageKeys.map pin := by
  have byColumn (attributes : List Attribute) : attributes.map pin =
      (attributes.map (·.columnName)).map fun column =>
        (Expr.unqualified column).equals (.parameter (keyName column)) := by
    rw [List.map_map]
    rfl
  rw [byColumn, byColumn, alike.keys]

/-- Attributes of the same columns are assigned alike. -/
theorem assigned_alike (written : AreWritten e columns) (writtenBefore : AreWritten other others)
    (same : columnNames columns = columnNames others) :
    columns.map (fun a => (a.columnName, placeholder a)) = others.map fun a => (a.columnName, placeholder a) := by
  have byColumn (attributes : List Attribute) : attributes.map (fun a => (a.columnName, placeholder a)) =
      (attributes.map (·.columnName)).map fun column => (column, .parameter (valueName column)) := by
    rw [List.map_map]
    rfl
  rw [columnNames_eq_map written.scalars, columnNames_eq_map writtenBefore.scalars] at same
  rw [byColumn, byColumn, same]

theorem updateWrite_shared (alike : e.StoredLike other) (written : AreWritten e columns)
    (writtenBefore : AreWritten other others) (same : columnNames columns = columnNames others)
    (keyed : keys.map Prod.fst = e.storageKeys) (keyedBefore : olds.map Prod.fst = other.storageKeys) :
    (updateWrite other path before others olds).statement = (updateWrite e path data columns keys).statement := by
  rw [updateWrite_statement, updateWrite_statement, assigned_alike written writtenBefore same, keyed, keyedBefore,
    alike.pins, alike.table]

/-- Rows that are stored alike and share a statement are taken away by the same one. -/
theorem Planning.Removes.shared {now : Timestamp} (alike : e.StoredLike other) (removes : Removes now e keys w)
    (before : Removes now other olds first) (keyed : keys.map Prod.fst = e.storageKeys)
    (keyedBefore : olds.map Prod.fst = other.storageKeys) : first.statement = w.statement := by
  cases removes with
  | close closes =>
      cases before with
      | close closesBefore =>
          cases closes.symm.trans (alike.closing.trans closesBefore)
          simp only [closeWrite, closing_eq, closeStatement, keyed, keyedBefore, alike.pins, alike.table]
      | delete unversioned =>
          rw [← alike.closing, closes] at unversioned
          contradiction
  | delete unversioned =>
      cases before with
      | close closesBefore =>
          rw [← alike.closing, unversioned] at closesBefore
          contradiction
      | delete => simp only [pinned_eq, Statement.deleteFrom, keyed, keyedBefore, alike.pins, alike.table]

end Shared

namespace Planning

variable {v : CompiledView} {strict : Bool} {context : Context} {row : Nat} {data : Row} {writes : List Write}
  {e : Entity} {node : String} {columns : List Attribute} {keys : List (Attribute × Value)} {w : Write}

/-- Of the writes of a node an update alone can share a statement. -/
theorem StoresNode.eq_updateWrite (stores : StoresNode context row node e data columns keys writes)
    (member : w ∈ writes) (batched : w.batch.isSome = true) :
    w = updateWrite e (Path.withoutPositions node) data columns keys := by
  cases stores with
  | update => exact List.mem_singleton.mp member
  | version =>
      rcases member with _ | ⟨_, _ | ⟨_, ⟨⟩⟩⟩
      · contradiction
      · contradiction

theorem insertWrites_inserts (planned : insertWrites v strict context row data = .ok writes) :
    ∀ w ∈ writes, w.statement.kind = .insert ∧ w.statement.source = none ∧
      ∃ names, w.batch = some ⟨"", .insert, names⟩ := by
  cases insertWrites_plans planned with
  | nothing =>
      rintro w ⟨⟩
  | stored =>
      rintro w (_ | ⟨_, ⟨⟩⟩)
      exact ⟨rfl, rfl, _, rfl⟩

end Planning

namespace View

variable {v : View} {strict : Bool} {context : Context} {w first : Write} {row : Nat} {node : String}

/-- A write of a node comes with the entity of the node, its keys and the columns to write. -/
theorem Plans.stores (plans : v.Plans strict context w (.node row node)) :
    ∃ r e data columns keys writes, v.rows[row]? = some r ∧ r.changed ≠ [] ∧
      v.compiled.entityAt? r.data (Path.withoutPositions node) = some e ∧ AreWritten e columns ∧
      keyValues e data (Path.withoutPositions node) row = .ok keys ∧
      StoresNode context row node e data columns keys writes ∧ w ∈ writes := by
  obtain ⟨r, writes, standing, -, changed, planned, member⟩ := plans
  have nonempty : r.changed ≠ [] := by
    intro empty
    rw [empty] at changed
    contradiction
  cases nodeWrites_plans planned with
  | unresolved | absent | unchanged => contradiction
  | stored entity _ found keyed stores =>
      exact ⟨r, _, _, _, _, writes, standing, nonempty, entity, writtenColumns_written found, keyed, stores, member⟩

/-- The purpose of writes that share a statement tells what they are planned for. -/
theorem Plans.purpose {origin : WriteOrigin} {key : BatchKey} (plans : v.Plans strict context w origin)
    (batched : w.batch = some key) :
    match origin with
    | .node _ _ => key.purpose = .update
    | .added _ => key.purpose = .insert
    | .removed _ => key.purpose = .close ∨ key.purpose = .delete := by
  cases origin with
  | node row node =>
      obtain ⟨r, e, data, columns, keys, writes, -, -, -, -, -, stores, member⟩ := plans.stores
      rw [stores.eq_updateWrite member (by rw [batched]; rfl)] at batched
      cases batched
      rfl
  | added row =>
      obtain ⟨r, writes, -, -, planned, member⟩ := plans
      obtain ⟨-, -, names, isInsert⟩ := insertWrites_inserts planned w member
      cases batched.symm.trans isInsert
      rfl
  | removed row =>
      obtain ⟨data, -, planned⟩ := plans
      obtain ⟨keys, -, removes⟩ := removalWrite_removes planned
      cases removes with
      | close =>
          cases batched
          exact .inl rfl
      | delete =>
          cases batched
          exact .inr rfl

/-- A stored row is written by the same statement whether or not that is shared, if the roots are stored
alike. -/
theorem Plans.shared {origin source : WriteOrigin} (alike : v.compiled.RootsStoredAlike)
    (plans : v.Plans strict context w origin) (before : v.Plans strict context first source)
    (batched : w.batch.isSome = true) (same : w.batch = first.batch) :
    first.statement = w.statement ∨ ∃ row number, origin = .added row ∧ source = .added number := by
  obtain ⟨key, isKey⟩ := Option.isSome_iff_exists.mp batched
  have purpose := plans.purpose isKey
  have purposeBefore := before.purpose (same.symm.trans isKey)
  cases origin <;> cases source <;> simp only at purpose purposeBefore
  case node.node row node number above =>
    obtain ⟨r, e, data, columns, keys, writes, -, -, entity, written, keyed, stores, member⟩ := plans.stores
    obtain ⟨r', e', data', columns', keys', writes', -, -, entity', written', keyed', stores', member'⟩ :=
      before.stores
    obtain rfl := stores'.eq_updateWrite member' (same ▸ batched)
    obtain rfl := stores.eq_updateWrite member batched
    obtain ⟨path, -, columnsSame⟩ := BatchKey.mk.injEq .. ▸ Option.some.inj same
    rw [← path] at entity' ⊢
    exact .inl (updateWrite_shared (alike.entityAt? entity entity') written written' columnsSame
      (keyValues_held keyed).1 (keyValues_held keyed').1)
  case added.added row number => exact .inr ⟨row, number, rfl, rfl⟩
  case removed.removed row number =>
    obtain ⟨data, -, planned⟩ := plans
    obtain ⟨data', -, planned'⟩ := before
    obtain ⟨keys, keyed, removes⟩ := removalWrite_removes planned
    obtain ⟨keys', keyed', removes'⟩ := removalWrite_removes planned'
    exact .inl (removes.shared (alike.rootOf data data') removes' (keyValues_held keyed).1
      (keyValues_held keyed').1)
  all_goals simp_all

/-- What a write may do, by what it is planned for. -/
def Reaches (v : View) (context : Context) (s : Statement) (parameters : List BoundParameter) :
    WriteOrigin → Prop
  | .node row node => ∃ r e, v.rows[row]? = some r ∧ r.changed ≠ [] ∧
    v.compiled.entityAt? r.data (Path.withoutPositions node) = some e ∧
    ChangesStored e s parameters context.fastUpdate
  | .added _ => s.kind = .insert ∧ s.source = none
  | .removed row => ∃ data, v.removed[row]? = some data ∧ TakesAway (v.compiled.rootOf data) s parameters

theorem Plans.reaches {origin : WriteOrigin} (plans : v.Plans strict context w origin) :
    v.Reaches context w.statement w.parameters origin := by
  cases origin with
  | node row node =>
      obtain ⟨r, e, data, columns, keys, writes, standing, changed, entity, written, keyed, stores, member⟩ :=
        plans.stores
      exact ⟨r, e, standing, changed, entity, stores.changes keyed written w member⟩
  | added row =>
      obtain ⟨r, writes, -, -, planned, member⟩ := plans
      obtain ⟨kind, source, -⟩ := insertWrites_inserts planned w member
      exact ⟨kind, source⟩
  | removed row =>
      obtain ⟨data, standing, planned⟩ := plans
      obtain ⟨keys, keyed, removes⟩ := removalWrite_removes planned
      exact ⟨data, standing, removes.takesAway keyed⟩

theorem Plans.reaches_shared {origin : WriteOrigin} {source : WriteOrigin}
    (alike : v.compiled.RootsStoredAlike) (plans : v.Plans strict context w origin)
    (before : v.Plans strict context first source) (shares : w.Shares first) :
    v.Reaches context first.statement w.parameters origin := by
  rcases shares with rfl | ⟨batched, same⟩
  · exact plans.reaches
  · rcases plans.shared alike before batched same with statement | ⟨row, number, rfl, rfl⟩
    · rw [statement]
      exact plans.reaches
    · exact before.reaches

end View

namespace ViewRow

variable {v : View} {r : ViewRow} {settings : ViewSettings} {context : Context} {row : Nat}

theorem propagate_of_unchanged (unchanged : r.changed = []) (strict : Bool) (plan : JoinPlan) :
    r.propagate strict plan = (r, .ok ()) := by
  rw [propagate, changedNodes, unchanged]
  rfl

theorem standing_of_unchanged (standing : v.rows[row]? = some r) (unchanged : r.changed = []) :
    (v.plan settings context).1.rows[row]? = some r := by
  obtain ⟨after, there, same⟩ := View.plan_getElem? settings context standing
  rw [propagate_of_unchanged unchanged, or_self] at same
  exact same ▸ there

theorem rowWrites_of_unchanged (isStored : r.isNew = false) (unchanged : r.changed = []) (v : CompiledView)
    (strict : Bool) : rowWrites v strict context row r = .ok [] := by
  rw [rowWrites, isStored, unchanged]
  rfl

end ViewRow

/-- A planned statement is that of a write which is planned, and binds what is bound for the writes that share it. -/
theorem View.plan_stands {v : View} {settings : ViewSettings} {context : Context} {plan : WritePlan}
    (planned : (v.plan settings context).2 = .ok plan) {s : PlannedStatement} (member : s ∈ plan.statements) :
    ∃ first source, (v.plan settings context).1.Plans settings.strictWriteBack context first source ∧
      s.statement = first.statement ∧ s.path = first.path ∧
      ∀ parameters ∈ s.batch, ∃ w origin, (v.plan settings context).1.Plans settings.strictWriteBack context w origin ∧
        w.parameters = parameters ∧ w.Shares first := by
  obtain ⟨writes, written, rfl⟩ := plan_writes planned
  obtain ⟨first, stands⟩ := PlannedStatement.exists_standsFor member
  obtain ⟨source, plans⟩ := writes_plans written stands.member
  refine ⟨first, source, plans, congrArg PlannedStatement.statement stands.form,
    congrArg PlannedStatement.path stands.form, fun parameters bound => ?_⟩
  obtain ⟨w, isWrite, rfl, shares⟩ := stands.shared parameters bound
  obtain ⟨origin, plans⟩ := writes_plans written isWrite
  exact ⟨w, origin, plans, rfl, shares⟩

/-- Statements for stored rows are pinned by all keys of the row and change what may be changed; a row
without changes has none. -/
theorem writes_are_pinned {v : View} {settings : ViewSettings} {context : Context} {plan : WritePlan}
    (alike : v.compiled.RootsStoredAlike) (planned : (v.plan settings context).2 = .ok plan) :
    ∃ w, (v.plan settings context).1 = w ∧
      (∀ s ∈ plan.statements, ∀ parameters ∈ s.batch, ∃ origin,
        w.Binds settings.strictWriteBack context parameters origin ∧
          w.Reaches context s.statement parameters origin) ∧
      ∀ row r, v.rows[row]? = some r → r.isNew = false → r.changed = [] →
        w.rows[row]? = some r ∧ rowWrites w.compiled settings.strictWriteBack context row r = .ok [] := by
  refine ⟨_, rfl, ?_, fun row r standing isStored unchanged =>
    ⟨ViewRow.standing_of_unchanged standing unchanged, ViewRow.rowWrites_of_unchanged isStored unchanged _ _⟩⟩
  have alikeAfter : (v.plan settings context).1.compiled.RootsStoredAlike := by
    rw [View.plan_view]
    exact alike
  intro s member parameters bound
  obtain ⟨first, source, before, statement, -, shared⟩ := View.plan_stands planned member
  obtain ⟨w, origin, plans, rfl, shares⟩ := shared parameters bound
  rw [statement]
  exact ⟨origin, plans.binds, plans.reaches_shared alikeAfter before shares⟩

namespace Stock

open Outline (column entity kind)

def outline (roots : List String) : Outline where
  definitions := [
    entity "Item" "item" [column "id" "id" .bigInt true, column "kind" "kind" .varchar false,
      column "name" "name" .varchar false],
    kind "Lot" "Item" "lot" [], kind "Batch" "Item" "batch" [],
    kind "Piece" "Item" "piece" [column "serial" "serial" .bigInt true]]
  roots := roots
  requests := [⟨"name", none⟩]

def renamed (compiled : CompiledView) (kind : String) : View :=
  (View.ofRows compiled [
    [("id", .int 1), ("kind", .text "lot"), ("name", .text "a"), ("rootKey", .int 1)],
    [("id", .int 2), ("kind", .text kind), ("name", .text "b"), ("rootKey", .int 2), ("serial", .int 7)]]).edited
      [⟨.text "x", 0, "name"⟩, ⟨.text "y", 1, "name"⟩]

def storedLike (e other : Entity) : Bool :=
  e.table == other.table && e.storageKeys.map (·.columnName) == other.storageKeys.map (·.columnName) &&
    e.version.bind (·.closing.column) == other.version.bind (·.closing.column)

theorem rootsStoredAlike_of_all {v : CompiledView}
    (all : (v.roots.all fun e => storedLike e v.root) = true) : v.RootsStoredAlike := by
  intro e member
  have alike := List.all_eq_true.mp all e member
  simp only [storedLike, Bool.and_eq_true, beq_iff_eq] at alike
  exact ⟨alike.1.1, alike.1.2, alike.2⟩

set_option maxRecDepth 100000 in
/-- Two renamed items of the same keys share a statement, which is pinned for each of them. -/
theorem shared_update_is_pinned : ∃ compiled plan, (outline ["Lot", "Batch"]).view? = some compiled ∧
    compiled.RootsStoredAlike ∧ ((renamed compiled "batch").plan {} Sample.context).2 = .ok plan ∧ plan.statements.length = 1 ∧
    ∀ s ∈ plan.statements, s.batch.length = 2 ∧ ∀ parameters ∈ s.batch, ∃ origin,
      ((renamed compiled "batch").plan {} Sample.context).1.Reaches Sample.context s.statement parameters
        origin := by
  have checked : ((outline ["Lot", "Batch"]).view?.map fun compiled =>
      (compiled.roots.all fun e => storedLike e compiled.root) &&
      (((renamed compiled "batch").plan {} Sample.context).2.toOption.any fun plan =>
        plan.statements.map (·.batch.length) == [2])) = some true := by
    decide +kernel
  obtain ⟨compiled, found, checked⟩ := Option.map_eq_some_iff.mp checked
  rw [Bool.and_eq_true, Option.any_eq_true] at checked
  obtain ⟨all, plan, succeeded, sizes⟩ := checked
  have planned := eq_ok_of_toOption succeeded
  rw [beq_iff_eq] at sizes
  have alike := rootsStoredAlike_of_all all
  obtain ⟨_, rfl, reaches, -⟩ := writes_are_pinned (v := renamed compiled "batch") alike planned
  refine ⟨compiled, plan, found, alike, planned, by simpa using congrArg List.length sizes, fun s member => ?_⟩
  refine ⟨List.mem_singleton.mp (sizes ▸ List.mem_map_of_mem member), fun parameters bound => ?_⟩
  obtain ⟨origin, -, reached⟩ := reaches s member parameters bound
  exact ⟨origin, reached⟩

set_option maxRecDepth 100000 in
theorem shared_update_forgets_key : ∃ compiled plan s r, (outline ["Lot", "Piece"]).view? = some compiled ∧
    ((renamed compiled "piece").plan {} Sample.context).2 = .ok plan ∧ plan.statements = [s] ∧
    s.batch.length = 2 ∧ s.statement.conditions.length = 1 ∧ (renamed compiled "piece").rows[1]? = some r ∧
    (compiled.rootOf r.data).storageKeys.map (·.columnName) = ["id", "serial"] := by
  have checked : ((outline ["Lot", "Piece"]).view?.map fun compiled =>
      (((renamed compiled "piece").plan {} Sample.context).2.toOption.any fun plan =>
        plan.statements.map (fun s => (s.batch.length, s.statement.conditions.length)) == [(2, 1)]) &&
      ((renamed compiled "piece").rows[1]?.any fun r =>
        (compiled.rootOf r.data).storageKeys.map (·.columnName) == ["id", "serial"])) = some true := by
    decide +kernel
  obtain ⟨compiled, found, checked⟩ := Option.map_eq_some_iff.mp checked
  rw [Bool.and_eq_true, Option.any_eq_true, Option.any_eq_true] at checked
  obtain ⟨⟨plan, succeeded, sizes⟩, r, standing, keys⟩ := checked
  rw [beq_iff_eq] at sizes keys
  obtain ⟨s, single, sizes⟩ := List.map_eq_singleton_iff.mp sizes
  obtain ⟨batch, conditions⟩ := Prod.mk.injEq .. ▸ sizes
  exact ⟨compiled, plan, s, r, found, eq_ok_of_toOption succeeded, single, batch, conditions, standing, keys⟩

end Stock

end ViewEngine
