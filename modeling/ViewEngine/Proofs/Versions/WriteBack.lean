import ViewEngine.Proofs.Versions.Planned

/-!
Writing back a changed version, or taking a stored row away, never rewrites history: what was read at an
earlier instant is read at it afterwards, and from the time of the write on the new version is read.
-/

namespace ViewEngine

open Sql Planning

/-- An open version of a row in a table that has the columns of its entity. -/
structure StoredVersion (c : Collation) (e : Entity) (version : VersionColumns) (db : Database)
    (opening : Timestamp) (old : Record) : Prop where
  stores : StoresEntity e (db e.table)
  versions : Versions c e version (db e.table).rows
  member : old ∈ (db e.table).rows
  typed : old.IsTyped e
  isOpen : old.interval? version = some ⟨opening, none⟩

/-- An open version of a row in a table that has the columns of an entity, and maybe more. -/
structure OpenVersion (c : Collation) (e : Entity) (version : VersionColumns) (db : Database)
    (opening : Timestamp) (old : Record) : Prop where
  known : ∀ a ∈ e.scalars, a.columnName ∈ (db e.table).columns
  versions : Versions c e version (db e.table).rows
  member : old ∈ (db e.table).rows
  typed : old.IsTyped e
  isOpen : old.interval? version = some ⟨opening, none⟩

/-- The version that an edit makes of a row: new where the node was changed, and as before elsewhere. -/
structure Record.IsNextVersion (e : Entity) (version : VersionColumns) (now : Timestamp) (r : ViewRow)
    (node : String) (data : Row) (old next : Record) : Prop where
  opening : next version.opening.columnName = .timestamp now
  written : ∀ a ∈ e.scalars, a.property ∈ r.changedAt node →
    next a.columnName = a.columnType.coerce ((data.get? a.property).getD .null)
  carried : ∀ a ∈ e.scalars, a ≠ version.opening → a.property ∉ r.changedAt node →
    next a.columnName = old a.columnName

/-- A database in which only the rows of one table have changed, and its history is kept. -/
structure WritesVersion (c : Collation) (e : Entity) (version : VersionColumns) (now : Timestamp)
    (old : Record) (next : Option Record) (before after : Database) : Prop where
  keeps : Keeps c e version now old next (before e.table).rows (after e.table).rows
  columns : (after e.table).columns = (before e.table).columns
  others : ∀ table ≠ e.table, after table = before table

section WriteBack

variable {c : Collation} {e : Entity} {version : VersionColumns} {db : Database}
  {opening now : Timestamp} {old : Record}

theorem StoredVersion.openVersion (stored : StoredVersion c e version db opening old) :
    OpenVersion c e version db opening old :=
  ⟨fun _ => stored.stores.mem, stored.versions, stored.member, stored.typed, stored.isOpen⟩

/-- The statement that ends an open version changes the row of this version alone. -/
theorem OpenVersion.execute?_closing (versioned : e.IsVersioned version) (hasColumns : e.HasColumns)
    (stored : OpenVersion c e version db opening old) (now : Timestamp) :
    ∃ before after, (db e.table).rows = before ++ old :: after ∧
      (closing e version.closing.columnName now (keysOf e old)).1.execute? c
          (closing e version.closing.columnName now (keysOf e old)).2 db =
        some (Function.update db e.table { db e.table with
          rows := Versions.succeeded version now before after old none }, 1) := by
  have isOpen : old.IsOpen c e version opening := isOpen_of_typed stored.typed stored.isOpen
  obtain ⟨before, after, rows⟩ := List.append_of_mem stored.member
  have distinct := closingParameters_distinct versioned hasColumns (keysOf_attributes e old) now
  have binds := bindsKeys versioned hasColumns stored.typed distinct fun _ => List.mem_cons_of_mem _
  have nowBound : .now now ∈ (.now now :: keyParameters (keysOf e old) : List BoundParameter) :=
    List.mem_cons_self ..
  rw [closing_eq, keysOf_attributes]
  exact ⟨before, after, rows, closeStatement_execute?_open versioned hasColumns stored.known rows
    (rows ▸ stored.versions) isOpen binds (List.mem_map_of_mem nowBound)
    (BoundParameter.valueOf_of_mem distinct nowBound)⟩

theorem OpenVersion.endVersion (versioned : e.IsVersioned version) (hasColumns : e.HasColumns)
    (stored : OpenVersion c e version db opening old) (later : opening < now) :
    ∃ done, (closing e version.closing.columnName now (keysOf e old)).1.execute? c
        (closing e version.closing.columnName now (keysOf e old)).2 db = some (done, 1) ∧
      WritesVersion c e version now old none db done := by
  obtain ⟨before, after, rows, closed⟩ := stored.execute?_closing versioned hasColumns now
  refine ⟨_, closed, ?_, ?_, ?_⟩
  · rw [Function.update_self, rows]
    exact Keeps.of_succeeded versioned hasColumns (Record.opening_ne_closing stored.isOpen) (rows ▸ stored.versions)
      (isOpen_of_typed stored.typed stored.isOpen) later (by simp)
  · simp only [Function.update_self]
  · exact fun table other => Function.update_of_ne other _ _

/-- Ending a stored version and starting the next one, for any columns that are written. -/
theorem OpenVersion.succeed (versioned : e.IsVersioned version) (hasColumns : e.HasColumns)
    (stored : OpenVersion c e version db opening old) (later : opening < now)
    (data : Row) {columns : List Attribute} (written : AreWritten e columns) :
    ∃ ended done, (closing e version.closing.columnName now (keysOf e old)).1.execute? c
        (closing e version.closing.columnName now (keysOf e old)).2 db = some (ended, 1) ∧
      (successor e version.opening.columnName columns (keysOf e old)).execute? c
        (successorParameters columns data now (keysOf e old)) ended = some (done, 1) ∧
      WritesVersion c e version now old
        (some (succeeding c e version.opening.columnName columns
          (successorParameters columns data now (keysOf e old)) (old.ended version now))) db done := by
  have different := Record.opening_ne_closing stored.isOpen
  have isOpen : old.IsOpen c e version opening := isOpen_of_typed stored.typed stored.isOpen
  obtain ⟨before, after, rows, closed⟩ := stored.execute?_closing versioned hasColumns now
  have versions := rows ▸ stored.versions
  have keyed := keysOf_attributes e old
  have binds : BindsKeys e old (successorParameters columns data now (keysOf e old)) :=
    bindsKeys versioned hasColumns stored.typed
      (successorParameters_distinct versioned hasColumns written keyed) fun _ => List.mem_append_right _
  refine ⟨_, _, closed, successor_execute?_ended versioned hasColumns different written ?_ ?_ versions isOpen
    keyed binds, ?_, ?_, ?_⟩
  · rw [Function.update_self]
    exact stored.known
  · rw [Function.update_self]
  · rw [Function.update_self, rows]
    refine Keeps.of_succeeded versioned hasColumns different versions isOpen later ?_
    rintro record ⟨⟩
    exact succeeding_succeeds versioned hasColumns different written keyed
  · simp only [Function.update_self]
  · intro table other
    rw [Function.update_of_ne other, Function.update_of_ne other]

theorem succeeding_isNextVersion (versioned : e.IsVersioned version) (hasColumns : e.HasColumns)
    {r : ViewRow} {node : String} {data : Row} {columns : List Attribute}
    {keys : List (Attribute × Value)} (typed : old.IsTyped e)
    (isOpen : old.interval? version = some ⟨opening, none⟩) (edits : r.EditsRecord e node data old)
    (written : AreWritten e columns) (keyed : keys.map Prod.fst = e.storageKeys)
    (changed : ∀ a ∈ e.attributes, a.property ∈ r.changedAt node → a ∈ columns)
    (linked : ∀ a ∈ columns, a.property ∉ r.changedAt node → (data.get? a.property).isSome = true) :
    Record.IsNextVersion e version now r node data old
      (succeeding c e version.opening.columnName columns (successorParameters columns data now keys)
        (old.ended version now)) where
  opening := succeeding_opening versioned hasColumns written keyed
  written a scalar edited := succeeding_written versioned hasColumns written keyed
    (changed a (Entity.mem_attributes_of_scalar scalar) edited)
  carried a scalar notOpening unedited := by
    have different := Record.opening_ne_closing isOpen
    by_cases isClosing : a = version.closing
    · rw [isClosing, succeeding_closing versioned hasColumns written fun same => different (same ▸ rfl),
        (Record.interval?_eq_open_iff.mp isOpen).2]
    · have kept : old.ended version now a.columnName = old a.columnName :=
        Function.update_of_ne
          (fun same => isClosing (hasColumns.eq_of_columnName scalar versioned.closing same)) _ _
      rcases scalar_cases versioned hasColumns written scalar with carried | new | first | last
      · rw [succeeding_carried versioned hasColumns written carried, kept]
      · obtain ⟨value, held⟩ := Option.isSome_iff_exists.mp (linked a new unedited)
        rw [succeeding_written versioned hasColumns written keyed new, held, Option.getD_some,
          edits.unedited a scalar (written.writable a new) unedited value held, typed.coerced a scalar]
      · exact absurd first notOpening
      · exact absurd last isClosing

/-- Edits of a node end the version that it was read from, and write the next one. -/
theorem OpenVersion.edit (versioned : e.IsVersioned version) (hasColumns : e.HasColumns)
    (stored : OpenVersion c e version db opening old) {v : CompiledView} {context : Context} {r : ViewRow}
    {node : String} {data : Row} (strict : Bool) (row : Nat)
    (entity : v.entityAt? r.data (Path.withoutPositions node) = some e) (edits : r.EditsRecord e node data old)
    (slow : context.fastUpdate = false) (later : opening < context.writeTime) :
    ∃ columns close insert ended done, AreWritten e columns ∧
      nodeWrites v strict context row r node = .ok [close, insert] ∧
      close.statement.execute? c close.parameters db = some (ended, 1) ∧
      insert.statement.execute? c insert.parameters ended = some (done, 1) ∧
      WritesVersion c e version context.writeTime old
        (some (succeeding c e version.opening.columnName columns
          (successorParameters columns data context.writeTime (keysOf e old)) (old.ended version context.writeTime)))
        db done ∧
      Record.IsNextVersion e version context.writeTime r node data old
        (succeeding c e version.opening.columnName columns
          (successorParameters columns data context.writeTime (keysOf e old))
          (old.ended version context.writeTime)) := by
  obtain ⟨columns, planned, written, changed, linked⟩ := nodeWrites_eq strict row versioned hasColumns entity edits
    (storageKeys_known versioned stored.typed stored.isOpen) slow
  obtain ⟨ended, done, closed, inserted, writes⟩ := stored.succeed versioned hasColumns later data written
  exact ⟨columns, _, _, ended, done, written, planned.trans (versionWrites_eq versioned), closed, inserted, writes,
    succeeding_isNextVersion versioned hasColumns stored.typed stored.isOpen edits written (keysOf_attributes e old)
      changed linked⟩

theorem removalWrite_eq (versioned : e.IsVersioned version) {v : CompiledView} {context : Context}
    {row : Nat} {data : Row} (entity : v.rootOf data = e)
    (keys : ∀ a ∈ e.storageKeys, data.get? a.property = some (old a.columnName))
    (known : ∀ a ∈ e.storageKeys, (old a.columnName).isNull = false) :
    removalWrite v context row data = .ok
      { path := "", batch := some ⟨"", .close, []⟩, requiresMatch := true
        statement := (closing e version.closing.columnName context.writeTime (keysOf e old)).1
        parameters := (closing e version.closing.columnName context.writeTime (keysOf e old)).2 } := by
  simp only [removalWrite, entity, keyValues_ok keys known, versioned.declared, Option.bind_some,
    Attribute.column_of_scalar versioned.closing, bind, Except.bind]
  rfl

/-- Any edits of a node that was read from an open version end it and start its next version; and taking
the row away ends it. Either way history is kept. -/
theorem writes_keep_history (versioned : e.IsVersioned version) (hasColumns : e.HasColumns)
    (stored : StoredVersion c e version db opening old) :
    (∀ (v : CompiledView) (strict : Bool) (context : Context) (row : Nat) (r : ViewRow) (node : String)
        (data : Row), v.entityAt? r.data (Path.withoutPositions node) = some e →
      r.EditsRecord e node data old → context.fastUpdate = false → opening < context.writeTime →
      ∃ close insert ended done next,
        nodeWrites v strict context row r node = .ok [close, insert] ∧
        close.statement.execute? c close.parameters db = some (ended, 1) ∧
        insert.statement.execute? c insert.parameters ended = some (done, 1) ∧
        WritesVersion c e version context.writeTime old (some next) db done ∧
        Record.IsNextVersion e version context.writeTime r node data old next) ∧
    (∀ (v : CompiledView) (context : Context) (row : Nat) (data : Row), v.rootOf data = e →
      (∀ a ∈ e.storageKeys, data.get? a.property = some (old a.columnName)) →
      opening < context.writeTime →
      ∃ close done, removalWrite v context row data = .ok close ∧
        close.statement.execute? c close.parameters db = some (done, 1) ∧
        WritesVersion c e version context.writeTime old none db done) := by
  constructor
  · intro v strict context row r node data entity edits slow later
    obtain ⟨_, close, insert, ended, done, -, writes⟩ :=
      stored.openVersion.edit versioned hasColumns strict row entity edits slow later
    exact ⟨close, insert, ended, done, _, writes⟩
  · intro v context row data entity keys later
    obtain ⟨done, closed, writes⟩ := stored.openVersion.endVersion versioned hasColumns later
    have known := storageKeys_known versioned stored.typed stored.isOpen
    exact ⟨_, done, removalWrite_eq versioned entity keys known, closed, writes⟩

end WriteBack

namespace Price

def column (property : String) (type : ColumnType) (primaryKey : Bool) : Attribute where
  id := ⟨"Price", property⟩
  column := some property
  valueType := type.valueType
  columnType := type
  primaryKey := primaryKey
  nullable := !primaryKey

def versions : VersionColumns :=
  ⟨column "validFrom" .timestamp true, column "validTo" .timestamp false⟩

def entity : Entity where
  name := "Price"
  table := "price"
  parent := none
  attributes := [column "id" .integer true, column "validFrom" .timestamp true,
    column "validTo" .timestamp false, column "amount" .integer false]
  discriminator := none
  version := some versions

theorem validMidnight : ValidTime 0 0 0 0 := by
  decide

def newYear (year : Int) (valid : ValidDate year 1 1) : Timestamp :=
  ⟨year, 1, 1, 0, 0, 0, 0, valid, validMidnight⟩

def record (opening closing : Value) (amount : Int64) : Record :=
  Record.missing.assign
    [("id", .int 1), ("validFrom", opening), ("validTo", closing), ("amount", .int amount)]

def current : Record :=
  record (.timestamp (newYear 2024 (by decide))) .null 20

def database : Database := fun table =>
  if table = "price" then
    { columns := ["id", "validFrom", "validTo", "amount"]
      rows := [
        record (.timestamp (newYear 2023 (by decide))) (.timestamp (newYear 2024 (by decide))) 10,
        current] }
  else ⟨[], []⟩

def view : CompiledView where
  root := entity
  otherRoots := []
  primary := Statement.select
  columns := []
  subSelects := []
  joinPlan := {}
  rootKeyAlias := "rootKey"
  rootKeyType := .integer
  dialect := .sqlite

def edited : ViewRow where
  data := [("amount", .int 30), ("id", .int 1),
    ("validFrom", .timestamp (newYear 2024 (by decide)))]
  changed := ["amount"]

def context : Context where
  clock := newYear 2025 (by decide)

theorem isVersioned : entity.IsVersioned versions where
  declared := rfl
  opening := by decide
  closing := by decide
  openingTemporal := rfl
  closingTemporal := rfl

theorem hasColumns : entity.HasColumns where
  properties := by decide
  keys := by decide
  names := by decide +kernel

theorem storedVersion :
    StoredVersion .standard entity versions database (newYear 2024 (by decide)) current where
  stores column := by rfl
  versions := {
    dated := by
      rintro record (_ | ⟨_, _ | ⟨_, ⟨⟩⟩⟩)
      · refine ⟨_, rfl, newYear 2023 (by decide), le_refl _, ?_⟩
        rintro closing ⟨⟩
        decide
      · exact ⟨_, rfl, Interval.nonempty_open _⟩
    apart := by
      refine List.pairwise_pair.mpr fun _ i j first second => ?_
      cases first
      cases second
      exact Interval.disjoint_ended_open _ _ }
  member := List.mem_cons_of_mem _ (List.mem_singleton_self _)
  typed := {
    coerced := by rintro a (_ | ⟨_, _ | ⟨_, _ | ⟨_, _ | ⟨_, ⟨⟩⟩⟩⟩⟩) <;> rfl
    keyed := by
      rintro a (_ | ⟨_, ⟨⟩⟩)
      exact ⟨rfl, rfl⟩ }
  isOpen := rfl

theorem edits : edited.EditsRecord entity "" edited.data current where
  standing := rfl
  keys := by rintro a (_ | ⟨_, _ | ⟨_, ⟨⟩⟩⟩) <;> rfl
  edited := by decide
  writable := by
    rintro property (_ | ⟨_, ⟨⟩⟩)
    exact ⟨column "amount" .integer false, by decide, rfl, rfl⟩
  unedited := by
    rintro a (_ | ⟨_, _ | ⟨_, _ | ⟨_, _ | ⟨_, ⟨⟩⟩⟩⟩⟩) writable unchanged
    iterate 3 exact absurd writable (by decide)
    exact absurd (by decide) unchanged

theorem keeps_history :
    (∃ close insert ended done next,
      nodeWrites view true context 0 edited "" = .ok [close, insert] ∧
      close.statement.execute? .standard close.parameters database = some (ended, 1) ∧
      insert.statement.execute? .standard insert.parameters ended = some (done, 1) ∧
      WritesVersion .standard entity versions context.writeTime current (some next) database done ∧
      Record.IsNextVersion entity versions context.writeTime edited "" edited.data current next) ∧
    ∃ close done, removalWrite view context 0 edited.data = .ok close ∧
      close.statement.execute? .standard close.parameters database = some (done, 1) ∧
      WritesVersion .standard entity versions context.writeTime current none database done := by
  obtain ⟨writes, removes⟩ := writes_keep_history isVersioned hasColumns storedVersion
  exact ⟨writes view true context 0 edited "" edited.data rfl edits rfl (by decide),
    removes view context 0 edited.data rfl edits.keys (by decide)⟩

end Price

end ViewEngine
