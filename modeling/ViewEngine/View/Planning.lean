import ViewEngine.Settings.Basic
import ViewEngine.View.Context
import ViewEngine.View.Propagation

/-!
Planning the writes of a changed view. Each changed node of a stored row becomes an update of its row,
or where rows are versions, the end of one version and the start of the next. New root rows are
inserted, and removed ones deleted or ended.
-/

namespace ViewEngine

open Sql

def CompiledView.rootOf (v : CompiledView) (row : Row) : Entity :=
  let matching := v.roots.find? fun e => e.discriminator.any fun d =>
    (row.get? d.subject.property).any fun value =>
      (d.subject.columnType.coerce value).equal d.value
  matching.getD v.root

namespace Planning

def storedColumn (a : Attribute) : Expr :=
  .unqualified a.columnName

def keyValues (e : Entity) (data : Row) (path : String) (row : Nat) :
    Except ViewError (List (Attribute × Value)) :=
  e.storageKeys.mapM fun a =>
    match data.get? a.property with
    | none | some .null =>
      .error (.missingKey (if path.isEmpty then e.name else path) row (a.column.getD a.property))
    | some value => .ok (a, value)

def pinned (s : Statement) (keys : List (Attribute × Value)) : Statement :=
  keys.foldl (fun s (a, _) =>
    s.filter (.equals (storedColumn a) (.parameter (BoundParameter.keyName a.columnName)))) s

def keyParameters (keys : List (Attribute × Value)) : List BoundParameter :=
  keys.map fun (a, value) => .of (BoundParameter.keyName a.columnName) value a.columnType

def valueParameter (a : Attribute) (value : Value) : BoundParameter :=
  .of (BoundParameter.valueName a.columnName) value a.columnType

def valueParameters (columns : List Attribute) (data : Row) : List BoundParameter :=
  columns.map fun a => valueParameter a ((data.get? a.property).getD .null)

def placeholder (a : Attribute) : Expr :=
  .parameter (BoundParameter.valueName a.columnName)

def nowPlaceholder : Expr :=
  .parameter BoundParameter.nowName

def closing (e : Entity) (column : String) (now : Timestamp) (keys : List (Attribute × Value)) :
    Statement × List BoundParameter :=
  ((pinned ((Statement.updateOf e.table).assign column nowPlaceholder) keys).filter
      (.isNull (.unqualified column)),
    .now now :: keyParameters keys)

def changedColumns (strict : Bool) (e : Entity) (path : String) :
    List String → List Attribute → Except ViewError (List Attribute)
  | [], columns => .ok columns
  | property :: rest, columns =>
    match e.property? property with
    | none => do
      reportUnresolved strict path property
      changedColumns strict e path rest columns
    | some a =>
      changedColumns strict e path rest (if e.isWritable a then a.addTo columns else columns)

def linkColumns (plan : JoinPlan) (e : Entity) (path : String) (link : Option JoinEntry) :
    List Attribute :=
  let above := link.toList.flatMap fun entry => entry.subject.joinColumns.map (·.target)
  let below := (plan.entries.filter fun entry => Path.node entry.path == path).flatMap fun entry =>
    entry.subject.joinColumns.map (·.source)
  ((above ++ below).filterMap e.column?).filter e.isWritable

def columnNames (columns : List Attribute) : List String :=
  columns.filterMap (·.column)

def updateWrite (e : Entity) (path : String) (data : Row) (columns : List Attribute)
    (keys : List (Attribute × Value)) : Write where
  path := path
  statement := pinned (columns.foldl (fun s a => s.assign a.columnName (placeholder a))
    (.updateOf e.table)) keys
  parameters := valueParameters columns data ++ keyParameters keys
  batch := some ⟨path, .update, columnNames columns⟩

/-- The columns that the next version of a row has from the one before: the identity, and all that
can be written and is not. -/
def carriedColumns (e : Entity) (columns : List Attribute) : List String :=
  columnNames e.identityKeys ++
    columnNames (e.scalars.filter fun a => e.isWritable a && !columns.any (·.id == a.id))

def successor (e : Entity) (opening : String) (columns : List Attribute)
    (keys : List (Attribute × Value)) : Statement :=
  let selected := (carriedColumns e columns).map (fun column => (column, Expr.unqualified column)) ++
    columns.map (fun a => (a.columnName, placeholder a)) ++ [(opening, nowPlaceholder)]
  let source := selected.foldl (fun s (_, expr) => s.addColumn expr none)
    (Statement.select.addTable e.table none)
  let target := selected.foldl (fun s (column, _) => s.addInsertColumn column)
    (Statement.insertInto e.table)
  { target with source := some (pinned source keys) }

def versionWrites (e : Entity) (version : VersionColumns) (now : Timestamp) (row : Nat)
    (node path : String) (data : Row) (columns : List Attribute) (keys : List (Attribute × Value)) :
    Except ViewError (List Write) :=
  match version.opening.column, version.closing.column with
  | some opening, some closingColumn =>
    let (close, parameters) := closing e closingColumn now keys
    .ok [
      { path, statement := close, parameters, requiresMatch := true },
      { path
        statement := successor e opening columns keys
        parameters := valueParameters columns data ++ [.now now] ++ keyParameters keys
        reopens := some ⟨row, node, version.opening.property⟩ }]
  | _, _ => .error (.schema (.versionWithoutColumn e.name))

def nodeWrites (v : CompiledView) (strict : Bool) (c : Context) (row : Nat) (r : ViewRow)
    (node : String) : Except ViewError (List Write) := do
  let path := Path.withoutPositions node
  let link := if path.isEmpty then none else v.joinPlan.atPath? path
  let e := (link.map (·.entity)).getD (v.rootOf r.data)
  if !path.isEmpty && link.isNone then
    reportUnresolved strict path node
    return []
  match ← r.data.nodeAt node with
  | none => return []
  | some data =>
    let properties := Names.ofList ((r.changed.filter (Path.node · == node)).map Path.property)
    let changed ← changedColumns strict e path properties []
    if changed.isEmpty then return []
    let links := (linkColumns v.joinPlan e path link).filter (data.contains ·.property)
    let columns := links.foldl (fun columns a => a.addTo columns) changed
    let keys ← keyValues e data path row
    match e.version, c.fastUpdate with
    | some version, false => versionWrites e version c.writeTime row node path data columns keys
    | _, _ => return [updateWrite e path data columns keys]

/-- The columns of a new row and their values. Nested rows and lists are not stored with it. -/
def insertedValues (v : CompiledView) (strict : Bool) (e : Entity) :
    List (String × Value) → Except ViewError (List (Attribute × Value))
  | [] => .ok []
  | (_, .row _) :: rest | (_, .list _) :: rest => insertedValues v strict e rest
  | (property, value) :: rest =>
    if property == newRowMark || property == v.rootKeyAlias then insertedValues v strict e rest
    else
      match e.property? property with
      | none => do
        reportUnresolved strict "" property
        insertedValues v strict e rest
      | some a => do
        let values ← insertedValues v strict e rest
        let stored := a.column.isSome && !a.isAssociation && !e.isVersionAttribute a
        return if stored then (a, value) :: values else values

def insertWrites (v : CompiledView) (strict : Bool) (c : Context) (row : Nat) (data : Row) :
    Except ViewError (List Write) := do
  let e := v.rootOf data
  let given ← insertedValues v strict e data
  let discriminator := (e.discriminator.toList.filter fun d => !given.any (·.1.id == d.subject.id)).map
    fun d => (d.subject, d.value)
  let opening := e.version.toList.map fun version =>
    (version.opening, Value.timestamp c.writeTime)
  let values := given ++ discriminator ++ opening
  if values.isEmpty then return []
  return [{
    path := ""
    statement := values.foldl (fun s (a, _) => s.insertValue a.columnName (placeholder a))
      (.insertInto e.table)
    parameters := values.map fun (a, value) => valueParameter a value
    batch := some ⟨"", .insert, columnNames (values.map Prod.fst)⟩
    reopens := e.version.map fun version => ⟨row, "", version.opening.property⟩ }]

def removalWrite (v : CompiledView) (c : Context) (row : Nat) (data : Row) :
    Except ViewError Write := do
  let e := v.rootOf data
  let keys ← keyValues e data "" row
  match e.version.bind (·.closing.column) with
  | some column =>
    let (statement, parameters) := closing e column c.writeTime keys
    return { path := "", statement, parameters, batch := some ⟨"", .close, []⟩, requiresMatch := true }
  | none =>
    return {
      path := ""
      statement := pinned (.deleteFrom e.table) keys
      parameters := keyParameters keys
      batch := some ⟨"", .delete, []⟩ }

def rowWrites (v : CompiledView) (strict : Bool) (c : Context) (row : Nat) (r : ViewRow) :
    Except ViewError (List Write) :=
  if r.isNew then insertWrites v strict c row r.data
  else
    ((Names.ofList (r.changed.map Path.node)).mapM (nodeWrites v strict c row r)).map List.flatten

end Planning

namespace View

def writes (v : View) (strict : Bool) (c : Context) : Except ViewError (List Write) := do
  let stored ← v.rows.zipIdx.mapM fun (r, row) => Planning.rowWrites v.compiled strict c row r
  let removals ← v.removed.zipIdx.mapM fun (data, row) => Planning.removalWrite v.compiled c row data
  return stored.flatten ++ removals

/-- Takes changed keys over into neighbouring nodes, and plans the writes of all changes. The keys
stay where they were taken over even if planning fails. -/
def plan (v : View) (settings : ViewSettings) (c : Context) : View × Except ViewError WritePlan :=
  let strict := settings.strictWriteBack
  match ViewRow.propagateAll strict v.compiled.joinPlan v.rows with
  | (rows, .error e) => ({ v with rows := rows }, .error e)
  | (rows, .ok ()) =>
    let v := { v with rows := rows }
    (v, (v.writes strict c).map (WritePlan.ofWrites c.writeTime))

end View

end ViewEngine
