import ViewEngine.Filter.Definition
import ViewEngine.Settings.Basic
import ViewEngine.View.Compiled
import ViewEngine.View.Constraint
import ViewEngine.View.Path

/-!
Compiling a filter tree. Associations to one row become outer joins, each made once for its path.
Collections are never joined to the root rows: each gets a statement of its own, which repeats the
joins that lead to it, and which the walk over the tree only puts down for later.
-/

namespace ViewEngine

open Sql

namespace Compile

structure Setting where
  registry : Registry
  pointInTime : Option Timestamp

structure JoinedCollection where
  path : String
  entity : Entity
  table : Nat

def JoinedCollection.describe (c : JoinedCollection) : EnclosingCollection where
  path := c.path
  keys := c.entity.identityKeys.map (·.property) ++
    (c.entity.version.map (·.opening.property)).toList

structure DeferredCollection where
  path : String
  subject : Attribute
  sourceEntity : Entity
  sourceTable : Nat
  nodes : List FilterNode
  enclosing : List JoinedCollection

/-- A statement in the making, and what is kept beside it: the columns that it selects and the labels
that they take, and what is to be grouped by as soon as one of them is an aggregate. -/
structure Scope where
  statement : Statement
  columns : List ColumnBinding := []
  labels : List String := []
  plain : List Expr := []
  isAggregated : Bool := false
  enclosing : List JoinedCollection := []

namespace Scope

def project (s : Scope) (expr : Expr) (label : String) (subject : Option Attribute)
    (kind : ColumnKind) : Scope :=
  if s.labels.contains label then s
  else
    { s with
      statement := s.statement.addColumn expr (some label)
      columns := s.columns ++ [⟨label, subject, kind⟩]
      labels := label :: s.labels
      plain := if kind = .aggregate then s.plain else s.plain ++ [expr]
      isAggregated := s.isAggregated || kind == .aggregate }

def projectColumn (s : Scope) (a : Attribute) (table : Nat) (path : String) : Scope :=
  match a.column with
  | some column => s.project (.columnOf table column) (Path.child path a.property) (some a) .value
  | none => s

def projectColumns (s : Scope) (attributes : List Attribute) (table : Nat) (path : String) : Scope :=
  attributes.foldl (fun s a => s.projectColumn a table path) s

/-- The columns by which a row is known: its identity keys, and the start of its version. -/
def projectIdentity (s : Scope) (e : Entity) (table : Nat) (path : String) : Scope :=
  let keyed := s.projectColumns e.identityKeys table path
  match e.version with
  | some version => keyed.projectColumn version.opening table path
  | none => keyed

/-- The columns of one side of a join, so that they can be written again; primary keys are left to
the row's identity. -/
def projectJoinSide (s : Scope) (e : Entity) (columns : List String) (table : Nat) (path : String) :
    Scope :=
  s.projectColumns ((columns.filterMap e.column?).filter (!·.primaryKey)) table path

def finish (s : Scope) : Statement :=
  if s.isAggregated then s.plain.foldl Statement.addGrouping s.statement else s.statement

end Scope

/-- The statement at hand, with what all statements of the view share. -/
structure State where
  scope : Scope
  plan : JoinPlan
  /-- The number of the table that is joined next. The root's table has the number zero. -/
  nextTable : Nat
  deferred : List DeferredCollection := []

def joinedTable (a : Attribute) (target : Entity) : String :=
  match a.association with
  | some association => if association.joinTable.isEmpty then target.table else association.joinTable
  | none => target.table

def joinCondition (setting : Setting) (a : Attribute) (target : Entity) (source table : Nat) : Expr :=
  let mapped := a.joinColumns.map fun pair =>
    (Expr.columnOf source pair.source).equals (.columnOf table pair.target)
  let constraints := (target.versionConstraint? setting.pointInTime table).toList ++
    (target.discriminatorConstraint? table).toList
  (Expr.conjunction? (mapped ++ constraints)).getD (.literal (.boolean true))

def State.addJoin (state : State) (join : Join) : State :=
  { state with
    scope := { state.scope with statement := state.scope.statement.addJoin join } }

/-- Joins the target of an association, and yields its table number. A join that is in the plan
already is used again. -/
def State.join (state : State) (setting : Setting) (path : String) (a : Attribute)
    (sourceEntity : Entity) (source : Nat) : Except SchemaError (State × Nat) :=
  match state.plan.find? path a.id with
  | some entry => .ok (state.addJoin entry.join, entry.table)
  | none => do
    let target ← setting.registry.targetOf a
    let table := state.nextTable
    let join : Join :=
      ⟨.leftOuter, ⟨joinedTable a target, some table⟩, joinCondition setting a target source table⟩
    let entry : JoinEntry :=
      { path, subject := a, sourceEntity, entity := target, source, table, join }
    return ({ state.addJoin join with plan := state.plan.add entry, nextTable := table + 1 }, table)

/-- Puts a collection down for later; what several nodes ask of one path is put together. -/
def defer (c : DeferredCollection) : List DeferredCollection → List DeferredCollection
  | [] => [c]
  | other :: rest =>
    if other.path = c.path then { other with nodes := other.nodes ++ c.nodes } :: rest
    else other :: defer c rest

def resolve? (item : FilterItem) (entities : List Entity) : Option (Entity × Attribute) :=
  entities.findSome? fun e =>
    ((e.property? item.subject.property).filter (·.id == item.subject.id)).map fun a => (e, a)

def State.mapScope (state : State) (change : Scope → Scope) : State :=
  { state with scope := change state.scope }

def walkAggregate (setting : Setting) (item : FilterItem) (aggregate : Aggregate) (a : Attribute)
    (e : Entity) (table : Nat) (path : String) (state : State) : Except SchemaError State := do
  let target ← setting.registry.targetOf a
  let (state, joined) ← state.join setting path a e table
  let key := ((target.identityKeys.head?).bind (·.column)).getD ""
  return state.mapScope fun s =>
    s.project (.function aggregate.functionName [.wholeRow joined key])
      (item.outputName.getD path) none .aggregate

def walkCollection (children : List FilterNode) (a : Attribute) (e : Entity) (table : Nat)
    (above path : String) (state : State) : State :=
  let state := state.mapScope fun s =>
    s.projectJoinSide e (a.joinColumns.map (·.source)) table above
  let collection : DeferredCollection :=
    { path, subject := a, sourceEntity := e, sourceTable := table, nodes := children,
      enclosing := state.scope.enclosing }
  { state with deferred := defer collection state.deferred }

def walkColumn (item : FilterItem) (a : Attribute) (table : Nat) (path : String) (state : State) :
    State :=
  match a.column with
  | none => state
  | some column =>
    let expr := Expr.columnOf table column
    state.mapScope fun s =>
      let tested :=
        match item.predicate with
        | some p => s.statement.filter (p.expr a.columnType expr)
        | none => s.statement
      let selected :=
        { s with statement := tested }.project expr (item.outputName.getD path) (some a) .value
      match item.sortAscending with
      | some ascending =>
        let direction := if ascending then Direction.ascending else .descending
        { selected with statement := selected.statement.addOrdering expr direction }
      | none => selected

/-- After the nodes below an association, both of its sides get their keys. -/
def finishAssociation (a : Attribute) (e target : Entity) (table joined : Nat) (above path : String)
    (state : State) : State :=
  state.mapScope fun s =>
    ((s.projectIdentity target joined path).projectJoinSide e (a.joinColumns.map (·.source)) table
      above).projectJoinSide target (a.joinColumns.map (·.target)) joined path

mutual

/-- Goes through the nodes that stand on the rows of a table. A node that applies to none of the
entities is passed over. -/
def walk (setting : Setting) (entities : List Entity) (table : Nat) (above : String) :
    List FilterNode → State → Except SchemaError State
  | [], state => .ok state
  | node :: rest, state => do
    walk setting entities table above rest (← walkNode setting entities table above node state)

def walkNode (setting : Setting) (entities : List Entity) (table : Nat) (above : String) :
    FilterNode → State → Except SchemaError State
  | ⟨item, children⟩, state =>
    match resolve? item entities with
    | none => .ok state
    | some (e, a) =>
      let path := Path.child above a.property
      match item.aggregate with
      | some aggregate => walkAggregate setting item aggregate a e table path state
      | none =>
        if a.isCollection then .ok (walkCollection children a e table above path state)
        else if a.isAssociation then do
          let target ← setting.registry.targetOf a
          let (state, joined) ← state.join setting path a e table
          let state ←
            if children.isEmpty then
              pure (state.mapScope fun s => s.projectColumns target.scalars joined path)
            else walk setting [target] joined path children state
          return finishAssociation a e target table joined above path state
        else .ok (walkColumn item a table path state)

end

structure Root where
  root : Entity
  others : List Entity
  key : Expr
  keyAlias : String
  keyType : ColumnType

def Root.start (r : Root) (enclosing : List JoinedCollection) : Scope :=
  Scope.project { statement := Statement.select.addTable r.root.table (some 0), enclosing := enclosing }
    r.key r.keyAlias none .rootKey

/-- Projects the columns below a node that asks for nothing in particular, or walks on. -/
def walkOrAll (setting : Setting) (target : Entity) (table : Nat) (path : String)
    (nodes : List FilterNode) (state : State) : Except SchemaError State :=
  if nodes.isEmpty then
    .ok (state.mapScope fun s => s.projectColumns target.scalars table path)
  else walk setting [target] table path nodes state

/-- The statement of a collection, and the collections that it defers in turn. -/
def subSelect (setting : Setting) (r : Root) (c : DeferredCollection) (plan : JoinPlan) (next : Nat)
    (deferred : List DeferredCollection) :
    Except SchemaError (SubSelect × JoinPlan × Nat × List DeferredCollection) := do
  let start := r.start c.enclosing
  let chained :=
    { start with statement := (plan.chainTo c.sourceTable).foldl Statement.addJoin start.statement }
  let identified := c.enclosing.foldl (fun s outer =>
    s.projectIdentity outer.entity outer.table outer.path) chained
  let target ← setting.registry.targetOf c.subject
  let (state, table) ←
    State.join ⟨identified, plan, next, deferred⟩ setting c.path c.subject c.sourceEntity c.sourceTable
  let state := state.mapScope fun s =>
    { s with enclosing := s.enclosing ++ [⟨c.path, target, table⟩] }
  let state ← walkOrAll setting target table c.path c.nodes state
  let scope := (state.scope.projectIdentity target table c.path).projectJoinSide target
    (c.subject.joinColumns.map (·.target)) table c.path
  let constrained :=
    { scope with
      statement := r.root.constrainRoot r.others setting.pointInTime scope.statement }
  return ({
    path := c.path
    statement := constrained.finish
    columns := constrained.columns
    enclosing := c.enclosing.map (·.describe)
    rootKey := r.key
    rootKeyType := r.keyType }, state.plan, state.nextTable, state.deferred)

/-- The statements of collections in the order in which they were deferred. -/
def subSelects (setting : Setting) (r : Root) :
    List DeferredCollection → JoinPlan → Nat → List DeferredCollection →
      Except SchemaError (List SubSelect × JoinPlan × Nat × List DeferredCollection)
  | [], plan, next, deferred => .ok ([], plan, next, deferred)
  | c :: rest, plan, next, deferred => do
    let (first, plan, next, deferred) ← subSelect setting r c plan next deferred
    let (others, plan, next, deferred) ← subSelects setting r rest plan next deferred
    return (first :: others, plan, next, deferred)

/-- Rounds over the deferred collections. Each round goes a level further down into the tree, so its
depth is rounds enough. -/
def rounds (setting : Setting) (r : Root) :
    Nat → List DeferredCollection → JoinPlan → Nat → Except SchemaError (List SubSelect × JoinPlan)
  | 0, _, plan, _ => .ok ([], plan)
  | fuel + 1, deferred, plan, next => do
    if deferred.isEmpty then return ([], plan)
    let (found, plan, next, deferred) ← subSelects setting r deferred plan next []
    let (further, plan) ← rounds setting r fuel deferred plan next
    return (found ++ further, plan)

def finishRoot (r : Root) (s : Scope) : Scope :=
  let identified := s.projectIdentity r.root 0 ""
  match r.root.discriminator with
  | some d => identified.projectColumn d.subject 0 ""
  | none => identified

def primary (setting : Setting) (r : Root) (t : FilterTree) : Except SchemaError State := do
  let start := r.start []
  let all := if t.nodes.isEmpty then start.projectColumns r.root.scalars 0 "" else start
  let state ← walk setting t.roots 0 "" t.nodes ⟨all, {}, 1, []⟩
  return state.mapScope fun s =>
    let finished := finishRoot r s
    { finished with
      statement := r.root.constrainRoot r.others setting.pointInTime finished.statement }

end Compile

/-- Compiles a tree into the statements that read it, as of a point in time or of now. -/
def compile (registry : Registry) (settings : ViewSettings) (dialect : Dialect)
    (pointInTime : Option Timestamp) (page : Page) (t : FilterTree) :
    Except SchemaError CompiledView := do
  let setting : Compile.Setting := ⟨registry, pointInTime⟩
  let r : Compile.Root :=
    { root := t.root, others := t.otherRoots, key := t.root.rootKey settings.keyDelimiter,
      keyAlias := settings.rootKeyAlias, keyType := t.root.rootKeyType }
  let state ← Compile.primary setting r t
  let (subSelects, joinPlan) ←
    Compile.rounds setting r (FilterNode.depthOfAll t.nodes + 1) state.deferred state.plan state.nextTable
  return {
    root := t.root
    otherRoots := t.otherRoots
    primary := { state.scope.finish with
      offset := page.offset
      limit := page.limit.or settings.defaultLimit }
    columns := state.scope.columns
    subSelects
    joinPlan
    rootKeyAlias := settings.rootKeyAlias
    rootKeyType := r.keyType
    dialect }

end ViewEngine
