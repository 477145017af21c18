import ViewEngine.Proofs.Except
import ViewEngine.Schema.Reading
import ViewEngine.View.Compile

/-!
Views in outline: the entities that there are, and what is asked for from some of them on.
-/

namespace ViewEngine

/-- A property that is asked for at a path, with a predicate or without. -/
structure Request where
  path : String
  predicate : Option Predicate := none

def FilterTree.request (registry : Registry) : List Request → FilterTree → Except ViewError FilterTree
  | [], t => .ok t
  | q :: rest, t =>
    match t.addPath registry q.path q.predicate with
    | (further, .ok _) => request registry rest further
    | (_, .error cause) => .error cause

/-- Properties that lead from an entity to what a node of its own asks for. That may be a count, and have a name. -/
structure Chain where
  start : String
  properties : List String
  isCounted : Bool := false
  name : Option String := none

/-- A view in outline. The entities are those that are declared, unless they are registered in another way. -/
structure Outline where
  definitions : List EntityDefinition
  registry : Option Registry := (Registry.ofDefinitions definitions).toOption
  roots : List String
  requests : List Request := []
  chains : List Chain := []
  settings : ViewSettings := {}
  pointInTime : Option Timestamp := none

namespace Outline

def column (property column : String) (type : ColumnType) (primaryKey : Bool) : AttributeDefinition :=
  ⟨property, some column, none, type, primaryKey, !primaryKey, false, none⟩

def builtColumn (owner property column : String) (type : ColumnType) (primaryKey : Bool) : Attribute :=
  { Attribute.ofColumn property (some column) type with
    id := ⟨owner, property⟩, primaryKey := primaryKey, nullable := !primaryKey }

def association (property target table source joined : String) (collection : Bool) : AttributeDefinition :=
  ⟨property, none, none, .varchar, false, true, false, some ⟨target, table, [⟨source, joined⟩], collection⟩⟩

def entity (name table : String) (attributes : List AttributeDefinition) : EntityDefinition :=
  ⟨name, some table, none, none, none, attributes⟩

/-- An entity of the table of another one, from which a value of its kind tells it apart. -/
def kind (name parent value : String) (attributes : List AttributeDefinition) : EntityDefinition :=
  ⟨name, none, some parent, some ("kind", .text value), none, attributes⟩

def asks (start : String) (properties : List String) : Chain where
  start := start
  properties := properties

def counts (start : String) (properties : List String) : Chain where
  start := start
  properties := properties
  isCounted := true

end Outline

def Chain.nodeFrom? (c : Chain) (registry : Registry) (e : Entity) : List String → Option FilterNode
  | [] => none
  | [last] => do
    let a ← e.property? last
    let node ← if c.isCounted then (FilterNode.aggregate a .count).toOption else some (.project a)
    return { node with item := { node.item with outputName := c.name } }
  | property :: rest => do
    let a ← e.property? property
    let target ← (registry.targetOf a).toOption
    ((FilterNode.project a).addChild registry (← c.nodeFrom? registry target rest)).toOption

def Chain.node? (c : Chain) (registry : Registry) : Option FilterNode := do
  c.nodeFrom? registry (← (registry.entity c.start).toOption) c.properties

namespace Outline

variable {o : Outline} {registry : Registry} {t : FilterTree} {v : CompiledView}

def tree? (o : Outline) (registry : Registry) : Option FilterTree := do
  let start ← (FilterTree.ofNames registry o.roots).toOption
  let asked ← (start.request registry o.requests).toOption
  o.chains.foldlM (fun t chain => do (t.add (← chain.node? registry)).toOption) asked

def compiled? (o : Outline) : Option (Registry × FilterTree × CompiledView) := do
  let registry ← o.registry
  let tree ← o.tree? registry
  return (registry, tree, ← (compile registry o.settings .sqlite o.pointInTime {} tree).toOption)

def view? (o : Outline) : Option CompiledView :=
  o.compiled?.map (·.2.2)

theorem compiled_eq (found : o.compiled? = some (registry, t, v)) : o.registry = some registry ∧
    o.tree? registry = some t ∧ compile registry o.settings .sqlite o.pointInTime {} t = .ok v := by
  obtain ⟨registry, read, found⟩ := Option.bind_eq_some_iff.mp found
  obtain ⟨t, tree, found⟩ := Option.bind_eq_some_iff.mp found
  obtain ⟨v, compiled, found⟩ := Option.bind_eq_some_iff.mp found
  cases found
  exact ⟨read, tree, eq_ok_of_toOption compiled⟩

theorem declared_eq (found : o.compiled? = some (registry, t, v))
    (declared : o.registry = (Registry.ofDefinitions o.definitions).toOption) :
    Registry.ofDefinitions o.definitions = .ok registry :=
  eq_ok_of_toOption (declared.symm.trans (compiled_eq found).1)

/-- Without chains, the tree asks for what is requested, one after the other. -/
theorem request_eq (made : o.tree? registry = some t) (plain : o.chains = []) :
    ∃ start, FilterTree.ofNames registry o.roots = .ok start ∧ start.request registry o.requests = .ok t := by
  obtain ⟨start, rooted, made⟩ := Option.bind_eq_some_iff.mp made
  obtain ⟨asked, requested, made⟩ := Option.bind_eq_some_iff.mp made
  rw [plain] at made
  cases made
  exact ⟨start, eq_ok_of_toOption rooted, eq_ok_of_toOption requested⟩

end Outline

end ViewEngine
