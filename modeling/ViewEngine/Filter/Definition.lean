import ViewEngine.Filter.Tree
import ViewEngine.Toml.Reading

namespace ViewEngine

open Toml Toml.Document

/-- The rows that are asked for; what is not given is not limited. -/
structure Page where
  offset : Option UInt64 := none
  limit : Option UInt64 := none
deriving DecidableEq, Inhabited

structure FilterDefinition where
  path : String
  operator : Option FilterOperator
  value : Option Value
  rangeEnd : Option Value
  aggregate : Option Aggregate
  outputName : Option String
  sortAscending : Option Bool

structure ViewDefinition where
  entity : Option String
  entities : List String
  page : Page
  filters : List FilterDefinition

namespace FilterDefinition

def ofDocument? (document : Document) : Option FilterDefinition := do
  let fields ← document.record?
    ["path", "operator", "value", "range_end", "aggregate", "output_name", "sort_ascending"]
  let path ← required fields "path" string?
  let operator ← optional fields "operator" fun d => d.name?.bind FilterOperator.ofName?
  let value ← optional fields "value" value?
  let rangeEnd ← optional fields "range_end" value?
  let aggregate ← optional fields "aggregate" fun d => d.name?.bind Aggregate.ofName?
  let outputName ← optional fields "output_name" string?
  let sortAscending ← optional fields "sort_ascending" boolean?
  some { path, operator, value, rangeEnd, aggregate, outputName, sortAscending }

/-- Operands beyond those that the operator takes are left out, but for a range each is checked. -/
def predicate (d : FilterDefinition) : Except CompositionError (Option Predicate) :=
  match d.operator with
  | none => .ok none
  | some operator =>
    let value := d.value.getD .null
    some <$>
      match operator.arity, d.rangeEnd with
      | 0, _ => Predicate.unary operator
      | 2, some high => Predicate.between value high
      | 2, none => .error (.missingRangeEnd d.path)
      | _, _ => Predicate.of operator value

def addTo (d : FilterDefinition) (registry : Registry) (t : FilterTree) :
    Except ViewError FilterTree := do
  let predicate ← d.predicate.mapError .composition
  let (t, address) := t.addPath registry d.path predicate
  let (t, decorated) := t.decorate (← address) d.aggregate d.outputName d.sortAscending
  decorated.mapError .composition
  return t

end FilterDefinition

namespace ViewDefinition

def ofDocument? (document : Document) : Option ViewDefinition := do
  let fields ← document.record? ["entity", "entities", "offset", "limit", "filter"]
  let entity ← optional fields "entity" string?
  let entities ← withDefault fields "entities" (list? string?) []
  let offset ← optional fields "offset" count?
  let limit ← optional fields "limit" count?
  let filters ← withDefault fields "filter" (list? FilterDefinition.ofDocument?) []
  some { entity, entities, page := { offset, limit }, filters }

def ofDocument (document : Document) : Except SchemaError ViewDefinition :=
  match ofDocument? document with
  | some definition => .ok definition
  | none => .error .malformedView

def ofText (text : String) : Except SchemaError ViewDefinition :=
  match Toml.read? text with
  | some document => ofDocument document
  | none => .error .malformedView

def rootNames (d : ViewDefinition) : List String :=
  d.entity.toList ++ d.entities

def tree (d : ViewDefinition) (registry : Registry) : Except ViewError FilterTree := do
  let t ← (FilterTree.ofNames registry d.rootNames).mapError .schema
  d.filters.foldlM (fun t filter => filter.addTo registry t) t

end ViewDefinition

end ViewEngine
