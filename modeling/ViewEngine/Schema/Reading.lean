import ViewEngine.Schema.Registry
import ViewEngine.Toml.Reading

namespace ViewEngine

open Toml Toml.Document

structure AttributeDefinition where
  property : String
  column : Option String
  valueType : Option String
  columnType : ColumnType
  primaryKey : Bool
  nullable : Bool
  dictionary : Bool
  association : Option Association

structure EntityDefinition where
  name : String
  table : Option String
  parent : Option String
  discriminator : Option (String × Value)
  version : Option (String × String)
  attributes : List AttributeDefinition

namespace JoinColumn

def ofDocument? (document : Document) : Option JoinColumn := do
  let fields ← document.record? ["local", "target"]
  some ⟨← required fields "local" string?, ← required fields "target" string?⟩

end JoinColumn

namespace Association

def ofDocument? (document : Document) : Option Association := do
  let fields ← document.record? ["target", "join_table", "join_columns", "collection"]
  let target ← required fields "target" string?
  let joinTable ← required fields "join_table" string?
  let joinColumns ← required fields "join_columns" (list? JoinColumn.ofDocument?)
  let collection ← withDefault fields "collection" boolean? false
  some { target, joinTable, joinColumns, collection }

end Association

namespace AttributeDefinition

def ofDocument? (document : Document) : Option AttributeDefinition := do
  let fields ← document.record?
    ["property", "column", "value_type", "jdbc_type", "primary_key", "nullable", "dictionary",
      "association"]
  let property ← required fields "property" string?
  let column ← optional fields "column" string?
  let valueType ← optional fields "value_type" string?
  let columnType ←
    withDefault fields "jdbc_type" (fun d => d.name?.bind ColumnType.ofName?) .varchar
  let primaryKey ← withDefault fields "primary_key" boolean? false
  let nullable ← withDefault fields "nullable" boolean? true
  let dictionary ← withDefault fields "dictionary" boolean? false
  let association ← optional fields "association" Association.ofDocument?
  some { property, column, valueType, columnType, primaryKey, nullable, dictionary, association }

def base (d : AttributeDefinition) (entity : String) : Except SchemaError Attribute :=
  match d.association, d.column with
  | some association, _ => .ok (.ofAssociation d.property association)
  | none, some column => .ok (.ofColumn d.property (some column) d.columnType)
  | none, none => .error (.neitherColumnNorAssociation entity d.property)

def build (d : AttributeDefinition) (entity : String) : Except SchemaError Attribute := do
  let base ← d.base entity
  return { base with
    valueType := d.valueType.getD base.valueType
    primaryKey := d.primaryKey
    nullable := d.nullable && !d.primaryKey
    dictionary := d.dictionary }

end AttributeDefinition

namespace EntityDefinition

def discriminatorOf? (document : Document) : Option (String × Value) := do
  let fields ← document.record? ["property", "value"]
  some (← required fields "property" string?, ← required fields "value" value?)

def versionOf? (document : Document) : Option (String × String) := do
  let fields ← document.record? ["from", "to"]
  some (← required fields "from" string?, ← required fields "to" string?)

def ofDocument? (document : Document) : Option EntityDefinition := do
  let fields ← document.record?
    ["name", "table", "extends", "discriminator", "version", "attribute"]
  let name ← required fields "name" string?
  let table ← optional fields "table" string?
  let parent ← optional fields "extends" string?
  let discriminator ← optional fields "discriminator" discriminatorOf?
  let version ← optional fields "version" versionOf?
  let attributes ← withDefault fields "attribute" (list? AttributeDefinition.ofDocument?) []
  some { name, table, parent, discriminator, version, attributes }

def tableName (d : EntityDefinition) : String :=
  d.table.getD (Text.toLower d.name)

def build (d : EntityDefinition) (registry : Registry) : Except SchemaError Entity := do
  let draft : EntityDraft := { name := d.name, table := d.tableName }
  let draft ←
    match d.parent with
    | none => pure draft
    | some parent => draft.inherit <$> registry.entity parent
  let attributes ← d.attributes.mapM (·.build d.name)
  EntityDraft.build { draft with
    attributes
    discriminator := d.discriminator
    version := d.version.or draft.version }

def isReady (d : EntityDefinition) (registry : Registry) : Bool :=
  match d.parent with
  | none => true
  | some parent => (registry.get? parent).isSome

end EntityDefinition

namespace Registry

/-- One round over the definitions: registers those that are ready when their turn comes, and returns
the others. -/
def addReady :
    Registry → List EntityDefinition → Except SchemaError (Registry × List EntityDefinition)
  | registry, [] => .ok (registry, [])
  | registry, d :: rest =>
    if d.isReady registry then do
      let entity ← d.build registry
      addReady (registry.register entity) rest
    else do
      let (registry, deferred) ← addReady registry rest
      .ok (registry, d :: deferred)

/-- Rounds until nothing waits any more. Each round but a failing one registers at least one
definition, so their number is enough rounds. -/
def addAll : Nat → Registry → List EntityDefinition → Except SchemaError Registry
  | _, registry, [] => .ok registry
  | 0, registry, _ :: _ => .ok registry
  | rounds + 1, registry, definitions => do
    let (registry, deferred) ← registry.addReady definitions
    if deferred.length = definitions.length then
      .error (.unresolvableParents (deferred.map (·.name)))
    else addAll rounds registry deferred

def ofDefinitions (definitions : List EntityDefinition) : Except SchemaError Registry := do
  let registry ← addAll definitions.length {} definitions
  registry.validate
  return registry

def definitionsOf? (document : Document) : Option (List EntityDefinition) := do
  let fields ← document.record? ["entity"]
  withDefault fields "entity" (list? EntityDefinition.ofDocument?) []

def ofDocument (document : Document) : Except SchemaError Registry :=
  match definitionsOf? document with
  | some definitions => ofDefinitions definitions
  | none => .error .malformedSchema

def ofText (text : String) : Except SchemaError Registry :=
  match Toml.read? text with
  | some document => ofDocument document
  | none => .error .malformedSchema

end Registry

end ViewEngine
