import ViewEngine.Error

/-!
Entities: the attributes that the rows of a table have. An entity may extend another one, whose table,
attributes and version columns it shares; it may be told apart from other entities of its table by a
discriminator; and its rows may be versions, each valid in an interval of time.
-/

namespace ViewEngine

structure Discriminator where
  subject : Attribute
  value : Value

/-- The columns of the interval in which a version is valid: `[opening, closing)`. -/
structure VersionColumns where
  opening : Attribute
  closing : Attribute

structure Entity where
  name : String
  table : String
  parent : Option String
  attributes : List Attribute
  discriminator : Option Discriminator
  version : Option VersionColumns

namespace Entity

def property? (e : Entity) (property : String) : Option Attribute :=
  e.attributes.find? (·.property == property)

def column? (e : Entity) (column : String) : Option Attribute :=
  e.attributes.find? (·.column == some column)

def carries (e : Entity) (id : AttributeId) : Bool :=
  e.attributes.any (·.id == id)

def scalars (e : Entity) : List Attribute :=
  e.attributes.filter fun a => !a.isAssociation && a.column.isSome

def primaryKeys (e : Entity) : List Attribute :=
  e.attributes.filter (·.primaryKey)

def isVersioned (e : Entity) : Bool :=
  e.version.isSome

def isVersionAttribute (e : Entity) (a : Attribute) : Bool :=
  e.version.any fun version => version.opening.id == a.id || version.closing.id == a.id

def identityKeys (e : Entity) : List Attribute :=
  e.primaryKeys.filter (!e.isVersionAttribute ·)

/-- What tells a stored row from all others: its identity, and the start of its version. -/
def storageKeys (e : Entity) : List Attribute :=
  e.identityKeys ++ (e.version.map (·.opening)).toList

def isWritable (e : Entity) (a : Attribute) : Bool :=
  a.column.isSome && !a.isAssociation && !a.primaryKey && !e.isVersionAttribute a

end Entity

structure EntityDraft where
  name : String
  table : String
  parent : Option String := none
  inherited : List Attribute := []
  attributes : List Attribute := []
  discriminator : Option (String × Value) := none
  version : Option (String × String) := none

namespace EntityDraft

def inherit (d : EntityDraft) (parent : Entity) : EntityDraft :=
  { d with
    table := parent.table
    parent := some parent.name
    inherited := parent.attributes
    version := d.version.or (parent.version.map fun v => (v.opening.property, v.closing.property)) }

def declare (entity : String) :
    List Attribute → List Attribute → Except SchemaError (List Attribute)
  | attributes, [] => .ok attributes
  | attributes, a :: rest =>
    if attributes.any (·.property == a.property) then
      .error (.duplicateProperty entity a.property)
    else declare entity (attributes ++ [{ a with id := ⟨entity, a.property⟩ }]) rest

def columnAttribute (entity : String) (attributes : List Attribute) (property : String) :
    Except SchemaError Attribute :=
  match attributes.find? fun a => a.property == property && a.column.isSome with
  | some a => .ok a
  | none => .error (.noColumnAttribute entity property)

def build (d : EntityDraft) : Except SchemaError Entity := do
  let attributes ← declare d.name d.inherited d.attributes
  let discriminator ← d.discriminator.mapM fun (property, value) => do
    let subject ← columnAttribute d.name attributes property
    return ⟨subject, subject.columnType.coerce value⟩
  let version ← d.version.mapM fun (opening, closing) => do
    return ⟨← columnAttribute d.name attributes opening, ← columnAttribute d.name attributes closing⟩
  if attributes.any (·.primaryKey) then
    return { name := d.name, table := d.table, parent := d.parent, attributes, discriminator, version }
  else .error (.noPrimaryKey d.name)

end EntityDraft

end ViewEngine
