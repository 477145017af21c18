import ViewEngine.Schema.Entity

namespace ViewEngine

structure Registry where
  entities : Keyed Entity := []

namespace Registry

def register (r : Registry) (e : Entity) : Registry :=
  ⟨r.entities.insert e.name e⟩

def get? (r : Registry) (name : String) : Option Entity :=
  r.entities.get? name

def entity (r : Registry) (name : String) : Except SchemaError Entity :=
  match r.get? name with
  | some e => .ok e
  | none => .error (.unknownEntity name)

def all (r : Registry) : List Entity :=
  r.entities.values

def targetOf (r : Registry) (a : Attribute) : Except SchemaError Entity :=
  match a.association with
  | some association => r.entity association.target
  | none => .error (.notAnAssociation a.id)

def find? (r : Registry) (id : AttributeId) : Option Attribute :=
  ((r.get? id.entity).bind (·.property? id.property)).filter (·.id == id)

def carriers (r : Registry) (id : AttributeId) : List Entity :=
  r.all.filter (·.carries id)

def checkJoinColumn (e target : Entity) (a : Attribute) (pair : JoinColumn) :
    Except SchemaError Unit :=
  if (e.column? pair.source).isNone then .error (.unknownSourceColumn a.id pair.source)
  else if (target.column? pair.target).isNone then
    .error (.unknownTargetColumn a.id pair.target target.name)
  else .ok ()

def checkAttribute (r : Registry) (e : Entity) (a : Attribute) : Except SchemaError Unit :=
  match a.association with
  | none => .ok ()
  | some association =>
    match r.get? association.target with
    | none => .error (.unknownTarget a.id association.target)
    | some target =>
      if association.joinColumns.isEmpty then .error (.noJoinColumns a.id)
      else association.joinColumns.forM (checkJoinColumn e target a)

def validate (r : Registry) : Except SchemaError Unit :=
  r.all.forM fun e => e.attributes.forM (r.checkAttribute e)

end Registry

end ViewEngine
