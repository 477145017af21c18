import ViewEngine.Value.ColumnType

/-!
Attributes of entities: columns, and associations to other entities. An attribute is identified by the
entity that declares it together with its property name, so a subtype shares the identities of the
attributes that it inherits.
-/

namespace ViewEngine

structure AttributeId where
  entity : String
  property : String
deriving DecidableEq, Repr, Inhabited

def AttributeId.text (id : AttributeId) : String :=
  id.entity ++ "." ++ id.property

structure JoinColumn where
  source : String
  target : String
deriving DecidableEq, Repr, Inhabited

structure Association where
  target : String
  joinTable : String
  joinColumns : List JoinColumn
  collection : Bool
deriving DecidableEq, Repr, Inhabited

structure Attribute where
  id : AttributeId
  column : Option String
  valueType : String
  columnType : ColumnType
  primaryKey : Bool := false
  nullable : Bool := true
  dictionary : Bool := false
  association : Option Association := none
deriving DecidableEq, Repr, Inhabited

def ColumnType.valueType : ColumnType → String
  | .boolean => "bool"
  | .smallInt | .integer | .bigInt => "i64"
  | .decimal | .double => "f64"
  | .char | .varchar => "String"
  | .date | .timestamp => "NaiveDateTime"
  | .other => "Value"

namespace Attribute

def ofColumn (property : String) (column : Option String) (columnType : ColumnType) : Attribute where
  id := ⟨"", property⟩
  column := column
  valueType := columnType.valueType
  columnType := columnType

def ofAssociation (property : String) (association : Association) : Attribute where
  id := ⟨"", property⟩
  column := none
  valueType := association.target
  columnType := .other
  association := some association

def property (a : Attribute) : String :=
  a.id.property

def columnName (a : Attribute) : String :=
  a.column.getD ""

def isAssociation (a : Attribute) : Bool :=
  a.association.isSome

def isCollection (a : Attribute) : Bool :=
  a.association.any (·.collection)

def joinColumns (a : Attribute) : List JoinColumn :=
  (a.association.map (·.joinColumns)).getD []

def addTo (attributes : List Attribute) (a : Attribute) : List Attribute :=
  if attributes.any (·.id == a.id) then attributes else attributes ++ [a]

end Attribute

end ViewEngine
