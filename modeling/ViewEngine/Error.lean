import ViewEngine.Filter.Operator
import ViewEngine.Schema.Attribute

namespace ViewEngine

inductive SettingsError where
  | fileNotFound (path : String)
  | unreadable (cause : String)
  | malformed
  | missingVariable (name : String)
  | unsupportedDriver (name : String)
  | missingDatabasePath
deriving DecidableEq, Repr

def SettingsError.message : SettingsError → String
  | .fileNotFound path => "Config file not found: " ++ path
  | .unreadable cause => "Failed to read config file: " ++ cause
  | .malformed => "Failed to parse config file"
  | .missingVariable name => "Missing environment variable: " ++ name
  | .unsupportedDriver name => "Unsupported driver: " ++ name
  | .missingDatabasePath => "No database path configured"

inductive SchemaError where
  | malformedSchema
  | malformedView
  | unreadable (path cause : String)
  | unknownEntity (name : String)
  | duplicateProperty (entity property : String)
  | noColumnAttribute (entity property : String)
  | noPrimaryKey (entity : String)
  | neitherColumnNorAssociation (entity property : String)
  | unresolvableParents (entities : List String)
  | unknownTarget (id : AttributeId) (target : String)
  | noJoinColumns (id : AttributeId)
  | unknownSourceColumn (id : AttributeId) (column : String)
  | unknownTargetColumn (id : AttributeId) (column target : String)
  | notAnAssociation (id : AttributeId)
  | noRoots
  | rootsOnDifferentTables (first other : String)
  | attributeNotOnRoots (id : AttributeId) (roots : List String)
  | malformedFilterPath (path : String)
  | propertyNotOnRoots (property : String) (roots : List String)
  | noAttribute (entity property : String)
  | versionWithoutColumn (entity : String)
deriving DecidableEq, Repr

def SchemaError.message : SchemaError → String
  | .malformedSchema => "invalid schema document"
  | .malformedView => "invalid view document"
  | .unreadable path cause => "cannot read " ++ path ++ ": " ++ cause
  | .unknownEntity name => "unknown entity '" ++ name ++ "'"
  | .duplicateProperty entity property => entity ++ " declares property '" ++ property ++ "' twice"
  | .noColumnAttribute entity property => entity ++ " has no column attribute '" ++ property ++ "'"
  | .noPrimaryKey entity => entity ++ " has no primary key attribute"
  | .neitherColumnNorAssociation entity property =>
    entity ++ "." ++ property ++ " needs a column or an association"
  | .unresolvableParents entities =>
    "unresolvable parent entity for: " ++ String.intercalate ", " entities
  | .unknownTarget id target => id.text ++ " targets unknown entity '" ++ target ++ "'"
  | .noJoinColumns id => id.text ++ " has no join columns"
  | .unknownSourceColumn id column =>
    id.text ++ " maps unknown local column '" ++ column ++ "'"
  | .unknownTargetColumn id column target =>
    id.text ++ " maps unknown column '" ++ column ++ "' on " ++ target
  | .notAnAssociation id => id.text ++ " is not an association"
  | .noRoots => "a filter tree needs at least one root entity"
  | .rootsOnDifferentTables first other =>
    "root entities " ++ first ++ " and " ++ other ++ " do not share a table"
  | .attributeNotOnRoots id roots =>
    id.text ++ " does not apply to " ++ String.intercalate " | " roots
  | .malformedFilterPath path => "malformed filter path '" ++ path ++ "'"
  | .propertyNotOnRoots property roots =>
    "'" ++ property ++ "' does not apply to " ++ String.intercalate " | " roots
  | .noAttribute entity property => entity ++ " has no attribute '" ++ property ++ "'"
  | .versionWithoutColumn entity => entity ++ " has a version attribute without a column"

inductive CompositionError where
  | rangeWithoutStart (operator : FilterOperator)
  | operandCount (operator : FilterOperator) (supplied : Nat)
  | listNotAccepted (operator : FilterOperator)
  | missingRangeEnd (path : String)
  | predicateOnAssociation (id : AttributeId)
  | aggregateOnColumn (aggregate : Aggregate) (id : AttributeId)
  | childOfColumn (id : AttributeId)
  | unresolvedTarget (cause : SchemaError)
  | foreignChild (child : AttributeId) (target : String) (parent : AttributeId)
  | compositeKey (entity : String)
deriving DecidableEq, Repr

def schemaMessage (cause : SchemaError) : String :=
  "schema error: " ++ cause.message

def CompositionError.message : CompositionError → String
  | .rangeWithoutStart operator => operator.title ++ " has a range end but no value"
  | .operandCount operator supplied =>
    operator.title ++ " takes " ++ toString operator.arity ++ " operand(s), got " ++ toString supplied
  | .listNotAccepted operator => operator.title ++ " does not accept a list"
  | .missingRangeEnd path => path ++ " needs a range_end"
  | .predicateOnAssociation id => "predicate on association " ++ id.text
  | .aggregateOnColumn aggregate id =>
    aggregate.title ++ " on non-association " ++ id.text
  | .childOfColumn id => id.text ++ " is not an association and cannot have children"
  | .unresolvedTarget cause => schemaMessage cause
  | .foreignChild child target parent =>
    child.text ++ " does not belong to " ++ target ++ " (target of " ++ parent.text ++ ")"
  | .compositeKey entity => entity ++ " has a composite key; pass a row of key values"

inductive PathFault where
  | emptyPath
  | emptySegment
  | malformedPosition
  | notAnAssociation
  | notACollection
  | positionNeeded
  | positionOutOfRange
  | severalPositionsOmitted
  | rowOutOfRange
  | wholeCollection
deriving DecidableEq, Repr

def PathFault.message : PathFault → String
  | .emptyPath => "empty path"
  | .emptySegment => "empty segment"
  | .malformedPosition => "malformed element index"
  | .notAnAssociation => "segment is not an association"
  | .notACollection => "segment is not a collection"
  | .positionNeeded => "collection segment needs an element index"
  | .positionOutOfRange => "element index out of range"
  | .severalPositionsOmitted => "only one collection segment may omit its element index"
  | .rowOutOfRange => "row index out of range"
  | .wholeCollection => "a collection cannot be assigned as a whole"

inductive ViewError where
  | schema (cause : SchemaError)
  | composition (cause : CompositionError)
  | execution (cause : String)
  | unresolved (path column : String)
  | invalidPath (path : String) (fault : PathFault)
  | missingKey (path : String) (row : Nat) (column : String)
  | staleVersion (path keys : String)
deriving DecidableEq, Repr

def ViewError.message : ViewError → String
  | .schema cause => schemaMessage cause
  | .composition cause => "composition error: " ++ cause.message
  | .execution cause => "execution failed: " ++ cause
  | .unresolved path column => "cannot resolve " ++ column ++ " on " ++ path
  | .invalidPath path fault => "invalid path '" ++ path ++ "': " ++ fault.message
  | .missingKey path row column =>
    "row " ++ toString row ++ " of " ++ path ++ " has no value for key column " ++ column
  | .staleVersion path keys => "no open version of '" ++ path ++ "' matches " ++ keys

end ViewEngine
