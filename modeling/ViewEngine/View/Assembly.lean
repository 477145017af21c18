import ViewEngine.Value.Nested
import ViewEngine.View.Compiled

/-!
Assembling the rows of a view from the results of its statements. A column goes to the place that its
label names. The elements of a collection find their root row by its key, and inside it the enclosing
elements by their identities.
-/

namespace ViewEngine

mutual

/-- An associated row that is null throughout stands for no row at all. Collections stay as they are. -/
def Value.collapse : Value → Value
  | .row fields =>
    let collapsed := collapseFields fields
    if allNullFields collapsed then .null else .row collapsed
  | value => value

def Value.collapseFields : List (String × Value) → List (String × Value)
  | [] => []
  | field :: rest => collapseField field :: collapseFields rest

def Value.collapseField : String × Value → String × Value
  | (property, value) => (property, value.collapse)

end

namespace Row

def ofColumns (columns : List ColumnBinding) (result : Row) : Row :=
  columns.foldl (fun row column =>
    row.place (column.coerce ((result.get? column.label).getD .null)) (propertiesOf column.label)) []

def startCollection (properties : List String) (row : Row) : Row :=
  (row.alterAt? (fun _ => some (.list [])) properties).getD row

def agree (keys : List String) (a b : Row) : Bool :=
  keys.all fun key => Value.equalSlots (a.get? key) (b.get? key)

end Row

def Value.changeFirst? (test : Row → Bool) (change : Row → Option Row) :
    List Value → Option (List Value)
  | [] => none
  | .row fields :: rest =>
    if test fields then (change fields).map (.row · :: rest)
    else (changeFirst? test change rest).map (.row fields :: ·)
  | item :: rest => (changeFirst? test change rest).map (item :: ·)

/-- One more element at the end. A value that is no list becomes the first element of one. -/
def Value.append (element : Value) : Option Value → Value
  | some (.list items) => .list (items ++ [element])
  | none | some .null => .list [element]
  | some other => .list [other, element]

/-- Adds an element to a collection of a row. The result row that holds the element, `carrier`, also
holds the identities of the elements that enclose it; `above` is the path of the row at hand. -/
def Row.addElement (carrier : Row) (element : Value) (path : String) :
    String → List EnclosingCollection → Row → Option Row
  | above, [], row =>
    row.alterAt? (fun held => some (.append element held)) (propertiesBelow path above)
  | above, outer :: inner, row =>
    match carrier.valueAt? (propertiesOf outer.path) with
    | some (.row identity) =>
      let descend : Option Value → Option Value
        | some (.list items) =>
          (Value.changeFirst? (Row.agree outer.keys identity)
            (addElement carrier element path outer.path inner) items).map .list
        | _ => none
      row.alterAt? descend (propertiesBelow outer.path above)
    | _ => none

/-- A root row of a view under assembly, with the text of its key. -/
structure RootRow where
  keyText : String
  fields : Row

def RootRow.changeLast (keyText : String) (change : Row → Row) : List RootRow → List RootRow
  | [] => []
  | row :: rest =>
    if row.keyText == keyText && !rest.any (·.keyText == keyText) then
      { row with fields := change row.fields } :: rest
    else row :: changeLast keyText change rest

namespace CompiledView

def keyText (v : CompiledView) (row : Row) : String :=
  ((row.get? v.rootKeyAlias).map Value.toText).getD ""

def rootRows (v : CompiledView) (results : List Row) : List RootRow :=
  results.map fun result =>
    let row : Row := Value.collapseFields (Row.ofColumns v.columns result)
    let started := (v.subSelects.filter (·.enclosing.isEmpty)).foldl (fun row s =>
      Row.startCollection (Row.propertiesOf s.path) row) row
    ⟨v.keyText started, started⟩

def rootKeys (v : CompiledView) (rows : List RootRow) : List Value :=
  rows.filterMap (·.fields.get? v.rootKeyAlias)

/-- The element that a result row of a sub-select stands for, with the collections that lie directly
in it still empty. -/
def element? (v : CompiledView) (s : SubSelect) (carrier : Row) : Option Value :=
  match (carrier.valueAt? (Row.propertiesOf s.path)).map Value.collapse with
  | none | some .null => none
  | some (.row fields) =>
    let inner := v.subSelects.filter fun other => other.enclosing.getLast?.any (·.path == s.path)
    some (.row (inner.foldl (fun row other =>
      Row.startCollection (Row.propertiesBelow other.path s.path) row) fields))
  | some other => some other

/-- Adds the element of one result row to the root row whose key it carries. It is left out where no
row has the key or no enclosing element its identity. -/
def addResult (v : CompiledView) (s : SubSelect) (rows : List RootRow) (result : Row) : List RootRow :=
  let row := Row.ofColumns s.columns result
  let carrier := row.erase v.rootKeyAlias
  match v.element? s carrier with
  | none => rows
  | some element =>
    RootRow.changeLast (v.keyText row) (fun fields =>
      (Row.addElement carrier element s.path "" s.enclosing fields).getD fields) rows

/-- Adds the elements of a sub-select. The elements that enclose them have to be there before. -/
def addCollection (v : CompiledView) (s : SubSelect) (rows : List RootRow) (results : List Row) :
    List RootRow :=
  results.foldl (v.addResult s) rows

end CompiledView

end ViewEngine
