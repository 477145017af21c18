import ViewEngine.Text.Split
import ViewEngine.Value.Basic

/-!
Values inside nested rows. A place is given by the properties that lead to it: each but the last holds
a row, in which the next one is looked up. Lists are not entered.
-/

namespace ViewEngine.Row

def propertiesOf (path : String) : List String :=
  Text.split '.' path

/-- The properties of a path that come after those of a path above it. A path that does not lie below
the other keeps all its properties. -/
def propertiesBelow (path above : String) : List String :=
  let properties := propertiesOf path
  if above.isEmpty then properties
  else
    match (propertiesOf above).isPrefixOf? properties with
    | some (property :: rest) => property :: rest
    | _ => properties

def valueAt? (row : Row) : List String → Option Value
  | [] => none
  | [property] => row.get? property
  | property :: rest =>
    match row.get? property with
    | some (.row fields) => valueAt? fields rest
    | _ => none

def place (value : Value) : List String → Row → Row
  | [], row => row
  | [property], row => row.insert property value
  | property :: rest, row =>
    match row.get? property with
    | some (.row fields) => row.insert property (.row (place value rest fields))
    | _ => row.insert property (.row (place value rest []))

/-- Changes what stands at a place, if the rows on the way to it exist and the change applies. -/
def alterAt? (change : Option Value → Option Value) : List String → Row → Option Row
  | [], _ => none
  | [property], row => (change (row.get? property)).map (row.insert property ·)
  | property :: rest, row =>
    match row.get? property with
    | some (.row fields) => (alterAt? change rest fields).map (row.insert property <| .row ·)
    | _ => none

theorem valueAt?_place (value : Value) {properties : List String} (nonempty : properties ≠ [])
    (row : Row) : (place value properties row).valueAt? properties = some value := by
  induction properties generalizing row with
  | nil => contradiction
  | cons property rest induction =>
    cases rest with
    | nil => exact Keyed.get?_insert_self property value row
    | cons next rest =>
      unfold place
      split <;> simp only [valueAt?, Keyed.get?_insert_self] <;>
        exact induction (List.cons_ne_nil next rest) _

end ViewEngine.Row
