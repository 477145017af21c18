import ViewEngine.Names
import ViewEngine.View.Compiled
import ViewEngine.View.Path

/-!
Views: the rows that a compiled view was read into, and the changes made to them since. A value is
addressed by the number of a root row and a path. If there is only one root row, one collection on the
way may lack a position, and the row number picks the element of it.
-/

namespace ViewEngine

def newRowMark : String := "$new"

/-- A root row, and the paths whose values were changed since it was read. -/
structure ViewRow where
  data : Row
  changed : Names := []

namespace ViewRow

def isNew (r : ViewRow) : Bool :=
  r.data.contains newRowMark

/-- Puts a value into a node and records the change. If there is no such node nothing is recorded. -/
def assign (r : ViewRow) (node property : String) (value : Value) :
    ViewRow × Except ViewError Unit :=
  match r.data.alterNode node (·.insert property value) with
  | (data, .ok ()) => (⟨data, r.changed.insert (Path.child node property)⟩, .ok ())
  | (data, .error e) => ({ r with data := data }, .error e)

def settled (r : ViewRow) : ViewRow :=
  ⟨r.data.erase newRowMark, []⟩

end ViewRow

structure Reopening where
  row : Nat
  node : String
  property : String
deriving DecidableEq, Repr

structure View where
  compiled : CompiledView
  rows : List ViewRow
  /-- Stored rows that are to be deleted. -/
  removed : List Row := []

namespace View

def ofRows (compiled : CompiledView) (rows : List Row) : View :=
  ⟨compiled, rows.map fun row => ⟨row, []⟩, []⟩

def data (v : View) : List Row :=
  v.rows.map (·.data)

def isDirty (v : View) : Bool :=
  !v.removed.isEmpty || v.rows.any fun r => r.isNew || !r.changed.isEmpty

/-- The steps, by their places, that go through a collection without a position. The last step of a
path, which names a value, is not among them. -/
def openSteps (v : View) : String → Nat → List PathStep → List Nat
  | above, place, step :: next :: rest =>
    let path := Path.child above step.property
    let later := openSteps v path (place + 1) (next :: rest)
    if step.position.isNone && v.compiled.isCollection path then place :: later else later
  | _, _, _ => []

def resolve (v : View) (row : Nat) (path : String) : Except PathFault (Nat × String) := do
  let steps ← Path.read path
  match v.openSteps "" 0 steps with
  | [] => return (row, path)
  | [place] =>
    if v.rows.length = 1 then
      return (0, Path.text (steps.modify place fun step => { step with position := some row }))
    else .error .positionNeeded
  | _ => .error .severalPositionsOmitted

def valueIn (node : Option Row) (step : PathStep) : Except PathFault Value :=
  match node with
  | none => .ok .null
  | some row =>
    match (row.get? step.property).getD .null, step.position with
    | .list items, some position =>
      match items[position]? with
      | some item => .ok item
      | none => .error .positionOutOfRange
    | _, some _ => .error .notACollection
    | value, none => .ok value

def value (v : View) (row : Nat) (path : String) : Except ViewError Value := do
  let (row, path) ← (v.resolve row path).mapError (.invalidPath path)
  match v.rows[row]? with
  | none => .error (.invalidPath path .rowOutOfRange)
  | some r =>
    let step ← (PathStep.read (Path.property path)).mapError (.invalidPath (Path.property path))
    (valueIn (← r.data.nodeAt (Path.node path)) step).mapError (.invalidPath path)

/-- Changes a value and records the change. A failed change may leave empty rows on the way. -/
def setValue (v : View) (value : Value) (row : Nat) (path : String) :
    View × Except ViewError Unit :=
  match v.resolve row path with
  | .error fault => (v, .error (.invalidPath path fault))
  | .ok (row, path) =>
    match v.rows[row]? with
    | none => (v, .error (.invalidPath path .rowOutOfRange))
    | some r =>
      let (node, property) := Path.splitProperty path
      if property.toList.contains '[' then (v, .error (.invalidPath path .wholeCollection))
      else (r.assign node property value).map (fun r => { v with rows := v.rows.set row r }) id

def appendRow (v : View) : View × Nat :=
  ({ v with rows := v.rows ++ [⟨[(newRowMark, .bool true)], []⟩] }, v.rows.length)

def removeRow (v : View) (row : Nat) : View × Except ViewError Row :=
  match v.rows[row]? with
  | none => (v, .error (.invalidPath (toString row) .rowOutOfRange))
  | some r =>
    ({ v with
        rows := v.rows.eraseIdx row
        removed := if r.isNew then v.removed else v.removed ++ [r.data] }, .ok r.data)

def reopen (now : Timestamp) (rows : List ViewRow) (r : Reopening) : List ViewRow :=
  rows.modify r.row fun row =>
    { row with data := (row.data.alterNode r.node (·.insert r.property (.timestamp now))).1 }

def reconcile (v : View) (now : Timestamp) (reopened : List Reopening) : View :=
  { v with rows := (reopened.foldl (reopen now) v.rows).map ViewRow.settled, removed := [] }

end View

end ViewEngine
