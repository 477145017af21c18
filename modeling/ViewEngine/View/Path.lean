import ViewEngine.Error
import ViewEngine.Text.Split

/-!
Paths from a root row to one of its nodes, that is to the row of an associated entity. A step through
a collection gives the position of an element in brackets: `inner.items[1]`. The empty path leads to
the root row itself.
-/

namespace ViewEngine

structure PathStep where
  property : String
  position : Option Nat := none
deriving DecidableEq, Repr

namespace PathStep

def text (s : PathStep) : String :=
  match s.position with
  | some position => s.property ++ "[" ++ toString position ++ "]"
  | none => s.property

def readPosition? (characters : List Char) : Option Nat :=
  match characters.reverse with
  | ']' :: number => Number.readCount? (String.ofList number.reverse)
  | _ => none

def read (text : String) : Except PathFault PathStep :=
  let property := text.toList.takeWhile (· != '[')
  match text.toList.dropWhile (· != '[') with
  | [] => if property.isEmpty then .error .emptySegment else .ok ⟨text, none⟩
  | _ :: rest =>
    match readPosition? rest with
    | none => .error .malformedPosition
    | some position =>
      if property.isEmpty then .error .emptySegment else .ok ⟨String.ofList property, some position⟩

end PathStep

namespace Path

def read (path : String) : Except PathFault (List PathStep) :=
  if path.isEmpty then .error .emptyPath else (Text.split '.' path).mapM PathStep.read

def text (steps : List PathStep) : String :=
  String.intercalate "." (steps.map PathStep.text)

def child (node property : String) : String :=
  if node.isEmpty then property else node ++ "." ++ property

def splitProperty (path : String) : String × String :=
  (Text.splitLast? '.' path).getD ("", path)

def node (path : String) : String :=
  (splitProperty path).1

def property (path : String) : String :=
  (splitProperty path).2

def outsideBrackets : Bool → List Char → List Char
  | _, [] => []
  | _, '[' :: rest => outsideBrackets true rest
  | _, ']' :: rest => outsideBrackets false rest
  | true, _ :: rest => outsideBrackets true rest
  | false, c :: rest => c :: outsideBrackets false rest

def withoutPositions (path : String) : String :=
  String.ofList (outsideBrackets false path.toList)

end Path

namespace Row

def follow : List PathStep → Row → Except PathFault (Option Row)
  | [], row => .ok (some row)
  | step :: rest, row =>
    let enter : Value → Except PathFault (Option Row)
      | .row fields => follow rest fields
      | .null => .ok none
      | _ => .error .notAnAssociation
    match (row.get? step.property).getD .null, step.position with
    | .list items, some position =>
      match items[position]? with
      | some item => enter item
      | none => .error .positionOutOfRange
    | .list _, none => .error .positionNeeded
    | _, some _ => .error .notACollection
    | value, none => enter value

/-- Enters an association; one to no row becomes one to an empty row first. -/
def enterAssociation (change : Row → Row × Except PathFault Unit) :
    Value → Value × Except PathFault Unit
  | .row fields => (change fields).map Value.row id
  | .null => (change []).map Value.row id
  | .list items => (.list items, .error .positionNeeded)
  | value => (value, .error .notAnAssociation)

/-- Changes the node at the end of the steps. Missing properties on the way become null, and null
associations empty rows; they stay so even if a later step leads nowhere. -/
def alterAlong (change : Row → Row) : List PathStep → Row → Row × Except PathFault Unit
  | [], row => (change row, .ok ())
  | step :: rest, row =>
    let enter := enterAssociation (alterAlong change rest)
    let held := (row.get? step.property).getD .null
    let (held, outcome) :=
      match step.position, held with
      | none, held => enter held
      | some position, .list items =>
        match items[position]? with
        | some item => (enter item).map (fun item => Value.list (items.set position item)) id
        | none => (held, .error .positionOutOfRange)
      | some _, held => (held, .error .notACollection)
    (row.insert step.property held, outcome)

def nodeAt (row : Row) (node : String) : Except ViewError (Option Row) :=
  if node.isEmpty then .ok (some row)
  else ((Path.read node).bind (row.follow ·)).mapError (.invalidPath node)

def alterNode (row : Row) (node : String) (change : Row → Row) : Row × Except ViewError Unit :=
  if node.isEmpty then (change row, .ok ())
  else
    match Path.read node with
    | .ok steps => (row.alterAlong change steps).map id (·.mapError (.invalidPath node))
    | .error fault => (row, .error (.invalidPath node fault))

end Row

end ViewEngine
