import ViewEngine.Toml.Document

/-!
Tables while their document is being read. A table remembers how it came to be, because that decides
what may still be added to it.
-/

namespace ViewEngine.Toml

/-- A table is implied by the header of a table inside of it, or by a dotted key, or has a header of
its own. -/
inductive Origin where
  | implied
  | dotted
  | headed
deriving DecidableEq

inductive Node where
  | value (document : Document)
  | table (origin : Origin) (entries : List (String × Node))
  | tables (elements : List Node)

namespace Node

def emptyTable : Node :=
  .table .headed []

/-- Changes the table at a path. Tables on the way are made where they are missing, and the last
element stands for an array of tables. A dotted path does not lead through a table with a header. -/
def changeAt (dotted : Bool) (change : Origin → Keyed Node → Option (Keyed Node)) :
    List String → Origin → Keyed Node → Option (Keyed Node)
  | [], origin, entries => change origin entries
  | key :: path, _, entries =>
    match entries.get? key with
    | none =>
      let origin := if dotted then .dotted else .implied
      (changeAt dotted change path origin []).map fun inner =>
        entries.insert key (.table origin inner)
    | some (.table origin inner) =>
      if dotted && origin == .headed then none
      else
        (changeAt dotted change path origin inner).map fun inner =>
          entries.insert key (.table origin inner)
    | some (.tables elements) =>
      match elements.getLast? with
      | some (.table origin inner) =>
        (changeAt dotted change path origin inner).map fun inner =>
          entries.insert key (.tables (elements.dropLast ++ [.table origin inner]))
      | _ => none
    | some (.value _) => none

/-- Adds a new key to a table. A dotted key ends in a table that dotted keys alone have made. -/
def addValue (path : List String) (document : Document) (origin : Origin) (entries : Keyed Node) :
    Option (Keyed Node) :=
  match path.getLast? with
  | none => none
  | some last =>
    let parents := path.dropLast
    changeAt true (fun origin entries =>
      if (origin == .dotted) == parents.isEmpty || entries.contains last then none
      else some (entries.insert last (.value document))) parents origin entries

def openTable (path : List String) (root : Keyed Node) : Option (Keyed Node) :=
  match path.getLast? with
  | none => none
  | some last =>
    changeAt false (fun _ entries =>
      match entries.get? last with
      | none => some (entries.insert last emptyTable)
      | some (.table .implied inner) => some (entries.insert last (.table .headed inner))
      | some _ => none) path.dropLast .headed root

def appendTable (path : List String) (root : Keyed Node) : Option (Keyed Node) :=
  match path.getLast? with
  | none => none
  | some last =>
    changeAt false (fun _ entries =>
      match entries.get? last with
      | none => some (entries.insert last (.tables [emptyTable]))
      | some (.tables elements) => some (entries.insert last (.tables (elements ++ [emptyTable])))
      | some _ => none) path.dropLast .headed root

mutual

def document : Node → Document
  | .value document => document
  | .table _ entries => .table (documentsOfEntries entries)
  | .tables elements => .array (documentsOf elements)

def documentsOf : List Node → List Document
  | [] => []
  | element :: rest => element.document :: documentsOf rest

def documentsOfEntries : List (String × Node) → List (String × Document)
  | [] => []
  | entry :: rest => documentOfEntry entry :: documentsOfEntries rest

def documentOfEntry : String × Node → String × Document
  | (key, node) => (key, node.document)

end

end Node

end ViewEngine.Toml
