import ViewEngine.View.Assembly
import ViewEngine.View.Compile
import ViewEngine.View.Flush

namespace ViewEngine

namespace FilterTree

def withPath (t : FilterTree) (registry : Registry) (path : String) (predicate : Option Predicate) :
    Except ViewError FilterTree :=
  match t.addPath registry path predicate with
  | (t, .ok _) => .ok t
  | (_, .error e) => .error e

def withKey (registry : Registry) (t : FilterTree) (a : Attribute) (value : Value) :
    Except ViewError FilterTree := do
  let predicate ← (Predicate.equals value).mapError .composition
  t.withPath registry a.property (some predicate)

def withKeys (registry : Registry) (e : Entity) (key : Value) (t : FilterTree) :
    Except ViewError FilterTree :=
  match e.identityKeys, key with
  | keys, .row values =>
    keys.foldlM (fun t a =>
      match Keyed.get? values a.property with
      | some value => t.withKey registry a value
      | none => .error (.missingKey e.name 0 a.property)) t
  | [a], value => t.withKey registry a value
  | _, _ => .error (.composition (.compositeKey e.name))

def ofKey (registry : Registry) (name : String) (key : Value) : Except ViewError FilterTree := do
  let e ← (registry.entity name).mapError .schema
  let t ← (FilterTree.ofRoots [e]).mapError .schema
  let others := e.attributes.filter fun a =>
    !e.identityKeys.any (·.id == a.id) && (a.isAssociation || a.column.isSome)
  others.foldlM (fun t a => t.withPath registry a.property none) (← t.withKeys registry e key)

end FilterTree

namespace Executor

variable {σ : Type}

def queryRows (x : Executor σ) (text : String) (state : σ) : Except ViewError (List Row) × σ :=
  (x.query text state).map (·.mapError .execution) id

def readCollections (x : Executor σ) (v : CompiledView) (keys : List Value) :
    List SubSelect → List RootRow → σ → Except ViewError (List RootRow) × σ
  | [], rows, state => (.ok rows, state)
  | s :: rest, rows, state =>
    match x.queryRows ((s.forKeys keys).text v.dialect) state with
    | (.ok results, state) => x.readCollections v keys rest (v.addCollection s rows results) state
    | (.error e, state) => (.error e, state)

def readView (x : Executor σ) (v : CompiledView) (state : σ) : Except ViewError View × σ :=
  match x.queryRows v.primaryText state with
  | (.error e, state) => (.error e, state)
  | (.ok results, state) =>
    let rows := v.rootRows results
    let keys := v.rootKeys rows
    let subSelects := if keys.isEmpty then [] else v.subSelects
    (x.readCollections v keys subSelects rows state).map
      (·.map fun rows => View.ofRows v (rows.map (·.fields))) id

def select (x : Executor σ) (registry : Registry) (settings : ViewSettings) (c : Context)
    (page : Page) (t : FilterTree) (state : σ) : Except ViewError View × σ :=
  match compile registry settings x.dialect c.pointInTime page t with
  | .ok v => x.readView v state
  | .error cause => (.error (.schema cause), state)

def fetch (x : Executor σ) (registry : Registry) (settings : ViewSettings) (c : Context)
    (name : String) (key : Value) (state : σ) : Except ViewError View × σ :=
  match FilterTree.ofKey registry name key with
  | .ok t => x.select registry settings c {} t state
  | .error e => (.error e, state)

end Executor

end ViewEngine
