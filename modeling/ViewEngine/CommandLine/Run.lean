import ViewEngine.CommandLine.Arguments
import ViewEngine.CommandLine.Files
import ViewEngine.Schema.Reading
import ViewEngine.View.Compile

namespace ViewEngine

structure Host (m : Type → Type) where
  read : String → m (Except FileFault String)
  holds : String → m Bool
  getVariable : String → m (Option String)

def Host.fixed (files : Files) (environment : Environment) : Host Id :=
  ⟨files.read, files.holds, environment⟩

structure Outcome where
  exitCode : Nat
  output : String := ""
  errors : String := ""
deriving DecidableEq, Repr

namespace Outcome

def failure (message : String) : Outcome :=
  { exitCode := 1, errors := message ++ "\n" }

def success (lines : List String) : Outcome :=
  { exitCode := 0, output := String.join (lines.map (· ++ "\n")) }

end Outcome

namespace CommandLine

def usage : String :=
  "Usage: strata compile --schema FILE --view FILE [--at TIMESTAMP] [--dialect postgres|sqlite]\n" ++
  "       strata check --schema FILE\n" ++
  "       strata query --schema FILE --view FILE [--db FILE] [--at TIMESTAMP]\n"

def refused : Refusal → Outcome
  | .helpWanted => { exitCode := 0, output := usage }
  | .misuse => { exitCode := 2, errors := usage }

abbrev Step (m : Type → Type) := ExceptT Outcome m

section

variable {m : Type → Type} [Monad m] {α : Type}

def orFailure {ε : Type} (message : ε → String) (result : m (Except ε α)) : Step m α :=
  ExceptT.mk ((·.mapError fun e => .failure (message e)) <$> result)

def configDirectory? (host : Host m) : m (Option String) := do
  let home ← host.getVariable "HOME"
  match ← host.getVariable "XDG_CONFIG_HOME" with
  | some directory =>
    if directory.startsWith "/" then return some directory else return home.map (· ++ "/.config")
  | none => return home.map (· ++ "/.config")

/-- The settings file: the one that a variable names, or the first that exists of a local one and the
user's. -/
def settingsFile? (host : Host m) : m (Option String) := do
  match ← host.getVariable "STRATA_CONFIG" with
  | some path => return some path
  | none =>
    if ← host.holds "strata.toml" then return some "strata.toml"
    else
      match (← configDirectory? host).map (· ++ "/strata/config.toml") with
      | some path => if ← host.holds path then return some path else return none
      | none => return none

def readSettings (host : Host m) (path : String) : m (Except SettingsError Settings) := do
  if ← host.holds path then
    match ← host.read path with
    | .ok text => return Settings.ofText text
    | .error fault => return .error (.unreadable fault.message)
  else return .error (.fileNotFound path)

def loadSettings (host : Host m) : m (Except SettingsError Settings) := do
  match ← settingsFile? host with
  | some path => readSettings host path
  | none => return .ok {}

def readDocument (host : Host m) (path : String) (ofText : String → Except SchemaError α) :
    m (Except SchemaError α) := do
  match ← host.read path with
  | .ok text => return ofText text
  | .error fault => return .error (.unreadable path fault.message)

def readSchema (host : Host m) (path : String) : Step m Registry :=
  orFailure (fun e => "Error loading schema '" ++ path ++ "': " ++ schemaMessage e)
    (readDocument host path Registry.ofText)

def readView (host : Host m) (path : String) : Step m ViewDefinition :=
  orFailure (fun e => "Error loading view '" ++ path ++ "': " ++ schemaMessage e)
    (readDocument host path ViewDefinition.ofText)

def readPointInTime (text : Option String) : Step m (Option Timestamp) :=
  orFailure (fun text => "Error: invalid timestamp '" ++ text ++ "'")
    (pure (text.mapM fun text =>
      match Timestamp.read? text with
      | some t => .ok t
      | none => .error text))

def compiledLines (v : CompiledView) : List String :=
  (v.primaryText ++ ";") :: v.subSelects.flatMap fun s =>
    ["", "-- collection: " ++ s.path, s.statement.text v.dialect ++ ";"]

def runCompile (host : Host m) (settings : Settings) (schema view : String)
    (pointInTime : Option String) (dialect : Sql.Dialect) : Step m Outcome := do
  let registry ← readSchema host schema
  let definition ← readView host view
  let pointInTime ← readPointInTime pointInTime
  let compiled : Except ViewError CompiledView := do
    let t ← definition.tree registry
    (compile registry settings.view dialect pointInTime definition.page t).mapError .schema
  let v ← orFailure (fun e => "Compilation error: " ++ e.message) (pure compiled)
  return .success (compiledLines v)

def entityLine (e : Entity) : String :=
  let kind := if e.isVersioned then " (bitemporal)"
    else if e.discriminator.isSome then " (subtype)" else ""
  "  - " ++ e.name ++ " -> " ++ e.table ++ kind ++ ", " ++ toString e.attributes.length ++
    " attributes"

def runCheck (host : Host m) (schema : String) : Step m Outcome := do
  let registry ← orFailure (fun e => "✗ " ++ schema ++ ": " ++ schemaMessage e)
    (readDocument host schema Registry.ofText)
  return .success (("✓ " ++ schema ++ " is valid") :: registry.all.map entityLine)

def databasePath (host : Host m) (c : ConnectionSettings) : m (Except SettingsError String) := do
  let names := (c.path.map Expansion.names).getD []
  let held ← names.mapM fun name => do return (name, ← host.getVariable name)
  return do
    let _ ← c.dialect
    c.resolvedPath fun name => (held.lookup name).join

def runQuery (host : Host m) (settings : Settings) (schema view : String)
    (database pointInTime : Option String) : Step m Outcome := do
  let _ ← readSchema host schema
  let _ ← readView host view
  let _ ← readPointInTime pointInTime
  let path ← match database with
    | some path => pure path
    | none => orFailure (fun e => "Error: " ++ e.message) (databasePath host settings.connection)
  return .failure ("Error opening database '" ++ path ++ "': no database engine")

def runCommand (host : Host m) (settings : Settings) : Command → Step m Outcome
  | .compile schema view pointInTime dialect =>
    runCompile host settings schema view pointInTime dialect
  | .check schema => runCheck host schema
  | .query schema view database pointInTime =>
    runQuery host settings schema view database pointInTime

def run (host : Host m) (arguments : List String) : m Outcome := do
  match Arguments.read arguments with
  | .error refusal => return refused refusal
  | .ok command =>
    let outcome ← ExceptT.run (do
      let settings ← orFailure (fun (e : SettingsError) => "Error loading settings: " ++ e.message)
        (loadSettings host)
      runCommand host settings command)
    match outcome with
    | .ok outcome | .error outcome => return outcome

end

end CommandLine

end ViewEngine
