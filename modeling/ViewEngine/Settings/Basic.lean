import ViewEngine.Settings.Expansion
import ViewEngine.Sql.Dialect
import ViewEngine.Toml.Reading

namespace ViewEngine

structure ViewSettings where
  rootKeyAlias : String := "rootKey"
  keyDelimiter : String := "-"
  strictWriteBack : Bool := false
  defaultLimit : Option UInt64 := none
deriving DecidableEq, Inhabited

structure ConnectionSettings where
  driver : String := "sqlite"
  path : Option String := none
deriving DecidableEq, Inhabited

structure Settings where
  view : ViewSettings := {}
  connection : ConnectionSettings := {}
deriving DecidableEq, Inhabited

namespace ConnectionSettings

def dialect (c : ConnectionSettings) : Except SettingsError Sql.Dialect :=
  let driver := Text.toLower c.driver
  if driver == "sqlite" || driver == "sqlite3" then .ok .sqlite
  else .error (.unsupportedDriver driver)

def resolvedPath (c : ConnectionSettings) (environment : Environment) :
    Except SettingsError String :=
  match c.path with
  | none => .error .missingDatabasePath
  | some path => expandReferences environment path

end ConnectionSettings

namespace Settings

open Toml Toml.Document

def viewOf? (document : Document) : Option ViewSettings := do
  let fields ← document.record?
    ["root_key_alias", "key_delimiter", "strict_write_back", "default_limit"]
  let standard : ViewSettings := {}
  let rootKeyAlias ← withDefault fields "root_key_alias" string? standard.rootKeyAlias
  let keyDelimiter ← withDefault fields "key_delimiter" string? standard.keyDelimiter
  let strictWriteBack ← withDefault fields "strict_write_back" boolean? standard.strictWriteBack
  let defaultLimit ← optional fields "default_limit" count?
  some { rootKeyAlias, keyDelimiter, strictWriteBack, defaultLimit }

def connectionOf? (document : Document) : Option ConnectionSettings := do
  let fields ← document.record? ["driver", "path"]
  let standard : ConnectionSettings := {}
  let driver ← withDefault fields "driver" string? standard.driver
  let path ← optional fields "path" string?
  some { driver, path }

def ofDocument? (document : Document) : Option Settings := do
  let fields ← document.record? ["view", "connection"]
  let view ← withDefault fields "view" viewOf? {}
  let connection ← withDefault fields "connection" connectionOf? {}
  some { view, connection }

def ofDocument (document : Document) : Except SettingsError Settings :=
  match ofDocument? document with
  | some settings => .ok settings
  | none => .error .malformed

def ofText (text : String) : Except SettingsError Settings :=
  match Toml.read? text with
  | some document => ofDocument document
  | none => .error .malformed

end Settings

end ViewEngine
