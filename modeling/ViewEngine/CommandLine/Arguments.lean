import ViewEngine.Sql.Dialect

/-!
The arguments of the program: a command, and then options with values. A value is the next argument or
is attached, as in `--schema=FILE`, `-sFILE` and `-s=FILE`. An option is given at most once.
-/

namespace ViewEngine

inductive Command where
  | compile (schema view : String) (pointInTime : Option String) (dialect : Sql.Dialect)
  | check (schema : String)
  | query (schema view : String) (database pointInTime : Option String)
deriving DecidableEq

inductive Refusal where
  | helpWanted
  | misuse
deriving DecidableEq, Repr

namespace Arguments

inductive OptionName where
  | schema
  | view
  | pointInTime
  | dialect
  | database
deriving DecidableEq, Repr

namespace OptionName

def long : OptionName → String
  | .schema => "schema"
  | .view => "view"
  | .pointInTime => "at"
  | .dialect => "dialect"
  | .database => "db"

def short? : OptionName → Option Char
  | .schema => some 's'
  | .view => some 'v'
  | .dialect => some 'd'
  | .pointInTime | .database => none

end OptionName

def dialect? (name : String) : Option Sql.Dialect :=
  [Sql.Dialect.postgres, .sqlite].find? (·.name == name)

def OptionName.accepts (o : OptionName) (value : String) : Bool :=
  match o with
  | .schema | .view => !value.isEmpty
  | .dialect => (dialect? value).isSome
  | .pointInTime | .database => true

/-- What a single argument is, as far as it can be told without those that follow. -/
inductive Shape where
  | operand
  | endOfOptions
  | help
  | version
  | option (name : OptionName) (attached : Option String)
  | unknown
deriving DecidableEq, Repr

def attached? : List Char → Option String
  | [] => none
  | _ :: value => some (String.ofList value)

def longShape (allowed : List OptionName) (characters : List Char) : Shape :=
  let name := String.ofList (characters.takeWhile (· != '='))
  let value := attached? (characters.dropWhile (· != '='))
  match allowed.find? (·.long == name) with
  | some o => .option o value
  | none =>
    if value.isSome then .unknown
    else if name == "help" then .help
    else if name == "version" then .version
    else .unknown

def shortShape (allowed : List OptionName) (letter : Char) (rest : List Char) : Shape :=
  match allowed.find? (·.short? == some letter) with
  | some o =>
    let value := match rest with
      | [] => none
      | '=' :: value => some (String.ofList value)
      | value => some (String.ofList value)
    .option o value
  | none => if letter == 'h' then .help else if letter == 'V' then .version else .unknown

def shape (allowed : List OptionName) (argument : String) : Shape :=
  match argument.toList with
  | ['-', '-'] => .endOfOptions
  | '-' :: '-' :: name => longShape allowed name
  | '-' :: letter :: rest => shortShape allowed letter rest
  | _ => .operand

abbrev Given := List (OptionName × String)

def give (given : Given) (o : OptionName) (value : String) : Except Refusal Given :=
  if (given.lookup o).isSome || !o.accepts value then .error .misuse else .ok ((o, value) :: given)

def readOptions (allowed : List OptionName) (given : Given) : List String → Except Refusal Given
  | [] => .ok given
  | argument :: rest =>
    match shape allowed argument with
    | .help => .error .helpWanted
    | .endOfOptions => if rest.isEmpty then .ok given else .error .misuse
    | .option o (some value) => do readOptions allowed (← give given o value) rest
    | .option o none =>
      match rest with
      | value :: rest =>
        if shape allowed value = .operand then do readOptions allowed (← give given o value) rest
        else .error .misuse
      | [] => .error .misuse
    | .operand | .version | .unknown => .error .misuse

def required (given : Given) (o : OptionName) : Except Refusal String :=
  match given.lookup o with
  | some value => .ok value
  | none => .error .misuse

def readCompile (arguments : List String) : Except Refusal Command := do
  let given ← readOptions [.schema, .view, .pointInTime, .dialect] [] arguments
  let dialect := ((given.lookup .dialect).bind dialect?).getD .postgres
  return .compile (← required given .schema) (← required given .view) (given.lookup .pointInTime) dialect

def readCheck (arguments : List String) : Except Refusal Command := do
  let given ← readOptions [.schema] [] arguments
  return .check (← required given .schema)

def readQuery (arguments : List String) : Except Refusal Command := do
  let given ← readOptions [.schema, .view, .database, .pointInTime] [] arguments
  return .query (← required given .schema) (← required given .view) (given.lookup .database)
    (given.lookup .pointInTime)

def readHelp : List String → Refusal
  | [] => .helpWanted
  | [topic] => if ["compile", "check", "query", "help"].contains topic then .helpWanted else .misuse
  | _ => .misuse

def read : List String → Except Refusal Command
  | [] => .error .misuse
  | argument :: rest =>
    if argument == "compile" then readCompile rest
    else if argument == "check" then readCheck rest
    else if argument == "query" then readQuery rest
    else if argument == "help" then .error (readHelp rest)
    else
      match shape [] argument with
      | .help | .version => .error .helpWanted
      | _ => .error .misuse

end Arguments

end ViewEngine
