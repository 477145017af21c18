import ViewEngine.Keyed
import ViewEngine.Text.Split

namespace ViewEngine

inductive FileFault where
  | missing
  | notADirectory
  | isADirectory
  | nameTooLong
  | other (cause : String)
deriving DecidableEq, Repr

def FileFault.message : FileFault → String
  | .missing => "No such file or directory (os error 2)"
  | .notADirectory => "Not a directory (os error 20)"
  | .isADirectory => "Is a directory (os error 21)"
  | .nameTooLong => "File name too long (os error 36)"
  | .other cause => cause

/-- Files by the directories on the way to them and their name, and the directory that paths start in
unless they begin with a slash. No other directory is empty. -/
structure Files where
  contents : List (List String × String)
  workingDirectory : List String

namespace Files

def ofTexts (workingDirectory : List String) (texts : List (String × String)) : Files :=
  ⟨texts.map fun (path, text) => (workingDirectory ++ Text.split '/' path, text), workingDirectory⟩

def isDirectory (f : Files) (place : List String) : Bool :=
  place.isPrefixOf f.workingDirectory ||
    f.contents.any fun (file, _) => place.isPrefixOf file && place != file

def mostNameBytes : Nat := 255

def mostPathBytes : Nat := 4095

/-- Goes from a directory along the parts of a path. An empty part or a dot stays in the directory,
and two dots go up. -/
def walk (f : Files) : List String → List String → Except FileFault String
  | _, [] => .error .isADirectory
  | place, name :: rest =>
    if name.isEmpty || name == "." then f.walk place rest
    else if name == ".." then f.walk place.dropLast rest
    else if mostNameBytes < name.utf8ByteSize then .error .nameTooLong
    else
      let next := place ++ [name]
      if f.isDirectory next then f.walk next rest
      else
        match f.contents.lookup next with
        | none => .error .missing
        | some text => if rest.isEmpty then .ok text else .error .notADirectory

def read (f : Files) (path : String) : Except FileFault String :=
  if path.isEmpty then .error .missing
  else if mostPathBytes < path.utf8ByteSize then .error .nameTooLong
  else f.walk (if path.startsWith "/" then [] else f.workingDirectory) (Text.split '/' path)

def holds (f : Files) (path : String) : Bool :=
  match f.read path with
  | .ok _ | .error .isADirectory => true
  | .error _ => false

end Files

end ViewEngine
