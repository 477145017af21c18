import ViewEngine.Toml.Scalar
import ViewEngine.Toml.Table

namespace ViewEngine.Toml

open Text (Step)

def mostNesting : Nat := 80

mutual

/-- A value of any form. Every step of the three readers takes a character, so the length of the text
is fuel enough. -/
def value? : Nat → Nat → Step Document
  | 0, _, _ => none
  | fuel + 1, depth, characters =>
    match characters with
    | '"' :: _ => (string? characters).map fun (text, rest) => (.string text, rest)
    | '\'' :: _ => (string? characters).map fun (text, rest) => (.string text, rest)
    | '[' :: rest =>
      if depth = 0 then none
      else (items? fuel (depth - 1) rest).map fun (items, rest) => (.array items, rest)
    | '{' :: rest =>
      if depth = 0 then none
      else (inline? fuel (depth - 1) [] rest).map fun (entries, rest) =>
        ((Node.table .headed entries).document, rest)
    | _ => scalar? characters

def items? : Nat → Nat → Step (List Document)
  | 0, _, _ => none
  | fuel + 1, depth, characters => do
    match ← skipLines? false characters with
    | ']' :: rest => some ([], rest)
    | characters => do
      let (item, rest) ← value? fuel depth characters
      match ← skipLines? false rest with
      | ']' :: rest => some ([item], rest)
      | ',' :: rest => do
        let (others, rest) ← items? fuel depth rest
        some (item :: others, rest)
      | _ => none

def inline? : Nat → Nat → Keyed Node → Step (Keyed Node)
  | 0, _, _, _ => none
  | fuel + 1, depth, entries, characters => do
    match ← skipLines? false characters with
    | '}' :: rest => some (entries, rest)
    | characters => do
      let (path, rest) ← key? characters
      let (_, rest) ← Text.character? '=' (← skipLines? false rest)
      let (document, rest) ← value? fuel depth (← skipLines? false rest)
      let entries ← Node.addValue path document .headed entries
      match ← skipLines? false rest with
      | '}' :: rest => some (entries, rest)
      | ',' :: rest => inline? fuel depth entries rest
      | _ => none

end

/-- The tables read so far, and the path of the one that keys are added to. -/
structure Progress where
  root : Keyed Node := []
  current : List String := []

def addKey (progress : Progress) (path : List String) (document : Document) : Option Progress :=
  (Node.changeAt false (Node.addValue path document) progress.current .headed progress.root).map
    fun root => { progress with root := root }

def expression? (progress : Progress) : Step Progress := fun characters =>
  match characters with
  | '[' :: '[' :: rest => do
    let (path, rest) ← key? (skipSpaces rest)
    let (_, rest) ← Text.word? "]]" rest
    let root ← Node.appendTable path progress.root
    some (⟨root, path⟩, rest)
  | '[' :: rest => do
    let (path, rest) ← key? (skipSpaces rest)
    let (_, rest) ← Text.character? ']' rest
    let root ← Node.openTable path progress.root
    some (⟨root, path⟩, rest)
  | _ => do
    let (path, rest) ← key? characters
    let (_, rest) ← Text.character? '=' rest
    let characters := skipSpaces rest
    let (document, rest) ← value? (characters.length + 1) mostNesting characters
    let progress ← addKey progress path document
    some (progress, rest)

def expressions? : Nat → Progress → List Char → Option Progress
  | 0, _, _ => none
  | fuel + 1, progress, characters => do
    match ← skipLines? false characters with
    | [] => some progress
    | characters => do
      let (progress, rest) ← expression? progress characters
      expressions? fuel progress (← lineEnd? rest)

def withoutMark : List Char → List Char
  | '\uFEFF' :: rest => rest
  | characters => characters

def read? (text : String) : Option Document :=
  let characters := withoutMark text.toList
  (expressions? (characters.length + 1) {} characters).map fun progress =>
    (Node.table .headed progress.root).document

end ViewEngine.Toml
