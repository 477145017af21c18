import ViewEngine.Text.Step

namespace ViewEngine.Toml

open Text (Step)

def isSpace (c : Char) : Bool :=
  c == ' ' || c == '\t'

def skipSpaces (characters : List Char) : List Char :=
  characters.dropWhile isSpace

def isPlain (c : Char) : Bool :=
  c == '\t' || (32 ≤ c.toNat && c.toNat != 127)

def comment? : List Char → Option (List Char)
  | [] => some []
  | '\n' :: rest => some ('\n' :: rest)
  | '\r' :: '\n' :: rest => some ('\n' :: rest)
  | c :: rest => if isPlain c then comment? rest else none

def lineEnd? (characters : List Char) : Option (List Char) :=
  match skipSpaces characters with
  | [] => some []
  | '\n' :: rest => some rest
  | '\r' :: '\n' :: rest => some rest
  | '#' :: rest => (comment? rest).map (·.drop 1)
  | _ => none

def skipLines? (commented : Bool) : List Char → Option (List Char)
  | [] => some []
  | '\n' :: rest => skipLines? false rest
  | '\r' :: '\n' :: rest => skipLines? false rest
  | c :: rest =>
    if commented then (if isPlain c then skipLines? true rest else none)
    else if isSpace c then skipLines? false rest
    else if c == '#' then skipLines? true rest
    else some (c :: rest)

def hexValue? (c : Char) : Option Nat :=
  if c.isDigit then some (c.toNat - '0'.toNat)
  else if 'a' ≤ c ∧ c ≤ 'f' then some (c.toNat - 'a'.toNat + 10)
  else if 'A' ≤ c ∧ c ≤ 'F' then some (c.toNat - 'A'.toNat + 10)
  else none

def codePoint? (digits : List Char) : Option Char :=
  (digits.mapM hexValue?).bind fun values =>
    let code := values.foldl (fun code value => 16 * code + value) 0
    if code < 0xD800 ∨ (0xDFFF < code ∧ code < 0x110000) then some (Char.ofNat code) else none

def simpleEscape? : Char → Option Char
  | 'b' => some '\x08'
  | 'e' => some '\x1b'
  | 't' => some '\t'
  | 'n' => some '\n'
  | 'f' => some '\x0c'
  | 'r' => some '\r'
  | '"' => some '"'
  | '\\' => some '\\'
  | _ => none

def preceded (c : Char) (found : List Char × List Char) : List Char × List Char :=
  (c :: found.1, found.2)

def basicString? : Step (List Char)
  | [] => none
  | '"' :: rest => some ([], rest)
  | '\\' :: 'x' :: a :: b :: rest => do
    let code ← codePoint? [a, b]
    (basicString? rest).map (preceded code)
  | '\\' :: 'u' :: a :: b :: c :: d :: rest => do
    let code ← codePoint? [a, b, c, d]
    (basicString? rest).map (preceded code)
  | '\\' :: 'U' :: a :: b :: c :: d :: e :: f :: g :: h :: rest => do
    let code ← codePoint? [a, b, c, d, e, f, g, h]
    (basicString? rest).map (preceded code)
  | '\\' :: letter :: rest => do
    let escaped ← simpleEscape? letter
    (basicString? rest).map (preceded escaped)
  | c :: rest => if isPlain c then (basicString? rest).map (preceded c) else none

def literalString? : Step (List Char)
  | [] => none
  | '\'' :: rest => some ([], rest)
  | c :: rest => if isPlain c then (literalString? rest).map (preceded c) else none

/-- Where a string of several lines stands: in its text, after a backslash that must be followed by
the end of the line, or in the blanks that such a backslash removes. -/
inductive Break where
  | inside
  | expected
  | removing
deriving DecidableEq

def basicLines? (state : Break) : Step (List Char)
  | [] => none
  | '"' :: '"' :: '"' :: '"' :: '"' :: rest =>
    if state = .expected then none else some (['"', '"'], rest)
  | '"' :: '"' :: '"' :: '"' :: rest => if state = .expected then none else some (['"'], rest)
  | '"' :: '"' :: '"' :: rest => if state = .expected then none else some ([], rest)
  | '\n' :: rest =>
    if state = .inside then (basicLines? .inside rest).map (preceded '\n')
    else basicLines? .removing rest
  | '\r' :: '\n' :: rest =>
    if state = .inside then
      (basicLines? .inside rest).map fun found => preceded '\r' (preceded '\n' found)
    else basicLines? .removing rest
  | ' ' :: rest =>
    if state = .inside then (basicLines? .inside rest).map (preceded ' ')
    else basicLines? state rest
  | '\t' :: rest =>
    if state = .inside then (basicLines? .inside rest).map (preceded '\t')
    else basicLines? state rest
  | '\\' :: 'x' :: a :: b :: rest =>
    if state = .expected then none
    else do
      let code ← codePoint? [a, b]
      (basicLines? .inside rest).map (preceded code)
  | '\\' :: 'u' :: a :: b :: c :: d :: rest =>
    if state = .expected then none
    else do
      let code ← codePoint? [a, b, c, d]
      (basicLines? .inside rest).map (preceded code)
  | '\\' :: 'U' :: a :: b :: c :: d :: e :: f :: g :: h :: rest =>
    if state = .expected then none
    else do
      let code ← codePoint? [a, b, c, d, e, f, g, h]
      (basicLines? .inside rest).map (preceded code)
  | '\\' :: '\n' :: rest => if state = .expected then none else basicLines? .removing rest
  | '\\' :: '\r' :: '\n' :: rest => if state = .expected then none else basicLines? .removing rest
  | '\\' :: letter :: rest =>
    if state = .expected then none
    else if isSpace letter then basicLines? .expected rest
    else do
      let escaped ← simpleEscape? letter
      (basicLines? .inside rest).map (preceded escaped)
  | c :: rest =>
    if state = .expected || !isPlain c then none
    else (basicLines? .inside rest).map (preceded c)

def literalLines? : Step (List Char)
  | [] => none
  | '\'' :: '\'' :: '\'' :: '\'' :: '\'' :: rest => some (['\'', '\''], rest)
  | '\'' :: '\'' :: '\'' :: '\'' :: rest => some (['\''], rest)
  | '\'' :: '\'' :: '\'' :: rest => some ([], rest)
  | '\n' :: rest => (literalLines? rest).map (preceded '\n')
  | '\r' :: '\n' :: rest =>
    (literalLines? rest).map fun found => preceded '\r' (preceded '\n' found)
  | c :: rest => if isPlain c then (literalLines? rest).map (preceded c) else none

def withoutFirstBreak : List Char → List Char
  | '\n' :: rest => rest
  | '\r' :: '\n' :: rest => rest
  | characters => characters

def string? : Step String := fun characters =>
  let found :=
    match characters with
    | '"' :: '"' :: '"' :: rest => basicLines? .inside (withoutFirstBreak rest)
    | '\'' :: '\'' :: '\'' :: rest => literalLines? (withoutFirstBreak rest)
    | '"' :: rest => basicString? rest
    | '\'' :: rest => literalString? rest
    | _ => none
  found.map fun (text, rest) => (String.ofList text, rest)

def isBareKey (c : Char) : Bool :=
  c.isAlphanum || c == '_' || c == '-'

def simpleKey? : Step String := fun characters =>
  match characters with
  | '"' :: rest => (basicString? rest).map fun (text, after) => (String.ofList text, after)
  | '\'' :: rest => (literalString? rest).map fun (text, after) => (String.ofList text, after)
  | _ =>
    let bare := characters.takeWhile isBareKey
    if bare.isEmpty then none else some (String.ofList bare, characters.dropWhile isBareKey)

def dottedKey? : Nat → Step (List String)
  | 0, _ => none
  | parts + 1, characters => do
    let (part, rest) ← simpleKey? characters
    match skipSpaces rest with
    | '.' :: more => do
      let (others, after) ← dottedKey? parts (skipSpaces more)
      some (part :: others, after)
    | after => some ([part], after)

def mostKeyParts : Nat := 80

def key? : Step (List String) :=
  dottedKey? mostKeyParts

end ViewEngine.Toml
