import ViewEngine.Error

/-!
References to environment variables inside a text. A reference is a dollar sign with a name in braces,
or with the longest name that follows it; all else stands for itself.
-/

namespace ViewEngine

abbrev Environment := String → Option String

namespace Expansion

inductive Piece where
  | literal (c : Char)
  | reference (name : String)
deriving DecidableEq

def startsName (c : Char) : Bool :=
  c.isAlpha || c == '_'

def continuesName (c : Char) : Bool :=
  c.isAlphanum || c == '_'

def splitName : List Char → List Char × List Char
  | [] => ([], [])
  | c :: rest =>
    if startsName c then (c :: rest.takeWhile continuesName, rest.dropWhile continuesName)
    else ([], c :: rest)

def reference? (characters : List Char) : Option (String × List Char) :=
  match characters with
  | '{' :: inner =>
    match splitName inner with
    | (name, '}' :: rest) => if name.isEmpty then none else some (String.ofList name, rest)
    | _ => none
  | _ =>
    let (name, rest) := splitName characters
    if name.isEmpty then none else some (String.ofList name, rest)

theorem length_splitName_le (characters : List Char) :
    (splitName characters).2.length ≤ characters.length := by
  unfold splitName
  split
  · simp
  · split
    · have shorter := (List.dropWhile_sublist (l := ‹List Char›) continuesName).length_le
      simp only [List.length_cons]
      omega
    · simp

theorem length_reference_le {characters rest : List Char} {name : String}
    (found : reference? characters = some (name, rest)) : rest.length ≤ characters.length := by
  unfold reference? at found
  split at found
  · rename_i inner
    split at found
    · rename_i braced after split
      have bound := length_splitName_le inner
      split at found
      · simp at found
      · simp only [Option.some.injEq, Prod.mk.injEq] at found
        rw [split] at bound
        simp only [List.length_cons] at bound ⊢
        rw [← found.2]
        omega
    · simp at found
  · have bound := length_splitName_le characters
    split at found
    rename_i bare after split
    rw [split] at bound
    split at found
    · simp at found
    · simp only [Option.some.injEq, Prod.mk.injEq] at found
      rw [← found.2]
      exact bound

def pieces : List Char → List Piece
  | [] => []
  | c :: characters =>
    if c = '$' then
      match _found : reference? characters with
      | some (name, rest) => .reference name :: pieces rest
      | none => .literal c :: pieces characters
    else .literal c :: pieces characters
termination_by characters => characters.length
decreasing_by
  all_goals simp only [List.length_cons]
  · have bound := length_reference_le _found
    omega
  · omega
  · omega

def pieceText (environment : Environment) : Piece → Except SettingsError (List Char)
  | .literal c => .ok [c]
  | .reference name =>
    match environment name with
    | some value => .ok value.toList
    | none => .error (.missingVariable name)

def joined (environment : Environment) : List Piece → Except SettingsError (List Char)
  | [] => .ok []
  | piece :: rest => do
    let text ← pieceText environment piece
    let others ← joined environment rest
    .ok (text ++ others)

def names (text : String) : List String :=
  (pieces text.toList).filterMap fun
    | .reference name => some name
    | .literal _ => none

end Expansion

/-- Each reference replaced by what its variable holds; values are not searched for references. -/
def expandReferences (environment : Environment) (text : String) : Except SettingsError String :=
  (Expansion.joined environment (Expansion.pieces text.toList)).map String.ofList

end ViewEngine
