import Mathlib.Tactic.Common
import ViewEngine.Sql.Dialect

/-!
Texts of statements cut into lexemes, character by character. A quote inside of quotes is written twice;
there are no other escapes. Blanks and comments separate lexemes and are none.

Some names are written as one word. A character may have several in upper case, and some outside of ASCII have upper
cases inside of it, which are letters, so such a name has an upper case that is one word too.
-/

namespace ViewEngine.Sql

inductive Lexeme where
  | word (text : String)
  | number (text : String)
  | string (contents : String)
  | identifier (contents : String)
  | parameter (name : String)
  | symbol (text : String)
deriving DecidableEq

/-- Characters of words: letters, digits and the underscore, and whatever is not ASCII. -/
def isWordCharacter (c : Char) : Bool :=
  c.isAlphanum || c == '_' || decide (128 ≤ c.toNat)

inductive Reading where
  | nothing
  | word (read : List Char)
  | number (read : List Char)
  | parameter (read : List Char)
  | operator (mark : Char)
  | quoted (quote : Char) (read : List Char)
  /-- Behind a quote, which ends the lexeme unless another one follows. -/
  | unquoted (quote : Char) (read : List Char)
  | lineComment
  | blockComment (starred : Bool)
deriving DecidableEq

namespace Reading

def pairs : List (Char × Char) :=
  [('<', '='), ('>', '='), ('<', '>'), ('!', '='), ('|', '|'), (':', ':')]

def symbolOf (mark : Char) : Lexeme :=
  .symbol (String.ofList [mark])

def lexemes : Reading → List Lexeme
  | .word read => [.word (String.ofList read)]
  | .number read => [.number (String.ofList read)]
  | .parameter [] => [symbolOf ':']
  | .parameter read => [.parameter (String.ofList read)]
  | .operator mark => [symbolOf mark]
  | .unquoted quote read =>
    [if quote = '\'' then .string (String.ofList read) else .identifier (String.ofList read)]
  | _ => []

def isComplete : Reading → Bool
  | .quoted .. | .blockComment _ => false
  | _ => true

/-- The reading with one more character and the lexemes that it completes, if the character belongs to what
is being read. A number goes on through letters, as a malformed one does, and through the sign of its exponent. -/
def goOn? : Reading → Char → Option (Reading × List Lexeme)
  | .nothing, _ => none
  | .word read, c => if isWordCharacter c then some (.word (read ++ [c]), []) else none
  | .number read, c =>
    let isSign := (c == '+' || c == '-') && (read.getLast? == some 'e' || read.getLast? == some 'E')
    if isWordCharacter c || c == '.' || isSign then some (.number (read ++ [c]), []) else none
  | .parameter read, c =>
    if isWordCharacter c then some (.parameter (read ++ [c]), [])
    else if read.isEmpty && c == ':' then some (.nothing, [.symbol "::"])
    else none
  | .operator mark, c =>
    if mark == '-' && c == '-' then some (.lineComment, [])
    else if mark == '/' && c == '*' then some (.blockComment false, [])
    else if mark == '.' && c.isDigit then some (.number ['.', c], [])
    else if pairs.contains (mark, c) then some (.nothing, [.symbol (String.ofList [mark, c])])
    else none
  | .quoted quote read, c =>
    some (if c = quote then .unquoted quote read else .quoted quote (read ++ [c]), [])
  | .unquoted quote read, c => if c = quote then some (.quoted quote (read ++ [c]), []) else none
  | .lineComment, c => some (if c = '\n' then .nothing else .lineComment, [])
  | .blockComment starred, c =>
    some (if starred && c == '/' then .nothing else .blockComment (c == '*'), [])

def begin (c : Char) : Reading :=
  if c.isWhitespace then .nothing
  else if c.isDigit then .number [c]
  else if isWordCharacter c then .word [c]
  else if c = ':' then .parameter []
  else if c = '\'' || c = '"' then .quoted c []
  else .operator c

def step (reading : Reading) (c : Char) : Reading × List Lexeme :=
  (reading.goOn? c).getD (begin c, reading.lexemes)

def run : Reading → List Char → Reading × List Lexeme
  | reading, [] => (reading, [])
  | reading, c :: rest =>
    let (next, done) := reading.step c
    let (last, further) := run next rest
    (last, done ++ further)

end Reading

/-- The lexemes of a text, unless it ends inside of quotes or of a comment. -/
def lex? (text : String) : Option (List Lexeme) :=
  let (reading, done) := Reading.nothing.run text.toList
  if reading.isComplete then some (done ++ reading.lexemes) else none

example : lex? "SELECT t0.\"a\"\"b\" -- '\n<> 'it''s' || :x" = some [.word "SELECT", .word "t0", .symbol ".",
    .identifier "a\"b", .symbol "<>", .string "it's", .symbol "||", .parameter "x"] := by
  decide +kernel

namespace Reading

variable {reading : Reading} {c : Char} {rest : List Char}

theorem run_append (reading : Reading) (before after : List Char) :
    reading.run (before ++ after) = (((reading.run before).1.run after).1,
      (reading.run before).2 ++ ((reading.run before).1.run after).2) := by
  induction before generalizing reading with
  | nil => rfl
  | cons c rest ih =>
      simp only [List.cons_append, run, ih, List.append_assoc]

theorem step_of_goOn {next : Reading} {done : List Lexeme} (goesOn : reading.goOn? c = some (next, done)) :
    reading.step c = (next, done) := by
  rw [step, goesOn, Option.getD_some]

/-- Where a character does not belong to what is being read, the text is cut. -/
theorem run_cut (cut : reading.goOn? c = none) (rest : List Char) :
    reading.run (c :: rest) = ((nothing.run (c :: rest)).1, reading.lexemes ++ (nothing.run (c :: rest)).2) := by
  have here : reading.step c = (begin c, reading.lexemes) := by rw [step, cut, Option.getD_none]
  have anew : nothing.step c = (begin c, []) := rfl
  simp only [run, here, anew, List.nil_append]

theorem run_of_goOn {make : List Char → Reading} {characters : List Char}
    (goesOn : ∀ c ∈ characters, ∀ read, (make read).goOn? c = some (make (read ++ [c]), []))
    (read : List Char) : (make read).run characters = (make (read ++ characters), []) := by
  induction characters generalizing read with
  | nil => simp [run]
  | cons c rest ih =>
      have here := step_of_goOn (goesOn c (List.mem_cons_self ..) read)
      have further := ih (fun c member => goesOn c (List.mem_cons_of_mem _ member)) (read ++ [c])
      simp only [run, here, further, List.append_assoc, List.singleton_append, List.nil_append]

theorem run_word {characters : List Char} (letters : ∀ c ∈ characters, isWordCharacter c = true)
    (read : List Char) : (word read).run characters = (word (read ++ characters), []) :=
  run_of_goOn (fun c member read => by simp [goOn?, letters c member]) read

theorem run_parameter {characters : List Char} (letters : ∀ c ∈ characters, isWordCharacter c = true)
    (read : List Char) : (parameter read).run characters = (parameter (read ++ characters), []) :=
  run_of_goOn (fun c member read => by simp [goOn?, letters c member]) read

theorem run_number {characters : List Char} (numeric : ∀ c ∈ characters, isWordCharacter c = true ∨ c = '.')
    (read : List Char) : (number read).run characters = (number (read ++ characters), []) :=
  run_of_goOn (fun c member read => by rcases numeric c member with letter | rfl <;> simp [goOn?, *]) read

/-- A text between quotes, in which every quote is doubled, is read as it was. -/
theorem run_doubled (quote : Char) (characters read : List Char) :
    (quoted quote read).run (Dialect.doubled quote characters) = (quoted quote (read ++ characters), []) := by
  induction characters generalizing read with
  | nil => simp [Dialect.doubled, run]
  | cons c rest ih =>
      have split : Dialect.doubled quote (c :: rest) =
          (if c = quote then [quote, quote] else [c]) ++ Dialect.doubled quote rest := rfl
      have first : (quoted quote read).run (if c = quote then [quote, quote] else [c]) =
          (quoted quote (read ++ [c]), []) := by
        by_cases isQuote : c = quote
        · subst isQuote
          simp [run, step, goOn?]
        · simp [run, step, goOn?, isQuote]
      rw [split, run_append, first, ih]
      simp

end Reading

end ViewEngine.Sql

namespace ViewEngine

namespace Sql

def IsName (name : String) : Prop :=
  name ≠ "" ∧ ∀ c ∈ name.toList, isWordCharacter c = true

instance (name : String) : Decidable (IsName name) :=
  decidable_of_iff (name ≠ "" ∧ name.toList.all isWordCharacter = true)
    (and_congr_right fun _ => List.all_eq_true)

end Sql

namespace Text

open Sql

theorem isWordCharacter_ofNat {code : Nat} (valid : code.isValidChar) (large : 128 ≤ code) :
    isWordCharacter (Char.ofNat code) = true := by
  have same : (Char.ofNat code).toNat = code := by
    rw [Char.ofNat, dif_pos valid]
    rfl
  simp [isWordCharacter, same, large]

def CaseRun.staysInWords (run : CaseRun) : Bool :=
  decide (run.last < 128) ||
  decide (128 ≤ run.first + run.shift ∧ (run.last + run.shift < 0xD800 ∨
    0xDFFF < run.first + run.shift ∧ run.last + run.shift < 0x110000)) ||
  (run.first == run.last && isWordCharacter (Char.ofNat (run.first + run.shift).toNat))

theorem upperRuns_stayInWords : ∀ run ∈ upperRuns, run.staysInWords = true := by
  decide +kernel

theorem upperExpansions_areWords : ∀ entry ∈ upperExpansions, entry.2 ≠ [] ∧
    ∀ code ∈ entry.2, isWordCharacter (Char.ofNat code) = true := by
  decide +kernel

theorem upperAscii_isWordCharacter : ∀ code < 128, isWordCharacter (Char.ofNat code) = true →
    isWordCharacter (Char.ofNat code).toUpper = true := by
  decide

theorem CaseRun.isWordCharacter_shifted {run : CaseRun} {code : Nat} (stays : run.staysInWords = true)
    (maps : run.maps code = true) (large : 128 ≤ code) :
    isWordCharacter (Char.ofNat (code + run.shift).toNat) = true := by
  simp only [CaseRun.maps, Bool.and_eq_true, decide_eq_true_eq] at maps
  obtain ⟨⟨atLeast, atMost⟩, -⟩ := maps
  simp only [CaseRun.staysInWords, Bool.or_eq_true, Bool.and_eq_true, decide_eq_true_eq, beq_iff_eq] at stays
  rcases stays with (ascii | ⟨above, valid⟩) | ⟨single, letter⟩
  · omega
  · refine isWordCharacter_ofNat ?_ (by omega)
    unfold Nat.isValidChar
    omega
  · rwa [show code = run.first by omega]

theorem mapCase_upper (c : Char) (large : 128 ≤ c.toNat) :
    mapCase upperExpansions upperRuns c ≠ [] ∧
      ∀ upper ∈ mapCase upperExpansions upperRuns c, isWordCharacter upper = true := by
  unfold mapCase
  split
  next codes found =>
    obtain ⟨before, after, split, -⟩ := List.lookup_eq_some_iff.mp found
    have listed : (c.toNat, codes) ∈ upperExpansions := by simp [split]
    obtain ⟨nonempty, letters⟩ := upperExpansions_areWords _ listed
    refine ⟨by simpa using nonempty, fun upper member => ?_⟩
    obtain ⟨code, inCodes, rfl⟩ := List.mem_map.mp member
    exact letters code inCodes
  next =>
    split
    next run found =>
      refine ⟨by simp, fun upper member => ?_⟩
      rw [List.mem_singleton.mp member]
      have maps : run.maps c.toNat = true := List.find?_some (p := fun (run : CaseRun) => run.maps c.toNat) found
      exact CaseRun.isWordCharacter_shifted (upperRuns_stayInWords run (List.mem_of_find?_eq_some found)) maps large
    next =>
      refine ⟨by simp, fun upper member => ?_⟩
      rw [List.mem_singleton.mp member]
      simp [isWordCharacter, large]

theorem isName_toUpper {name : String} (isName : IsName name) : IsName (toUpper name) := by
  have each : ∀ c ∈ name.toList,
      (if c.toNat < 128 then [c.toUpper] else mapCase upperExpansions upperRuns c) ≠ [] ∧
      ∀ upper ∈ (if c.toNat < 128 then [c.toUpper] else mapCase upperExpansions upperRuns c),
        isWordCharacter upper = true := by
    intro c member
    split
    next ascii =>
      refine ⟨by simp, fun upper isUpper => ?_⟩
      rw [List.mem_singleton.mp isUpper]
      have letter := upperAscii_isWordCharacter c.toNat ascii
      rw [Char.ofNat_toNat] at letter
      exact letter (isName.2 c member)
    next large => exact mapCase_upper c (by omega)
  constructor
  · intro empty
    obtain ⟨first, rest, shape⟩ := List.exists_cons_of_ne_nil (mt String.toList_eq_nil_iff.mp isName.1)
    have none : (toUpper name).toList = [] := by rw [empty]; rfl
    rw [toUpper, String.toList_ofList, shape, List.flatMap_cons, List.append_eq_nil_iff] at none
    exact (each first (shape ▸ List.mem_cons_self ..)).1 none.1
  · intro upper member
    rw [toUpper, String.toList_ofList, List.mem_flatMap] at member
    obtain ⟨c, inName, isUpper⟩ := member
    exact (each c inName).2 upper isUpper

end Text

end ViewEngine
