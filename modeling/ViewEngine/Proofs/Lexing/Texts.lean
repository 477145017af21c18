import ViewEngine.Proofs.Lexing.Spacing
import ViewEngine.Proofs.Lexing.Tokens

namespace ViewEngine.Sql

open Reading

def Reading.cutOf (characters : List Char) : List Lexeme :=
  (nothing.run characters).2 ++ (nothing.run characters).1.lexemes

theorem lex?_of_complete {text : String} (complete : (nothing.run text.toList).1.isComplete = true) :
    lex? text = some (cutOf text.toList) := by
  simp only [lex?, complete, if_true, cutOf]

theorem Reading.cutOf_append {before rest : List Char} {c : Char}
    (cut : (nothing.run before).1.goOn? c = none) :
    cutOf (before ++ c :: rest) = cutOf before ++ cutOf (c :: rest) := by
  simp only [cutOf, run_append, run_cut cut, List.append_assoc]

theorem symbol_text {dialect : Dialect} {mark : Symbol} {c : Char} (written : mark.text dialect = String.ofList [c]) :
    (Token.text dialect (.symbol mark)).toList = [c] := by
  rw [Token.text, written, String.toList_ofList]

theorem text_free (dialect : Dialect) {token : Token} (free : token.isFree = true) :
    (∃ count, (token.text dialect).toList = List.replicate (count + 1) ' ') ∨
      ∃ mark ∈ ['\n', '(', ')', ','], (token.text dialect).toList = [mark] := by
  cases token with
  | space => exact .inl ⟨0, by rw [Token.text]; rfl⟩
  | newline => exact .inr ⟨'\n', by decide, by rw [Token.text]; rfl⟩
  | indent levels =>
      cases levels with
      | zero => cases free
      | succ levels => exact .inl ⟨2 * levels + 1, by rw [Token.text, String.toList_ofList]; rfl⟩
  | symbol mark =>
      cases mark with
      | opening => exact .inr ⟨'(', by decide, symbol_text rfl⟩
      | closing => exact .inr ⟨')', by decide, symbol_text rfl⟩
      | comma => exact .inr ⟨',', by decide, symbol_text rfl⟩
      | _ => cases free
  | _ => cases free

theorem goOn?_free (dialect : Dialect) {token : Token} (free : token.isFree = true) (c : Char) :
    (nothing.run (token.text dialect).toList).1.goOn? c = none := by
  rcases text_free dialect free with ⟨count, blank⟩ | ⟨mark, member, single⟩
  · rw [blank, run_blanks]
    rfl
  · simp only [List.mem_cons, List.not_mem_nil, or_false] at member
    rw [single]
    rcases member with rfl | rfl | rfl | rfl <;> simp [run, step, goOn?, begin, isWordCharacter, pairs]

theorem head_free (dialect : Dialect) {token : Token} (free : token.isFree = true) :
    ∃ c ∈ separators, ∃ rest, (token.text dialect).toList = c :: rest := by
  rcases text_free dialect free with ⟨count, blank⟩ | ⟨mark, member, single⟩
  · exact ⟨' ', by decide, List.replicate count ' ', blank⟩
  · exact ⟨mark, List.mem_cons_of_mem ' ' member, [], single⟩

theorem Token.MayMeet.cut (dialect : Dialect) {token next : Token} (meets : token.MayMeet next)
    (named : token.IsNamed) (rest : List Char) : ∀ c ∈ ((next.text dialect).toList ++ rest).head?,
      (nothing.run (token.text dialect).toList).1.goOn? c = none := by
  intro c first
  cases meets with
  | before free => exact goOn?_free dialect free c
  | behind free =>
      obtain ⟨separator, member, more, shape⟩ := head_free dialect free
      rw [shape, List.cons_append, List.head?_cons, Option.mem_some_iff] at first
      exact (Token.isLoose dialect named).cut c (first ▸ member)
  | qualifier table =>
      have dot : '.' = c := by simpa [Token.text, Symbol.text] using first
      rw [Token.text, tableAlias_run, ← dot]
      rfl
  | column name =>
      have quote : '"' = c := by
        simpa [Token.text, Dialect.identifier, Dialect.quoted, String.toList_ofList] using first
      rw [← quote, symbol_text (c := '.') rfl]
      rfl
  | star =>
      have star : '*' = c := by simpa [Token.text, Symbol.text] using first
      rw [← star, symbol_text (c := '.') rfl]
      rfl

theorem AreSpaced.cut (dialect : Dialect) {tokens : List Token} (spaced : AreSpaced tokens)
    (named : ∀ token ∈ tokens, token.IsNamed) :
    (nothing.run (textOf dialect tokens).toList).1.isComplete = true ∧
      cutOf (textOf dialect tokens).toList = tokens.flatMap fun token => cutOf (token.text dialect).toList := by
  -- Induction on the tokens; each is cut off from all of the text behind it.
  induction tokens with
  | nil => exact ⟨rfl, rfl⟩
  | cons token rest ih =>
      rw [List.forall_mem_cons] at named
      rw [AreSpaced, List.isChain_cons] at spaced
      obtain ⟨complete, same⟩ := ih spaced.2 named.2
      have loose := Token.isLoose dialect named.1
      have cut : ∀ c ∈ (textOf dialect rest).toList.head?,
          (nothing.run (token.text dialect).toList).1.goOn? c = none := by
        cases rest with
        | nil => exact fun c none => by cases none
        | cons next others =>
            rw [textOf, String.toList_append]
            exact (spaced.1 next rfl).cut dialect named.1 _
      rw [textOf, String.toList_append, List.flatMap_cons, ← same]
      cases further : (textOf dialect rest).toList with
      | nil => exact ⟨by simpa using loose.complete, by simp [cutOf, run, lexemes]⟩
      | cons c more =>
          rw [further] at cut complete
          have cutHere := cut c rfl
          exact ⟨by rwa [run_apart cutHere], cutOf_append cutHere⟩

theorem lex?_token (dialect : Dialect) {token : Token} (named : token.IsNamed) :
    lex? (token.text dialect) = some (cutOf (token.text dialect).toList) :=
  lex?_of_complete (Token.isLoose dialect named).complete

theorem AreSpaced.lex? (dialect : Dialect) {tokens : List Token} (spaced : AreSpaced tokens)
    (named : ∀ token ∈ tokens, token.IsNamed) : ∃ parts,
    List.Forall₂ (fun token part => lex? (token.text dialect) = some part) tokens parts ∧
      lex? (textOf dialect tokens) = some parts.flatten := by
  obtain ⟨complete, same⟩ := spaced.cut dialect named
  refine ⟨tokens.map fun token => cutOf (token.text dialect).toList, ?_, ?_⟩
  · rw [List.forall₂_map_right_iff, List.forall₂_same]
    exact fun token member => lex?_token dialect (named token member)
  · rw [lex?_of_complete complete, same, List.flatMap_def]

theorem cutOf_quoted {quote : Char} (isQuote : quote = '\'' ∨ quote = '"') (text : String) :
    cutOf (Dialect.quoted quote text).toList =
      [if quote = '\'' then .string text else .identifier text] := by
  simp only [cutOf, quoted_run isQuote, lexemes, String.ofList_toList, List.nil_append]

theorem lex?_string (dialect : Dialect) (contents : String) :
    lex? (Token.text dialect (.string contents)) = some [.string contents] := by
  have named : (Token.string contents).IsNamed := Token.isNamed_of_none rfl
  rw [lex?_token dialect named]
  exact congrArg some (cutOf_quoted (.inl rfl) contents)

theorem lex?_identifier (dialect : Dialect) (name : String) :
    lex? (Token.text dialect (.identifier name)) = some [.identifier name] := by
  have named : (Token.identifier name).IsNamed := Token.isNamed_of_none rfl
  rw [lex?_token dialect named]
  exact congrArg some (cutOf_quoted (.inr rfl) name)

end ViewEngine.Sql
