import ViewEngine.Proofs.Lexing.Texts
import ViewEngine.Proofs.Relational.Literals

/-!
Statements apart from the contents of their strings. Statements that differ in nothing else have the same
lexemes, but for what their string literals carry.
-/

namespace ViewEngine.Sql

open Reading (cutOf)

def Literal.withoutText : Literal → Literal
  | .string _ => .string ""
  | literal => literal

def Token.withoutText : Token → Token
  | .string _ => .string ""
  | token => token

namespace Statement

def clausesWithoutTexts (s : Statement) : Statement :=
  { s with
    selected := s.selected.map fun item => { item with expr := item.expr.mapLiterals Literal.withoutText }
    joins := s.joins.map fun join => { join with condition := join.condition.mapLiterals Literal.withoutText }
    conditions := s.conditions.map (Condition.mapLiterals Literal.withoutText)
    groupConditions := s.groupConditions.map (Condition.mapLiterals Literal.withoutText)
    grouping := s.grouping.map (Expr.mapLiterals Literal.withoutText)
    orderings := s.orderings.map fun ordering => { ordering with expr := ordering.expr.mapLiterals Literal.withoutText }
    assignments := s.assignments.map fun assignment => (assignment.1, assignment.2.mapLiterals Literal.withoutText)
    insertValues := s.insertValues.map (Expr.mapLiterals Literal.withoutText) }

def withoutTexts (s : Statement) : Statement :=
  { s.clausesWithoutTexts with
    source := match _found : s.source with
      | some source => some source.withoutTexts
      | none => none }
termination_by sizeOf s
decreasing_by
  cases s
  simp only at _found
  subst _found
  simp only [mk.sizeOf_spec, Option.some.sizeOf_spec]
  omega

end Statement

/-- Lexemes that are the same or both the literals of strings. -/
inductive Lexeme.AreAlike : Lexeme → Lexeme → Prop
  | same (lexeme : Lexeme) : AreAlike lexeme lexeme
  | strings (contents contents' : String) : AreAlike (.string contents) (.string contents')

theorem separated_map (change : Token → Token) (comma : change (.symbol .comma) = .symbol .comma)
    (space : change .space = .space) (items : List (List Token)) :
    separated (items.map (List.map change)) = (separated items).map change := by
  induction items with
  | nil => rfl
  | cons item rest ih =>
      cases rest with
      | nil => rfl
      | cons next rest =>
          rw [List.map_cons] at ih
          simp only [List.map_cons, separated, ih, List.map_append, List.map_nil, comma, space]

theorem separated_withoutText (items : List (List Token)) :
    separated (items.map (List.map Token.withoutText)) = (separated items).map Token.withoutText :=
  separated_map Token.withoutText rfl rfl items

theorem qualified_withoutText {last : Token} (unchanged : last.withoutText = last) (table : Option Nat) :
    (Expr.qualified table last).map Token.withoutText = Expr.qualified table last := by
  cases table with
  | none => exact congrArg (fun token => [token]) unchanged
  | some table =>
      simp only [Expr.qualified, List.map_cons, List.map_nil, unchanged]
      rfl

mutual

theorem Expr.tokens_withoutTexts : ∀ expr : Expr,
    (expr.mapLiterals Literal.withoutText).tokens = expr.tokens.map Token.withoutText
  | .column table name => (qualified_withoutText rfl table).symm
  | .literal value => by cases value <;> rfl
  | .parameter name => rfl
  | .binary operator left right => by
    have unchanged : operator.token.withoutText = operator.token := by cases operator <;> rfl
    simp only [mapLiterals, tokens, left.tokens_withoutTexts, right.tokens_withoutTexts, List.map_append,
      List.map_cons, List.map_nil, unchanged]
    rfl
  | .negation operand => by simp [mapLiterals, tokens, operand.tokens_withoutTexts, Token.withoutText]
  | .function name arguments => by
    simp [mapLiterals, tokens, tokensOfEach_withoutTexts arguments, separated_withoutText, Token.withoutText]
  | .castText operand => by simp [mapLiterals, tokens, operand.tokens_withoutTexts, Token.withoutText]
  | .membership _ [] negated => rfl
  | .membership operand (value :: values) negated => by
    have listed := separated_withoutText (value.tokens :: tokensOfEach values)
    rw [List.map_cons] at listed
    cases negated <;>
      simp [mapLiterals, mapLiteralsOfEach, tokens, operand.tokens_withoutTexts, value.tokens_withoutTexts,
        tokensOfEach_withoutTexts values, listed, Token.withoutText]
  | .nullTest operand negated => by
    simp [mapLiterals, tokens, operand.tokens_withoutTexts, Token.withoutText]
  | .star table => (qualified_withoutText rfl table).symm
  | .wholeRow table keyColumn => rfl
  | .parenthesis inner => by simp [mapLiterals, tokens, inner.tokens_withoutTexts, Token.withoutText]

theorem Expr.tokensOfEach_withoutTexts : ∀ exprs : List Expr,
    tokensOfEach (mapLiteralsOfEach Literal.withoutText exprs) = (tokensOfEach exprs).map (List.map Token.withoutText)
  | [] => rfl
  | expr :: rest => by
    rw [mapLiteralsOfEach, tokensOfEach, tokensOfEach, List.map_cons, expr.tokens_withoutTexts,
      tokensOfEach_withoutTexts rest]

end

namespace Statement

theorem map_withoutTexts {α : Type} {write : α → List Token} {change : α → α}
    (each : ∀ item, write (change item) = (write item).map Token.withoutText) (items : List α) :
    (items.map change).map write = (items.map write).map (List.map Token.withoutText) := by
  rw [List.map_map, List.map_map]
  exact List.map_congr_left fun item _ => each item

theorem clause_withoutText (heading : Keyword) (items : List (List Token)) :
    clause heading (items.map (List.map Token.withoutText)) = (clause heading items).map Token.withoutText := by
  unfold clause
  cases items with
  | nil => rfl
  | cons item rest =>
      have listed := separated_withoutText (item :: rest)
      rw [List.map_cons] at listed
      simp only [List.map_cons, List.isEmpty_cons, listed]
      rfl

theorem predicateClause_withoutTexts (heading : Keyword) (conditions : List Condition) :
    predicateClause heading (Condition.fold? (conditions.map (Condition.mapLiterals Literal.withoutText))) =
      (predicateClause heading (Condition.fold? conditions)).map Token.withoutText := by
  have folded : Condition.fold? (conditions.map (Condition.mapLiterals Literal.withoutText)) =
      (Condition.fold? conditions).map (Expr.mapLiterals Literal.withoutText) :=
    Condition.fold?_mapLiterals Literal.withoutText conditions
  rw [predicateClause, predicateClause, folded, ← clause_withoutText]
  cases Condition.fold? conditions with
  | none => rfl
  | some predicate =>
      simp only [Option.map_some, Option.toList_some, List.map_cons, List.map_nil, predicate.tokens_withoutTexts]

theorem tableReference_withoutText (reference : TableReference) :
    reference.tokens.map Token.withoutText = reference.tokens := by
  unfold TableReference.tokens
  cases reference.number <;> rfl

theorem join_withoutTexts (join : Join) :
    Join.tokens { join with condition := join.condition.mapLiterals Literal.withoutText } = join.tokens.map Token.withoutText := by
  have kind : join.kind.token.withoutText = join.kind.token := by cases join.kind <;> rfl
  simp only [Join.tokens, ← Expr.parenthesized_mapLiterals, Expr.tokens_withoutTexts, List.map_append,
    tableReference_withoutText,
    List.map_cons, List.map_nil, kind]
  rfl

theorem selectItem_withoutTexts (item : SelectItem) :
    SelectItem.tokens { item with expr := item.expr.mapLiterals Literal.withoutText } =
      (SelectItem.tokens item).map Token.withoutText := by
  rw [SelectItem.tokens, SelectItem.tokens, item.expr.tokens_withoutTexts, List.map_append]
  cases item.label <;> rfl

theorem selectedTokens_withoutTexts (items : List SelectItem) :
    selectedTokens (items.map fun item => { item with expr := item.expr.mapLiterals Literal.withoutText }) =
      (selectedTokens items).map Token.withoutText := by
  induction items with
  | nil => rfl
  | cons item rest ih =>
      cases rest with
      | nil =>
          simp only [List.map_cons, List.map_nil, selectedTokens, selectItem_withoutTexts, List.map_append]
          rfl
      | cons next rest =>
          rw [List.map_cons] at ih
          simp only [List.map_cons, selectedTokens, selectItem_withoutTexts, ih, List.map_append]
          rfl

theorem ordering_withoutTexts (ordering : Ordering) :
    orderingTokens { ordering with expr := ordering.expr.mapLiterals Literal.withoutText } =
      (orderingTokens ordering).map Token.withoutText := by
  rw [orderingTokens, orderingTokens, ordering.expr.tokens_withoutTexts, List.map_append]
  cases ordering.direction <;> rfl

theorem assignment_withoutTexts (assignment : String × Expr) :
    assignmentTokens (assignment.1, assignment.2.mapLiterals Literal.withoutText) =
      (assignmentTokens assignment).map Token.withoutText := by
  rw [assignmentTokens, assignmentTokens, assignment.2.tokens_withoutTexts, List.map_append]
  rfl

theorem targetTokens_withoutText (s : Statement) : s.targetTokens.map Token.withoutText = s.targetTokens := by
  unfold targetTokens
  cases s.tables.head? with
  | none => rfl
  | some reference => exact tableReference_withoutText reference

theorem columnListTokens_withoutText (columns : List String) :
    (columnListTokens columns).map Token.withoutText = columnListTokens columns := by
  have names : (columns.map fun column => [Token.identifier column]).map (List.map Token.withoutText) =
      columns.map fun column => [Token.identifier column] := by
    rw [List.map_map]
    rfl
  unfold columnListTokens
  split
  · rfl
  · rw [List.map_append, List.map_append, ← separated_withoutText, names]
    rfl

theorem valuesTokens_withoutTexts (values : List Expr) :
    valuesTokens (values.map (Expr.mapLiterals Literal.withoutText)) = (valuesTokens values).map Token.withoutText := by
  rw [valuesTokens, valuesTokens, map_withoutTexts Expr.tokens_withoutTexts, separated_withoutText,
    List.map_append, List.map_append]
  rfl

theorem selectTokens_withoutTexts (s : Statement) :
    s.clausesWithoutTexts.selectTokens = s.selectTokens.map Token.withoutText := by
  have distinct : (if s.distinct then [Token.space, .keyword .distinct] else []).map Token.withoutText =
      if s.distinct then [.space, .keyword .distinct] else [] := by
    split <;> rfl
  have tables : (clause .fromClause (s.tables.map TableReference.tokens)).map Token.withoutText =
      clause .fromClause (s.tables.map TableReference.tokens) := by
    rw [← clause_withoutText, List.map_map]
    exact congrArg _ (List.map_congr_left fun reference _ => tableReference_withoutText reference)
  have joins : (s.joins.map fun join => { join with condition := join.condition.mapLiterals Literal.withoutText }).flatMap
      (fun join => .newline :: join.tokens) =
        (s.joins.flatMap fun join => .newline :: join.tokens).map Token.withoutText := by
    rw [List.map_flatMap, List.flatMap_map]
    exact congrArg (s.joins.flatMap ·) (funext fun join => congrArg (Token.newline :: ·) (join_withoutTexts join))
  have pagination : s.paginationTokens.map Token.withoutText = s.paginationTokens := by
    unfold paginationTokens
    split <;> rfl
  have unpaged : s.clausesWithoutTexts.paginationTokens = s.paginationTokens := rfl
  simp only [selectTokens, List.map_append, distinct, tables, pagination, unpaged, ← clause_withoutText,
    ← map_withoutTexts Expr.tokens_withoutTexts, ← map_withoutTexts ordering_withoutTexts,
    ← selectedTokens_withoutTexts, ← joins, predicate?, groupPredicate?, ← predicateClause_withoutTexts]
  rfl

theorem updateTokens_withoutTexts (s : Statement) :
    s.clausesWithoutTexts.updateTokens = s.updateTokens.map Token.withoutText := by
  simp only [updateTokens, List.map_append, targetTokens_withoutText, ← separated_withoutText,
    ← map_withoutTexts assignment_withoutTexts, predicate?, ← predicateClause_withoutTexts]
  rfl

theorem deleteTokens_withoutTexts (s : Statement) :
    s.clausesWithoutTexts.deleteTokens = s.deleteTokens.map Token.withoutText := by
  simp only [deleteTokens, List.map_append, targetTokens_withoutText, predicate?, ← predicateClause_withoutTexts]
  rfl

theorem tokens_withoutTexts (s : Statement) : s.withoutTexts.tokens = s.tokens.map Token.withoutText := by
  rw [withoutTexts, tokens, tokens]
  have kept : s.clausesWithoutTexts.kind = s.kind := rfl
  simp only [kept]
  cases kind : s.kind with
  | select => exact s.selectTokens_withoutTexts
  | update => exact s.updateTokens_withoutTexts
  | delete => exact s.deleteTokens_withoutTexts
  | insert =>
      have rows : (match _found : { s.clausesWithoutTexts with
            source := match _found : s.source with
              | some source => some source.withoutTexts
              | none => none }.source with
          | some source => source.tokens
          | none => valuesTokens s.clausesWithoutTexts.insertValues) =
          (match _found : s.source with
            | some source => source.tokens
            | none => valuesTokens s.insertValues).map Token.withoutText := by
        cases found : s.source with
        | none => exact valuesTokens_withoutTexts s.insertValues
        | some source => exact source.tokens_withoutTexts
      simp only [List.map_append, targetTokens_withoutText, columnListTokens_withoutText]
      exact congrArg₂ (· ++ ·) rfl rows
termination_by sizeOf s
decreasing_by
  rename_i found
  cases s
  simp only at found
  subst found
  simp only [mk.sizeOf_spec, Option.some.sizeOf_spec]
  omega

end Statement

theorem Lexeme.areAlike_refl (lexemes : List Lexeme) : List.Forall₂ AreAlike lexemes lexemes :=
  List.forall₂_same.mpr fun lexeme _ => .same lexeme

theorem cutOf_alike (dialect : Dialect) {token token' : Token} (same : token.withoutText = token'.withoutText) :
    List.Forall₂ Lexeme.AreAlike (cutOf (token.text dialect).toList) (cutOf (token'.text dialect).toList) := by
  by_cases strings : ∃ contents contents', token = .string contents ∧ token' = .string contents'
  · obtain ⟨contents, contents', rfl, rfl⟩ := strings
    have first : cutOf (Token.text dialect (.string contents)).toList = [.string contents] :=
      cutOf_quoted (.inl rfl) contents
    have second : cutOf (Token.text dialect (.string contents')).toList = [.string contents'] :=
      cutOf_quoted (.inl rfl) contents'
    rw [first, second]
    exact .cons (.strings contents contents') .nil
  · have equal : token = token' := by
      cases token <;> cases token' <;> simp_all [Token.withoutText]
    rw [equal]
    exact Lexeme.areAlike_refl _

theorem flatMap_alike (dialect : Dialect) {tokens tokens' : List Token}
    (same : tokens.map Token.withoutText = tokens'.map Token.withoutText) :
    List.Forall₂ Lexeme.AreAlike (tokens.flatMap fun token => cutOf (token.text dialect).toList)
      (tokens'.flatMap fun token => cutOf (token.text dialect).toList) := by
  induction tokens generalizing tokens' with
  | nil =>
      rw [List.map_nil, eq_comm, List.map_eq_nil_iff] at same
      rw [same]
      exact .nil
  | cons token rest ih =>
      obtain ⟨token', rest', rfl, first, others⟩ := List.map_eq_cons_iff.mp same.symm
      rw [List.flatMap_cons, List.flatMap_cons]
      exact List.rel_append (cutOf_alike dialect first.symm) (ih others.symm)

/-- What expressions and statements write. -/
def IsWritten (tokens : List Token) : Prop :=
  (∃ s : Statement, s.tokens = tokens) ∨ ∃ expr : Expr, expr.tokens = tokens

theorem IsWritten.spaced {tokens : List Token} (written : IsWritten tokens) : AreSpaced tokens := by
  rcases written with ⟨s, rfl⟩ | ⟨expr, rfl⟩
  · exact s.tokens_spaced
  · exact expr.tokens_spaced

theorem isNamed_withoutText (token : Token) : token.withoutText.IsNamed ↔ token.IsNamed := by
  cases token <;> rfl

/-- Whatever the strings and names of a text contain, it is cut into lexemes where its tokens end. So texts
that differ in the contents of their strings have lexemes that differ in nothing else. -/
theorem texts_are_cut_by_token (dialect : Dialect) {tokens : List Token} (written : IsWritten tokens)
    (named : ∀ token ∈ tokens, token.IsNamed) :
    (∃ parts, List.Forall₂ (fun token part => lex? (token.text dialect) = some part) tokens parts ∧
      lex? (textOf dialect tokens) = some parts.flatten) ∧
    (∀ contents, lex? (Token.text dialect (.string contents)) = some [.string contents]) ∧
    (∀ name, lex? (Token.text dialect (.identifier name)) = some [.identifier name]) ∧
    ∀ s s' : Statement, s.tokens = tokens → s.withoutTexts = s'.withoutTexts → ∃ lexemes lexemes',
      lex? (s.text dialect) = some lexemes ∧ lex? (s'.text dialect) = some lexemes' ∧
        List.Forall₂ Lexeme.AreAlike lexemes lexemes' := by
  refine ⟨written.spaced.lex? dialect named, lex?_string dialect, lex?_identifier dialect, ?_⟩
  intro s s' writes same
  have alike : s.tokens.map Token.withoutText = s'.tokens.map Token.withoutText := by
    rw [← s.tokens_withoutTexts, ← s'.tokens_withoutTexts, same]
  have named' : ∀ token ∈ s'.tokens, token.IsNamed := by
    intro token member
    have inBoth : token.withoutText ∈ s.tokens.map Token.withoutText := alike ▸ List.mem_map_of_mem member
    obtain ⟨other, inFirst, equal⟩ := List.mem_map.mp inBoth
    rw [← isNamed_withoutText, ← equal, isNamed_withoutText]
    exact named other (writes ▸ inFirst)
  have cutHere := s.tokens_spaced.cut dialect (writes ▸ named)
  have cutThere := s'.tokens_spaced.cut dialect named'
  refine ⟨_, _, lex?_of_complete cutHere.1, lex?_of_complete cutThere.1, ?_⟩
  rw [Statement.text, Statement.text, cutHere.2, cutThere.2]
  exact flatMap_alike dialect alike

def quotation (contents : String) : Statement :=
  ((Statement.select.addColumn (.function "max" [.columnOf 0 "a\"b"]) (some "largest -- /*")).addTable
    "it's" (some 0)).filter ((Expr.columnOf 0 "c").equals (.string contents))

theorem quotation_tokens (contents : String) : (quotation contents).tokens = (quotation contents).selectTokens := by
  rw [Statement.tokens]
  rfl

theorem quotation_texts_are_cut : (∀ token ∈ (quotation "'; --").tokens, token.IsNamed) ∧
    ∃ lexemes lexemes', lex? ((quotation "'; --").text .sqlite) = some lexemes ∧
      lex? ((quotation "plain").text .sqlite) = some lexemes' ∧ List.Forall₂ Lexeme.AreAlike lexemes lexemes' := by
  have named : ∀ token ∈ (quotation "'; --").tokens, token.IsNamed := by
    rw [quotation_tokens]
    decide
  have same : (quotation "'; --").withoutTexts = (quotation "plain").withoutTexts := by
    rw [Statement.withoutTexts, Statement.withoutTexts]
    rfl
  exact ⟨named, (texts_are_cut_by_token .sqlite (.inl ⟨_, rfl⟩) named).2.2.2 _ _ rfl same⟩

end ViewEngine.Sql
