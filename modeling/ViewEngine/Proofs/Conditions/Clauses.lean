import ViewEngine.Proofs.Conditions.Constraints
import ViewEngine.Sql.Statement

namespace ViewEngine.Sql

def Token.isInline : Token → Bool
  | .newline | .keyword .whereClause => false
  | _ => true

def whereTokens? (tokens : List Token) : Option (List Token) :=
  (tokens.dropWhile (· != .keyword .whereClause)).tail?.map (·.takeWhile (· != .newline))

def readWhere? (tokens : List Token) : Option Expr :=
  match whereTokens? tokens with
  | none => some (.literal (.boolean true))
  | some tokens => read? tokens

/-- The WHERE clause of a statement, read from its tokens, holds of a row as far as all that is meant does. -/
def Statement.Asks (s : Statement) (meanings : List Meaning) : Prop :=
  ∃ read, readWhere? s.tokens = some read ∧
    ∀ c frame, (read.eval c frame).truth = Truth.conjunction (meanings.map (· c frame))

section Inline

variable {token : Token} {tokens : List Token} {items : List (List Token)} {last : Token}

theorem separated_forall {holds : Token → Prop} (comma : holds (.symbol .comma)) (space : holds .space)
    (each : ∀ item ∈ items, ∀ token ∈ item, holds token) : ∀ token ∈ separated items, holds token := by
  induction items with
  | nil => exact fun _ none => absurd none List.not_mem_nil
  | cons item rest ih =>
      rw [List.forall_mem_cons] at each
      cases rest with
      | nil => exact each.1
      | cons next rest =>
          intro token member
          simp only [separated, List.mem_append, List.mem_cons, List.not_mem_nil, or_false] at member
          rcases member with (inItem | rfl | rfl) | inRest
          · exact each.1 token inItem
          · exact comma
          · exact space
          · exact ih each.2 token inRest

theorem qualified_inline (inline : last.isInline = true) (table : Option Nat) :
    ∀ token ∈ Expr.qualified table last, token.isInline = true := by
  cases table with
  | none => exact List.forall_mem_singleton.mpr inline
  | some table =>
      simp only [Expr.qualified, List.forall_mem_cons]
      exact ⟨rfl, rfl, inline, by simp⟩

mutual

theorem Expr.tokens_inline : ∀ expr : Expr, ∀ token ∈ expr.tokens, token.isInline = true
  | .column table name => qualified_inline rfl table
  | .literal value => by cases value <;> simp [Expr.tokens, Literal.token, Token.isInline]
  | .parameter name => by simp [Expr.tokens, Token.isInline]
  | .binary operator left right => by
    have between : operator.token.isInline = true := by cases operator <;> rfl
    simp only [Expr.tokens, List.forall_mem_append, List.forall_mem_cons]
    exact ⟨⟨left.tokens_inline, rfl, between, rfl, by simp⟩, right.tokens_inline⟩
  | .negation operand => by
    simp only [Expr.tokens, List.forall_mem_append, List.forall_mem_cons]
    exact ⟨⟨rfl, rfl, by simp⟩, operand.tokens_inline⟩
  | .function name arguments => by
    simp only [Expr.tokens, List.forall_mem_append, List.forall_mem_cons]
    exact ⟨⟨⟨rfl, rfl, by simp⟩, separated_forall rfl rfl (tokensOfEach_inline arguments)⟩, rfl, by simp⟩
  | .castText operand => by
    simp only [Expr.tokens, List.forall_mem_append, List.forall_mem_cons]
    exact ⟨⟨⟨rfl, rfl, by simp⟩, operand.tokens_inline⟩, rfl, rfl, rfl, rfl, rfl, by simp⟩
  | .membership _ [] negated => by cases negated <;> simp [Expr.tokens, Token.isInline]
  | .membership operand (value :: values) negated => by
    have listed : ∀ item ∈ value.tokens :: tokensOfEach values, ∀ token ∈ item, token.isInline = true :=
      List.forall_mem_cons.mpr ⟨value.tokens_inline, tokensOfEach_inline values⟩
    have not : ∀ token ∈ if negated then [Token.space, .keyword .not] else [], token.isInline = true := by
      cases negated <;> simp [Token.isInline]
    simp only [Expr.tokens, List.forall_mem_append, List.forall_mem_cons]
    exact ⟨⟨⟨⟨operand.tokens_inline, not⟩, rfl, rfl, rfl, rfl, by simp⟩, separated_forall rfl rfl listed⟩, rfl, by simp⟩
  | .nullTest operand negated => by
    simp only [Expr.tokens, List.forall_mem_append, List.forall_mem_cons]
    exact ⟨operand.tokens_inline, rfl, by cases negated <;> rfl, by simp⟩
  | .star table => qualified_inline rfl table
  | .wholeRow table keyColumn => by simp [Expr.tokens, Token.isInline]
  | .parenthesis inner => by
    simp only [Expr.tokens, List.forall_mem_append, List.forall_mem_cons]
    exact ⟨⟨⟨rfl, by simp⟩, inner.tokens_inline⟩, rfl, by simp⟩

theorem Expr.tokensOfEach_inline : ∀ exprs : List Expr, ∀ item ∈ tokensOfEach exprs, ∀ token ∈ item,
    token.isInline = true
  | [] => by simp [tokensOfEach]
  | expr :: rest => by
    rw [tokensOfEach, List.forall_mem_cons]
    exact ⟨expr.tokens_inline, tokensOfEach_inline rest⟩

end

end Inline

namespace Statement

def AreElsewhere (tokens : List Token) : Prop :=
  ∀ token ∈ tokens, token ≠ .keyword .whereClause

def AreBelow (tokens : List Token) : Prop :=
  tokens.takeWhile (· != .newline) = []

variable {s : Statement} {tokens before after : List Token} {heading : Keyword} {items : List (List Token)}

theorem areElsewhere_of_inline (inline : ∀ token ∈ tokens, token.isInline = true) : AreElsewhere tokens := by
  intro token member same
  have isInline := inline token member
  rw [same] at isInline
  contradiction

theorem AreElsewhere.append (first : AreElsewhere before) (second : AreElsewhere after) :
    AreElsewhere (before ++ after) :=
  List.forall_mem_append.mpr ⟨first, second⟩

theorem clause_elsewhere (other : heading ≠ .whereClause) (each : ∀ item ∈ items, AreElsewhere item) :
    AreElsewhere (clause heading items) := by
  have opening : AreElsewhere [.newline, .keyword heading, .space] := by
    intro token member
    simp only [List.mem_cons, List.not_mem_nil, or_false] at member
    rcases member with rfl | rfl | rfl
    · exact Token.noConfusion
    · exact fun same => other (Token.keyword.inj same)
    · exact Token.noConfusion
  unfold clause
  split
  · exact fun _ none => absurd none List.not_mem_nil
  · exact opening.append (separated_forall Token.noConfusion Token.noConfusion each)

theorem clause_below (below : AreBelow after) : AreBelow (clause heading items ++ after) := by
  unfold clause
  split
  · exact below
  · rfl

theorem map_elsewhere {α : Type} {write : α → List Token} (each : ∀ item, AreElsewhere (write item)) (items : List α) :
    ∀ tokens ∈ items.map write, AreElsewhere tokens := by
  intro tokens member
  obtain ⟨item, -, rfl⟩ := List.mem_map.mp member
  exact each item

theorem expr_elsewhere (expr : Expr) : AreElsewhere expr.tokens :=
  areElsewhere_of_inline expr.tokens_inline

theorem tableReference_elsewhere (reference : TableReference) : AreElsewhere reference.tokens := by
  apply areElsewhere_of_inline
  unfold TableReference.tokens
  cases reference.number <;> simp [Token.isInline]

theorem join_elsewhere (join : Join) : AreElsewhere (.newline :: join.tokens) := by
  have kind : AreElsewhere [.newline, join.kind.token, .space] := by
    cases join.kind <;> simp [AreElsewhere, JoinKind.token]
  have on : AreElsewhere [.space, .keyword .onCondition, .space] := by
    simp [AreElsewhere]
  exact ((kind.append (tableReference_elsewhere join.table)).append on).append (expr_elsewhere _)

theorem selectItem_elsewhere (item : SelectItem) : AreElsewhere (SelectItem.tokens item) := by
  refine (expr_elsewhere item.expr).append ?_
  cases item.label <;> simp [AreElsewhere]

theorem selectedTokens_elsewhere (items : List SelectItem) : AreElsewhere (selectedTokens items) := by
  have line (item : SelectItem) : AreElsewhere ([.newline, .indent 1] ++ SelectItem.tokens item) :=
    AreElsewhere.append (by simp [AreElsewhere]) (selectItem_elsewhere item)
  induction items with
  | nil => exact fun _ none => absurd none List.not_mem_nil
  | cons item rest ih =>
      cases rest with
      | nil => exact line item
      | cons next rest => exact ((line item).append (by simp [AreElsewhere])).append ih

theorem ordering_elsewhere (ordering : Sql.Ordering) : AreElsewhere (orderingTokens ordering) := by
  refine (expr_elsewhere ordering.expr).append ?_
  cases ordering.direction <;> simp [AreElsewhere, Direction.token]

def tokensAbove (s : Statement) : List Token :=
  [.keyword .select] ++ (if s.distinct then [.space, .keyword .distinct] else []) ++ selectedTokens s.selected ++
    clause .fromClause (s.tables.map TableReference.tokens) ++ s.joins.flatMap (fun join => .newline :: join.tokens)

def tokensBelow (s : Statement) : List Token :=
  clause .groupBy (s.grouping.map Expr.tokens) ++ (predicateClause .having s.groupPredicate? ++
    (clause .orderBy (s.orderings.map orderingTokens) ++ paginationTokens s))

theorem selectTokens_eq (s : Statement) :
    s.selectTokens = s.tokensAbove ++ (predicateClause .whereClause s.predicate? ++ s.tokensBelow) := by
  simp only [selectTokens, tokensAbove, tokensBelow, List.append_assoc]

theorem tokensAbove_elsewhere (s : Statement) : AreElsewhere s.tokensAbove := by
  have distinct : AreElsewhere ([.keyword .select] ++ if s.distinct then [.space, .keyword .distinct] else []) := by
    split <;> simp [AreElsewhere]
  have tables : AreElsewhere (clause .fromClause (s.tables.map TableReference.tokens)) :=
    clause_elsewhere Keyword.noConfusion (map_elsewhere tableReference_elsewhere s.tables)
  have joins : AreElsewhere (s.joins.flatMap fun join => .newline :: join.tokens) := by
    intro token member
    obtain ⟨join, -, inside⟩ := List.mem_flatMap.mp member
    exact join_elsewhere join token inside
  exact ((distinct.append (selectedTokens_elsewhere s.selected)).append tables).append joins

theorem tokensBelow_elsewhere (s : Statement) : AreElsewhere s.tokensBelow := by
  have pagination : AreElsewhere s.paginationTokens := by
    unfold paginationTokens
    split <;> simp [AreElsewhere]
  exact (clause_elsewhere Keyword.noConfusion (map_elsewhere expr_elsewhere _)).append
    ((clause_elsewhere Keyword.noConfusion (map_elsewhere expr_elsewhere _)).append
      ((clause_elsewhere Keyword.noConfusion (map_elsewhere ordering_elsewhere _)).append pagination))

theorem tokensBelow_below (s : Statement) : AreBelow s.tokensBelow := by
  have pagination : AreBelow s.paginationTokens := by
    unfold paginationTokens
    split <;> rfl
  exact clause_below (clause_below (clause_below pagination))

theorem whereTokens?_selectTokens (s : Statement) :
    whereTokens? s.selectTokens = s.predicate?.map fun predicate => .space :: predicate.tokens := by
  have skipped {tokens : List Token} (elsewhere : AreElsewhere tokens) (rest : List Token) :
      (tokens ++ rest).dropWhile (· != .keyword .whereClause) = rest.dropWhile (· != .keyword .whereClause) :=
    List.dropWhile_append_of_pos fun token member => bne_iff_ne.mpr (elsewhere token member)
  rw [whereTokens?, selectTokens_eq, skipped s.tokensAbove_elsewhere]
  cases s.predicate? with
  | none =>
      have nowhere := skipped s.tokensBelow_elsewhere []
      rw [List.append_nil] at nowhere
      exact congrArg (fun rest : List Token => rest.tail?.map (·.takeWhile (· != .newline))) nowhere
  | some predicate =>
      have line : (predicate.tokens ++ s.tokensBelow).takeWhile (· != .newline) = predicate.tokens := by
        rw [List.takeWhile_append_of_pos, s.tokensBelow_below, List.append_nil]
        intro token member
        rw [bne_iff_ne]
        rintro rfl
        exact absurd (predicate.tokens_inline _ member) (by decide)
      exact congrArg (fun rest => some (Token.space :: rest)) line

theorem asks_of_conditions (select : s.kind = .select) {meanings : List Meaning}
    (meant : Condition.AreMeant s.conditions meanings) : s.Asks meanings := by
  have tokens : s.tokens = s.selectTokens := by
    unfold tokens
    rw [select]
  unfold Asks readWhere?
  rw [tokens, whereTokens?_selectTokens]
  rcases meant.fold? with ⟨absent, rfl⟩ | ⟨predicate, present, means⟩
  · rw [predicate?, absent]
    exact ⟨_, rfl, fun _ _ => rfl⟩
  · have solid : (Token.space :: predicate.tokens).filter (!·.isBlank) = predicate.solid := rfl
    obtain ⟨read, isRead, alike⟩ := read?_eq_some means.bracketed solid
    rw [predicate?, present]
    exact ⟨read, isRead, fun c frame => by rw [alike c frame, means.truth]⟩

end Statement

end ViewEngine.Sql
