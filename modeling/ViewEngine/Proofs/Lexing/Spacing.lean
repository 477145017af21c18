import Mathlib.Data.List.Chain
import ViewEngine.Sql.Statement

namespace ViewEngine.Sql

namespace Token

def isFree : Token → Bool
  | .space | .newline | .symbol .opening | .symbol .closing | .symbol .comma => true
  | .indent levels => levels != 0
  | _ => false

inductive MayMeet : Token → Token → Prop
  | before {token next : Token} : token.isFree = true → MayMeet token next
  | behind {token next : Token} : next.isFree = true → MayMeet token next
  | qualifier (table : Nat) : MayMeet (.tableAlias table) (.symbol .dot)
  | column (name : String) : MayMeet (.symbol .dot) (.identifier name)
  | star : MayMeet (.symbol .dot) (.symbol .star)

end Token

def AreSpaced (tokens : List Token) : Prop :=
  tokens.IsChain Token.MayMeet

structure AreApart (tokens : List Token) : Prop where
  spaced : AreSpaced tokens
  opening : ∀ token ∈ tokens.head?, token.isFree = true

variable {before after : List Token}

namespace AreSpaced

theorem single (token : Token) : AreSpaced [token] :=
  .singleton token

theorem append (first : AreSpaced before) (second : AreApart after) : AreSpaced (before ++ after) := by
  rw [AreSpaced, List.isChain_append]
  exact ⟨first, second.spaced, fun _ _ head isHead => .behind (second.opening head isHead)⟩

theorem cons (token : Token) (rest : AreApart after) : AreSpaced (token :: after) :=
  (single token).append rest

theorem free {token : Token} (isFree : token.isFree = true) (rest : AreSpaced after) :
    AreApart (token :: after) := by
  constructor
  · rw [AreSpaced, List.isChain_cons]
    exact ⟨fun _ _ => .before isFree, rest⟩
  · intro head isHead
    rw [List.head?_cons, Option.mem_some_iff] at isHead
    exact isHead ▸ isFree

theorem space (rest : AreSpaced after) : AreApart (.space :: after) :=
  rest.free rfl

theorem newline (rest : AreSpaced after) : AreApart (.newline :: after) :=
  rest.free rfl

theorem indent (rest : AreSpaced after) : AreApart (.indent 1 :: after) :=
  rest.free rfl

theorem opening (rest : AreSpaced after) : AreApart (.symbol .opening :: after) :=
  rest.free rfl

end AreSpaced

namespace AreApart

theorem nil : AreApart [] :=
  ⟨.nil, fun _ none => by cases none⟩

theorem append (first : AreApart before) (second : AreApart after) : AreApart (before ++ after) := by
  refine ⟨first.spaced.append second, ?_⟩
  cases before with
  | nil => exact second.opening
  | cons token rest => exact first.opening

theorem flatMap {α : Type} {write : α → List Token} {items : List α} (each : ∀ item ∈ items, AreApart (write item)) :
    AreApart (items.flatMap write) := by
  induction items with
  | nil => exact nil
  | cons item rest ih =>
      rw [List.forall_mem_cons] at each
      exact each.1.append (ih each.2)

theorem closing : AreApart [.symbol .closing] :=
  nil.spaced.free rfl

end AreApart

theorem separated_spaced {items : List (List Token)} (each : ∀ item ∈ items, AreSpaced item) :
    AreSpaced (separated items) := by
  induction items with
  | nil => exact AreApart.nil.spaced
  | cons item rest ih =>
      rw [List.forall_mem_cons] at each
      cases rest with
      | nil => exact each.1
      | cons next rest =>
          rw [separated, List.append_assoc]
          exact each.1.append ((ih each.2).space.spaced.free rfl)

theorem qualified_spaced {last : Token} (behind : Token.MayMeet (.symbol .dot) last) (table : Option Nat) : AreSpaced (Expr.qualified table last) := by
  cases table with
  | none => exact .single last
  | some table => exact .cons_cons (.qualifier table) (.cons_cons behind (.singleton last))

mutual

theorem Expr.tokens_spaced : ∀ expr : Expr, AreSpaced expr.tokens
  | .column table name => qualified_spaced (.column name) table
  | .literal value => .single _
  | .parameter name => .single _
  | .binary operator left right => by
    rw [Expr.tokens, List.append_assoc]
    exact left.tokens_spaced.append (AreSpaced.cons _ right.tokens_spaced.space).space
  | .negation operand => .cons _ operand.tokens_spaced.space
  | .function name arguments => by
    rw [Expr.tokens, List.append_assoc]
    exact .cons _ ((separated_spaced (tokensOfEach_spaced arguments)).append .closing).opening
  | .castText operand => by
    have type : AreSpaced [.textType, .symbol .closing] := .cons _ .closing
    have behind : AreApart [.space, .keyword .asAlias, .space, .textType, .symbol .closing] :=
      (AreSpaced.cons _ type.space).space
    rw [Expr.tokens, List.append_assoc]
    exact .cons _ (operand.tokens_spaced.append behind).opening
  | .membership _ [] negated => .single _
  | .membership operand (value :: values) negated => by
    have listed : ∀ item ∈ value.tokens :: tokensOfEach values, AreSpaced item := by
      rw [List.forall_mem_cons]
      exact ⟨value.tokens_spaced, tokensOfEach_spaced values⟩
    have list : AreApart ([.space, .keyword .inList, .space, .symbol .opening] ++
        separated (value.tokens :: tokensOfEach values) ++ [.symbol .closing]) := by
      rw [List.append_assoc]
      have inside := ((separated_spaced listed).append .closing).opening.spaced
      exact (AreSpaced.cons _ inside.space).space
    have not : AreApart (if negated then [.space, .keyword .not] else []) := by
      cases negated with
      | true => exact (AreSpaced.single _).space
      | false => exact .nil
    rw [Expr.tokens, List.append_assoc, List.append_assoc, List.append_assoc]
    rw [List.append_assoc] at list
    exact operand.tokens_spaced.append (not.append list)
  | .nullTest operand negated => operand.tokens_spaced.append (AreSpaced.single _).space
  | .star table => qualified_spaced .star table
  | .wholeRow table keyColumn => .single _
  | .parenthesis inner => (inner.tokens_spaced.append .closing).opening.spaced

theorem Expr.tokensOfEach_spaced : ∀ exprs : List Expr, ∀ item ∈ tokensOfEach exprs, AreSpaced item
  | [], _, member => absurd member List.not_mem_nil
  | expr :: rest, item, member => by
    rw [tokensOfEach, List.mem_cons] at member
    rcases member with rfl | inRest
    · exact expr.tokens_spaced
    · exact tokensOfEach_spaced rest item inRest

end

theorem TableReference.tokens_spaced (reference : TableReference) : AreSpaced reference.tokens := by
  unfold TableReference.tokens
  cases reference.number with
  | none => exact .single _
  | some number => exact .cons _ (AreSpaced.single _).space

theorem Join.tokens_spaced (join : Join) : AreSpaced join.tokens := by
  have condition : AreApart ([.space, .keyword .onCondition, .space] ++ join.condition.parenthesized.tokens) :=
    (AreSpaced.cons _ join.condition.parenthesized.tokens_spaced.space).space
  rw [Join.tokens, List.append_assoc, List.append_assoc]
  exact .cons _ (join.table.tokens_spaced.append condition).space

namespace Statement

theorem clause_apart (heading : Keyword) {items : List (List Token)} (each : ∀ item ∈ items, AreSpaced item) :
    AreApart (clause heading items) := by
  unfold clause
  split
  · exact .nil
  · exact (AreSpaced.cons _ (separated_spaced each).space).newline

theorem map_spaced {α : Type} {write : α → List Token} (each : ∀ item, AreSpaced (write item)) (items : List α) :
    ∀ tokens ∈ items.map write, AreSpaced tokens := by
  intro tokens member
  obtain ⟨item, -, rfl⟩ := List.mem_map.mp member
  exact each item

theorem predicateClause_apart (heading : Keyword) (predicate : Option Expr) :
    AreApart (predicateClause heading predicate) :=
  clause_apart heading (map_spaced Expr.tokens_spaced _)

theorem selectItem_spaced (item : SelectItem) : AreSpaced (SelectItem.tokens item) := by
  refine item.expr.tokens_spaced.append ?_
  cases item.label with
  | none => exact .nil
  | some label => exact (AreSpaced.cons _ (AreSpaced.single _).space).space

theorem selectedTokens_apart (items : List SelectItem) : AreApart (selectedTokens items) := by
  have line (item : SelectItem) : AreApart ([.newline, .indent 1] ++ SelectItem.tokens item) :=
    (selectItem_spaced item).indent.spaced.newline
  induction items with
  | nil => exact .nil
  | cons item rest ih =>
      cases rest with
      | nil => exact line item
      | cons next rest =>
          have comma : AreApart ([.symbol .comma] ++ selectedTokens (next :: rest)) := ih.spaced.free rfl
          rw [selectedTokens, List.append_assoc]
          exact (line item).append comma

theorem orderingTokens_spaced (ordering : Ordering) : AreSpaced (orderingTokens ordering) :=
  ordering.expr.tokens_spaced.append (AreSpaced.single _).space

theorem paginationTokens_apart (s : Statement) : AreApart s.paginationTokens := by
  unfold paginationTokens
  split
  · exact (AreSpaced.single _).newline
  · exact .nil

theorem selectTokens_spaced (s : Statement) : AreSpaced s.selectTokens := by
  have distinct : AreApart (if s.distinct then [.space, .keyword .distinct] else []) := by
    split
    · exact (AreSpaced.single _).space
    · exact .nil
  have joins : AreApart (s.joins.flatMap fun join => .newline :: join.tokens) :=
    .flatMap fun join _ => join.tokens_spaced.newline
  exact (((((((((AreSpaced.single _).append distinct).append
    (selectedTokens_apart s.selected)).append
    (clause_apart _ (map_spaced TableReference.tokens_spaced _))).append
    joins).append
    (predicateClause_apart _ _)).append
    (clause_apart _ (map_spaced Expr.tokens_spaced _))).append
    (predicateClause_apart _ _)).append
    (clause_apart _ (map_spaced orderingTokens_spaced _))).append
    (paginationTokens_apart s)

theorem targetTokens_spaced (s : Statement) : AreSpaced s.targetTokens := by
  unfold targetTokens
  cases s.tables.head? with
  | none => exact AreApart.nil.spaced
  | some reference => exact reference.tokens_spaced

theorem columnListTokens_apart (columns : List String) : AreApart (columnListTokens columns) := by
  have names : AreSpaced (separated (columns.map fun column => [.identifier column])) :=
    separated_spaced (map_spaced (fun column => .single (.identifier column)) columns)
  unfold columnListTokens
  split
  · exact .nil
  · rw [List.append_assoc]
    exact (names.append .closing).opening.spaced.space

theorem valuesTokens_spaced (values : List Expr) : AreSpaced (valuesTokens values) := by
  have listed := separated_spaced (map_spaced Expr.tokens_spaced values)
  rw [valuesTokens, List.append_assoc]
  exact .cons _ (listed.append .closing).opening.spaced.space

theorem updateTokens_spaced (s : Statement) : AreSpaced s.updateTokens := by
  have assigned (assignment : String × Expr) : AreSpaced (assignmentTokens assignment) :=
    .cons _ (AreSpaced.cons _ assignment.2.tokens_spaced.space).space
  have assignments := separated_spaced (map_spaced assigned s.assignments)
  have behind : AreApart ([.newline, .keyword .setClause, .space] ++
      (separated (s.assignments.map assignmentTokens) ++ predicateClause .whereClause s.predicate?)) :=
    (AreSpaced.cons _ (assignments.append (predicateClause_apart _ _)).space).newline
  rw [updateTokens, List.append_assoc, List.append_assoc, List.append_assoc]
  exact .cons _ (s.targetTokens_spaced.append behind).space

theorem deleteTokens_spaced (s : Statement) : AreSpaced s.deleteTokens := by
  have target := (s.targetTokens_spaced.append (predicateClause_apart .whereClause s.predicate?)).space
  rw [deleteTokens, List.append_assoc]
  exact .cons _ (AreSpaced.cons _ target).space

theorem tokens_spaced (s : Statement) : AreSpaced s.tokens := by
  unfold tokens
  cases kind : s.kind with
  | select => exact s.selectTokens_spaced
  | update => exact s.updateTokens_spaced
  | delete => exact s.deleteTokens_spaced
  | insert =>
      have insertion {rows : List Token} (spaced : AreSpaced rows) :
          AreSpaced ([.keyword .insert, .space, .keyword .into, .space] ++ s.targetTokens ++
            columnListTokens s.insertColumns ++ [.newline] ++ rows) := by
        have columns := (columnListTokens_apart s.insertColumns).append spaced.newline
        rw [List.append_assoc, List.append_assoc, List.append_assoc]
        exact .cons _ (AreSpaced.cons _ (s.targetTokens_spaced.append columns).space).space
      dsimp only
      split
      next source found => exact insertion source.tokens_spaced
      next => exact insertion (valuesTokens_spaced s.insertValues)
termination_by sizeOf s
decreasing_by
  rename_i found
  cases s
  simp only at found
  subst found
  simp only [mk.sizeOf_spec, Option.some.sizeOf_spec]
  omega

end Statement

end ViewEngine.Sql
