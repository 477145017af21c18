import ViewEngine.Proofs.Conditions.Reader

namespace ViewEngine.Sql

def Operator.level : Operator → Nat
  | .or => 5
  | .and => 4
  | .concatenation => 1
  | _ => 2

def Operator.leftLevel : Operator → Nat
  | .or => 5
  | .and => 4
  | _ => 1

def Operator.rightLevel : Operator → Nat
  | .or => 5
  | .and => 4
  | .concatenation => 0
  | _ => 1

def Token.level : Token → Nat
  | .keyword .or => 5
  | .keyword .and => 4
  | .keyword .not | .keyword .inList | .keyword .isNull | .keyword .isNotNull | .keyword .like => 2
  | .symbol .equal | .symbol .notEqual | .symbol .less | .symbol .greater | .symbol .atMost | .symbol .atLeast => 2
  | .symbol .concatenation => 1
  | .symbol .comma => 6
  | _ => 0

namespace Expr

def level : Expr → Nat
  | .binary operator _ _ => operator.level
  | .negation _ => 3
  | .membership _ (_ :: _) _ | .nullTest .. => 2
  | _ => 0

theorem level_lt (expr : Expr) : expr.level < 6 := by
  unfold level
  split
  next operator _ _ => cases operator <;> decide
  all_goals decide

mutual

def IsBracketed : Expr → Prop
  | .column .. | .literal _ | .parameter _ => True
  | .binary operator left right =>
    left.IsBracketed ∧ right.IsBracketed ∧ left.level ≤ operator.leftLevel ∧ right.level ≤ operator.rightLevel
  | .negation operand => operand.IsBracketed ∧ operand.level ≤ 3
  | .castText operand | .parenthesis operand => operand.IsBracketed
  | .membership operand values _ => operand.IsBracketed ∧ operand.level ≤ 1 ∧ AreBracketed values
  | .nullTest operand _ => operand.IsBracketed ∧ operand.level ≤ 1
  | .function .. | .star _ | .wholeRow .. => False

def AreBracketed : List Expr → Prop
  | [] => True
  | expr :: rest => expr.IsBracketed ∧ AreBracketed rest

end

theorem areBracketed_iff {exprs : List Expr} : AreBracketed exprs ↔ ∀ expr ∈ exprs, expr.IsBracketed := by
  induction exprs with
  | nil => simp [AreBracketed]
  | cons expr rest ih => simp [AreBracketed, ih]

def solid (expr : Expr) : List Token :=
  expr.tokens.filter (!·.isBlank)

def commaSeparated : List (List Token) → List Token
  | [] => []
  | first :: others => first ++ others.flatMap (.symbol .comma :: ·)

theorem tokensOfEach_eq_map (exprs : List Expr) : tokensOfEach exprs = exprs.map tokens := by
  induction exprs with
  | nil => rfl
  | cons expr rest ih => rw [tokensOfEach, ih, List.map_cons]

theorem separated_solid (exprs : List Expr) :
    (separated (exprs.map tokens)).filter (!·.isBlank) = commaSeparated (exprs.map solid) := by
  induction exprs with
  | nil => rfl
  | cons expr rest ih =>
      cases rest with
      | nil => simp [separated, commaSeparated, solid]
      | cons next rest =>
          rw [List.map_cons] at ih
          simp only [List.map_cons, separated, List.filter_append, ih, commaSeparated, List.flatMap_cons,
            List.append_assoc]
          rfl

theorem solid_binary (operator : Operator) (left right : Expr) :
    (binary operator left right).solid = left.solid ++ operator.token :: right.solid := by
  have kept : [Token.space, operator.token, .space].filter (!·.isBlank) = [operator.token] := by
    cases operator <;> rfl
  simp only [solid, tokens, List.filter_append, kept, List.append_assoc, List.singleton_append]

theorem solid_negation (operand : Expr) : (negation operand).solid = .keyword .not :: operand.solid := by
  simp only [solid, tokens, List.filter_append]
  rfl

theorem solid_castText (operand : Expr) : (castText operand).solid =
    .keyword .cast :: (.symbol .opening :: (operand.solid ++ [.keyword .asAlias, .textType]) ++
      [.symbol .closing]) := by
  have before : [Token.keyword .cast, .symbol .opening].filter (!·.isBlank) = [.keyword .cast, .symbol .opening] := rfl
  have behind : [Token.space, .keyword .asAlias, .space, .textType, .symbol .closing].filter (!·.isBlank) =
      [.keyword .asAlias, .textType, .symbol .closing] := rfl
  rw [solid, tokens, List.filter_append, List.filter_append, before, behind]
  simp only [solid, List.append_assoc, List.cons_append, List.nil_append]

theorem solid_parenthesis (inner : Expr) : (parenthesis inner).solid = .symbol .opening :: inner.solid ++ [.symbol .closing] := by
  simp only [solid, tokens, List.filter_append]
  rfl

theorem solid_nullTest (operand : Expr) (negated : Bool) : (nullTest operand negated).solid =
    operand.solid ++ [.keyword (if negated then .isNotNull else .isNull)] := by
  simp only [solid, tokens, List.filter_append]
  rfl

theorem solid_membership (operand value : Expr) (values : List Expr) (negated : Bool) : (membership operand (value :: values) negated).solid =
    operand.solid ++ ((if negated then [.keyword .not] else []) ++ .keyword .inList ::
      (.symbol .opening :: commaSeparated ((value :: values).map solid) ++ [.symbol .closing])) := by
  have listed := separated_solid (value :: values)
  rw [List.map_cons, ← tokensOfEach_eq_map] at listed
  have not : (if negated then [Token.space, .keyword .not] else []).filter (!·.isBlank) =
      if negated then [.keyword .not] else [] := by
    cases negated <;> rfl
  simp only [solid, tokens, List.filter_append, listed, not, List.append_assoc]
  rfl

theorem commaSeparated_induction {P : List Token → Prop} {items : List (List Token)} (empty : P [])
    (comma : ∀ {tokens}, P tokens → P (.symbol .comma :: tokens))
    (appended : ∀ {left right}, P left → P right → P (left ++ right)) (each : ∀ item ∈ items, P item) :
    P (commaSeparated items) := by
  cases items with
  | nil => exact empty
  | cons first others =>
      rw [List.forall_mem_cons] at each
      refine appended each.1 ?_
      replace each := each.2
      induction others with
      | nil => exact empty
      | cons next rest ih =>
          rw [List.forall_mem_cons] at each
          exact appended (comma each.1) (ih each.2)

theorem commaSeparated_balanced {items : List (List Token)} (each : ∀ item ∈ items, IsBalanced item) :
    IsBalanced (commaSeparated items) :=
  commaSeparated_induction .nil (.cons rfl) .append each

theorem operator_not_isBracket (operator : Operator) : operator.token.isBracket = false := by
  cases operator <;> rfl

mutual

theorem solid_balanced : ∀ {expr : Expr}, expr.IsBracketed → IsBalanced expr.solid
  | .column table name, _ => by cases table <;> exact .cons rfl (by first | exact .nil | exact .cons rfl (.single rfl))
  | .literal value, _ => by cases value <;> exact .single rfl
  | .parameter name, _ => .single rfl
  | .binary operator left right, bracketed => by
    rw [solid_binary]
    exact (solid_balanced bracketed.1).append
      (.cons (operator_not_isBracket operator) (solid_balanced bracketed.2.1))
  | .negation operand, bracketed => by
    rw [solid_negation]
    exact .cons rfl (solid_balanced bracketed.1)
  | .castText operand, bracketed => by
    have type : IsBalanced [.keyword .asAlias, .textType] := .cons rfl (.single rfl)
    have inside : operand.IsBracketed := bracketed
    rw [solid_castText]
    exact .cons rfl ((solid_balanced inside).append type).bracketed
  | .parenthesis inner, bracketed => by
    have inside : inner.IsBracketed := bracketed
    rw [solid_parenthesis]
    exact (solid_balanced inside).bracketed
  | .nullTest operand negated, bracketed => by
    rw [solid_nullTest]
    exact (solid_balanced bracketed.1).append (.single (by cases negated <;> rfl))
  | .membership operand [] negated, _ => .single rfl
  | .membership operand (value :: values) negated, bracketed => by
    have list := (commaSeparated_balanced (solid_balancedOfEach bracketed.2.2)).bracketed
    rw [solid_membership]
    refine (solid_balanced bracketed.1).append (.append ?_ (.cons rfl list))
    cases negated with
    | true => exact .single rfl
    | false => exact .nil

theorem solid_balancedOfEach : ∀ {exprs : List Expr}, AreBracketed exprs →
    ∀ item ∈ exprs.map solid, IsBalanced item
  | [], _, _, member => absurd member List.not_mem_nil
  | expr :: rest, bracketed, item, member => by
    rw [List.map_cons, List.mem_cons] at member
    rcases member with rfl | later
    · exact solid_balanced bracketed.1
    · exact solid_balancedOfEach bracketed.2 item later

end

theorem unmarked_of_level {isMark : Token → Bool} {token : Token} {bound : Nat}
    (outside : ∀ token, isMark token = true → bound < token.level) (low : token.level ≤ bound) :
    isMark token = false := by
  cases marked : isMark token with
  | false => rfl
  | true => exact absurd (outside token marked) (Nat.not_lt.mpr low)

theorem outside_of_le {isMark : Token → Bool} {inner bound : Nat}
    (outside : ∀ token, isMark token = true → bound < token.level) (low : inner ≤ bound) :
    ∀ token, isMark token = true → inner < token.level :=
  fun token marked => Nat.lt_of_le_of_lt low (outside token marked)

theorem leftLevel_le (operator : Operator) : operator.leftLevel ≤ operator.level := by
  cases operator <;> decide

theorem rightLevel_le (operator : Operator) : operator.rightLevel ≤ operator.level := by
  cases operator <;> decide

theorem level_operator (operator : Operator) : operator.token.level = operator.level := by
  cases operator <;> rfl

/-- Outside of its brackets an expression has no mark that binds less than it does. -/
theorem solid_whole {isMark : Token → Bool} : ∀ {expr : Expr}, expr.IsBracketed →
    (∀ token, isMark token = true → expr.level < token.level) → IsWhole isMark expr.solid
  | .column table name, _, outside => by
    have unmarked {token : Token} (low : token.level = 0) : isMark token = false :=
      unmarked_of_level outside (low ▸ Nat.zero_le _)
    cases table with
    | none => exact .single (unmarked rfl) rfl
    | some table => exact .cons (unmarked rfl) rfl (.cons (unmarked rfl) rfl (.single (unmarked rfl) rfl))
  | .literal value, _, outside => by
    have low : value.token.level = 0 := by cases value <;> rfl
    have plain : value.token.isBracket = false := by cases value <;> rfl
    have written : (literal value).solid = [value.token] := by cases value <;> rfl
    rw [written]
    exact .single (unmarked_of_level outside (low ▸ Nat.zero_le _)) plain
  | .parameter name, _, outside => .single (unmarked_of_level outside (Nat.le_refl 0)) rfl
  | .binary operator left right, bracketed, outside => by
    obtain ⟨first, second, leftLevel, rightLevel⟩ := bracketed
    have leftLow := Nat.le_trans leftLevel (leftLevel_le operator)
    have rightLow := Nat.le_trans rightLevel (rightLevel_le operator)
    have own : isMark operator.token = false :=
      unmarked_of_level outside (Nat.le_of_eq (level_operator operator))
    rw [solid_binary]
    exact (solid_whole first (outside_of_le outside leftLow)).append
      (.cons own (operator_not_isBracket operator) (solid_whole second (outside_of_le outside rightLow)))
  | .negation operand, bracketed, outside => by
    rw [solid_negation]
    exact .cons (unmarked_of_level outside (by decide : 2 ≤ 3)) rfl
      (solid_whole bracketed.1 (outside_of_le outside bracketed.2))
  | .castText operand, bracketed, outside => by
    have type : IsBalanced [.keyword .asAlias, .textType] := .cons rfl (.single rfl)
    have inside : operand.IsBracketed := bracketed
    rw [solid_castText]
    exact .cons (unmarked_of_level outside (Nat.le_refl 0)) rfl
      (.bracketed (unmarked_of_level outside (Nat.le_refl 0)) ((solid_balanced inside).append type))
  | .parenthesis inner, bracketed, outside => by
    have inside : inner.IsBracketed := bracketed
    rw [solid_parenthesis]
    exact .bracketed (unmarked_of_level outside (Nat.le_refl 0)) (solid_balanced inside)
  | .nullTest operand negated, bracketed, outside => by
    have low : Token.level (.keyword (if negated then .isNotNull else .isNull)) = 2 := by cases negated <;> rfl
    rw [solid_nullTest]
    exact (solid_whole bracketed.1 (outside_of_le outside (Nat.le_succ_of_le bracketed.2))).append
      (.single (unmarked_of_level outside (Nat.le_of_eq low)) (by cases negated <;> rfl))
  | .membership operand [] negated, _, outside => by
    have low : Token.level (.keyword (if negated then .trueValue else .falseValue)) = 0 := by cases negated <;> rfl
    exact .single (unmarked_of_level outside (Nat.le_of_eq low)) rfl
  | .membership operand (value :: values) negated, bracketed, outside => by
    have list := commaSeparated_balanced (solid_balancedOfEach bracketed.2.2)
    have test {token : Token} (low : token.level ≤ 2) : isMark token = false := unmarked_of_level outside low
    rw [solid_membership]
    refine (solid_whole bracketed.1 (outside_of_le outside (Nat.le_succ_of_le bracketed.2.1))).append
      (.append ?_ (.cons (test (Nat.le_refl 2)) rfl (.bracketed (test (Nat.zero_le 2)) list)))
    cases negated with
    | true => exact .single (test (Nat.le_refl 2)) rfl
    | false => exact .nil

end Expr

end ViewEngine.Sql
