import ViewEngine.Proofs.Conditions.Connectives

namespace ViewEngine.Sql

open Reader

namespace Expr

theorem solid_function (name : String) (arguments : List Expr) : (function name arguments).solid =
    .function name :: (.symbol .opening :: commaSeparated (arguments.map solid) ++ [.symbol .closing]) := by
  have listed := separated_solid arguments
  rw [← tokensOfEach_eq_map] at listed
  simp only [solid, tokens, List.filter_append, listed]
  rfl

theorem commaSeparated_closed {items : List (List Token)} (each : ∀ item ∈ items, IsClosed item) :
    IsClosed (commaSeparated items) :=
  commaSeparated_induction .nil (.plain rfl) .append each

mutual

/-- Every expression closes the brackets that it opens. -/
theorem solid_closed : ∀ expr : Expr, IsClosed expr.solid
  | .column table _ | .star table => by
    cases table with
    | none => exact .single rfl
    | some _ => exact .plain rfl (.plain rfl (.single rfl))
  | .literal value => by cases value <;> exact .single rfl
  | .parameter _ | .wholeRow .. | .membership _ [] _ => .single rfl
  | .binary operator left right => by
    rw [solid_binary]
    exact left.solid_closed.append (.plain (operator_not_isBracket operator) right.solid_closed)
  | .negation operand => by
    rw [solid_negation]
    exact .plain rfl operand.solid_closed
  | .function name arguments => by
    rw [solid_function]
    exact .plain rfl (commaSeparated_closed (solid_closedOfEach arguments)).between
  | .castText operand => by
    rw [solid_castText]
    exact .plain rfl (operand.solid_closed.append (.plain rfl (.single rfl))).between
  | .parenthesis inner => by
    rw [solid_parenthesis]
    exact inner.solid_closed.between
  | .nullTest operand negated => by
    rw [solid_nullTest]
    exact operand.solid_closed.append (.single (by cases negated <;> rfl))
  | .membership operand (value :: values) negated => by
    rw [solid_membership]
    refine operand.solid_closed.append (.append ?_ (.plain rfl
      (commaSeparated_closed (solid_closedOfEach (value :: values))).between))
    cases negated with
    | true => exact .single rfl
    | false => exact .nil

theorem solid_closedOfEach : ∀ exprs : List Expr, ∀ item ∈ exprs.map solid, IsClosed item
  | [], _, member => absurd member List.not_mem_nil
  | expr :: rest, item, member => by
    rw [List.map_cons, List.mem_cons] at member
    rcases member with rfl | later
    · exact expr.solid_closed
    · exact solid_closedOfEach rest item later

end

/-- There is no connective outside of its brackets. -/
def IsPlain : Expr → Prop
  | .binary operator left right => operator ≠ .and ∧ operator ≠ .or ∧ left.IsPlain ∧ right.IsPlain
  | .negation _ => False
  | .membership operand _ _ | .nullTest operand _ => operand.IsPlain
  | _ => True

def isParenthesis : Expr → Bool
  | .parenthesis _ => true
  | _ => false

def isConnected : Expr → Bool
  | .binary .and _ _ | .binary .or _ _ => true
  | _ => false

/-- Tests, brackets, and what is made of them by connectives. -/
inductive IsFormula : Expr → Prop where
  | test {expr : Expr} (plain : expr.IsPlain) (bare : expr.isParenthesis = false) : IsFormula expr
  | negation {operand : Expr} (formula : IsFormula operand) (single : operand.isConnected = false) :
    IsFormula (negation operand)
  | parenthesis {inner : Expr} (formula : IsFormula inner) : IsFormula (parenthesis inner)
  | conjoined {left right : Expr} (first : IsFormula left) (second : IsFormula right) :
    IsFormula (left.conjoined right)
  | disjoined {left right : Expr} (first : IsFormula left) (second : IsFormula right) :
    IsFormula (left.disjoined right)

def truthBy (atoms : List Token → Truth) : Expr → Truth
  | .binary .and left right => (left.truthBy atoms).and (right.truthBy atoms)
  | .binary .or left right => (left.truthBy atoms).or (right.truthBy atoms)
  | .negation operand => (operand.truthBy atoms).negated
  | .parenthesis inner => inner.truthBy atoms
  | expr => atoms expr.solid

theorem truthBy_asConjunct (atoms : List Token → Truth) (expr : Expr) :
    expr.asConjunct.truthBy atoms = expr.truthBy atoms := by
  unfold asConjunct
  split
  next disjunction =>
    cases expr with
    | binary => rfl
    | _ => cases disjunction
  next => rfl

section Plain

variable {expr : Expr} {atoms nested : List Token → Truth}

theorem IsPlain.whole : ∀ {expr : Expr}, expr.IsPlain → ∀ connective : Connective,
    IsWhole (· == connective.operator.token) expr.solid
  | .column table _, _, connective | .star table, _, connective => by
    cases table <;> cases connective
    all_goals first
      | exact .single rfl rfl
      | exact .cons rfl rfl (.cons rfl rfl (.single rfl rfl))
  | .literal value, _, connective => by cases value <;> cases connective <;> exact .single rfl rfl
  | .parameter _, _, connective | .wholeRow .., _, connective => by cases connective <;> exact .single rfl rfl
  | .membership _ [] negated, _, connective => by cases negated <;> cases connective <;> exact .single rfl rfl
  | .binary operator left right, plain, connective => by
    obtain ⟨notAnd, notOr, first, second⟩ := plain
    rw [solid_binary]
    refine (first.whole connective).append (.cons ?_ (operator_not_isBracket operator) (second.whole connective))
    cases operator <;> cases connective <;> first | rfl | contradiction
  | .function name arguments, _, connective => by
    have list := commaSeparated_closed (solid_closedOfEach arguments)
    rw [solid_function]
    refine .cons ?_ rfl (list.whole_bracketed ?_) <;> cases connective <;> rfl
  | .castText operand, _, connective => by
    have inside := operand.solid_closed.append (.plain rfl (.single rfl) : IsClosed [.keyword .asAlias, .textType])
    rw [solid_castText]
    refine .cons ?_ rfl (inside.whole_bracketed ?_) <;> cases connective <;> rfl
  | .parenthesis inner, _, connective => by
    rw [solid_parenthesis]
    exact inner.solid_closed.whole_bracketed (operator_not_isBracket _)
  | .nullTest operand negated, plain, connective => by
    have inside : operand.IsPlain := plain
    rw [solid_nullTest]
    refine (inside.whole connective).append (.single ?_ ?_) <;> cases negated <;> cases connective <;> rfl
  | .membership operand (value :: values) negated, plain, connective => by
    have inside : operand.IsPlain := plain
    have list := (commaSeparated_closed (solid_closedOfEach (value :: values))).whole_bracketed
      (operator_not_isBracket connective.operator)
    have word : (Token.keyword .inList == connective.operator.token) = false := by cases connective <;> rfl
    rw [solid_membership]
    refine (inside.whole connective).append (.append ?_ (.cons word rfl list))
    cases negated with
    | true => cases connective <;> exact .single rfl rfl
    | false => exact .nil

/-- Nothing that has no connective begins with `NOT`. -/
theorem IsPlain.head : ∀ {expr : Expr}, expr.IsPlain → ∃ token rest, expr.solid = token :: rest ∧ token ≠ .keyword .not
  | .column table _, _ | .star table, _ => by
    cases table <;> exact ⟨_, _, rfl, Token.noConfusion⟩
  | .literal value, _ => by cases value <;> exact ⟨_, _, rfl, Token.noConfusion⟩
  | .parameter _, _ | .wholeRow .., _ => ⟨_, _, rfl, Token.noConfusion⟩
  | .membership _ [] negated, _ => ⟨_, _, rfl, by cases negated <;> decide⟩
  | .function name arguments, _ => ⟨_, _, solid_function name arguments, Token.noConfusion⟩
  | .castText operand, _ => ⟨_, _, solid_castText operand, by decide⟩
  | .parenthesis inner, _ => ⟨_, _, solid_parenthesis inner, Token.noConfusion⟩
  | .binary operator left right, plain => by
    obtain ⟨token, rest, solid, other⟩ := IsPlain.head plain.2.2.1
    exact ⟨token, _, by rw [solid_binary, solid]; rfl, other⟩
  | .nullTest operand negated, plain => by
    have inside : operand.IsPlain := plain
    obtain ⟨token, rest, solid, other⟩ := inside.head
    exact ⟨token, _, by rw [solid_nullTest, solid]; rfl, other⟩
  | .membership operand (value :: values) negated, plain => by
    have inside : operand.IsPlain := plain
    obtain ⟨token, rest, solid, other⟩ := inside.head
    exact ⟨token, _, by rw [solid_membership, solid]; rfl, other⟩

theorem partsAt_unmarked {isMark : Token → Bool} {tokens part uncut : List Token} {depth : Nat}
    (unmarked : partsAt isMark depth part tokens = (uncut, [])) : uncut = part ++ tokens := by
  induction tokens generalizing depth part with
  | nil =>
      rw [List.append_nil]
      exact (congrArg Prod.fst unmarked).symm
  | cons token rest ih =>
      rw [partsAt] at unmarked
      split at unmarked
      · cases congrArg Prod.snd unmarked
      · rw [ih unmarked, List.append_assoc, List.singleton_append]

theorem enclosed?_behind {inside rest : List Token} (within : IsClosed inside) (more : rest ≠ []) :
    enclosed? ((.symbol .opening :: inside ++ [.symbol .closing]) ++ rest) = none := by
  have closing : (Token.symbol .closing == .symbol .closing) = true := rfl
  have cut := within.whole_closing.parts_mark closing rest
  rw [List.append_assoc, List.cons_append, List.singleton_append, enclosed?, cut]
  split
  next same =>
    obtain ⟨-, alone⟩ := Prod.mk.inj same
    obtain ⟨here, others⟩ := List.cons.inj alone
    exact absurd (partsAt_unmarked (Prod.ext (Prod.mk.inj here).2 others)).symm more
  next => rfl

/-- A plain expression does not end the bracket that it begins with, unless it is nothing else. -/
theorem IsPlain.enclosed? : ∀ {expr : Expr}, expr.IsPlain → ∀ {rest : List Token},
    rest ≠ [] ∨ expr.isParenthesis = false → Reader.enclosed? (expr.solid ++ rest) = none
  | .column table _, _, _, _ | .star table, _, _, _ => by
    cases table <;> rfl
  | .literal value, _, _, _ => by cases value <;> rfl
  | .parameter _, _, _, _ | .wholeRow .., _, _, _ | .membership _ [] _, _, _, _ => rfl
  | .function name arguments, _, _, _ => by
    rw [solid_function]
    rfl
  | .castText operand, _, _, _ => by
    rw [solid_castText]
    rfl
  | .parenthesis inner, _, _, more => by
    rw [solid_parenthesis]
    exact enclosed?_behind inner.solid_closed (more.resolve_right nofun)
  | .binary operator left right, plain, _, _ => by
    rw [solid_binary, List.append_assoc]
    exact plain.2.2.1.enclosed? (.inl nofun)
  | .nullTest operand negated, plain, _, _ => by
    have inside : operand.IsPlain := plain
    rw [solid_nullTest, List.append_assoc]
    exact inside.enclosed? (.inl nofun)
  | .membership operand (value :: values) negated, plain, _, _ => by
    have inside : operand.IsPlain := plain
    rw [solid_membership, List.append_assoc]
    exact inside.enclosed? (.inl (by cases negated <;> exact nofun))

theorem IsPlain.factor (plain : expr.IsPlain) (bare : expr.isParenthesis = false) :
    IsFactor atoms expr.solid (atoms expr.solid) := by
  refine ⟨plain.whole, ?_⟩
  obtain ⟨token, rest, solid, other⟩ := plain.head
  have open_ : Reader.enclosed? (expr.solid ++ []) = none := plain.enclosed? (.inr bare)
  rw [List.append_nil, solid] at open_
  rw [solid]
  rw [Reader.factor, open_]
  exact fun _ same => other (List.cons.inj same).1

theorem IsPlain.truthBy (plain : expr.IsPlain) (bare : expr.isParenthesis = false) :
    expr.truthBy atoms = atoms expr.solid := by
  cases expr with
  | binary operator left right => cases operator <;> first | rfl | exact absurd rfl plain.1 | exact absurd rfl plain.2.1
  | negation => exact plain.elim
  | parenthesis => cases bare
  | _ => rfl

end Plain

section Formulas

variable {expr : Expr} {atoms : List Token → Truth}

structure IsRead (atoms : List Token → Truth) (expr : Expr) : Prop where
  truth : Reader.truth atoms expr.solid = expr.truthBy atoms
  alternative : expr.isDisjunction = false → IsAlternative atoms expr.solid (expr.truthBy atoms)
  factor : expr.isConnected = false → IsFactor atoms expr.solid (expr.truthBy atoms)

theorem IsRead.ofFactor (isFactor : IsFactor atoms expr.solid (expr.truthBy atoms)) : IsRead atoms expr :=
  ⟨isFactor.isAlternative.truth, fun _ => isFactor.isAlternative, fun _ => isFactor⟩

theorem IsRead.parenthesis (isRead : IsRead atoms expr) : IsRead atoms (.parenthesis expr) := by
  refine .ofFactor ?_
  rw [solid_parenthesis, truthBy, ← isRead.truth]
  exact .bracketed expr.solid_closed

theorem IsRead.asConjunct (isRead : IsRead atoms expr) :
    IsAlternative atoms expr.asConjunct.solid (expr.truthBy atoms) := by
  unfold Expr.asConjunct
  split
  next disjunction =>
    cases expr with
    | binary => exact isRead.parenthesis.alternative rfl
    | _ => cases disjunction
  next other => exact isRead.alternative (Bool.eq_false_of_not_eq_true other)

theorem IsFormula.isRead (formula : expr.IsFormula) : IsRead atoms expr := by
  induction formula with
  | test plain bare => exact .ofFactor (plain.truthBy bare ▸ plain.factor bare)
  | @negation operand _ single ih =>
      refine .ofFactor ?_
      rw [solid_negation]
      exact (ih.factor single).negated
  | parenthesis _ ih => exact ih.parenthesis
  | @conjoined left right _ _ first second =>
      have both : IsAlternative atoms (left.conjoined right).solid ((left.conjoined right).truthBy atoms) := by
        rw [Expr.conjoined, solid_binary, Expr.truthBy, truthBy_asConjunct, truthBy_asConjunct]
        exact .and left.asConjunct.solid_closed first.asConjunct second.asConjunct
      exact ⟨both.truth, fun _ => both, fun single => by cases single⟩
  | @disjoined left right _ _ first second =>
      refine ⟨?_, fun undivided => (by cases undivided), fun single => (by cases single)⟩
      rw [Expr.disjoined, solid_binary, Expr.truthBy, ← first.truth, ← second.truth]
      exact truth_or left.solid_closed

end Formulas

end Expr

end ViewEngine.Sql
