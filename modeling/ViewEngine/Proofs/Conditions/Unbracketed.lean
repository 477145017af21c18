import ViewEngine.Proofs.Conditions.Formulas

/-!
Whatever the combinators make of tests, negations of connected operands included, which are written without brackets.
Main statement: the tokens are read as alternatives of factors, in which `NOT` negates the factor behind it and no more;
so each formula whose negated operands are single is read to say what it was built to say.
-/

namespace ViewEngine.Sql

open Reader

def spliced : List (List Truth) → List (List Truth) → List (List Truth)
  | [], second => second
  | [last], [] => [last]
  | [last], first :: others => (last ++ first) :: others
  | alternative :: next :: rest, second => alternative :: spliced (next :: rest) second

def negatedFirst : List (List Truth) → List (List Truth)
  | (t :: factors) :: others => (t.negated :: factors) :: others
  | alternatives => alternatives

def truthOfAlternatives (alternatives : List (List Truth)) : Truth :=
  Truth.disjunction (alternatives.map Truth.conjunction)

inductive AreRead (atoms : List Token → Truth) : List Token → List (List Truth) → Prop where
  | factor {tokens : List Token} {t : Truth} (isFactor : IsFactor atoms tokens t) : AreRead atoms tokens [[t]]
  | and {before after : List Token} {t : Truth} {factors : List Truth} {others : List (List Truth)}
    (isFactor : IsFactor atoms before t) (rest : AreRead atoms after (factors :: others)) :
    AreRead atoms (before ++ .keyword .and :: after) ((t :: factors) :: others)
  | or {before after : List Token} {t : Truth} {alternatives : List (List Truth)}
    (isFactor : IsFactor atoms before t) (rest : AreRead atoms after alternatives) :
    AreRead atoms (before ++ .keyword .or :: after) ([t] :: alternatives)

theorem partsAt_eq (isMark : Token → Bool) (depth : Nat) (part tokens : List Token) :
    partsAt isMark depth part tokens =
      (part ++ (partsAt isMark depth [] tokens).1, (partsAt isMark depth [] tokens).2) := by
  induction tokens generalizing depth part with
  | nil => exact congrArg (·, []) (List.append_nil part).symm
  | cons token rest ih =>
      by_cases here : depth = 0 ∧ isMark token = true
      · simp only [partsAt, if_pos here, List.append_nil]
      · simp only [partsAt, if_neg here, List.nil_append]
        rw [ih, ih _ [token], List.append_assoc]

theorem partsFrom_eq (mark : Token) (part tokens : List Token) :
    partsFrom mark part tokens = (partsFrom mark [] tokens).modifyHead (part ++ ·) := by
  rw [partsFrom, partsAt_eq]
  rfl

section Parts

variable {atoms : List Token → Truth} {before : List Token} {t : Truth}

theorem partsBetween_factor (isFactor : IsFactor atoms before t) (connective : Connective) (rest : List Token) :
    partsBetween connective.operator.token (before ++ connective.operator.token :: rest) =
      before :: partsBetween connective.operator.token rest := by
  rw [partsBetween, partsFrom_whole (isFactor.whole connective), List.nil_append]
  exact partsFrom_mark

theorem alternative_and (isFactor : IsFactor atoms before t) (rest : List Token) :
    alternative atoms (truth atoms) (before ++ .keyword .and :: rest) =
      t.and (alternative atoms (truth atoms) rest) := by
  have cut : partsBetween (.keyword .and) (before ++ .keyword .and :: rest) = _ :=
    partsBetween_factor isFactor .and rest
  rw [alternative, cut, List.map_cons, isFactor.means]
  rfl

theorem alternatives_and (isFactor : IsFactor atoms before t) (rest : List Token) :
    alternatives atoms (truth atoms) (before ++ .keyword .and :: rest) =
      (alternatives atoms (truth atoms) rest).modifyHead t.and := by
  have whole : IsWhole (· == .keyword .or) (before ++ [.keyword .and]) := (isFactor.whole .or).append (.single rfl rfl)
  have cut : partsBetween (.keyword .or) (before ++ .keyword .and :: rest) =
      (partsBetween (.keyword .or) rest).modifyHead (before ++ .keyword .and :: ·) := by
    have joined : before ++ .keyword .and :: rest = (before ++ [.keyword .and]) ++ rest := by simp
    rw [joined, partsBetween, partsFrom_whole whole, partsFrom_eq, partsBetween]
    simp only [List.nil_append, List.append_assoc, List.singleton_append]
  rw [alternatives, cut, alternatives]
  cases partsBetween (.keyword .or) rest with
  | nil => rfl
  | cons first others => exact congrArg (· :: _) (alternative_and isFactor first)

theorem alternatives_or (isFactor : IsFactor atoms before t) (rest : List Token) :
    alternatives atoms (truth atoms) (before ++ .keyword .or :: rest) = t :: alternatives atoms (truth atoms) rest := by
  have cut : partsBetween (.keyword .or) (before ++ .keyword .or :: rest) = _ :=
    partsBetween_factor isFactor .or rest
  rw [alternatives, cut, List.map_cons, isFactor.isAlternative.means]
  rfl

end Parts

namespace AreRead

variable {atoms : List Token → Truth} {before after tokens : List Token} {first second alternatives : List (List Truth)}

theorem ne_nil (areRead : AreRead atoms tokens alternatives) : alternatives ≠ [] := by
  cases areRead <;> exact nofun

theorem append_or (left : AreRead atoms before first) (right : AreRead atoms after second) :
    AreRead atoms (before ++ .keyword .or :: after) (first ++ second) := by
  induction left with
  | factor isFactor => exact .or isFactor right
  | and isFactor _ ih =>
      rw [List.append_assoc, List.cons_append]
      exact .and isFactor ih
  | or isFactor _ ih =>
      rw [List.append_assoc, List.cons_append]
      exact .or isFactor ih

theorem append_and (left : AreRead atoms before first) (right : AreRead atoms after second) :
    AreRead atoms (before ++ .keyword .and :: after) (spliced first second) := by
  induction left with
  | factor isFactor =>
      cases second with
      | nil => exact absurd rfl right.ne_nil
      | cons factors others => exact .and isFactor right
  | @and before rest t factors others isFactor _ ih =>
      rw [List.append_assoc, List.cons_append]
      cases others with
      | nil =>
          cases second with
          | nil => exact absurd rfl right.ne_nil
          | cons more further => exact .and isFactor ih
      | cons next others => exact .and isFactor ih
  | @or before rest t alternatives isFactor areRead ih =>
      rw [List.append_assoc, List.cons_append]
      cases alternatives with
      | nil => exact absurd rfl areRead.ne_nil
      | cons next others => exact .or isFactor ih

theorem negation (areRead : AreRead atoms tokens alternatives) :
    AreRead atoms (.keyword .not :: tokens) (negatedFirst alternatives) := by
  cases areRead with
  | factor isFactor => exact .factor isFactor.negated
  | and isFactor rest => exact .and isFactor.negated rest
  | or isFactor rest => exact .or isFactor.negated rest

theorem alternatives_eq (areRead : AreRead atoms tokens alternatives) :
    Reader.alternatives atoms (Reader.truth atoms) tokens = alternatives.map Truth.conjunction := by
  induction areRead with
  | factor isFactor => rw [isFactor.isAlternative.alone, List.map_singleton, Truth.conjunction_single]
  | and isFactor _ ih =>
      rw [alternatives_and isFactor, ih]
      rfl
  | or isFactor _ ih => rw [alternatives_or isFactor, ih, List.map_cons, Truth.conjunction_single]

theorem truth (areRead : AreRead atoms tokens alternatives) :
    Reader.truth atoms tokens = truthOfAlternatives alternatives := by
  rw [truth_eq, areRead.alternatives_eq, truthOfAlternatives]

end AreRead

namespace Expr

/-- Tests, brackets, and whatever connectives and negations make of them. -/
inductive IsBuilt : Expr → Prop where
  | test {expr : Expr} (plain : expr.IsPlain) (bare : expr.isParenthesis = false) : IsBuilt expr
  | negation {operand : Expr} (built : IsBuilt operand) : IsBuilt (negation operand)
  | parenthesis {inner : Expr} (built : IsBuilt inner) : IsBuilt (parenthesis inner)
  | conjoined {left right : Expr} (first : IsBuilt left) (second : IsBuilt right) : IsBuilt (left.conjoined right)
  | disjoined {left right : Expr} (first : IsBuilt left) (second : IsBuilt right) : IsBuilt (left.disjoined right)

/-- The alternatives that an expression is read as, each by what its factors say. -/
def readAs (atoms : List Token → Truth) : Expr → List (List Truth)
  | .binary .and left right => spliced (left.readAs atoms) (right.readAs atoms)
  | .binary .or left right => left.readAs atoms ++ right.readAs atoms
  | .negation operand => negatedFirst (operand.readAs atoms)
  | .parenthesis inner => [[truthOfAlternatives (inner.readAs atoms)]]
  | expr => [[atoms expr.solid]]

variable {expr left right : Expr} {atoms : List Token → Truth}

theorem areRead_parenthesis (areRead : AreRead atoms expr.solid (expr.readAs atoms)) :
    AreRead atoms (parenthesis expr).solid ((parenthesis expr).readAs atoms) := by
  rw [solid_parenthesis, readAs, ← areRead.truth]
  exact .factor (.bracketed expr.solid_closed)

theorem areRead_asConjunct (areRead : AreRead atoms expr.solid (expr.readAs atoms)) :
    AreRead atoms expr.asConjunct.solid (expr.asConjunct.readAs atoms) := by
  unfold asConjunct
  split
  next disjunction =>
    cases expr with
    | binary => exact areRead_parenthesis areRead
    | _ => cases disjunction
  next => exact areRead

theorem IsPlain.readAs (plain : expr.IsPlain) (bare : expr.isParenthesis = false) :
    expr.readAs atoms = [[atoms expr.solid]] := by
  cases expr with
  | binary operator left right => cases operator <;> first | rfl | exact absurd rfl plain.1 | exact absurd rfl plain.2.1
  | negation => exact plain.elim
  | parenthesis => cases bare
  | _ => rfl

theorem IsBuilt.areRead (built : expr.IsBuilt) : AreRead atoms expr.solid (expr.readAs atoms) := by
  induction built with
  | test plain bare => exact plain.readAs bare ▸ .factor (plain.factor bare)
  | negation _ ih =>
      rw [solid_negation]
      exact ih.negation
  | parenthesis _ ih => exact areRead_parenthesis ih
  | conjoined _ _ first second =>
      rw [Expr.conjoined, solid_binary]
      exact (areRead_asConjunct first).append_and (areRead_asConjunct second)
  | disjoined _ _ first second =>
      rw [Expr.disjoined, solid_binary]
      exact first.append_or second

theorem IsBuilt.conjunction {exprs : List Expr} {whole : Expr} (each : ∀ expr ∈ exprs, IsBuilt expr)
    (joined : conjunction? exprs = some whole) : IsBuilt whole := by
  cases exprs with
  | nil => cases joined
  | cons first rest =>
      cases joined
      rw [List.forall_mem_cons] at each
      obtain ⟨built, each⟩ := each
      induction rest generalizing first with
      | nil => exact built
      | cons next rest ih =>
          rw [List.forall_mem_cons] at each
          exact ih (first.conjoined next) (built.conjoined each.1) each.2

theorem negation_read (first : left.IsFormula) (second : right.IsFormula) (single : left.isConnected = false) :
    truthOf atoms (negation (left.conjoined right)).tokens = (left.truthBy atoms).negated.and (right.truthBy atoms) ∧
      truthOf atoms (negation (left.disjoined right)).tokens =
        (left.truthBy atoms).negated.or (right.truthBy atoms) := by
  have alone : left.asConjunct = left := by
    rw [asConjunct, if_neg]
    intro disjunction
    cases left with
    | binary operator _ _ => cases operator <;> cases disjunction; cases single
    | _ => cases disjunction
  have negated : IsFactor atoms (.keyword .not :: left.solid) (left.truthBy atoms).negated :=
    (first.isRead.factor single).negated
  have closed : IsClosed (.keyword .not :: left.solid) := .plain rfl left.solid_closed
  constructor
  · change Reader.truth atoms (negation (left.conjoined right)).solid = _
    rw [solid_negation, Expr.conjoined, solid_binary, alone]
    exact (IsAlternative.and closed negated.isAlternative second.isRead.asConjunct).truth
  · change Reader.truth atoms (negation (left.disjoined right)).solid = _
    rw [solid_negation, Expr.disjoined, solid_binary, ← second.isRead.truth, ← negated.isAlternative.truth]
    exact truth_or closed

/-- Each expression that is built of tests is read as its alternatives, which are what it was built to say if no negated
operand is connected. A negated conjunction or disjunction is read as negating its first operand only. -/
theorem negations_reach_first_factor (atoms : List Token → Truth) :
    (∀ expr : Expr, expr.IsBuilt → truthOf atoms expr.tokens = truthOfAlternatives (expr.readAs atoms)) ∧
    (∀ expr : Expr, expr.IsFormula → truthOf atoms expr.tokens = expr.truthBy atoms) ∧
    ∀ left right : Expr, left.IsFormula → right.IsFormula → left.isConnected = false →
      truthOf atoms (negation (left.conjoined right)).tokens = (left.truthBy atoms).negated.and (right.truthBy atoms) ∧
      truthOf atoms (negation (left.disjoined right)).tokens = (left.truthBy atoms).negated.or (right.truthBy atoms) :=
  ⟨fun _ built => built.areRead.truth, fun _ formula => formula.isRead.truth,
    fun _ _ first second single => negation_read first second single⟩

def isOne : Expr :=
  equals (unqualified "a") (.literal (.integer 1))

def isTwo : Expr :=
  equals (unqualified "b") (.literal (.integer 2))

/-- Where neither test holds, the negation of both does, and what it is written as does not. With brackets it would. -/
theorem negated_both_are_misread : (negation (isOne.conjoined isTwo)).IsBuilt ∧
    isOne.IsFormula ∧ isTwo.IsFormula ∧ isOne.isConnected = false ∧
    (negation (isOne.conjoined isTwo)).text .sqlite = "NOT \"a\" = 1 AND \"b\" = 2" ∧
    (negation (isOne.conjoined isTwo)).truthBy (fun _ => some false) = some true ∧
    truthOf (fun _ => some false) (negation (isOne.conjoined isTwo)).tokens =
      truthOfAlternatives [[some true, some false]] ∧
    truthOf (fun _ => some false) (negation (isOne.conjoined isTwo)).tokens = some false ∧
    truthOf (fun _ => some false) (negation (isOne.conjoined isTwo).parenthesized).tokens = some true := by
  have plain : isOne.IsPlain ∧ isTwo.IsPlain :=
    ⟨⟨nofun, nofun, trivial, trivial⟩, ⟨nofun, nofun, trivial, trivial⟩⟩
  have one : isOne.IsFormula := .test plain.1 rfl
  have two : isTwo.IsFormula := .test plain.2 rfl
  have built : (negation (isOne.conjoined isTwo)).IsBuilt :=
    .negation (.conjoined (.test plain.1 rfl) (.test plain.2 rfl))
  obtain ⟨read, formula, misread⟩ := negations_reach_first_factor fun _ => some false
  refine ⟨built, one, two, rfl, by decide +kernel, rfl, read _ built, (misread isOne isTwo one two rfl).1, ?_⟩
  exact formula (negation (parenthesis (isOne.conjoined isTwo))) (.negation (.parenthesis (one.conjoined two)) rfl)

end Expr

end ViewEngine.Sql
