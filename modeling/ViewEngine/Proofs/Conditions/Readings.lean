import Mathlib.Data.List.Forall2
import ViewEngine.Proofs.Conditions.Bracketed
import ViewEngine.Proofs.Relational.Evaluation
import ViewEngine.Proofs.Relational.Literals

namespace ViewEngine.Sql

def Literal.written : Literal → Literal
  | .float x => if x.isFinite then .float x else .null
  | literal => literal

namespace Expr

def written (expr : Expr) : Expr :=
  expr.mapLiterals Literal.written

def Alike (first second : Expr) : Prop :=
  ∀ c frame, first.eval c frame = second.eval c frame

namespace Alike

variable {first second third fourth : Expr} {operator : Operator}

theorem refl (expr : Expr) : Alike expr expr :=
  fun _ _ => rfl

theorem trans (alike : Alike first second) (next : Alike second third) : Alike first third :=
  fun c frame => (alike c frame).trans (next c frame)

theorem binary (left : Alike first second) (right : Alike third fourth) :
    Alike (.binary operator first third) (.binary operator second fourth) :=
  fun c frame => congrArg₂ (operator.apply c) (left c frame) (right c frame)

theorem negation (alike : Alike first second) : Alike (.negation first) (.negation second) :=
  fun c frame => congrArg (fun value : Value => value.truth.negated.value) (alike c frame)

theorem castText (alike : Alike first second) : Alike (.castText first) (.castText second) :=
  fun c frame => congrArg c.castText (alike c frame)

theorem parenthesis (alike : Alike first second) : Alike (.parenthesis first) (.parenthesis second) :=
  alike

theorem nullTest (alike : Alike first second) (negated : Bool) :
    Alike (.nullTest first negated) (.nullTest second negated) :=
  fun c frame => congrArg (fun value : Value => Value.bool (value.isNull != negated)) (alike c frame)

theorem membership {values others : List Expr} (alike : Alike first second)
    (each : List.Forall₂ Alike values others) (negated : Bool) :
    Alike (.membership first values negated) (.membership second others negated) := by
  intro c frame
  have same : evalEach c frame values = evalEach c frame others := by
    induction each with
    | nil => rfl
    | cons head _ ih => exact congrArg₂ List.cons (head c frame) ih
  exact congrArg₂ (fun value values =>
    (if negated then (c.oneOf value values).negated else c.oneOf value values).value) (alike c frame) same

end Alike

def operands (operator : Operator) : Expr → List Expr
  | .binary other left right =>
    if other = operator then left.operands operator ++ right.operands operator else [.binary other left right]
  | expr => [expr]

theorem operands_own (operator : Operator) (left right : Expr) :
    (binary operator left right).operands operator = left.operands operator ++ right.operands operator := by
  rw [operands, if_pos rfl]

end Expr

def Operator.IsChained (operator : Operator) : Prop :=
  operator = .or ∨ operator = .and ∨ operator = .concatenation

namespace Expr

variable {operator : Operator} {expr first : Expr} {rest : List Expr}

theorem operands_other (lower : expr.level < operator.level ∨ operator.level < expr.level) :
    expr.operands operator = [expr] := by
  cases expr with
  | binary other left right =>
      have differs : other ≠ operator := by
        rintro rfl
        exact lower.elim (Nat.lt_irrefl _) (Nat.lt_irrefl _)
      rw [operands, if_neg differs]
  | _ => rfl

theorem eq_binary_of_level (chained : operator.IsChained) (same : expr.level = operator.level) :
    ∃ left right, expr = binary operator left right := by
  cases expr with
  | binary other left right =>
      refine ⟨left, right, ?_⟩
      rcases chained with rfl | rfl | rfl <;> cases other <;> first | rfl | cases same
  | membership operand values negated => rcases chained with rfl | rfl | rfl <;> cases values <;> cases same
  | _ => rcases chained with rfl | rfl | rfl <;> cases same

theorem solid_operands (operator : Operator) (expr : Expr) : ∃ first rest, expr.operands operator = first :: rest ∧
    expr.solid = first.solid ++ rest.flatMap fun operand => operator.token :: operand.solid := by
  have single : ∃ first rest, [expr] = first :: rest ∧
      expr.solid = first.solid ++ rest.flatMap fun operand => operator.token :: operand.solid :=
    ⟨expr, [], rfl, (List.append_nil _).symm⟩
  match expr with
  | .binary other left right =>
      by_cases own : other = operator
      · subst own
        obtain ⟨first, leftRest, leftShape, leftSolid⟩ := solid_operands other left
        obtain ⟨second, rightRest, rightShape, rightSolid⟩ := solid_operands other right
        refine ⟨first, leftRest ++ second :: rightRest, ?_, ?_⟩
        · rw [operands_own, leftShape, rightShape, List.cons_append]
        · rw [solid_binary, leftSolid, rightSolid, List.flatMap_append, List.flatMap_cons, List.append_assoc,
            List.cons_append]
      · rwa [operands, if_neg own]
  | .column .. | .literal _ | .parameter _ | .negation _ | .function .. | .castText _ | .membership ..
  | .nullTest .. | .star _ | .wholeRow .. | .parenthesis _ => exact single

theorem operands_bracketed (chained : operator.IsChained) : ∀ {expr : Expr}, expr.IsBracketed →
    expr.level ≤ operator.level → ∀ operand ∈ expr.operands operator,
      operand.IsBracketed ∧ operand.level < operator.level
  | expr, bracketed, low, operand, member => by
    rcases Nat.lt_or_eq_of_le low with lower | same
    · rw [operands_other (.inl lower), List.mem_singleton] at member
      exact member ▸ ⟨bracketed, lower⟩
    · obtain ⟨left, right, rfl⟩ := eq_binary_of_level chained same
      obtain ⟨first, second, leftLevel, rightLevel⟩ := bracketed
      rw [operands_own, List.mem_append] at member
      rcases member with inLeft | inRight
      · exact operands_bracketed chained first (Nat.le_trans leftLevel (leftLevel_le operator)) operand inLeft
      · exact operands_bracketed chained second (Nat.le_trans rightLevel (rightLevel_le operator)) operand inRight

section Folds

variable {operator : Operator}

theorem foldl_alike {rest others : List Expr} (each : List.Forall₂ Alike rest others) {first second : Expr}
    (alike : Alike first second) : Alike (rest.foldl (binary operator) first) (others.foldl (binary operator) second) := by
  induction each generalizing first second with
  | nil => exact alike
  | cons head _ ih => exact ih (alike.binary head)

theorem regrouped (associative : operator = .or ∨ operator = .and) (first second third : Expr) :
    Alike (binary operator (binary operator first second) third)
      (binary operator first (binary operator second third)) := by
  intro c frame
  rcases associative with rfl | rfl
  · simp only [eval, Operator.apply, Value.truth_value, Truth.or_assoc]
  · simp only [eval, Operator.apply, Value.truth_value, Truth.and_assoc]

theorem foldl_regrouped (associative : operator = .or ∨ operator = .and) (rest : List Expr) (first second : Expr) :
    Alike (rest.foldl (binary operator) (binary operator first second))
      (binary operator first (rest.foldl (binary operator) second)) := by
  induction rest generalizing second with
  | nil => exact .refl _
  | cons next rest ih =>
      refine Alike.trans ?_ (ih (binary operator second next))
      exact foldl_alike (List.forall₂_same.mpr fun expr _ => .refl expr) (regrouped associative first second next)

theorem operands_alike (chained : operator.IsChained) (change : Literal → Literal) : ∀ {expr first : Expr}
    {rest : List Expr}, expr.IsBracketed → expr.operands operator = first :: rest →
      Alike ((rest.map (mapLiterals change)).foldl (binary operator) (first.mapLiterals change))
        (expr.mapLiterals change)
  | expr, first, rest, bracketed, shape => by
    by_cases same : expr.level = operator.level
    · obtain ⟨left, right, rfl⟩ := eq_binary_of_level chained same
      obtain ⟨leftBracketed, rightBracketed, -, rightLevel⟩ := bracketed
      obtain ⟨leftFirst, leftRest, leftShape, -⟩ := solid_operands operator left
      obtain ⟨rightFirst, rightRest, rightShape, -⟩ := solid_operands operator right
      have leftAlike := operands_alike chained change leftBracketed leftShape
      have rightAlike := operands_alike chained change rightBracketed rightShape
      rw [operands_own, leftShape, rightShape, List.cons_append] at shape
      cases shape
      rw [List.map_append, List.map_cons, List.foldl_append, List.foldl_cons]
      by_cases associative : operator = .or ∨ operator = .and
      · exact (foldl_regrouped associative _ _ _).trans (leftAlike.binary rightAlike)
      · -- What is to the right of a concatenation is a single operand.
        have concatenation : operator = .concatenation := by
          rcases chained with isOr | isAnd | last
          · exact absurd (.inl isOr) associative
          · exact absurd (.inr isAnd) associative
          · exact last
        subst concatenation
        have lower : right.level < Operator.concatenation.level := Nat.lt_of_le_of_lt rightLevel Nat.one_pos
        rw [operands_other (.inl lower)] at rightShape
        cases rightShape
        exact leftAlike.binary (.refl _)
    · rw [operands_other (Nat.lt_or_gt_of_ne same)] at shape
      cases shape
      exact .refl _

end Folds

theorem solid_head : ∀ {expr : Expr}, expr.IsBracketed → ∃ token rest, expr.solid = token :: rest ∧
    (expr.level ≤ 2 → token ≠ .keyword .not)
  | .literal value, _ => by cases value <;> exact ⟨_, _, rfl, fun _ => Token.noConfusion⟩
  | .column table name, _ => by
    cases table with
    | none => exact ⟨_, _, rfl, fun _ => Token.noConfusion⟩
    | some table => exact ⟨_, _, rfl, fun _ => Token.noConfusion⟩
  | .parameter name, _ => ⟨_, _, rfl, fun _ => Token.noConfusion⟩
  | .binary operator left right, bracketed => by
    obtain ⟨token, rest, shape, plain⟩ := solid_head bracketed.1
    refine ⟨token, rest ++ operator.token :: right.solid, ?_, fun low => plain ?_⟩
    · rw [solid_binary, shape, List.cons_append]
    · exact Nat.le_trans bracketed.2.2.1 (Nat.le_trans (leftLevel_le operator) low)
  | .negation operand, _ => ⟨_, _, solid_negation operand, fun low => absurd (show 3 ≤ 2 from low) (by decide)⟩
  | .castText operand, _ => ⟨_, _, solid_castText operand, fun _ => by decide⟩
  | .parenthesis inner, _ => ⟨_, _, solid_parenthesis inner, fun _ => Token.noConfusion⟩
  | .nullTest operand negated, bracketed => by
    obtain ⟨token, rest, shape, plain⟩ := solid_head bracketed.1
    have written := solid_nullTest operand negated
    rw [shape, List.cons_append] at written
    exact ⟨token, _, written, fun _ => plain (Nat.le_succ_of_le bracketed.2)⟩
  | .membership operand [] negated, _ => ⟨_, _, rfl, fun _ same => by cases negated <;> cases same⟩
  | .membership operand (value :: values) negated, bracketed => by
    obtain ⟨token, rest, shape, plain⟩ := solid_head bracketed.1
    have written := solid_membership operand value values negated
    rw [shape, List.cons_append] at written
    exact ⟨token, _, written, fun _ => plain (Nat.le_succ_of_le bracketed.2.1)⟩

end Expr

namespace Reader

open ViewEngine.Sql.Expr

variable {nested : List Token → Option Expr} {operator : Operator} {expr : Expr}

theorem chain_whole {operand : List Token → Option Expr} {tokens : List Token}
    (whole : IsWhole (· == operator.token) tokens) : chain operator operand tokens = operand tokens := by
  rw [chain, whole.parts]
  exact Option.bind_fun_some _

theorem level_of_mark {token : Token} (marked : (token == operator.token) = true) : token.level = operator.level := by
  rw [beq_iff_eq.mp marked, level_operator]

theorem level_of_isTest {token : Token} (marked : isTest token = true) : token.level = 2 := by
  have compared {token : Token} (found : (comparison? token).isSome = true) : token.level = 2 := by
    obtain ⟨operator, isFound⟩ := Option.isSome_iff_exists.mp found
    have same : (operator.token == token) = true := List.find?_some (p := fun (o : Operator) => o.token == token) isFound
    have listed := List.mem_of_find?_eq_some isFound
    rw [← beq_iff_eq.mp same, level_operator]
    revert listed
    cases operator <;> decide
  unfold isTest at marked
  split at marked
  · rfl
  · rfl
  · rfl
  · rfl
  · exact compared marked

theorem level_succ (bracketed : expr.IsBracketed) {k : Nat} (low : expr.level ≤ k) (bound : k < 5) :
    level nested (k + 1) expr.solid = level nested k expr.solid := by
  have whole {isMark : Token → Bool} (higher : ∀ token, isMark token = true → k < token.level) :
      IsWhole isMark expr.solid :=
    solid_whole bracketed fun token marked => Nat.lt_of_le_of_lt low (higher token marked)
  have mark {operator : Operator} (higher : k < operator.level) : IsWhole (· == operator.token) expr.solid :=
    whole fun token marked => (level_of_mark marked).symm ▸ higher
  match k with
  | 0 => exact chain_whole (mark (by decide))
  | 1 =>
      have parts := (whole fun token marked => (level_of_isTest marked).symm ▸ (by decide : 1 < 2)).parts
      rw [level, level, test, parts]
  | 2 =>
      obtain ⟨token, rest, shape, plain⟩ := solid_head bracketed
      have positive := plain low
      rw [level, level, shape]
      cases token with
      | keyword word => cases word <;> first | rfl | exact absurd rfl positive
      | _ => rfl
  | 3 => exact chain_whole (mark (by decide))
  | 4 => exact chain_whole (mark (by decide))

theorem level_of_le (bracketed : expr.IsBracketed) {k : Nat} (low : expr.level ≤ k) (bound : k ≤ 5) :
    level nested k expr.solid = level nested expr.level expr.solid := by
  induction k with
  | zero => rw [Nat.le_zero.mp low]
  | succ k ih =>
      rcases Nat.lt_or_eq_of_le low with lower | same
      · rw [level_succ bracketed (Nat.le_of_lt_succ lower) bound, ih (Nat.le_of_lt_succ lower) (Nat.le_of_succ_le bound)]
      · rw [same]

theorem foldlM_operands (operator : Operator) {operand : List Token → Option Expr} {rest : List Expr}
    (each : ∀ expr ∈ rest, ∃ found, Alike found expr.written ∧ operand expr.solid = some found)
    {first second : Expr} (alike : Alike first second) : ∃ joined,
    (rest.map fun expr => (operator.token, expr.solid)).foldlM
      (fun left part => (operand part.2).map (.binary operator left)) first = some joined ∧
      Alike joined ((rest.map written).foldl (binary operator) second) := by
  induction rest generalizing first second with
  | nil => exact ⟨first, rfl, alike⟩
  | cons next rest ih =>
      rw [List.forall_mem_cons] at each
      obtain ⟨found, foundAlike, isFound⟩ := each.1
      have both : Alike (.binary operator first found) (.binary operator second next.written) :=
        alike.binary foundAlike
      obtain ⟨joined, isJoined, joinedAlike⟩ := ih each.2 both
      refine ⟨joined, ?_, joinedAlike⟩
      rw [List.map_cons, List.foldlM_cons, isFound]
      exact isJoined

theorem chain_operands (chained : operator.IsChained) (bracketed : expr.IsBracketed)
    (low : expr.level ≤ operator.level) {operand : List Token → Option Expr}
    (each : ∀ part ∈ expr.operands operator, ∃ found, Alike found part.written ∧ operand part.solid = some found) :
    ∃ joined, chain operator operand expr.solid = some joined ∧ Alike joined expr.written := by
  obtain ⟨first, rest, shape, solid⟩ := solid_operands operator expr
  have whole : ∀ part ∈ first.solid :: rest.map Expr.solid, IsWhole (· == operator.token) part := by
    intro part member
    rw [← List.map_cons, ← shape] at member
    obtain ⟨inner, inside, rfl⟩ := List.mem_map.mp member
    obtain ⟨innerBracketed, lower⟩ := operands_bracketed chained bracketed low inner inside
    exact solid_whole innerBracketed fun token marked => (level_of_mark marked).symm ▸ lower
  have parts : partsAt (· == operator.token) 0 [] (first.solid ++ rest.flatMap fun part => operator.token :: part.solid) =
      (first.solid, rest.map fun part => (operator.token, part.solid)) := by
    have cut := IsWhole.parts_joined (by exact beq_self_eq_true operator.token) whole
    rwa [List.flatMap_map, List.map_map] at cut
  rw [shape, List.forall_mem_cons] at each
  obtain ⟨found, alike, isFound⟩ := each.1
  obtain ⟨joined, isJoined, joinedAlike⟩ := foldlM_operands operator each.2 alike
  refine ⟨joined, ?_, joinedAlike.trans (operands_alike chained Literal.written bracketed shape)⟩
  rw [chain, solid, parts]
  dsimp only
  rw [isFound]
  exact isJoined

theorem inBrackets?_bracketed (tokens : List Token) :
    inBrackets? (.symbol .opening :: tokens ++ [.symbol .closing]) = some tokens := by
  rw [List.cons_append, inBrackets?, if_pos (by simp), List.dropLast_concat]

theorem members_values {values : List Expr} (nonempty : values ≠ []) (bracketed : AreBracketed values)
    (each : ∀ value ∈ values, ∃ found, Alike found value.written ∧ nested value.solid = some found) :
    ∃ found, List.Forall₂ Alike found (values.map written) ∧
      members nested (.symbol .opening :: commaSeparated (values.map Expr.solid) ++ [.symbol .closing]) = some found := by
  have parts : ∀ items : List Expr, (∀ value ∈ items, ∃ found, Alike found value.written ∧
      nested value.solid = some found) → ∃ found, List.Forall₂ Alike found (items.map written) ∧
        (items.map Expr.solid).mapM nested = some found := by
    intro items each
    induction items with
    | nil => exact ⟨[], .nil, rfl⟩
    | cons value rest ih =>
        rw [List.forall_mem_cons] at each
        obtain ⟨found, alike, isFound⟩ := each.1
        obtain ⟨others, allAlike, areFound⟩ := ih each.2
        refine ⟨found :: others, .cons alike allAlike, ?_⟩
        rw [List.map_cons, List.mapM_cons, isFound, areFound]
        rfl
  obtain ⟨found, alike, areFound⟩ := parts values each
  refine ⟨found, alike, ?_⟩
  cases values with
  | nil => contradiction
  | cons first rest =>
      have whole : ∀ part ∈ first.solid :: rest.map Expr.solid, IsWhole (· == .symbol .comma) part := by
        intro part member
        rw [← List.map_cons] at member
        obtain ⟨inner, inside, rfl⟩ := List.mem_map.mp member
        have low : inner.level < 6 := level_lt inner
        exact solid_whole (areBracketed_iff.mp bracketed inner inside) fun token marked =>
          (beq_iff_eq.mp marked) ▸ low
      have cut := IsWhole.parts_joined (by exact beq_self_eq_true (Token.symbol .comma)) whole
      have listed : commaSeparated ((first :: rest).map Expr.solid) =
          first.solid ++ (rest.map Expr.solid).flatMap (.symbol .comma :: ·) := rfl
      rw [members, inBrackets?_bracketed, listed, Option.bind_some, cut]
      dsimp only
      rw [List.map_map]
      have unmarked : (fun part : Token × List Token => part.2) ∘ (fun part => (Token.symbol .comma, part)) = id := rfl
      rwa [unmarked, List.map_id]

section Steps

variable {n size : Nat}

structure ReadsShorter (n size : Nat) : Prop where
  here : ∀ expr : Expr, expr.IsBracketed → expr.solid.length ≤ size → ∃ found, Alike found expr.written ∧
    ∀ k, expr.level ≤ k → k ≤ 5 → level (Reader.nested n) k expr.solid = some found
  inside : ∀ expr : Expr, expr.IsBracketed → expr.solid.length ≤ size → ∃ found, Alike found expr.written ∧
    Reader.nested n expr.solid = some found

theorem level_operator_eq (chained : operator.IsChained) :
    level nested operator.level = chain operator (level nested (operator.level - 1)) := by
  rcases chained with rfl | rfl | rfl <;> rfl

theorem solid_nonempty (bracketed : expr.IsBracketed) : 0 < expr.solid.length := by
  obtain ⟨token, rest, shape, -⟩ := solid_head bracketed
  rw [shape]
  exact Nat.succ_pos _

theorem length_operands (operator : Operator) {expr part : Expr} (member : part ∈ expr.operands operator) :
    part.solid.length ≤ expr.solid.length := by
  obtain ⟨first, rest, shape, solid⟩ := solid_operands operator expr
  rw [shape, List.mem_cons] at member
  rw [solid, List.length_append]
  rcases member with rfl | inRest
  · omega
  · obtain ⟨before, after, rfl⟩ := List.append_of_mem inRest
    simp only [List.flatMap_append, List.flatMap_cons, List.length_append, List.length_cons]
    omega

theorem length_chained {left right part : Expr} (first : left.IsBracketed) (second : right.IsBracketed)
    (length : (binary operator left right).solid.length ≤ size + 1)
    (member : part ∈ (binary operator left right).operands operator) : part.solid.length ≤ size := by
  have leftLength := solid_nonempty first
  have rightLength := solid_nonempty second
  rw [solid_binary, List.length_append, List.length_cons] at length
  rw [operands_own, List.mem_append] at member
  rcases member with inLeft | inRight
  · have short := length_operands operator inLeft
    omega
  · have short := length_operands operator inRight
    omega

theorem level_binary_chained (shorter : ReadsShorter n size) (chained : operator.IsChained) {left right : Expr}
    (bracketed : (binary operator left right).IsBracketed)
    (length : (binary operator left right).solid.length ≤ size + 1) :
    ∃ found, Alike found (binary operator left right).written ∧
      level (Reader.nested n) operator.level (binary operator left right).solid = some found := by
  have bound : operator.level - 1 ≤ 5 := by rcases chained with rfl | rfl | rfl <;> decide
  obtain ⟨joined, isJoined, alike⟩ := chain_operands chained bracketed (Nat.le_refl _) fun part member => by
    obtain ⟨partBracketed, lower⟩ := operands_bracketed chained bracketed (Nat.le_refl _) part member
    obtain ⟨found, alike, isFound⟩ := shorter.here part partBracketed
      (length_chained bracketed.1 bracketed.2.1 length member)
    exact ⟨found, alike, isFound _ (Nat.le_sub_one_of_lt lower) bound⟩
  exact ⟨joined, alike, (level_operator_eq chained).symm ▸ isJoined⟩

theorem isTest_whole {operand : Expr} (bracketed : operand.IsBracketed) (low : operand.level ≤ 1) :
    IsWhole isTest operand.solid :=
  solid_whole bracketed fun _ marked => (level_of_isTest marked).symm ▸ Nat.lt_succ_of_le low

theorem parts_isTest {operand : Expr} (bracketed : operand.IsBracketed) (low : operand.level ≤ 1) {mark : Token}
    (marked : isTest mark = true) {rest : List Token} (whole : IsWhole isTest rest) :
    partsAt isTest 0 [] (operand.solid ++ mark :: rest) = (operand.solid, [(mark, rest)]) := by
  rw [(isTest_whole bracketed low).parts_mark marked, whole.parts]

theorem level_comparison (shorter : ReadsShorter n size) {left right : Expr}
    (compared : comparison? operator.token = some operator) (leftLevel : operator.leftLevel = 1)
    (rightLevel : operator.rightLevel = 1) (bracketed : (binary operator left right).IsBracketed)
    (length : (binary operator left right).solid.length ≤ size + 1) :
    ∃ found, Alike found (binary operator left right).written ∧
      level (Reader.nested n) 2 (binary operator left right).solid = some found := by
  obtain ⟨first, second, leftLow, rightLow⟩ := bracketed
  rw [leftLevel] at leftLow
  rw [rightLevel] at rightLow
  have leftNonempty := solid_nonempty first
  have rightNonempty := solid_nonempty second
  rw [solid_binary] at length ⊢
  rw [List.length_append, List.length_cons] at length
  have marked : isTest operator.token = true := by cases operator <;> first | rfl | cases compared
  have parts := parts_isTest first leftLow marked (isTest_whole second rightLow)
  obtain ⟨leftFound, leftAlike, isLeft⟩ := shorter.here left first (by omega)
  obtain ⟨rightFound, rightAlike, isRight⟩ := shorter.here right second (by omega)
  have leftTerm : term (Reader.nested n) left.solid = some leftFound := isLeft 1 leftLow (by decide)
  have rightTerm : term (Reader.nested n) right.solid = some rightFound := isRight 1 rightLow (by decide)
  have unfolded : test (Reader.nested n) (left.solid ++ operator.token :: right.solid) = do
      return .binary (← comparison? operator.token) (← term (Reader.nested n) left.solid)
        (← term (Reader.nested n) right.solid) := by
    rw [test, parts]
    cases operator <;> rfl
  refine ⟨.binary operator leftFound rightFound, leftAlike.binary rightAlike, ?_⟩
  rw [level, unfolded, compared, leftTerm, rightTerm]
  rfl

theorem level_nullTest (shorter : ReadsShorter n size) {operand : Expr} {negated : Bool}
    (bracketed : (nullTest operand negated).IsBracketed)
    (length : (nullTest operand negated).solid.length ≤ size + 1) :
    ∃ found, Alike found (nullTest operand negated).written ∧
      level (Reader.nested n) 2 (nullTest operand negated).solid = some found := by
  rw [solid_nullTest] at length ⊢
  rw [List.length_append, List.length_singleton] at length
  obtain ⟨found, alike, isFound⟩ := shorter.here operand bracketed.1 (by omega)
  have operandTerm : term (Reader.nested n) operand.solid = some found := isFound 1 bracketed.2 (by decide)
  refine ⟨.nullTest found negated, alike.nullTest negated, ?_⟩
  cases negated with
  | false =>
      rw [level, test, parts_isTest bracketed.1 bracketed.2 rfl .nil]
      change (term (Reader.nested n) operand.solid).map Expr.isNull = _
      rw [operandTerm]
      rfl
  | true =>
      rw [level, test, parts_isTest bracketed.1 bracketed.2 rfl .nil]
      change (term (Reader.nested n) operand.solid).map Expr.isNotNull = _
      rw [operandTerm]
      rfl

theorem length_value {values : List Expr} {value : Expr} (member : value ∈ values) :
    value.solid.length ≤ (commaSeparated (values.map Expr.solid)).length := by
  obtain ⟨before, after, rfl⟩ := List.append_of_mem member
  cases before with
  | nil =>
      rw [List.nil_append, List.map_cons, commaSeparated, List.length_append]
      omega
  | cons first before =>
      simp only [List.cons_append, List.map_cons, List.map_append, commaSeparated, List.flatMap_append,
        List.flatMap_cons, List.length_append, List.length_cons]
      omega

theorem level_membership (shorter : ReadsShorter n size) {operand value : Expr} {values : List Expr} {negated : Bool}
    (bracketed : (membership operand (value :: values) negated).IsBracketed)
    (length : (membership operand (value :: values) negated).solid.length ≤ size + 1) :
    ∃ found, Alike found (membership operand (value :: values) negated).written ∧
      level (Reader.nested n) 2 (membership operand (value :: values) negated).solid = some found := by
  obtain ⟨operandBracketed, low, listed⟩ := bracketed
  rw [solid_membership] at length ⊢
  simp only [List.length_append, List.length_cons] at length
  obtain ⟨found, alike, isFound⟩ := shorter.here operand operandBracketed (by omega)
  have operandTerm : term (Reader.nested n) operand.solid = some found := isFound 1 low (by decide)
  obtain ⟨items, itemsAlike, areItems⟩ := members_values (by simp) listed fun inner member => by
    have short := length_value member
    exact shorter.inside inner (areBracketed_iff.mp listed inner member) (by omega)
  have whole : IsWhole isTest
      (.symbol .opening :: commaSeparated ((value :: values).map Expr.solid) ++ [.symbol .closing]) :=
    .bracketed rfl (commaSeparated_balanced (solid_balancedOfEach listed))
  have written : (membership operand (value :: values) negated).written =
      .membership operand.written ((value :: values).map Expr.written) negated :=
    congrArg (Expr.membership operand.written · negated) (mapLiteralsOfEach_eq_map ..)
  refine ⟨.membership found items negated, written ▸ alike.membership itemsAlike negated, ?_⟩
  cases negated with
  | false =>
      rw [level, test, if_neg (by decide), List.nil_append, parts_isTest operandBracketed low rfl whole]
      dsimp only
      rw [operandTerm, areItems]
      rfl
  | true =>
      have isIn : isTest (.keyword .inList) = true := rfl
      have behind := IsWhole.nil.parts_mark isIn
        (.symbol .opening :: commaSeparated ((value :: values).map Expr.solid) ++ [.symbol .closing])
      rw [List.nil_append, whole.parts] at behind
      rw [level, test, if_pos rfl, List.singleton_append,
        (isTest_whole operandBracketed low).parts_mark rfl, behind]
      dsimp only
      rw [operandTerm, areItems]
      rfl

theorem level_own (shorter : ReadsShorter n size) (bracketed : expr.IsBracketed)
    (length : expr.solid.length ≤ size + 1) :
    ∃ found, Alike found expr.written ∧ level (Reader.nested n) expr.level expr.solid = some found := by
  cases expr with
  | column table name =>
      cases table with
      | none => exact ⟨_, .refl _, rfl⟩
      | some table => exact ⟨_, .refl _, rfl⟩
  | literal value => cases value <;> exact ⟨_, .refl _, rfl⟩
  | parameter name => exact ⟨_, .refl _, rfl⟩
  | binary operator left right =>
      cases operator with
      | or => exact level_binary_chained shorter (.inl rfl) bracketed length
      | and => exact level_binary_chained shorter (.inr (.inl rfl)) bracketed length
      | concatenation => exact level_binary_chained shorter (.inr (.inr rfl)) bracketed length
      | _ => exact level_comparison shorter rfl rfl rfl bracketed length
  | negation operand =>
      have short : operand.solid.length ≤ size := by
        rw [solid_negation, List.length_cons] at length
        omega
      obtain ⟨found, alike, isFound⟩ := shorter.here operand bracketed.1 short
      have read : negation (Reader.nested n) operand.solid = some found := isFound 3 bracketed.2 (by decide)
      refine ⟨.negation found, alike.negation, ?_⟩
      rw [solid_negation]
      change (negation (Reader.nested n) operand.solid).map Expr.negation = _
      rw [read]
      rfl
  | castText operand =>
      have short : operand.solid.length ≤ size := by
        rw [solid_castText, List.length_cons, List.length_append, List.length_cons, List.length_append] at length
        omega
      obtain ⟨found, alike, isFound⟩ := shorter.inside operand bracketed short
      refine ⟨.castText found, alike.castText, ?_⟩
      rw [solid_castText]
      change ((inBrackets? (.symbol .opening :: (operand.solid ++ [.keyword .asAlias, .textType]) ++
        [.symbol .closing])).bind _) = _
      rw [inBrackets?_bracketed, Option.bind_some, if_pos (List.suffix_append ..)]
      simp [isFound]
  | parenthesis inner =>
      have short : inner.solid.length ≤ size := by
        rw [solid_parenthesis, List.length_append, List.length_cons] at length
        omega
      obtain ⟨found, alike, isFound⟩ := shorter.inside inner bracketed short
      refine ⟨.parenthesis found, alike.parenthesis, ?_⟩
      rw [solid_parenthesis]
      change ((inBrackets? (.symbol .opening :: inner.solid ++ [.symbol .closing])).bind (Reader.nested n)).map _ = _
      rw [inBrackets?_bracketed, Option.bind_some, isFound]
      rfl
  | nullTest operand negated => exact level_nullTest shorter bracketed length
  | membership operand values negated =>
      cases values with
      | nil =>
          refine ⟨.literal (.boolean negated), fun c frame => ?_, by cases negated <;> rfl⟩
          cases negated <;> rfl
      | cons value values => exact level_membership shorter bracketed length
  | function => cases bracketed
  | star => cases bracketed
  | wholeRow => cases bracketed

theorem reads_shorter (size : Nat) : ∀ {n : Nat}, size ≤ n → ReadsShorter n size := by
  -- Induction on the number of tokens; what is in brackets needs one round less.
  induction size with
  | zero =>
      intro n _
      constructor <;> exact fun expr bracketed length =>
        absurd (solid_nonempty bracketed) (Nat.not_lt.mpr length)
  | succ size ih =>
      intro n bound
      have here : ∀ {m : Nat}, size ≤ m → ∀ expr : Expr, expr.IsBracketed → expr.solid.length ≤ size + 1 →
          ∃ found, Alike found expr.written ∧
            ∀ k, expr.level ≤ k → k ≤ 5 → level (Reader.nested m) k expr.solid = some found := by
        intro m within expr bracketed length
        obtain ⟨found, alike, isFound⟩ := level_own (ih within) bracketed length
        exact ⟨found, alike, fun k low top => (level_of_le bracketed low top).trans isFound⟩
      refine ⟨here (Nat.le_of_succ_le bound), fun expr bracketed length => ?_⟩
      obtain ⟨m, rfl⟩ := Nat.exists_eq_succ_of_ne_zero (Nat.ne_of_gt (Nat.lt_of_lt_of_le (Nat.succ_pos size) bound))
      obtain ⟨found, alike, isFound⟩ := here (Nat.le_of_succ_le_succ bound) expr bracketed length
      exact ⟨found, alike, isFound 5 (Nat.le_of_lt_succ (level_lt expr)) (Nat.le_refl 5)⟩

end Steps

end Reader

/-- A bracketed expression is read as one with the same value, whatever blanks there are. -/
theorem read?_eq_some {expr : Expr} (bracketed : expr.IsBracketed) {tokens : List Token}
    (same : tokens.filter (!·.isBlank) = expr.solid) :
    ∃ found, read? tokens = some found ∧ found.Alike expr.written := by
  have short : expr.solid.length ≤ tokens.length + 1 := by
    rw [← same]
    exact Nat.le_succ_of_le (List.length_filter_le ..)
  obtain ⟨found, alike, isFound⟩ :=
    (Reader.reads_shorter (tokens.length + 1) (Nat.le_refl _)).inside expr bracketed short
  exact ⟨found, by rw [read?, same, isFound], alike⟩

end ViewEngine.Sql
