import Mathlib.Tactic.Common
import ViewEngine.Sql.Expr

/-!
Tokens read as an expression. What is outside of all brackets is cut first at the connective that binds
least: at `OR`, then at `AND`; `NOT` binds more than these, and the tests more than `NOT`. What is
between brackets is read anew.
-/

namespace ViewEngine.Sql

namespace Token

def isBlank : Token → Bool
  | .space | .newline | .indent _ => true
  | _ => false

def depthBehind (depth : Nat) : Token → Nat
  | .symbol .opening => depth + 1
  | .symbol .closing => depth - 1
  | _ => depth

end Token

/-- The part in front of the first mark outside of all brackets, and each such mark with the part behind it. -/
def partsAt (isMark : Token → Bool) : Nat → List Token → List Token → List Token × List (Token × List Token)
  | _, part, [] => (part, [])
  | depth, part, token :: rest =>
    if depth = 0 ∧ isMark token = true then
      let (next, others) := partsAt isMark 0 [] rest
      (part, (token, next) :: others)
    else partsAt isMark (token.depthBehind depth) (part ++ [token]) rest

namespace Reader

def inBrackets? : List Token → Option (List Token)
  | .symbol .opening :: rest =>
    if rest.getLast? = some (.symbol .closing) then some rest.dropLast else none
  | _ => none

/-- Operands with one operator between them, which are joined from the left. -/
def chain (operator : Operator) (operand : List Token → Option Expr) (tokens : List Token) : Option Expr :=
  let (first, others) := partsAt (· == operator.token) 0 [] tokens
  (operand first).bind fun first =>
    others.foldlM (fun left part => (operand part.2).map (.binary operator left)) first

section

variable (nested : List Token → Option Expr)

/-- What stands alone or begins with a bracket. A float that is no finite number is written as a null. -/
def primary : List Token → Option Expr
  | [.tableAlias table, .symbol .dot, .identifier name] => some (.column (some table) name)
  | [.identifier name] => some (.column none name)
  | [.integer value] => some (.literal (.integer value))
  | [.float value] => some (.literal (if value.isFinite then .float value else .null))
  | [.string value] => some (.literal (.string value))
  | [.boolean value] => some (.literal (.boolean value))
  | [.keyword .trueValue] => some (.literal (.boolean true))
  | [.keyword .falseValue] => some (.literal (.boolean false))
  | [.null] => some (.literal .null)
  | [.parameter name] => some (.parameter name)
  | .keyword .cast :: rest =>
    (inBrackets? rest).bind fun inside =>
      if [.keyword .asAlias, .textType] <:+ inside then
        (nested (inside.take (inside.length - 2))).map .castText
      else none
  | tokens => ((inBrackets? tokens).bind nested).map .parenthesis

def term : List Token → Option Expr :=
  chain .concatenation (primary nested)

def members (tokens : List Token) : Option (List Expr) :=
  (inBrackets? tokens).bind fun inside =>
    let (first, others) := partsAt (· == .symbol .comma) 0 [] inside
    (first :: others.map (·.2)).mapM nested

def comparison? (mark : Token) : Option Operator :=
  [.equal, .notEqual, .less, .greater, .atMost, .atLeast, .like].find? (·.token == mark)

def isTest : Token → Bool
  | .keyword .not | .keyword .inList | .keyword .isNull | .keyword .isNotNull => true
  | token => (comparison? token).isSome

def test (tokens : List Token) : Option Expr :=
  match partsAt isTest 0 [] tokens with
  | (operand, []) => term nested operand
  | (operand, [(.keyword .isNull, [])]) => (term nested operand).map .isNull
  | (operand, [(.keyword .isNotNull, [])]) => (term nested operand).map .isNotNull
  | (operand, [(.keyword .inList, list)]) => do
    return .membership (← term nested operand) (← members nested list) false
  | (operand, [(.keyword .not, []), (.keyword .inList, list)]) => do
    return .membership (← term nested operand) (← members nested list) true
  | (left, [(mark, right)]) => do
    return .binary (← comparison? mark) (← term nested left) (← term nested right)
  | _ => none

def negation : List Token → Option Expr
  | .keyword .not :: rest => (negation rest).map .negation
  | tokens => test nested tokens

def level : Nat → List Token → Option Expr
  | 0 => primary nested
  | 1 => term nested
  | 2 => test nested
  | 3 => negation nested
  | 4 => chain .and (negation nested)
  | _ => chain .or (chain .and (negation nested))

end

/-- Reads what has at most so many brackets around it. -/
def nested : Nat → List Token → Option Expr
  | 0, _ => none
  | depth + 1, tokens => level (nested depth) 5 tokens

end Reader

/-- The expression that tokens are read as. -/
def read? (tokens : List Token) : Option Expr :=
  Reader.nested (tokens.length + 1) (tokens.filter (!·.isBlank))

section Parts

variable {isMark : Token → Bool} {token : Token} {before after tokens : List Token}

/-- Tokens that have no mark outside of their brackets. -/
def IsWhole (isMark : Token → Bool) (tokens : List Token) : Prop :=
  ∀ part rest, partsAt isMark 0 part (tokens ++ rest) = partsAt isMark 0 (part ++ tokens) rest

def IsBalanced (tokens : List Token) : Prop :=
  ∀ isMark depth part rest,
    partsAt isMark (depth + 1) part (tokens ++ rest) = partsAt isMark (depth + 1) (part ++ tokens) rest

def Token.isBracket : Token → Bool
  | .symbol .opening | .symbol .closing => true
  | _ => false

theorem depthBehind_of_not_isBracket (plain : token.isBracket = false) (depth : Nat) :
    token.depthBehind depth = depth := by
  cases token with
  | symbol mark => cases mark <;> first | rfl | cases plain
  | _ => rfl

namespace IsBalanced

theorem nil : IsBalanced [] := by
  intro isMark depth part rest
  rw [List.nil_append, List.append_nil]

theorem append (first : IsBalanced before) (second : IsBalanced after) : IsBalanced (before ++ after) := by
  intro isMark depth part rest
  rw [List.append_assoc, first, second, List.append_assoc]

theorem single (plain : token.isBracket = false) : IsBalanced [token] := by
  intro isMark depth part rest
  rw [List.singleton_append, partsAt, if_neg (by simp), depthBehind_of_not_isBracket plain]

theorem cons (plain : token.isBracket = false) (rest : IsBalanced after) : IsBalanced (token :: after) :=
  (single plain).append rest

theorem bracketed (inside : IsBalanced tokens) : IsBalanced (.symbol .opening :: tokens ++ [.symbol .closing]) := by
  intro isMark depth part rest
  have opens : Token.depthBehind (depth + 1) (.symbol .opening) = depth + 1 + 1 := rfl
  have closes : Token.depthBehind (depth + 1 + 1) (.symbol .closing) = depth + 1 := rfl
  rw [List.append_assoc, List.cons_append, partsAt, if_neg (by simp), opens, inside, List.singleton_append, partsAt,
    if_neg (by simp), closes]
  simp only [List.append_assoc, List.nil_append, List.cons_append]

end IsBalanced

namespace IsWhole

theorem nil : IsWhole isMark [] := by
  intro part rest
  rw [List.nil_append, List.append_nil]

theorem append (first : IsWhole isMark before) (second : IsWhole isMark after) : IsWhole isMark (before ++ after) := by
  intro part rest
  rw [List.append_assoc, first, second, List.append_assoc]

theorem single (unmarked : isMark token = false) (plain : token.isBracket = false) : IsWhole isMark [token] := by
  intro part rest
  rw [List.singleton_append, partsAt, if_neg (by simp [unmarked]), depthBehind_of_not_isBracket plain]

theorem cons (unmarked : isMark token = false) (plain : token.isBracket = false) (rest : IsWhole isMark after) :
    IsWhole isMark (token :: after) :=
  (single unmarked plain).append rest

theorem bracketed (unmarked : isMark (.symbol .opening) = false) (inside : IsBalanced tokens) :
    IsWhole isMark (.symbol .opening :: tokens ++ [.symbol .closing]) := by
  intro part rest
  have opens : Token.depthBehind 0 (.symbol .opening) = 0 + 1 := rfl
  have closes : Token.depthBehind (0 + 1) (.symbol .closing) = 0 := rfl
  rw [List.append_assoc, List.cons_append, partsAt, if_neg (by simp [unmarked]), opens, inside, List.singleton_append,
    partsAt, if_neg (by simp), closes]
  simp only [List.append_assoc, List.nil_append, List.cons_append]

theorem parts (whole : IsWhole isMark tokens) : partsAt isMark 0 [] tokens = (tokens, []) := by
  have alone := whole [] []
  rwa [List.append_nil, List.nil_append] at alone

theorem parts_mark (whole : IsWhole isMark before) (marked : isMark token = true) (rest : List Token) :
    partsAt isMark 0 [] (before ++ token :: rest) =
      (before, (token, (partsAt isMark 0 [] rest).1) :: (partsAt isMark 0 [] rest).2) := by
  rw [whole, List.nil_append, partsAt, if_pos ⟨rfl, marked⟩]

theorem parts_joined {first : List Token} {others : List (List Token)} (marked : isMark token = true)
    (whole : ∀ part ∈ first :: others, IsWhole isMark part) :
    partsAt isMark 0 [] (first ++ others.flatMap (token :: ·)) = (first, others.map fun part => (token, part)) := by
  induction others generalizing first with
  | nil =>
      rw [List.flatMap_nil, List.append_nil]
      exact (whole first (List.mem_singleton_self first)).parts
  | cons next rest ih =>
      rw [List.flatMap_cons, List.cons_append, (whole first (List.mem_cons_self ..)).parts_mark marked,
        ih fun part member => whole part (List.mem_cons_of_mem _ member), List.map_cons]

end IsWhole

end Parts

end ViewEngine.Sql
