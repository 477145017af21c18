namespace ViewEngine

inductive FilterOperator where
  | isNull
  | isNotNull
  | equals
  | notEquals
  | greater
  | greaterOrEqual
  | less
  | lessOrEqual
  | inList
  | notInList
  | like
  | startsWith
  | endsWith
  | notLike
  | between
  | equalsOrNull
  | notEqualsOrNull
  | lessOrNull
  | greaterOrNull
deriving DecidableEq, Repr, Inhabited

namespace FilterOperator

def all : List FilterOperator :=
  [.isNull, .isNotNull, .equals, .notEquals, .greater, .greaterOrEqual, .less, .lessOrEqual, .inList,
    .notInList, .like, .startsWith, .endsWith, .notLike, .between, .equalsOrNull, .notEqualsOrNull,
    .lessOrNull, .greaterOrNull]

def name : FilterOperator → String
  | .isNull => "is_null"
  | .isNotNull => "is_not_null"
  | .equals => "equals"
  | .notEquals => "not_equals"
  | .greater => "greater"
  | .greaterOrEqual => "greater_or_equal"
  | .less => "less"
  | .lessOrEqual => "less_or_equal"
  | .inList => "in"
  | .notInList => "not_in"
  | .like => "like"
  | .startsWith => "starts_with"
  | .endsWith => "ends_with"
  | .notLike => "not_like"
  | .between => "between"
  | .equalsOrNull => "equals_or_null"
  | .notEqualsOrNull => "not_equals_or_null"
  | .lessOrNull => "less_or_null"
  | .greaterOrNull => "greater_or_null"

def title : FilterOperator → String
  | .isNull => "IsNull"
  | .isNotNull => "IsNotNull"
  | .equals => "Equals"
  | .notEquals => "NotEquals"
  | .greater => "Greater"
  | .greaterOrEqual => "GreaterOrEqual"
  | .less => "Less"
  | .lessOrEqual => "LessOrEqual"
  | .inList => "In"
  | .notInList => "NotIn"
  | .like => "Like"
  | .startsWith => "StartsWith"
  | .endsWith => "EndsWith"
  | .notLike => "NotLike"
  | .between => "Between"
  | .equalsOrNull => "EqualsOrNull"
  | .notEqualsOrNull => "NotEqualsOrNull"
  | .lessOrNull => "LessOrNull"
  | .greaterOrNull => "GreaterOrNull"

def ofName? (name : String) : Option FilterOperator :=
  all.find? (·.name == name)

def arity : FilterOperator → Nat
  | .isNull | .isNotNull => 0
  | .between => 2
  | _ => 1

def allowsNull : FilterOperator → Bool
  | .equalsOrNull | .notEqualsOrNull | .lessOrNull | .greaterOrNull => true
  | _ => false

def takesList : FilterOperator → Bool
  | .inList | .notInList => true
  | _ => false

end FilterOperator

inductive Aggregate where
  | count
  | sum
  | min
  | max
  | avg
deriving DecidableEq, Repr, Inhabited

namespace Aggregate

def all : List Aggregate :=
  [.count, .sum, .min, .max, .avg]

def name : Aggregate → String
  | .count => "count"
  | .sum => "sum"
  | .min => "min"
  | .max => "max"
  | .avg => "avg"

def title : Aggregate → String
  | .count => "Count"
  | .sum => "Sum"
  | .min => "Min"
  | .max => "Max"
  | .avg => "Avg"

def functionName : Aggregate → String
  | .count => "COUNT"
  | .sum => "SUM"
  | .min => "MIN"
  | .max => "MAX"
  | .avg => "AVG"

def ofName? (name : String) : Option Aggregate :=
  all.find? (·.name == name)

end Aggregate

end ViewEngine
