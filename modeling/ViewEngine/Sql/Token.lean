import ViewEngine.Number.Shortest
import ViewEngine.Sql.Dialect

/-!
The tokens of statements, and their text in a dialect. Blanks are tokens too, so the text of a
statement is the texts of its tokens, one after the other.
-/

namespace ViewEngine.Sql

inductive Keyword where
  | select
  | fromClause
  | whereClause
  | and
  | or
  | not
  | asAlias
  | onCondition
  | leftOuterJoin
  | innerJoin
  | groupBy
  | having
  | orderBy
  | ascending
  | descending
  | limit
  | offset
  | inList
  | like
  | isNull
  | isNotNull
  | distinct
  | cast
  | trueValue
  | falseValue
  | insert
  | into
  | values
  | update
  | setClause
  | delete
deriving DecidableEq, Repr

def Keyword.text : Keyword → String
  | .select => "SELECT"
  | .fromClause => "FROM"
  | .whereClause => "WHERE"
  | .and => "AND"
  | .or => "OR"
  | .not => "NOT"
  | .asAlias => "AS"
  | .onCondition => "ON"
  | .leftOuterJoin => "LEFT OUTER JOIN"
  | .innerJoin => "INNER JOIN"
  | .groupBy => "GROUP BY"
  | .having => "HAVING"
  | .orderBy => "ORDER BY"
  | .ascending => "ASC"
  | .descending => "DESC"
  | .limit => "LIMIT"
  | .offset => "OFFSET"
  | .inList => "IN"
  | .like => "LIKE"
  | .isNull => "IS NULL"
  | .isNotNull => "IS NOT NULL"
  | .distinct => "DISTINCT"
  | .cast => "CAST"
  | .trueValue => "TRUE"
  | .falseValue => "FALSE"
  | .insert => "INSERT"
  | .into => "INTO"
  | .values => "VALUES"
  | .update => "UPDATE"
  | .setClause => "SET"
  | .delete => "DELETE"

inductive Symbol where
  | comma
  | dot
  | star
  | opening
  | closing
  | equal
  | notEqual
  | less
  | greater
  | atMost
  | atLeast
  | concatenation
deriving DecidableEq, Repr

def Symbol.text (dialect : Dialect) : Symbol → String
  | .comma => ","
  | .dot => "."
  | .star => "*"
  | .opening => "("
  | .closing => ")"
  | .equal => "="
  | .notEqual => "<>"
  | .less => "<"
  | .greater => ">"
  | .atMost => "<="
  | .atLeast => ">="
  | .concatenation => dialect.concatenation

inductive Token where
  | keyword (word : Keyword)
  | symbol (mark : Symbol)
  | space
  | newline
  | indent (levels : Nat)
  | identifier (name : String)
  | tableAlias (table : Nat)
  | integer (value : Int64)
  | float (value : Double)
  | string (value : String)
  | boolean (value : Bool)
  | null
  | parameter (name : String)
  | textType
  | function (name : String)
  | wholeRow (table : Nat) (keyColumn : String)
  | pagination (offset limit : Option UInt64)
deriving DecidableEq

def tableAlias (table : Nat) : String :=
  "t" ++ toString table

def Token.text (dialect : Dialect) : Token → String
  | .keyword word => word.text
  | .symbol mark => mark.text dialect
  | .space => " "
  | .newline => "\n"
  | .indent levels => String.ofList (List.replicate (2 * levels) ' ')
  | .identifier name => dialect.identifier name
  | .tableAlias table => Sql.tableAlias table
  | .integer value => toString value.toInt
  | .float value => if value.isFinite then value.text else "NULL"
  | .string value => dialect.string value
  | .boolean value => dialect.boolean value
  | .null => "NULL"
  | .parameter name => dialect.parameter name
  | .textType => dialect.textType
  | .function name => Text.toUpper name
  | .wholeRow table keyColumn => dialect.wholeRow (Sql.tableAlias table) keyColumn
  | .pagination offset limit => dialect.pagination offset limit

def textOf (dialect : Dialect) : List Token → String
  | [] => ""
  | token :: rest => token.text dialect ++ textOf dialect rest

theorem textOf_append (dialect : Dialect) (before after : List Token) :
    textOf dialect (before ++ after) = textOf dialect before ++ textOf dialect after := by
  induction before with
  | nil => simp [textOf]
  | cons token rest induction => simp [textOf, induction, String.append_assoc]

def separated : List (List Token) → List Token
  | [] => []
  | [item] => item
  | item :: next :: rest => item ++ [.symbol .comma, .space] ++ separated (next :: rest)

end ViewEngine.Sql
