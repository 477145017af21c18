import ViewEngine.Sql.Expr
import ViewEngine.Value.ColumnType

namespace ViewEngine

def Value.literal : Value → Sql.Literal
  | .null => .null
  | .bool b => .boolean b
  | .int n => .integer n
  | .float x => .float x
  | .text s => .string s
  | .timestamp t => .string t.text
  | value => .string value.toText

def ColumnType.literal (type : ColumnType) (value : Value) : Sql.Expr :=
  .literal (type.coerce value).literal

end ViewEngine
