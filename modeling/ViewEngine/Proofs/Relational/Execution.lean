import ViewEngine.Proofs.Relational.Evaluation
import ViewEngine.View.Write

/-!
What a statement that changes rows does to a database. It is refused where it names a column that the
table does not have, assigns a column twice, or leaves a parameter without a value.
-/

namespace ViewEngine

namespace BoundParameter

/-- What is bound to a name. Of several parameters with one name the last is bound. -/
def valueOf : List BoundParameter → String → Value
  | [], _ => .null
  | p :: rest, name =>
    if rest.any (·.name == name) then valueOf rest name
    else if p.name = name then p.value
    else .null

theorem valueOf_of_mem {parameters : List BoundParameter} {p : BoundParameter}
    (distinct : (parameters.map (·.name)).Nodup) (bound : p ∈ parameters) :
    valueOf parameters p.name = p.value := by
  induction parameters with
  | nil => contradiction
  | cons first rest ih =>
      obtain ⟨absent, distinct⟩ := List.nodup_cons.mp distinct
      rcases List.mem_cons.mp bound with rfl | later
      · have alone : rest.any (·.name == p.name) = false := by
          simp only [List.any_eq_false, beq_iff_eq]
          intro other member same
          exact absent (List.mem_map.mpr ⟨other, member, same⟩)
        simp only [valueOf, alone, Bool.false_eq_true, if_false, if_true]
      · have found : rest.any (·.name == p.name) = true :=
          List.any_eq_true.mpr ⟨p, later, beq_self_eq_true _⟩
        simp only [valueOf, found, if_true, ih distinct later]

end BoundParameter

def Record.assign (values : List (String × Value)) (record : Record) : Record := fun column =>
  (values.lookup column).getD (record column)

theorem Record.assign_of_mem {values : List (String × Value)} {column : String} {value : Value}
    (distinct : (values.map Prod.fst).Nodup) (assigned : (column, value) ∈ values) (record : Record) :
    record.assign values column = value := by
  have found : values.lookup column = some value := by
    induction values with
    | nil => contradiction
    | cons first rest ih =>
        obtain ⟨absent, distinct⟩ := List.nodup_cons.mp distinct
        rcases List.mem_cons.mp assigned with rfl | later
        · exact List.lookup_cons_self ..
        · have different : column ≠ first.1 := by
            rintro rfl
            exact absent (List.mem_map.mpr ⟨_, later, rfl⟩)
          rw [List.lookup_cons, beq_false_of_ne different]
          exact ih distinct later
  simp only [assign, found, Option.getD_some]

theorem Record.assign_of_not_mem {values : List (String × Value)} {column : String}
    (absent : column ∉ values.map Prod.fst) (record : Record) :
    record.assign values column = record column := by
  have missing : values.lookup column = none := by
    rw [List.lookup_eq_none_iff]
    intro entry member
    simp only [bne_iff_ne, ne_eq]
    rintro rfl
    exact absent (List.mem_map.mpr ⟨entry, member, rfl⟩)
  simp only [assign, missing, Option.getD_none]

theorem Record.assign_singleton (column : String) (value : Value) (record : Record) :
    record.assign [(column, value)] = Function.update record column value := by
  funext other
  by_cases same : other = column
  · subst same
    simp [assign]
  · simp [assign, List.lookup_cons, beq_false_of_ne same, Function.update_of_ne same]

def Table.accepts (table : Table) (columns : List String) : Prop :=
  columns.Nodup ∧ ∀ column ∈ columns, column ∈ table.columns

instance (table : Table) (columns : List String) : Decidable (table.accepts columns) :=
  inferInstanceAs (Decidable (_ ∧ _))

namespace Frame

def ofRecord (parameters : List BoundParameter) (record : Record) : Frame :=
  { own := record, parameters := BoundParameter.valueOf parameters }

end Frame

def reported (affected : Nat) : UInt64 :=
  .ofNatClamp affected

@[simp]
theorem reported_eq_zero {affected : Nat} : reported affected = 0 ↔ affected = 0 := by
  rw [reported, ← UInt64.toNat_inj, UInt64.toNat_zero]
  by_cases fits : affected < UInt64.size
  · rw [UInt64.toNat_ofNatClamp_of_lt fits]
  · rw [UInt64.toNat_ofNatClamp_of_le (Nat.le_of_not_lt fits)]
    simp only [UInt64.size] at fits ⊢
    omega

namespace Sql

mutual

def Expr.isScoped (columns parameters : List String) : Expr → Bool
  | .column none name => columns.contains name
  | .parameter name => parameters.contains name
  | .literal _ => true
  | .binary _ left right => left.isScoped columns parameters && right.isScoped columns parameters
  | .negation operand | .castText operand | .nullTest operand _ | .parenthesis operand =>
    operand.isScoped columns parameters
  | .membership operand values _ =>
    operand.isScoped columns parameters && Expr.areScoped columns parameters values
  | .column (some _) _ | .function _ _ | .star _ | .wholeRow _ _ => false

def Expr.areScoped (columns parameters : List String) : List Expr → Bool
  | [] => true
  | expr :: rest => expr.isScoped columns parameters && Expr.areScoped columns parameters rest

end

def Condition.isScoped (columns parameters : List String) : Condition → Bool
  | .predicate expr => expr.isScoped columns parameters
  | .mark _ => true

namespace Statement

variable (c : Collation) (parameters : List BoundParameter)

def isConditionScoped (s : Statement) (columns : List String) : Bool :=
  s.conditions.all (·.isScoped columns (parameters.map (·.name)))

def admitsRecord (s : Statement) (record : Record) : Bool :=
  s.admits c (.ofRecord parameters record)

def updated (s : Statement) (record : Record) : Record :=
  record.assign (s.assignments.map fun (column, expr) =>
    (column, expr.eval c (.ofRecord parameters record)))

def update? (s : Statement) (table : Table) : Option (Table × Nat) :=
  if table.accepts (s.assignments.map Prod.fst) ∧ s.isConditionScoped parameters table.columns ∧
      s.assignments.all (·.2.isScoped table.columns (parameters.map (·.name))) then
    some ({ table with
      rows := table.rows.map fun record =>
        if s.admitsRecord c parameters record then s.updated c parameters record else record },
      table.rows.countP (s.admitsRecord c parameters))
  else none

def delete? (s : Statement) (table : Table) : Option (Table × Nat) :=
  if s.isConditionScoped parameters table.columns then
    some ({ table with rows := table.rows.filter (!s.admitsRecord c parameters ·) },
      table.rows.countP (s.admitsRecord c parameters))
  else none

def sourceTuples? (source : Statement) (db : Database) : Option (List (List Value)) :=
  match source.tables with
  | [⟨name, none⟩] =>
    if source.joins.isEmpty ∧ source.isConditionScoped parameters (db name).columns ∧
        source.selected.all (·.expr.isScoped (db name).columns (parameters.map (·.name))) then
      some (source.tuples c db (BoundParameter.valueOf parameters))
    else none
  | _ => none

def insertedTuples? (s : Statement) (db : Database) : Option (List (List Value)) :=
  match s.source with
  | some source => source.sourceTuples? c parameters db
  | none =>
    if s.insertValues.all (·.isScoped [] (parameters.map (·.name))) then
      some [s.insertValues.map (·.eval c (.ofRecord parameters Record.missing))]
    else none

def insert? (s : Statement) (db : Database) (table : Table) : Option (Table × Nat) :=
  match s.insertedTuples? c parameters db with
  | none => none
  | some tuples =>
    if table.accepts s.insertColumns ∧ ∀ tuple ∈ tuples, tuple.length = s.insertColumns.length then
      some ({ table with
        rows := table.rows ++ tuples.map fun tuple =>
          Record.missing.assign (s.insertColumns.zip tuple) },
        tuples.length)
    else none

/-- The database after a statement, and how many rows are affected. -/
def execute? (s : Statement) (db : Database) : Option (Database × Nat) :=
  match s.tables with
  | [⟨name, none⟩] =>
    let changed :=
      match s.kind with
      | .update => s.update? c parameters (db name)
      | .delete => s.delete? c parameters (db name)
      | .insert => s.insert? c parameters db (db name)
      | .select => none
    changed.map fun (table, affected) => (Function.update db name table, affected)
  | _ => none

variable {c parameters} {s : Statement} {db : Database} {name : String}

theorem tuples_single (tables : s.tables = [⟨name, none⟩]) (joins : s.joins = []) :
    s.tuples c db (BoundParameter.valueOf parameters) =
      ((db name).rows.filter (s.admitsRecord c parameters)).map fun record =>
        s.selected.map (·.expr.eval c (.ofRecord parameters record)) := by
  have rows : s.frames c db (BoundParameter.valueOf parameters) =
      ((db name).rows.map (Frame.ofRecord parameters)).filter (s.admits c) := by
    simp only [frames, joins, joined, List.foldl_nil, crossed, tables, List.foldl_cons,
      List.flatMap_singleton]
    rfl
  rw [tuples, rows, List.filter_map, List.map_map]
  rfl

theorem sourceTuples?_single (tables : s.tables = [⟨name, none⟩]) (joins : s.joins = [])
    (conditions : s.isConditionScoped parameters (db name).columns = true)
    (selected : s.selected.all
      (·.expr.isScoped (db name).columns (parameters.map (·.name))) = true) :
    s.sourceTuples? c parameters db =
      some (((db name).rows.filter (s.admitsRecord c parameters)).map fun record =>
        s.selected.map (·.expr.eval c (.ofRecord parameters record))) := by
  have complete : s.joins.isEmpty = true ∧ s.isConditionScoped parameters (db name).columns = true ∧
      s.selected.all (·.expr.isScoped (db name).columns (parameters.map (·.name))) = true :=
    ⟨by rw [joins, List.isEmpty_nil], conditions, selected⟩
  simp only [sourceTuples?, tables, if_pos complete, tuples_single tables joins]

theorem execute?_update (name : String) (kind : s.kind = .update) (tables : s.tables = [⟨name, none⟩])
    (accepted : (db name).accepts (s.assignments.map Prod.fst))
    (conditions : s.isConditionScoped parameters (db name).columns = true)
    (assigned : s.assignments.all
      (·.2.isScoped (db name).columns (parameters.map (·.name))) = true) :
    s.execute? c parameters db =
      some (Function.update db name { db name with
          rows := (db name).rows.map fun record =>
            if s.admitsRecord c parameters record then s.updated c parameters record else record },
        (db name).rows.countP (s.admitsRecord c parameters)) := by
  simp only [execute?, tables, kind, update?, accepted, conditions, assigned, and_self, if_true,
    Option.map_some]

theorem execute?_delete (name : String) (kind : s.kind = .delete) (tables : s.tables = [⟨name, none⟩])
    (conditions : s.isConditionScoped parameters (db name).columns = true) :
    s.execute? c parameters db =
      some (Function.update db name { db name with
          rows := (db name).rows.filter (!s.admitsRecord c parameters ·) },
        (db name).rows.countP (s.admitsRecord c parameters)) := by
  simp only [execute?, tables, kind, delete?, conditions, if_true, Option.map_some]

theorem execute?_insert (name : String) {tuples : List (List Value)} (kind : s.kind = .insert)
    (tables : s.tables = [⟨name, none⟩])
    (inserted : s.insertedTuples? c parameters db = some tuples)
    (accepted : (db name).accepts s.insertColumns)
    (lengths : ∀ tuple ∈ tuples, tuple.length = s.insertColumns.length) :
    s.execute? c parameters db =
      some (Function.update db name { db name with
          rows := (db name).rows ++ tuples.map fun tuple =>
            Record.missing.assign (s.insertColumns.zip tuple) },
        tuples.length) := by
  have complete : (db name).accepts s.insertColumns ∧
      ∀ tuple ∈ tuples, tuple.length = s.insertColumns.length := ⟨accepted, lengths⟩
  simp only [execute?, tables, kind, insert?, inserted, if_pos complete, Option.map_some]

end Statement

end Sql

end ViewEngine
