import ViewEngine.Proofs.Compilation.Joined
import ViewEngine.Proofs.Compilation.Scoping
import ViewEngine.Proofs.Writing.Alike

namespace ViewEngine

open Sql Planning

namespace Sql.Statement

def ownTables (s : Statement) : List String :=
  s.tables.map (·.table) ++ s.joins.map (·.table.table)

def namedTables (s : Statement) : List String :=
  s.ownTables ++ s.source.toList.flatMap ownTables

/-- A statement that names one table and no other. -/
def Names (s : Statement) (table : String) : Prop :=
  ∀ name, name ∈ s.namedTables ↔ name = table

theorem ownTables_of_single {s : Statement} {table : String} (tables : s.tables = [⟨table, none⟩])
    (joins : s.joins = []) : s.ownTables = [table] := by
  rw [ownTables, tables, joins]
  rfl

theorem names_of_ownTables {s : Statement} {table : String} (own : s.ownTables = [table])
    (source : ∀ other ∈ s.source, other.ownTables = [table]) : s.Names table := by
  intro name
  rw [namedTables, own]
  cases found : s.source with
  | none => simp
  | some other => simp [source other found]

end Sql.Statement

namespace Planning

variable {e : Entity} {context : Context} {row : Nat} {node : String} {data : Row} {columns : List Attribute}
  {keys : List (Attribute × Value)} {writes : List Write} {w : Write}

/-- The writes of a node go to the table of its entity, under the path of the node. -/
theorem StoresNode.names (stores : StoresNode context row node e data columns keys writes) (member : w ∈ writes) :
    w.path = Path.withoutPositions node ∧ w.statement.Names e.table := by
  cases stores with
  | update =>
      cases List.mem_singleton.mp member
      refine ⟨rfl, ?_⟩
      rw [updateWrite_statement]
      exact Statement.names_of_ownTables rfl fun _ found => by cases found
  | version =>
      rcases member with _ | ⟨_, _ | ⟨_, ⟨⟩⟩⟩
      · refine ⟨rfl, ?_⟩
        rw [closeWrite, closing_eq]
        exact Statement.names_of_ownTables rfl fun _ found => by cases found
      · refine ⟨rfl, ?_⟩
        rw [successorWrite, successor_eq]
        refine Statement.names_of_ownTables rfl fun other found => ?_
        cases found
        exact Statement.ownTables_of_single rfl rfl

end Planning

namespace View

variable {v : View} {strict : Bool} {context : Context} {w : Write} {origin : WriteOrigin}

/-- What is written below the root is written for a node, to the table of the first entry at its path. -/
theorem Plans.names (plans : v.Plans strict context w origin) (below : w.path ≠ "") :
    ∃ entry, v.compiled.joinPlan.atPath? w.path = some entry ∧ w.statement.Names entry.entity.table := by
  cases origin with
  | node row node =>
      obtain ⟨r, e, data, columns, keys, writes, -, -, entity, -, -, stores, member⟩ := plans.stores
      obtain ⟨path, names⟩ := stores.names member
      rw [CompiledView.entityAt?, ← path, if_neg (by simpa using below)] at entity
      obtain ⟨entry, found, rfl⟩ := Option.map_eq_some_iff.mp entity
      exact ⟨entry, found, names⟩
  | added row =>
      obtain ⟨r, writes, -, -, planned, member⟩ := plans
      cases insertWrites_plans planned with
      | nothing => contradiction
      | stored =>
          cases List.mem_singleton.mp member
          exact absurd rfl below
  | removed row =>
      obtain ⟨data, -, planned⟩ := plans
      obtain ⟨keys, -, removes⟩ := removalWrite_removes planned
      cases removes with
      | close => exact absurd rfl below
      | delete => exact absurd rfl below

end View

/-- Below the root a planned statement names the table of the entity at its path alone, and the statements of the view
join there what the associations at the path name. So both name the same tables exactly if every association at the
path names the table of that entity, or leaves it to an entity of that table. -/
theorem writes_name_entity_table {registry : Registry} {compileSettings settings : ViewSettings} {dialect : Dialect}
    {pointInTime : Option Timestamp} {page : Page} {t : FilterTree} {v : View} {context : Context} {plan : WritePlan}
    (compiled : compile registry compileSettings dialect pointInTime page t = .ok v.compiled)
    (planned : (v.plan settings context).2 = .ok plan) {s : PlannedStatement} (member : s ∈ plan.statements)
    (below : s.path ≠ "") :
    ∃ entry, v.compiled.joinPlan.atPath? s.path = some entry ∧ registry.targetOf entry.subject = .ok entry.entity ∧
      s.statement.Names entry.entity.table ∧
      (∀ name, name ∈ v.compiled.readTables s.path ↔
        ∃ j ∈ v.compiled.joinPlan.entries, j.path = s.path ∧ Compile.joinedTable j.subject j.entity = name) ∧
      ((∀ name, name ∈ v.compiled.readTables s.path ↔ name ∈ s.statement.namedTables) ↔
        ∀ j ∈ v.compiled.joinPlan.entries, j.path = s.path →
          Compile.joinedTable j.subject j.entity = entry.entity.table) := by
  obtain ⟨first, origin, plans, statement, path, -⟩ := View.plan_stands planned member
  obtain ⟨entry, found, names⟩ := plans.names (path ▸ below)
  have found : v.compiled.joinPlan.atPath? s.path = some entry := by
    rw [View.plan_view, ← path] at found
    exact found
  rw [← statement] at names
  have isEntry := List.mem_of_find?_eq_some found
  have atPath : entry.path = s.path := by simpa using List.find?_some found
  refine ⟨entry, found, ((compile_adds compiled).resolved.entries entry isEntry).target, names,
    fun name => mem_readTables compiled, ?_⟩
  constructor
  · intro agree j inside same
    exact (names _).mp ((agree _).mp ((mem_readTables compiled).mpr ⟨j, inside, same, rfl⟩))
  · intro each name
    rw [names, mem_readTables compiled]
    constructor
    · rintro ⟨j, inside, same, rfl⟩
      exact each j inside same
    · rintro rfl
      exact ⟨entry, isEntry, atPath, each entry isEntry atPath⟩

namespace Outline

open Sample (context)

/-- Persons read their offices from a selection of these, which is not the table that offices are stored in. -/
def persons : Outline where
  definitions := [
    entity "Person" "person" [column "id" "id" .bigInt true, column "seat" "office_id" .bigInt false,
      association "office" "Office" "open_office" "office_id" "id" false],
    entity "Office" "office" [column "id" "id" .bigInt true, column "name" "name" .varchar false]]
  roots := ["Person"]
  chains := [asks "Person" ["office", "name"]]

def moved (v : CompiledView) : View :=
  (View.ofRows v [[("id", .int 1), ("office", .row [("id", .int 2), ("name", .text "a")]), ("rootKey", .int 1),
    ("seat", .int 2)]]).edited [⟨.text "x", 0, "office.name"⟩]

set_option maxRecDepth 100000 in
/-- The new name of the office is written to a table that the view does not read. -/
theorem office_is_written_elsewhere : ∃ registry t v plan s, persons.compiled? = some (registry, t, v) ∧
    compile registry {} .sqlite none {} t = .ok v ∧ ((moved v).plan {} context).2 = .ok plan ∧ s ∈ plan.statements ∧
    s.path = "office" ∧ v.readTables "office" = ["open_office"] ∧ s.statement.Names "office" := by
  have checked : (persons.compiled?.map fun c =>
      ((moved c.2.2).plan {} context).2.toOption.any (·.statements.map (·.path) == ["office"]) &&
      c.2.2.readTables "office" == ["open_office"] &&
      (c.2.2.joinPlan.atPath? "office").map (·.entity.table) == some "office") = some true := by
    decide +kernel
  obtain ⟨⟨registry, t, v⟩, found, checked⟩ := Option.map_eq_some_iff.mp checked
  simp only [Bool.and_eq_true, Option.any_eq_true, beq_iff_eq, Option.map_eq_some_iff] at checked
  obtain ⟨⟨⟨plan, succeeded, paths⟩, read⟩, entry, first, stored⟩ := checked
  obtain ⟨s, single, path⟩ := List.map_eq_singleton_iff.mp paths
  have member : s ∈ plan.statements := single ▸ List.mem_singleton_self s
  have planned := eq_ok_of_toOption succeeded
  obtain ⟨-, -, compiled⟩ := compiled_eq found
  have same : (moved v).compiled = v := View.edited_compiled _
  obtain ⟨other, there, -, names, -, -⟩ := writes_name_entity_table (same.symm ▸ compiled) planned member
    (by rw [path]; decide)
  rw [same, path] at there
  cases there.symm.trans first
  exact ⟨registry, t, v, plan, s, found, compiled, planned, member, path, read, stored ▸ names⟩

end Outline

end ViewEngine
