import ViewEngine.Proofs.Outline
import ViewEngine.Proofs.Propagation.Planned
import ViewEngine.Proofs.Versions.WriteBack

/-!
Versions in a table with further columns, such as entities have that extend the one of the table. The next version
of a row takes over what is in the columns of the entity by which the row is edited. It has nothing in all others,
whatever was in them.
-/

namespace ViewEngine

open Sql Planning

namespace Entity

/-- The columns that an entity declares or inherits. -/
def declaredColumns (e : Entity) : List String :=
  e.scalars.map (·.columnName)

def editedColumns (e : Entity) (r : ViewRow) (node : String) : List String :=
  (e.scalars.filter fun a => decide (a.property ∈ r.changedAt node)).map (·.columnName)

end Entity

/-- What the next version of a row is like in all columns of its table but those of its interval and those that are
written: as before where the entity has the column, and empty elsewhere. -/
def Record.IsCarried (e : Entity) (version : VersionColumns) (written : List String) (old next : Record) : Prop :=
  ∀ column, column ≠ version.opening.columnName → column ∉ written →
    next column = if column ∈ e.declaredColumns then old column else .null

namespace Planning

variable {c : Collation} {e : Entity} {version : VersionColumns} {columns : List Attribute}
  {parameters : List BoundParameter} {record : Record} {column : String}

theorem succeeding_undeclared (versioned : e.IsVersioned version) (hasColumns : e.HasColumns)
    (written : AreWritten e columns) (undeclared : column ∉ e.declaredColumns) :
    succeeding c e version.opening.columnName columns parameters record column = .null := by
  refine (Record.assign_of_not_mem ?_ _).trans rfl
  rw [List.map_map]
  intro member
  have selected : column ∈ (successorAttributes e version columns).map (·.columnName) := by
    rw [← successorItems_columns hasColumns]
    exact member
  obtain ⟨a, inside, rfl⟩ := List.mem_map.mp selected
  exact undeclared (List.mem_map_of_mem (successorAttributes_scalars versioned hasColumns written a inside))

end Planning

namespace Record

variable {e : Entity} {version : VersionColumns} {now : Timestamp} {r : ViewRow} {node : String} {data : Row}
  {old next : Record} {written : List String}

theorem IsNextVersion.isCarried (isNext : Record.IsNextVersion e version now r node data old next)
    (undeclared : ∀ column, column ∉ e.declaredColumns → next column = .null) :
    Record.IsCarried e version (e.editedColumns r node) old next := by
  intro column notOpening unwritten
  split
  next declared =>
    obtain ⟨a, scalar, rfl⟩ := List.mem_map.mp declared
    refine isNext.carried a scalar (fun same => notOpening (same ▸ rfl)) fun edited => unwritten ?_
    exact List.mem_map_of_mem (List.mem_filter.mpr ⟨scalar, decide_eq_true edited⟩)
  next absent => exact undeclared column absent

theorem IsCarried.iff_whole (carried : Record.IsCarried e version written old next)
    (opening : version.opening ∈ e.scalars) (columns : written ⊆ e.declaredColumns) :
    (∀ column, column ≠ version.opening.columnName → column ∉ written → next column = old column) ↔
      ∀ column, column ∉ e.declaredColumns → old column = .null := by
  constructor
  · intro whole column undeclared
    have notOpening : column ≠ version.opening.columnName := by
      rintro rfl
      exact undeclared (List.mem_map_of_mem opening)
    have unwritten : column ∉ written := fun member => undeclared (columns member)
    rw [← whole column notOpening unwritten, carried column notOpening unwritten, if_neg undeclared]
  · intro empty column notOpening unwritten
    rw [carried column notOpening unwritten]
    split
    · rfl
    next undeclared => exact (empty column undeclared).symm

end Record

/-- Edits of a node end its version and start the next one, which has the columns of the node's entity from the one
before, and nothing in the further columns of the table. So the row is carried over whole exactly if there is nothing
in the columns that this entity, out of those that share the table, does not have. -/
theorem successors_carry_declared_columns {c : Collation} {e : Entity} {version : VersionColumns} {db : Database}
    {opening : Timestamp} {old : Record} (versioned : e.IsVersioned version) (hasColumns : e.HasColumns)
    (stored : OpenVersion c e version db opening old) {v : CompiledView} {context : Context} {r : ViewRow}
    {node : String} {data : Row} (strict : Bool) (row : Nat)
    (entity : v.entityAt? r.data (Path.withoutPositions node) = some e) (edits : r.EditsRecord e node data old)
    (slow : context.fastUpdate = false) (later : opening < context.writeTime) :
    ∃ close insert ended done next,
      nodeWrites v strict context row r node = .ok [close, insert] ∧
      close.statement.execute? c close.parameters db = some (ended, 1) ∧
      insert.statement.execute? c insert.parameters ended = some (done, 1) ∧
      WritesVersion c e version context.writeTime old (some next) db done ∧
      Record.IsNextVersion e version context.writeTime r node data old next ∧
      Record.IsCarried e version (e.editedColumns r node) old next ∧
      ((∀ column, column ≠ version.opening.columnName → column ∉ e.editedColumns r node →
          next column = old column) ↔ ∀ column, column ∉ e.declaredColumns → old column = .null) := by
  obtain ⟨columns, close, insert, ended, done, written, planned, closed, inserted, writes, isNext⟩ :=
    stored.edit versioned hasColumns strict row entity edits slow later
  have carried := isNext.isCarried fun column undeclared =>
    succeeding_undeclared versioned hasColumns written undeclared
  exact ⟨close, insert, ended, done, _, planned, closed, inserted, writes, isNext, carried,
    carried.iff_whole versioned.opening (List.map_subset _ List.filter_sublist.subset)⟩

namespace Archive

open Outline (column builtColumn entity kind declared_eq)

def outline : Outline where
  definitions := [
    { entity "Document" "document" [column "id" "id" .bigInt true, column "kind" "kind" .varchar false,
        column "title" "title" .varchar false, column "validFrom" "valid_from" .timestamp true,
        column "validTo" "valid_to" .timestamp false] with version := some ("validFrom", "validTo") },
    kind "Memo" "Document" "memo" [column "body" "body" .varchar false]]
  roots := ["Document"]

def versions : VersionColumns :=
  ⟨builtColumn "Document" "validFrom" "valid_from" .timestamp true,
    builtColumn "Document" "validTo" "valid_to" .timestamp false⟩

def document : Entity where
  name := "Document"
  table := "document"
  parent := none
  attributes := [builtColumn "Document" "id" "id" .bigInt true, builtColumn "Document" "kind" "kind" .varchar false,
    builtColumn "Document" "title" "title" .varchar false, versions.opening, versions.closing]
  discriminator := none
  version := some versions

theorem validYear : ValidDate 2023 1 1 := by
  decide

def memo : Record :=
  Record.missing.assign [("id", .int 1), ("kind", .text "memo"), ("title", .text "a"), ("body", .text "long"),
    ("valid_from", .timestamp (Price.newYear 2023 validYear)), ("valid_to", .null)]

def database : Database := fun table =>
  if table = "document" then ⟨["id", "kind", "title", "valid_from", "valid_to", "body"], [memo]⟩ else ⟨[], []⟩

def retitled : ViewRow where
  data := [("id", .int 1), ("kind", .text "memo"), ("rootKey", .int 1), ("title", .text "b"),
    ("validFrom", .timestamp (Price.newYear 2023 validYear))]
  changed := ["title"]

theorem isVersioned : document.IsVersioned versions where
  declared := rfl
  opening := by decide
  closing := by decide
  openingTemporal := rfl
  closingTemporal := rfl

theorem hasColumns : document.HasColumns where
  properties := by decide
  keys := by decide
  names := by decide +kernel

theorem memo_isOpen : OpenVersion .standard document versions database (Price.newYear 2023 validYear) memo where
  known := by decide +kernel
  versions := {
    dated := by
      rintro record (_ | ⟨_, ⟨⟩⟩)
      exact ⟨_, rfl, Interval.nonempty_open _⟩
    apart := List.pairwise_singleton .. }
  member := List.mem_singleton_self _
  typed := {
    coerced := by rintro a (_ | ⟨_, _ | ⟨_, _ | ⟨_, _ | ⟨_, _ | ⟨_, ⟨⟩⟩⟩⟩⟩⟩) <;> rfl
    keyed := by
      rintro a (_ | ⟨_, ⟨⟩⟩)
      exact ⟨rfl, rfl⟩ }
  isOpen := rfl

theorem edits : retitled.EditsRecord document "" retitled.data memo where
  standing := rfl
  keys := by rintro a (_ | ⟨_, _ | ⟨_, ⟨⟩⟩⟩) <;> rfl
  edited := by decide
  writable := by
    rintro property (_ | ⟨_, ⟨⟩⟩)
    exact ⟨builtColumn "Document" "title" "title" .varchar false, by decide, rfl, rfl⟩
  unedited := by
    rintro a (_ | ⟨_, _ | ⟨_, _ | ⟨_, _ | ⟨_, _ | ⟨_, ⟨⟩⟩⟩⟩⟩⟩) writable unchanged value held
    · exact absurd writable (by decide)
    · exact (Option.some.inj held).symm
    · exact absurd (by decide) unchanged
    · exact absurd writable (by decide)
    · exact absurd writable (by decide)

set_option maxRecDepth 100000 in
/-- A memo that is given another title as a document loses its text, which documents do not have. -/
theorem memo_loses_body : ∃ registry t compiled subtype close insert ended done next,
    Registry.ofDefinitions outline.definitions = .ok registry ∧
    (registry.get? "Memo" = some subtype ∧ subtype.table = "document" ∧ "body" ∈ subtype.declaredColumns) ∧
    outline.compiled? = some (registry, t, compiled) ∧
    nodeWrites compiled false Price.context 0 retitled "" = .ok [close, insert] ∧
    close.statement.execute? .standard close.parameters database = some (ended, 1) ∧
    insert.statement.execute? .standard insert.parameters ended = some (done, 1) ∧
    WritesVersion .standard document versions Price.context.writeTime memo (some next) database done ∧
    memo "body" = .text "long" ∧ next "body" = .null := by
  have checked : (outline.compiled?.map fun found =>
      ((found.1.get? "Memo").any fun subtype => subtype.table == "document" &&
        subtype.declaredColumns.contains "body") &&
      found.2.2.root == document && found.2.2.otherRoots.isEmpty) = some true := by
    decide +kernel
  obtain ⟨⟨registry, t, compiled⟩, found, checked⟩ := Option.map_eq_some_iff.mp checked
  simp only [Bool.and_eq_true, Option.any_eq_true, beq_iff_eq, List.contains_iff_mem, List.isEmpty_iff] at checked
  obtain ⟨⟨⟨subtype, registered, table, body⟩, isRoot⟩, single⟩ := checked
  have entity : compiled.entityAt? retitled.data (Path.withoutPositions "") = some document := by
    have root : compiled.rootOf retitled.data = document := by
      simp only [CompiledView.rootOf, CompiledView.roots, single, isRoot]
      rfl
    exact congrArg some root
  have slow : Price.context.fastUpdate = false := rfl
  obtain ⟨close, insert, ended, done, next, planned, closed, inserted, writes, -, carried, -⟩ :=
    successors_carry_declared_columns isVersioned hasColumns memo_isOpen false 0 entity edits slow (by decide)
  refine ⟨registry, t, compiled, subtype, close, insert, ended, done, next, declared_eq found rfl,
    ⟨registered, table, body⟩, found, planned, closed, inserted, writes, rfl, ?_⟩
  exact carried "body" (by decide) (by decide)

end Archive

end ViewEngine
