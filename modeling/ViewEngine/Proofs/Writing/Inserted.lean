import ViewEngine.Proofs.Except
import ViewEngine.Proofs.Schema.Entities
import ViewEngine.View.Planning

namespace ViewEngine

open Sql

namespace Planning

variable {v : CompiledView} {strict : Bool} {context : Context} {row : Nat} {data : Row}
  {writes : List Write} {given : List (Attribute × Value)} {e : Entity}

def storedValues (e : Entity) (now : Timestamp) (given : List (Attribute × Value)) : List (Attribute × Value) :=
  given ++ (e.discriminator.toList.filter fun d => !given.any (·.1.id == d.subject.id)).map
    (fun d => (d.subject, d.value)) ++ e.version.toList.map fun version => (version.opening, .timestamp now)

def insertStatement (table : String) (columns : List Attribute) : Statement :=
  { Statement.insertInto table with
    insertColumns := columns.map (·.columnName)
    insertValues := columns.map placeholder }

theorem foldl_insertValue_eq (values : List (Attribute × Value)) (s : Statement) :
    values.foldl (fun s (a, _) => s.insertValue a.columnName (placeholder a)) s =
      { s with
        insertColumns := s.insertColumns ++ (values.map Prod.fst).map (·.columnName)
        insertValues := s.insertValues ++ (values.map Prod.fst).map placeholder } := by
  induction values generalizing s with
  | nil =>
      cases s
      simp only [List.foldl_nil, List.map_nil, List.append_nil]
  | cons value rest ih =>
      rw [List.foldl_cons, ih]
      simp only [Statement.insertValue, Statement.addInsertColumn, List.append_assoc, List.singleton_append,
        List.map_cons]

def insertWrite (e : Entity) (row : Nat) (values : List (Attribute × Value)) : Write where
  path := ""
  statement := insertStatement e.table (values.map Prod.fst)
  parameters := values.map fun (a, value) => valueParameter a value
  batch := some ⟨"", .insert, columnNames (values.map Prod.fst)⟩
  reopens := e.version.map fun version => ⟨row, "", version.opening.property⟩

inductive PlansInsert (v : CompiledView) (strict : Bool) (context : Context) (row : Nat) (data : Row) :
    List Write → Prop
  | nothing {given : List (Attribute × Value)}
      (found : insertedValues v strict (v.rootOf data) data = .ok given)
      (empty : storedValues (v.rootOf data) context.writeTime given = []) :
      PlansInsert v strict context row data []
  | stored {given : List (Attribute × Value)}
      (found : insertedValues v strict (v.rootOf data) data = .ok given)
      (some : storedValues (v.rootOf data) context.writeTime given ≠ []) : PlansInsert v strict context row data
        [insertWrite (v.rootOf data) row (storedValues (v.rootOf data) context.writeTime given)]

theorem insertWrites_plans (planned : insertWrites v strict context row data = .ok writes) :
    PlansInsert v strict context row data writes := by
  obtain ⟨given, found, planned⟩ := bind_eq_ok.mp planned
  dsimp only at planned
  split at planned
  next empty =>
    cases planned
    exact .nothing found (List.isEmpty_iff.mp empty)
  next some =>
    cases planned
    rw [foldl_insertValue_eq]
    exact .stored found (fun empty => some (List.isEmpty_iff.mpr empty))

theorem insertedValues_columns {fields : Row} (found : insertedValues v strict e fields = .ok given) :
    ∀ value ∈ given, value.1.column.isSome = true := by
  induction fields generalizing given with
  | nil =>
      cases found
      rintro _ ⟨⟩
  | cons field rest ih =>
      obtain ⟨property, value⟩ := field
      unfold insertedValues at found
      split at found
      next => contradiction
      next same =>
        cases same
        exact ih found
      next same =>
        cases same
        exact ih found
      next same =>
        cases same
        split at found
        · exact ih found
        · split at found
          · obtain ⟨-, -, found⟩ := bind_eq_ok.mp found
            exact ih found
          · obtain ⟨values, below, found⟩ := bind_eq_ok.mp found
            dsimp only at found
            split at found
            next stored =>
              cases found
              simp only [Bool.and_eq_true] at stored
              exact List.forall_mem_cons.mpr ⟨stored.1.1, ih below⟩
            next =>
              cases found
              exact ih below

theorem storedValues_columns (marks : e.HasMarks) (now : Timestamp)
    (columns : ∀ value ∈ given, value.1.column.isSome = true) :
    ∀ value ∈ storedValues e now given, value.1.column.isSome = true := by
  intro value member
  rcases List.mem_append.mp member with first | opening
  · rcases List.mem_append.mp first with isGiven | discriminator
    · exact columns value isGiven
    · obtain ⟨d, kept, rfl⟩ := List.mem_map.mp discriminator
      exact marks.discriminator d (Option.mem_toList.mp (List.mem_filter.mp kept).1)
  · obtain ⟨version, declared, rfl⟩ := List.mem_map.mp opening
    exact marks.opening version (Option.mem_toList.mp declared)

end Planning

end ViewEngine
