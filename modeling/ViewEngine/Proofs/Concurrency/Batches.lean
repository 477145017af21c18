import ViewEngine.Proofs.Concurrency.Invariant

namespace ViewEngine

open Sql Planning

section Harmless

variable {c : Collation} {e : Entity} {version : VersionColumns} {x : Execution}

theorem Execution.IsHarmless.of_table {table : String} (tables : x.statement.tables = [⟨table, none⟩])
    (other : table ≠ e.table) : x.IsHarmless c e version where
  notClose closes := by
    rw [Closes, tables] at closes
    simp [other] at closes
  notOpen opens := by
    rw [Opens, tables] at opens
    simp [other] at opens
  follows db done affected executed := by
    simp only [Statement.execute?, tables] at executed
    obtain ⟨⟨table, _⟩, -, same⟩ := Option.map_eq_some_iff.mp executed
    cases same
    rw [Function.update_of_ne other.symm]
    exact ⟨rfl, id, (List.map_id _).symm, fun record => .refl record⟩

/-- An update of columns that are no keys and do not date the row is harmless. -/
theorem Execution.IsHarmless.of_update (kind : x.statement.kind = .update)
    (tables : x.statement.tables = [⟨e.table, none⟩]) (optional : x.requiresMatch = false)
    (keys : ∀ a ∈ e.identityKeys, a.columnName ∉ x.statement.assignments.map Prod.fst)
    (opening : version.opening.columnName ∉ x.statement.assignments.map Prod.fst)
    (closing : version.closing.columnName ∉ x.statement.assignments.map Prod.fst) :
    x.IsHarmless c e version where
  notClose closes := by
    rw [Closes, optional] at closes
    exact nomatch closes.1
  notOpen opens := by
    rw [Opens, kind] at opens
    exact nomatch opens.1
  follows db done affected executed := by
    have kept {column : String} (absent : column ∉ x.statement.assignments.map Prod.fst) (record : Record) :
        x.statement.updated c x.parameters record column = record column := by
      refine Record.assign_of_not_mem (fun assigned => absent ?_) record
      rwa [List.map_map] at assigned
    simp only [Statement.execute?, tables, kind, Statement.update?] at executed
    split at executed
    next =>
      cases executed
      rw [Function.update_self]
      refine ⟨rfl, _, rfl, fun record => ?_⟩
      split
      next =>
        refine ⟨fun a member => kept (keys a member) record, fun i dated => ⟨i, ?_, rfl, id⟩⟩
        rw [Record.interval?, kept opening, kept closing]
        exact dated
      next => exact .refl record
    next => contradiction

theorem Execution.IsClose.congr {y : Execution} {opening now : Timestamp}
    (close : x.IsClose e version opening now) (statement : y.statement = x.statement)
    (requiresMatch : y.requiresMatch = x.requiresMatch) (parameters : y.parameters = x.parameters) :
    y.IsClose e version opening now := by
  cases x
  cases y
  cases statement
  cases requiresMatch
  cases parameters
  exact ⟨close.statement, close.requiresMatch, close.bound, close.nowBound, close.nowValue,
    close.openingValue, close.ordered, close.stored⟩

end Harmless

def removalKey : BatchKey :=
  ⟨"", .close, []⟩

variable (c : Collation) (e : Entity) (version : VersionColumns) (columns : List String)

/-- Statements of which every execution ends a version, starts the next one, or is harmless. `ends` tells
whether rows are taken away from the table by ending their versions. -/
inductive PlannedStatements (ends : Prop) : List PlannedStatement → Prop where
  | nil : PlannedStatements ends []
  | version {s t : PlannedStatement} {closed started : List BoundParameter} {opening now : Timestamp}
    {rest : List PlannedStatement} : s.batchKey = none → t.batchKey = none → s.batch = [closed] →
    t.batch = [started] → (s.execution closed).IsClose e version opening now →
    (t.execution started).IsSuccessor c e version columns (s.execution closed) now →
    PlannedStatements ends rest → PlannedStatements ends (s :: t :: rest)
  | removal {s : PlannedStatement} {rest : List PlannedStatement} : ends → s.batchKey = some removalKey →
    s.statement = closeStatement e.table version.closing.columnName e.storageKeys →
    s.requiresMatch = true →
    (∀ parameters ∈ s.batch, ∃ opening now, (s.execution parameters).IsClose e version opening now) →
    PlannedStatements ends rest → PlannedStatements ends (s :: rest)
  | harmless {s : PlannedStatement} {rest : List PlannedStatement} : (s.batchKey = some removalKey → ¬ ends) →
    (∀ parameters, (s.execution parameters).IsHarmless c e version) →
    PlannedStatements ends rest → PlannedStatements ends (s :: rest)

variable {c e version columns} {ends : Prop} {statements : List PlannedStatement}

namespace PlannedStatements

theorem append {more : List PlannedStatement}
    (planned : PlannedStatements c e version columns ends statements)
    (further : PlannedStatements c e version columns ends more) :
    PlannedStatements c e version columns ends (statements ++ more) := by
  induction planned with
  | nil => exact further
  | version first second closed started close successor _ ih =>
      exact .version first second closed started close successor ih
  | removal taken key statement requiresMatch closes _ ih =>
      exact .removal taken key statement requiresMatch closes ih
  | harmless key harmless _ ih => exact .harmless key harmless ih

theorem of_lists {lists : List (List Write)}
    (planned : ∀ writes ∈ lists, PlannedStatements c e version columns ends (writes.map .ofWrite)) :
    PlannedStatements c e version columns ends (lists.flatten.map .ofWrite) := by
  induction lists with
  | nil => exact .nil
  | cons writes rest ih =>
      rw [List.flatten_cons, List.map_append]
      exact (planned writes (List.mem_cons_self ..)).append
        (ih fun other member => planned other (List.mem_cons_of_mem _ member))

theorem of_each {writes : List Write}
    (planned : ∀ w ∈ writes, PlannedStatements c e version columns ends [.ofWrite w]) :
    PlannedStatements c e version columns ends (writes.map .ofWrite) := by
  induction writes with
  | nil => exact .nil
  | cons w rest ih =>
      exact (planned w (List.mem_cons_self ..)).append
        (ih fun other member => planned other (List.mem_cons_of_mem _ member))

theorem executions (planned : PlannedStatements c e version columns ends statements) :
    PlannedExecutions c e version columns (statements.flatMap (·.executions)) := by
  induction planned with
  | nil => exact .nil
  | version _ _ closed started close successor _ ih =>
      simp only [List.flatMap_cons, PlannedStatement.executions, closed, started]
      exact .version close successor ih
  | @removal s rest _ _ _ _ closes _ ih =>
      rw [List.flatMap_cons, PlannedStatement.executions]
      generalize s.batch = batch at closes
      induction batch with
      | nil => exact ih
      | cons parameters more ih =>
          obtain ⟨opening, now, close⟩ := closes parameters (List.mem_cons_self ..)
          exact .removal close (ih fun other member => closes other (List.mem_cons_of_mem _ member))
  | @harmless s rest _ harmless _ ih =>
      rw [List.flatMap_cons, PlannedStatement.executions]
      induction s.batch with
      | nil => exact ih
      | cons parameters more ih => exact .harmless (harmless parameters) ih

theorem add_of_none {w : Write} (alone : w.batch = none) (statements : List PlannedStatement) :
    PlannedStatement.add w statements = statements ++ [.ofWrite w] := by
  induction statements with
  | nil => rfl
  | cons s rest ih => simp [PlannedStatement.add, alone, ih]

theorem add_removal {w : Write} {opening now : Timestamp} (taken : ends) (key : w.batch = some removalKey)
    (close : ((PlannedStatement.ofWrite w).execution w.parameters).IsClose e version opening now)
    (planned : PlannedStatements c e version columns ends statements) :
    PlannedStatements c e version columns ends (PlannedStatement.add w statements) := by
  induction planned with
  | nil =>
      refine .removal taken key close.statement close.requiresMatch ?_ .nil
      rintro parameters (_ | ⟨_, ⟨⟩⟩)
      exact ⟨opening, now, close⟩
  | version first second closed started other successor _ ih =>
      simp only [PlannedStatement.add, first, second, key]
      exact .version first second closed started other successor ih
  | @removal s rest _ sameKey statement requiresMatch closes further ih =>
      have shares : (w.batch.isSome && s.batchKey == w.batch) = true := by simp [key, sameKey]
      rw [PlannedStatement.add, if_pos shares]
      refine .removal taken sameKey statement requiresMatch (fun parameters member => ?_) further
      rcases List.mem_append.mp member with before | last
      · exact closes parameters before
      · rw [List.mem_singleton.mp last]
        exact ⟨opening, now, close.congr (statement.trans close.statement.symm)
          (requiresMatch.trans close.requiresMatch.symm) rfl⟩
  | @harmless s rest notRemoval harmless _ ih =>
      have apart : (w.batch.isSome && s.batchKey == w.batch) = false := by
        rw [Bool.and_eq_false_iff, beq_eq_false_iff_ne, key]
        exact .inr fun same => notRemoval same taken
      rw [PlannedStatement.add, apart]
      exact .harmless notRemoval harmless ih

theorem add_harmless {w : Write} (notRemoval : w.batch = some removalKey → ¬ ends)
    (harmless : ∀ parameters, ((PlannedStatement.ofWrite w).execution parameters).IsHarmless c e version)
    (planned : PlannedStatements c e version columns ends statements) :
    PlannedStatements c e version columns ends (PlannedStatement.add w statements) := by
  cases batch : w.batch with
  | none =>
      rw [add_of_none batch]
      exact planned.append (.harmless notRemoval harmless .nil)
  | some key =>
      induction planned with
      | nil => exact .harmless notRemoval harmless .nil
      | version first second closed started close successor _ ih =>
          simp only [PlannedStatement.add, first, second, batch]
          exact .version first second closed started close successor ih
      | @removal s rest taken sameKey statement requiresMatch closes _ ih =>
          have apart : (w.batch.isSome && s.batchKey == w.batch) = false := by
            rw [Bool.and_eq_false_iff, beq_eq_false_iff_ne, sameKey]
            exact .inr fun same => notRemoval same.symm taken
          rw [PlannedStatement.add, apart]
          exact .removal taken sameKey statement requiresMatch closes ih
      | @harmless s rest otherKey others further ih =>
          rw [PlannedStatement.add]
          split
          · exact .harmless otherKey others further
          · exact .harmless otherKey others ih

theorem ofWrites {writes : List Write}
    (planned : PlannedStatements c e version columns ends (writes.map .ofWrite)) :
    PlannedStatements c e version columns ends (PlannedStatement.ofWrites writes) := by
  have folded (before : List PlannedStatement)
      (plannedBefore : PlannedStatements c e version columns ends before) :
      PlannedStatements c e version columns ends
        (writes.foldl (fun statements w => PlannedStatement.add w statements) before) := by
    generalize collected : writes.map PlannedStatement.ofWrite = single at planned
    induction planned generalizing writes before with
    | nil =>
        rw [List.map_eq_nil_iff.mp collected]
        exact plannedBefore
    | version first second closed started close successor _ ih =>
        obtain ⟨w, others, rfl, rfl, remaining⟩ := List.map_eq_cons_iff.mp collected
        obtain ⟨w', rest, rfl, rfl, last⟩ := List.map_eq_cons_iff.mp remaining
        rw [List.foldl_cons, List.foldl_cons, add_of_none first, add_of_none second, List.append_assoc]
        exact ih _ (plannedBefore.append (.version first second closed started close successor .nil))
          last
    | removal taken key statement requiresMatch closes _ ih =>
        obtain ⟨w, rest, rfl, rfl, remaining⟩ := List.map_eq_cons_iff.mp collected
        obtain ⟨opening, now, close⟩ := closes w.parameters (List.mem_singleton_self _)
        rw [List.foldl_cons]
        exact ih _ (plannedBefore.add_removal taken key close) remaining
    | harmless notRemoval harmless _ ih =>
        obtain ⟨w, rest, rfl, rfl, remaining⟩ := List.map_eq_cons_iff.mp collected
        rw [List.foldl_cons]
        exact ih _ (plannedBefore.add_harmless notRemoval harmless) remaining
  exact folded [] .nil

end PlannedStatements

end ViewEngine
