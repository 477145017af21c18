import ViewEngine.Proofs.Concurrency.Sessions

/-!
A flush through an executor is a session that nothing comes between. The executor reads the texts of
statements back; what it reads is left open but for the texts that are planned.
-/

namespace ViewEngine

open Sql

structure Prepared where
  db : Database
  statements : List Statement

def Executor.relational (c : Collation) (dialect : Dialect) (read : String → Option Statement) :
    Executor Prepared where
  dialect := dialect
  query _ state := (.error refusal, state)
  prepare text state :=
    match read text with
    | some s => (.ok state.statements.length, { state with statements := state.statements ++ [s] })
    | none => (.error refusal, state)
  execute number parameters state :=
    match state.statements[number]? with
    | none => (.error refusal, state)
    | some s =>
      match s.execute? c parameters state.db with
      | some (db, affected) => (.ok (reported affected), { state with db })
      | none => (.error refusal, state)
  release _ state := state

namespace Executor

variable {c : Collation} {dialect : Dialect} {read : String → Option Statement}

theorem relational_executeBatch {s : PlannedStatement} {number : Nat} {state : Prepared}
    (prepared : state.statements[number]? = some s.statement) (batch : List (List BoundParameter)) :
    (relational c dialect read).executeBatch s number batch state =
      ((Execution.runAll c (batch.map s.execution) state.db).1,
        { state with db := (Execution.runAll c (batch.map s.execution) state.db).2 }) := by
  induction batch generalizing state with
  | nil => rfl
  | cons parameters rest ih =>
      have executed : (relational c dialect read).execute number parameters state =
          match s.statement.execute? c parameters state.db with
          | some (db, affected) => (.ok (reported affected), { state with db })
          | none => (.error refusal, state) := by
        simp only [relational, prepared]
      rw [List.map_cons, executeBatch, executed, Execution.runAll]
      cases result : s.statement.execute? c parameters state.db with
      | none => rw [Execution.outcome_of_refused (x := s.execution parameters) result]
      | some done =>
          obtain ⟨db, affected⟩ := done
          have outcome := Execution.outcome_of_execute? (x := s.execution parameters) result
          by_cases stale : affected = 0 ∧ s.requiresMatch = true
          · rw [outcome, if_pos (show _ ∧ (s.execution parameters).requiresMatch = true from stale)]
            simp only [reported_eq_zero, if_pos stale]
            rfl
          · rw [outcome, if_neg (show ¬ (_ ∧ (s.execution parameters).requiresMatch = true) from stale)]
            simp only [reported_eq_zero, if_neg stale, @ih ⟨db, state.statements⟩ prepared]
            rcases Execution.runAll c (rest.map s.execution) db with ⟨_ | _, _⟩ <;> rfl

theorem runAll_append (first second : List Execution) (db : Database) :
    Execution.runAll c (first ++ second) db =
      match Execution.runAll c first db with
      | (.ok affected, db) =>
        match Execution.runAll c second db with
        | (.ok more, db) => (.ok (affected + more), db)
        | failed => failed
      | failed => failed := by
  induction first generalizing db with
  | nil =>
      rcases rest : Execution.runAll c second db with ⟨_ | _, _⟩ <;> simp [Execution.runAll, rest]
  | cons x rest ih =>
      rw [List.cons_append, Execution.runAll, Execution.runAll]
      rcases x.outcome c db with ⟨_ | affected, db⟩
      · rfl
      · simp only [ih]
        rcases Execution.runAll c rest db with ⟨_ | more, db⟩
        · rfl
        · simp only
          rcases Execution.runAll c second db with ⟨_ | last, db⟩
          · rfl
          · simp only [UInt64.add_assoc]

theorem relational_runStatements {statements : List PlannedStatement}
    (reads : ∀ s ∈ statements, read (s.statement.text dialect) = some s.statement) (state : Prepared) :
    ∃ prepared, (relational c dialect read).runStatements dialect statements state =
      ((Execution.runAll c (statements.flatMap (·.executions)) state.db).1,
        ⟨(Execution.runAll c (statements.flatMap (·.executions)) state.db).2, prepared⟩) := by
  induction statements generalizing state with
  | nil => exact ⟨state.statements, rfl⟩
  | cons s rest ih =>
      have ran : (relational c dialect read).runStatement dialect s state =
          ((Execution.runAll c s.executions state.db).1,
            ⟨(Execution.runAll c s.executions state.db).2, state.statements ++ [s.statement]⟩) := by
        have prepared : (relational c dialect read).prepare (s.statement.text dialect) state =
            (.ok state.statements.length, ⟨state.db, state.statements ++ [s.statement]⟩) := by
          simp only [relational, reads s (List.mem_cons_self ..)]
        simp only [runStatement, prepared]
        rw [relational_executeBatch List.getElem?_concat_length]
        rfl
      rw [List.flatMap_cons, runStatements, runAll_append, ran]
      rcases Execution.runAll c s.executions state.db with ⟨_ | affected, db⟩
      · exact ⟨_, rfl⟩
      · obtain ⟨prepared, remaining⟩ := ih (fun other member => reads other (List.mem_cons_of_mem _ member))
          ⟨db, state.statements ++ [s.statement]⟩
        refine ⟨prepared, ?_⟩
        simp only [remaining]
        generalize Execution.runAll c (rest.flatMap (·.executions)) db = last
        rcases last with ⟨_ | _, _⟩ <;> rfl

end Executor

namespace Sessions

variable {ι : Type} [DecidableEq ι] {c : Collation} {i : ι}

theorem run_replicate_of_stopped {s : Sessions ι} {error : ViewError}
    (stopped : (s.session i).stopped = some error) (steps : Nat) : s.run c (List.replicate steps i) = s := by
  induction steps with
  | zero => rfl
  | succ steps ih =>
      rw [List.replicate_succ, run, List.foldl_cons, step_of_stopped stopped]
      exact ih

theorem run_alone {s : Sessions ι} (running : (s.session i).stopped = none) :
    (s.run c (List.replicate (s.session i).pending.length i)).db =
        (Execution.runAll c (s.session i).pending s.db).2 ∧
      ((s.run c (List.replicate (s.session i).pending.length i)).session i).stopped =
        match (Execution.runAll c (s.session i).pending s.db).1 with
        | .error e => some e
        | .ok _ => none := by
  generalize pending : (s.session i).pending = executions
  induction executions generalizing s with
  | nil => exact ⟨rfl, running⟩
  | cons x rest ih =>
      have first : s.run c (List.replicate (x :: rest).length i) =
          (s.step c i).run c (List.replicate rest.length i) := rfl
      rw [first, Execution.runAll]
      rcases outcome : x.outcome c s.db with ⟨error | affected, db⟩
      · rw [step_of_error running pending outcome]
        have stopped : (Sessions.session ⟨db, Function.update s.session i
            { s.session i with stopped := some error }⟩ i).stopped = some error := by
          simp only [Function.update_self]
        rw [run_replicate_of_stopped stopped]
        exact ⟨rfl, stopped⟩
      · have next := ih (s := ⟨db, Function.update s.session i ⟨(s.session i).passed ++ [x], rest, none⟩⟩)
          (by simp only [Function.update_self]) (by simp only [Function.update_self])
        rw [step_of_ok running pending outcome, next.1, next.2]
        simp only
        generalize Execution.runAll c rest db = last
        rcases last with ⟨_ | _, _⟩ <;> exact ⟨rfl, rfl⟩

/-- A session carries a plan out: it executes the statements in turn, is done once it has been scheduled for
each of them, and with no other one between comes to what a flush comes to. -/
structure CarriesOut (c : Collation) (db : Database) (schedule : List ι) (i : ι) (plan : WritePlan) (s : Sessions ι) :
    Prop where
  inTurn : (s.session i).passed ++ (s.session i).pending = plan.executions
  done : plan.executions.length ≤ schedule.count i → (s.session i).IsDone
  flushed : schedule = List.replicate plan.executions.length i → ∀ dialect read,
    (∀ p ∈ plan.statements, read (p.statement.text dialect) = some p.statement) → ∀ statements, ∃ left,
      match (Executor.relational c dialect read).runStatements dialect plan.statements ⟨db, statements⟩ with
      | (.ok _, after) => after = ⟨s.db, left⟩ ∧ (s.session i).stopped = none
      | (.error error, after) => after = ⟨s.db, left⟩ ∧ (s.session i).stopped = some error

theorem carriesOut_run {db : Database} (executions : ι → List Execution) {plan : WritePlan}
    (same : executions i = plan.executions) (schedule : List ι) :
    ((start db executions).run c schedule).CarriesOut c db schedule i plan where
  inTurn := (run_passed_pending schedule).trans same
  done often := run_isDone (show (executions i).length ≤ _ from same ▸ often)
  flushed alone dialect read reads statements := by
    obtain ⟨left, ran⟩ := Executor.relational_runStatements (c := c) reads ⟨db, statements⟩
    have apart := run_alone (c := c) (s := start db executions) (i := i) rfl
    simp only [start, same] at apart
    refine ⟨left, ?_⟩
    rw [alone, ran, start, apart.1, apart.2, ← WritePlan.executions]
    rcases Execution.runAll c plan.executions db with ⟨_ | _, _⟩ <;> exact ⟨rfl, rfl⟩

end Sessions

end ViewEngine
