import ViewEngine.Proofs.Relational.Execution
import ViewEngine.View.Flush

/-!
Sessions that flush their plans into one database. Each executes its own statements in order and stops
at the first failure; between two executions of a session any others may come.
-/

namespace ViewEngine

open Sql

/-- A planned statement with one of its parameter sets. -/
structure Execution where
  path : String
  statement : Statement
  parameters : List BoundParameter
  requiresMatch : Bool

def PlannedStatement.execution (s : PlannedStatement) (parameters : List BoundParameter) : Execution :=
  ⟨s.path, s.statement, parameters, s.requiresMatch⟩

def PlannedStatement.executions (s : PlannedStatement) : List Execution :=
  s.batch.map s.execution

def WritePlan.executions (p : WritePlan) : List Execution :=
  p.statements.flatMap (·.executions)

/-- The text with which a database refuses a statement. -/
def refusal : String := "refused"

namespace Execution

/-- The error with which a flush stops where no row has the keys. -/
def stale (x : Execution) : ViewError :=
  .staleVersion x.path (BoundParameter.describeKeys x.parameters)

/-- What an execution comes to: the number of affected rows, or the error that ends the flush. -/
def outcome (c : Collation) (x : Execution) (db : Database) : Except ViewError UInt64 × Database :=
  match x.statement.execute? c x.parameters db with
  | none => (.error (.execution refusal), db)
  | some (db, affected) =>
    if affected = 0 ∧ x.requiresMatch then (.error x.stale, db) else (.ok (reported affected), db)

theorem outcome_of_execute? {c : Collation} {x : Execution} {db done : Database} {affected : Nat}
    (executed : x.statement.execute? c x.parameters db = some (done, affected)) :
    x.outcome c db =
      if affected = 0 ∧ x.requiresMatch then (.error x.stale, done) else (.ok (reported affected), done) := by
  simp only [outcome, executed]

theorem outcome_of_refused {c : Collation} {x : Execution} {db : Database}
    (refused : x.statement.execute? c x.parameters db = none) :
    x.outcome c db = (.error (.execution refusal), db) := by
  simp only [outcome, refused]

/-- The executions of a flush that nothing comes between. -/
def runAll (c : Collation) : List Execution → Database → Except ViewError UInt64 × Database
  | [], db => (.ok 0, db)
  | x :: rest, db =>
    match x.outcome c db with
    | (.error e, db) => (.error e, db)
    | (.ok affected, db) =>
      match runAll c rest db with
      | (.ok more, db) => (.ok (affected + more), db)
      | failed => failed

end Execution

/-- A flush under way: what it has executed, what is still to come, and why it has stopped. -/
structure Session where
  passed : List Execution := []
  pending : List Execution
  stopped : Option ViewError := none

namespace Session

def IsDone (session : Session) : Prop :=
  session.pending = [] ∨ session.stopped ≠ none

/-- How many executions may still come. -/
def left (session : Session) : Nat :=
  if session.stopped = none then session.pending.length else 0

theorem isDone_of_left {session : Session} (nothing : session.left = 0) : session.IsDone := by
  rw [left] at nothing
  split at nothing
  next => exact .inl (List.length_eq_zero_iff.mp nothing)
  next stopped => exact .inr stopped

end Session

/-- Sessions over one database. -/
structure Sessions (ι : Type) where
  db : Database
  session : ι → Session

namespace Sessions

variable {ι : Type} [DecidableEq ι]

def step (c : Collation) (i : ι) (s : Sessions ι) : Sessions ι :=
  match (s.session i).stopped, (s.session i).pending with
  | none, x :: rest =>
    match x.outcome c s.db with
    | (.error e, db) =>
      ⟨db, Function.update s.session i { s.session i with stopped := some e }⟩
    | (.ok _, db) =>
      ⟨db, Function.update s.session i ⟨(s.session i).passed ++ [x], rest, none⟩⟩
  | _, _ => s

/-- Steps of sessions in any order. -/
def run (c : Collation) (schedule : List ι) (s : Sessions ι) : Sessions ι :=
  schedule.foldl (fun s i => s.step c i) s

def start (db : Database) (executions : ι → List Execution) : Sessions ι :=
  ⟨db, fun i => { pending := executions i }⟩

variable {c : Collation} {s : Sessions ι} {i j : ι}

theorem step_of_error {x : Execution} {rest : List Execution} {error : ViewError} {db : Database}
    (running : (s.session i).stopped = none) (pending : (s.session i).pending = x :: rest)
    (outcome : x.outcome c s.db = (.error error, db)) :
    s.step c i = ⟨db, Function.update s.session i { s.session i with stopped := some error }⟩ := by
  simp only [step, running, pending, outcome]

theorem step_of_ok {x : Execution} {rest : List Execution} {affected : UInt64} {db : Database}
    (running : (s.session i).stopped = none) (pending : (s.session i).pending = x :: rest)
    (outcome : x.outcome c s.db = (.ok affected, db)) :
    s.step c i = ⟨db, Function.update s.session i ⟨(s.session i).passed ++ [x], rest, none⟩⟩ := by
  simp only [step, running, pending, outcome]

theorem step_of_done (pending : (s.session i).pending = []) : s.step c i = s := by
  cases stopped : (s.session i).stopped <;> simp only [step, stopped, pending]

theorem step_cases {x : Execution} {rest : List Execution} (running : (s.session i).stopped = none)
    (pending : (s.session i).pending = x :: rest) :
    (∃ error, (s.step c i).session i = { s.session i with stopped := some error }) ∨
      (s.step c i).session i = ⟨(s.session i).passed ++ [x], rest, none⟩ := by
  rcases outcome : x.outcome c s.db with ⟨error | affected, db⟩
  · rw [step_of_error running pending outcome]
    exact .inl ⟨error, Function.update_self ..⟩
  · rw [step_of_ok running pending outcome]
    exact .inr (Function.update_self ..)

theorem step_session_of_ne (different : j ≠ i) : (s.step c i).session j = s.session j := by
  unfold step
  split
  · split <;> exact Function.update_of_ne different _ _
  · rfl

theorem step_of_stopped {e : ViewError} (stopped : (s.session i).stopped = some e) : s.step c i = s := by
  simp only [step, stopped]

theorem step_session_of_stopped {e : ViewError} (stopped : (s.session j).stopped = some e) :
    (s.step c i).session j = s.session j := by
  by_cases same : j = i
  · subst same
    rw [step_of_stopped stopped]
  · exact step_session_of_ne same

theorem run_session_of_stopped {e : ViewError} (schedule : List ι)
    (stopped : (s.session j).stopped = some e) : (s.run c schedule).session j = s.session j := by
  induction schedule generalizing s with
  | nil => rfl
  | cons i rest ih =>
      have same := step_session_of_stopped (c := c) (i := i) stopped
      exact (ih (same ▸ stopped)).trans same

theorem step_passed_pending :
    ((s.step c i).session j).passed ++ ((s.step c i).session j).pending =
      (s.session j).passed ++ (s.session j).pending := by
  by_cases same : j = i
  · subst same
    unfold step
    split
    next x rest _ pending =>
      split <;> simp [pending]
    next => rfl
  · rw [step_session_of_ne same]

theorem run_passed_pending (schedule : List ι) :
    ((s.run c schedule).session j).passed ++ ((s.run c schedule).session j).pending =
      (s.session j).passed ++ (s.session j).pending := by
  induction schedule generalizing s with
  | nil => rfl
  | cons i rest ih => exact ih.trans step_passed_pending

theorem step_left : ((s.step c i).session i).left ≤ (s.session i).left - 1 := by
  cases stopped : (s.session i).stopped with
  | some error =>
      have nothing : (s.session i).left = 0 := by simp [Session.left, stopped]
      rw [step_of_stopped stopped, nothing]
  | none =>
      cases pending : (s.session i).pending with
      | nil =>
          have nothing : (s.session i).left = 0 := by simp [Session.left, pending]
          rw [step_of_done pending, nothing]
      | cons x rest =>
          have before : (s.session i).left = rest.length + 1 := by
            rw [Session.left, if_pos stopped, pending, List.length_cons]
          rcases step_cases (c := c) stopped pending with ⟨error, stops⟩ | passes
          · have nothing : ((s.step c i).session i).left = 0 := by rw [stops]; rfl
            omega
          · have after : ((s.step c i).session i).left = rest.length := by rw [passes]; rfl
            omega

theorem run_left (schedule : List ι) :
    ((s.run c schedule).session i).left ≤ (s.session i).left - schedule.count i := by
  induction schedule generalizing s with
  | nil => rfl
  | cons j rest ih =>
      refine (ih (s := s.step c j)).trans ?_
      by_cases same : j = i
      · subst same
        have shorter := step_left (c := c) (s := s) (i := j)
        rw [List.count_cons_self]
        omega
      · rw [step_session_of_ne (Ne.symm same), List.count_cons_of_ne same]

theorem run_isDone {schedule : List ι} (often : (s.session i).pending.length ≤ schedule.count i) :
    ((s.run c schedule).session i).IsDone := by
  refine Session.isDone_of_left ?_
  have left := run_left (c := c) (s := s) (i := i) schedule
  have most : (s.session i).left ≤ (s.session i).pending.length := by
    rw [Session.left]
    split <;> omega
  omega

theorem run_preserves {holds : Sessions ι → Prop} (preserved : ∀ s i, holds s → holds (s.step c i))
    (schedule : List ι) (initial : holds s) : holds (s.run c schedule) := by
  induction schedule generalizing s with
  | nil => exact initial
  | cons i rest ih => exact ih (preserved s i initial)

theorem run_append (first second : List ι) : s.run c (first ++ second) = (s.run c first).run c second :=
  List.foldl_append

end Sessions

end ViewEngine
