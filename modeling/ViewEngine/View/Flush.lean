import ViewEngine.View.Planning

/-!
Carrying out a plan on a database. A statement is prepared, executed for each parameter set of its
batch, and released whatever the outcome. The first failure ends the flush; what was executed before
stays executed.
-/

namespace ViewEngine

/-- A database as it is used here: each call may fail with a text, and changes the state of the
database. A prepared statement is known by a number until it is released. -/
structure Executor (σ : Type) where
  dialect : Sql.Dialect
  query : String → σ → Except String (List Row) × σ
  prepare : String → σ → Except String Nat × σ
  /-- The number of rows that are affected, as a machine word. -/
  execute : Nat → List BoundParameter → σ → Except String UInt64 × σ
  release : Nat → σ → σ

namespace Executor

variable {σ : Type}

/-- Executes a prepared statement for each parameter set, and counts the affected rows. The count is a
machine word, and starts from zero again where it would not fit. -/
def executeBatch (x : Executor σ) (s : PlannedStatement) (prepared : Nat) :
    List (List BoundParameter) → σ → Except ViewError UInt64 × σ
  | [], state => (.ok 0, state)
  | parameters :: rest, state =>
    match x.execute prepared parameters state with
    | (.error cause, state) => (.error (.execution cause), state)
    | (.ok affected, state) =>
      if affected = 0 ∧ s.requiresMatch then
        (.error (.staleVersion s.path (BoundParameter.describeKeys parameters)), state)
      else
        match x.executeBatch s prepared rest state with
        | (.ok more, state) => (.ok (affected + more), state)
        | failed => failed

def runStatement (x : Executor σ) (dialect : Sql.Dialect) (s : PlannedStatement) (state : σ) :
    Except ViewError UInt64 × σ :=
  match x.prepare (s.statement.text dialect) state with
  | (.error cause, state) => (.error (.execution cause), state)
  | (.ok prepared, state) =>
    let (outcome, state) := x.executeBatch s prepared s.batch state
    (outcome, x.release prepared state)

def runStatements (x : Executor σ) (dialect : Sql.Dialect) :
    List PlannedStatement → σ → Except ViewError UInt64 × σ
  | [], state => (.ok 0, state)
  | s :: rest, state =>
    match x.runStatement dialect s state with
    | (.ok affected, state) =>
      match x.runStatements dialect rest state with
      | (.ok more, state) => (.ok (affected + more), state)
      | failed => failed
    | failed => failed

/-- Stores the changes of a view, and counts the affected rows. The view is settled only if all
statements succeed. -/
def flush (x : Executor σ) (settings : ViewSettings) (c : Context) (v : View) (state : σ) :
    Except ViewError UInt64 × View × σ :=
  match v.plan settings c with
  | (v, .error e) => (.error e, v, state)
  | (v, .ok plan) =>
    match x.runStatements v.compiled.dialect plan.statements state with
    | (.ok affected, state) => (.ok affected, v.reconcile plan.now plan.reopened, state)
    | (.error e, state) => (.error e, v, state)

end Executor

end ViewEngine
