import ViewEngine.Proofs.Protocol.Calls
import ViewEngine.Proofs.Settling.Reopened

/-!
How a flush calls the database. Planned statements are used in turn, up to the first call that fails and the
first execution that finds no row where one has to be; what has been prepared is released in any case.
-/

namespace ViewEngine

open Sql Call Execution

namespace Call

/-- The calls by which executions are carried out, and what comes of them. -/
structure CarryOut (dialect : Dialect) (executions : List Execution) (calls : List Call)
    (outcome : Except ViewError UInt64) : Prop where
  bracketed : AreBracketed calls
  planned : (performed calls).map (fun p => (p.text, p.parameters)) <+:
    executions.map fun x => (x.statement.text dialect, x.parameters)
  completed : ∀ total, outcome = .ok total ↔ (performed calls).length = executions.length ∧
    (∀ text cause, .prepare text (.error cause) ∉ calls) ∧
    (∀ pair ∈ executions.zip ((performed calls).map (·.answer)), pair.1.stop? pair.2 = none) ∧
    total = ((performed calls).map fun p => count p.answer).sum
  exact : ∀ total, outcome = .ok total →
    total.toNat = ((performed calls).map fun p => (count p.answer).toNat).sum % 2 ^ 64
  stopped : ∀ position x p error, executions[position]? = some x → (performed calls)[position]? = some p →
    x.stop? p.answer = some error → outcome = .error error ∧ position + 1 = (performed calls).length ∧
      ∃ before number, calls = before ++ [.execute number p.parameters p.answer, .release number]
  refused : ∀ before text cause after, calls = before ++ .prepare text (.error cause) :: after →
    outcome = .error (.execution cause) ∧ after = []

/-- The calls of a run. The last one is that to prepare a statement that is refused, or to release one that
was executed. -/
structure OfRun (dialect : Dialect) (executions : List Execution) (calls : List Call) (refusal : Option String)
    (outcome : Except ViewError UInt64) : Prop where
  bracketed : AreBracketed calls
  planned : (performed calls).map (fun p => (p.text, p.parameters)) <+:
    executions.map fun x => (x.statement.text dialect, x.parameters)
  run : Run executions ((performed calls).map (·.answer)) refusal outcome
  refused : ∀ before text cause after, calls = before ++ .prepare text (.error cause) :: after →
    refusal = some cause ∧ after = []
  refuses : ∀ cause, refusal = some cause → ∃ text, .prepare text (.error cause) ∈ calls
  released : refusal = none → ∀ error, outcome = .error error → ∃ before number p,
    (performed calls).getLast? = some p ∧
      calls = before ++ [.execute number p.parameters p.answer, .release number]

variable {dialect : Dialect} {executions : List Execution} {calls : List Call} {refusal : Option String}
  {outcome : Except ViewError UInt64} {text : String} {number : Nat} {affected : UInt64} {s : PlannedStatement}
  {answered : List Answered} {error : ViewError}

theorem OfRun.carryOut (made : OfRun dialect executions calls refusal outcome) :
    CarryOut dialect executions calls outcome where
  bracketed := made.bracketed
  planned := made.planned
  completed total := by
    have refusals : refusal = none ↔ ∀ text cause, .prepare text (.error cause) ∉ calls := by
      constructor
      · intro none text cause member
        obtain ⟨before, after, split⟩ := List.append_of_mem member
        rw [none] at made
        exact absurd (made.refused before text cause after split).1 (by simp)
      · intro prepared
        by_contra some
        obtain ⟨cause, isCause⟩ := Option.ne_none_iff_exists'.mp some
        obtain ⟨text, member⟩ := made.refuses cause isCause
        exact prepared text cause member
    rw [made.run.completed_iff, refusals, List.length_map, List.map_map]
    rfl
  exact total completed := by
    obtain ⟨-, -, -, rfl⟩ := made.run.completed_iff.mp completed
    rw [toNat_sum_count, List.map_map]
    rfl
  stopped position x p error there performed stops := by
    have answered : ((Call.performed calls).map (·.answer))[position]? = some p.answer := by
      rw [List.getElem?_map, performed, Option.map_some]
    obtain ⟨outcome, last, accepted⟩ := made.run.stopped_last there answered stops
    rw [List.length_map] at last
    obtain ⟨before, number, q, isLast, ends⟩ := made.released accepted error outcome
    have same : p = q := by
      rw [List.getLast?_eq_getElem?, ← last, Nat.add_sub_cancel, performed] at isLast
      exact Option.some.inj isLast
    exact ⟨outcome, last, before, number, same ▸ ends⟩
  refused before text cause after split := by
    obtain ⟨isRefusal, last⟩ := made.refused before text cause after split
    exact ⟨(isRefusal ▸ made.run).refused_outcome, last⟩

theorem refusal_not_mem_use (other cause : String) : .prepare other (.error cause) ∉ use text number answered := by
  simp [use, execution]

theorem ofRun_nil : OfRun dialect [] [] none (.ok 0) where
  bracketed := .none
  planned := List.nil_prefix
  run := .done
  refused before other cause after split := by simp at split
  refuses cause none := by contradiction
  released _ error failed := by contradiction

theorem ofRun_refused (executions : List Execution) (text cause : String) :
    OfRun dialect executions [.prepare text (.error cause)] (some cause) (.error (.execution cause)) where
  bracketed := .refused .none
  planned := List.nil_prefix
  run := .refused executions cause
  refused before other reason after split := by
    cases before with
    | nil =>
        cases split
        exact ⟨rfl, rfl⟩
    | cons first rest =>
        obtain ⟨-, none⟩ := List.cons.inj split
        simp at none
  refuses reason same := by
    cases same
    exact ⟨text, List.mem_singleton_self _⟩
  released none := by contradiction

theorem ofRun_use (bound : answered.map Prod.fst <+: s.batch)
    (run : Run s.executions (answered.map Prod.snd) none outcome) (number : Nat) :
    OfRun dialect s.executions (use (s.statement.text dialect) number answered) none outcome := by
  have alone : performed (use (s.statement.text dialect) number answered ++ []) = _ := performed_use .none
  rw [List.append_nil] at alone
  have complete : performed (use (s.statement.text dialect) number answered) =
      answered.map (performance (s.statement.text dialect)) := by
    rw [alone]
    exact List.append_nil _
  refine ⟨?_, ?_, ?_, ?_, by simp, ?_⟩
  · have bracketed : AreBracketed (use (s.statement.text dialect) number answered ++ []) := AreBracketed.none.use
    rwa [List.append_nil] at bracketed
  · have mapped := bound.map fun parameters => (s.statement.text dialect, parameters)
    rw [List.map_map] at mapped
    rw [complete, PlannedStatement.executions, List.map_map, List.map_map]
    exact mapped
  · rw [complete, List.map_map]
    exact run
  · intro before other cause after split
    have member := List.mem_append_right before (List.mem_cons_self (a := Call.prepare other (.error cause)) (l := after))
    exact absurd (split ▸ member) (refusal_not_mem_use other cause)
  · intro _ error failed
    rcases List.eq_nil_or_concat' answered with rfl | ⟨front, last, rfl⟩
    · exact absurd rfl (failed ▸ run).answers_ne_nil
    · refine ⟨.prepare (s.statement.text dialect) (.ok number) :: front.map (execution number), number,
        performance (s.statement.text dialect) last, ?_, ?_⟩
      · rw [complete, List.map_append]
        exact List.getLast?_concat
      · simp [use, execution, performance]

theorem OfRun.after_use (further : OfRun dialect executions calls refusal outcome)
    (bound : answered.map Prod.fst = s.batch) (run : Run s.executions (answered.map Prod.snd) none (.ok affected))
    (number : Nat) : OfRun dialect (s.executions ++ executions) (use (s.statement.text dialect) number answered ++ calls)
      refusal (outcome.map (affected + ·)) := by
  have complete : performed (use (s.statement.text dialect) number answered ++ calls) = _ :=
    performed_use further.bracketed
  refine ⟨further.bracketed.use, ?_, ?_, ?_, ?_, ?_⟩
  · rw [complete, List.map_append, List.map_append]
    have first : (answered.map (performance (s.statement.text dialect))).map (fun p => (p.text, p.parameters)) =
        s.executions.map fun x => (x.statement.text dialect, x.parameters) := by
      rw [PlannedStatement.executions, ← bound, List.map_map, List.map_map, List.map_map]
      rfl
    rw [first]
    exact (List.prefix_append_right_inj _).mpr further.planned
  · rw [complete, List.map_append, List.map_map]
    exact run.append further.run
  · intro before other cause after split
    rcases List.append_eq_append_iff.mp split with ⟨front, -, rest⟩ | ⟨front, within, rest⟩
    · exact further.refused front other cause after rest
    · cases front with
      | nil => exact further.refused [] other cause after rest.symm
      | cons first others =>
          obtain ⟨rfl, -⟩ := List.cons.inj rest
          exact absurd (within ▸ List.mem_append_right before (List.mem_cons_self ..)) (refusal_not_mem_use other cause)
  · intro cause isRefusal
    obtain ⟨other, member⟩ := further.refuses cause isRefusal
    exact ⟨other, List.mem_append_right _ member⟩
  · intro accepted error failed
    cases outcome with
    | ok total => cases failed
    | error cause =>
        obtain ⟨before, last, p, isLast, ends⟩ := further.released accepted cause rfl
        refine ⟨use (s.statement.text dialect) number answered ++ before, last, p, ?_, ?_⟩
        · rw [complete, List.getLast?_append, isLast]
          rfl
        · rw [ends, List.append_assoc]

theorem OfRun.append_of_error (made : OfRun dialect executions calls refusal (.error error))
    (further : List Execution) : OfRun dialect (executions ++ further) calls refusal (.error error) where
  bracketed := made.bracketed
  planned := by
    rw [List.map_append]
    exact made.planned.trans (List.prefix_append _ _)
  run := made.run.append_of_error further
  refused := made.refused
  refuses := made.refuses
  released := made.released

end Call

namespace Executor

variable {σ : Type} {x : Executor σ} {dialect : Dialect}

theorem logged_executeBatch (s : PlannedStatement) (number : Nat) (batch : List (List BoundParameter)) (state : σ)
    (log : List Call) : ∃ answered : List Answered, answered.map Prod.fst <+: batch ∧
      (∀ affected, (x.executeBatch s number batch state).1 = .ok affected → answered.map Prod.fst = batch) ∧
      Run (batch.map s.execution) (answered.map Prod.snd) none (x.executeBatch s number batch state).1 ∧
      x.logged.executeBatch s number batch (state, log) = ((x.executeBatch s number batch state).1,
        (x.executeBatch s number batch state).2,
        log ++ answered.map (execution number)) := by
  induction batch generalizing state log with
  | nil => exact ⟨[], List.nil_prefix, fun _ _ => rfl, .done, by simp [executeBatch]⟩
  | cons parameters rest ih =>
      have written : x.logged.execute number parameters (state, log) = ((x.execute number parameters state).1,
          (x.execute number parameters state).2,
          log ++ [.execute number parameters (x.execute number parameters state).1]) := rfl
      rw [executeBatch, executeBatch, written]
      rcases x.execute number parameters state with ⟨cause | affected, after⟩
      · exact ⟨[(parameters, .error cause)], by simp, by simp, .stopped rfl _, rfl⟩
      · have stop : (s.execution parameters).stop? (.ok affected) =
            if affected = 0 ∧ s.requiresMatch then
              some (.staleVersion s.path (BoundParameter.describeKeys parameters)) else none := rfl
        by_cases stale : affected = 0 ∧ s.requiresMatch = true
        · rw [if_pos stale] at stop
          simp only [if_pos stale]
          exact ⟨[(parameters, .ok affected)], by simp, by simp, .stopped stop _, rfl⟩
        · rw [if_neg stale] at stop
          simp only [if_neg stale]
          obtain ⟨answered, bound, complete, run, same⟩ :=
            ih after (log ++ [.execute number parameters (.ok affected)])
          rw [same]
          refine ⟨(parameters, .ok affected) :: answered, List.cons_prefix_cons.mpr ⟨rfl, bound⟩, ?_, ?_, ?_⟩
          · intro total counted
            rcases last : x.executeBatch s number rest after with ⟨error | more, final⟩
            · rw [last] at counted
              cases counted
            · exact congrArg _ (complete more (by rw [last]))
          · refine .passed stop run ?_
            rcases x.executeBatch s number rest after with ⟨_ | _, _⟩ <;> rfl
          · rcases x.executeBatch s number rest after with ⟨_ | _, _⟩ <;> simp [Call.execution]

theorem logged_runStatement_of_refused {s : PlannedStatement} {state after : σ} {cause : String} (log : List Call)
    (refused : x.prepare (s.statement.text dialect) state = (.error cause, after)) :
    x.runStatement dialect s state = (.error (.execution cause), after) ∧
      x.logged.runStatement dialect s (state, log) =
        (.error (.execution cause), after, log ++ [.prepare (s.statement.text dialect) (.error cause)]) := by
  constructor
  · simp only [runStatement, refused]
  · have written : x.logged.prepare (s.statement.text dialect) (state, log) =
        (.error cause, after, log ++ [.prepare (s.statement.text dialect) (.error cause)]) := by
      simp only [logged, refused]
    simp only [runStatement, written]

theorem logged_runStatement_of_prepared {s : PlannedStatement} {state after : σ} {number : Nat} (log : List Call)
    (prepared : x.prepare (s.statement.text dialect) state = (.ok number, after)) :
    ∃ answered : List Answered, answered.map Prod.fst <+: s.batch ∧
      (∀ affected, (x.runStatement dialect s state).1 = .ok affected → answered.map Prod.fst = s.batch) ∧
      Run s.executions (answered.map Prod.snd) none (x.runStatement dialect s state).1 ∧
      x.logged.runStatement dialect s (state, log) = ((x.runStatement dialect s state).1,
        (x.runStatement dialect s state).2, log ++ use (s.statement.text dialect) number answered) := by
  have written : x.logged.prepare (s.statement.text dialect) (state, log) =
      (.ok number, after, log ++ [.prepare (s.statement.text dialect) (.ok number)]) := by
    simp only [logged, prepared]
  obtain ⟨answered, bound, complete, run, same⟩ := x.logged_executeBatch s number s.batch after
    (log ++ [.prepare (s.statement.text dialect) (.ok number)])
  simp only [runStatement, prepared, written, same]
  refine ⟨answered, bound, complete, run, ?_⟩
  simp [logged, use]

theorem runStatements_of_error {s : PlannedStatement} {state after : σ} {error : ViewError}
    (failed : x.runStatement dialect s state = (.error error, after)) (rest : List PlannedStatement) :
    x.runStatements dialect (s :: rest) state = (.error error, after) := by
  simp only [runStatements, failed]

theorem runStatements_of_ok {s : PlannedStatement} {state after : σ} {affected : UInt64}
    (completed : x.runStatement dialect s state = (.ok affected, after)) (rest : List PlannedStatement) :
    x.runStatements dialect (s :: rest) state = ((x.runStatements dialect rest after).1.map (affected + ·),
      (x.runStatements dialect rest after).2) := by
  simp only [runStatements, completed]
  rcases x.runStatements dialect rest after with ⟨_ | _, _⟩ <;> rfl

theorem logged_runStatements (dialect : Dialect) (statements : List PlannedStatement) (state : σ) (log : List Call) :
    ∃ calls refusal, OfRun dialect (statements.flatMap (·.executions)) calls refusal (x.runStatements dialect statements state).1 ∧
      x.logged.runStatements dialect statements (state, log) = ((x.runStatements dialect statements state).1,
        (x.runStatements dialect statements state).2, log ++ calls) := by
  induction statements generalizing state log with
  | nil => exact ⟨[], none, ofRun_nil, by simp [runStatements]⟩
  | cons s rest ih =>
      rw [List.flatMap_cons]
      rcases prepared : x.prepare (s.statement.text dialect) state with ⟨cause | number, after⟩
      · obtain ⟨failed, written⟩ := logged_runStatement_of_refused log prepared
        rw [runStatements_of_error failed, runStatements_of_error written]
        exact ⟨_, _, (ofRun_refused s.executions (s.statement.text dialect) cause).append_of_error _, rfl⟩
      · obtain ⟨answered, bound, complete, run, written⟩ := logged_runStatement_of_prepared log prepared
        rcases ran : x.runStatement dialect s state with ⟨error | affected, done⟩
        · rw [ran] at run written
          rw [runStatements_of_error ran, runStatements_of_error written]
          exact ⟨_, _, (ofRun_use bound run number).append_of_error _, rfl⟩
        · rw [ran] at run written complete
          obtain ⟨calls, refusal, further, same⟩ := ih done (log ++ use (s.statement.text dialect) number answered)
          rw [runStatements_of_ok ran, runStatements_of_ok written, same, List.append_assoc]
          exact ⟨_, _, further.after_use (complete affected rfl) run number, rfl⟩

end Executor

theorem View.isDirty_of_plan {v : View} {settings : ViewSettings} {c : Context} {plan : WritePlan}
    (planned : (v.plan settings c).2 = .ok plan) (some : plan.statements ≠ []) :
    (v.plan settings c).1.isDirty = true := by
  obtain ⟨s, member⟩ := List.exists_mem_of_ne_nil _ some
  obtain ⟨first, origin, plans, -⟩ := View.plan_stands planned member
  generalize (v.plan settings c).1 = w at plans
  rw [isDirty, Bool.or_eq_true, List.any_eq_true]
  cases origin with
  | node row node =>
      obtain ⟨r, -, -, -, -, -, standing, changed, -⟩ := plans.stores
      exact .inr ⟨r, List.mem_of_getElem? standing, by simp [changed]⟩
  | added row =>
      obtain ⟨r, -, standing, isNew, -⟩ := plans
      exact .inr ⟨r, List.mem_of_getElem? standing, by simp [isNew]⟩
  | removed row =>
      obtain ⟨data, standing, -⟩ := plans
      have member := List.mem_of_getElem? standing
      exact .inl (by simpa using List.ne_nil_of_mem member)

/-- A flush carries out what is planned, and leaves a view with its changes unless all of that succeeds: then it is
settled. The executor is called the same way whether or not its calls are written down. -/
theorem flush_carries_plan_out {σ : Type} (x : Executor σ) (settings : ViewSettings) (c : Context) (v : View)
    (state : σ) : ∃ calls,
    x.logged.flush settings c v (state, []) = ((x.flush settings c v state).1, (x.flush settings c v state).2.1,
      (x.flush settings c v state).2.2, calls) ∧
    match v.plan settings c with
    | (w, .error error) => calls = [] ∧ x.flush settings c v state = (.error error, w, state)
    | (w, .ok plan) =>
      CarryOut v.compiled.dialect plan.executions calls (x.flush settings c v state).1 ∧
      match x.flush settings c v state with
      | (.ok _, after, _) => after = w.reconcile plan.now plan.reopened ∧
        w.IsReconciled after plan.now plan.reopened ∧ (v.IsOrdered → after.isDirty = false ∧
          (∀ r ∈ after.rows, r.isNew = false) ∧
          ∀ settings next, after.plan settings next = (after, .ok ⟨[], next.writeTime, []⟩))
      | (.error _, after, _) => after = w ∧ w.isDirty = true := by
  rcases planned : v.plan settings c with ⟨w, error | plan⟩
  · have nothing {τ : Type} (y : Executor τ) (start : τ) : y.flush settings c v start = (.error error, w, start) := by
      simp only [Executor.flush, planned]
    rw [nothing, nothing]
    exact ⟨[], rfl, rfl, rfl⟩
  · have isPlanned : w = (v.plan settings c).1 := by rw [planned]
    have dialect : w.compiled.dialect = v.compiled.dialect := by
      rw [isPlanned, View.plan_view]
    have succeeds {τ : Type} {y : Executor τ} {start last : τ} {affected : UInt64}
        (ran : y.runStatements v.compiled.dialect plan.statements start = (.ok affected, last)) :
        y.flush settings c v start = (.ok affected, w.reconcile plan.now plan.reopened, last) := by
      rw [← dialect] at ran
      simp only [Executor.flush, planned, ran]
    have fails {τ : Type} {y : Executor τ} {start last : τ} {error : ViewError}
        (ran : y.runStatements v.compiled.dialect plan.statements start = (.error error, last)) :
        y.flush settings c v start = (.error error, w, last) := by
      rw [← dialect] at ran
      simp only [Executor.flush, planned, ran]
    obtain ⟨calls, refusal, made, written⟩ :=
      x.logged_runStatements v.compiled.dialect plan.statements state []
    rcases ran : x.runStatements v.compiled.dialect plan.statements state with ⟨error | affected, last⟩
    · rw [ran] at made written
      rw [fails ran, fails written]
      refine ⟨calls, rfl, made.carryOut, rfl, ?_⟩
      have some : plan.statements ≠ [] := by
        intro none
        rw [none] at ran
        cases ran
      have dirty := View.isDirty_of_plan (by rw [planned]) some
      rwa [planned] at dirty
    · rw [ran] at made written
      rw [succeeds ran, succeeds written]
      have reconciled := w.isReconciled plan.now plan.reopened
      refine ⟨calls, rfl, made.carryOut, rfl, reconciled, fun ordered => ?_⟩
      have settled := reconciled.settled (isPlanned ▸ ordered.plan)
      exact ⟨settled.isDirty, settled.stored, settled.plan_eq⟩

end ViewEngine
