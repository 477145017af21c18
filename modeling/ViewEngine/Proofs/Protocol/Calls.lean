import Mathlib.Data.UInt
import ViewEngine.Proofs.Concurrency.Sessions
import ViewEngine.Proofs.Except

namespace ViewEngine

inductive Call where
  | prepare (text : String) (answer : Except String Nat)
  | execute (number : Nat) (parameters : List BoundParameter) (answer : Except String UInt64)
  | release (number : Nat)

structure Performance where
  text : String
  parameters : List BoundParameter
  answer : Except String UInt64

namespace Call

inductive Executes (number : Nat) : Call → Prop
  | intro (parameters : List BoundParameter) (answer : Except String UInt64) :
      Executes number (.execute number parameters answer)

/-- Statements are used in turn. One that could be prepared is executed, and then released once, before anything
else is called. -/
inductive AreBracketed : List Call → Prop
  | none : AreBracketed []
  | refused {text cause : String} {rest : List Call} (further : AreBracketed rest) :
      AreBracketed (.prepare text (.error cause) :: rest)
  | used {text : String} {number : Nat} {executions rest : List Call} (each : ∀ call ∈ executions, call.Executes number)
      (further : AreBracketed rest) :
      AreBracketed (.prepare text (.ok number) :: (executions ++ .release number :: rest))

def performedAfter (text : String) : List Call → List Performance
  | [] => []
  | .prepare text _ :: rest => performedAfter text rest
  | .execute _ parameters answer :: rest => ⟨text, parameters, answer⟩ :: performedAfter text rest
  | .release _ :: rest => performedAfter text rest

def performed (calls : List Call) : List Performance :=
  performedAfter "" calls

abbrev Answered := List BoundParameter × Except String UInt64

def execution (number : Nat) (a : Answered) : Call :=
  .execute number a.1 a.2

def performance (text : String) (a : Answered) : Performance :=
  ⟨text, a.1, a.2⟩

def use (text : String) (number : Nat) (answered : List Answered) : List Call :=
  .prepare text (.ok number) :: (answered.map (execution number) ++ [.release number])

variable {text other : String} {number : Nat} {calls : List Call}
  {answered : List Answered}

theorem AreBracketed.use (further : AreBracketed calls) : AreBracketed (use text number answered ++ calls) := by
  rw [Call.use, List.cons_append, List.append_assoc]
  refine .used (fun call member => ?_) further
  obtain ⟨a, -, rfl⟩ := List.mem_map.mp member
  exact .intro a.1 a.2

theorem performedAfter_executions (rest : List Call) :
    performedAfter text (answered.map (execution number) ++ rest) =
      answered.map (performance text) ++ performedAfter text rest := by
  induction answered with
  | nil => rfl
  | cons first rest ih => exact congrArg _ ih

theorem AreBracketed.performedAfter (bracketed : AreBracketed calls) (text : String) :
    performedAfter text calls = performed calls := by
  cases bracketed <;> rfl

theorem performed_use (further : AreBracketed calls) : performed (use text number answered ++ calls) =
    answered.map (performance text) ++ performed calls := by
  rw [← further.performedAfter text, performed, use, List.cons_append, List.append_assoc]
  exact performedAfter_executions _

end Call

namespace Executor

variable {σ : Type}

/-- The executor, with its calls but for queries written down. -/
def logged (x : Executor σ) : Executor (σ × List Call) where
  dialect := x.dialect
  query text state := ((x.query text state.1).1, (x.query text state.1).2, state.2)
  prepare text state :=
    let (answer, after) := x.prepare text state.1
    (answer, after, state.2 ++ [.prepare text answer])
  execute number parameters state :=
    let (answer, after) := x.execute number parameters state.1
    (answer, after, state.2 ++ [.execute number parameters answer])
  release number state := (x.release number state.1, state.2 ++ [.release number])

end Executor

namespace Execution

def stop? (x : Execution) : Except String UInt64 → Option ViewError
  | .error cause => some (.execution cause)
  | .ok affected => if affected = 0 ∧ x.requiresMatch then some x.stale else none

/-- Executions in turn with their answers. They end where one has an answer to stop at, or where a statement
could not be prepared. -/
inductive Run : List Execution → List (Except String UInt64) → Option String → Except ViewError UInt64 → Prop
  | done : Run [] [] none (.ok 0)
  | refused (executions : List Execution) (cause : String) :
      Run executions [] (some cause) (.error (.execution cause))
  | stopped {x : Execution} {answer : Except String UInt64} {error : ViewError} (stops : x.stop? answer = some error)
      (rest : List Execution) : Run (x :: rest) [answer] none (.error error)
  | passed {x : Execution} {rest : List Execution} {affected : UInt64} {answers : List (Except String UInt64)}
      {refusal : Option String} {outcome total : Except ViewError UInt64} (goesOn : x.stop? (.ok affected) = none)
      (further : Run rest answers refusal outcome) (counted : total = outcome.map (affected + ·)) :
      Run (x :: rest) (.ok affected :: answers) refusal total

def count (answer : Except String UInt64) : UInt64 :=
  answer.toOption.getD 0

/-- A sum of machine words is exact but for the multiples of the word that are lost. -/
theorem toNat_sum_count (answers : List (Except String UInt64)) :
    (answers.map count).sum.toNat = (answers.map fun answer => (count answer).toNat).sum % 2 ^ 64 := by
  induction answers with
  | nil => rfl
  | cons first rest ih =>
      rw [List.map_cons, List.sum_cons, UInt64.toNat_add, ih, List.map_cons, List.sum_cons, Nat.add_mod_mod]

variable {x : Execution} {executions further : List Execution} {answers more : List (Except String UInt64)}
  {refusal : Option String} {outcome : Except ViewError UInt64} {error : ViewError} {affected total : UInt64}
  {position : Nat}
  {answer : Except String UInt64}

theorem Run.append (run : Run executions answers none (.ok affected)) (next : Run further more refusal outcome) :
    Run (executions ++ further) (answers ++ more) refusal (outcome.map (affected + ·)) := by
  induction executions generalizing answers affected with
  | nil =>
      cases run
      have same : outcome.map (0 + ·) = outcome := by
        cases outcome <;> simp [Except.map]
      rwa [same]
  | cons x rest ih =>
      cases run with
      | passed goesOn below counted =>
          obtain ⟨last, rfl, rfl⟩ := map_eq_ok.mp counted.symm
          refine .passed goesOn (ih below) ?_
          cases outcome <;> simp [Except.map, UInt64.add_assoc]

theorem Run.append_of_error (run : Run executions answers refusal (.error error)) (further : List Execution) :
    Run (executions ++ further) answers refusal (.error error) := by
  induction executions generalizing answers with
  | nil =>
      cases run
      exact .refused _ _
  | cons x rest ih =>
      cases run with
      | refused => exact .refused _ _
      | stopped stops => exact .stopped stops _
      | passed goesOn below counted =>
          rename_i outcome
          cases outcome with
          | error cause =>
              cases counted
              exact .passed goesOn (ih below) rfl
          | ok more => cases counted

theorem Run.answers_ne_nil (run : Run executions answers none (.error error)) : answers ≠ [] := by
  rintro rfl
  cases run

/-- Executions are completed exactly if none stops, and the rows are counted. -/
theorem Run.completed_iff (run : Run executions answers refusal outcome) :
    outcome = .ok total ↔ answers.length = executions.length ∧ refusal = none ∧
      (∀ pair ∈ executions.zip answers, pair.1.stop? pair.2 = none) ∧ total = (answers.map count).sum := by
  induction run generalizing total with
  | done => simp [eq_comm]
  | refused => simp
  | stopped stops => simp [stops]
  | @passed x rest affected answers refusal outcome total goesOn below counted ih =>
      subst counted
      rw [map_eq_ok]
      simp only [List.length_cons, Nat.succ_inj, List.zip_cons_cons, List.forall_mem_cons, goesOn, true_and,
        List.map_cons, List.sum_cons]
      constructor
      · rintro ⟨others, completed, rfl⟩
        obtain ⟨length, none, each, rfl⟩ := ih.mp completed
        exact ⟨length, none, each, rfl⟩
      · rintro ⟨length, none, each, rfl⟩
        exact ⟨_, ih.mpr ⟨length, none, each, rfl⟩, rfl⟩

/-- An execution with an answer to stop at is the last, and its error is the outcome. -/
theorem Run.stopped_last (run : Run executions answers refusal outcome) (there : executions[position]? = some x)
    (answered : answers[position]? = some answer) (stops : x.stop? answer = some error) :
    outcome = .error error ∧ position + 1 = answers.length ∧ refusal = none := by
  induction run generalizing position with
  | done => contradiction
  | refused => contradiction
  | stopped isStop =>
      cases position with
      | zero =>
          cases there
          cases answered
          exact ⟨congrArg _ (Option.some.inj (isStop.symm.trans stops)), rfl, rfl⟩
      | succ position => contradiction
  | passed goesOn below counted ih =>
      cases position with
      | zero =>
          cases there
          cases answered
          rw [goesOn] at stops
          contradiction
      | succ position =>
          obtain ⟨rfl, last, accepted⟩ := ih there answered
          exact ⟨counted, congrArg (· + 1) last, accepted⟩

theorem Run.refused_outcome {cause : String} (run : Run executions answers (some cause) outcome) :
    outcome = .error (.execution cause) := by
  generalize isRefusal : some cause = refusal at run
  induction run with
  | done => contradiction
  | refused =>
      cases isRefusal
      rfl
  | stopped => contradiction
  | passed _ _ counted ih =>
      rw [counted, ih isRefusal]
      rfl

end Execution

end ViewEngine
