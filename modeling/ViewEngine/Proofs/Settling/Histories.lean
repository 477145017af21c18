import ViewEngine.Proofs.Settling.Marked
import ViewEngine.Proofs.Settling.Rewritten
import ViewEngine.Proofs.Writing.Keys

namespace ViewEngine

open Sql Planning

namespace Executor

variable {σ : Type} {x : Executor σ} {settings : ViewSettings} {context : Context} {v after : View} {state last : σ}
  {cause : ViewError}

theorem flush_eq_error (flushed : x.flush settings context v state = (.error cause, after, last)) :
    after = (v.plan settings context).1 := by
  unfold flush at flushed
  generalize v.plan settings context = outcome at flushed ⊢
  obtain ⟨w, error | plan⟩ := outcome
  · cases flushed
    rfl
  · dsimp only at flushed
    generalize x.runStatements w.compiled.dialect plan.statements state = ran at flushed
    obtain ⟨error | count, last⟩ := ran <;> cases flushed
    rfl

end Executor

/-- What a write is planned for is told by which rows are new, and by those that were taken out. -/
def WriteOrigin.Accords (fresh : List Bool) (gone : List Row) : WriteOrigin → Prop
  | .added row => fresh[row]? = some true
  | .node row _ => fresh[row]? = some false
  | .removed row => row < gone.length

namespace View

variable {v : View} {fresh : List Bool} {gone : List Row} {strict : Bool} {context : Context} {settings : ViewSettings}
  {writes : List Write} {w : Write} {origin : WriteOrigin} {compiled : CompiledView} {loaded : List Row}

theorem MarksNew.accords (marks : v.MarksNew fresh gone) (plans : v.Plans strict context w origin) :
    origin.Accords fresh gone := by
  have isNew {row : Nat} {r : ViewRow} (standing : v.rows[row]? = some r) : fresh[row]? = some r.isNew := by
    rw [← marks.isNew, List.getElem?_map, standing, Option.map_some]
  cases origin with
  | node row node =>
      obtain ⟨r, writes, standing, isStored, -⟩ := plans
      exact (isNew standing).trans (congrArg some isStored)
  | added row =>
      obtain ⟨r, writes, standing, isAdded, -⟩ := plans
      exact (isNew standing).trans (congrArg some isAdded)
  | removed row =>
      obtain ⟨data, standing, -⟩ := plans
      rw [marks.removed] at standing
      exact (List.getElem?_eq_some_iff.mp standing).1

/-- A view that came of loaded rows, which of its rows were appended since the last flush that succeeded, and the other
rows that were taken out since. -/
inductive History (compiled : CompiledView) (loaded : List Row) : View → List Bool → List Row → Prop
  | loaded : History compiled loaded (.ofRows compiled loaded) (loaded.map fun _ => false) []
  | set {v : View} {fresh : List Bool} {gone : List Row} (before : History compiled loaded v fresh gone) (value : Value)
      (row : Nat) {path : String} (unmarked : ¬ Path.IsMarked path) :
      History compiled loaded (v.setValue value row path).1 fresh gone
  | append {v : View} {fresh : List Bool} {gone : List Row} (before : History compiled loaded v fresh gone) :
      History compiled loaded v.appendRow.1 (fresh ++ [true]) gone
  | remove {v : View} {fresh : List Bool} {gone : List Row} (before : History compiled loaded v fresh gone) (row : Nat) :
      History compiled loaded (v.removeRow row).1 (fresh.eraseIdx row)
        (gone ++ if fresh[row]? = some false then v.data[row]?.toList else [])
  | plan {v : View} {fresh : List Bool} {gone : List Row} (before : History compiled loaded v fresh gone)
      (settings : ViewSettings) (context : Context) : History compiled loaded (v.plan settings context).1 fresh gone
  | failed {v after : View} {fresh : List Bool} {gone : List Row} (before : History compiled loaded v fresh gone)
      {σ : Type} {x : Executor σ} {settings : ViewSettings} {context : Context} {state last : σ} {cause : ViewError}
      (flushed : x.flush settings context v state = (.error cause, after, last)) : History compiled loaded after fresh gone
  | stored {v after : View} {fresh : List Bool} {gone : List Row} (before : History compiled loaded v fresh gone)
      {σ : Type} {x : Executor σ} {settings : ViewSettings} {context : Context} {state last : σ} {affected : UInt64}
      (flushed : x.flush settings context v state = (.ok affected, after, last)) :
      History compiled loaded after (fresh.map fun _ => false) []

theorem History.compiled_eq (history : History compiled loaded v fresh gone) : v.compiled = compiled := by
  induction history with
  | loaded => rfl
  | set _ _ _ _ ih => exact setValue_compiled.trans ih
  | append _ ih => exact ih
  | remove _ _ ih => exact removeRow_compiled.trans ih
  | plan _ _ _ ih => exact plan_compiled.trans ih
  | failed _ flushed ih =>
      rw [Executor.flush_eq_error flushed]
      exact plan_compiled.trans ih
  | stored _ flushed ih =>
      obtain ⟨plan, -, rfl⟩ := Executor.flush_eq_ok flushed
      exact plan_compiled.trans ih

theorem History.marksNew (ordered : ∀ row ∈ loaded, Keyed.IsAscending row)
    (unmarked : ∀ row ∈ loaded, Keyed.contains row newRowMark = false) (links : compiled.LinksSpareMark)
    (history : History compiled loaded v fresh gone) : v.MarksNew fresh gone := by
  induction history with
  | loaded => exact marksNew_ofRows compiled ordered unmarked
  | set _ value row unmarked ih => exact ih.setValue unmarked value row
  | append _ ih => exact ih.appendRow
  | remove _ row ih => exact ih.removeRow row
  | plan before settings context ih => exact ih.plan (before.compiled_eq ▸ links) settings context
  | failed before flushed ih =>
      rw [Executor.flush_eq_error flushed]
      exact ih.plan (before.compiled_eq ▸ links) ..
  | stored before flushed ih =>
      obtain ⟨plan, -, rfl⟩ := Executor.flush_eq_ok flushed
      exact (ih.plan (before.compiled_eq ▸ links) ..).reconcile ..

/-- Unless a path begins with the mark, the new rows are those that were appended since the last flush that succeeded: all
that a plan inserts is for these, all that it takes away is for the others that were taken out, and each of them is
planned for. No set makes a row stored, but one under the mark makes it new. -/
theorem appended_rows_are_inserted (ordered : ∀ row ∈ loaded, Keyed.IsAscending row)
    (unmarked : ∀ row ∈ loaded, Keyed.contains row newRowMark = false) (links : compiled.LinksSpareMark)
    (history : History compiled loaded v fresh gone) :
    v.rows.map ViewRow.isNew = fresh ∧ v.removed = gone ∧
      (∀ settings context plan, (v.plan settings context).2 = .ok plan → ∃ after writes,
        (v.plan settings context).1 = after ∧ plan = .ofWrites context.writeTime writes ∧
        (∀ w ∈ writes, ∃ origin : WriteOrigin, after.Plans settings.strictWriteBack context w origin ∧
          origin.Accords fresh gone ∧ after.Reaches context w.statement w.parameters origin) ∧
        (∀ row : Nat, fresh[row]? = some true → ∃ r own, after.rows[row]? = some r ∧
          insertWrites compiled settings.strictWriteBack context row r.data = .ok own ∧ own ⊆ writes) ∧
        ∀ row : Nat, row < gone.length → ∃ w ∈ writes, after.Plans settings.strictWriteBack context w (.removed row)) ∧
      (∀ value row path (number : Nat) r, v.rows[number]? = some r → r.isNew = true →
        ∃ after, (v.setValue value row path).1.rows[number]? = some after ∧ after.isNew = true) ∧
      ∀ value (row : Nat) r, v.rows[row]? = some r →
        ∃ after, (v.setValue value row newRowMark).1.rows[row]? = some after ∧ after.isNew = true := by
  have marks := history.marksNew ordered unmarked links
  refine ⟨marks.isNew, marks.removed, fun settings context plan planned => ?_, fun value row path number r standing isNew =>
    setValue_new standing isNew value row path, fun value row r standing => setValue_mark standing value⟩
  have marksAfter := (history.plan settings context).marksNew ordered unmarked links
  have same := (history.plan settings context).compiled_eq
  obtain ⟨writes, written, rfl⟩ := plan_writes planned
  obtain ⟨rowsPlanned, removalsPlanned⟩ := writes_complete written
  refine ⟨_, writes, rfl, rfl, fun w member => ?_, fun row isFresh => ?_, fun row inside => ?_⟩
  · obtain ⟨origin, plans⟩ := writes_plans written member
    exact ⟨origin, plans, marksAfter.accords plans, plans.reaches⟩
  · rw [← marksAfter.isNew, List.getElem?_map] at isFresh
    obtain ⟨r, standing, isNew⟩ := Option.map_eq_some_iff.mp isFresh
    obtain ⟨own, ownPlanned, among⟩ := rowsPlanned row r standing
    rw [rowWrites, if_pos isNew, same] at ownPlanned
    exact ⟨r, own, standing, ownPlanned, among⟩
  · have standing := List.getElem?_eq_getElem (marksAfter.removed ▸ inside)
    obtain ⟨w, member, ownPlanned⟩ := removalsPlanned row _ standing
    exact ⟨w, member, _, standing, ownPlanned⟩

end View

namespace Sample

def rows : List Row :=
  [[("id", .int 1), ("inner", .row [("id", .int 10), ("value", .text "a")]), ("innerId", .int 10), ("rootKey", .int 1)]]

/-- The inner item is given another value, a sample 2 is appended, and the first one taken out. -/
def exchanged (compiled : CompiledView) : View :=
  (((((loaded compiled).setValue (.text "x") 0 "inner.value").1.appendRow.1).setValue (.int 2) 1 "id").1.removeRow 0).1

set_option maxRecDepth 100000 in
/-- The sample that was appended is inserted, and the one that was read taken away. -/
theorem appended_sample_is_inserted : ∃ compiled gone, outline.view? = some compiled ∧
    (∀ row ∈ rows, Keyed.IsAscending row ∧ Keyed.contains row newRowMark = false) ∧ compiled.LinksSpareMark ∧
    View.History compiled rows (exchanged compiled) [true] gone ∧
    (exchanged compiled).rows.map ViewRow.isNew = [true] ∧ (exchanged compiled).removed = gone ∧
    ∃ (plan : WritePlan) (after : View) (writes : List Write), ((exchanged compiled).plan {} context).2 = .ok plan ∧
      plan = .ofWrites context.writeTime writes ∧
      (∃ r own, after.rows[0]? = some r ∧ insertWrites compiled false context 0 r.data = .ok own ∧ own ⊆ writes) ∧
      ∃ w ∈ writes, after.Plans false context w (.removed 0) := by
  have checked : (outline.view?.map fun compiled => decide compiled.LinksSpareMark &&
      ((exchanged compiled).plan {} context).2.isOk && (exchanged compiled).removed.length == 1) = some true := by
    decide +kernel
  obtain ⟨compiled, found, checked⟩ := Option.map_eq_some_iff.mp checked
  simp only [Bool.and_eq_true, decide_eq_true_eq, beq_iff_eq] at checked
  obtain ⟨⟨links, planned⟩, length⟩ := checked
  obtain ⟨plan, planned⟩ := exists_eq_ok_of_isOk planned
  have ordered : ∀ row ∈ rows, (Keyed.keys row).Pairwise (· < ·) := by decide +kernel
  have unmarked : ∀ row ∈ rows, Keyed.contains row newRowMark = false := by decide +kernel
  have value : ¬ Path.IsMarked "inner.value" := by decide +kernel
  have id : ¬ Path.IsMarked "id" := by decide +kernel
  have history : View.History compiled rows (exchanged compiled) [true] _ :=
    (((View.History.loaded.set (.text "x") 0 value).append).set (.int 2) 1 id).remove 0
  obtain ⟨isNew, removed, plans, -⟩ := View.appended_rows_are_inserted ordered unmarked links history
  obtain ⟨after, writes, -, parts, -, inserted, taken⟩ := plans {} context plan planned
  refine ⟨compiled, _, found, fun row member => ⟨ordered row member, unmarked row member⟩, links, history, isNew, removed,
    plan, after, writes, planned, parts, inserted 0 rfl, taken 0 ?_⟩
  rw [← removed, length]
  exact Nat.zero_lt_one

end Sample

end ViewEngine
