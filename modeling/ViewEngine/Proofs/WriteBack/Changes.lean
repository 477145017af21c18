import Mathlib.Data.List.Perm.Basic
import ViewEngine.Proofs.Concurrency.Sessions
import ViewEngine.Proofs.Versions.History
import ViewEngine.Proofs.Writing.Sharing

namespace ViewEngine

open Sql

def Record.Unlike (c : Collation) (e : Entity) (a b : Record) : Prop :=
  e.sameKey c a b = false ∧ e.sameKey c b a = false

instance (c : Collation) (e : Entity) (a b : Record) : Decidable (a.Unlike c e b) :=
  inferInstanceAs (Decidable (_ ∧ _))

/-- A change of one row: what is there before, unless the row is new, and what afterwards, unless it is gone. -/
structure RowChange where
  before : Option Record := none
  after : Option Record := none

def RowChange.deletion (old : Record) : RowChange where
  before := some old

section Changes

variable (c : Collation) (e : Entity)

def RowChange.Spares (change other : RowChange) : Prop :=
  ∀ old ∈ change.before, ∀ record, record ∈ other.before ∨ record ∈ other.after → e.sameKey c record old = false

def RowChange.Apart (change other : RowChange) : Prop :=
  change.Spares c e other ∧ other.Spares c e change

/-- A row has the key it had before, or one that no row of the table has. -/
def RowChange.KeepsKeys (rows : List Record) (change : RowChange) : Prop :=
  ∀ new ∈ change.after, (∃ old ∈ change.before, ∀ a ∈ e.identityKeys, new a.columnName = old a.columnName) ∨
    ∀ record ∈ rows, e.sameKey c new record = false

/-- An execution makes a change wherever the row can be told from the others by its key. -/
def Execution.Makes (columns : List String) (x : Execution) (change : RowChange) : Prop :=
  ∀ (db : Database) (others : List Record), (db e.table).columns = columns →
    (db e.table).rows.Perm (change.before.toList ++ others) →
    (∀ old ∈ change.before, ∀ record ∈ others, e.sameKey c record old = false) →
    ∃ affected rows, x.outcome c db = (.ok affected, Function.update db e.table { db e.table with rows }) ∧
      rows.Perm (change.after.toList ++ others)

end Changes

variable {c : Collation} {e : Entity} {change other : RowChange} {changes : List RowChange}
  {columns : List String} {executions ordered : List Execution} {db : Database} {rows others : List Record}

theorem Record.Unlike.symm {a b : Record} (unlike : a.Unlike c e b) : b.Unlike c e a :=
  ⟨unlike.2, unlike.1⟩

namespace RowChange

theorem deletions_before (records : List Record) :
    (records.map deletion).flatMap (·.before.toList) = records := by
  rw [List.flatMap_map]
  exact List.flatMap_singleton' records

theorem deletions_after (records : List Record) : (records.map deletion).flatMap (·.after.toList) = [] := by
  rw [List.flatMap_map]
  exact List.flatMap_eq_nil_iff.mpr fun _ _ => rfl

theorem Apart.symm (apart : change.Apart c e other) : other.Apart c e change :=
  ⟨apart.2, apart.1⟩

theorem Spares.of_keepsKeys (keeps : other.KeepsKeys c e rows) (inside : ∀ old ∈ change.before, old ∈ rows)
    (unlike : ∀ old ∈ change.before, ∀ found ∈ other.before, old.Unlike c e found) : change.Spares c e other := by
  intro old isOld record found
  rcases found with before | after
  · exact (unlike old isOld record before).2
  · rcases keeps record after with ⟨first, isFirst, same⟩ | fresh
    · rw [Record.sameKey_congr_left same]
      exact (unlike old isOld first isFirst).2
    · exact fresh old (inside old isOld)

theorem pairwise_apart (keeps : ∀ change ∈ changes, change.KeepsKeys c e rows)
    (inside : ∀ old ∈ changes.flatMap (·.before.toList), old ∈ rows)
    (unlike : (changes.flatMap (·.before.toList)).Pairwise (Record.Unlike c e)) :
    changes.Pairwise (Apart c e) := by
  induction changes with
  | nil => exact .nil
  | cons change rest ih =>
      rw [List.flatMap_cons] at inside unlike
      obtain ⟨-, below, crossing⟩ := List.pairwise_append.mp unlike
      have insideRest := fun old member => inside old (List.mem_append_right _ member)
      refine .cons (fun other member => ?_)
        (ih (fun other member => keeps other (List.mem_cons_of_mem _ member)) insideRest below)
      have unlike : ∀ old ∈ change.before, ∀ found ∈ other.before, old.Unlike c e found :=
        fun old isOld found isFound => crossing old (Option.mem_toList.mpr isOld) found
          (List.mem_flatMap.mpr ⟨other, member, Option.mem_toList.mpr isFound⟩)
      constructor
      · refine .of_keepsKeys (keeps other (List.mem_cons_of_mem _ member)) (fun old isOld => ?_) unlike
        exact inside old (List.mem_append_left _ (Option.mem_toList.mpr isOld))
      · refine .of_keepsKeys (keeps change (List.mem_cons_self ..)) (fun old isOld => ?_)
          fun old isOld found isFound => (unlike found isFound old isOld).symm
        exact insideRest old (List.mem_flatMap.mpr ⟨other, member, Option.mem_toList.mpr isOld⟩)

end RowChange

theorem Execution.runAll_makes (made : List.Forall₂ (Makes c e columns) executions changes)
    (apart : changes.Pairwise (RowChange.Apart c e))
    (aside : ∀ change ∈ changes, ∀ old ∈ change.before, ∀ record ∈ others, e.sameKey c record old = false)
    (hasColumns : (db e.table).columns = columns)
    (found : (db e.table).rows.Perm (changes.flatMap (·.before.toList) ++ others)) :
    ∃ affected rows, runAll c executions db =
        (.ok affected, Function.update db e.table { db e.table with rows }) ∧
      rows.Perm (changes.flatMap (·.after.toList) ++ others) := by
  induction made generalizing db others with
  | nil => exact ⟨0, (db e.table).rows, by rw [runAll, Function.update_eq_self], found⟩
  | @cons x change executions changes makes _ ih =>
      obtain ⟨first, apart⟩ := List.pairwise_cons.mp apart
      rw [List.flatMap_cons, List.append_assoc] at found
      obtain ⟨affected, rows, outcome, left⟩ := makes db _ hasColumns found fun old isOld record member => by
        rcases List.mem_append.mp member with later | aside'
        · obtain ⟨other, inside, isRecord⟩ := List.mem_flatMap.mp later
          exact (first other inside).1 old isOld record (.inl (Option.mem_toList.mp isRecord))
        · exact aside change (List.mem_cons_self ..) old isOld record aside'
      -- What the first change leaves is from now on one of the other rows.
      have moved : rows.Perm (changes.flatMap (·.before.toList) ++ (change.after.toList ++ others)) :=
        left.trans (List.perm_append_comm_assoc ..)
      have asideLater : ∀ other ∈ changes, ∀ old ∈ other.before, ∀ record ∈ change.after.toList ++ others,
          e.sameKey c record old = false := by
        intro other inside old isOld record member
        rcases List.mem_append.mp member with after | aside'
        · exact (first other inside).2 old isOld record (.inr (Option.mem_toList.mp after))
        · exact aside other (List.mem_cons_of_mem _ inside) old isOld record aside'
      have standing := Function.update_self e.table { db e.table with rows } db
      obtain ⟨more, last, ran, remain⟩ := ih apart asideLater
        ((congrArg Table.columns standing).trans hasColumns) ((congrArg Table.rows standing) ▸ moved)
      refine ⟨affected + more, last, ?_, ?_⟩
      · simp only [runAll, outcome, ran, Function.update_idem, Function.update_self]
      · rw [List.flatMap_cons, List.append_assoc]
        exact remain.trans (List.perm_append_comm_assoc ..)

/-- Executions in another order make the same changes, if new keys are those of none of the rows that are changed. -/
theorem Execution.runAll_changes_among {records : List Record} (order : executions.Perm ordered)
    (made : List.Forall₂ (Makes c e columns) ordered changes)
    (keeps : ∀ change ∈ changes, change.KeepsKeys c e records)
    (inside : ∀ old ∈ changes.flatMap (·.before.toList), old ∈ records)
    (unlike : (db e.table).rows.Pairwise (Record.Unlike c e)) (hasColumns : (db e.table).columns = columns)
    (found : (db e.table).rows.Perm (changes.flatMap (·.before.toList) ++ others)) :
    ∃ affected rows, runAll c executions db =
        (.ok affected, Function.update db e.table { db e.table with rows }) ∧
      rows.Perm (changes.flatMap (·.after.toList) ++ others) := by
  obtain ⟨reordered, made, same⟩ := List.perm_comp_forall₂ order made
  have unlike := found.pairwise unlike (fun unlike => unlike.symm)
  obtain ⟨unlikeChanged, -, crossing⟩ := List.pairwise_append.mp unlike
  have apart := RowChange.pairwise_apart keeps inside unlikeChanged
  have moved := (same.symm.flatMap_right (·.before.toList)).append_right others
  obtain ⟨affected, rows, ran, left⟩ := runAll_makes made (same.symm.pairwise apart (fun apart => apart.symm))
    (fun change inside old isOld record member => (crossing old (List.mem_flatMap.mpr
      ⟨change, same.mem_iff.mp inside, Option.mem_toList.mpr isOld⟩) record member).2)
    hasColumns (found.trans moved)
  exact ⟨affected, rows, ran, left.trans ((same.flatMap_right (·.after.toList)).append_right others)⟩

theorem Execution.runAll_changes (order : executions.Perm ordered)
    (made : List.Forall₂ (Makes c e columns) ordered changes)
    (keeps : ∀ change ∈ changes, change.KeepsKeys c e (db e.table).rows)
    (unlike : (db e.table).rows.Pairwise (Record.Unlike c e)) (hasColumns : (db e.table).columns = columns)
    (found : (db e.table).rows.Perm (changes.flatMap (·.before.toList) ++ others)) :
    ∃ affected rows, runAll c executions db =
        (.ok affected, Function.update db e.table { db e.table with rows }) ∧
      rows.Perm (changes.flatMap (·.after.toList) ++ others) :=
  runAll_changes_among order made keeps (fun _ member => found.mem_iff.mpr (List.mem_append_left _ member)) unlike
    hasColumns found

def Write.execution (w : Write) : Execution :=
  (PlannedStatement.ofWrite w).execution w.parameters

/-- Each write can be executed with the statement of any other one that it may share it with. -/
def AreCoherent (writes : List Write) : Prop :=
  ∀ w ∈ writes, ∀ first ∈ writes, w.Shares first →
    (PlannedStatement.ofWrite first).execution w.parameters = w.execution

namespace PlannedStatement

variable {w : Write} {writes added : List Write} {statements : List PlannedStatement}

theorem executions_add (coherent : AreCoherent writes) (member : w ∈ writes)
    (standing : ∀ s ∈ statements, ∃ first, s.StandsFor writes first) :
    ((add w statements).flatMap (·.executions)).Perm (w.execution :: statements.flatMap (·.executions)) := by
  induction statements with
  | nil => exact .refl _
  | cons s rest ih =>
      unfold add
      split
      next same =>
        obtain ⟨first, stands⟩ := standing s (List.mem_cons_self ..)
        rw [Bool.and_eq_true, beq_iff_eq] at same
        have batchKey : s.batchKey = first.batch := congrArg PlannedStatement.batchKey stands.form
        have shared := coherent w member first stands.member (.inr ⟨same.1, same.2.symm.trans batchKey⟩)
        have executed : s.execution w.parameters = w.execution := by
          rw [← shared, stands.form]
          rfl
        have appended : ({ s with batch := s.batch ++ [w.parameters] } : PlannedStatement).executions =
            s.executions ++ [w.execution] := by
          rw [← executed]
          exact List.map_append
        rw [List.flatMap_cons, List.flatMap_cons, appended, List.append_assoc, List.singleton_append]
        exact List.perm_middle
      next =>
        have below := ih fun s later => standing s (List.mem_cons_of_mem _ later)
        rw [List.flatMap_cons, List.flatMap_cons]
        exact (below.append_left _).trans List.perm_middle

theorem executions_foldl (coherent : AreCoherent writes) (members : ∀ w ∈ added, w ∈ writes)
    (standing : ∀ s ∈ statements, ∃ first, s.StandsFor writes first) :
    ((added.foldl (fun statements w => add w statements) statements).flatMap (·.executions)).Perm
      (added.map Write.execution ++ statements.flatMap (·.executions)) := by
  induction added generalizing statements with
  | nil => exact .refl _
  | cons w rest ih =>
      have member := members w (List.mem_cons_self ..)
      have later := ih (fun w later => members w (List.mem_cons_of_mem _ later)) (standsFor_add member standing)
      exact (later.trans ((executions_add coherent member standing).append_left _)).trans List.perm_middle

/-- The executions of a plan are those of its writes, in some order. -/
theorem executions_ofWrites (coherent : AreCoherent writes) :
    ((ofWrites writes).flatMap (·.executions)).Perm (writes.map Write.execution) := by
  have standing : ∀ s ∈ ([] : List PlannedStatement), ∃ first, s.StandsFor writes first :=
    fun _ none => absurd none List.not_mem_nil
  have all := executions_foldl coherent (fun _ member => member) standing
  rwa [List.flatMap_nil, List.append_nil] at all

end PlannedStatement

end ViewEngine
