import ViewEngine.Proofs.Concurrency.Flush
import ViewEngine.Proofs.WriteBack.Edits

/-!
Rows of a view that take the keys of rows that were taken out. All writes of the rows of a view come before the first
removal, so that a new row is inserted while the old one still stands, and is then deleted with it.
-/

namespace ViewEngine

open Sql Planning

namespace PlannedStatement

variable {w : Write} {writes added : List Write} {statements more : List PlannedStatement}

theorem add_append (apart : ∀ s ∈ statements, w.batch.isSome = true → s.batchKey ≠ w.batch) :
    add w (statements ++ more) = statements ++ add w more := by
  induction statements with
  | nil => rfl
  | cons s rest ih =>
      have different : (w.batch.isSome && s.batchKey == w.batch) = false := by
        rw [Bool.and_eq_false_imp, beq_eq_false_iff_ne]
        exact apart s (List.mem_cons_self ..)
      rw [List.cons_append, add, different, if_neg Bool.false_ne_true,
        ih fun other later => apart other (List.mem_cons_of_mem _ later), List.cons_append]

theorem ofWrites_append (apart : ∀ w ∈ added, ∀ first ∈ writes, w.batch.isSome = true → first.batch ≠ w.batch) :
    ofWrites (writes ++ added) = ofWrites writes ++ ofWrites added := by
  have folded (more : List PlannedStatement) :
      added.foldl (fun statements w => add w statements) (ofWrites writes ++ more) =
        ofWrites writes ++ added.foldl (fun statements w => add w statements) more := by
    induction added generalizing more with
    | nil => rfl
    | cons w rest ih =>
        have first : add w (ofWrites writes ++ more) = ofWrites writes ++ add w more := by
          refine add_append fun s member batched => ?_
          obtain ⟨first, stands⟩ := exists_standsFor member
          rw [stands.form]
          exact apart w (List.mem_cons_self ..) first stands.member batched
        rw [List.foldl_cons, first, List.foldl_cons]
        exact ih (fun other later => apart other (List.mem_cons_of_mem _ later)) (add w more)
  have all := folded []
  rwa [List.append_nil, ofWrites, ← List.foldl_append] at all

end PlannedStatement

namespace View

variable {v : View} {strict : Bool} {context : Context} {settings : ViewSettings} {plan : WritePlan}

theorem batches_apart {stored removals : List Write}
    (ofRows : ∀ w ∈ stored, ∃ origin, v.Plans strict context w origin ∧ ∀ row, origin ≠ .removed row)
    (ofRemovals : ∀ w ∈ removals, ∃ row, v.Plans strict context w (.removed row)) :
    ∀ w ∈ removals, ∀ first ∈ stored, w.batch.isSome = true → first.batch ≠ w.batch := by
  intro w isRemoval first isStored batched same
  obtain ⟨row, plans⟩ := ofRemovals w isRemoval
  obtain ⟨origin, before, notRemoved⟩ := ofRows first isStored
  obtain ⟨key, isKey⟩ := Option.isSome_iff_exists.mp batched
  have purpose := plans.purpose isKey
  have purposeBefore := before.purpose (same.trans isKey)
  cases origin with
  | node => simp_all
  | added => simp_all
  | removed row => exact notRemoved row rfl

end View

section Deletions

variable {c : Collation} {e : Entity} {columns : List String} {executions first second : List Execution}
  {gone : List Record} {db : Database}

/-- The rows without the keys of some other ones. -/
def Record.spared (c : Collation) (e : Entity) (gone rows : List Record) : List Record :=
  rows.filter fun record => gone.all fun old => !e.sameKey c record old

theorem Record.spared_perm {rows others removed : List Record} (same : gone.Perm removed) (left : rows.Perm others) :
    (spared c e gone rows).Perm (spared c e removed others) := by
  have each : (fun record => gone.all fun old => !e.sameKey c record old) =
      fun record => removed.all fun old => !e.sameKey c record old := by
    funext record
    rw [Bool.eq_iff_iff, List.all_eq_true, List.all_eq_true]
    exact forall_congr' fun old => by rw [same.mem_iff]
  rw [spared, spared, each]
  exact left.filter _

theorem Execution.runAll_deletes
    (delete : List.Forall₂ (fun x old => ∃ w : Write, w.Deletes e old ∧ x = w.execution) executions gone)
    (hasColumns : e.HasColumns) (known : ∀ a ∈ e.scalars, a.columnName ∈ (db e.table).columns) :
    ∃ affected, runAll c executions db = (.ok affected, Function.update db e.table { db e.table with
      rows := Record.spared c e gone (db e.table).rows }) := by
  induction delete generalizing db with
  | nil =>
      refine ⟨0, ?_⟩
      simp only [runAll, Record.spared, List.all_nil, List.filter_true, Function.update_eq_self]
  | @cons x old executions gone deletes _ ih =>
      obtain ⟨w, ⟨keys, areKeys, rfl⟩, rfl⟩ := deletes
      have executed := deleteWrite_execute? (c := c) hasColumns known areKeys
      have outcome := (Execution.outcome_of_execute? (x := (deleteWrite e keys).execution) executed).trans
        (if_neg (by simp [Write.execution, PlannedStatement.execution, PlannedStatement.ofWrite, deleteWrite]))
      have standing := Function.update_self e.table { db e.table with
        rows := (db e.table).rows.filter (!e.sameKey c · old) } db
      obtain ⟨more, ran⟩ := ih fun a scalar => (congrArg Table.columns standing).symm ▸ known a scalar
      refine ⟨reported ((db e.table).rows.countP (e.sameKey c · old)) + more, ?_⟩
      simp only [runAll, outcome, ran, Function.update_idem, Function.update_self, Record.spared, List.filter_filter,
        List.all_cons, Bool.and_comm]

variable (c e) in
/-- The executions of a flush under a primary key. It refuses what would leave two rows with one key. -/
def Execution.runKeyed : List Execution → Database → Except ViewError UInt64 × Database
  | [], db => (.ok 0, db)
  | x :: rest, db =>
    match x.outcome c db with
    | (.error error, db) => (.error error, db)
    | (.ok affected, after) =>
      if (after e.table).rows.Pairwise (Record.Unlike c e) then
        match runKeyed rest after with
        | (.ok more, db) => (.ok (affected + more), db)
        | failed => failed
      else (.error (.execution refusal), db)

theorem Execution.runAll_of_runKeyed {affected : UInt64} {after : Database}
    (ran : runKeyed c e (first ++ second) db = (.ok affected, after))
    (unlike : (db e.table).rows.Pairwise (Record.Unlike c e)) :
    ∃ some middle, runAll c first db = (.ok some, middle) ∧
      (middle e.table).rows.Pairwise (Record.Unlike c e) := by
  induction first generalizing db affected after with
  | nil => exact ⟨0, db, rfl, unlike⟩
  | cons x rest ih =>
      rw [List.cons_append, runKeyed] at ran
      rw [runAll]
      rcases outcome : x.outcome c db with ⟨error | here, next⟩
      · simp [outcome] at ran
      · simp only [outcome] at ran ⊢
        split at ran
        next apart =>
          rcases later : runKeyed c e (rest ++ second) next with ⟨error | more, done⟩
          · simp [later] at ran
          · obtain ⟨some, middle, executed, left⟩ := ih later apart
            exact ⟨here + some, middle, by rw [executed], left⟩
        next => simp at ran

end Deletions

section Replaced

variable {v : CompiledView} {e : Entity} {c : Collation}

/-- The plan of a view consists of what its drafts ask for, and then of the deletions of rows that were taken out. -/
theorem View.plan_deletes {view : View} {drafts : List Draft} {records kept gone : List Record}
    {tableColumns : List String}
    (shown : List.Forall₂ (Draft.Shows e) drafts view.rows) (removed : List.Forall₂ (Row.Loads e) view.removed gone)
    (plain : view.compiled.IsPlain e) (named : view.compiled.Admits e) (entity : e.HasPlainRows)
    (known : ∀ a ∈ e.scalars, a.columnName ∈ tableColumns) (areKeyed : Record.AreKeyed c e records)
    (stay : Record.AreKeyed c e kept) (isKeyed : ∀ d ∈ drafts, d.IsKeyed c e kept)
    (inside : ∀ old ∈ gone, old ∈ records) (settings : ViewSettings) (context : Context) :
    ∃ plan first second made deletions, (view.plan settings context).2 = .ok plan ∧
      plan.executions = first ++ second ∧ first.Perm made ∧ second.Perm deletions ∧
      List.Forall₂ (Execution.Makes c e tableColumns) made (drafts.flatMap (Draft.changes e)) ∧
      List.Forall₂ (fun x old => ∃ w : Write, w.Deletes e old ∧ x = w.execution) deletions gone := by
  obtain ⟨lists, planned, realise⟩ := rowWrites_realise shown plain named entity known stay isKeyed
    settings.strictWriteBack context 0
  obtain ⟨removals, plannedRemovals, delete⟩ := removalWrites_delete removed plain entity areKeyed inside context 0
  have written : view.writes settings.strictWriteBack context = .ok (lists.flatten ++ removals) :=
    bind_eq_ok.mpr ⟨lists, planned, bind_eq_ok.mpr ⟨removals, plannedRemovals, rfl⟩⟩
  have coherent := areCoherent_of_realise plain entity written
    (List.rel_append realise (realise_of_delete delete entity known areKeyed inside))
  obtain ⟨stored, taken, same, ofRows, ofRemovals, again⟩ := View.writes_parts written
  cases again.symm.trans plannedRemovals
  obtain rfl : stored = lists.flatten := (List.append_cancel_right same).symm
  have root : ∀ r ∈ view.rows, ∀ path ∈ r.changed, Path.node path = "" := by
    intro r member path changed
    obtain ⟨d, -, shows⟩ := exists_of_mem_left shown.flip member
    rw [Path.node, shows.splitProperty named changed]
  refine ⟨.ofWrites context.writeTime (lists.flatten ++ removals), _, _, _, _, ?_, ?_,
    PlannedStatement.executions_ofWrites fun w member first before =>
      coherent w (List.mem_append_left _ member) first (List.mem_append_left _ before),
    PlannedStatement.executions_ofWrites fun w member first before =>
      coherent w (List.mem_append_right _ member) first (List.mem_append_right _ before),
    List.forall₂_map_left_iff.mpr (realise.imp fun _ _ realises => realises.makes),
    List.forall₂_map_left_iff.mpr (delete.imp fun w old deletes => ⟨w, deletes, rfl⟩)⟩
  · simp only [View.plan, ViewRow.propagateAll_of_root root]
    exact congrArg (Except.map _) written
  · rw [WritePlan.executions, WritePlan.ofWrites,
      PlannedStatement.ofWrites_append (View.batches_apart ofRows ofRemovals), List.flatMap_append]

theorem Record.AreKeyed.of_perm {records rows : List Record} (areKeyed : AreKeyed c e records)
    (same : rows.Perm records) : AreKeyed c e rows where
  keyed record member := areKeyed.keyed record (same.mem_iff.mp member)
  unlike := same.symm.pairwise areKeyed.unlike fun unlike => unlike.symm

theorem Record.AreKeyed.of_append {records others : List Record} (areKeyed : AreKeyed c e (records ++ others)) :
    AreKeyed c e records where
  keyed record member := areKeyed.keyed record (List.mem_append_left _ member)
  unlike := (List.pairwise_append.mp areKeyed.unlike).1

theorem Record.spared_append {gone rows : List Record} (self : ∀ old ∈ gone, e.sameKey c old old = true) :
    spared c e gone (gone ++ rows) = spared c e gone rows := by
  have nothing : spared c e gone gone = [] := by
    refine List.filter_eq_nil_iff.mpr fun old member all => ?_
    have apart := List.all_eq_true.mp all old member
    simp [self old member] at apart
  rw [spared, List.filter_append]
  exact congrArg (· ++ spared c e gone rows) nothing

end Replaced

/-- Edits as a caller makes them, where new rows may take the keys of rows that were taken out, though not those of
rows that stay. What was taken out is deleted last, by its key, and the new rows with that key are deleted with it; all
else is written back. A table with a primary key refuses the new row, as the old one still stands. -/
theorem replaced_rows_are_deleted {v : CompiledView} {e : Entity} {c : Collation} {db : Database}
    {loaded : List (Row × Record)} {others : List Record} {edits : List RowEdit} {settings : ViewSettings}
    {context : Context} (plain : v.IsPlain e) (named : v.Admits e) (entity : e.HasPlainRows)
    (loads : ∀ entry ∈ loaded, entry.1.Loads e entry.2)
    (table : (db e.table).rows.Perm (loaded.map Prod.snd ++ others))
    (known : ∀ a ∈ e.scalars, a.columnName ∈ (db e.table).columns)
    (areKeyed : Record.AreKeyed c e (db e.table).rows)
    (permitted : Draft.PermitsAll e (Draft.ofLoaded loaded) edits)
    (fresh : ∀ d ∈ Draft.editAll (Draft.ofLoaded loaded) edits, d.HasFreshKey c e
      ((Draft.editAll (Draft.ofLoaded loaded) edits).filterMap (·.stored) ++ others)) :
    ∃ plan gone affected rows,
      (((View.ofRows v (loaded.map Prod.fst)).performAll edits).plan settings context).2 = .ok plan ∧
      ((Draft.editAll (Draft.ofLoaded loaded) edits).filterMap (·.stored) ++ gone).Perm (loaded.map Prod.snd) ∧
      Execution.runAll c plan.executions db =
        (.ok affected, Function.update db e.table { db e.table with rows }) ∧
      rows.Perm (Record.spared c e gone
        (others ++ (Draft.editAll (Draft.ofLoaded loaded) edits).map (Draft.record e))) ∧
      (∀ old ∈ gone, ∀ record ∈ rows, e.sameKey c record old = false) ∧
      ∀ d ∈ Draft.editAll (Draft.ofLoaded loaded) edits, ∀ old ∈ gone, e.sameKey c (d.record e) old = true →
        ∃ error after, Execution.runKeyed c e plan.executions db = (.error error, after) := by
  have drafted := (View.isDrafted_ofRows v loads).performAll entity.properties named permitted
  have compiled : ((View.ofRows v (loaded.map Prod.fst)).performAll edits).compiled = v :=
    View.performAll_compiled edits
  generalize (View.ofRows v (loaded.map Prod.fst)).performAll edits = view at drafted compiled ⊢
  generalize Draft.editAll (Draft.ofLoaded loaded) edits = drafts at drafted fresh ⊢
  subst compiled
  obtain ⟨gone, removed, partition⟩ := drafted.removed
  have stored := partition.append_right others |>.trans table.symm
  have inside : ∀ old ∈ gone, old ∈ (db e.table).rows := fun old member =>
    stored.mem_iff.mp (List.mem_append_left _ (List.mem_append_right _ member))
  have arranged : (db e.table).rows.Perm (drafts.filterMap (·.stored) ++ others ++ gone) := by
    refine stored.symm.trans ?_
    rw [List.append_assoc, List.append_assoc]
    exact List.perm_append_comm.append_left _
  have stay : Record.AreKeyed c e (drafts.filterMap (·.stored) ++ others) :=
    (areKeyed.of_perm arranged.symm).of_append
  have isKeyed : ∀ d ∈ drafts, d.IsKeyed c e (drafts.filterMap (·.stored) ++ others) := fun d member =>
    ⟨fun old isStored => List.mem_append_left _ (List.mem_filterMap.mpr ⟨d, member, isStored⟩), fresh d member⟩
  obtain ⟨plan, first, second, made, deletions, planned, split, order, last, makes, delete⟩ :=
    View.plan_deletes drafted.rows removed plain named entity known areKeyed stay isKeyed inside settings context
  have keeps : ∀ change ∈ drafts.flatMap (Draft.changes e) ++ ([] : List Record).map RowChange.deletion,
      change.KeepsKeys c e (drafts.filterMap (·.stored) ++ others) :=
    Draft.changes_keepKeys drafted.rows entity.toHasColumns isKeyed
  have before := Draft.changes_before e drafts [] (gone ++ others)
  simp only [List.map_nil, List.append_nil] at keeps before
  obtain ⟨affected, rows, ran, left⟩ := Execution.runAll_changes_among order makes keeps
    (fun old member => List.mem_append_left _ ((Draft.filterMap_stored e drafts).mem_iff.mp
      (List.mem_append_left _ member)))
    areKeyed.unlike rfl ((stored.symm.trans (.of_eq (List.append_assoc ..))).trans before)
  have after : rows.Perm (gone ++ (others ++ drafts.map (Draft.record e))) := by
    have changed := Draft.changes_after e drafts [] (gone ++ others)
    simp only [List.map_nil, List.append_nil] at changed
    exact (left.trans changed).trans (.of_eq (List.append_assoc ..))
  obtain ⟨taken, delete, same⟩ := List.perm_comp_forall₂ last delete
  have standing := Function.update_self e.table { db e.table with rows } db
  have stillKnown : ∀ a ∈ e.scalars,
      a.columnName ∈ (Function.update db e.table { db e.table with rows } e.table).columns := by
    rwa [standing]
  obtain ⟨more, deleted⟩ := Execution.runAll_deletes (c := c) delete entity.toHasColumns stillKnown
  have result : (Record.spared c e taken rows).Perm
      (Record.spared c e gone (others ++ drafts.map (Draft.record e))) := by
    rw [← Record.spared_append fun old member => areKeyed.sameKey_self (inside old member)]
    exact Record.spared_perm same after
  refine ⟨plan, gone, affected + more, Record.spared c e taken rows, planned, partition, ?_, result, ?_, ?_⟩
  · rw [split, Executor.runAll_append, ran]
    simp only [deleted, Function.update_idem, Function.update_self]
  · intro old member record isLeft
    have spared := (List.mem_filter.mp (result.mem_iff.mp isLeft)).2
    simpa using List.all_eq_true.mp spared old member
  · intro d isDraft old isGone same
    rcases keyed : Execution.runKeyed c e plan.executions db with ⟨error | total, done⟩
    · exact ⟨error, done, rfl⟩
    · -- Without an error the old row and the new one would stand side by side before the first deletion.
      rw [split] at keyed
      obtain ⟨some, middle, executed, unlike⟩ := Execution.runAll_of_runKeyed keyed areKeyed.unlike
      cases ran.symm.trans executed
      rw [standing] at unlike
      have crossing := (List.pairwise_append.mp (after.pairwise unlike fun unlike => unlike.symm)).2.2
      have apart := crossing old isGone (d.record e)
        (List.mem_append_right _ (List.mem_map_of_mem isDraft))
      simp [apart.2] at same

namespace Stock

def replacing : List RowEdit :=
  [.remove 0, .append, .set 2 "id" (.int 1), .set 2 "name" (.text "x")]

theorem replacing_permitted : Draft.PermitsAll lot (Draft.ofLoaded lots) replacing := by
  have name : itemColumn "name" .varchar false ∈ lot.scalars := by decide
  have id : itemColumn "id" .bigInt true ∈ lot.scalars := by decide
  refine ⟨trivial, trivial, ⟨rfl, _, id, rfl, ?_⟩, ⟨rfl, _, name, rfl, fun _ _ _ => rfl⟩, trivial⟩
  rintro d ⟨⟩ stored
  contradiction

theorem replacing_fresh : ∀ d ∈ Draft.editAll (Draft.ofLoaded lots) replacing, d.HasFreshKey .standard lot
    ((Draft.editAll (Draft.ofLoaded lots) replacing).filterMap (·.stored) ++ [item 4 "batch" "d"]) := by
  rintro d (_ | ⟨_, _ | ⟨_, _ | ⟨_, ⟨⟩⟩⟩⟩) added
  · contradiction
  · contradiction
  · refine ⟨⟨itemColumn "id" .bigInt true, by decide, rfl⟩, ?_⟩
    rintro record (_ | ⟨_, _ | ⟨_, _ | ⟨_, ⟨⟩⟩⟩⟩) <;> exact sameKey_of_ids rfl rfl (by decide)

set_option maxRecDepth 100000 in
/-- The new lot is deleted with the one whose number it has got, or refused by a table that knows the number as key. -/
theorem replaced_lot_is_deleted : ∃ compiled plan affected rows, (outline ["Lot"]).view? = some compiled ∧
    (((View.ofRows compiled (lots.map Prod.fst)).performAll replacing).plan {} Sample.context).2 = .ok plan ∧
    Execution.runAll .standard plan.executions database =
      (.ok affected, Function.update database "item" { database "item" with rows }) ∧
    (rows.map fun record => (record "id", record "kind", record "name")).Perm [
      (.int 4, .text "batch", .text "d"), (.int 2, .text "lot", .text "b"), (.int 3, .text "lot", .text "c")] ∧
    ∃ error after, Execution.runKeyed .standard lot plan.executions database = (.error error, after) := by
  obtain ⟨compiled, found, plain, named⟩ := exists_lots
  obtain ⟨plan, gone, affected, rows, planned, parted, ran, same, -, refused⟩ :=
    @replaced_rows_are_deleted compiled lot .standard database lots [item 4 "batch" "d"] replacing {} Sample.context
      plain named lot_hasPlainRows lots_load (.refl _) (by decide) database_areKeyed replacing_permitted replacing_fresh
  have order : [item 1 "lot" "a", item 2 "lot" "b", item 3 "lot" "c"].Perm
      ([item 2 "lot" "b", item 3 "lot" "c"] ++ [item 1 "lot" "a"]) := (List.perm_append_singleton _ _).symm
  obtain rfl : gone = [item 1 "lot" "a"] :=
    List.perm_singleton.mp ((List.perm_append_left_iff [item 2 "lot" "b", item 3 "lot" "c"]).mp (parted.trans order))
  refine ⟨compiled, plan, affected, rows, found, planned, ran, (same.map _).trans (.of_eq rfl), ?_⟩
  exact refused { stored := none, values := [("name", .text "x"), ("id", .int 1)] }
    (List.mem_cons_of_mem _ (List.mem_cons_of_mem _ (List.mem_singleton_self _))) _ (List.mem_singleton_self _)
    ((sameKey_iff_of_ids rfl rfl).mpr rfl)

end Stock

end ViewEngine
