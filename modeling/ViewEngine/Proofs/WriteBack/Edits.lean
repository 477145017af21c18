import ViewEngine.Proofs.WriteBack.Rows
import ViewEngine.Proofs.Writing.Placeholders

namespace ViewEngine

open Planning

section Propagation

variable {r : ViewRow} {rows : List ViewRow} {strict : Bool} {plan : JoinPlan}

theorem ViewRow.propagate_of_root (root : ∀ path ∈ r.changed, Path.node path = "") :
    r.propagate strict plan = (r, .ok ()) := by
  have nothing : r.changedNodes = [] := by
    refine List.filter_eq_nil_iff.mpr fun node member => ?_
    obtain ⟨path, changed, rfl⟩ := List.mem_map.mp (Names.mem_ofList.mp member)
    rw [root path changed]
    decide
  rw [propagate, nothing]
  rfl

theorem ViewRow.propagateAll_of_root (root : ∀ r ∈ rows, ∀ path ∈ r.changed, Path.node path = "") :
    propagateAll strict plan rows = (rows, .ok ()) := by
  induction rows with
  | nil => rfl
  | cons r rest ih =>
      have first : r.propagate strict plan = (r, .ok ()) := propagate_of_root (root r (List.mem_cons_self ..))
      have alone : (if r.isNew then (r, .ok ()) else r.propagate strict plan) = (r, .ok ()) := by
        rw [first, ite_self]
      simp only [propagateAll, alone, ih fun other member => root other (List.mem_cons_of_mem _ member)]
      rfl

end Propagation

variable {v : CompiledView} {e : Entity} {d : Draft} {r : ViewRow} {c : Collation}

namespace Draft

def untouched (d : Draft) : List Record :=
  if d.values.isEmpty then d.stored.toList else []

theorem record_of_unset (unset : d.values.isEmpty = true) {old : Record} (stored : d.stored = some old) :
    d.record e = old := by
  have nothing : d.assigned e = [] := by
    rw [assigned, List.isEmpty_iff.mp unset]
    exact List.filterMap_eq_nil_iff.mpr fun _ _ => rfl
  rw [record, stored, nothing]
  rfl

/-- The rows that drafts were read from are those that are changed and those that are not. -/
theorem filterMap_stored (e : Entity) (drafts : List Draft) :
    ((drafts.flatMap (changes e)).flatMap (·.before.toList) ++ drafts.flatMap untouched).Perm
      (drafts.filterMap (·.stored)) := by
  rw [List.flatMap_assoc, List.filterMap_eq_flatMap_toList]
  refine (List.flatMap_append_perm ..).trans (.of_eq (List.flatMap_congr fun d _ => ?_))
  rw [changes, untouched]
  cases d.stored with
  | none => cases d.values.isEmpty <;> rfl
  | some old => cases d.values.isEmpty <;> rfl

theorem map_record (e : Entity) (drafts : List Draft) :
    ((drafts.flatMap (changes e)).flatMap (·.after.toList) ++ drafts.flatMap untouched).Perm
      (drafts.map (record e)) := by
  rw [List.flatMap_assoc, List.map_eq_flatMap]
  refine (List.flatMap_append_perm ..).trans (.of_eq (List.flatMap_congr fun d _ => ?_))
  rw [changes, untouched]
  cases stored : d.stored with
  | none => cases d.values.isEmpty <;> rfl
  | some old =>
      cases unset : d.values.isEmpty with
      | true => simp [record_of_unset unset stored]
      | false => rfl

theorem Shows.record_key (shows : d.Shows e r) (hasColumns : e.HasColumns) {old : Record}
    (stored : d.stored = some old) {a : Attribute} (key : a ∈ e.identityKeys) :
    d.record e a.columnName = old a.columnName := by
  rw [record, stored, Option.getD_some]
  refine Record.assign_of_not_mem (fun assigned => ?_) old
  obtain ⟨_, member, same⟩ := List.mem_map.mp assigned
  obtain ⟨b, scalar, value, isSet, rfl⟩ := mem_assigned.mp member
  cases hasColumns.eq_of_columnName scalar (hasColumns.keys a key) same
  obtain ⟨-, b, other, property, writable⟩ := shows.columns _ (mem_of_lookup isSet)
  cases hasColumns.eq_of_property (Entity.mem_attributes_of_scalar other)
    (Entity.mem_attributes_of_scalar scalar) property
  have primary := (Entity.mem_identityKeys_iff.mp key).2.1
  simp [Entity.isWritable, primary, stored] at writable

theorem Shows.keepsKeys {records : List Record} (shows : d.Shows e r) (hasColumns : e.HasColumns)
    (isKeyed : d.IsKeyed c e records) : ∀ change ∈ d.changes e, change.KeepsKeys c e records := by
  intro change member new after
  unfold changes at member
  split at member
  next old stored =>
    split at member
    · contradiction
    · cases List.mem_singleton.mp member
      cases after
      exact .inl ⟨old, rfl, fun a key => shows.record_key hasColumns stored key⟩
  next added =>
    cases List.mem_singleton.mp member
    cases after
    exact .inr (isKeyed.added added).2

variable {drafts : List Draft} {rows : List ViewRow} {records gone : List Record}

theorem changes_before (e : Entity) (drafts : List Draft) (gone others : List Record) :
    (drafts.filterMap (·.stored) ++ gone ++ others).Perm
      ((drafts.flatMap (changes e) ++ gone.map RowChange.deletion).flatMap (·.before.toList) ++
        (drafts.flatMap untouched ++ others)) := by
  have parted := ((filterMap_stored e drafts).symm.append_right gone).append_right others
  rw [List.flatMap_append, RowChange.deletions_before]
  simp only [List.append_assoc] at parted ⊢
  exact parted.trans ((List.perm_append_comm_assoc ..).append_left _)

theorem changes_after (e : Entity) (drafts : List Draft) (gone others : List Record) :
    ((drafts.flatMap (changes e) ++ gone.map RowChange.deletion).flatMap (·.after.toList) ++
      (drafts.flatMap untouched ++ others)).Perm (others ++ drafts.map (record e)) := by
  rw [List.flatMap_append, RowChange.deletions_after, List.append_nil, ← List.append_assoc]
  exact ((map_record e drafts).append_right others).trans List.perm_append_comm

theorem changes_keepKeys (shown : List.Forall₂ (Shows e) drafts rows) (hasColumns : e.HasColumns)
    (isKeyed : ∀ d ∈ drafts, d.IsKeyed c e records) :
    ∀ change ∈ drafts.flatMap (changes e) ++ gone.map RowChange.deletion, change.KeepsKeys c e records := by
  intro change member
  rcases List.mem_append.mp member with ofDraft | ofRemoved
  · obtain ⟨d, isDraft, member⟩ := List.mem_flatMap.mp ofDraft
    obtain ⟨r, -, shows⟩ := exists_of_mem_left shown isDraft
    exact shows.keepsKeys hasColumns (isKeyed d isDraft) change member
  · obtain ⟨old, -, rfl⟩ := List.mem_map.mp ofRemoved
    rintro new ⟨⟩

end Draft

section Writing

variable {writes : List Write} {changes : List RowChange} {tableColumns : List String} {view : View} {strict : Bool}
  {context : Context}

theorem CompiledView.IsPlain.rootsStoredAlike (plain : v.IsPlain e) : v.RootsStoredAlike := by
  intro other member
  rw [roots, plain.single] at member
  rw [List.mem_singleton.mp member]
  exact ⟨rfl, rfl, rfl⟩

theorem CompiledView.IsPlain.hasMarks (plain : v.IsPlain e) (entity : e.HasPlainRows) :
    ∀ other ∈ v.roots, other.HasMarks := by
  intro other member
  rw [roots, plain.single, plain.root] at member
  rw [List.mem_singleton.mp member]
  exact ⟨fun d found => Option.isSome_of_eq_some (Attribute.column_of_scalar (entity.discriminator d found)),
    fun version found => by simp [entity.unversioned] at found⟩

theorem areCoherent_of_realise (plain : view.compiled.IsPlain e) (entity : e.HasPlainRows)
    (planned : view.writes strict context = .ok writes)
    (realise : List.Forall₂ (Write.Realises c e tableColumns) writes changes) : AreCoherent writes := by
  intro w member first inside shares
  obtain ⟨_, -, realises⟩ := exists_of_mem_left realise member
  obtain ⟨_, -, realisesBefore⟩ := exists_of_mem_left realise inside
  obtain ⟨origin, plans⟩ := View.writes_plans planned member
  obtain ⟨source, before⟩ := View.writes_plans planned inside
  have statement := plans.statement_shared plain.rootsStoredAlike (plain.hasMarks entity) before shares
  simp only [Write.execution, PlannedStatement.execution, PlannedStatement.ofWrite, realises.path,
    realises.optional, realisesBefore.path, realisesBefore.optional, statement]

/-- The plan of a view consists of one write for each change that its drafts ask for, and for each row taken out. -/
theorem View.plan_realises {drafts : List Draft} {records gone : List Record}
    (shown : List.Forall₂ (Draft.Shows e) drafts view.rows) (removed : List.Forall₂ (Row.Loads e) view.removed gone)
    (plain : view.compiled.IsPlain e) (named : view.compiled.Admits e) (entity : e.HasPlainRows)
    (known : ∀ a ∈ e.scalars, a.columnName ∈ tableColumns) (areKeyed : Record.AreKeyed c e records)
    (isKeyed : ∀ d ∈ drafts, d.IsKeyed c e records) (inside : ∀ old ∈ gone, old ∈ records) (settings : ViewSettings)
    (context : Context) :
    ∃ writes, (view.plan settings context).2 = .ok (WritePlan.ofWrites context.writeTime writes) ∧
      AreCoherent writes ∧ List.Forall₂ (Write.Realises c e tableColumns) writes
        (drafts.flatMap (Draft.changes e) ++ gone.map RowChange.deletion) := by
  obtain ⟨lists, planned, realise⟩ := rowWrites_realise shown plain named entity known areKeyed isKeyed
    settings.strictWriteBack context 0
  obtain ⟨removals, plannedRemovals, realiseRemovals⟩ := removalWrites_realise removed plain entity known areKeyed
    inside context 0
  have realise := List.rel_append realise realiseRemovals
  have written : view.writes settings.strictWriteBack context = .ok (lists.flatten ++ removals) :=
    bind_eq_ok.mpr ⟨lists, planned, bind_eq_ok.mpr ⟨removals, plannedRemovals, rfl⟩⟩
  have root : ∀ r ∈ view.rows, ∀ path ∈ r.changed, Path.node path = "" := by
    intro r member path changed
    obtain ⟨d, -, shows⟩ := exists_of_mem_left shown.flip member
    rw [Path.node, shows.splitProperty named changed]
  refine ⟨_, ?_, areCoherent_of_realise plain entity written realise, realise⟩
  simp only [View.plan, ViewRow.propagateAll_of_root root]
  exact congrArg (Except.map _) written

end Writing

/-- The rows of a view are written back as a caller has left them: what was taken out is deleted, what was set is
changed to the value set last, what was added is inserted, and all other rows stay as they are. -/
theorem edits_are_written_back {db : Database} {loaded : List (Row × Record)} {others : List Record}
    {edits : List RowEdit} {settings : ViewSettings} {context : Context} (plain : v.IsPlain e) (named : v.Admits e)
    (entity : e.HasPlainRows) (loads : ∀ entry ∈ loaded, entry.1.Loads e entry.2)
    (table : (db e.table).rows.Perm (loaded.map Prod.snd ++ others))
    (known : ∀ a ∈ e.scalars, a.columnName ∈ (db e.table).columns)
    (areKeyed : Record.AreKeyed c e (db e.table).rows)
    (permitted : Draft.PermitsAll e (Draft.ofLoaded loaded) edits)
    (fresh : ∀ d ∈ Draft.editAll (Draft.ofLoaded loaded) edits, d.HasFreshKey c e (db e.table).rows) :
    ∃ plan affected rows,
      (((View.ofRows v (loaded.map Prod.fst)).performAll edits).plan settings context).2 = .ok plan ∧
      Execution.runAll c plan.executions db =
        (.ok affected, Function.update db e.table { db e.table with rows }) ∧
      rows.Perm (others ++ (Draft.editAll (Draft.ofLoaded loaded) edits).map (Draft.record e)) := by
  have drafted := (View.isDrafted_ofRows v loads).performAll entity.properties named permitted
  have compiled : ((View.ofRows v (loaded.map Prod.fst)).performAll edits).compiled = v :=
    View.performAll_compiled edits
  generalize (View.ofRows v (loaded.map Prod.fst)).performAll edits = view at drafted compiled ⊢
  generalize Draft.editAll (Draft.ofLoaded loaded) edits = drafts at drafted fresh ⊢
  subst compiled
  obtain ⟨gone, removed, partition⟩ := drafted.removed
  have stored := partition.append_right others |>.trans table.symm
  have inside : ∀ old, old ∈ drafts.filterMap (·.stored) ∨ old ∈ gone → old ∈ (db e.table).rows := fun old member =>
    stored.mem_iff.mp (List.mem_append_left _ (List.mem_append.mpr member))
  have isKeyed : ∀ d ∈ drafts, d.IsKeyed c e (db e.table).rows := fun d member =>
    ⟨fun old isStored => inside old (.inl (List.mem_filterMap.mpr ⟨d, member, isStored⟩)), fresh d member⟩
  obtain ⟨writes, plan, coherent, realise⟩ := View.plan_realises drafted.rows removed plain named entity known areKeyed
    isKeyed (fun old member => inside old (.inr member)) settings context
  obtain ⟨affected, rows, ran, left⟩ := Execution.runAll_changes
    (PlannedStatement.executions_ofWrites coherent) (List.forall₂_map_left_iff.mpr (realise.imp fun _ _ realises =>
      realises.makes)) (Draft.changes_keepKeys drafted.rows entity.toHasColumns isKeyed) areKeyed.unlike rfl
    (stored.symm.trans (Draft.changes_before e drafts gone others))
  exact ⟨_, affected, rows, plan, ran, left.trans (Draft.changes_after e drafts gone others)⟩

namespace Stock

def itemColumn (property : String) (type : ColumnType) (primaryKey : Bool) : Attribute :=
  Outline.builtColumn "Item" property property type primaryKey

def lot : Entity where
  name := "Lot"
  table := "item"
  parent := some "Item"
  attributes := [itemColumn "id" .bigInt true, itemColumn "kind" .varchar false, itemColumn "name" .varchar false]
  discriminator := some ⟨itemColumn "kind" .varchar false, .text "lot"⟩
  version := none

def item (id : Int64) (kind name : String) : Record :=
  Record.missing.assign [("id", .int id), ("kind", .text kind), ("name", .text name)]

def database : Database := fun table =>
  if table = "item" then
    { columns := ["id", "kind", "name"]
      rows := [item 1 "lot" "a", item 2 "lot" "b", item 3 "lot" "c", item 4 "batch" "d"] }
  else ⟨[], []⟩

def readLot (id : Int64) (name : String) : Row × Record :=
  ([("id", .int id), ("kind", .text "lot"), ("name", .text name), ("rootKey", .int id)], item id "lot" name)

def lots : List (Row × Record) :=
  [readLot 1 "a", readLot 2 "b", readLot 3 "c"]

/-- The first lot is renamed twice and the second one taken out, upon which the third one has its number. Of two
lots that are added one stays. -/
def edits : List RowEdit := [
  .set 0 "name" (.text "x"), .append, .set 3 "id" (.int 7), .set 3 "name" (.text "y"), .remove 1,
  .set 1 "name" (.int 5), .append, .remove 3, .set 0 "name" (.text "z")]

theorem lot_hasPlainRows : lot.HasPlainRows where
  properties := by decide
  keys := by decide
  names := by decide +kernel
  unversioned := rfl
  discriminator := by
    rintro d ⟨⟩
    decide

set_option maxRecDepth 100000 in
theorem exists_lots : ∃ compiled, (outline ["Lot"]).view? = some compiled ∧ compiled.IsPlain lot ∧
    compiled.Admits lot := by
  have checked : ((outline ["Lot"]).view?.map fun compiled => compiled.root == lot &&
      compiled.otherRoots.isEmpty && compiled.joinPlan.entries.isEmpty && compiled.rootKeyAlias == "rootKey") = some true := by
    decide +kernel
  obtain ⟨compiled, found, checked⟩ := Option.map_eq_some_iff.mp checked
  simp only [Bool.and_eq_true, List.isEmpty_iff, beq_iff_eq] at checked
  obtain ⟨⟨⟨root, single⟩, unjoined⟩, rootKey⟩ := checked
  refine ⟨compiled, found, ⟨root, single, unjoined⟩, ?_⟩
  unfold CompiledView.Admits
  rw [rootKey]
  decide +kernel

theorem sameKey_iff_of_ids {a b : Record} {m n : Int64} (first : a "id" = .int m) (second : b "id" = .int n) :
    lot.sameKey .standard a b = true ↔ m = n := by
  have order : Value.standardOrder (.int m) (.int n) = .eq ↔ m = n := by
    rw [Value.standardOrder_eq_iff, Value.sortKey, Value.sortKey, SortKey.number.injEq]
    exact ⟨fun same => Int64.toInt_inj.mp (Int.eq_of_mul_eq_mul_right (Int.pow_ne_zero (by decide)) same), by rintro rfl; rfl⟩
  have single : lot.sameKey .standard a b = ((Collation.standard.equal (a "id") (b "id")).holds && true) := rfl
  rw [single, Bool.and_true, first, second, Collation.equal_holds_iff, ← order]
  exact ⟨fun equal => equal.2.2, fun equal => ⟨rfl, rfl, equal⟩⟩

theorem sameKey_of_ids {a b : Record} {m n : Int64} (first : a "id" = .int m) (second : b "id" = .int n)
    (different : m ≠ n) : lot.sameKey .standard a b = false :=
  Bool.eq_false_iff.mpr fun same => different ((sameKey_iff_of_ids first second).mp same)

theorem database_areKeyed : Record.AreKeyed .standard lot (database "item").rows where
  keyed := by
    rintro record (_ | ⟨_, _ | ⟨_, _ | ⟨_, _ | ⟨_, ⟨⟩⟩⟩⟩⟩) a (_ | ⟨_, ⟨⟩⟩) <;> exact ⟨rfl, rfl⟩
  unlike := by
    have unlike {m n : Int64} {kind other name text : String} (different : m ≠ n) :
        Record.Unlike .standard lot (item m kind name) (item n other text) :=
      ⟨sameKey_of_ids rfl rfl different, sameKey_of_ids rfl rfl different.symm⟩
    simp only [database, if_true, List.pairwise_cons, List.forall_mem_cons]
    simp [unlike]

theorem lots_load : ∀ entry ∈ lots, entry.1.Loads lot entry.2 := by
  rintro entry (_ | ⟨_, _ | ⟨_, _ | ⟨_, ⟨⟩⟩⟩⟩) <;>
    refine ⟨?_, rfl⟩ <;> rintro a (_ | ⟨_, ⟨⟩⟩) <;> exact ⟨_, rfl, rfl⟩

theorem edits_permitted : Draft.PermitsAll lot (Draft.ofLoaded lots) edits := by
  have name : itemColumn "name" .varchar false ∈ lot.scalars := by decide
  have id : itemColumn "id" .bigInt true ∈ lot.scalars := by decide
  refine ⟨⟨rfl, _, name, rfl, fun _ _ _ => rfl⟩, trivial, ⟨rfl, _, id, rfl, ?_⟩,
    ⟨rfl, _, name, rfl, fun _ _ _ => rfl⟩, trivial, ⟨rfl, _, name, rfl, fun _ _ _ => rfl⟩, trivial, trivial,
    ⟨rfl, _, name, rfl, fun _ _ _ => rfl⟩, trivial⟩
  -- The row with the number 3 is the one that has been added.
  rintro d ⟨⟩ stored
  contradiction

theorem lots_fresh : ∀ d ∈ Draft.editAll (Draft.ofLoaded lots) edits,
    d.HasFreshKey .standard lot (database "item").rows := by
  rintro d (_ | ⟨_, _ | ⟨_, _ | ⟨_, ⟨⟩⟩⟩⟩) added
  · contradiction
  · contradiction
  · refine ⟨⟨itemColumn "id" .bigInt true, by decide, rfl⟩, ?_⟩
    rintro record (_ | ⟨_, _ | ⟨_, _ | ⟨_, _ | ⟨_, ⟨⟩⟩⟩⟩⟩) <;> exact sameKey_of_ids rfl rfl (by decide)

set_option maxRecDepth 100000 in
/-- The lots that are left are stored with the names set last, and the one that is added with the kind of lots. -/
theorem edited_lots_are_stored : ∃ compiled plan affected rows, (outline ["Lot"]).view? = some compiled ∧
    (((View.ofRows compiled (lots.map Prod.fst)).performAll edits).plan {} Sample.context).2 = .ok plan ∧
    Execution.runAll .standard plan.executions database =
      (.ok affected, Function.update database "item" { database "item" with rows }) ∧
    (rows.map fun record => (record "id", record "kind", record "name")).Perm [
      (.int 4, .text "batch", .text "d"), (.int 1, .text "lot", .text "z"), (.int 3, .text "lot", .text "5"),
      (.int 7, .text "lot", .text "y")] := by
  obtain ⟨compiled, found, plain, named⟩ := exists_lots
  obtain ⟨plan, affected, rows, planned, ran, same⟩ := @edits_are_written_back compiled lot .standard database lots
    [item 4 "batch" "d"] edits {} Sample.context plain named lot_hasPlainRows lots_load
    (.refl _) (by decide) database_areKeyed edits_permitted lots_fresh
  exact ⟨compiled, plan, affected, rows, found, planned, ran, (same.map _).trans (.of_eq rfl)⟩

end Stock

namespace Tariff

open Outline (column builtColumn entity)

def outline : Outline where
  definitions := [entity "Tariff" "tariff" [column "id" "id" .bigInt true, column "price.net" "price" .bigInt false]]
  roots := ["Tariff"]

def price : Attribute :=
  builtColumn "Tariff" "price.net" "price" .bigInt false

def tariff : Entity where
  name := "Tariff"
  table := "tariff"
  parent := none
  attributes := [builtColumn "Tariff" "id" "id" .bigInt true, price]
  discriminator := none
  version := none

def stored : Record :=
  Record.missing.assign [("id", .int 1), ("price", .int 10)]

def database : Database := fun table =>
  if table = "tariff" then ⟨["id", "price"], [stored]⟩ else ⟨[], []⟩

def loaded : List (Row × Record) :=
  [([("id", .int 1), ("price.net", .int 10), ("rootKey", .int 1)], stored)]

def edits : List RowEdit :=
  [.set 0 "price.net" (.int 20)]

set_option maxRecDepth 100000 in
/-- The new price of a tariff is taken by the view, but no statement writes it: its name leads to a node that is
not there. -/
theorem dotted_edit_is_not_written : ∃ compiled plan, outline.view? = some compiled ∧ compiled.IsPlain tariff ∧
    (∀ a ∈ tariff.scalars, a.property ≠ newRowMark ∧ a.property ≠ compiled.rootKeyAlias) ∧ tariff.HasPlainRows ∧
    (∀ entry ∈ loaded, entry.1.Loads tariff entry.2) ∧ (database "tariff").rows = loaded.map Prod.snd ∧
    Record.AreKeyed .standard tariff (database "tariff").rows ∧
    Draft.PermitsAll tariff (Draft.ofLoaded loaded) edits ∧
    ((View.ofRows compiled (loaded.map Prod.fst)).setValue (.int 20) 0 "price.net").2 = .ok () ∧
    (((View.ofRows compiled (loaded.map Prod.fst)).performAll edits).plan {} Sample.context).2 = .ok plan ∧
    Execution.runAll .standard plan.executions database = (.ok 0, database) ∧
    ¬ (database "tariff").rows.Perm ((Draft.editAll (Draft.ofLoaded loaded) edits).map (Draft.record tariff)) := by
  have checked : (outline.view?.map fun compiled => compiled.root == tariff && compiled.otherRoots.isEmpty &&
      compiled.joinPlan.entries.isEmpty && compiled.rootKeyAlias == "rootKey" &&
      ((View.ofRows compiled (loaded.map Prod.fst)).setValue (.int 20) 0 "price.net").2.isOk &&
      (((View.ofRows compiled (loaded.map Prod.fst)).performAll edits).plan {} Sample.context).2.toOption.any
        (·.statements.isEmpty)) = some true := by
    decide +kernel
  obtain ⟨compiled, found, checked⟩ := Option.map_eq_some_iff.mp checked
  simp only [Bool.and_eq_true, List.isEmpty_iff, beq_iff_eq, Option.any_eq_true] at checked
  obtain ⟨⟨⟨⟨⟨root, single⟩, unjoined⟩, rootKey⟩, set⟩, plan, succeeded, nothing⟩ := checked
  refine ⟨compiled, plan, found, ⟨root, single, unjoined⟩, rootKey ▸ by decide, ?_, ?_, rfl, ?_, ?_,
    eq_ok_of_isOk set, eq_ok_of_toOption succeeded, ?_, ?_⟩
  · exact ⟨⟨by decide, by decide, by decide +kernel⟩, rfl, by rintro d ⟨⟩⟩
  · rintro entry (_ | ⟨_, ⟨⟩⟩)
    refine ⟨?_, rfl⟩
    rintro a (_ | ⟨_, ⟨⟩⟩)
    exact ⟨_, rfl, rfl⟩
  · refine ⟨?_, List.pairwise_singleton ..⟩
    rintro record (_ | ⟨_, ⟨⟩⟩) a (_ | ⟨_, ⟨⟩⟩)
    exact ⟨rfl, rfl⟩
  · exact ⟨⟨rfl, price, by decide, rfl, fun _ _ _ => rfl⟩, trivial⟩
  · rw [WritePlan.executions, nothing]
    rfl
  · intro same
    have priced : Value.int 10 = Value.int 20 := congrFun (List.singleton_perm_singleton.mp same) "price"
    exact absurd (Value.int.inj priced) (by decide)

end Tariff

end ViewEngine
