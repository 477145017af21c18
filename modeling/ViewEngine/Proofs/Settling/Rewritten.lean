import ViewEngine.Proofs.Settling.Undisturbed

/-!
Views that are flushed, edited and planned again. The version that the flush has opened of a node is the one that is
ended then: both statements for the node name it by the time of the flush.
-/

namespace ViewEngine

open Compile JoinPlan Planning

theorem Path.eq_empty_of_nodePlace {node : String} (placed : nodePlace? node = some []) : node = "" := by
  unfold nodePlace? at placed
  split at placed
  next root => exact String.isEmpty_iff.mp root
  next =>
    obtain ⟨steps, parsed, none⟩ := Option.map_eq_some_iff.mp placed
    obtain ⟨-, each⟩ := parts_of_read (eq_ok_of_toOption parsed)
    rw [← names_flatMap, none] at each
    exact absurd (List.forall₂_nil_right_iff.mp each) (Text.split_ne_nil '.' node)

theorem Place.spares_timestamp {changed place : Place} (aside : ¬ changed <+: place) (now : Timestamp) :
    changed.Spares place (.timestamp now) :=
  ⟨aside, nofun⟩

/-- The storage keys of a node with versions are its identity and the start of its version. -/
theorem Planning.keyValues_dated {e : Entity} {version : VersionColumns} {data : Row} {path : String} {row : Nat}
    {keys : List (Attribute × Value)} (keyed : keyValues e data path row = .ok keys)
    (dated : e.version = some version) : ∃ ids value, keys = ids ++ [(version.opening, value)] ∧
      ids.map Prod.fst = e.identityKeys ∧ data.get? version.opening.property = some value := by
  obtain ⟨attributes, held⟩ := keyValues_held keyed
  rw [Entity.storageKeys, dated, Option.map_some, Option.toList_some] at attributes
  obtain ⟨ids, rest, rfl, identity, last⟩ := List.map_eq_append_iff.mp attributes
  obtain ⟨⟨a, value⟩, rfl, same⟩ := List.map_eq_singleton_iff.mp last
  dsimp only at same
  subst same
  exact ⟨ids, value, rfl, identity, held _ (List.mem_append_right _ (List.mem_singleton_self _))⟩

/-- A plan ends the version of a node that the keys name, and starts the next one. -/
def WritePlan.Replaces (plan : WritePlan) (now : Timestamp) (e : Entity) (version : VersionColumns) (row : Nat)
    (node : String) (keys : List (Attribute × Value)) : Prop :=
  ∃ opening closing data columns, version.opening.column = some opening ∧ version.closing.column = some closing ∧
    .ofWrite (closeWrite e closing (Path.withoutPositions node) now keys) ∈ plan.statements ∧
    .ofWrite (successorWrite e opening version.opening.property (Path.withoutPositions node) row node now data columns
      keys) ∈ plan.statements

namespace View

variable {v : View} {row : Nat} {path : String} {value : Value} {slot : Slot} {edits : List Edit}
  {settings : ViewSettings} {context : Context}

def Records (v : View) (slot : Slot) : Prop :=
  ∃ r, v.rows[slot.row]? = some r ∧ Path.child slot.node slot.property ∈ r.changed

theorem Records.setValue (records : v.Records slot) : (v.setValue value row path).1.Records slot := by
  obtain ⟨r, standing, changed⟩ := records
  unfold View.setValue
  split
  · exact ⟨r, standing, changed⟩
  next number resolved found =>
    split
    · exact ⟨r, standing, changed⟩
    next other there =>
      simp only
      split
      · exact ⟨r, standing, changed⟩
      · by_cases same : number = slot.row
        · subst same
          cases standing.symm.trans there
          obtain ⟨inside, -⟩ := List.getElem?_eq_some_iff.mp standing
          exact ⟨_, List.getElem?_set_self inside, ViewRow.assign_changed changed⟩
        · exact ⟨r, (List.getElem?_set_ne same).trans standing, changed⟩

theorem Records.edited (records : v.Records slot) : (v.edited edits).Records slot := by
  induction edits generalizing v with
  | nil => exact records
  | cons edit rest ih => exact ih records.setValue

theorem Records.plan (records : v.Records slot) : (v.plan settings context).1.Records slot := by
  obtain ⟨r, standing, changed⟩ := records
  obtain ⟨after, there, same⟩ := plan_getElem? settings context standing
  refine ⟨after, there, ?_⟩
  rcases same with rfl | rfl
  · exact changed
  · exact ViewRow.changed_propagate changed

theorem exists_replaces {plan : WritePlan} {r : ViewRow} {e : Entity} {a : Attribute} {version : VersionColumns}
    {data : Row}
    (planned : (v.plan settings context).2 = .ok plan) (slow : context.fastUpdate = false)
    (records : (v.plan settings context).1.Records slot) (whole : '.' ∉ slot.property.toList)
    (standing : (v.plan settings context).1.rows[slot.row]? = some r) (stored : r.isNew = false)
    (entity : (v.plan settings context).1.compiled.entityAt? r.data (Path.withoutPositions slot.node) = some e)
    (built : e.IsBuilt) (dated : e.version = some version) (found : e.property? slot.property = some a)
    (writable : e.isWritable a = true) (there : r.data.nodeAt slot.node = .ok (some data)) :
    ∃ keys, keyValues e data (Path.withoutPositions slot.node) slot.row = .ok keys ∧
      plan.Replaces context.writeTime e version slot.row slot.node keys := by
  obtain ⟨other, again, changed⟩ := records
  cases standing.symm.trans again
  have split := Path.splitProperty_child slot.node whole
  have isNode : Path.node (Path.child slot.node slot.property) = slot.node := congrArg Prod.fst split
  have isProperty : Path.property (Path.child slot.node slot.property) = slot.property := congrArg Prod.snd split
  have inside : a ∈ e.attributes := List.mem_of_find?_eq_some found
  have property : a.property = slot.property := by simpa using List.find?_some found
  have among : a.property ∈ r.changedAt slot.node := by
    refine Names.mem_ofList.mpr (List.mem_map.mpr ⟨_, List.mem_filter.mpr ⟨changed, ?_⟩, isProperty.trans property.symm⟩)
    exact beq_iff_eq.mpr isNode
  obtain ⟨writes, written, rfl⟩ := plan_writes planned
  obtain ⟨ofNode, planned, each⟩ := plans_of_changed written standing stored
    (List.mem_map.mpr ⟨_, changed, isNode⟩)
  cases nodeWrites_plans planned with
  | unresolved none => cases entity.symm.trans none
  | absent missing => cases there.symm.trans missing
  | unchanged again nothing =>
      cases entity.symm.trans again
      exact absurd (mem_changedColumns built areWritten_nil inside writable (.inr among) nothing) List.not_mem_nil
  | stored again standing found keyed stores =>
      cases entity.symm.trans again
      cases there.symm.trans standing
      refine ⟨_, keyed, ?_⟩
      cases stores with
      | update inPlace => simp [dated, slow] at inPlace
      | version declared slow opens closes =>
          cases dated.symm.trans declared
          exact ⟨_, _, _, _, opens, closes,
            PlannedStatement.ofWrite_mem (each _ (List.mem_cons_self ..)).1 rfl,
            PlannedStatement.ofWrite_mem (each _ (List.mem_cons_of_mem _ (List.mem_singleton_self _))).1 rfl⟩

def SetsColumns (v later : View) (edits : List Edit) : Prop :=
  ∀ edit ∈ edits, ∀ changed, v.slot? edit.row edit.path = some changed → later.CanSet changed

/-- Values are set in columns that can be written, as the view is when it is planned; one of them in the slot of a
stored node that has versions. -/
structure IsRewritten (v planned : View) (edits : List Edit) (slot : Slot) (e : Entity) (version : VersionColumns) :
    Prop where
  columns : v.SetsColumns planned edits
  sets : ∃ before edit after, edits = before ++ edit :: after ∧ v.slot? edit.row edit.path = some slot ∧
    ((v.edited before).setValue edit.value edit.row edit.path).2 = .ok ()
  stored : ∃ r, planned.rows[slot.row]? = some r ∧ r.isNew = false ∧
    planned.compiled.entityAt? r.data (Path.withoutPositions slot.node) = some e
  dated : e.version = some version

theorem IsRewritten.records {planned : View} {e : Entity} {version : VersionColumns}
    (rewritten : v.IsRewritten planned edits slot e version) : (v.edited edits).Records slot := by
  obtain ⟨before, edit, after, rfl, named, set⟩ := rewritten.sets
  obtain ⟨_, r, again, standing, -, changed⟩ := records_setValue set
  rw [slot?_congr (edited_compiled _) (edited_length _), named] at again
  cases again
  rw [edited_split]
  exact Records.edited ⟨r, standing, changed⟩

theorem IsRewritten.exists_edit {planned : View} {e : Entity} {version : VersionColumns}
    (rewritten : v.IsRewritten planned edits slot e version) :
    ∃ edit ∈ edits, v.slot? edit.row edit.path = some slot := by
  obtain ⟨before, edit, after, rfl, isSlot, -⟩ := rewritten.sets
  exact ⟨edit, List.mem_append_right _ (List.mem_cons_self ..), isSlot⟩

section Ways

variable {setting : Setting} {roots : List Entity} {w later : View} {r : ViewRow} {e : Entity}
  {version opened : VersionColumns} {front : Place} {now : Timestamp} {node : String}

theorem plan_compiled : (v.plan settings context).1.compiled = v.compiled := by
  rw [plan_view]

theorem SetsColumns.exists_column (columns : v.SetsColumns later edits)
    (set : ∃ edit ∈ edits, v.slot? edit.row edit.path = some slot) (standing : later.rows[slot.row]? = some r)
    (entity : later.compiled.entityAt? r.data (Path.withoutPositions slot.node) = some e)
    (named : setting.IsNamed roots) (built : later.compiled.joinPlan.IsBuilt setting roots)
    (sameRoots : later.compiled.roots = roots) :
    ∃ front a, Path.nodePlace? slot.node = some front ∧ (∀ name ∈ front.names, IsName name) ∧
      front.names = Path.properties (Path.withoutPositions slot.node) ∧ e.property? slot.property = some a ∧
      e.isWritable a = true := by
  obtain ⟨edit, member, isSlot⟩ := set
  obtain ⟨r', front, above, other, a, standing', placed, names, entity', found, writable⟩ :=
    columns edit member slot isSlot
  cases standing.symm.trans standing'
  obtain ⟨way, es, table, leads, -⟩ := leads_of_entityAt? built sameRoots entity'
  have isName := leads.isName_of_nodePlace named built placed (names ▸ List.Subset.refl _)
  have through := Path.properties_of_nodePlace placed isName
  rw [Path.eq_of_properties (through.trans names)] at entity ⊢
  cases entity.symm.trans entity'
  exact ⟨front, a, placed, isName, names, found, writable⟩

section Opening

variable {path : String} (columns : v.SetsColumns later edits) (standing : later.rows[row]? = some r)
  (compiled : later.compiled = v.compiled) (entity : v.compiled.entityAt? r.data path = some e)
  (dated : e.version = some version) (named : setting.IsNamed roots)
  (built : v.compiled.joinPlan.IsBuilt setting roots) (sameRoots : v.compiled.roots = roots)
  (isNode : front.names = Path.properties path)
  (holds : v.Holds ⟨row, node, version.opening.property, front ++ [.property version.opening.property]⟩
    (.timestamp now))
include columns standing compiled entity dated named built sameRoots isNode holds

/-- The start of a version stays as it is, whatever columns are set that can be written. -/
theorem SetsColumns.holds_edited : (v.edited edits).Holds
    ⟨row, node, version.opening.property, front ++ [.property version.opening.property]⟩ (.timestamp now) := by
  refine holds_edited_of_spared holds fun edit member changed isChanged sameRow => ?_
  obtain ⟨-, -, -, -, -, placed⟩ := slot?_eq_some isChanged
  exact Place.spares_timestamp ((columns edit member changed isChanged).not_onWay named (compiled ▸ built)
    (compiled ▸ sameRoots) placed (sameRow ▸ standing) (compiled ▸ entity) dated isNode) now

theorem SetsColumns.holds_plan (unjoined : setting.VersionsUnjoined roots) (isName : ∀ name ∈ front.names, IsName name) :
    ((v.edited edits).plan settings context).1.Holds
      ⟨row, node, version.opening.property, front ++ [.property version.opening.property]⟩ (.timestamp now) := by
  refine holds_plan_of_spared (columns.holds_edited standing compiled entity dated named built sameRoots isNode holds)
    fun other _ place receives => ?_
  rw [edited_compiled] at receives
  obtain ⟨way, es, table, leads, member⟩ := leads_of_entityAt? built sameRoots entity
  exact Place.spares_timestamp (leads.receivers_aside_opening named built unjoined member dated isNode isName other
    place receives) now

end Opening

/-- A node for which a version is inserted holds the time of the flush, when the view is settled. -/
theorem Opens.holds_reconcile {plan : WritePlan} {path : String} {data : Row}
    (opens : (v.plan settings context).1.Opens settings.strictWriteBack context row node version)
    (planned : (v.plan settings context).2 = .ok plan) (named : setting.IsNamed roots)
    (built : v.compiled.joinPlan.IsBuilt setting roots) (sameRoots : v.compiled.roots = roots)
    (placed : Path.nodePlace? node = some front) (isNode : front.names = Path.properties path)
    (entity : v.compiled.entityAt? data path = some e)
    (unmarked : front = [] → version.opening.property ≠ newRowMark) :
    ((v.plan settings context).1.reconcile now plan.reopened).Holds
      ⟨row, node, version.opening.property, front ++ [.property version.opening.property]⟩ (.timestamp now) := by
  obtain ⟨_, _, place, -, -, -, isPlace, has, stored⟩ := opens.exists_node
  cases placed.symm.trans isPlace
  obtain ⟨way, es, table, leads, -⟩ := leads_of_entityAt? built sameRoots entity
  rw [← @plan_compiled v settings context] at leads built sameRoots
  refine View.holds_reconcile has placed ((mem_reopened_iff planned).mpr ⟨version, rfl, opens⟩)
    (fun next member => ?_) ?_
  · obtain ⟨other, opening, opens⟩ := (mem_reopened_iff planned).mp member
    exact opens.aside named built sameRoots leads isNode opening
  · cases front with
    | nil =>
        intro marked
        exact unmarked rfl (PlaceStep.property.inj (Option.some.inj marked))
    | cons step rest => exact stored

/-- A node for which a version is inserted still holds the time of the flush when the view, of which columns have been
set since that can be written, is planned again. -/
theorem Opens.holds_again {plan : WritePlan} {again : ViewSettings} {next : Context}
    (opens : (v.plan settings context).1.Opens settings.strictWriteBack context slot.row node opened)
    (planned : (v.plan settings context).2 = .ok plan) (named : setting.IsNamed roots)
    (unjoined : setting.VersionsUnjoined roots) (built : v.compiled.joinPlan.IsBuilt setting roots)
    (sameRoots : v.compiled.roots = roots)
    (settled : (v.plan settings context).1.reconcile context.writeTime plan.reopened = w)
    (columns : w.SetsColumns ((w.edited edits).plan again next).1 edits)
    (set : ∃ edit ∈ edits, w.slot? edit.row edit.path = some slot)
    (standing : ((w.edited edits).plan again next).1.rows[slot.row]? = some r)
    (entity : v.compiled.entityAt? r.data (Path.withoutPositions slot.node) = some e)
    (dated : e.version = some version) (sameNode : Path.nodePlace? slot.node = Path.nodePlace? node)
    (sameOpening : version.opening.property = opened.opening.property)
    (unmarked : slot.node = "" → version.opening.property ≠ newRowMark) :
    ∃ data, r.data.nodeAt slot.node = .ok (some data) ∧
      data.get? version.opening.property = some (.timestamp context.writeTime) := by
  have compiled : w.compiled = v.compiled := by
    rw [← settled]
    exact plan_compiled
  have compiledAgain : ((w.edited edits).plan again next).1.compiled = w.compiled :=
    plan_compiled.trans (edited_compiled _)
  rw [← compiled] at entity
  obtain ⟨front, a, placed, isName, isNode, -⟩ := columns.exists_column set standing (compiledAgain ▸ entity) named
    (compiledAgain ▸ compiled ▸ built) (compiledAgain ▸ compiled ▸ sameRoots)
  have holds : w.Holds ⟨slot.row, node, version.opening.property,
      front ++ [.property version.opening.property]⟩ (.timestamp context.writeTime) := by
    rw [← settled, sameOpening]
    refine opens.holds_reconcile planned named built sameRoots (sameNode ▸ placed) isNode (compiled ▸ entity) ?_
    rintro rfl
    exact sameOpening ▸ unmarked (Path.eq_empty_of_nodePlace placed)
  obtain ⟨_, there, stands⟩ : ((w.edited edits).plan again next).1.Holds _ _ :=
    columns.holds_plan standing compiledAgain entity dated named (compiled ▸ built) (compiled ▸ sameRoots) isNode holds
      unjoined isName
  cases standing.symm.trans there
  have isPlace : Path.place? slot.node version.opening.property =
      some (front ++ [.property version.opening.property]) := by
    rw [Path.place?_eq, placed]
    rfl
  exact Row.nodeAt_of_stands isPlace stands

end Ways

end View

/-- A flush settles a view: nothing is left to be written. When it has been edited again, the version of a node that
the flush has opened is ended, and copied into the next one, by the time of the flush. -/
theorem flush_settles_view {σ : Type} {x : Executor σ} {registry : Registry} {compileSettings settings : ViewSettings}
    {dialect : Sql.Dialect} {pointInTime : Option Timestamp} {page : Page} {t : FilterTree} {v settled : View}
    {context : Context} {state after : σ} {affected : UInt64}
    (named : Setting.IsNamed ⟨registry, pointInTime⟩ t.roots)
    (unjoined : Setting.VersionsUnjoined ⟨registry, pointInTime⟩ t.roots)
    (compiled : compile registry compileSettings dialect pointInTime page t = .ok v.compiled) (ordered : v.IsOrdered)
    (flushed : x.flush settings context v state = (.ok affected, settled, after)) :
    settled.isDirty = false ∧ (∀ r ∈ settled.rows, r.isNew = false) ∧
      (∀ settings next, settled.plan settings next = (settled, .ok ⟨[], next.writeTime, []⟩)) ∧
      ∀ node opened edits slot e version settings' next plan,
        (v.plan settings context).1.Opens settings.strictWriteBack context slot.row node opened →
        settled.IsRewritten ((settled.edited edits).plan settings' next).1 edits slot e version →
        Path.nodePlace? slot.node = Path.nodePlace? node → version.opening.property = opened.opening.property →
        next.fastUpdate = false →
        ((settled.edited edits).plan settings' next).2 = .ok plan →
        ∃ ids, ids.map Prod.fst = e.identityKeys ∧ plan.Replaces next.writeTime e version slot.row slot.node
          (ids ++ [(version.opening, .timestamp context.writeTime)]) := by
  obtain ⟨first, firstPlanned, rfl⟩ := Executor.flush_eq_ok flushed
  have isSettled := ((v.plan settings context).1.isReconciled context.writeTime first.reopened).settled ordered.plan
  refine ⟨isSettled.isDirty, isSettled.stored, isSettled.plan_eq, ?_⟩
  intro node opened edits slot e version settings' next plan opens rewritten sameNode sameOpening slow planned
  obtain ⟨built, sameRoots, -⟩ := compile_made named.addressable compiled
  generalize settled : (v.plan settings context).1.reconcile context.writeTime first.reopened = w at rewritten planned
  have compiledAgain : ((w.edited edits).plan settings' next).1.compiled = v.compiled := by
    rw [← settled]
    exact View.plan_compiled.trans ((View.edited_compiled _).trans View.plan_compiled)
  obtain ⟨r, standing, stored, entity⟩ := rewritten.stored
  obtain ⟨front, a, -, -, -, found, writable⟩ := rewritten.columns.exists_column rewritten.exists_edit standing entity
    named (compiledAgain ▸ built) (compiledAgain ▸ sameRoots)
  rw [compiledAgain] at entity
  have known : e.IsBuilt := by
    obtain ⟨way, es, table, leads, member⟩ := leads_of_entityAt? built sameRoots entity
    exact named.built e (leads.known built e member)
  have whole : '.' ∉ slot.property.toList := by
    obtain ⟨edit, -, isSlot⟩ := rewritten.exists_edit
    obtain ⟨resolved, -, -, isProperty, -⟩ := View.slot?_eq_some isSlot
    exact isProperty ▸ (Path.splitProperty_cases resolved).1
  have replaced {data : Row} (there : r.data.nodeAt slot.node = .ok (some data)) :=
    View.exists_replaces planned slow rewritten.records.plan whole standing stored (compiledAgain ▸ entity) known
      rewritten.dated found writable there
  -- The start of a version cannot stand under the mark of new rows, or the row would still be new.
  have unmarked : slot.node = "" → version.opening.property ≠ newRowMark := by
    intro root marked
    obtain ⟨keys, keyed, -⟩ := replaced (root ▸ rfl : r.data.nodeAt slot.node = .ok (some r.data))
    obtain ⟨-, value, -, -, held⟩ := keyValues_dated keyed rewritten.dated
    rw [marked] at held
    rw [ViewRow.isNew, Keyed.contains, held] at stored
    contradiction
  obtain ⟨data, there, held⟩ := opens.holds_again firstPlanned named unjoined built sameRoots settled rewritten.columns
    rewritten.exists_edit standing entity rewritten.dated sameNode sameOpening unmarked
  obtain ⟨keys, keyed, replaces⟩ := replaced there
  obtain ⟨ids, value, rfl, identity, isValue⟩ := keyValues_dated keyed rewritten.dated
  cases isValue.symm.trans held
  exact ⟨ids, identity, replaces⟩

structure Revision extends Fetch where
  again : List Edit

namespace Revision

open Sample (context)
open Outline (column association entity kind asks compiled_eq)

def obliging : Executor Unit where
  dialect := .sqlite
  query _ state := (.ok [], state)
  prepare _ state := (.ok 0, state)
  execute _ _ state := (.ok 1, state)
  release _ state := state

theorem validNextYear : ValidDate 2021 1 1 := by
  decide

theorem validLastYear : ValidDate 2019 1 1 := by
  decide

theorem validMidnight : ValidTime 0 0 0 0 := by
  decide

def later : Context where
  clock := ⟨2021, 1, 1, 0, 0, 0, 0, validNextYear, validMidnight⟩

def lastYear : Value :=
  .timestamp ⟨2019, 1, 1, 0, 0, 0, 0, validLastYear, validMidnight⟩

def start (f : Revision) (v : CompiledView) : View :=
  ((f.view v).setValue f.value 0 f.path).1

def settles (f : Revision) (v : CompiledView) (check : View → Bool) : Bool :=
  match obliging.flush {} context (f.start v) () with
  | (.ok _, settled, _) => check settled
  | _ => false

theorem flush_of_settles {f : Revision} {v : CompiledView} {check : View → Bool} (checked : f.settles v check = true) :
    ∃ affected settled, obliging.flush {} context (f.start v) () = (.ok affected, settled, ()) ∧
      check settled = true := by
  unfold settles at checked
  split at checked
  next affected settled _ flushed => exact ⟨affected, settled, flushed, checked⟩
  next => contradiction

/-- A check of the version that is inserted for a node of the first row. -/
def opens (w : View) (node : String) (check : VersionColumns → Bool) : Bool :=
  w.rows[0]?.any fun r => !r.isNew && (r.changed.map Path.node).contains node &&
    (nodeWrites w.compiled false context 0 r node).toOption.any (·.any (·.statement.kind == .insert)) &&
    (r.data.nodeAt node).toOption.any (·.isSome) &&
    (w.compiled.entityAt? r.data (Path.withoutPositions node)).any fun e => e.version.any check

theorem opens_of_check {w : View} {node : String} {check : VersionColumns → Bool} (checked : opens w node check = true) :
    ∃ version, w.Opens false context 0 node version ∧ check version = true := by
  simp only [opens, Bool.and_eq_true, Option.any_eq_true, Bool.not_eq_true', List.any_eq_true, beq_iff_eq,
    List.contains_iff_mem, Option.isSome_iff_exists] at checked
  obtain ⟨r, standing, ⟨⟨⟨stored, changed⟩, writes, planned, w', member, inserts⟩, found, there, data, rfl⟩, e, entity,
    version, dated, holds⟩ := checked
  exact ⟨version, ⟨w', .node 0 node, e, data, ⟨r, writes, standing, stored, changed, eq_ok_of_toOption planned, member⟩,
    rfl, inserts, ⟨r, standing, eq_ok_of_toOption there, entity⟩, dated⟩, holds⟩

/-- Whether no association is joined by a column that has the property with which some versions start. -/
def isUnjoined (registry : Registry) (roots : List Entity) : Bool :=
  (roots ++ registry.all).all fun owner => owner.attributes.all fun a => a.joinColumns.all fun pair =>
    ((roots ++ registry.all).all fun e => e.version.all fun version =>
      (owner.column? pair.source).all (·.property != version.opening.property)) &&
    (registry.targetOf a).toOption.all fun e => e.version.all fun version =>
      (e.column? pair.target).all (·.property != version.opening.property)

theorem unjoined_of_check {registry : Registry} {roots : List Entity} (checked : isUnjoined registry roots = true) :
    Setting.VersionsUnjoined ⟨registry, none⟩ roots := by
  simp only [isUnjoined, List.all_eq_true, Bool.and_eq_true, Option.all_eq_true, bne_iff_ne] at checked
  constructor
  · intro e known version dated owner alike a member pair joins b found
    have known' : owner ∈ roots ++ registry.all := by
      rcases alike with rfl | ⟨-, isRoot⟩
      · exact known
      · exact List.mem_append_left _ isRoot
    exact (checked owner known' a member pair joins).1 e known version dated b found
  · intro owner known a member e found version dated pair joins b held
    refine (checked owner known a member pair joins).2 e ?_ version dated b held
    rw [found]
    rfl

def canSet (w : View) (slot : Slot) : Bool :=
  w.rows[slot.row]?.any fun r => (Path.nodePlace? slot.node).any fun front =>
    front.names == Path.properties (Path.withoutPositions slot.node) &&
      (w.compiled.entityAt? r.data (Path.withoutPositions slot.node)).any fun e =>
        (e.property? slot.property).any (e.isWritable ·)

theorem canSet_of_check {w : View} {slot : Slot} (checked : canSet w slot = true) : w.CanSet slot := by
  simp only [canSet, Option.any_eq_true, Bool.and_eq_true, beq_iff_eq] at checked
  obtain ⟨r, standing, front, placed, names, e, entity, a, found, writable⟩ := checked
  exact ⟨r, front, _, e, a, standing, placed, names, entity, found, writable⟩

def dated (name table : String) (attributes : List AttributeDefinition) : EntityDefinition :=
  { name := name, table := some table, parent := none, discriminator := none, version := some ("validFrom", "validTo")
    attributes := column "id" "id" .bigInt true :: attributes ++
      [column "validFrom" "valid_from" .timestamp false, column "validTo" "valid_to" .timestamp false] }

def lines : Revision where
  definitions := [
    entity "Order" "orders" [column "id" "id" .bigInt true, association "lines" "Line" "line" "id" "order_id" true],
    dated "Line" "line" [column "order" "order_id" .bigInt false, column "title" "title" .varchar false]]
  roots := ["Order"]
  chains := [asks "Order" ["lines", "title"], asks "Order" ["lines", "validFrom"]]
  row := [("id", .int 1), ("lines", .list [
    .row [("id", .int 5), ("order", .int 1), ("title", .text "a"), ("validFrom", lastYear)],
    .row [("id", .int 6), ("order", .int 1), ("title", .text "b"), ("validFrom", lastYear)]]), ("rootKey", .int 1)]
  path := "lines[1].title"
  value := .text "c"
  again := [⟨.text "d", 0, "lines[0].title"⟩, ⟨.text "e", 0, "lines[1].title"⟩]

def isRevised (v : CompiledView) (settled : View) : Bool :=
  let planned := (settled.edited lines.again).plan {} later
  lines.again.all (fun edit => (settled.slot? edit.row edit.path).all (canSet planned.1)) &&
    ((settled.edited [⟨.text "d", 0, "lines[0].title"⟩]).setValue (.text "e") 0 "lines[1].title").2.isOk &&
    (settled.slot? 0 "lines[1].title").any (fun slot => slot.row == 0 && slot.node == "lines[1]") &&
    planned.2.isOk && opens ((lines.start v).plan {} context).1 "lines[1]" fun opened =>
      planned.1.rows[0]?.any fun r => !r.isNew && (planned.1.compiled.entityAt? r.data "lines").any fun e =>
        e.version.any (·.opening.property == opened.opening.property)

set_option maxRecDepth 100000 in
/-- The second line is ended by the time at which its first new title was stored. -/
theorem second_line_is_replaced : ∃ registry t v affected settled slot e version plan ids,
    lines.compiled? = some (registry, t, v) ∧ (lines.start v).IsOrdered ∧
    obliging.flush {} context (lines.start v) () = (.ok affected, settled, ()) ∧ settled.isDirty = false ∧
    settled.IsRewritten ((settled.edited lines.again).plan {} later).1 lines.again slot e version ∧
    ((settled.edited lines.again).plan {} later).2 = .ok plan ∧ ids.map Prod.fst = e.identityKeys ∧
    plan.Replaces later.writeTime e version slot.row slot.node
      (ids ++ [(version.opening, .timestamp context.writeTime)]) := by
  have checked : (lines.compiled?.any fun c => Fetch.isNamed c.1 c.2.1.roots && isUnjoined c.1 c.2.1.roots &&
      (lines.start c.2.2).rows.all (fun r => decide (r.data.keys.Pairwise (· < ·))) &&
      lines.settles c.2.2 (isRevised c.2.2)) = true := by
    decide +kernel
  obtain ⟨⟨registry, t, v⟩, found, holds⟩ := (Option.any_eq_true _ _).mp checked
  simp only [Bool.and_eq_true, List.all_eq_true, decide_eq_true_eq] at holds
  obtain ⟨⟨⟨named, unjoined⟩, ordered⟩, settles⟩ := holds
  obtain ⟨affected, settled, flushed, revised⟩ := flush_of_settles settles
  simp only [isRevised, Bool.and_eq_true, List.all_eq_true, Option.all_eq_true, Option.any_eq_true, beq_iff_eq]
    at revised
  obtain ⟨⟨⟨⟨columns, set⟩, slot, isSlot, row, node⟩, planned⟩, opened⟩ := revised
  obtain ⟨opened, opens, again⟩ := opens_of_check opened
  simp only [Option.any_eq_true, Bool.and_eq_true, Bool.not_eq_true', beq_iff_eq] at again
  obtain ⟨r, standing, stored, e, entity, version, dated, opening⟩ := again
  obtain ⟨plan, planned⟩ := exists_eq_ok_of_isOk planned
  obtain ⟨-, -, compiled⟩ := compiled_eq found
  have rewritten : settled.IsRewritten ((settled.edited lines.again).plan {} later).1 lines.again slot e version := {
    columns := fun edit member changed isChanged => canSet_of_check (columns edit member changed isChanged)
    sets := ⟨[⟨.text "d", 0, "lines[0].title"⟩], _, [], rfl, isSlot, eq_ok_of_isOk set⟩
    stored := ⟨r, row ▸ standing, stored, node ▸ entity⟩
    dated := dated }
  have compiled : compile registry {} .sqlite none {} t = .ok (lines.start v).compiled := by
    rw [start, View.setValue_compiled]
    exact compiled
  obtain ⟨clean, -, -, replaces⟩ := flush_settles_view (Fetch.isNamed_of_all named) (unjoined_of_check unjoined)
    compiled ordered flushed
  obtain ⟨ids, identity, replaces⟩ := replaces "lines[1]" opened lines.again slot e version {} later plan (row ▸ opens)
    rewritten (node ▸ rfl) opening rfl planned
  exact ⟨registry, t, v, affected, settled, slot, e, version, plan, ids, found, ordered, flushed, clean, rewritten,
    planned, identity, replaces⟩

def reclassified : Revision where
  definitions := [
    dated "Document" "document" [column "kind" "kind" .varchar false, column "title" "title" .varchar false],
    kind "Memo" "Document" "memo" [],
    { kind "Letter" "Document" "letter" [column "sentFrom" "sent_from" .timestamp false,
        column "sentTo" "sent_to" .timestamp false] with version := some ("sentFrom", "sentTo") }]
  roots := ["Memo", "Letter"]
  chains := [asks "Memo" ["title"], asks "Letter" ["sentFrom"]]
  row := [("id", .int 1), ("kind", .text "memo"), ("rootKey", .int 1), ("sentFrom", lastYear), ("title", .text "a"),
    ("validFrom", lastYear)]
  path := "title"
  value := .text "b"
  again := [⟨.text "letter", 0, "kind"⟩]

def marked : Revision where
  definitions := [
    dated "Document" "document" [column "title" "title" .varchar false, column "$new" "flag" .varchar false]]
  roots := ["Document"]
  chains := [asks "Document" ["title"]]
  row := [("id", .int 1), ("rootKey", .int 1), ("title", .text "a"), ("validFrom", lastYear)]
  path := "title"
  value := .text "b"
  again := [⟨.text "c", 0, "title"⟩, ⟨.text "x", 0, "$new"⟩]

def dotted : Revision where
  definitions := [
    entity "Order" "orders" [column "id" "id" .bigInt true, column "a" "a" .varchar false,
      column "line" "line_id" .bigInt false, association "a.b" "Line" "line" "line_id" "id" false],
    dated "Line" "line" [column "title" "title" .varchar false]]
  roots := ["Order"]
  chains := [asks "Order" ["a.b", "title"]]
  row := [("a", .row [("b", .row [("id", .int 5), ("title", .text "t"), ("validFrom", lastYear)])]), ("id", .int 1),
    ("line", .int 5), ("rootKey", .int 1)]
  path := "a.b.title"
  value := .text "u"
  again := [⟨.text "v", 0, "a.b.title"⟩, ⟨.null, 0, "a"⟩]

def bracketed : Revision where
  definitions := [
    entity "Owner" "owner" [column "id" "id" .bigInt true, column "tag" "tag_id" .bigInt false,
      column "note" "note_id" .bigInt false, association "x" "Tag" "tag" "tag_id" "id" false,
      association "x]" "Note" "note" "note_id" "id" false],
    dated "Tag" "tag" [column "title" "title" .varchar false],
    dated "Note" "note" [column "title" "title" .varchar false, column "label" "label" .varchar false]]
  roots := ["Owner"]
  chains := [asks "Owner" ["x", "title"], asks "Owner" ["x]", "label"]]
  row := [("id", .int 1), ("note", .int 6), ("rootKey", .int 1), ("tag", .int 5),
    ("x", .row [("id", .int 5), ("title", .text "t"), ("validFrom", lastYear)]),
    ("x]", .row [("id", .int 6), ("label", .text "l"), ("title", .text "n"), ("validFrom", lastYear)])]
  path := "x].title"
  value := .text "u"
  again := [⟨.text "v", 0, "x].label"⟩]

/-- The start of a version is also that of a note, to which an association without a name leads. -/
def nameless : Revision where
  definitions := [
    dated "Owner" "owner" [column "name" "name" .varchar false, column "note" "note_id" .bigInt false,
      association "" "Note" "note" "note_id" "id" false],
    entity "Note" "note" [column "id" "id" .bigInt true, column "validFrom" "since" .varchar false]]
  roots := ["Owner"]
  chains := [asks "Owner" ["name"], asks "Owner" ["", "validFrom"]]
  row := [("id", .int 1), ("name", .text "n"), ("note", .int 2), ("rootKey", .int 1), ("validFrom", lastYear)]
  path := "name"
  value := .text "u"
  again := [⟨.text "v", 0, "name"⟩, ⟨.text "w", 0, "validFrom"⟩]

def shadowed : Revision where
  definitions := [Fetch.animal, dated "Person" "person" [column "name" "name" .varchar false],
    kind "Dog" "Animal" "dog" [column "person" "person_id" .bigInt false,
      association "owner" "Person" "person" "person_id" "id" false],
    kind "Cat" "Animal" "cat" [column "owner" "owner_name" .varchar false]]
  roots := ["Dog", "Cat"]
  chains := [asks "Dog" ["owner", "name"]]
  row := [("id", .int 1), ("kind", .text "dog"),
    ("owner", .row [("id", .int 5), ("name", .text "n"), ("validFrom", lastYear)]), ("person", .int 5),
    ("rootKey", .int 1)]
  path := "owner.name"
  value := .text "u"
  again := [⟨.text "v", 0, "owner.name"⟩, ⟨.text "cat", 0, "kind"⟩, ⟨.null, 0, "owner"⟩]

def borrowed : Revision where
  definitions := [
    entity "Item" "item" [column "id" "id" .bigInt true, column "kind" "kind" .varchar false,
      column "title" "title" .varchar false],
    entity "Place" "place" [column "id" "id" .bigInt true, column "name" "name" .varchar false],
    { kind "Lot" "Item" "lot" [column "start" "valid_from" .timestamp false,
        column "end" "valid_to" .timestamp false] with version := some ("start", "end") },
    kind "Crate" "Item" "crate" [column "start" "origin_id" .bigInt false,
      association "origin" "Place" "place" "origin_id" "id" false]]
  roots := ["Lot", "Crate"]
  chains := [asks "Lot" ["title"], asks "Crate" ["origin", "name"]]
  row := [("id", .int 1), ("kind", .text "lot"), ("origin", .row [("id", .int 7), ("name", .text "p")]),
    ("rootKey", .int 1), ("start", lastYear), ("title", .text "t")]
  path := "title"
  value := .text "u"
  again := [⟨.text "v", 0, "title"⟩, ⟨.text "q", 0, "origin.name"⟩]

def twofold : Revision where
  definitions := []
  registry := do
    let id := { Attribute.ofColumn "id" (some "id") .bigInt with primaryKey := true }
    let name := Attribute.ofColumn "name" (some "name") .varchar
    let orders ← (EntityDraft.build { name := "Order", table := "orders", attributes := [id,
      Attribute.ofColumn "customer" (some "customer_id") .bigInt,
      { Attribute.ofAssociation "payer" ⟨"Person", "person", [⟨"customer_id", "id"⟩], false⟩ with
        column := some "payer_id" },
      Attribute.ofAssociation "keeper" ⟨"Person", "person", [⟨"payer_id", "code"⟩], false⟩] }).toOption
    let persons ← (EntityDraft.build { name := "Person", table := "person", attributes := [id, name,
      Attribute.ofColumn "code" (some "code") .varchar, Attribute.ofColumn "validFrom" (some "valid_from") .timestamp,
      Attribute.ofColumn "validTo" (some "valid_to") .timestamp], version := some ("validFrom", "validTo") }).toOption
    return ((Registry.mk []).register orders).register persons
  roots := ["Order"]
  chains := [asks "Order" ["payer", "name"], asks "Order" ["keeper", "name"]]
  row := [("customer", .int 3), ("id", .int 1),
    ("keeper", .row [("code", .null), ("id", .int 4), ("name", .text "k"), ("validFrom", lastYear)]),
    ("payer", .row [("id", .int 3), ("name", .text "a"), ("validFrom", lastYear)]), ("rootKey", .int 1)]
  path := "payer.name"
  value := .text "u"
  again := [⟨.text "v", 0, "payer.name"⟩, ⟨.text "w", 0, "keeper.name"⟩]

/-- Whether a path is that of a column which an entity of the view has at its node and can be written. -/
def isColumn (v : CompiledView) (path : String) : Bool :=
  ((if Path.node path == "" then v.roots else []) ++
    (v.joinPlan.entries.filter (·.path == Path.node path)).map (·.entity)).any fun e =>
      (e.property? (Path.property path)).any (e.isWritable ·)

def areSet (v : View) : List Edit → Bool
  | [] => true
  | edit :: rest => (v.setValue edit.value edit.row edit.path).2.isOk &&
    areSet (v.setValue edit.value edit.row edit.path).1 rest

def IsStale (f : Revision) : Prop :=
  ∃ registry t v affected settled version plan, f.compiled? = some (registry, t, v) ∧
    obliging.flush {} context (f.start v) () = (.ok affected, settled, ()) ∧
    ((f.start v).plan {} context).1.Opens false context 0 (Path.node f.path) version ∧
    (∀ e ∈ registry.all, ∀ a ∈ e.attributes, ∀ pair ∈ a.joinColumns,
      version.opening.column ≠ some pair.source ∧ version.opening.column ≠ some pair.target) ∧
    (∀ edit ∈ f.again, edit.row = 0 ∧ isColumn v edit.path = true) ∧ areSet settled f.again = true ∧
    (∃ edit ∈ f.again, Path.node edit.path = Path.node f.path) ∧
    ((settled.edited f.again).plan {} later).2 = .ok plan ∧
    ∀ s ∈ plan.statements, ∀ parameters ∈ s.batch, ∀ p ∈ parameters,
      p.name = BoundParameter.keyName version.opening.columnName →
        p.value ≠ version.opening.columnType.coerce (.timestamp context.writeTime)

def loses (f : Revision) (registry : Registry) (v : CompiledView) : Bool :=
  f.settles v fun settled => opens ((f.start v).plan {} context).1 (Path.node f.path) fun version =>
    registry.all.all (fun e => e.attributes.all fun a => a.joinColumns.all fun pair =>
      version.opening.column != some pair.source && version.opening.column != some pair.target) &&
    f.again.all (fun edit => edit.row == 0 && isColumn v edit.path) && areSet settled f.again &&
    f.again.any (fun edit => Path.node edit.path == Path.node f.path) &&
    ((settled.edited f.again).plan {} later).2.toOption.any fun plan => plan.statements.all fun s =>
      s.batch.all fun parameters => parameters.all fun p =>
        p.name != BoundParameter.keyName version.opening.columnName ||
          p.value != version.opening.columnType.coerce (.timestamp context.writeTime)

theorem isStale_of_loses {f : Revision} (checked : (f.compiled?.any fun c => f.loses c.1 c.2.2) = true) :
    f.IsStale := by
  obtain ⟨⟨registry, t, v⟩, found, holds⟩ := (Option.any_eq_true _ _).mp checked
  obtain ⟨affected, settled, flushed, holds⟩ := flush_of_settles holds
  obtain ⟨version, opens, holds⟩ := opens_of_check holds
  simp only [Bool.and_eq_true, List.all_eq_true, List.any_eq_true, Option.any_eq_true, bne_iff_ne, beq_iff_eq,
    Bool.or_eq_true] at holds
  obtain ⟨⟨⟨⟨unjoined, columns⟩, set⟩, again⟩, plan, planned, lost⟩ := holds
  exact ⟨registry, t, v, affected, settled, version, plan, found, flushed, opens, unjoined, columns, set, again,
    eq_ok_of_toOption planned, fun s member parameters batch p bound isKey =>
      (lost s member parameters batch p bound).resolve_left (not_not_intro isKey)⟩

set_option maxRecDepth 100000 in
/-- The version that a flush opens is not the one that is ended next where the row comes to be of an entity with other
versions, or is marked as new, or where names do not tell the columns of a view from its associations. -/
theorem openings_are_lost : reclassified.IsStale ∧ marked.IsStale ∧ dotted.IsStale ∧ bracketed.IsStale ∧
    nameless.IsStale ∧ shadowed.IsStale ∧ borrowed.IsStale ∧ twofold.IsStale := by
  refine ⟨isStale_of_loses ?_, isStale_of_loses ?_, isStale_of_loses ?_, isStale_of_loses ?_, isStale_of_loses ?_,
    isStale_of_loses ?_, isStale_of_loses ?_, isStale_of_loses ?_⟩
  · decide +kernel
  · decide +kernel
  · decide +kernel
  · decide +kernel
  · decide +kernel
  · decide +kernel
  · decide +kernel
  · decide +kernel

end Revision

end ViewEngine
