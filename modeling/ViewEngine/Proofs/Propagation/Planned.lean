import ViewEngine.Proofs.Outline
import ViewEngine.Proofs.Propagation.Kept
import ViewEngine.Proofs.Versions.Planned

/-!
What becomes of the values that a caller has set once the writes of a view are planned: they are still
read, and they are what the planned statements bind, unless they stand where keys are taken over.
-/

namespace ViewEngine

open Planning BoundParameter

namespace PlannedStatement

theorem mem_add {w : Write} {statements : List PlannedStatement} {s : PlannedStatement}
    {parameters : List BoundParameter} (member : s ∈ add w statements) (bound : parameters ∈ s.batch) :
    parameters = w.parameters ∨ ∃ other ∈ statements, parameters ∈ other.batch := by
  induction statements with
  | nil =>
      cases List.mem_singleton.mp member
      exact .inl (List.mem_singleton.mp bound)
  | cons first rest ih =>
      unfold add at member
      split at member
      · rcases List.mem_cons.mp member with rfl | later
        · rcases List.mem_append.mp bound with before | last
          · exact .inr ⟨first, List.mem_cons_self .., before⟩
          · exact .inl (List.mem_singleton.mp last)
        · exact .inr ⟨s, List.mem_cons_of_mem _ later, bound⟩
      · rcases List.mem_cons.mp member with rfl | later
        · exact .inr ⟨s, List.mem_cons_self .., bound⟩
        · rcases ih later with same | ⟨other, inside, bound⟩
          · exact .inl same
          · exact .inr ⟨other, List.mem_cons_of_mem _ inside, bound⟩

theorem mem_foldl_add {writes : List Write} {before : List PlannedStatement} {s : PlannedStatement}
    {parameters : List BoundParameter}
    (member : s ∈ writes.foldl (fun statements w => add w statements) before) (bound : parameters ∈ s.batch) :
    (∃ w ∈ writes, parameters = w.parameters) ∨ ∃ other ∈ before, parameters ∈ other.batch := by
  induction writes generalizing before with
  | nil => exact .inr ⟨s, member, bound⟩
  | cons w rest ih =>
      rcases ih member with ⟨other, later, same⟩ | ⟨other, added, bound⟩
      · exact .inl ⟨other, List.mem_cons_of_mem _ later, same⟩
      · rcases mem_add added bound with same | there
        · exact .inl ⟨w, List.mem_cons_self .., same⟩
        · exact .inr there

theorem mem_ofWrites {writes : List Write} {s : PlannedStatement} {parameters : List BoundParameter}
    (member : s ∈ ofWrites writes) (bound : parameters ∈ s.batch) :
    ∃ w ∈ writes, parameters = w.parameters := by
  rcases mem_foldl_add member bound with found | ⟨other, none, -⟩
  · exact found
  · contradiction

end PlannedStatement

namespace Planning

variable {v : CompiledView} {strict : Bool} {context : Context} {row : Nat} {r : ViewRow} {node : String}
  {writes : List Write} {e : Entity} {data : Row}

theorem nodeWrites_bound (planned : nodeWrites v strict context row r node = .ok writes)
    (entity : v.entityAt? r.data (Path.withoutPositions node) = some e)
    (standing : r.data.nodeAt node = .ok (some data)) {w : Write} (member : w ∈ writes) {p : BoundParameter}
    (bound : p ∈ w.parameters) :
    (∃ b ∈ e.scalars, p = valueParameter b ((Keyed.get? data b.property).getD .null)) ∨
      (∃ column, p.name = keyName column) ∨ p.name = nowName := by
  obtain rfl | ⟨other, others, columns, keys, found, there, written, -, form⟩ := nodeWrites_cases planned
  · contradiction
  cases entity.symm.trans found
  cases standing.symm.trans there
  have value (inside : p ∈ valueParameters columns data) :
      ∃ b ∈ e.scalars, p = valueParameter b ((Keyed.get? data b.property).getD .null) := by
    obtain ⟨b, isColumn, rfl⟩ := List.mem_map.mp inside
    exact ⟨b, written.scalars b isColumn, rfl⟩
  have key (inside : p ∈ keyParameters keys) : ∃ column, p.name = keyName column := by
    obtain ⟨key, -, rfl⟩ := List.mem_map.mp inside
    exact ⟨_, rfl⟩
  obtain rfl | ⟨version, -, form⟩ := form
  · cases List.mem_singleton.mp member
    rcases List.mem_append.mp bound with isValue | isKey
    · exact .inl (value isValue)
    · exact .inr (.inl (key isKey))
  · unfold versionWrites at form
    split at form
    next =>
      cases form
      rcases member with _ | ⟨_, _ | ⟨_, ⟨⟩⟩⟩
      · rcases List.mem_cons.mp bound with rfl | isKey
        · exact .inr (.inr rfl)
        · exact .inr (.inl (key isKey))
      · rcases List.mem_append.mp bound with first | isKey
        · rcases List.mem_append.mp first with isValue | isNow
          · exact .inl (value isValue)
          · cases List.mem_singleton.mp isNow
            exact .inr (.inr rfl)
        · exact .inr (.inl (key isKey))
    next => contradiction

end Planning

theorem ViewRow.mem_changedNodes {r : ViewRow} {node : String} :
    node ∈ r.changedNodes ↔ (∃ path ∈ r.changed, Path.node path = node) ∧ node.isEmpty = false := by
  simp [changedNodes, Names.mem_ofList]

/-- What parameters are bound for: a node of a stored row, a new row, or a row that is taken away. -/
inductive WriteOrigin where
  | node (row : Nat) (node : String)
  | added (row : Nat)
  | removed (row : Nat)

namespace View

variable {v : View} {strict : Bool} {context : Context} {settings : ViewSettings} {plan : WritePlan}
  {value : Value} {slot : Slot}

/-- The writes that are planned for their origin bind the parameters. -/
def Binds (v : View) (strict : Bool) (context : Context) (parameters : List BoundParameter) :
    WriteOrigin → Prop
  | .node row node => ∃ r writes, v.rows[row]? = some r ∧ r.isNew = false ∧
    nodeWrites v.compiled strict context row r node = .ok writes ∧ ∃ w ∈ writes, parameters = w.parameters
  | .added row => ∃ r writes, v.rows[row]? = some r ∧ r.isNew = true ∧
    insertWrites v.compiled strict context row r.data = .ok writes ∧ ∃ w ∈ writes, parameters = w.parameters
  | .removed row => ∃ data w, v.removed[row]? = some data ∧
    removalWrite v.compiled context row data = .ok w ∧ parameters = w.parameters

/-- A write is planned for its origin. -/
def Plans (v : View) (strict : Bool) (context : Context) (w : Write) : WriteOrigin → Prop
  | .node row node => ∃ r writes, v.rows[row]? = some r ∧ r.isNew = false ∧ node ∈ r.changed.map Path.node ∧
    nodeWrites v.compiled strict context row r node = .ok writes ∧ w ∈ writes
  | .added row => ∃ r writes, v.rows[row]? = some r ∧ r.isNew = true ∧
    insertWrites v.compiled strict context row r.data = .ok writes ∧ w ∈ writes
  | .removed row => ∃ data, v.removed[row]? = some data ∧ removalWrite v.compiled context row data = .ok w

/-- The writes of a view are those of its rows, and then those of the rows that were taken out. -/
theorem writes_parts {writes : List Write} (written : v.writes strict context = .ok writes) :
    ∃ stored removals, writes = stored ++ removals ∧
      (∀ w ∈ stored, ∃ origin, v.Plans strict context w origin ∧ ∀ row, origin ≠ .removed row) ∧
      (∀ w ∈ removals, ∃ row, v.Plans strict context w (.removed row)) ∧
      v.removed.zipIdx.mapM (fun item => removalWrite v.compiled context item.2 item.1) = .ok removals := by
  obtain ⟨stored, storedPlanned, written⟩ := bind_eq_ok.mp written
  obtain ⟨removals, removalsPlanned, written⟩ := bind_eq_ok.mp written
  cases written
  refine ⟨_, _, rfl, fun w fromRow => ?_, fun w fromRemoval => ?_, removalsPlanned⟩
  · obtain ⟨ofRow, inside, isWrite⟩ := List.mem_flatten.mp fromRow
    obtain ⟨⟨r, row⟩, there, planned⟩ := exists_of_mem_mapM storedPlanned inside
    have standing := List.mk_mem_zipIdx_iff_getElem?.mp there
    cases isNew : r.isNew with
    | true =>
        simp only [rowWrites, isNew, if_true] at planned
        exact ⟨.added row, ⟨r, ofRow, standing, isNew, planned, isWrite⟩, nofun⟩
    | false =>
        simp only [rowWrites, isNew, Bool.false_eq_true, if_false] at planned
        obtain ⟨lists, each, rfl⟩ := map_eq_ok.mp planned
        obtain ⟨ofNode, fromNode, isWrite⟩ := List.mem_flatten.mp isWrite
        obtain ⟨node, changed, planned⟩ := exists_of_mem_mapM each fromNode
        exact ⟨.node row node, ⟨r, ofNode, standing, isNew, Names.mem_ofList.mp changed, planned, isWrite⟩, nofun⟩
  · obtain ⟨⟨data, row⟩, there, planned⟩ := exists_of_mem_mapM removalsPlanned fromRemoval
    exact ⟨row, data, List.mk_mem_zipIdx_iff_getElem?.mp there, planned⟩

/-- All that is planned for a row is among the writes of the view. -/
theorem writes_complete {writes : List Write} (written : v.writes strict context = .ok writes) :
    (∀ row r, v.rows[row]? = some r → ∃ own, rowWrites v.compiled strict context row r = .ok own ∧ own ⊆ writes) ∧
      ∀ row data, v.removed[row]? = some data → ∃ w ∈ writes, removalWrite v.compiled context row data = .ok w := by
  obtain ⟨stored, storedPlanned, written⟩ := bind_eq_ok.mp written
  obtain ⟨removals, removalsPlanned, written⟩ := bind_eq_ok.mp written
  cases written
  constructor
  · intro row r standing
    obtain ⟨own, inside, planned⟩ := exists_ok_of_mapM storedPlanned (List.mk_mem_zipIdx_iff_getElem?.mpr standing)
    exact ⟨own, planned, fun w member => List.mem_append_left _ (List.mem_flatten_of_mem inside member)⟩
  · intro row data standing
    obtain ⟨w, inside, planned⟩ := exists_ok_of_mapM removalsPlanned (List.mk_mem_zipIdx_iff_getElem?.mpr standing)
    exact ⟨w, List.mem_append_right _ inside, planned⟩

/-- Each write is planned for one of the rows. -/
theorem writes_plans {writes : List Write} (written : v.writes strict context = .ok writes) {w : Write}
    (isWrite : w ∈ writes) : ∃ origin, v.Plans strict context w origin := by
  obtain ⟨stored, removals, rfl, ofRows, ofRemovals, -⟩ := writes_parts written
  rcases List.mem_append.mp isWrite with fromRow | fromRemoval
  · obtain ⟨origin, plans, -⟩ := ofRows w fromRow
    exact ⟨origin, plans⟩
  · obtain ⟨row, plans⟩ := ofRemovals w fromRemoval
    exact ⟨.removed row, plans⟩

theorem Plans.binds {w : Write} {origin : WriteOrigin} (plans : v.Plans strict context w origin) :
    v.Binds strict context w.parameters origin := by
  cases origin with
  | node row node =>
      obtain ⟨r, writes, standing, isStored, -, planned, isWrite⟩ := plans
      exact ⟨r, writes, standing, isStored, planned, w, isWrite, rfl⟩
  | added row =>
      obtain ⟨r, writes, standing, isNew, planned, isWrite⟩ := plans
      exact ⟨r, writes, standing, isNew, planned, w, isWrite, rfl⟩
  | removed row =>
      obtain ⟨data, standing, planned⟩ := plans
      exact ⟨data, w, standing, planned, rfl⟩

theorem plan_binds (planned : (v.plan settings context).2 = .ok plan) {s : PlannedStatement}
    (member : s ∈ plan.statements) {parameters : List BoundParameter} (bound : parameters ∈ s.batch) :
    ∃ origin, (v.plan settings context).1.Binds settings.strictWriteBack context parameters origin := by
  obtain ⟨writes, written, rfl⟩ := plan_writes planned
  obtain ⟨w, isWrite, rfl⟩ := PlannedStatement.mem_ofWrites member bound
  obtain ⟨origin, plans⟩ := writes_plans written isWrite
  exact ⟨origin, plans.binds⟩

/-- Planning changes a view by taking keys over in its rows. -/
theorem plan_view : (v.plan settings context).1 =
    { v with rows := (ViewRow.propagateAll settings.strictWriteBack v.compiled.joinPlan v.rows).1 } := by
  dsimp only [plan]
  generalize ViewRow.propagateAll settings.strictWriteBack v.compiled.joinPlan v.rows = propagated
  obtain ⟨rows, _ | _⟩ := propagated <;> rfl

/-- A row of a planned view has taken keys over, or is as it was. -/
theorem plan_rows (v : View) (settings : ViewSettings) (context : Context) :
    List.Forall₂ (fun r after => after = r ∨ after = (r.propagate settings.strictWriteBack v.compiled.joinPlan).1)
      v.rows (v.plan settings context).1.rows := by
  rw [plan_view]
  exact ViewRow.propagateAll_rows ..

theorem plan_getElem? {row : Nat} {r : ViewRow} (settings : ViewSettings) (context : Context)
    (standing : v.rows[row]? = some r) : ∃ after, (v.plan settings context).1.rows[row]? = some after ∧
      (after = r ∨ after = (r.propagate settings.strictWriteBack v.compiled.joinPlan).1) := by
  obtain ⟨inside, rfl⟩ := List.getElem?_eq_some_iff.mp standing
  have each := v.plan_rows settings context
  have bound : row < (v.plan settings context).1.rows.length := each.length_eq ▸ inside
  exact ⟨_, List.getElem?_eq_getElem bound, each.get inside bound⟩

/-- What the places that take keys over spare stands as before once writes are planned. -/
theorem holds_plan_of_spared (holds : v.Holds slot value) (spared : ∀ r, v.rows[slot.row]? = some r →
    ∀ place ∈ r.receivers v.compiled.joinPlan, place.Spares slot.place value) :
    (v.plan settings context).1.Holds slot value := by
  obtain ⟨r, standing, stands⟩ := holds
  obtain ⟨after, there, same⟩ := plan_getElem? settings context standing
  refine ⟨after, there, ?_⟩
  rcases same with rfl | rfl
  · exact stands
  · exact ViewRow.stands_propagate stands (spared r standing)

/-- What does not overlap the places that take keys over stands as before once writes are planned. -/
theorem holds_plan (holds : v.Holds slot value) (apart : ∀ r, v.rows[slot.row]? = some r →
    ∀ place ∈ r.receivers v.compiled.joinPlan, ¬ slot.place.Overlaps place) :
    (v.plan settings context).1.Holds slot value :=
  holds_plan_of_spared holds fun r standing place receives => Place.spares_of_apart (apart r standing place receives)

/-- What stands in a slot stands there until something is set that does not spare it. -/
theorem holds_edited_of_spared {edits : List Edit} (holds : v.Holds slot value)
    (spared : ∀ edit ∈ edits, ∀ changed, v.slot? edit.row edit.path = some changed → changed.row = slot.row →
      changed.place.Spares slot.place value) : (v.edited edits).Holds slot value := by
  induction edits generalizing v with
  | nil => exact holds
  | cons edit rest ih =>
      refine ih (holds_setValue_of_spared holds (spared edit (List.mem_cons_self ..))) ?_
      intro later member changed named
      rw [slot?_congr setValue_compiled setValue_length] at named
      exact spared later (List.mem_cons_of_mem _ member) changed named

/-- What stands in a slot stands there until something is set that overlaps it. -/
theorem holds_edited {edits : List Edit} (holds : v.Holds slot value)
    (apart : ∀ edit ∈ edits, ∀ changed, v.slot? edit.row edit.path = some changed → ¬ slot.Overlaps changed) :
    (v.edited edits).Holds slot value :=
  holds_edited_of_spared holds fun edit member changed named sameRow =>
    Place.spares_of_apart fun overlaps => apart edit member changed named ⟨sameRow.symm, overlaps⟩

/-- What a caller has set stands in its slot, unless something is set later that overlaps it. -/
theorem holds_of_set {before after : List Edit} {edit : Edit}
    (set : ((v.edited before).setValue edit.value edit.row edit.path).2 = .ok ())
    (named : v.slot? edit.row edit.path = some slot)
    (last : ∀ later ∈ after, ∀ changed, v.slot? later.row later.path = some changed → ¬ slot.Overlaps changed) :
    (v.edited (before ++ edit :: after)).Holds slot edit.value := by
  obtain ⟨other, again, holds⟩ := holds_setValue set
  rw [slot?_congr (edited_compiled _) (edited_length _), named] at again
  cases again
  rw [edited_split]
  refine holds_edited holds fun later member changed namedLater => last later member changed ?_
  rwa [slot?_congr (setValue_compiled.trans (edited_compiled _))
    (setValue_length.trans (edited_length _))] at namedLater

theorem slot?_plan {row : Nat} {path : String} :
    (v.plan settings context).1.slot? row path = v.slot? row path := by
  rw [plan_view]
  exact slot?_congr rfl (ViewRow.propagateAll_length _)

theorem bound_of_holds (holds : v.Holds slot value) {node : String} {parameters : List BoundParameter}
    (binds : v.Binds strict context parameters (.node slot.row node))
    (placed : Path.place? node slot.property = some slot.place) {r : ViewRow} {e : Entity} {a : Attribute}
    (standing : v.rows[slot.row]? = some r)
    (entity : v.compiled.entityAt? r.data (Path.withoutPositions node) = some e)
    (found : e.property? slot.property = some a) {p : BoundParameter} (bound : p ∈ parameters)
    (named : p.name = valueName a.columnName) :
    p.value = a.columnType.coerce value ∨
      ∃ b ∈ e.scalars, b ≠ a ∧ valueName b.columnName = valueName a.columnName ∧
        ∃ other, p = valueParameter b other := by
  obtain ⟨r', writes, there, -, planned, w, isWrite, rfl⟩ := binds
  cases standing.symm.trans there
  obtain ⟨_, again, stands⟩ := holds
  cases standing.symm.trans again
  obtain ⟨data, node_at, held⟩ := Row.nodeAt_of_stands placed stands
  rcases nodeWrites_bound planned entity node_at isWrite bound with ⟨b, scalar, rfl⟩ | ⟨column, isKey⟩ | isNow
  · by_cases same : b = a
    · subst same
      have property : b.property = slot.property := by
        simpa using List.find?_some found
      rw [property, held]
      exact .inl rfl
    · exact .inr ⟨b, scalar, same, named, _, rfl⟩
  · exact absurd (isKey.symm.trans named) keyName_ne_valueName
  · exact absurd (named.symm.trans isNow) valueName_ne_nowName

end View

namespace Sample

open Outline (column association entity)

def outline : Outline where
  definitions := [
    entity "Sample" "sample" [column "id" "id" .bigInt true, column "innerId" "inner_id" .bigInt false,
      association "inner" "Inner" "inner" "inner_id" "id" false],
    entity "Inner" "inner" [column "id" "id" .bigInt true, column "value" "value" .varchar false]]
  roots := ["Sample"]
  requests := [⟨"inner", none⟩]

def loaded (compiled : CompiledView) : View :=
  .ofRows compiled [[("id", .int 1), ("inner", .row [("id", .int 10), ("value", .text "a")]),
    ("innerId", .int 10), ("rootKey", .int 1)]]

def context : Context where
  clock := ⟨2020, 1, 1, 0, 0, 0, 0, by decide, by decide⟩

def edits : List Edit :=
  [⟨.int 5, 0, "innerId"⟩, ⟨.text "x", 0, "inner.value"⟩]

def innerValue : Slot :=
  ⟨0, "inner", "value", [.property "inner", .property "value"]⟩

end Sample

end ViewEngine
