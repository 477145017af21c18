import ViewEngine.Proofs.Compilation.Labels
import ViewEngine.Proofs.Compilation.Scoping
import ViewEngine.Proofs.Propagation.Ways
import ViewEngine.Proofs.Writing.Alike

/-!
Edits of columns that a view has read. The compiler finds a column from the tree, and the planner finds it
again from the path and the row: they find the same one, so a statement is planned that writes it.
-/

namespace ViewEngine

open Sql Planning BoundParameter JoinPlan Compile

/-- A statement that gives an expression to a column: an update, or an insert of what it selects. -/
inductive Sql.Statement.Puts (s : Statement) (column : String) (expr : Expr) : Prop
  | update (kind : s.kind = .update) (assigned : (column, expr) ∈ s.assignments)
  | insert {source : Statement} (kind : s.kind = .insert) (isSource : s.source = some source)
      (given : (column, expr) ∈ s.insertColumns.zip (source.selected.map (·.expr)))

theorem Sql.Statement.Puts.mem {s : Statement} {column : String} {expr : Expr} (puts : s.Puts column expr) :
    column ∈ s.assignments.map Prod.fst ++ s.insertColumns := by
  cases puts with
  | update _ assigned => exact List.mem_append_left _ (List.mem_map_of_mem assigned)
  | insert _ _ given => exact List.mem_append_right _ (List.of_mem_zip given).1

namespace Planning

variable {e : Entity} {path column : String} {data : Row} {columns : List Attribute} {a : Attribute}
  {keys : List (Attribute × Value)} {context : Context} {row : Nat} {node : String} {writes : List Write}

theorem updateWrite_puts (member : column ∈ columnNames columns) :
    (updateWrite e path data columns keys).statement.Puts column (.parameter (valueName column)) := by
  obtain ⟨b, inside, found⟩ := List.mem_filterMap.mp member
  have name : b.columnName = column := by simp [Attribute.columnName, found]
  rw [updateWrite_statement]
  refine .update rfl (List.mem_map.mpr ⟨b, inside, ?_⟩)
  rw [placeholder, name]

theorem successor_puts {opening : String} (member : a ∈ columns) :
    (successor e opening columns keys).Puts a.columnName (placeholder a) := by
  rw [successor_eq]
  refine .insert rfl rfl ?_
  have zipped : ((successorItems e opening columns).map Prod.fst).zip
      (((successorItems e opening columns).map fun item => (⟨item.2, none⟩ : SelectItem)).map (·.expr)) =
        successorItems e opening columns := by
    rw [List.map_map]
    exact (List.zip_of_prod rfl rfl).symm
  rw [successorSource, zipped]
  exact List.mem_append_left _ (List.mem_append_right _ (List.mem_map.mpr ⟨a, member, rfl⟩))

theorem StoresNode.puts (stores : StoresNode context row node e data columns keys writes) (member : a ∈ columns)
    (column : a.column.isSome = true) : ∃ w ∈ writes, w.statement.Puts a.columnName (placeholder a) ∧
      (∃ value, valueParameter a value ∈ w.parameters) ∧
      ∀ names, w.batch.map (·.columns) = some names → a.columnName ∈ names := by
  have value : valueParameter a ((Keyed.get? data a.property).getD .null) ∈ valueParameters columns data :=
    List.mem_map.mpr ⟨a, member, rfl⟩
  have name : a.columnName ∈ columnNames columns := by
    obtain ⟨name, found⟩ := Option.isSome_iff_exists.mp column
    exact List.mem_filterMap.mpr ⟨a, member, by simp [Attribute.columnName, found]⟩
  cases stores with
  | update =>
      refine ⟨_, List.mem_singleton_self _, updateWrite_puts name, ⟨_, List.mem_append_left _ value⟩, ?_⟩
      rintro names isNames
      cases isNames
      exact name
  | version =>
      refine ⟨_, List.mem_cons_of_mem _ (List.mem_singleton_self _), successor_puts member,
        ⟨_, List.mem_append_left _ (List.mem_append_left _ value)⟩, ?_⟩
      rintro names ⟨⟩

theorem mem_addTo_self (built : e.IsBuilt) (written : AreWritten e columns) (member : a ∈ e.attributes) :
    a ∈ a.addTo columns := by
  unfold Attribute.addTo
  split
  next known =>
    obtain ⟨b, inside, same⟩ := List.any_eq_true.mp known
    have property : b.property = a.property := congrArg AttributeId.property (beq_iff_eq.mp same)
    have isScalar := Entity.mem_attributes_of_scalar (written.scalars b inside)
    rwa [built.eq_of_property isScalar member property] at inside
  next => exact List.mem_append_right _ (List.mem_singleton_self a)

theorem mem_changedColumns {strict : Bool} {properties : List String} {changed : List Attribute} (built : e.IsBuilt)
    (written : AreWritten e columns) (member : a ∈ e.attributes) (writable : e.isWritable a = true)
    (asked : a ∈ columns ∨ a.property ∈ properties)
    (found : changedColumns strict e path properties columns = .ok changed) : a ∈ changed := by
  induction properties generalizing columns with
  | nil =>
      cases found
      exact asked.resolve_right List.not_mem_nil
  | cons property rest ih =>
      have held := built.property? member
      unfold changedColumns at found
      split at found
      next missing =>
        obtain ⟨-, -, found⟩ := bind_eq_ok.mp found
        refine ih written (asked.imp_right fun among => ?_) found
        refine (List.mem_cons.mp among).resolve_left fun same => ?_
        rw [← same, held] at missing
        contradiction
      next b there =>
        have inside := List.mem_of_find?_eq_some there
        have kept : a ∈ columns → a ∈ if e.isWritable b then b.addTo columns else columns := by
          intro old
          split
          · exact subset_foldl_addTo [b] columns old
          · exact old
        have written : AreWritten e (if e.isWritable b then b.addTo columns else columns) := by
          split
          next canWrite => exact written.addTo inside canWrite
          next => exact written
        refine ih written ?_ found
        rcases asked with old | among
        · exact .inl (kept old)
        · rcases List.mem_cons.mp among with same | later
          · rw [← same, held] at there
            cases there
            rw [if_pos writable]
            exact .inl (mem_addTo_self built ‹_› member)
          · exact .inr later

end Planning

namespace View

variable {v : View} {strict : Bool} {context : Context} {w : Write} {row : Nat} {node : String} {r : ViewRow}
  {writes : List Write} {a : Attribute} {s : PlannedStatement}

theorem plans_of_changed (written : v.writes strict context = .ok writes) (standing : v.rows[row]? = some r)
    (stored : r.isNew = false) (changed : node ∈ r.changed.map Path.node) :
    ∃ ofNode, nodeWrites v.compiled strict context row r node = .ok ofNode ∧
      ∀ w ∈ ofNode, w ∈ writes ∧ v.Plans strict context w (.node row node) := by
  obtain ⟨ofRow, planned, among⟩ := (writes_complete written).1 row r standing
  simp only [rowWrites, stored, Bool.false_eq_true, if_false] at planned
  obtain ⟨ofNodes, each, rfl⟩ := map_eq_ok.mp planned
  obtain ⟨ofNode, inside, planned⟩ := exists_ok_of_mapM each (Names.mem_ofList.mpr changed)
  exact ⟨ofNode, planned, fun w member =>
    ⟨among (List.mem_flatten_of_mem inside member), r, ofNode, standing, stored, changed, planned, member⟩⟩

theorem Plans.puts_carried (written : v.writes strict context = .ok writes)
    (plans : v.Plans strict context w (.node row node)) (puts : w.statement.Puts a.columnName (placeholder a))
    (batched : ∀ names, w.batch.map (·.columns) = some names → a.columnName ∈ names)
    (member : s ∈ PlannedStatement.ofWrites writes) (carries : s.Carries w) :
    s.statement.Puts a.columnName (placeholder a) := by
  obtain ⟨first, stands⟩ := PlannedStatement.exists_standsFor member
  have statement : s.statement = first.statement := congrArg PlannedStatement.statement stands.form
  rcases carries.shares stands with same | rfl | ⟨shared, same⟩
  · rwa [same]
  · rwa [statement]
  · obtain ⟨source, before⟩ := View.writes_plans written stands.member
    obtain ⟨key, isKey⟩ := Option.isSome_iff_exists.mp shared
    have purpose := plans.purpose isKey
    have purposeBefore := before.purpose (same.symm.trans isKey)
    cases source with
    | node number above =>
        obtain ⟨-, e, data, columns, keys, _, -, -, -, -, -, stores, inside⟩ := before.stores
        obtain rfl := stores.eq_updateWrite inside (same ▸ shared)
        rw [statement]
        exact updateWrite_puts (batched _ (by rw [same]; rfl))
    | added number =>
        rw [show key.purpose = .update from purpose] at purposeBefore
        contradiction
    | removed number =>
        rw [show key.purpose = .update from purpose] at purposeBefore
        rcases purposeBefore with close | delete
        · contradiction
        · contradiction

theorem puts_of_changed {settings : ViewSettings} {plan : WritePlan} {e : Entity} {data : Row}
    (planned : (v.plan settings context).2 = .ok plan) (standing : (v.plan settings context).1.rows[row]? = some r)
    (stored : r.isNew = false) (changed : Path.child node a.property ∈ r.changed) (whole : '.' ∉ a.property.toList)
    (entity : (v.plan settings context).1.compiled.entityAt? r.data (Path.withoutPositions node) = some e)
    (there : r.data.nodeAt node = .ok (some data)) (built : e.IsBuilt) (member : a ∈ e.attributes)
    (writable : e.isWritable a = true) (column : a.column.isSome = true) :
    ∃ s ∈ plan.statements, s.statement.Puts a.columnName (placeholder a) ∧ ∃ parameters ∈ s.batch,
      (v.plan settings context).1.Binds settings.strictWriteBack context parameters (.node row node) ∧
        ∃ value, valueParameter a value ∈ parameters := by
  have split := Path.splitProperty_child node whole
  have isNode : Path.node (Path.child node a.property) = node := congrArg Prod.fst split
  have isProperty : Path.property (Path.child node a.property) = a.property := congrArg Prod.snd split
  obtain ⟨writes, written, rfl⟩ := plan_writes planned
  obtain ⟨ofNode, planned, each⟩ := plans_of_changed written standing stored
    (List.mem_map.mpr ⟨_, changed, isNode⟩)
  have among : a.property ∈ r.changedAt node := by
    refine Names.mem_ofList.mpr (List.mem_map.mpr ⟨_, List.mem_filter.mpr ⟨changed, ?_⟩, isProperty⟩)
    exact beq_iff_eq.mpr isNode
  cases nodeWrites_plans planned with
  | unresolved none => cases entity.symm.trans none
  | absent missing => cases there.symm.trans missing
  | unchanged again nothing =>
      cases entity.symm.trans again
      exact absurd (mem_changedColumns built areWritten_nil member writable (.inr among) nothing) List.not_mem_nil
  | stored again standing found keyed stores =>
      cases entity.symm.trans again
      have inside := mem_changedColumns built areWritten_nil member writable (.inr among) found
      obtain ⟨w, ofWrite, puts, binds, batched⟩ := stores.puts (subset_writtenColumns _ _ inside) column
      obtain ⟨isWrite, plans⟩ := each w ofWrite
      obtain ⟨s, isStatement, carries⟩ := PlannedStatement.exists_carries isWrite
      exact ⟨s, isStatement, plans.puts_carried written puts batched isStatement carries, w.parameters, carries.bound,
        plans.binds, binds⟩

/-- A slot is in a stored row, and an attribute is one of the entity there that does not date its rows; at
the root this is the entity that the data of the row select. -/
structure Stores (v : View) (slot : Slot) (a : Attribute) : Prop where
  stored : ∀ r, v.rows[slot.row]? = some r → r.isNew = false
  undated : ∀ r e, v.rows[slot.row]? = some r →
    v.compiled.entityAt? r.data (Path.withoutPositions slot.node) = some e → e.isVersionAttribute a = false
  ofRoot : Path.withoutPositions slot.node = "" → ∀ r, v.rows[slot.row]? = some r →
    a ∈ (v.compiled.rootOf r.data).attributes

end View

section Agreement

variable {setting : Setting} {roots es : List Entity} {v : CompiledView} {way : List JoinEntry} {table : Nat}
  {path : String} {e : Entity} {a : Attribute} {data : Row}

theorem Entity.Offers.mem_attributes (offers : e.Offers a) (built : e.IsBuilt) : a ∈ e.attributes := by
  rcases offers with member | declared | declared
  · exact member
  · exact mem_attributes_of_scalar (built.opening _ declared)
  · exact mem_attributes_of_scalar (built.discriminator _ declared)

theorem exists_entityAt? (isNamed : setting.IsNamed roots) (built : v.joinPlan.IsBuilt setting roots)
    (sameRoots : v.roots = roots) (leads : v.joinPlan.Leads roots way es table path) (member : e ∈ es)
    (offers : e.Offers a) (ofRoot : path = "" → a ∈ (v.rootOf data).attributes) :
    ∃ found, v.entityAt? data path = some found ∧ found.IsBuilt ∧ a ∈ found.attributes := by
  unfold CompiledView.entityAt?
  by_cases root : path = ""
  · subst root
    refine ⟨v.rootOf data, rfl, isNamed.built _ (List.mem_append_left _ ?_), ofRoot rfl⟩
    exact sameRoots ▸ rootOf_mem v data
  · obtain ⟨j, found, rfl, -⟩ := leads.atPath? built root
    have nested : path.isEmpty = false := by simpa [String.isEmpty_iff] using root
    have isBuilt := isNamed.built e (leads.known built e member)
    rw [nested, found]
    cases List.mem_singleton.mp member
    exact ⟨j.entity, rfl, isBuilt, offers.mem_attributes isBuilt⟩

theorem slot_of_label {view : View} {above : String} {row : Nat} {steps : List PathStep} {slot : Slot} {plan : JoinPlan}
    (isNamed : setting.IsNamed roots) (built : plan.IsBuilt setting roots)
    (reaches : plan.Leads roots way es table above) (whole : '.' ∉ a.property.toList)
    (parsed : Path.read path = .ok steps)
    (leads : ".".intercalate (steps.map (·.property)) = Path.child above a.property)
    (named : view.slot? row path = some slot) :
    Path.withoutPositions slot.node = above ∧ slot.property = a.property ∧
      ∀ place, Path.nodePlace? slot.node = some place → ∀ r : ViewRow,
        ∀ other ∈ r.receivers plan, ¬ other <+: place := by
  have same := Path.properties_of_child parsed leads whole
  have isName : ∀ name ∈ Path.properties above, IsName name := by
    intro name onWay
    obtain ⟨isStep, unclosed⟩ := reaches.names isNamed built name onWay
    exact ⟨isStep, Path.unopened_of_read parsed name (same ▸ List.mem_append_left _ onWay), unclosed⟩
  obtain ⟨⟨parts, isNode, each⟩, property⟩ := View.slot?_parts named parsed same isName
  refine ⟨?_, property, fun place placed r => ?_⟩
  · rw [isNode, Path.withoutPositions_intercalate each isName, Path.intercalate_properties]
  · rw [isNode] at placed
    exact reaches.receivers_aside isNamed built isName (Path.names_of_nodePlace placed each isName) r

end Agreement

namespace View

variable {v : View} {slot : Slot} {settings : ViewSettings} {context : Context} {plan : WritePlan} {r : ViewRow}

theorem changed_of_plan (standing : v.rows[slot.row]? = some r) {value : Value}
    (placed : Path.place? slot.node slot.property = some slot.place)
    (stands : (Value.row r.data).atPlace? slot.place = some value)
    (changed : Path.child slot.node slot.property ∈ r.changed)
    (aside : ∀ place, Path.nodePlace? slot.node = some place →
      ∀ other ∈ r.receivers v.compiled.joinPlan, ¬ other <+: place) :
    ∃ after data, (v.plan settings context).1.rows[slot.row]? = some after ∧
      after.data.nodeAt slot.node = .ok (some data) ∧ Path.child slot.node slot.property ∈ after.changed := by
  obtain ⟨after, there, same⟩ := plan_getElem? settings context standing
  rw [Path.place?_eq] at placed
  obtain ⟨place, isPlace, isSlot⟩ := Option.map_eq_some_iff.mp placed
  rw [← isSlot, Value.atPlace?_append] at stands
  obtain ⟨held, isHeld, stands⟩ := Option.bind_eq_some_iff.mp stands
  obtain ⟨fields, rfl⟩ := Row.row_of_atPlace? stands
  rcases same with rfl | rfl
  · exact ⟨_, fields, there, Row.nodeAt_of_row isPlace isHeld, changed⟩
  · obtain ⟨data, node⟩ := ViewRow.node_propagate isPlace isHeld (aside place isPlace)
    exact ⟨_, data, there, node, ViewRow.changed_propagate changed⟩

end View

/-- A value that is set under the path of a column that the view has read is written back: a statement is
planned for the node of the path that writes the column. -/
theorem fetched_edits_are_planned {registry : Registry} {settings writeBack : ViewSettings} {dialect : Dialect}
    {pointInTime : Option Timestamp} {page : Page} {t : FilterTree} {v : View} {value : Value} {row : Nat}
    {path label : String} {steps : List PathStep} {slot : Slot} {a : Attribute} {context : Context} {plan : WritePlan}
    (isNamed : Setting.IsNamed ⟨registry, pointInTime⟩ t.roots)
    (compiled : compile registry settings dialect pointInTime page t = .ok v.compiled)
    (selects : v.compiled.Selects ⟨label, some a, .value⟩)
    (unnamed : ∀ item ∈ FilterNode.itemsOfAll t.nodes, item.subject.id = a.id → item.outputName ≠ some label)
    (parsed : Path.read path = .ok steps) (leads : ".".intercalate (steps.map (·.property)) = label)
    (whole : '.' ∉ a.property.toList) (isValue : a.primaryKey = false) (set : (v.setValue value row path).2 = .ok ())
    (named : v.slot? row path = some slot)
    (planned : ((v.setValue value row path).1.plan writeBack context).2 = .ok plan)
    (stores : ((v.setValue value row path).1.plan writeBack context).1.Stores slot a) :
    ∃ s ∈ plan.statements, s.statement.Puts a.columnName (placeholder a) ∧ ∃ parameters ∈ s.batch,
      ((v.setValue value row path).1.plan writeBack context).1.Binds writeBack.strictWriteBack context parameters
          (.node slot.row slot.node) ∧
        ∃ value, valueParameter a value ∈ parameters := by
  obtain ⟨built, sameRoots, -⟩ := compile_made isNamed.addressable compiled
  have labelled := compile_labelled isNamed.addressable compiled selects
  generalize same : (⟨label, some a, .value⟩ : ColumnBinding) = b at labelled
  cases labelled with
  | other kind => exact absurd (same ▸ rfl) kind
  | named isAsked isSubject name =>
      cases same
      exact absurd name (unnamed _ isAsked isSubject.symm)
  | @placed way es table above e other reaches member offers column =>
      obtain ⟨isLabel, isSubject⟩ : label = Path.child above other.property ∧ a = other := by
        injection same with isLabel isSubject
        exact ⟨isLabel, Option.some.inj isSubject⟩
      subst isSubject
      subst isLabel
      obtain ⟨isAbove, isProperty, aside⟩ := slot_of_label isNamed built reaches whole parsed leads named
      obtain ⟨_, r, again, standing, stands, changed⟩ := View.records_setValue set
      cases named.symm.trans again
      obtain ⟨-, -, -, -, -, placed⟩ := View.slot?_eq_some named
      obtain ⟨after, data, there, node, changed⟩ := @View.changed_of_plan _ slot writeBack context _
        standing _ placed stands changed fun place isPlace => by
          rw [View.setValue_compiled]
          exact aside place isPlace r
      have compiled : ((v.setValue value row path).1.plan writeBack context).1.compiled = v.compiled := by
        rw [View.plan_view]
        exact View.setValue_compiled
      obtain ⟨found, entity, isBuilt, offered⟩ := exists_entityAt? isNamed built sameRoots reaches member offers
        fun root => compiled ▸ stores.ofRoot (isAbove.trans root) after there
      rw [← isAbove, ← compiled] at entity
      have writable : found.isWritable a = true := by
        have isColumn : a.isAssociation = false := by
          have kind := isBuilt.kinds a offered
          rw [column] at kind
          exact Bool.not_eq_true' _ |>.mp kind.symm
        simp [Entity.isWritable, column, isColumn, isValue, stores.undated after found there entity]
      rw [isProperty] at changed
      exact View.puts_of_changed planned there (stores.stored after there) changed whole entity node isBuilt offered writable
        column

structure Fetch extends Outline where
  row : Row
  path : String
  value : Value

namespace Fetch

open Sample (context)
open Outline (column association entity kind asks compiled_eq)

def view (f : Fetch) (compiled : CompiledView) : View :=
  .ofRows compiled [f.row]

def subject? (v : CompiledView) (label : String) : Option Attribute := do
  let columns := v.columns ++ v.subSelects.flatMap (·.columns)
  (← columns.find? fun b => b.label == label && b.kind == .value).subject

theorem selects_of_subject {v : CompiledView} {label : String} {a : Attribute} (found : subject? v label = some a) :
    v.Selects ⟨label, some a, .value⟩ := by
  obtain ⟨⟨name, subject, kind⟩, found, same⟩ := Option.bind_eq_some_iff.mp found
  have holds := List.find?_some found
  rw [Bool.and_eq_true, beq_iff_eq, beq_iff_eq] at holds
  obtain ⟨rfl, rfl⟩ := holds
  cases same
  refine (List.mem_append.mp (List.mem_of_find?_eq_some found)).imp_right fun inside => ?_
  obtain ⟨s, member, column⟩ := List.mem_flatMap.mp inside
  exact ⟨s, member, column⟩

def isBuilt (e : Entity) : Bool :=
  decide (e.attributes.map (·.property)).Nodup && e.attributes.all (fun a => a.column.isSome == !a.isAssociation) &&
    e.version.all (fun version => e.scalars.contains version.opening) &&
    e.discriminator.all fun d => e.scalars.contains d.subject

theorem isBuilt_of_all {e : Entity} (checked : isBuilt e = true) : e.IsBuilt := by
  simp only [isBuilt, Bool.and_eq_true, decide_eq_true_eq, List.all_eq_true, beq_iff_eq] at checked
  obtain ⟨⟨⟨properties, kinds⟩, opening⟩, discriminator⟩ := checked
  refine ⟨properties, kinds, fun version declared => ?_, fun d declared => ?_⟩
  · simpa [declared] using opening
  · simpa [declared] using discriminator

def animal : EntityDefinition :=
  entity "Animal" "animal" [column "id" "id" .bigInt true, column "kind" "kind" .varchar false]

def toys : Fetch where
  definitions := [animal, kind "Dog" "Animal" "dog" [],
    kind "Cat" "Animal" "cat" [association "toys" "Toy" "toy" "id" "animal_id" true],
    entity "Toy" "toy" [column "id" "id" .bigInt true, column "animal" "animal_id" .bigInt false,
      column "label" "label" .varchar false]]
  roots := ["Dog", "Cat"]
  chains := [asks "Cat" ["toys", "label"]]
  row := [("id", .int 2), ("kind", .text "cat"), ("rootKey", .int 2),
    ("toys", .list [.row [("animal", .int 2), ("id", .int 5), ("label", .text "ball")]])]
  path := "toys[0].label"
  value := .text "mouse"

def isNamed (registry : Registry) (roots : List Entity) : Bool :=
  (roots ++ registry.all).all (fun e => isBuilt e && e.attributes.all fun a =>
    !a.isAssociation || decide (IsStep a.property ∧ ']' ∉ a.property.toList)) &&
  roots.all fun e => roots.all fun other => e.attributes.all fun a => other.attributes.all fun b =>
    !(a.property == b.property && a.isAssociation) || a == b

theorem isNamed_of_all {registry : Registry} {roots : List Entity} (checked : isNamed registry roots = true) :
    Setting.IsNamed ⟨registry, none⟩ roots := by
  simp only [isNamed, Bool.and_eq_true, List.all_eq_true, Bool.or_eq_true, Bool.not_eq_true', decide_eq_true_eq,
    beq_iff_eq] at checked
  obtain ⟨known, agreed⟩ := checked
  refine ⟨fun e member a inside isAssociation => ?_, fun e member => isBuilt_of_all (known e member).1, ?_⟩
  · exact ((known e member).2 a inside).resolve_left (by simp [isAssociation])
  · intro e member other there a inside b insideOther same isAssociation
    exact (agreed e member other there a inside b insideOther).resolve_left (by simp [same, isAssociation])

def isLabelled (t : FilterTree) (v : CompiledView) : Bool :=
  (subject? v "toys.label").any fun a => decide ('.' ∉ a.property.toList) && !a.primaryKey &&
    (FilterNode.itemsOfAll t.nodes).all (·.outputName.isNone) &&
    ((toys.view v).setValue toys.value 0 toys.path).2.isOk &&
    ((toys.view v).slot? 0 toys.path).any fun slot => slot.row == 0 && slot.node == "toys[0]" &&
      (((toys.view v).setValue toys.value 0 toys.path).1.plan {} context).2.isOk &&
      (((toys.view v).setValue toys.value 0 toys.path).1.plan {} context).1.rows[0]?.all fun r => !r.isNew &&
        (v.entityAt? r.data "toys").all fun e => !e.isVersionAttribute a

set_option maxRecDepth 100000 in
/-- The label of the toy is written. -/
theorem label_is_planned : ∃ registry t v a slot plan, toys.compiled? = some (registry, t, v) ∧
    Setting.IsNamed ⟨registry, none⟩ t.roots ∧ v.Selects ⟨"toys.label", some a, .value⟩ ∧
    (toys.view v).slot? 0 toys.path = some slot ∧
    (((toys.view v).setValue toys.value 0 toys.path).1.plan {} context).2 = .ok plan ∧
    (((toys.view v).setValue toys.value 0 toys.path).1.plan {} context).1.Stores slot a ∧
    ∃ s ∈ plan.statements, s.statement.Puts a.columnName (Planning.placeholder a) := by
  have checked : (toys.compiled?.any fun c => isNamed c.1 c.2.1.roots && isLabelled c.2.1 c.2.2) = true := by
    decide +kernel
  obtain ⟨⟨registry, t, v⟩, found, holds⟩ := (Option.any_eq_true _ _).mp checked
  dsimp only at holds
  rw [Bool.and_eq_true, isLabelled, Option.any_eq_true] at holds
  obtain ⟨named, a, column, holds⟩ := holds
  simp only [Bool.and_eq_true, Option.any_eq_true, decide_eq_true_eq, Bool.not_eq_true', List.all_eq_true,
    Option.isNone_iff_eq_none, beq_iff_eq] at holds
  obtain ⟨⟨⟨⟨whole, isValue⟩, unnamed⟩, set⟩, slot, placed, ⟨⟨row, node⟩, planned⟩, stored⟩ := holds
  obtain ⟨plan, planned⟩ := exists_eq_ok_of_isOk planned
  obtain ⟨-, -, compiled⟩ := compiled_eq found
  have isNamed := isNamed_of_all named
  have selects := selects_of_subject column
  have unnamed : ∀ item ∈ FilterNode.itemsOfAll t.nodes, item.subject.id = a.id → item.outputName ≠ some "toys.label" :=
    fun item member _ => by simp [unnamed item member]
  have parsed : Path.read toys.path = .ok [⟨"toys", some 0⟩, ⟨"label", none⟩] := by decide +kernel
  have isNode : Path.withoutPositions slot.node = "toys" := node ▸ by decide +kernel
  have stores : (((toys.view v).setValue toys.value 0 toys.path).1.plan {} context).1.Stores slot a := by
    simp only [Option.all_eq_true, Bool.and_eq_true, Bool.not_eq_true'] at stored
    refine ⟨fun r standing => ?_, fun r e standing entity => ?_, fun root => ?_⟩
    · exact (stored r (row ▸ standing)).1
    · have undated := (stored r (row ▸ standing)).2
      rw [isNode, View.plan_view, View.setValue_compiled] at entity
      exact undated e entity
    · rw [isNode] at root
      exact absurd root (by decide)
  obtain ⟨s, member, puts, -⟩ := fetched_edits_are_planned (v := toys.view v) isNamed compiled selects unnamed parsed
    (by decide +kernel) whole isValue (eq_ok_of_isOk set) placed planned stores
  exact ⟨registry, t, v, a, slot, plan, found, isNamed, selects, placed, planned, stores, s, member, puts⟩

def foreign : Fetch where
  definitions := [animal, kind "Dog" "Animal" "dog" [],
    kind "Cat" "Animal" "cat" [column "lives" "lives" .bigInt false]]
  roots := ["Dog", "Cat"]
  chains := [asks "Cat" ["lives"]]
  row := [("id", .int 1), ("kind", .text "dog"), ("lives", .null), ("rootKey", .int 1)]
  path := "lives"
  value := .int 9

def owned : Fetch where
  definitions := [animal,
    entity "Person" "person" [column "id" "id" .bigInt true, column "name" "name" .varchar false],
    entity "Shelter" "shelter" [column "id" "id" .bigInt true, column "title" "title" .varchar false],
    kind "Dog" "Animal" "dog" [column "person" "person_id" .bigInt false,
      association "owner" "Person" "person" "person_id" "id" false],
    kind "Cat" "Animal" "cat" [column "shelter" "shelter_id" .bigInt false,
      association "owner" "Shelter" "shelter" "shelter_id" "id" false]]
  roots := ["Dog", "Cat"]
  chains := [asks "Dog" ["owner", "name"], asks "Cat" ["owner", "title"]]
  row := [("id", .int 2), ("kind", .text "cat"), ("owner", .row [("id", .int 3), ("title", .text "a")]),
    ("rootKey", .int 2), ("shelter", .int 3)]
  path := "owner.title"
  value := .text "b"

def dotted : Fetch where
  definitions := [
    entity "Order" "orders" [column "id" "id" .bigInt true, column "a.b" "ab" .varchar false]]
  roots := ["Order"]
  chains := [asks "Order" ["a.b"]]
  row := [("a.b", .text "x"), ("id", .int 1), ("rootKey", .int 1)]
  path := "a.b"
  value := .text "y"

def person (property path : String) (row : Row) : Fetch where
  definitions := [
    entity "Order" "orders" [column "id" "id" .bigInt true, column "payer" "payer_id" .bigInt false,
      association property "Person" "person" "payer_id" "id" false],
    entity "Person" "person" [column "id" "id" .bigInt true, column "title" "title" .varchar false]]
  roots := ["Order"]
  chains := [asks "Order" [property, "title"]]
  row := [("id", .int 1), ("payer", .int 3), ("rootKey", .int 1)] ++ row
  path := path
  value := .text "y"

def bracketed : Fetch :=
  person "x]" "x].title" [("x]", .row [("id", .int 3), ("title", .text "a")])]

def nameless : Fetch :=
  person "" "title" [("title", .text "a")]

def crossed : Fetch where
  definitions := [
    entity "Order" "orders" [column "id" "id" .bigInt true, column "first" "line_id" .bigInt false,
      association "line.payer" "Customer" "customer" "id" "order_id" false,
      association "line" "Line" "line" "line_id" "id" false],
    entity "Line" "line" [column "id" "id" .bigInt true, association "payer" "Vendor" "vendor" "id" "line_id" false],
    entity "Customer" "customer" [column "id" "id" .bigInt true, column "order" "order_id" .bigInt false,
      column "name" "name" .varchar false],
    entity "Vendor" "vendor" [column "id" "id" .bigInt true, column "line" "line_id" .bigInt false,
      column "title" "title" .varchar false]]
  roots := ["Order"]
  chains := [asks "Order" ["line.payer", "name"], asks "Order" ["line", "payer", "title"]]
  row := [("first", .int 4), ("id", .int 1), ("line", .row [("id", .int 4),
    ("payer", .row [("id", .int 5), ("line", .int 4), ("title", .text "x")])]), ("rootKey", .int 1)]
  path := "line.payer.title"
  value := .text "y"

/-- The payer is a column and an association at once, and the keeper is joined with the column. -/
def twofold : Fetch where
  definitions := []
  registry := do
    let id := { Attribute.ofColumn "id" (some "id") .bigInt with primaryKey := true }
    let payer : Association := ⟨"Person", "person", [⟨"payer_id", "id"⟩], false⟩
    let orders ← (EntityDraft.build { name := "Order", table := "orders", attributes := [id,
      { Attribute.ofAssociation "payer" payer with column := some "payer_id" },
      Attribute.ofAssociation "keeper" payer] }).toOption
    let persons ← (EntityDraft.build { name := "Person", table := "person", attributes := [id,
      Attribute.ofColumn "name" (some "name") .varchar] }).toOption
    return ((Registry.mk []).register orders).register persons
  roots := ["Order"]
  chains := [asks "Order" ["keeper", "name"]]
  row := [("id", .int 1), ("keeper", .row [("id", .int 3), ("name", .text "a")]), ("payer", .int 3), ("rootKey", .int 1)]
  path := "payer"
  value := .int 4

def IsSkipped (f : Fetch) : Prop :=
  ∃ registry t v a plan, f.registry = some registry ∧ f.tree? registry = some t ∧
    compile registry f.settings .sqlite f.pointInTime {} t = .ok v ∧ v.Selects ⟨f.path, some a, .value⟩ ∧
      a.column.isSome = true ∧
    a.primaryKey = false ∧ (∀ e ∈ registry.all, e.isVersionAttribute a = false) ∧
    (∀ item ∈ FilterNode.itemsOfAll t.nodes, item.outputName = none) ∧
    ((f.view v).setValue f.value 0 f.path).2 = .ok () ∧
    (((f.view v).setValue f.value 0 f.path).1.plan {} context).2 = .ok plan ∧
    ∀ s ∈ plan.statements, ∀ expr, ¬ s.statement.Puts a.columnName expr

def skips (f : Fetch) (registry : Registry) (t : FilterTree) (v : CompiledView) : Bool :=
  (subject? v f.path).any fun a =>
    a.column.isSome && !a.primaryKey && registry.all.all (fun e => !e.isVersionAttribute a) &&
    (FilterNode.itemsOfAll t.nodes).all (·.outputName.isNone) &&
    ((f.view v).setValue f.value 0 f.path).2.isOk &&
    (((f.view v).setValue f.value 0 f.path).1.plan {} context).2.toOption.any fun plan =>
      plan.statements.all fun s =>
        !(s.statement.assignments.map Prod.fst ++ s.statement.insertColumns).contains a.columnName

theorem isSkipped_of_any {f : Fetch} (checked : (f.compiled?.any fun c => f.skips c.1 c.2.1 c.2.2) = true) :
    f.IsSkipped := by
  obtain ⟨⟨registry, t, v⟩, found, holds⟩ := (Option.any_eq_true _ _).mp checked
  obtain ⟨a, column, holds⟩ := (Option.any_eq_true _ _).mp holds
  obtain ⟨read, tree, compiled⟩ := compiled_eq found
  simp only [Bool.and_eq_true, Option.any_eq_true, List.all_eq_true, Bool.not_eq_true', Option.isNone_iff_eq_none]
    at holds
  obtain ⟨⟨⟨⟨⟨isColumn, isValue⟩, undated⟩, unnamed⟩, set⟩, plan, planned, skipped⟩ := holds
  refine ⟨registry, t, v, a, plan, read, tree, compiled, selects_of_subject column, isColumn, isValue, undated, unnamed,
    eq_ok_of_isOk set, eq_ok_of_toOption planned, fun s member expr puts => ?_⟩
  have absent := skipped s member
  rw [List.contains_iff_mem.mpr puts.mem] at absent
  contradiction

set_option maxRecDepth 100000 in
/-- Edits are skipped where the row is of an entity without the column, or the path is that of something else. -/
theorem fetched_edits_are_skipped : foreign.IsSkipped ∧ owned.IsSkipped ∧ dotted.IsSkipped ∧ bracketed.IsSkipped ∧
    nameless.IsSkipped ∧ crossed.IsSkipped ∧ twofold.IsSkipped := by
  refine ⟨isSkipped_of_any ?_, isSkipped_of_any ?_, isSkipped_of_any ?_, isSkipped_of_any ?_, isSkipped_of_any ?_,
    isSkipped_of_any ?_, isSkipped_of_any ?_⟩
  · decide +kernel
  · decide +kernel
  · decide +kernel
  · decide +kernel
  · decide +kernel
  · decide +kernel
  · decide +kernel

end Fetch

end ViewEngine
