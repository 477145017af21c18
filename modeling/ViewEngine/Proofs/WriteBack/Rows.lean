import ViewEngine.Proofs.Writing.Alike
import ViewEngine.Proofs.WriteBack.Drafts
import ViewEngine.Proofs.WriteBack.Effects

namespace ViewEngine

open Planning

theorem Record.assign_congr {values others : List (String × Value)} (distinct : (values.map Prod.fst).Nodup)
    (unique : (others.map Prod.fst).Nodup) (same : ∀ entry, entry ∈ values ↔ entry ∈ others) (record : Record) :
    record.assign values = record.assign others := by
  funext column
  by_cases assigned : column ∈ values.map Prod.fst
  · obtain ⟨⟨_, value⟩, member, rfl⟩ := List.mem_map.mp assigned
    rw [assign_of_mem distinct member, assign_of_mem unique ((same _).mp member)]
  · have absent : column ∉ others.map Prod.fst := by
      intro member
      obtain ⟨entry, inside, rfl⟩ := List.mem_map.mp member
      exact assigned (List.mem_map_of_mem ((same entry).mpr inside))
    rw [assign_of_not_mem assigned, assign_of_not_mem absent]

theorem Record.assign_append (values others : List (String × Value)) (record : Record) :
    record.assign (values ++ others) = (record.assign others).assign values := by
  funext column
  simp only [assign, List.lookup_append]
  cases values.lookup column <;> rfl

theorem Record.assign_covered {values others : List (String × Value)}
    (covered : ∀ column ∈ others.map Prod.fst, column ∈ values.map Prod.fst) (record : Record) :
    (record.assign others).assign values = record.assign values := by
  funext column
  by_cases assigned : column ∈ values.map Prod.fst
  · have found : (values.lookup column).isSome = true := by
      rw [Option.isSome_iff_ne_none, ne_eq, List.lookup_eq_none_iff]
      obtain ⟨entry, member, rfl⟩ := List.mem_map.mp assigned
      exact fun absent => by simpa using absent entry member
    obtain ⟨value, found⟩ := Option.isSome_iff_exists.mp found
    simp only [assign, found, Option.getD_some]
  · rw [assign_of_not_mem assigned, assign_of_not_mem assigned,
      assign_of_not_mem fun member => assigned (covered column member)]

/-- A view on the rows of one table. -/
structure CompiledView.IsPlain (v : CompiledView) (e : Entity) : Prop where
  root : v.root = e
  single : v.otherRoots = []
  unjoined : v.joinPlan.entries = []

variable {v : CompiledView} {e : Entity} {d : Draft} {r : ViewRow} {strict : Bool} {context : Context} {row : Nat}
  {old : Record} {data : Row}

theorem CompiledView.IsPlain.rootOf (plain : v.IsPlain e) (data : Row) : v.rootOf data = e := by
  have member := rootOf_mem v data
  rw [roots, plain.single, plain.root] at member
  exact List.mem_singleton.mp member

theorem Names.ofList_of_all {name : String} {names : List String} (nonempty : names ≠ [])
    (all : ∀ other ∈ names, other = name) : ofList names = [name] := by
  have folded (rest : List String) (same : ∀ other ∈ rest, other = name) :
      rest.foldl (fun set other => insert other set) [name] = [name] := by
    induction rest with
    | nil => rfl
    | cons first rest ih =>
        cases same first (List.mem_cons_self ..)
        rw [List.foldl_cons, insert, if_pos rfl]
        exact ih fun other later => same other (List.mem_cons_of_mem _ later)
  obtain ⟨first, rest, rfl⟩ := List.exists_cons_of_ne_nil nonempty
  cases all first (List.mem_cons_self ..)
  exact folded rest fun other later => all other (List.mem_cons_of_mem _ later)

namespace Draft

theorem mem_of_lookup {values : List (String × Value)} {property : String} {value : Value}
    (found : values.lookup property = some value) : (property, value) ∈ values := by
  obtain ⟨before, after, rfl, -⟩ := List.lookup_eq_some_iff.mp found
  simp

theorem Shows.exists_attribute (shows : d.Shows e r) {property : String} (changed : property ∈ r.changed) :
    ∃ a ∈ e.scalars, a.property = property ∧ (d.stored.isSome = true → e.isWritable a = true) := by
  obtain ⟨value, found⟩ := Option.isSome_iff_exists.mp ((shows.changed property).mp changed)
  exact (shows.columns _ (mem_of_lookup found)).2

theorem Shows.splitProperty (shows : d.Shows e r) (named : v.Admits e) {property : String}
    (changed : property ∈ r.changed) : Path.splitProperty property = ("", property) := by
  obtain ⟨a, scalar, rfl, -⟩ := shows.exists_attribute changed
  exact Path.splitProperty_of_whole (named a scalar).1

theorem Shows.mem_changedAt (shows : d.Shows e r) (named : v.Admits e) {property : String} :
    property ∈ r.changedAt "" ↔ (d.values.lookup property).isSome = true := by
  rw [ViewRow.changedAt, Names.mem_ofList, ← shows.changed, List.mem_map]
  constructor
  · rintro ⟨path, member, rfl⟩
    obtain ⟨changed, -⟩ := List.mem_filter.mp member
    rwa [Path.property, shows.splitProperty named changed]
  · intro changed
    refine ⟨property, List.mem_filter.mpr ⟨changed, ?_⟩, ?_⟩
    · rw [Path.node, shows.splitProperty named changed]
      rfl
    · rw [Path.property, shows.splitProperty named changed]

theorem mem_assigned {entry : String × Value} : entry ∈ d.assigned e ↔ ∃ a ∈ e.scalars, ∃ value,
    d.values.lookup a.property = some value ∧ entry = (a.columnName, a.columnType.coerce value) := by
  rw [assigned, List.mem_filterMap]
  refine exists_congr fun a => and_congr_right fun _ => ?_
  rw [Option.map_eq_some_iff]
  exact exists_congr fun value => and_congr_right fun _ => eq_comm

theorem assigned_nodup (hasColumns : e.HasColumns) (d : Draft) : ((d.assigned e).map Prod.fst).Nodup := by
  have names := hasColumns.columnNames_nodup (fun _ member => member) (hasColumns.attributes_nodup.filter _)
  refine List.pairwise_map.mpr (List.Pairwise.filterMap _ ?_ (List.pairwise_map.mp names))
  intro a b different entry found other foundOther
  obtain ⟨_, -, rfl⟩ := Option.map_eq_some_iff.mp found
  obtain ⟨_, -, rfl⟩ := Option.map_eq_some_iff.mp foundOther
  exact different

end Draft

section Stored

theorem Row.Loads.keyValues (loads : data.Loads e old) (unversioned : e.version = none)
    (known : ∀ a ∈ e.identityKeys, (old a.columnName).isNull = false) (row : Nat) :
    ∃ keys, keyValues e data "" row = .ok keys ∧ AreKeysOf e old keys := by
  have storageKeys : e.storageKeys = e.identityKeys := by
    rw [Entity.storageKeys, unversioned]
    exact List.append_nil _
  refine ⟨e.identityKeys.map fun a => (a, (data.get? a.property).getD .null), ?_, ?_, ?_⟩
  · rw [Planning.keyValues, storageKeys]
    refine mapM_eq_ok fun a member => ?_
    obtain ⟨value, held, same⟩ := loads.keys a member
    have present := known a member
    rw [same, ColumnType.isNull_coerce] at present
    simp only [held, Option.getD_some]
    cases value with
    | null => contradiction
    | _ => rfl
  · rw [List.map_map]
    exact List.map_id _
  · intro key member
    obtain ⟨a, inside, rfl⟩ := List.mem_map.mp member
    obtain ⟨value, held, same⟩ := loads.keys a inside
    rw [same, held, Option.getD_some]

theorem nodeWrites_root {columns : List Attribute} {keys : List (Attribute × Value)} (plain : v.IsPlain e)
    (unversioned : e.version = none) (changed : changedColumns strict e "" (r.changedAt "") [] = .ok columns)
    (nonempty : columns.isEmpty = false) (keyed : keyValues e r.data "" row = .ok keys) :
    nodeWrites v strict context row r "" = .ok [updateWrite e "" r.data columns keys] := by
  have links : (linkColumns v.joinPlan e "" none).filter (r.data.contains ·.property) = [] := by
    rw [linkColumns, plain.unjoined]
    rfl
  have path : Path.withoutPositions "" = "" := rfl
  have root : "".isEmpty = true := rfl
  unfold ViewRow.changedAt at changed
  simp only [nodeWrites, path, root, Row.nodeAt, plain.rootOf, changed, nonempty, keyed, unversioned, links, bind,
    Except.bind, Option.map_none, Option.getD_none, Bool.not_true, Bool.false_and, Bool.false_eq_true, if_true,
    if_false]
  rfl

theorem Draft.Shows.rowWrites_stored (shows : d.Shows e r) (stored : d.stored = some old) (plain : v.IsPlain e)
    (named : v.Admits e) (hasColumns : e.HasColumns) (unversioned : e.version = none)
    (known : ∀ a ∈ e.identityKeys, (old a.columnName).isNull = false) (edited : d.values ≠ []) :
    ∃ columns keys, rowWrites v strict context row r = .ok [updateWrite e "" r.data columns keys] ∧
      AreWritten e columns ∧ AreKeysOf e old keys ∧ old.assign (writtenValues columns r.data) = d.record e := by
  obtain ⟨keys, keyed, areKeys⟩ := (shows.loaded old stored).keyValues unversioned known row
  have writable : ∀ property ∈ r.changedAt "", ∃ a ∈ e.attributes, a.property = property ∧ e.isWritable a = true := by
    intro property member
    have changed := (shows.changed property).mpr ((shows.mem_changedAt named).mp member)
    obtain ⟨a, scalar, same, canWrite⟩ := shows.exists_attribute changed
    exact ⟨a, Entity.mem_attributes_of_scalar scalar, same, canWrite (Option.isSome_of_eq_some stored)⟩
  obtain ⟨columns, found, written, same⟩ := changedColumns_ok hasColumns strict "" areWritten_nil writable
  have selected : ∀ a ∈ e.scalars, a ∈ columns ↔ (d.values.lookup a.property).isSome = true := by
    intro a scalar
    rw [same a (Entity.mem_attributes_of_scalar scalar), ← shows.mem_changedAt named]
    simp
  obtain ⟨property, changed⟩ : ∃ property, property ∈ r.changed := by
    obtain ⟨⟨property, value⟩, rest, first⟩ := List.exists_cons_of_ne_nil edited
    exact ⟨property, (shows.changed property).mpr (by simp [first])⟩
  have nonempty : columns.isEmpty = false := by
    obtain ⟨a, scalar, rfl, -⟩ := shows.exists_attribute changed
    rw [List.isEmpty_eq_false_iff]
    exact List.ne_nil_of_mem ((selected a scalar).mpr ((shows.changed _).mp changed))
  have nodes : Names.ofList (r.changed.map Path.node) = [""] := by
    refine Names.ofList_of_all (List.ne_nil_of_mem (List.mem_map_of_mem changed)) fun node member => ?_
    obtain ⟨other, inside, rfl⟩ := List.mem_map.mp member
    rw [Path.node, shows.splitProperty named inside]
  refine ⟨columns, keys, ?_, written, areKeys, ?_⟩
  · have isStored : r.isNew = false := by rw [shows.isNew, stored]; rfl
    rw [rowWrites, isStored, nodes, List.mapM_cons, nodeWrites_root plain unversioned found nonempty keyed]
    rfl
  · rw [Draft.record, stored, Option.getD_some]
    refine Record.assign_congr ?_ (Draft.assigned_nodup hasColumns d) (fun entry => ?_) old
    · rw [writtenValues, List.map_map]
      exact hasColumns.columnNames_nodup written.scalars written.distinct
    · rw [Draft.mem_assigned, writtenValues, List.mem_map]
      constructor
      · rintro ⟨a, member, rfl⟩
        have scalar := written.scalars a member
        obtain ⟨value, isSet⟩ := Option.isSome_iff_exists.mp ((selected a scalar).mp member)
        exact ⟨a, scalar, value, isSet, by rw [shows.held _ value isSet, Option.getD_some]⟩
      · rintro ⟨a, scalar, value, isSet, rfl⟩
        refine ⟨a, (selected a scalar).mpr (Option.isSome_of_eq_some isSet), ?_⟩
        rw [shows.held _ value isSet, Option.getD_some]

end Stored

section Added

variable {given : List (Attribute × Value)} {fields : Row}

theorem insertedValues_ok (v : CompiledView) (strict : Bool) (hasColumns : e.HasColumns)
    (unversioned : e.version = none) (each : ∀ field ∈ fields, field.1 = newRowMark ∨
      field.2.isNested = false ∧ field.1 ≠ v.rootKeyAlias ∧ ∃ a ∈ e.scalars, a.property = field.1) :
    ∃ given, insertedValues v strict e fields = .ok given ∧ (∀ value ∈ given, value.1 ∈ e.scalars) ∧
      given.map (fun value => (value.1.property, value.2)) = fields.filter (·.1 != newRowMark) := by
  induction fields with
  | nil => exact ⟨[], rfl, by simp, rfl⟩
  | cons field rest ih =>
      obtain ⟨property, value⟩ := field
      obtain ⟨given, found, scalars, same⟩ := ih fun other later => each other (List.mem_cons_of_mem _ later)
      by_cases mark : property = newRowMark
      · refine ⟨given, ?_, scalars, ?_⟩
        · unfold insertedValues
          split
          · contradiction
          · next same => cases same; exact found
          · next same => cases same; exact found
          · next same => cases same; simp [mark, found]
        · simp [mark, same]
      · obtain ⟨plain, notAlias, a, scalar, rfl⟩ := (each _ (List.mem_cons_self ..)).resolve_left mark
        have declared := (Entity.property?_eq_some_iff hasColumns.properties).mpr
          ⟨Entity.mem_attributes_of_scalar scalar, rfl⟩
        have stored : (a.column.isSome && !a.isAssociation && !e.isVersionAttribute a) = true := by
          simp [Attribute.column_of_scalar scalar, Entity.isAssociation_of_scalar scalar, Entity.isVersionAttribute,
            unversioned]
        refine ⟨(a, value) :: given, ?_, List.forall_mem_cons.mpr ⟨scalar, scalars⟩, ?_⟩
        · unfold insertedValues
          split
          · contradiction
          · next same => cases same; contradiction
          · next same => cases same; contradiction
          · next same =>
              cases same
              simp [mark, notAlias, declared, found, stored, bind, Except.bind, pure, Except.pure]
        · simp [mark, same]

theorem Draft.Shows.insertedValues (shows : d.Shows e r) (added : d.stored = none) (strict : Bool)
    (named : v.Admits e) (hasColumns : e.HasColumns) (unversioned : e.version = none) :
    ∃ given, Planning.insertedValues v strict e r.data = .ok given ∧ (∀ value ∈ given, value.1 ∈ e.scalars) ∧
      (given.map Prod.fst).Nodup ∧
      ∀ a ∈ e.scalars, ∀ value, (a, value) ∈ given ↔ d.values.lookup a.property = some value := by
  obtain ⟨ascending, same⟩ := shows.added added
  have each : ∀ field ∈ r.data, field.1 = newRowMark ∨
      field.2.isNested = false ∧ field.1 ≠ v.rootKeyAlias ∧ ∃ a ∈ e.scalars, a.property = field.1 := by
    rintro ⟨property, value⟩ member
    refine or_iff_not_imp_left.mpr fun different => ?_
    have isSet := ascending.get?_of_mem member
    rw [same property different] at isSet
    obtain ⟨plain, a, scalar, rfl, -⟩ := shows.columns _ (mem_of_lookup isSet)
    exact ⟨plain, (named a scalar).2.2, a, scalar, rfl⟩
  obtain ⟨given, found, scalars, fields⟩ := insertedValues_ok v strict hasColumns unversioned each
  refine ⟨given, found, scalars, ?_, fun a scalar value => ?_⟩
  · have distinct : (given.map fun value => value.1.property).Nodup := by
      have keys := congrArg (List.map Prod.fst) fields
      rw [List.map_map] at keys
      have ordered : ((r.data.filter (·.1 != newRowMark)).map Prod.fst).Nodup :=
        (ascending.imp fun less => less.ne).sublist (List.filter_sublist.map _)
      exact keys ▸ ordered
    exact List.Nodup.of_map (·.property) (by rwa [List.map_map])
  · have notMark := (named a scalar).2.1
    rw [← same a.property notMark]
    constructor
    · intro member
      have inFields := List.mem_map_of_mem (f := fun value => (value.1.property, value.2)) member
      rw [fields] at inFields
      exact ascending.get?_of_mem (List.mem_filter.mp inFields).1
    · intro held
      have inFields : (a.property, value) ∈ r.data.filter (·.1 != newRowMark) :=
        List.mem_filter.mpr ⟨Keyed.mem_of_get? held, by simpa using notMark⟩
      rw [← fields] at inFields
      obtain ⟨⟨b, other⟩, member, pair⟩ := List.mem_map.mp inFields
      obtain ⟨property, rfl⟩ := Prod.mk.injEq .. ▸ pair
      cases hasColumns.eq_of_property (Entity.mem_attributes_of_scalar (scalars _ member))
        (Entity.mem_attributes_of_scalar scalar) property
      exact member

theorem storedValues_record (hasColumns : e.HasColumns) (unversioned : e.version = none)
    (discriminator : ∀ found, e.discriminator = some found → found.subject ∈ e.scalars) (added : d.stored = none)
    (scalars : ∀ value ∈ given, value.1 ∈ e.scalars) (distinct : (given.map Prod.fst).Nodup)
    (same : ∀ a ∈ e.scalars, ∀ value, (a, value) ∈ given ↔ d.values.lookup a.property = some value)
    (now : Timestamp) :
    (∀ value ∈ storedValues e now given, value.1 ∈ e.scalars) ∧ ((storedValues e now given).map Prod.fst).Nodup ∧
      insertedRecord (storedValues e now given) = d.record e := by
  have columns : ((given.map fun value => (value.1.columnName, value.1.columnType.coerce value.2)).map
      Prod.fst).Nodup := by
    have names := hasColumns.columnNames_nodup (List.forall_mem_map.mpr scalars) distinct
    rw [List.map_map] at names ⊢
    exact names
  have assigned (record : Record) : record.assign (d.assigned e) =
      record.assign (given.map fun value => (value.1.columnName, value.1.columnType.coerce value.2)) := by
    refine Record.assign_congr (Draft.assigned_nodup hasColumns d) columns (fun entry => ?_) record
    rw [Draft.mem_assigned, List.mem_map]
    constructor
    · rintro ⟨a, scalar, value, isSet, rfl⟩
      exact ⟨(a, value), (same a scalar value).mpr isSet, rfl⟩
    · rintro ⟨⟨a, value⟩, member, rfl⟩
      exact ⟨a, scalars _ member, value, (same a (scalars _ member) value).mp member, rfl⟩
  rw [Draft.record, added, Option.getD_none, assigned, Draft.implied, storedValues, unversioned, Option.toList_none,
    List.map_nil, List.append_nil]
  cases found : e.discriminator with
  | none => exact ⟨by simpa using scalars, by simpa using distinct, by simp [insertedRecord]; rfl⟩
  | some mark =>
      have scalar := discriminator mark found
      cases covered : given.any (·.1.id == mark.subject.id) with
      | true =>
          obtain ⟨value, member, isMark⟩ := List.any_eq_true.mp covered
          have subject := hasColumns.eq_of_id (Entity.mem_attributes_of_scalar (scalars _ member))
            (Entity.mem_attributes_of_scalar scalar) (beq_iff_eq.mp isMark)
          simp only [Option.toList_some, List.filter_cons, covered, Bool.not_true, Bool.false_eq_true, if_false,
            List.filter_nil, List.map_nil, List.append_nil, List.map_cons]
          refine ⟨scalars, distinct, (Record.assign_covered ?_ _).symm⟩
          simp only [List.map_cons, List.map_nil, List.mem_singleton, forall_eq, List.map_map]
          exact List.mem_map.mpr ⟨value, member, congrArg Attribute.columnName subject⟩
      | false =>
          simp only [Option.toList_some, List.filter_cons, covered, Bool.not_false, if_true, List.filter_nil,
            List.map_nil, List.map_cons]
          refine ⟨fun value member => ?_, ?_, ?_⟩
          · rcases List.mem_append.mp member with isSet | last
            · exact scalars value isSet
            · rw [List.mem_singleton.mp last]
              exact scalar
          · rw [List.map_append, List.map_singleton, ← List.concat_eq_append, List.nodup_concat]
            refine ⟨fun member => ?_, distinct⟩
            obtain ⟨value, inside, subject⟩ := List.mem_map.mp member
            rw [List.any_eq_true.mpr ⟨value, inside, by simp [subject]⟩] at covered
            contradiction
          · rw [insertedRecord, List.map_append, Record.assign_append, List.map_singleton]

theorem Draft.Shows.rowWrites_added (shows : d.Shows e r) (added : d.stored = none) (plain : v.IsPlain e)
    (named : v.Admits e) (hasColumns : e.HasColumns) (unversioned : e.version = none)
    (discriminator : ∀ found, e.discriminator = some found → found.subject ∈ e.scalars)
    (keyed : ∃ a ∈ e.identityKeys, (d.record e a.columnName).isNull = false) :
    ∃ values, rowWrites v strict context row r = .ok [insertWrite e row values] ∧
      (∀ value ∈ values, value.1 ∈ e.scalars) ∧ (values.map Prod.fst).Nodup ∧ insertedRecord values = d.record e := by
  obtain ⟨given, found, scalars, distinct, same⟩ := shows.insertedValues added strict named hasColumns unversioned
  obtain ⟨storedScalars, storedDistinct, record⟩ := storedValues_record hasColumns unversioned discriminator added
    scalars distinct same context.writeTime
  refine ⟨_, ?_, storedScalars, storedDistinct, record⟩
  have isNew : r.isNew = true := by rw [shows.isNew, added]; rfl
  rw [← plain.rootOf r.data] at found
  obtain ⟨writes, planned⟩ : ∃ writes, insertWrites v strict context row r.data = .ok writes := by
    simp only [insertWrites, found, bind, Except.bind]
    split
    · exact ⟨_, rfl⟩
    · exact ⟨_, rfl⟩
  rw [rowWrites, isNew, if_pos rfl, planned]
  cases insertWrites_plans planned with
  | nothing again empty =>
      cases found.symm.trans again
      rw [plain.rootOf] at empty
      obtain ⟨a, -, present⟩ := keyed
      rw [← record, empty] at present
      contradiction
  | stored again =>
      cases found.symm.trans again
      rw [plain.rootOf]

end Added

def Draft.changes (e : Entity) (d : Draft) : List RowChange :=
  match d.stored with
  | some old => if d.values.isEmpty then [] else [⟨some old, some (d.record e)⟩]
  | none => [⟨none, some (d.record e)⟩]

structure Write.Realises (c : Collation) (e : Entity) (tableColumns : List String) (w : Write) (change : RowChange) :
    Prop where
  path : w.path = ""
  optional : w.requiresMatch = false
  makes : w.execution.Makes c e tableColumns change

def Write.Deletes (e : Entity) (w : Write) (old : Record) : Prop :=
  ∃ keys, AreKeysOf e old keys ∧ w = deleteWrite e keys

/-- An entity whose rows are no versions; all that tells them apart is in columns. -/
structure Entity.HasPlainRows (e : Entity) : Prop extends e.HasColumns where
  unversioned : e.version = none
  discriminator : ∀ d, e.discriminator = some d → d.subject ∈ e.scalars

/-- The rows of a table, each with a key of its own. -/
structure Record.AreKeyed (c : Collation) (e : Entity) (records : List Record) : Prop where
  keyed : ∀ record ∈ records, ∀ a ∈ e.identityKeys,
    (record a.columnName).isStored = true ∧ (record a.columnName).isNull = false
  unlike : records.Pairwise (Unlike c e)

/-- A row that was not read from the table has a key, and one that no row of the table has. -/
def Draft.HasFreshKey (c : Collation) (e : Entity) (records : List Record) (d : Draft) : Prop :=
  d.stored = none → (∃ a ∈ e.identityKeys, (d.record e a.columnName).isNull = false) ∧
    ∀ record ∈ records, e.sameKey c (d.record e) record = false

/-- A row to be stored that was read from the table, or has a key which no row of it has. -/
structure Draft.IsKeyed (c : Collation) (e : Entity) (records : List Record) (d : Draft) : Prop where
  stored : ∀ old, d.stored = some old → old ∈ records
  added : d.HasFreshKey c e records

theorem Record.AreKeyed.sameKey_self {c : Collation} {records : List Record} (areKeyed : AreKeyed c e records)
    (member : old ∈ records) : e.sameKey c old old = true := by
  rw [sameKey_iff]
  intro a key
  obtain ⟨stored, known⟩ := areKeyed.keyed old member a key
  exact Collation.equal_holds_iff.mpr ⟨known, known, c.order_self stored⟩

section Realised

variable {c : Collation} {records gone : List Record} {tableColumns : List String} {drafts : List Draft}
  {rows : List ViewRow} {removed : List Row}

theorem Draft.Shows.rowWrites_realise (shows : d.Shows e r) (plain : v.IsPlain e) (named : v.Admits e)
    (entity : e.HasPlainRows) (known : ∀ a ∈ e.scalars, a.columnName ∈ tableColumns)
    (areKeyed : Record.AreKeyed c e records) (isKeyed : d.IsKeyed c e records) (strict : Bool) (context : Context)
    (row : Nat) : ∃ writes, rowWrites v strict context row r = .ok writes ∧
      List.Forall₂ (Write.Realises c e tableColumns) writes (d.changes e) := by
  unfold changes
  split
  next old stored =>
    have isStored : r.isNew = false := by rw [shows.isNew, stored]; rfl
    have present := isKeyed.stored old stored
    split
    next unset =>
      have unchanged : r.changed = [] := by
        rw [List.eq_nil_iff_forall_not_mem]
        intro property changed
        have isSet := (shows.changed property).mp changed
        rw [List.isEmpty_iff.mp unset] at isSet
        contradiction
      exact ⟨[], ViewRow.rowWrites_of_unchanged isStored unchanged v strict, .nil⟩
    next edited =>
      obtain ⟨columns, keys, planned, written, areKeys, record⟩ := shows.rowWrites_stored stored plain named
        entity.toHasColumns entity.unversioned (fun a key => (areKeyed.keyed old present a key).2)
        (fun empty => edited (List.isEmpty_iff.mpr empty))
      refine ⟨_, planned, .cons ⟨rfl, rfl, ?_⟩ .nil⟩
      rw [← record]
      exact updateWrite_makes entity.toHasColumns known written areKeys (areKeyed.sameKey_self present)
  next added =>
    obtain ⟨values, planned, scalars, distinct, record⟩ := shows.rowWrites_added added plain named
      entity.toHasColumns entity.unversioned entity.discriminator (isKeyed.added added).1
    refine ⟨_, planned, .cons ⟨rfl, rfl, ?_⟩ .nil⟩
    rw [← record]
    exact insertWrite_makes entity.toHasColumns known scalars distinct

theorem Write.Deletes.realises {w : Write} (deletes : w.Deletes e old) (entity : e.HasPlainRows)
    (known : ∀ a ∈ e.scalars, a.columnName ∈ tableColumns) (areKeyed : Record.AreKeyed c e records)
    (member : old ∈ records) : w.Realises c e tableColumns (.deletion old) := by
  obtain ⟨keys, areKeys, rfl⟩ := deletes
  exact ⟨rfl, rfl, deleteWrite_makes entity.toHasColumns known areKeys (areKeyed.sameKey_self member)⟩

theorem rowWrites_realise (shown : List.Forall₂ (Draft.Shows e) drafts rows) (plain : v.IsPlain e)
    (named : v.Admits e) (entity : e.HasPlainRows) (known : ∀ a ∈ e.scalars, a.columnName ∈ tableColumns)
    (areKeyed : Record.AreKeyed c e records) (isKeyed : ∀ d ∈ drafts, d.IsKeyed c e records) (strict : Bool)
    (context : Context) (first : Nat) :
    ∃ lists, (rows.zipIdx first).mapM (fun item => rowWrites v strict context item.2 item.1) = .ok lists ∧
      List.Forall₂ (Write.Realises c e tableColumns) lists.flatten (drafts.flatMap (Draft.changes e)) := by
  induction shown generalizing first with
  | nil => exact ⟨[], rfl, .nil⟩
  | cons shows _ ih =>
      obtain ⟨writes, planned, makes⟩ := shows.rowWrites_realise plain named entity known areKeyed
        (isKeyed _ (List.mem_cons_self ..)) strict context first
      obtain ⟨lists, later, makesLater⟩ := ih (fun d member => isKeyed d (List.mem_cons_of_mem _ member)) (first + 1)
      refine ⟨writes :: lists, ?_, List.rel_append makes makesLater⟩
      simp only [List.zipIdx_cons, List.mapM_cons, planned, later]
      rfl

/-- What is planned for rows that were taken out of a view deletes the rows they were read from. -/
theorem removalWrites_delete (loaded : List.Forall₂ (Row.Loads e) removed gone) (plain : v.IsPlain e)
    (entity : e.HasPlainRows) (areKeyed : Record.AreKeyed c e records) (members : ∀ old ∈ gone, old ∈ records)
    (context : Context) (first : Nat) :
    ∃ writes, (removed.zipIdx first).mapM (fun item => removalWrite v context item.2 item.1) = .ok writes ∧
      List.Forall₂ (Write.Deletes e) writes gone := by
  induction loaded generalizing first with
  | nil => exact ⟨[], rfl, .nil⟩
  | @cons data old removed gone loads _ ih =>
      obtain ⟨keys, keyed, areKeys⟩ := loads.keyValues entity.unversioned
        (fun a key => (areKeyed.keyed old (members old (List.mem_cons_self ..)) a key).2) first
      have planned : removalWrite v context first data = .ok (deleteWrite e keys) := by
        simp only [removalWrite, plain.rootOf, keyed, entity.unversioned, bind, Except.bind, Option.bind_none]
        rfl
      obtain ⟨writes, later, deletesLater⟩ := ih (fun old member => members old (List.mem_cons_of_mem _ member))
        (first + 1)
      refine ⟨deleteWrite e keys :: writes, ?_, .cons ⟨keys, areKeys, rfl⟩ deletesLater⟩
      simp only [List.zipIdx_cons, List.mapM_cons, planned, later]
      rfl

theorem realise_of_delete {writes : List Write} (delete : List.Forall₂ (Write.Deletes e) writes gone)
    (entity : e.HasPlainRows) (known : ∀ a ∈ e.scalars, a.columnName ∈ tableColumns)
    (areKeyed : Record.AreKeyed c e records) (members : ∀ old ∈ gone, old ∈ records) :
    List.Forall₂ (Write.Realises c e tableColumns) writes (gone.map RowChange.deletion) := by
  induction delete with
  | nil => exact .nil
  | cons deletes _ ih =>
      exact .cons (deletes.realises entity known areKeyed (members _ (List.mem_cons_self ..)))
        (ih fun old member => members old (List.mem_cons_of_mem _ member))

theorem removalWrites_realise (loaded : List.Forall₂ (Row.Loads e) removed gone) (plain : v.IsPlain e)
    (entity : e.HasPlainRows) (known : ∀ a ∈ e.scalars, a.columnName ∈ tableColumns)
    (areKeyed : Record.AreKeyed c e records) (members : ∀ old ∈ gone, old ∈ records) (context : Context)
    (first : Nat) :
    ∃ writes, (removed.zipIdx first).mapM (fun item => removalWrite v context item.2 item.1) = .ok writes ∧
      List.Forall₂ (Write.Realises c e tableColumns) writes (gone.map RowChange.deletion) := by
  obtain ⟨writes, planned, delete⟩ := removalWrites_delete loaded plain entity areKeyed members context first
  exact ⟨writes, planned, realise_of_delete delete entity known areKeyed members⟩

end Realised

end ViewEngine
