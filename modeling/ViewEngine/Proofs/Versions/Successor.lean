import ViewEngine.Proofs.Versions.Interval
import ViewEngine.Proofs.Versions.Statements

namespace ViewEngine

open Sql

namespace Entity

open BoundParameter

/-- The columns of an entity are told apart by the names of their parameters, and its identity keys
are columns. -/
structure HasColumns (e : Entity) : Prop where
  properties : (e.attributes.map (·.property)).Nodup
  keys : ∀ a ∈ e.identityKeys, a ∈ e.scalars
  names : ((e.scalars.map (·.columnName)).map plainName).Nodup

variable {e : Entity} {version : VersionColumns} {a b : Attribute}

theorem isWritable_iff (scalar : a ∈ e.scalars) :
    e.isWritable a = true ↔ a.primaryKey = false ∧ e.isVersionAttribute a = false := by
  simp [isWritable, Attribute.column_of_scalar scalar, isAssociation_of_scalar scalar]

theorem mem_scalars_of_writable (member : a ∈ e.attributes) (writable : e.isWritable a = true) :
    a ∈ e.scalars := by
  simp only [isWritable, Bool.and_eq_true, Bool.not_eq_true'] at writable
  exact List.mem_filter.mpr ⟨member, by simp [writable.1.1.1, writable.1.1.2]⟩

namespace HasColumns

theorem eq_of_property (columns : e.HasColumns) (first : a ∈ e.attributes) (second : b ∈ e.attributes)
    (same : a.property = b.property) : a = b :=
  List.inj_on_of_nodup_map columns.properties first second same

theorem eq_of_id (columns : e.HasColumns) (first : a ∈ e.attributes) (second : b ∈ e.attributes)
    (same : a.id = b.id) : a = b :=
  columns.eq_of_property first second (congrArg AttributeId.property same)

theorem eq_of_columnName (columns : e.HasColumns) (first : a ∈ e.scalars) (second : b ∈ e.scalars)
    (same : a.columnName = b.columnName) : a = b :=
  List.inj_on_of_nodup_map columns.names.of_map first second same

theorem attributes_nodup (columns : e.HasColumns) : e.attributes.Nodup :=
  columns.properties.of_map

theorem columnNames_nodup (columns : e.HasColumns) {attributes : List Attribute}
    (scalars : ∀ a ∈ attributes, a ∈ e.scalars) (distinct : attributes.Nodup) :
    (attributes.map (·.columnName)).Nodup :=
  distinct.map_on fun _ first _ second same =>
    columns.eq_of_columnName (scalars _ first) (scalars _ second) same

theorem plainNames_nodup (columns : e.HasColumns) {attributes : List Attribute}
    (scalars : ∀ a ∈ attributes, a ∈ e.scalars) (distinct : attributes.Nodup) :
    ((attributes.map (·.columnName)).map plainName).Nodup := by
  rw [List.map_map]
  refine distinct.map_on fun first firstMember second secondMember same => ?_
  have names := columns.names
  rw [List.map_map] at names
  exact List.inj_on_of_nodup_map names (scalars _ firstMember) (scalars _ secondMember) same

end HasColumns

namespace IsVersioned

theorem isVersionAttribute_iff (versioned : e.IsVersioned version) :
    e.isVersionAttribute a = true ↔ version.opening.id = a.id ∨ version.closing.id = a.id := by
  simp [isVersionAttribute, versioned.declared]

theorem storageKeys_eq (versioned : e.IsVersioned version) :
    e.storageKeys = e.identityKeys ++ [version.opening] := by
  simp [storageKeys, versioned.declared]

theorem storageKeys_scalars (versioned : e.IsVersioned version) (columns : e.HasColumns) :
    ∀ a ∈ e.storageKeys, a ∈ e.scalars := by
  intro a member
  rw [versioned.storageKeys_eq] at member
  rcases List.mem_append.mp member with key | opening
  · exact columns.keys a key
  · rw [List.mem_singleton.mp opening]
    exact versioned.opening

theorem opening_not_key (versioned : e.IsVersioned version) : version.opening ∉ e.identityKeys := by
  intro key
  have noVersion := (mem_identityKeys_iff.mp key).2.2
  rw [versioned.isVersionAttribute_iff.mpr (.inl rfl)] at noVersion
  contradiction

theorem storageKeys_nodup (versioned : e.IsVersioned version) (columns : e.HasColumns) :
    e.storageKeys.Nodup := by
  rw [versioned.storageKeys_eq]
  refine List.nodup_append.mpr ⟨?_, List.pairwise_singleton .., ?_⟩
  · exact (columns.attributes_nodup.filter _).filter _
  · intro key member opening isOpening same
    rw [List.mem_singleton.mp isOpening] at same
    exact versioned.opening_not_key (same ▸ member)

end IsVersioned

end Entity

namespace Planning

open Entity

variable {c : Collation} {e : Entity} {version : VersionColumns} {columns : List Attribute}
  {data : Row} {now : Timestamp} {keys : List (Attribute × Value)} {record : Record} {a : Attribute}
  {parameters : List BoundParameter}

structure AreWritten (e : Entity) (columns : List Attribute) : Prop where
  scalars : ∀ a ∈ columns, a ∈ e.scalars
  writable : ∀ a ∈ columns, e.isWritable a = true
  distinct : columns.Nodup

def carriedAttributes (e : Entity) (columns : List Attribute) : List Attribute :=
  e.identityKeys ++ e.scalars.filter fun a => e.isWritable a && !columns.any (·.id == a.id)

theorem columnNames_of_columns {attributes : List Attribute} (columns : ∀ a ∈ attributes, a.column.isSome = true) :
    columnNames attributes = attributes.map (·.columnName) := by
  rw [columnNames, ← List.filterMap_eq_map']
  refine List.filterMap_congr fun a member => ?_
  obtain ⟨column, found⟩ := Option.isSome_iff_exists.mp (columns a member)
  rw [Attribute.columnName, found, Option.getD_some]

theorem columnNames_eq_map {attributes : List Attribute} (scalars : ∀ a ∈ attributes, a ∈ e.scalars) :
    columnNames attributes = attributes.map (·.columnName) :=
  columnNames_of_columns fun a member => Option.isSome_of_eq_some (Attribute.column_of_scalar (scalars a member))

theorem carriedAttributes_scalars (hasColumns : e.HasColumns) :
    ∀ a ∈ carriedAttributes e columns, a ∈ e.scalars := by
  intro a member
  rcases List.mem_append.mp member with key | kept
  · exact hasColumns.keys a key
  · exact (List.mem_filter.mp kept).1

theorem carriedColumns_eq (hasColumns : e.HasColumns) :
    carriedColumns e columns = (carriedAttributes e columns).map (·.columnName) := by
  rw [carriedColumns, carriedAttributes, List.map_append, columnNames_eq_map hasColumns.keys,
    columnNames_eq_map fun a member => (List.mem_filter.mp member).1]

def successorAttributes (e : Entity) (version : VersionColumns) (columns : List Attribute) :
    List Attribute :=
  carriedAttributes e columns ++ columns ++ [version.opening]

theorem successorItems_columns (hasColumns : e.HasColumns) (columns : List Attribute) :
    (successorItems e version.opening.columnName columns).map Prod.fst =
      (successorAttributes e version columns).map (·.columnName) := by
  simp only [successorItems, successorAttributes, carriedColumns_eq hasColumns, List.map_append,
    List.map_map, List.map_cons, List.map_nil]
  rfl

theorem successorAttributes_scalars (versioned : e.IsVersioned version) (hasColumns : e.HasColumns)
    (written : AreWritten e columns) : ∀ a ∈ successorAttributes e version columns, a ∈ e.scalars := by
  intro a member
  rcases List.mem_append.mp member with selected | opening
  · rcases List.mem_append.mp selected with carried | new
    · exact carriedAttributes_scalars hasColumns a carried
    · exact written.scalars a new
  · rw [List.mem_singleton.mp opening]
    exact versioned.opening

theorem opening_not_writable (versioned : e.IsVersioned version) :
    e.isWritable version.opening = false := by
  rw [← Bool.not_eq_true]
  intro writable
  have noVersion := ((isWritable_iff versioned.opening).mp writable).2
  rw [versioned.isVersionAttribute_iff.mpr (.inl rfl)] at noVersion
  contradiction

theorem closing_not_writable (versioned : e.IsVersioned version) :
    e.isWritable version.closing = false := by
  rw [← Bool.not_eq_true]
  intro writable
  have noVersion := ((isWritable_iff versioned.closing).mp writable).2
  rw [versioned.isVersionAttribute_iff.mpr (.inr rfl)] at noVersion
  contradiction

theorem carriedAttributes_nodup (hasColumns : e.HasColumns) : (carriedAttributes e columns).Nodup := by
  refine List.nodup_append.mpr ⟨(hasColumns.attributes_nodup.filter _).filter _,
    (hasColumns.attributes_nodup.filter _).filter _, ?_⟩
  intro key member kept keptMember same
  subst same
  obtain ⟨scalar, writable⟩ := List.mem_filter.mp keptMember
  simp only [Bool.and_eq_true] at writable
  have primary := (mem_identityKeys_iff.mp member).2.1
  rw [((isWritable_iff scalar).mp writable.1).1] at primary
  contradiction

theorem successorAttributes_nodup (versioned : e.IsVersioned version) (hasColumns : e.HasColumns)
    (written : AreWritten e columns) : (successorAttributes e version columns).Nodup := by
  have carriedApart : ∀ a ∈ carriedAttributes e columns, ∀ b ∈ columns, a ≠ b := by
    rintro a carried b new rfl
    rcases List.mem_append.mp carried with key | kept
    · have primary := (mem_identityKeys_iff.mp key).2.1
      rw [((isWritable_iff (written.scalars a new)).mp (written.writable a new)).1] at primary
      contradiction
    · have unwritten := (List.mem_filter.mp kept).2
      simp only [Bool.and_eq_true, Bool.not_eq_true', List.any_eq_false, beq_iff_eq] at unwritten
      exact unwritten.2 a new rfl
  have openingApart : ∀ a ∈ carriedAttributes e columns ++ columns, ∀ b ∈ [version.opening], a ≠ b := by
    rintro a selected b opening rfl
    rw [List.mem_singleton.mp opening] at selected
    rcases List.mem_append.mp selected with carried | new
    · rcases List.mem_append.mp carried with key | kept
      · exact versioned.opening_not_key key
      · have writable := (List.mem_filter.mp kept).2
        simp [opening_not_writable versioned] at writable
    · have writable := written.writable _ new
      rw [opening_not_writable versioned] at writable
      contradiction
  exact List.nodup_append.mpr
    ⟨List.nodup_append.mpr ⟨carriedAttributes_nodup hasColumns, written.distinct, carriedApart⟩,
      List.pairwise_singleton .., openingApart⟩

/-- Every column of an entity is carried over, written, or an end of the interval. -/
theorem scalar_cases (versioned : e.IsVersioned version) (hasColumns : e.HasColumns)
    (written : AreWritten e columns) (scalar : a ∈ e.scalars) :
    a ∈ carriedAttributes e columns ∨ a ∈ columns ∨ a = version.opening ∨ a = version.closing := by
  have member := mem_attributes_of_scalar scalar
  cases dated : e.isVersionAttribute a with
  | true =>
      rcases versioned.isVersionAttribute_iff.mp dated with opening | closing
      · exact .inr (.inr (.inl (hasColumns.eq_of_id (mem_attributes_of_scalar versioned.opening) member
          opening).symm))
      · exact .inr (.inr (.inr (hasColumns.eq_of_id (mem_attributes_of_scalar versioned.closing) member
          closing).symm))
  | false =>
      cases primary : a.primaryKey with
      | true =>
          exact .inl (List.mem_append_left _ (mem_identityKeys_iff.mpr ⟨member, primary, dated⟩))
      | false =>
          have writable := (isWritable_iff scalar).mpr ⟨primary, dated⟩
          cases new : columns.any (·.id == a.id) with
          | true =>
              obtain ⟨b, bMember, same⟩ := List.any_eq_true.mp new
              have equal := hasColumns.eq_of_id (mem_attributes_of_scalar (written.scalars b bMember))
                member (beq_iff_eq.mp same)
              exact .inr (.inl (equal ▸ bMember))
          | false =>
              exact .inl (List.mem_append_right _ (List.mem_filter.mpr ⟨scalar, by simp [writable, new]⟩))

theorem successorItems_nodup (versioned : e.IsVersioned version) (hasColumns : e.HasColumns)
    (written : AreWritten e columns) :
    ((successorItems e version.opening.columnName columns).map Prod.fst).Nodup := by
  rw [successorItems_columns hasColumns]
  exact hasColumns.columnNames_nodup (successorAttributes_scalars versioned hasColumns written)
    (successorAttributes_nodup versioned hasColumns written)

theorem succeeding_of_item (versioned : e.IsVersioned version) (hasColumns : e.HasColumns)
    (written : AreWritten e columns) {column : String} {expr : Expr}
    (item : (column, expr) ∈ successorItems e version.opening.columnName columns) :
    succeeding c e version.opening.columnName columns parameters record column =
      expr.eval c (.ofRecord parameters record) := by
  refine Record.assign_of_mem ?_ (List.mem_map.mpr ⟨(column, expr), item, rfl⟩) _
  rw [List.map_map]
  exact successorItems_nodup versioned hasColumns written

theorem succeeding_carried (versioned : e.IsVersioned version) (hasColumns : e.HasColumns)
    (written : AreWritten e columns) (carried : a ∈ carriedAttributes e columns) :
    succeeding c e version.opening.columnName columns parameters record a.columnName =
      record a.columnName := by
  have item : (a.columnName, Expr.unqualified a.columnName) ∈
      successorItems e version.opening.columnName columns := by
    refine List.mem_append_left _ (List.mem_append_left _ (List.mem_map.mpr ⟨a.columnName, ?_, rfl⟩))
    rw [carriedColumns_eq hasColumns]
    exact List.mem_map_of_mem carried
  rw [succeeding_of_item versioned hasColumns written item, Expr.eval_unqualified, Frame.ofRecord]

theorem successorParameters_distinct (versioned : e.IsVersioned version) (hasColumns : e.HasColumns)
    (written : AreWritten e columns) (keyed : keys.map Prod.fst = e.storageKeys) :
    ((successorParameters columns data now keys).map (·.name)).Nodup := by
  refine successorParameters_nodup ?_ (hasColumns.plainNames_nodup written.scalars written.distinct)
  rw [keyed]
  exact hasColumns.plainNames_nodup (versioned.storageKeys_scalars hasColumns)
    (versioned.storageKeys_nodup hasColumns)

theorem succeeding_written (versioned : e.IsVersioned version) (hasColumns : e.HasColumns)
    (written : AreWritten e columns) (keyed : keys.map Prod.fst = e.storageKeys) (new : a ∈ columns) :
    succeeding c e version.opening.columnName columns (successorParameters columns data now keys) record
      a.columnName = a.columnType.coerce ((data.get? a.property).getD .null) := by
  have item : (a.columnName, placeholder a) ∈ successorItems e version.opening.columnName columns :=
    List.mem_append_left _ (List.mem_append_right _ (List.mem_map.mpr ⟨a, new, rfl⟩))
  have bound : valueParameter a ((data.get? a.property).getD .null) ∈
      successorParameters columns data now keys :=
    List.mem_append_left _ (List.mem_append_left _ (List.mem_map.mpr ⟨a, new, rfl⟩))
  rw [succeeding_of_item versioned hasColumns written item, placeholder, Expr.eval]
  exact BoundParameter.valueOf_of_mem (successorParameters_distinct versioned hasColumns written keyed) bound

theorem succeeding_opening (versioned : e.IsVersioned version) (hasColumns : e.HasColumns)
    (written : AreWritten e columns) (keyed : keys.map Prod.fst = e.storageKeys) :
    succeeding c e version.opening.columnName columns (successorParameters columns data now keys) record
      version.opening.columnName = .timestamp now := by
  have item : (version.opening.columnName, nowPlaceholder) ∈
      successorItems e version.opening.columnName columns :=
    List.mem_append_right _ (List.mem_singleton_self _)
  have bound : BoundParameter.now now ∈ successorParameters columns data now keys :=
    List.mem_append_left _ (List.mem_append_right _ (List.mem_singleton_self _))
  rw [succeeding_of_item versioned hasColumns written item, nowPlaceholder, Expr.eval]
  exact BoundParameter.valueOf_of_mem (successorParameters_distinct versioned hasColumns written keyed) bound

theorem succeeding_closing (versioned : e.IsVersioned version) (hasColumns : e.HasColumns)
    (written : AreWritten e columns) (different : version.closing ≠ version.opening) :
    succeeding c e version.opening.columnName columns parameters record version.closing.columnName =
      .null := by
  refine (Record.assign_of_not_mem ?_ _).trans rfl
  have apart : version.closing ∉ successorAttributes e version columns := by
    intro member
    rcases List.mem_append.mp member with selected | opening
    · rcases List.mem_append.mp selected with carried | new
      · rcases List.mem_append.mp carried with key | kept
        · have noVersion := (mem_identityKeys_iff.mp key).2.2
          rw [versioned.isVersionAttribute_iff.mpr (.inr rfl)] at noVersion
          contradiction
        · have writable := (List.mem_filter.mp kept).2
          simp [closing_not_writable versioned] at writable
      · have writable := written.writable _ new
        rw [closing_not_writable versioned] at writable
        contradiction
    · exact different (List.mem_singleton.mp opening)
  rw [List.map_map]
  intro member
  have known : version.closing.columnName ∈
      (successorAttributes e version columns).map (·.columnName) := by
    rw [← successorItems_columns hasColumns]
    exact member
  obtain ⟨a, selected, same⟩ := List.mem_map.mp known
  have equal := hasColumns.eq_of_columnName
    (successorAttributes_scalars versioned hasColumns written a selected) versioned.closing same
  exact apart (equal ▸ selected)

end Planning

end ViewEngine
