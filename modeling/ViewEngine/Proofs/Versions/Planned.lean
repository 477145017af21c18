import ViewEngine.Proofs.Except
import ViewEngine.Proofs.Versions.Execution

namespace ViewEngine

open Sql

theorem Names.mem_ofList {name : String} {names : List String} : name ∈ ofList names ↔ name ∈ names := by
  have folded (set : Names) : name ∈ names.foldl (fun set name => insert name set) set ↔
      name ∈ set ∨ name ∈ names := by
    induction names generalizing set with
    | nil => simp
    | cons first rest ih => simp only [List.foldl_cons, ih, mem_insert, List.mem_cons, or_assoc, or_left_comm]
  rw [ofList, folded]
  simp

theorem Names.pairwise_insert {set : Names} (ascending : set.Pairwise (· < ·)) (name : String) :
    (insert name set).Pairwise (· < ·) := by
  induction set with
  | nil => exact List.pairwise_singleton ..
  | cons first rest ih =>
      obtain ⟨behind, later⟩ := List.pairwise_cons.mp ascending
      unfold insert
      split
      · exact ascending
      next different =>
        split
        next before =>
          refine List.pairwise_cons.mpr ⟨fun other member => ?_, ascending⟩
          rcases List.mem_cons.mp member with rfl | member
          · exact before
          · exact before.trans (behind other member)
        next after =>
          refine List.pairwise_cons.mpr ⟨fun other member => ?_, ih later⟩
          rcases mem_insert.mp member with rfl | member
          · exact lt_of_le_of_ne (not_lt.mp after) (Ne.symm different)
          · exact behind other member

theorem Names.nodup_ofList (names : List String) : (ofList names).Nodup := by
  have folded (set : Names) (ascending : set.Pairwise (· < ·)) :
      (names.foldl (fun set name => insert name set) set).Pairwise (· < ·) := by
    induction names generalizing set with
    | nil => exact ascending
    | cons first rest ih => exact ih _ (pairwise_insert ascending first)
  exact (folded [] .nil).imp ne_of_lt

/-- The entity whose rows stand at a path. -/
def CompiledView.entityAt? (v : CompiledView) (data : Row) (path : String) : Option Entity :=
  if path.isEmpty then some (v.rootOf data) else (v.joinPlan.atPath? path).map (·.entity)

/-- The properties of a node that have been changed. -/
def ViewRow.changedAt (r : ViewRow) (node : String) : Names :=
  Names.ofList ((r.changed.filter (Path.node · == node)).map Path.property)

namespace Planning

variable {e : Entity} {columns : List Attribute} {a b : Attribute}

theorem mem_addTo (hasColumns : e.HasColumns) (written : AreWritten e columns) (member : a ∈ e.attributes) :
    b ∈ a.addTo columns ↔ b ∈ columns ∨ b = a := by
  unfold Attribute.addTo
  split
  next known =>
    obtain ⟨other, otherMember, same⟩ := List.any_eq_true.mp known
    have equal := hasColumns.eq_of_id (Entity.mem_attributes_of_scalar (written.scalars other otherMember))
      member (beq_iff_eq.mp same)
    constructor
    · exact .inl
    · rintro (there | rfl)
      · exact there
      · exact equal ▸ otherMember
  next => simp

theorem AreWritten.addTo (written : AreWritten e columns) (member : a ∈ e.attributes)
    (writable : e.isWritable a = true) : AreWritten e (a.addTo columns) := by
  unfold Attribute.addTo
  split
  next => exact written
  next unknown =>
    have scalar := Entity.mem_scalars_of_writable member writable
    refine ⟨fun b inside => ?_, fun b inside => ?_, ?_⟩
    · rcases List.mem_append.mp inside with there | new
      · exact written.scalars b there
      · exact List.mem_singleton.mp new ▸ scalar
    · rcases List.mem_append.mp inside with there | new
      · exact written.writable b there
      · exact List.mem_singleton.mp new ▸ writable
    · refine List.nodup_append.mpr ⟨written.distinct, List.pairwise_singleton .., ?_⟩
      rintro other there new isNew rfl
      rw [List.mem_singleton.mp isNew] at there
      exact unknown (List.any_eq_true.mpr ⟨a, there, beq_self_eq_true _⟩)

theorem areWritten_nil : AreWritten e [] where
  scalars := by simp
  writable := by simp
  distinct := List.nodup_nil

theorem AreWritten.foldl_addTo (written : AreWritten e columns) (links : List Attribute)
    (members : ∀ a ∈ links, a ∈ e.attributes ∧ e.isWritable a = true) :
    AreWritten e (links.foldl (fun columns a => a.addTo columns) columns) := by
  induction links generalizing columns with
  | nil => exact written
  | cons a rest ih =>
      obtain ⟨member, writable⟩ := members a (List.mem_cons_self ..)
      exact ih (written.addTo member writable) fun b inside => members b (List.mem_cons_of_mem _ inside)

theorem mem_foldl_addTo (hasColumns : e.HasColumns) {links : List Attribute} (written : AreWritten e columns)
    (members : ∀ a ∈ links, a ∈ e.attributes ∧ e.isWritable a = true) :
    b ∈ links.foldl (fun columns a => a.addTo columns) columns ↔ b ∈ columns ∨ b ∈ links := by
  induction links generalizing columns with
  | nil => simp
  | cons a rest ih =>
      obtain ⟨member, writable⟩ := members a (List.mem_cons_self ..)
      rw [List.foldl_cons, ih (written.addTo member writable) fun b inside =>
        members b (List.mem_cons_of_mem _ inside), mem_addTo hasColumns written member, List.mem_cons, or_assoc]

theorem changedColumns_ok (hasColumns : e.HasColumns) (strict : Bool) (path : String)
    {properties : List String} (written : AreWritten e columns)
    (writable : ∀ property ∈ properties, ∃ a ∈ e.attributes, a.property = property ∧ e.isWritable a = true) :
    ∃ changed, changedColumns strict e path properties columns = .ok changed ∧ AreWritten e changed ∧
      ∀ a ∈ e.attributes, a ∈ changed ↔ a ∈ columns ∨ a.property ∈ properties := by
  induction properties generalizing columns with
  | nil => exact ⟨columns, rfl, written, by simp⟩
  | cons property rest ih =>
      obtain ⟨a, member, rfl, canWrite⟩ := writable property (List.mem_cons_self ..)
      obtain ⟨changed, planned, areWritten, same⟩ := ih (written.addTo member canWrite)
        fun property inside => writable property (List.mem_cons_of_mem _ inside)
      refine ⟨changed, ?_, areWritten, fun b inside => ?_⟩
      · have found := (Entity.property?_eq_some_iff hasColumns.properties).mpr ⟨member, rfl⟩
        simp only [changedColumns, found, canWrite, if_true, planned]
      · rw [same b inside, mem_addTo hasColumns written member, List.mem_cons, or_assoc]
        refine or_congr_right (or_congr_left ⟨fun equal => equal ▸ rfl, fun equal => ?_⟩)
        exact hasColumns.eq_of_property inside member equal

theorem changedColumns_written {strict : Bool} {path : String} {properties : List String}
    {changed : List Attribute} (written : AreWritten e columns)
    (planned : changedColumns strict e path properties columns = .ok changed) : AreWritten e changed := by
  induction properties generalizing columns with
  | nil =>
      cases planned
      exact written
  | cons property rest ih =>
      unfold changedColumns at planned
      split at planned
      next =>
        obtain ⟨-, -, planned⟩ := bind_eq_ok.mp planned
        exact ih written planned
      next a found =>
        refine ih ?_ planned
        split
        · next writable => exact written.addTo (List.mem_of_find?_eq_some found) writable
        · exact written

theorem mem_linkColumns {plan : JoinPlan} {path : String} {link : Option JoinEntry}
    (member : a ∈ linkColumns plan e path link) : a ∈ e.attributes ∧ e.isWritable a = true := by
  obtain ⟨found, writable⟩ := List.mem_filter.mp member
  obtain ⟨column, -, lookup⟩ := List.mem_filterMap.mp found
  exact ⟨List.mem_of_find?_eq_some lookup, writable⟩

end Planning

/-- A node that was read from a row, and has been given new values for some of its columns since. -/
structure ViewRow.EditsRecord (r : ViewRow) (e : Entity) (node : String) (data : Row) (old : Record) :
    Prop where
  standing : r.data.nodeAt node = .ok (some data)
  keys : ∀ a ∈ e.storageKeys, data.get? a.property = some (old a.columnName)
  edited : r.changedAt node ≠ []
  writable : ∀ property ∈ r.changedAt node,
    ∃ a ∈ e.attributes, a.property = property ∧ e.isWritable a = true
  unedited : ∀ a ∈ e.scalars, e.isWritable a = true → a.property ∉ r.changedAt node →
    ∀ value, data.get? a.property = some value → value = old a.columnName

/-- A stored row whose columns hold values of their types, and whose keys are there. -/
structure Record.IsTyped (e : Entity) (record : Record) : Prop where
  coerced : ∀ a ∈ e.scalars, a.columnType.coerce (record a.columnName) = record a.columnName
  keyed : ∀ a ∈ e.identityKeys, (record a.columnName).isStored = true ∧ (record a.columnName).isNull = false

namespace Planning

variable {e : Entity} {version : VersionColumns} {data : Row} {old : Record} {opening : Timestamp}

def keysOf (e : Entity) (old : Record) : List (Attribute × Value) :=
  e.storageKeys.map fun a => (a, old a.columnName)

theorem keyValues_ok {path : String} {row : Nat}
    (keys : ∀ a ∈ e.storageKeys, data.get? a.property = some (old a.columnName))
    (known : ∀ a ∈ e.storageKeys, (old a.columnName).isNull = false) :
    keyValues e data path row = .ok (keysOf e old) := by
  refine mapM_eq_ok fun a member => ?_
  have present := known a member
  simp only [keys a member]
  cases value : old a.columnName with
  | null => rw [value] at present; contradiction
  | _ => rfl

/-- The storage keys are found with the values that the node holds. -/
theorem keyValues_held {path : String} {row : Nat} {keys : List (Attribute × Value)}
    (found : keyValues e data path row = .ok keys) :
    keys.map Prod.fst = e.storageKeys ∧ ∀ key ∈ keys, data.get? key.1.property = some key.2 := by
  unfold keyValues at found
  generalize e.storageKeys = attributes at found
  have each := forall₂_of_mapM found
  clear found
  induction each with
  | nil => exact ⟨rfl, by simp⟩
  | @cons a key attributes keys found _ ih =>
      have first : key.1 = a ∧ data.get? a.property = some key.2 := by
        split at found
        · contradiction
        · contradiction
        · next value _ held =>
            cases found
            exact ⟨rfl, held⟩
      obtain ⟨rfl, held⟩ := first
      refine ⟨by rw [List.map_cons, ih.1], fun other member => ?_⟩
      rcases List.mem_cons.mp member with rfl | later
      · exact held
      · exact ih.2 other later

theorem keysOf_attributes (e : Entity) (old : Record) : (keysOf e old).map Prod.fst = e.storageKeys := by
  rw [keysOf, List.map_map]
  exact List.map_id' _

theorem bindsKeys (versioned : e.IsVersioned version) (hasColumns : e.HasColumns) (typed : old.IsTyped e)
    {parameters : List BoundParameter} (distinct : (parameters.map (·.name)).Nodup)
    (bound : ∀ p ∈ keyParameters (keysOf e old), p ∈ parameters) : BindsKeys e old parameters where
  bound a member :=
    List.mem_map.mpr ⟨_, bound _ (mem_keyParameters (List.mem_map.mpr ⟨a, member, rfl⟩)), rfl⟩
  values a member := by
    have value := BoundParameter.valueOf_of_mem distinct
      (bound _ (mem_keyParameters (List.mem_map.mpr ⟨a, member, rfl⟩)))
    exact value.trans (typed.coerced a (versioned.storageKeys_scalars hasColumns a member))

theorem closingParameters_distinct (versioned : e.IsVersioned version) (hasColumns : e.HasColumns)
    {keys : List (Attribute × Value)} (keyed : keys.map Prod.fst = e.storageKeys) (now : Timestamp) :
    ((.now now :: keyParameters keys : List BoundParameter).map (·.name)).Nodup := by
  rw [List.map_cons, keyParameters_names, keyed]
  refine List.nodup_cons.mpr ⟨?_, BoundParameter.keyNames_nodup (hasColumns.plainNames_nodup
    (versioned.storageKeys_scalars hasColumns) (versioned.storageKeys_nodup hasColumns))⟩
  intro member
  obtain ⟨name, -, same⟩ := List.mem_map.mp member
  exact BoundParameter.keyName_ne_nowName same

theorem storageKeys_known (versioned : e.IsVersioned version) (typed : old.IsTyped e)
    (dated : old.interval? version = some ⟨opening, none⟩) :
    ∀ a ∈ e.storageKeys, (old a.columnName).isNull = false := by
  intro a member
  rw [versioned.storageKeys_eq] at member
  rcases List.mem_append.mp member with key | isOpening
  · exact (typed.keyed a key).2
  · rw [List.mem_singleton.mp isOpening, Record.interval?_opening dated]
    rfl

theorem isOpen_of_typed {c : Collation} (typed : old.IsTyped e)
    (dated : old.interval? version = some ⟨opening, none⟩) : old.IsOpen c e version opening where
  interval := dated
  keyed := by
    rw [Record.sameKey_iff]
    intro key member
    obtain ⟨stored, known⟩ := typed.keyed key member
    rw [Collation.equal_holds_iff]
    exact ⟨known, known, c.order_self stored⟩

/-- The end and the start of a version that are planned for a node, as statements. -/
theorem versionWrites_eq (versioned : e.IsVersioned version) {row : Nat} {node path : String}
    {now : Timestamp} {columns : List Attribute} {keys : List (Attribute × Value)} :
    versionWrites e version now row node path data columns keys = .ok [
      { path, statement := (closing e version.closing.columnName now keys).1,
        parameters := (closing e version.closing.columnName now keys).2, requiresMatch := true },
      { path, statement := successor e version.opening.columnName columns keys,
        parameters := successorParameters columns data now keys,
        reopens := some ⟨row, node, version.opening.property⟩ }] := by
  simp only [versionWrites, Attribute.column_of_scalar versioned.opening,
    Attribute.column_of_scalar versioned.closing]
  rfl

/-- The writes of a changed node of a stored version: its end, and the start of the next one. -/
theorem nodeWrites_eq {v : CompiledView} {context : Context} {r : ViewRow} {node : String}
    (strict : Bool) (row : Nat) (versioned : e.IsVersioned version) (hasColumns : e.HasColumns)
    (entity : v.entityAt? r.data (Path.withoutPositions node) = some e)
    (edits : r.EditsRecord e node data old) (known : ∀ a ∈ e.storageKeys, (old a.columnName).isNull = false)
    (slow : context.fastUpdate = false) :
    ∃ columns, nodeWrites v strict context row r node =
        versionWrites e version context.writeTime row node (Path.withoutPositions node) data columns
          (keysOf e old) ∧
      AreWritten e columns ∧
      (∀ a ∈ e.attributes, a.property ∈ r.changedAt node → a ∈ columns) ∧
      ∀ a ∈ columns, a.property ∉ r.changedAt node → (data.get? a.property).isSome = true := by
  generalize atPath : Path.withoutPositions node = path at *
  obtain ⟨link, linked, resolved, present⟩ : ∃ link : Option JoinEntry,
      (if path.isEmpty then none else v.joinPlan.atPath? path) = link ∧
        (link.map (·.entity)).getD (v.rootOf r.data) = e ∧ (!path.isEmpty && link.isNone) = false := by
    unfold CompiledView.entityAt? at entity
    split at entity
    next root => exact ⟨none, if_pos root, Option.some.inj entity, by simp [root]⟩
    next nested =>
      obtain ⟨entry, found, rfl⟩ := Option.map_eq_some_iff.mp entity
      exact ⟨some entry, by rw [if_neg nested, found], rfl, by simp⟩
  obtain ⟨changed, planned, written, same⟩ :=
    changedColumns_ok hasColumns strict path areWritten_nil edits.writable
  have linked_columns : ∀ a ∈ (linkColumns v.joinPlan e path link).filter (data.contains ·.property),
      a ∈ e.attributes ∧ e.isWritable a = true :=
    fun a member => mem_linkColumns (List.mem_filter.mp member).1
  have all := written.foldl_addTo _ linked_columns
  have selected (a : Attribute) := mem_foldl_addTo hasColumns written linked_columns (b := a)
  have inChanged (a : Attribute) (member : a ∈ e.attributes) : a ∈ changed ↔ a.property ∈ r.changedAt node := by
    rw [same a member]
    simp
  have nonempty : changed.isEmpty = false := by
    obtain ⟨property, edited⟩ := List.exists_mem_of_ne_nil _ edits.edited
    obtain ⟨a, member, rfl, -⟩ := edits.writable property edited
    rw [List.isEmpty_eq_false_iff]
    exact List.ne_nil_of_mem ((inChanged a member).mpr edited)
  refine ⟨_, ?_, all, fun a member edited => ?_, fun a member unedited => ?_⟩
  · unfold ViewRow.changedAt at planned
    simp only [nodeWrites, atPath, linked, resolved, present, edits.standing, planned, nonempty,
      keyValues_ok edits.keys known, versioned.declared, slow, bind, Except.bind, Bool.false_eq_true,
      if_false]
  · exact (selected a).mpr (.inl ((inChanged a member).mpr edited))
  · rcases (selected a).mp member with isChanged | linkedTo
    · exact absurd ((inChanged a (Entity.mem_attributes_of_scalar (all.scalars a member))).mp isChanged)
        unedited
    · exact (List.mem_filter.mp linkedTo).2

/-- A changed node without an entity or a column to write is not written; any other is updated, or its
version succeeded. -/
theorem nodeWrites_cases {v : CompiledView} {strict : Bool} {context : Context} {row : Nat} {r : ViewRow}
    {node : String} {writes : List Write} (planned : nodeWrites v strict context row r node = .ok writes) :
    writes = [] ∨ ∃ other data columns keys, v.entityAt? r.data (Path.withoutPositions node) = some other ∧
      r.data.nodeAt node = .ok (some data) ∧ AreWritten other columns ∧
      keyValues other data (Path.withoutPositions node) row = .ok keys ∧
      (writes = [updateWrite other (Path.withoutPositions node) data columns keys] ∨
        ∃ version, other.version = some version ∧ versionWrites other version context.writeTime row node
          (Path.withoutPositions node) data columns keys = .ok writes) := by
  unfold nodeWrites at planned
  dsimp only at planned
  generalize Path.withoutPositions node = path at *
  generalize linked : (if path.isEmpty then none else v.joinPlan.atPath? path) = link at planned
  split at planned
  next =>
    obtain ⟨-, -, planned⟩ := bind_eq_ok.mp planned
    cases planned
    exact .inl rfl
  next present =>
    have entity : v.entityAt? r.data path = some ((link.map (·.entity)).getD (v.rootOf r.data)) := by
      unfold CompiledView.entityAt?
      split at linked
      next root => rw [if_pos root, ← linked]; rfl
      next nested =>
        rw [if_neg nested, linked]
        cases link with
        | none => simp [nested] at present
        | some entry => rfl
    obtain ⟨standing, found, planned⟩ := bind_eq_ok.mp planned
    split at planned
    next =>
      cases planned
      exact .inl rfl
    next data =>
      obtain ⟨changed, isChanged, planned⟩ := bind_eq_ok.mp planned
      split at planned
      next =>
        cases planned
        exact .inl rfl
      next =>
        obtain ⟨keys, keyed, planned⟩ := bind_eq_ok.mp planned
        have written := (changedColumns_written areWritten_nil isChanged).foldl_addTo
          ((linkColumns v.joinPlan _ path link).filter (data.contains ·.property))
          fun a member => mem_linkColumns (List.mem_filter.mp member).1
        refine .inr ⟨_, data, _, keys, entity, found, written, keyed, ?_⟩
        split at planned
        next version declared _ => exact .inr ⟨version, declared, planned⟩
        next =>
          cases planned
          exact .inl rfl

end Planning

/-- A plan consists of the writes of the view with its keys taken over. -/
theorem View.plan_writes {v : View} {context : Context} {settings : ViewSettings} {plan : WritePlan}
    (planned : (v.plan settings context).2 = .ok plan) :
    ∃ writes, (v.plan settings context).1.writes settings.strictWriteBack context = .ok writes ∧
      plan = .ofWrites context.writeTime writes := by
  dsimp only [View.plan] at planned ⊢
  generalize ViewRow.propagateAll settings.strictWriteBack v.compiled.joinPlan v.rows = propagated at planned ⊢
  obtain ⟨rows, _ | _⟩ := propagated
  · contradiction
  · obtain ⟨writes, written, rfl⟩ := map_eq_ok.mp planned
    exact ⟨writes, written, rfl⟩

end ViewEngine
