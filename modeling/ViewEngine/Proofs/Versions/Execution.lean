import ViewEngine.Proofs.Versions.History

namespace ViewEngine

open Sql

namespace Planning

section SingleRow

variable {α : Type} {test : α → Bool} {before after : List α} {item : α}

theorem map_if_single {change : α → α} (passes : test item = true)
    (others : ∀ other, other ∈ before ∨ other ∈ after → test other = false) :
    (before ++ item :: after).map (fun other => if test other then change other else other) =
      before ++ change item :: after := by
  have unchanged (items : List α) (inside : ∀ other ∈ items, other ∈ before ∨ other ∈ after) :
      items.map (fun other => if test other then change other else other) = items := by
    refine (List.map_congr_left fun other member => ?_).trans (List.map_id' items)
    simp [others other (inside other member)]
  rw [List.map_append, List.map_cons, unchanged before fun _ => .inl, unchanged after fun _ => .inr,
    if_pos passes]

theorem filter_single (passes : test item = true)
    (others : ∀ other, other ∈ before ∨ other ∈ after → test other = false) :
    (before ++ item :: after).filter test = [item] := by
  have nothing (items : List α) (inside : ∀ other ∈ items, other ∈ before ∨ other ∈ after) :
      items.filter test = [] := by
    rw [List.filter_eq_nil_iff]
    exact fun other member => by simp [others other (inside other member)]
  rw [List.filter_append, List.filter_cons, if_pos passes, nothing before fun _ => .inl,
    nothing after fun _ => .inr]
  rfl

theorem countP_single (passes : test item = true)
    (others : ∀ other, other ∈ before ∨ other ∈ after → test other = false) :
    (before ++ item :: after).countP test = 1 := by
  rw [List.countP_eq_length_filter, filter_single passes others, List.length_singleton]

end SingleRow

open BoundParameter

variable {c : Collation} {e : Entity} {version : VersionColumns} {columns : List Attribute}
  {data : Row} {now opening : Timestamp} {keys : List (Attribute × Value)} {old record : Record}
  {before after : List Record} {db : Database} {parameters : List BoundParameter}

structure BindsKeys (e : Entity) (old : Record) (parameters : List BoundParameter) : Prop where
  bound : ∀ a ∈ e.storageKeys, keyName a.columnName ∈ parameters.map (·.name)
  values : ∀ a ∈ e.storageKeys, valueOf parameters (keyName a.columnName) = old a.columnName

theorem hasKeys_iff (old record : Record) (versioned : e.IsVersioned version)
    (values : ∀ a ∈ e.storageKeys, valueOf parameters (keyName a.columnName) = old a.columnName) :
    hasKeys c e.storageKeys parameters record = true ↔ e.sameKey c record old = true ∧
      (c.equal (record version.opening.columnName) (old version.opening.columnName)).holds = true := by
  have compared : hasKeys c e.storageKeys parameters record = true ↔ ∀ a ∈ e.storageKeys,
      (c.equal (record a.columnName) (old a.columnName)).holds = true := by
    rw [hasKeys, List.all_eq_true]
    exact forall₂_congr fun a member => by rw [values a member]
  rw [compared, versioned.storageKeys_eq, Record.sameKey_iff]
  simp only [List.mem_append, List.mem_singleton, or_imp, forall_and, forall_eq]

theorem equal_timestamps (a b : Timestamp) :
    (c.equal (.timestamp a) (.timestamp b)).holds = true ↔ a = b := by
  rw [Collation.equal_holds_iff, c.order_timestamps, cmp_eq_eq_iff]
  exact ⟨fun same => same.2.2, fun same => ⟨rfl, rfl, same⟩⟩

theorem hasKeys_eq_false (versioned : e.IsVersioned version)
    (versions : Versions c e version (before ++ old :: after)) (isOpen : old.IsOpen c e version opening)
    (binds : BindsKeys e old parameters) (member : record ∈ before ∨ record ∈ after) :
    hasKeys c e.storageKeys parameters record = false := by
  rw [← Bool.not_eq_true, hasKeys_iff _ _ versioned binds.values]
  rintro ⟨same, begins⟩
  obtain ⟨i, dated, nonempty⟩ := versions.dated_of_mem member
  rw [Record.interval?_opening dated, Record.interval?_opening isOpen.interval, equal_timestamps] at begins
  have covered := nonempty.covers_opening
  rw [begins] at covered
  exact versions.not_covers_of_sameKey isOpen.interval member same dated (le_refl _) covered

theorem hasKeys_self (versioned : e.IsVersioned version) (isOpen : old.IsOpen c e version opening)
    (binds : BindsKeys e old parameters) (sameKey : e.sameKey c record old = true)
    (sameOpening : record version.opening.columnName = old version.opening.columnName) :
    hasKeys c e.storageKeys parameters record = true := by
  rw [hasKeys_iff _ _ versioned binds.values, sameOpening, Record.interval?_opening isOpen.interval, equal_timestamps]
  exact ⟨sameKey, rfl⟩

def StoresEntity (e : Entity) (table : Table) : Prop :=
  ∀ column, column ∈ table.columns ↔ column ∈ e.scalars.map (·.columnName)

theorem StoresEntity.mem {table : Table} (stores : StoresEntity e table) {a : Attribute}
    (scalar : a ∈ e.scalars) : a.columnName ∈ table.columns :=
  (stores _).mpr (List.mem_map_of_mem scalar)

theorem closeStatement_execute?_open (versioned : e.IsVersioned version) (hasColumns : e.HasColumns)
    (known : ∀ a ∈ e.scalars, a.columnName ∈ (db e.table).columns)
    (rows : (db e.table).rows = before ++ old :: after)
    (versions : Versions c e version (before ++ old :: after)) (isOpen : old.IsOpen c e version opening)
    (binds : BindsKeys e old parameters) (nowBound : nowName ∈ parameters.map (·.name))
    (nowValue : valueOf parameters nowName = .timestamp now) :
    (closeStatement e.table version.closing.columnName e.storageKeys).execute? c parameters db =
      some (Function.update db e.table { db e.table with
        rows := Versions.succeeded version now before after old none }, 1) := by
  have passes : isEnded c version.closing.columnName e.storageKeys parameters old = true := by
    rw [isEnded, hasKeys_self versioned isOpen binds isOpen.keyed rfl,
      (Record.interval?_eq_open_iff.mp isOpen.interval).2]
    rfl
  have others : ∀ record, record ∈ before ∨ record ∈ after →
      isEnded c version.closing.columnName e.storageKeys parameters record = false := fun record member => by
    rw [isEnded, hasKeys_eq_false versioned versions isOpen binds member, Bool.false_and]
  rw [closeStatement_execute? (known _ versioned.closing)
    (fun a member => known a (versioned.storageKeys_scalars hasColumns a member)) nowBound binds.bound,
    rows, map_if_single passes others, countP_single passes others, nowValue, Versions.succeeded,
    Option.toList_none, List.append_nil]
  rfl

theorem successor_execute?_ended (versioned : e.IsVersioned version) (hasColumns : e.HasColumns)
    (different : version.opening.columnName ≠ version.closing.columnName)
    (written : AreWritten e columns) (known : ∀ a ∈ e.scalars, a.columnName ∈ (db e.table).columns)
    (rows : (db e.table).rows = Versions.succeeded version now before after old none)
    (versions : Versions c e version (before ++ old :: after)) (isOpen : old.IsOpen c e version opening)
    (keyed : keys.map Prod.fst = e.storageKeys)
    (binds : BindsKeys e old (successorParameters columns data now keys)) :
    (successor e version.opening.columnName columns keys).execute? c
        (successorParameters columns data now keys) db =
      some (Function.update db e.table { db e.table with
        rows := Versions.succeeded version now before after old
          (some (succeeding c e version.opening.columnName columns
            (successorParameters columns data now keys) (old.ended version now))) }, 1) := by
  have passes : hasKeys c e.storageKeys (successorParameters columns data now keys)
      (old.ended version now) = true :=
    hasKeys_self versioned isOpen binds (Record.sameKey_ended versioned hasColumns isOpen)
      (Function.update_of_ne different _ _)
  have others : ∀ record, record ∈ before ∨ record ∈ after →
      hasKeys c e.storageKeys (successorParameters columns data now keys) record = false :=
    fun record member => hasKeys_eq_false versioned versions isOpen binds member
  have accepted : (db e.table).accepts
      ((successorItems e version.opening.columnName columns).map Prod.fst) := by
    refine ⟨successorItems_nodup versioned hasColumns written, fun column member => ?_⟩
    rw [successorItems_columns hasColumns] at member
    obtain ⟨a, selected, rfl⟩ := List.mem_map.mp member
    exact known a (successorAttributes_scalars versioned hasColumns written a selected)
  have keysKnown : ∀ a ∈ keys.map Prod.fst, a.columnName ∈ (db e.table).columns := by
    rw [keyed]
    exact fun a member => known a (versioned.storageKeys_scalars hasColumns a member)
  rw [successor_execute? accepted keysKnown, keyed, rows, Versions.succeeded, Option.toList_none,
    List.append_nil, filter_single passes others, countP_single passes others, Versions.succeeded]
  rfl

/-- The next version of a row begins where the one before has ended, and is of the same row. -/
theorem succeeding_succeeds (versioned : e.IsVersioned version) (hasColumns : e.HasColumns)
    (different : version.opening.columnName ≠ version.closing.columnName)
    (written : AreWritten e columns) (keyed : keys.map Prod.fst = e.storageKeys) :
    Versions.Succeeds e version now old (succeeding c e version.opening.columnName columns
      (successorParameters columns data now keys) (old.ended version now)) where
  interval := by
    rw [Record.interval?_eq_open_iff]
    exact ⟨succeeding_opening versioned hasColumns written keyed,
      succeeding_closing versioned hasColumns written fun same => different (same ▸ rfl)⟩
  keys key member := by
    rw [succeeding_carried versioned hasColumns written (List.mem_append_left _ member),
      Record.ended_key versioned hasColumns member]

end Planning

end ViewEngine
