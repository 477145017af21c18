import ViewEngine.Proofs.Writing.Nodes

namespace ViewEngine

open Sql Planning BoundParameter

namespace ColumnType

theorem isNull_read {α : Type} (read : Option α) (form : α → Value) (text : String)
    (present : ∀ a, (form a).isNull = false) : ((read.map form).getD (.text text)).isNull = false := by
  cases read with
  | none => rfl
  | some a => exact present a

theorem isNull_toBoolean (value : Value) : (toBoolean value).isNull = value.isNull := by
  cases value with
  | text s =>
      simp only [toBoolean]
      split
      · rfl
      · split <;> rfl
  | _ => rfl

theorem isNull_toIntegral (value : Value) : (toIntegral value).isNull = value.isNull := by
  cases value with
  | float x =>
      simp only [toIntegral]
      split <;> rfl
  | text s =>
      rw [toIntegral]
      exact isNull_read _ _ s fun _ => rfl
  | _ => rfl

theorem isNull_toFractional (value : Value) : (toFractional value).isNull = value.isNull := by
  cases value with
  | text s =>
      rw [toFractional]
      exact isNull_read _ _ s fun _ => rfl
  | _ => simp only [toFractional, Value.isNull]

theorem isNull_toTextual (value : Value) : (toTextual value).isNull = value.isNull := by
  cases value <;> simp only [toTextual, Value.isNull]

theorem isNull_toTemporal (value : Value) : (toTemporal value).isNull = value.isNull := by
  cases value with
  | text s =>
      rw [toTemporal]
      exact isNull_read _ _ s fun _ => rfl
  | _ => rfl

theorem isNull_coerce (type : ColumnType) (value : Value) : (type.coerce value).isNull = value.isNull := by
  cases type <;>
    simp only [coerce, isNull_toBoolean, isNull_toIntegral, isNull_toFractional, isNull_toTextual,
      isNull_toTemporal]

end ColumnType

namespace Planning

variable {e other : Entity} {data : Row} {keys : List (Attribute × Value)} {s : Statement}
  {parameters : List BoundParameter} {columns : List Attribute}

structure IsPinned (e : Entity) (conditions : List Condition) (parameters : List BoundParameter) : Prop where
  conjunction : ∃ further, conditions = (e.storageKeys.map pin ++ further).map .predicate
  bound : ∀ a ∈ e.storageKeys, ∃ p ∈ parameters, p.name = keyName a.columnName
  known : ∀ p ∈ parameters, p.isKey = true → p.value.isNull = false

def AssignsWritable (e : Entity) (s : Statement) : Prop :=
  ∃ columns, AreWritten e columns ∧ s.assignments = columns.map fun a => (a.columnName, placeholder a)

def AssignsEnd (e : Entity) (s : Statement) : Prop :=
  ∃ version, e.version = some version ∧ s.assignments = [(version.closing.columnName, nowPlaceholder)]

inductive ChangesStored (e : Entity) (s : Statement) (parameters : List BoundParameter) (inPlace : Bool) : Prop
  | update (kind : s.kind = .update) (assigns : AssignsWritable e s)
      (pinned : IsPinned e s.conditions parameters)
  | close (slow : inPlace = false) (kind : s.kind = .update) (assigns : AssignsEnd e s)
      (pinned : IsPinned e s.conditions parameters)
  | successor (slow : inPlace = false) (kind : s.kind = .insert) {source : Statement}
      (fed : s.source = some source) (selects : source.kind = .select)
      (pinned : IsPinned e source.conditions parameters)

inductive TakesAway (e : Entity) (s : Statement) (parameters : List BoundParameter) : Prop
  | close (kind : s.kind = .update) (assigns : AssignsEnd e s) (pinned : IsPinned e s.conditions parameters)
  | delete (kind : s.kind = .delete) (pinned : IsPinned e s.conditions parameters)

theorem keyValues_known {path : String} {row : Nat} (keyed : keyValues e data path row = .ok keys) :
    ∀ key ∈ keys, key.2.isNull = false := by
  intro key member
  obtain ⟨a, -, found⟩ := exists_of_mem_mapM keyed member
  split at found
  · contradiction
  · contradiction
  next value present _ =>
    cases found
    cases value <;> first | rfl | exact absurd rfl present

theorem isPinned_of_keys {path : String} {row : Nat} (keyed : keyValues e data path row = .ok keys)
    (further : List Expr) (binds : parameters.filter (·.isKey) = keyParameters keys) :
    IsPinned e (((keys.map Prod.fst).map pin ++ further).map .predicate) parameters where
  conjunction := ⟨further, by rw [(keyValues_held keyed).1]⟩
  bound a member := by
    rw [← (keyValues_held keyed).1] at member
    obtain ⟨key, inside, rfl⟩ := List.mem_map.mp member
    have bound := mem_keyParameters inside
    rw [← binds] at bound
    exact ⟨_, (List.mem_filter.mp bound).1, rfl⟩
  known p member isKey := by
    have bound := List.mem_filter.mpr ⟨member, isKey⟩
    rw [binds] at bound
    obtain ⟨key, inside, rfl⟩ := List.mem_map.mp bound
    exact (ColumnType.isNull_coerce ..).trans (keyValues_known keyed key inside)

section Nodes

variable {context : Context} {row : Nat} {node path : String} {writes : List Write}

theorem updateWrite_changes (keyed : keyValues e data path row = .ok keys) (written : AreWritten e columns)
    (inPlace : Bool) (binds : parameters.filter (·.isKey) = keyParameters keys) :
    ChangesStored e (updateWrite e path data columns keys).statement parameters inPlace := by
  rw [updateWrite_statement]
  have pinned := isPinned_of_keys keyed [] binds
  rw [List.append_nil] at pinned
  exact .update rfl ⟨columns, written, rfl⟩ pinned

theorem closing_kind (column : String) (now : Timestamp) : (closing e column now keys).1.kind = .update := by
  rw [closing_eq]
  rfl

theorem closing_assignsEnd {version : VersionColumns} {column : String} (now : Timestamp)
    (declared : e.version = some version) (closes : version.closing.column = some column) :
    AssignsEnd e (closing e column now keys).1 := by
  refine ⟨version, declared, ?_⟩
  rw [closing_eq, Attribute.columnName, closes]
  rfl

theorem closing_pinned {column : String} (now : Timestamp) (keyed : keyValues e data path row = .ok keys)
    (binds : parameters.filter (·.isKey) = keyParameters keys) :
    IsPinned e (closing e column now keys).1.conditions parameters := by
  rw [closing_eq]
  exact isPinned_of_keys keyed _ binds

theorem StoresNode.changes (stores : StoresNode context row node e data columns keys writes)
    (keyed : keyValues e data path row = .ok keys) (written : AreWritten e columns) :
    ∀ w ∈ writes, ChangesStored e w.statement w.parameters context.fastUpdate := by
  intro w member
  have binds := stores.binds w member
  generalize context.writeTime = now at *
  cases stores with
  | update =>
      cases List.mem_singleton.mp member
      exact updateWrite_changes keyed written _ binds
  | version declared slow opens closes =>
      rcases member with _ | ⟨_, _ | ⟨_, ⟨⟩⟩⟩
      · exact .close slow (closing_kind _ now) (closing_assignsEnd now declared closes)
          (closing_pinned now keyed binds)
      · have pinned := isPinned_of_keys keyed [] binds
        rw [List.append_nil] at pinned
        rw [successorWrite, successor_eq]
        exact .successor slow rfl rfl rfl pinned

theorem Removes.takesAway {now : Timestamp} {w : Write} (removes : Removes now e keys w)
    (keyed : keyValues e data path row = .ok keys) : TakesAway e w.statement w.parameters := by
  have binds := removes.binds
  cases removes with
  | close closes =>
      obtain ⟨version, declared, closes⟩ := Option.bind_eq_some_iff.mp closes
      exact .close (closing_kind _ now) (closing_assignsEnd now declared closes) (closing_pinned now keyed binds)
  | delete =>
      refine .delete ?_ ?_
      · exact congrArg Statement.kind (pinned_eq ..)
      · have pinned := isPinned_of_keys keyed [] binds
        rw [List.append_nil] at pinned
        dsimp only
        rw [pinned_eq]
        exact pinned

end Nodes

end Planning

end ViewEngine
