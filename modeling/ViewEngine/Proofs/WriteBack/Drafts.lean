import Mathlib.Data.List.Perm.Basic
import ViewEngine.Proofs.Compilation.Paths
import ViewEngine.Proofs.Keyed
import ViewEngine.Proofs.Propagation.Addresses
import ViewEngine.Proofs.Relational.Execution
import ViewEngine.Proofs.Schema.Entities

/-!
The rows of a view as a caller edits them. What a caller does is followed on drafts of the rows, which say from
which row of the table each was read and what has been set in it; the rows of the view hold the same.
-/

namespace ViewEngine

def Value.isNested : Value → Bool
  | .list _ | .row _ => true
  | _ => false

/-- A change that a caller makes to the rows of a view. -/
inductive RowEdit where
  | set (row : Nat) (property : String) (value : Value)
  | append
  | remove (row : Nat)

namespace View

def perform (v : View) : RowEdit → View
  | .set row property value => (v.setValue value row property).1
  | .append => v.appendRow.1
  | .remove row => (v.removeRow row).1

def performAll (v : View) (edits : List RowEdit) : View :=
  edits.foldl perform v

end View

/-- A row as it is edited: the row of the table that it was read from, unless it is new, and the values that have
been set, last first. -/
structure Draft where
  stored : Option Record
  values : List (String × Value) := []

/-- Whether a property can be set in a row; what looks like the position of an element cannot. -/
def isSettable (property : String) : Bool :=
  !property.isEmpty && !property.toList.contains '['

namespace Draft

def set (property : String) (value : Value) (d : Draft) : Draft :=
  { d with values := (property, value) :: d.values }

/-- The drafts of rows that have just been read, each with the row of the table. -/
def ofLoaded (loaded : List (Row × Record)) : List Draft :=
  loaded.map fun entry => { stored := some entry.2 }

def edit (drafts : List Draft) : RowEdit → List Draft
  | .set row property value => if isSettable property then drafts.modify row (set property value) else drafts
  | .append => drafts ++ [{ stored := none }]
  | .remove row => drafts.eraseIdx row

def editAll (drafts : List Draft) (edits : List RowEdit) : List Draft :=
  edits.foldl edit drafts

/-- A value is set that can be written: one that is not nested, in a column of a new row, or in one of a stored row
that may change. -/
def Permits (e : Entity) (drafts : List Draft) : RowEdit → Prop
  | .set row property value => value.isNested = false ∧ ∃ a ∈ e.scalars, a.property = property ∧
    ∀ d, drafts[row]? = some d → d.stored.isSome = true → e.isWritable a = true
  | .append | .remove _ => True

/-- Each change is permitted for the rows as the ones before have left them. -/
def PermitsAll (e : Entity) : List Draft → List RowEdit → Prop
  | _, [] => True
  | drafts, change :: rest => Permits e drafts change ∧ PermitsAll e (edit drafts change) rest

def implied (e : Entity) : Record :=
  Record.missing.assign
    (e.discriminator.toList.map fun d => (d.subject.columnName, d.subject.columnType.coerce d.value))

/-- The values that have been set last, in the forms of their columns. -/
def assigned (e : Entity) (d : Draft) : List (String × Value) :=
  e.scalars.filterMap fun a => (d.values.lookup a.property).map fun value => (a.columnName, a.columnType.coerce value)

/-- The row of the table that a draft stands for. -/
def record (e : Entity) (d : Draft) : Record :=
  (d.stored.getD (implied e)).assign (d.assigned e)

end Draft

/-- A row holds the keys of the row of the table that it was read from. -/
structure Row.Loads (e : Entity) (data : Row) (record : Record) : Prop where
  keys : ∀ a ∈ e.identityKeys, ∃ value, data.get? a.property = some value ∧
    record a.columnName = a.columnType.coerce value
  stored : data.contains newRowMark = false

/-- The names of columns by which a view can tell them from its own properties. -/
def CompiledView.Admits (v : CompiledView) (e : Entity) : Prop :=
  ∀ a ∈ e.scalars, '.' ∉ a.property.toList ∧ a.property ≠ newRowMark ∧ a.property ≠ v.rootKeyAlias

structure Draft.Shows (e : Entity) (d : Draft) (r : ViewRow) : Prop where
  isNew : r.isNew = d.stored.isNone
  changed : ∀ property, property ∈ r.changed ↔ (d.values.lookup property).isSome = true
  held : ∀ property value, d.values.lookup property = some value → r.data.get? property = some value
  columns : ∀ entry ∈ d.values, entry.2.isNested = false ∧ ∃ a ∈ e.scalars, a.property = entry.1 ∧
    (d.stored.isSome = true → e.isWritable a = true)
  loaded : ∀ old, d.stored = some old → r.data.Loads e old
  added : d.stored = none → r.data.IsAscending ∧
    ∀ property ≠ newRowMark, r.data.get? property = d.values.lookup property

theorem ViewRow.assign_root (r : ViewRow) (property : String) (value : Value) :
    r.assign "" property value = (⟨r.data.insert property value, r.changed.insert property⟩, .ok ()) :=
  rfl

namespace View

variable {v : View} {row : Nat} {path : String} {value : Value}

theorem resolve_of_single {step : PathStep} (parsed : Path.read path = .ok [step]) :
    v.resolve row path = .ok (row, path) := by
  rw [resolve, parsed]
  rfl

/-- A property of a root row is set and recorded, unless it looks like the position of an element. -/
theorem setValue_of_whole (whole : '.' ∉ path.toList) :
    (v.setValue value row path).1 = if isSettable path then
      { v with rows := v.rows.modify row fun r => ⟨r.data.insert path value, r.changed.insert path⟩ } else v := by
  have parts : Path.read path = if path.isEmpty then .error .emptyPath else [path].mapM PathStep.read := by
    rw [Path.read, Path.split_plain whole]
  unfold setValue
  cases empty : path.isEmpty with
  | true =>
      have failed : v.resolve row path = .error .emptyPath := by
        rw [resolve, parts, empty]
        rfl
      simp only [failed, isSettable, empty, Bool.not_true, Bool.false_and, Bool.false_eq_true, if_false]
  | false =>
      rw [empty, if_neg Bool.false_ne_true] at parts
      have nonempty : path ≠ "" := by simpa using empty
      cases bracket : path.toList.contains '[' with
      | true =>
          have kept : isSettable path = false := by rw [isSettable, empty, bracket]; rfl
          rw [kept, if_neg Bool.false_ne_true]
          cases readable : PathStep.read path with
          | error fault =>
              have failed : v.resolve row path = .error fault := by
                rw [resolve, parts, List.mapM_cons, readable]
                rfl
              simp only [failed]
          | ok step =>
              rw [List.mapM_cons, readable] at parts
              simp only [resolve_of_single parts]
              split
              · rfl
              · simp only [Path.splitProperty_of_whole whole, bracket, if_true]
      | false =>
          have settable : isSettable path = true := by rw [isSettable, empty, bracket]; rfl
          rw [List.mapM_cons, PathStep.read_of_plain nonempty bracket] at parts
          simp only [resolve_of_single parts, settable, if_true]
          split
          next missing =>
            rw [List.modify_eq_self (List.getElem?_eq_none_iff.mp missing)]
          next r standing =>
            simp only [Path.splitProperty_of_whole whole, bracket, ViewRow.assign_root, Prod.map_fst,
              Bool.false_eq_true, if_false]
            refine congrArg (View.mk v.compiled · v.removed) (List.ext_getElem? fun place => ?_)
            rw [List.getElem?_modify, List.getElem?_set]
            split
            next same =>
              subst same
              rw [if_pos (List.getElem?_eq_some_iff.mp standing).1, standing]
              rfl
            next different => simp

end View

variable {e : Entity} {d : Draft} {r : ViewRow} {a : Attribute} {value : Value}

theorem Row.Loads.set {data : Row} {old : Record} (loads : data.Loads e old)
    (notKey : ∀ key ∈ e.identityKeys, key.property ≠ a.property) (named : a.property ≠ newRowMark) :
    Row.Loads e (data.insert a.property value) old where
  keys key member := by
    obtain ⟨found, held, same⟩ := loads.keys key member
    exact ⟨found, (Keyed.get?_insert_of_ne (notKey key member) ..).trans held, same⟩
  stored := by
    rw [Keyed.contains, Keyed.get?_insert_of_ne named.symm]
    exact loads.stored

namespace Draft

theorem Shows.set (shows : d.Shows e r) (properties : (e.attributes.map (·.property)).Nodup)
    (scalar : a ∈ e.scalars) (plain : value.isNested = false) (named : a.property ≠ newRowMark)
    (writable : d.stored.isSome = true → e.isWritable a = true) :
    (d.set a.property value).Shows e ⟨r.data.insert a.property value, r.changed.insert a.property⟩ where
  isNew := by
    rw [ViewRow.isNew, Keyed.contains, Keyed.get?_insert_of_ne named.symm]
    exact shows.isNew
  changed property := by
    rw [Names.mem_insert, shows.changed, Draft.set, List.lookup_cons]
    by_cases same : property = a.property
    · simp [same]
    · simp [same, beq_false_of_ne same]
  held property found isSet := by
    rw [Draft.set, List.lookup_cons] at isSet
    by_cases same : property = a.property
    · subst same
      simp only [beq_self_eq_true, Option.some.injEq] at isSet
      rw [Keyed.get?_insert_self, isSet]
    · rw [beq_false_of_ne same] at isSet
      rw [Keyed.get?_insert_of_ne same]
      exact shows.held property found isSet
  columns entry member := by
    rcases List.mem_cons.mp member with rfl | before
    · exact ⟨plain, a, scalar, rfl, writable⟩
    · exact shows.columns entry before
  loaded old isStored := by
    have canWrite := writable (Option.isSome_of_eq_some isStored)
    refine (shows.loaded old isStored).set (fun key member same => ?_) named
    obtain ⟨inside, primary, -⟩ := Entity.mem_identityKeys_iff.mp member
    cases List.inj_on_of_nodup_map properties inside (Entity.mem_attributes_of_scalar scalar) same
    simp [Entity.isWritable, primary] at canWrite
  added isAdded := by
    obtain ⟨ascending, same⟩ := shows.added isAdded
    refine ⟨ascending.insert .., fun property different => ?_⟩
    rw [Draft.set, List.lookup_cons]
    by_cases here : property = a.property
    · subst here
      rw [Keyed.get?_insert_self, beq_self_eq_true]
    · rw [Keyed.get?_insert_of_ne here, beq_false_of_ne here]
      exact same property different

theorem shows_appended : Shows e { stored := none } ⟨[(newRowMark, .bool true)], []⟩ where
  isNew := rfl
  changed := by simp
  held := by simp
  columns := by simp
  loaded := by simp
  added _ := ⟨List.pairwise_singleton .., fun property different => by simp [Keyed.get?, different.symm]⟩

theorem shows_loaded {data : Row} {old : Record} (loads : data.Loads e old) :
    Shows e { stored := some old } ⟨data, []⟩ where
  isNew := loads.stored
  changed := by simp
  held := by simp
  columns := by simp
  loaded other same := Option.some.inj same ▸ loads
  added := by simp

end Draft

section Lists

variable {α β : Type} {R : α → β → Prop} {items : List α} {others : List β}

theorem forall₂_modify {f : α → α} {g : β → β} {place : Nat} (each : List.Forall₂ R items others)
    (step : ∀ a b, items[place]? = some a → R a b → R (f a) (g b)) :
    List.Forall₂ R (items.modify place f) (others.modify place g) := by
  induction each generalizing place with
  | nil => simp
  | cons first _ ih =>
      cases place with
      | zero => exact .cons (step _ _ rfl first) ‹_›
      | succ place => exact .cons first (ih fun a b found => step a b found)

theorem forall₂_eraseIdx (each : List.Forall₂ R items others) (place : Nat) :
    List.Forall₂ R (items.eraseIdx place) (others.eraseIdx place) := by
  induction each generalizing place with
  | nil => exact .nil
  | cons first later ih =>
      cases place with
      | zero => exact later
      | succ place => exact .cons first (ih place)

theorem filterMap_modify {f : α → α} {g : α → Option β} (same : ∀ a, g (f a) = g a) (items : List α)
    (place : Nat) : (items.modify place f).filterMap g = items.filterMap g := by
  induction items generalizing place with
  | nil => cases place <;> rfl
  | cons first rest ih =>
      cases place with
      | zero => rw [List.modify_zero_cons, List.filterMap_cons, List.filterMap_cons, same]
      | succ place => rw [List.modify_succ_cons, List.filterMap_cons, List.filterMap_cons, ih]

end Lists

structure View.IsDrafted (e : Entity) (records : List Record) (drafts : List Draft) (v : View) : Prop where
  rows : List.Forall₂ (Draft.Shows e) drafts v.rows
  removed : ∃ gone, List.Forall₂ (Row.Loads e) v.removed gone ∧
    (drafts.filterMap (·.stored) ++ gone).Perm records

namespace View

variable {v : View} {e : Entity} {records : List Record} {drafts : List Draft} {change : RowEdit}

theorem perform_compiled : (v.perform change).compiled = v.compiled := by
  cases change with
  | set row property value => exact setValue_compiled
  | append => rfl
  | remove row =>
      simp only [perform, removeRow]
      split <;> rfl

theorem IsDrafted.set (drafted : v.IsDrafted e records drafts)
    (properties : (e.attributes.map (·.property)).Nodup) (named : v.compiled.Admits e) {row : Nat}
    {property : String} {value : Value} (permitted : Draft.Permits e drafts (.set row property value)) :
    (v.perform (.set row property value)).IsDrafted e records (Draft.edit drafts (.set row property value)) := by
  obtain ⟨plain, a, scalar, rfl, writable⟩ := permitted
  obtain ⟨whole, notMark, -⟩ := named a scalar
  rw [perform, setValue_of_whole whole, Draft.edit]
  split
  next =>
    refine ⟨forall₂_modify drafted.rows fun d r there shows =>
      shows.set properties scalar plain notMark (writable d there), ?_⟩
    obtain ⟨gone, loaded, same⟩ := drafted.removed
    refine ⟨gone, loaded, ?_⟩
    rwa [filterMap_modify (f := Draft.set a.property value) fun d => rfl]
  next => exact drafted

theorem IsDrafted.append (drafted : v.IsDrafted e records drafts) :
    (v.perform .append).IsDrafted e records (Draft.edit drafts .append) where
  rows := List.rel_append drafted.rows (.cons Draft.shows_appended .nil)
  removed := by
    obtain ⟨gone, loaded, same⟩ := drafted.removed
    refine ⟨gone, loaded, ?_⟩
    rwa [Draft.edit, List.filterMap_append, List.filterMap_cons_none rfl, List.filterMap_nil, List.append_nil]

/-- What is taken out is one row less, and one more to be deleted if it was read from the table. -/
theorem IsDrafted.remove (drafted : v.IsDrafted e records drafts) (row : Nat) :
    (v.perform (.remove row)).IsDrafted e records (Draft.edit drafts (.remove row)) := by
  have length := drafted.rows.length_eq
  rw [perform, removeRow, Draft.edit]
  split
  next missing =>
    rw [List.eraseIdx_of_length_le (length ▸ List.getElem?_eq_none_iff.mp missing)]
    exact drafted
  next r standing =>
    obtain ⟨inside, rfl⟩ := List.getElem?_eq_some_iff.mp standing
    have shows : drafts[row].Shows e v.rows[row] := drafted.rows.get (length ▸ inside) inside
    obtain ⟨gone, loaded, same⟩ := drafted.removed
    refine ⟨forall₂_eraseIdx drafted.rows row, ?_⟩
    have parted := (List.getElem_cons_eraseIdx_perm (length ▸ inside : row < drafts.length)).filterMap (·.stored)
    have isNew := shows.isNew
    cases stored : drafts[row].stored with
    | none =>
        rw [stored] at isNew
        rw [List.filterMap_cons_none stored] at parted
        refine ⟨gone, ?_, (parted.append_right gone).trans same⟩
        simpa [isNew] using loaded
    | some old =>
        rw [stored] at isNew
        rw [List.filterMap_cons_some stored] at parted
        refine ⟨gone ++ [old], ?_, ?_⟩
        · simpa [isNew] using List.rel_append loaded (.cons (shows.loaded old stored) .nil)
        · rw [← List.append_assoc]
          exact ((List.perm_append_singleton ..).trans (parted.append_right gone)).trans same

theorem IsDrafted.perform (drafted : v.IsDrafted e records drafts)
    (properties : (e.attributes.map (·.property)).Nodup) (named : v.compiled.Admits e)
    (permitted : Draft.Permits e drafts change) :
    (v.perform change).IsDrafted e records (Draft.edit drafts change) := by
  cases change with
  | set row property value => exact drafted.set properties named permitted
  | append => exact drafted.append
  | remove row => exact drafted.remove row

theorem performAll_compiled (edits : List RowEdit) : (v.performAll edits).compiled = v.compiled := by
  induction edits generalizing v with
  | nil => rfl
  | cons change rest ih => exact ih.trans perform_compiled

theorem IsDrafted.performAll {edits : List RowEdit} (drafted : v.IsDrafted e records drafts)
    (properties : (e.attributes.map (·.property)).Nodup) (named : v.compiled.Admits e)
    (permitted : Draft.PermitsAll e drafts edits) :
    (v.performAll edits).IsDrafted e records (Draft.editAll drafts edits) := by
  induction edits generalizing v drafts with
  | nil => exact drafted
  | cons change rest ih =>
      have same : (v.perform change).compiled = v.compiled := perform_compiled
      exact ih (drafted.perform properties named permitted.1) (same ▸ named) permitted.2

theorem isDrafted_ofRows (compiled : CompiledView) {loaded : List (Row × Record)}
    (loads : ∀ entry ∈ loaded, entry.1.Loads e entry.2) :
    (View.ofRows compiled (loaded.map Prod.fst)).IsDrafted e (loaded.map Prod.snd) (Draft.ofLoaded loaded) where
  rows := by
    rw [ofRows, Draft.ofLoaded, List.map_map, List.forall₂_map_left_iff, List.forall₂_map_right_iff]
    exact List.forall₂_same.mpr fun entry member => Draft.shows_loaded (loads entry member)
  removed := ⟨[], .nil, by simp [Draft.ofLoaded, List.filterMap_map]⟩

end View

end ViewEngine
