import ViewEngine.Proofs.Concurrency.Plans

namespace ViewEngine

open Sql

namespace Planning

variable {v : CompiledView} {strict : Bool} {context : Context} {row : Nat} {r : ViewRow} {node : String}
  {writes : List Write} {e : Entity} {data : Row} {columns : List Attribute} {keys : List (Attribute × Value)}

def writtenColumns (v : CompiledView) (e : Entity) (path : String) (data : Row) (changed : List Attribute) :
    List Attribute :=
  ((linkColumns v.joinPlan e path (if path.isEmpty then none else v.joinPlan.atPath? path)).filter
    (data.contains ·.property)).foldl (fun columns a => a.addTo columns) changed

def closeWrite (e : Entity) (column path : String) (now : Timestamp) (keys : List (Attribute × Value)) :
    Write where
  path := path
  statement := (closing e column now keys).1
  parameters := (closing e column now keys).2
  requiresMatch := true

def successorWrite (e : Entity) (opening property path : String) (row : Nat) (node : String)
    (now : Timestamp) (data : Row) (columns : List Attribute) (keys : List (Attribute × Value)) : Write where
  path := path
  statement := successor e opening columns keys
  parameters := successorParameters columns data now keys
  reopens := some ⟨row, node, property⟩

/-- The writes of a node with keys and columns to write. -/
inductive StoresNode (context : Context) (row : Nat) (node : String) (e : Entity) (data : Row)
    (columns : List Attribute) (keys : List (Attribute × Value)) : List Write → Prop
  | update (inPlace : e.version = none ∨ context.fastUpdate = true) : StoresNode context row node e data columns
      keys [updateWrite e (Path.withoutPositions node) data columns keys]
  | version {version : VersionColumns} {opening closing : String} (declared : e.version = some version)
      (slow : context.fastUpdate = false) (opens : version.opening.column = some opening)
      (closes : version.closing.column = some closing) : StoresNode context row node e data columns keys
        [closeWrite e closing (Path.withoutPositions node) context.writeTime keys,
          successorWrite e opening version.opening.property (Path.withoutPositions node) row node
            context.writeTime data columns keys]

inductive PlansNode (v : CompiledView) (strict : Bool) (context : Context) (row : Nat) (r : ViewRow)
    (node : String) : List Write → Prop
  | unresolved (none : v.entityAt? r.data (Path.withoutPositions node) = none) :
      PlansNode v strict context row r node []
  | absent (missing : r.data.nodeAt node = .ok none) : PlansNode v strict context row r node []
  | unchanged {e : Entity} (entity : v.entityAt? r.data (Path.withoutPositions node) = some e)
      (nothing : changedColumns strict e (Path.withoutPositions node) (r.changedAt node) [] = .ok []) :
      PlansNode v strict context row r node []
  | stored {e : Entity} {data : Row} {changed : List Attribute} {keys : List (Attribute × Value)}
      {writes : List Write} (entity : v.entityAt? r.data (Path.withoutPositions node) = some e)
      (standing : r.data.nodeAt node = .ok (some data))
      (found : changedColumns strict e (Path.withoutPositions node) (r.changedAt node) [] = .ok changed)
      (keyed : keyValues e data (Path.withoutPositions node) row = .ok keys)
      (stores : StoresNode context row node e data
        (writtenColumns v e (Path.withoutPositions node) data changed) keys writes) :
      PlansNode v strict context row r node writes

theorem versionWrites_stores {version : VersionColumns} (declared : e.version = some version)
    (slow : context.fastUpdate = false)
    (planned : versionWrites e version context.writeTime row node (Path.withoutPositions node) data columns
      keys = .ok writes) : StoresNode context row node e data columns keys writes := by
  unfold versionWrites at planned
  split at planned
  next opens closes =>
    cases planned
    exact .version declared slow opens closes
  next => contradiction

theorem nodeWrites_plans (planned : nodeWrites v strict context row r node = .ok writes) :
    PlansNode v strict context row r node writes := by
  unfold nodeWrites at planned
  dsimp only at planned
  generalize linked : (if (Path.withoutPositions node).isEmpty then none
    else v.joinPlan.atPath? (Path.withoutPositions node)) = link at planned
  have resolved : v.entityAt? r.data (Path.withoutPositions node) =
      if !(Path.withoutPositions node).isEmpty && link.isNone then none
      else some ((link.map (·.entity)).getD (v.rootOf r.data)) := by
    unfold CompiledView.entityAt?
    split at linked
    next root => simp [root, ← linked]
    next nested => cases link <;> simp [nested, linked]
  split at planned
  next unknown =>
    obtain ⟨-, -, planned⟩ := bind_eq_ok.mp planned
    cases planned
    exact .unresolved (resolved.trans (if_pos unknown))
  next known =>
    have entity := resolved.trans (if_neg known)
    obtain ⟨standing, found, planned⟩ := bind_eq_ok.mp planned
    split at planned
    next =>
      cases planned
      exact .absent found
    next data =>
      obtain ⟨changed, isChanged, planned⟩ := bind_eq_ok.mp planned
      split at planned
      next nothing =>
        cases planned
        rw [List.isEmpty_iff.mp nothing] at isChanged
        exact .unchanged entity isChanged
      next =>
        obtain ⟨keys, keyed, planned⟩ := bind_eq_ok.mp planned
        refine .stored entity found isChanged keyed ?_
        rw [writtenColumns, linked]
        generalize (link.map (·.entity)).getD (v.rootOf r.data) = e at planned ⊢
        split at planned
        next version declared slow => exact versionWrites_stores declared slow planned
        next inPlace =>
          cases planned
          refine .update ?_
          cases declared : e.version with
          | none => exact .inl rfl
          | some version => exact .inr (Bool.eq_true_of_not_eq_false (inPlace version declared))

theorem subset_foldl_addTo (links columns : List Attribute) :
    columns ⊆ links.foldl (fun columns a => a.addTo columns) columns := by
  induction links generalizing columns with
  | nil => exact List.Subset.refl _
  | cons a rest ih =>
      refine List.Subset.trans (fun b member => ?_) (ih (a.addTo columns))
      unfold Attribute.addTo
      split
      · exact member
      · exact List.mem_append_left _ member

theorem subset_writtenColumns (path : String) (changed : List Attribute) :
    changed ⊆ writtenColumns v e path data changed :=
  subset_foldl_addTo _ _

theorem writtenColumns_written {path : String} {properties : List String} {changed : List Attribute}
    (found : changedColumns strict e path properties [] = .ok changed) :
    AreWritten e (writtenColumns v e path data changed) :=
  (changedColumns_written areWritten_nil found).foldl_addTo _ fun _ member =>
    mem_linkColumns (List.mem_filter.mp member).1

/-- The write that takes a stored row of an entity away. -/
inductive Removes (now : Timestamp) (e : Entity) (keys : List (Attribute × Value)) : Write → Prop
  | close {column : String} (closes : e.version.bind (·.closing.column) = some column) :
      Removes now e keys { closeWrite e column "" now keys with batch := some removalKey }
  | delete (unversioned : e.version.bind (·.closing.column) = none) : Removes now e keys
      { path := "", statement := pinned (.deleteFrom e.table) keys, parameters := keyParameters keys,
        batch := some ⟨"", .delete, []⟩ }

theorem removalWrite_removes {w : Write} (planned : removalWrite v context row data = .ok w) :
    ∃ keys, keyValues (v.rootOf data) data "" row = .ok keys ∧
      Removes context.writeTime (v.rootOf data) keys w := by
  obtain ⟨keys, keyed, planned⟩ := bind_eq_ok.mp planned
  refine ⟨keys, keyed, ?_⟩
  split at planned
  next column closes =>
    cases planned
    exact .close closes
  next unversioned =>
    cases planned
    exact .delete unversioned

section Keys

open BoundParameter

theorem isKey_of (column : String) (value : Value) (type : ColumnType) :
    (BoundParameter.of (keyName column) value type).isKey = true := by
  simp [isKey, BoundParameter.of, keyName]

theorem isKey_of_value (column : String) (value : Value) (type : ColumnType) :
    (BoundParameter.of (valueName column) value type).isKey = false := by
  simp [isKey, BoundParameter.of, valueName, List.isPrefixOf]

theorem filter_keyParameters (keys : List (Attribute × Value)) :
    (keyParameters keys).filter (·.isKey) = keyParameters keys := by
  refine List.filter_eq_self.mpr fun p member => ?_
  obtain ⟨key, -, rfl⟩ := List.mem_map.mp member
  exact isKey_of ..

theorem filter_valueParameters (columns : List Attribute) (data : Row) :
    (valueParameters columns data).filter (·.isKey) = [] := by
  refine List.filter_eq_nil_iff.mpr fun p member => ?_
  obtain ⟨a, -, rfl⟩ := List.mem_map.mp member
  simp [valueParameter, isKey_of_value]

/-- Among the parameters of each write of a node are its keys, and no others. -/
theorem StoresNode.binds (stores : StoresNode context row node e data columns keys writes) :
    ∀ w ∈ writes, w.parameters.filter (·.isKey) = keyParameters keys := by
  have noNow : (BoundParameter.now context.writeTime).isKey = false := by
    simp [isKey, BoundParameter.now, BoundParameter.of, nowName, List.isPrefixOf]
  intro w member
  cases stores with
  | update =>
      cases List.mem_singleton.mp member
      rw [updateWrite, List.filter_append, filter_valueParameters, filter_keyParameters, List.nil_append]
  | version =>
      rcases member with _ | ⟨_, _ | ⟨_, ⟨⟩⟩⟩
      · rw [closeWrite, closing_eq, List.filter_cons_of_neg (by simp [noNow]), filter_keyParameters]
      · rw [successorWrite, successorParameters, List.filter_append, List.filter_append,
          filter_valueParameters, filter_keyParameters, List.filter_cons_of_neg (by simp [noNow])]
        rfl

theorem Removes.binds {now : Timestamp} {w : Write} (removes : Removes now e keys w) :
    w.parameters.filter (·.isKey) = keyParameters keys := by
  have noNow : (BoundParameter.now now).isKey = false := by
    simp [isKey, BoundParameter.now, BoundParameter.of, nowName, List.isPrefixOf]
  cases removes with
  | close => rw [closeWrite, closing_eq, List.filter_cons_of_neg (by simp [noNow]), filter_keyParameters]
  | delete => exact filter_keyParameters keys

end Keys

end Planning

end ViewEngine
